import GenC.Base.GrpcStatus
import GenC.Base.Numbers
import GenC.Runtime.OwnedValueId

/-!
# The executor service

`runtime/executor_service.cc`, over the messages of `proto/v0/executor.proto`. The service answers each
request with a `grpc::Status` and a response message, which a client sees only if the status is OK.

On the wire, an id is its decimal representation. `absl::SimpleAtoi` reads more than `absl::StrCat`
writes (a sign, surrounding blanks, leading zeros), but it reads what is written:
**`refToValueId_valueIdToRef`**.
-/

namespace GenC

open Lib

/-! ## Messages

An unset submessage reads as its default instance. -/

structure ValueRef where
  id : String := ""
  deriving Repr, DecidableEq

structure CreateValueRequest where
  value : Option Value := none

structure CreateValueResponse where
  valueRef : Option ValueRef := none
  deriving Repr, DecidableEq

structure CreateCallRequest where
  functionRef : Option ValueRef := none
  argumentRef : Option ValueRef := none
  deriving Repr, DecidableEq

structure CreateCallResponse where
  resultRef : Option ValueRef := none
  deriving Repr, DecidableEq

structure CreateStructRequest where
  elementRef : List ValueRef := []
  deriving Repr, DecidableEq

structure CreateStructResponse where
  structRef : Option ValueRef := none
  deriving Repr, DecidableEq

structure CreateSelectionRequest where
  sourceRef : Option ValueRef := none
  index : Int32 := 0
  deriving Repr, DecidableEq

structure CreateSelectionResponse where
  selectionRef : Option ValueRef := none
  deriving Repr, DecidableEq

structure MaterializeRequest where
  valueRef : Option ValueRef := none
  deriving Repr, DecidableEq

structure MaterializeResponse where
  value : Option Value := none

structure DisposeRequest where
  valueRef : List ValueRef := []
  deriving Repr, DecidableEq

structure DisposeResponse where
  deriving Repr, DecidableEq

/-! ## References -/

def valueIdToRef (id : UInt64) : ValueRef := ⟨toString id.toNat⟩

def refToValueId (ref : ValueRef) : StatusOr UInt64 :=
  match simpleAtoi ref.id with
  | some valueId => .ok valueId
  | none => .error (.invalidArgument ("Invalid value reference: " ++ ref.id))

section RoundTrip

variable {cs : List Char} (h : ∀ c ∈ cs, c.isDigit = true)

include h

theorem dropWhile_isSpace_of_digits : cs.dropWhile isSpace = cs := by
  cases cs with
  | nil => rfl
  | cons c cs =>
      have hc : c.isDigit = true := h c (List.mem_cons_self ..)
      have hspace : isSpace c = false := by
        by_contra hne
        rw [Bool.not_eq_false] at hne
        simp only [isSpace, Bool.or_eq_true, beq_iff_eq] at hne
        rcases hne with ((((rfl | rfl) | rfl) | rfl) | rfl) | rfl <;> revert hc <;> decide
      rw [List.dropWhile_cons, hspace]
      rfl

/-- Digits have no blanks around them. -/
theorem stripSpace_of_digits : stripSpace cs = cs := by
  have hreverse : cs.reverse.dropWhile isSpace = cs.reverse :=
    dropWhile_isSpace_of_digits fun c hc => h c (List.mem_reverse.mp hc)
  rw [stripSpace, dropWhile_isSpace_of_digits h, hreverse, List.reverse_reverse]

/-- Digits have no sign before them. -/
theorem stripPlus_of_digits : stripPlus cs = cs := by
  unfold stripPlus
  split
  · next digits =>
    have hplus : '+'.isDigit = true := h '+' (List.mem_cons_self ..)
    exact absurd hplus (by decide)
  · rfl

end RoundTrip

theorem simpleAtoi_toString (id : UInt64) : simpleAtoi (toString id.toNat) = some id := by
  have hdigits : ∀ c ∈ Nat.toDigits 10 id.toNat, c.isDigit = true := fun c hc =>
    Nat.isDigit_of_mem_toDigits (by decide) (by decide) hc
  have htext : (toString id.toNat).toList = Nat.toDigits 10 id.toNat := Nat.toList_repr
  have hvalue : Nat.ofDigitChars 10 (Nat.toDigits 10 id.toNat) 0 = id.toNat :=
    Nat.ofDigitChars_ten_toDigits
  rw [simpleAtoi, htext, stripSpace_of_digits hdigits, stripPlus_of_digits hdigits, hvalue,
    if_pos ⟨Nat.toDigits_ne_nil, List.all_eq_true.mpr hdigits, id.toNat_lt⟩]
  exact congrArg some UInt64.ofNat_toNat

/-- What a service writes, it can read. -/
@[simp] theorem refToValueId_valueIdToRef (id : UInt64) : refToValueId (valueIdToRef id) = .ok id := by
  rw [refToValueId, valueIdToRef, simpleAtoi_toString]

-- nothing below looks at the text of a reference
attribute [irreducible] valueIdToRef refToValueId

/-! ## The service -/

/-- How a method of the service ends: its status, and the response message. -/
structure GrpcReply (α : Type) where
  status : GrpcStatus
  response : α

namespace GrpcReply

/-- `return AbslToGrpcStatus(status)`, with the response as far as it is filled in. -/
def ofStatus (status : StatusOr Unit) (response : α) : GrpcReply α := ⟨abslToGrpcStatus status, response⟩

/-- An early return: the response is not filled in. -/
def error (e : Status) (response : α) : GrpcReply α := .ofStatus (.error e) response

end GrpcReply

/-- `OwnedValueId::ref()` before `forget()`. -/
def ownedRef (id : UInt64) : Exec σ ValueRef :=
  if id = OwnedValueId.invalidId then Run.crash .checkFailure else pure (valueIdToRef id)

/-- The methods of `v0::Executor::Service`. -/
structure ExecutorServiceInterface (σ : Type) where
  createValue : CreateValueRequest → Exec σ (GrpcReply CreateValueResponse)
  createCall : CreateCallRequest → Exec σ (GrpcReply CreateCallResponse)
  createStruct : CreateStructRequest → Exec σ (GrpcReply CreateStructResponse)
  createSelection : CreateSelectionRequest → Exec σ (GrpcReply CreateSelectionResponse)
  materialize : MaterializeRequest → Exec σ (GrpcReply MaterializeResponse)
  dispose : DisposeRequest → Exec σ (GrpcReply DisposeResponse)

namespace ExecutorService

variable {σ : Type} (executor : Executor UInt64 σ)

/-- The common ending of the four creators: the id is put into the response, and forgotten. -/
def respond (x : Exec σ UInt64) (unfilled : α) (fill : ValueRef → α) : Exec σ (GrpcReply α) := do
  match ← x.attempt with
  | .error e => pure (.error e unfilled)
  | .ok id => do
      let ref ← ownedRef id
      pure ⟨.OK, fill ref⟩

def createValue (request : CreateValueRequest) : Exec σ (GrpcReply CreateValueResponse) :=
  respond (executor.createValue (request.value.getD Value.defaultInstance)) {} fun ref => ⟨some ref⟩

/-- The argument of a `CreateCallRequest`, if it has one. -/
def refToArgument : Option ValueRef → StatusOr (Option UInt64)
  | none => .ok none
  | some ref =>
      match refToValueId ref with
      | .ok id => .ok (some id)
      | .error e => .error e

def createCall (request : CreateCallRequest) : Exec σ (GrpcReply CreateCallResponse) :=
  match refToValueId (request.functionRef.getD {}) with
  | .error e => pure (.error e {})
  | .ok func =>
    match refToArgument request.argumentRef with
    | .error e => pure (.error e {})
    | .ok optionalArg => respond (executor.createCall func optionalArg) {} fun ref => ⟨some ref⟩

/-- The loop of `CreateStruct` over the references. -/
def refsToValueIds : List ValueRef → StatusOr (List UInt64)
  | [] => .ok []
  | ref :: refs =>
    match refToValueId ref with
    | .error e => .error e
    | .ok id =>
      match refsToValueIds refs with
      | .error e => .error e
      | .ok ids => .ok (id :: ids)

def createStruct (request : CreateStructRequest) : Exec σ (GrpcReply CreateStructResponse) :=
  match refsToValueIds request.elementRef with
  | .error e => pure (.error e {})
  | .ok elements => respond (executor.createStruct elements) {} fun ref => ⟨some ref⟩

/-- The index is an `int32` on the wire, and a `uint32_t` on both sides of it. -/
def createSelection (request : CreateSelectionRequest) : Exec σ (GrpcReply CreateSelectionResponse) :=
  match refToValueId (request.sourceRef.getD {}) with
  | .error e => pure (.error e {})
  | .ok source =>
      respond (executor.createSelection source request.index.toUInt32) {} fun ref => ⟨some ref⟩

def materialize (request : MaterializeRequest) : Exec σ (GrpcReply MaterializeResponse) :=
  match refToValueId (request.valueRef.getD {}) with
  | .error e => pure (.error e {})
  | .ok val => do
      match ← (executor.materialize val (some Value.defaultInstance)).attempt with
      | .ok result => pure (.ofStatus result.status ⟨result.output⟩)
      | .error e => pure (.error e ⟨some Value.defaultInstance⟩)

/-- The error strings of a batch, one for each entry that is not disposed of. -/
def disposeAll : List ValueRef → Exec σ (List String)
  | [] => pure []
  | ref :: refs =>
    match refToValueId ref with
    | .error e => do return e.toString :: (← disposeAll refs)
    | .ok val => do
        match ← (executor.dispose val).attempt with
        | .ok () => disposeAll refs
        | .error e => do return e.toString :: (← disposeAll refs)

def dispose (request : DisposeRequest) : Exec σ (GrpcReply DisposeResponse) := do
  match ← disposeAll executor request.valueRef with
  | [] => pure ⟨.OK, {}⟩
  | errorStrings => pure (.error (.internal ("\n".intercalate errorStrings)) {})

end ExecutorService

/-! ### Requests of any kind -/

/-- The oneof of `v0::ExecutorRequest`. -/
inductive ExecutorRequest where
  | createValue (request : CreateValueRequest)
  | createCall (request : CreateCallRequest)
  | createStruct (request : CreateStructRequest)
  | createSelection (request : CreateSelectionRequest)
  | materialize (request : MaterializeRequest)
  | dispose (request : DisposeRequest)

/-- The oneof of `v0::ExecutorResponse`. -/
inductive ExecutorResponse where
  | createValue (response : CreateValueResponse)
  | createCall (response : CreateCallResponse)
  | createStruct (response : CreateStructResponse)
  | createSelection (response : CreateSelectionResponse)
  | materialize (response : MaterializeResponse)
  | dispose (response : DisposeResponse)

def GrpcReply.map (f : α → β) (reply : GrpcReply α) : GrpcReply β := ⟨reply.status, f reply.response⟩

/-- One request, of whatever kind. -/
def ExecutorServiceInterface.serve {σ : Type} (service : ExecutorServiceInterface σ) :
    ExecutorRequest → Exec σ (GrpcReply ExecutorResponse)
  | .createValue request => do return (← service.createValue request).map .createValue
  | .createCall request => do return (← service.createCall request).map .createCall
  | .createStruct request => do return (← service.createStruct request).map .createStruct
  | .createSelection request => do return (← service.createSelection request).map .createSelection
  | .materialize request => do return (← service.materialize request).map .materialize
  | .dispose request => do return (← service.dispose request).map .dispose

/-- One request after another. -/
def ExecutorServiceInterface.serveAll {σ : Type} (service : ExecutorServiceInterface σ) :
    List ExecutorRequest → Exec σ (List (GrpcReply ExecutorResponse))
  | [] => pure []
  | request :: requests => do
      let reply ← service.serve request
      let replies ← serveAll service requests
      return reply :: replies

/-- `ExecutorService`, over an executor. -/
def executorService {σ : Type} (executor : Executor UInt64 σ) : ExecutorServiceInterface σ where
  createValue := ExecutorService.createValue executor
  createCall := ExecutorService.createCall executor
  createStruct := ExecutorService.createStruct executor
  createSelection := ExecutorService.createSelection executor
  materialize := ExecutorService.materialize executor
  dispose := ExecutorService.dispose executor

namespace ExecutorService

variable {σ : Type} {x : Exec σ UInt64} {s s' : σ}

theorem respond_error {e : Status} (h : Run.Returns x.attempt s (.error e) s') (unfilled : α)
    (fill : ValueRef → α) :
    Run.Returns (respond x unfilled fill) s (.error e unfilled) s' :=
  h.bind (.pure _ _)

theorem respond_ok {id : UInt64} (h : Run.Returns x.attempt s (.ok id) s')
    (hvalid : id ≠ OwnedValueId.invalidId) (unfilled : α) (fill : ValueRef → α) :
    Run.Returns (respond x unfilled fill) s ⟨.OK, fill (valueIdToRef id)⟩ s' := by
  have hid : Run.Returns (ownedRef id) s' (valueIdToRef id) s' := by
    rw [ownedRef, if_neg hvalid]
    exact .pure _ _
  exact h.bind (hid.bind (.pure _ _))

/-- References that were written can be read. -/
theorem refsToValueIds_map (ids : List UInt64) : refsToValueIds (ids.map valueIdToRef) = .ok ids := by
  induction ids with
  | nil => rfl
  | cons id ids ih => rw [List.map_cons, refsToValueIds, refToValueId_valueIdToRef, ih]

end ExecutorService

end GenC
