import Mathlib.Data.Set.Insert
import GenC.Lib.Lists
import GenC.Lib.Run
import GenC.Runtime.IntrinsicHandler

/-!
# Executors and `ExecutorBase`

`runtime/executor.h`. An `Executor` is a record of operations on handles; `ExecutorBase` turns an
implementation that works on values into one that works on handles, by way of a table.

Everything runs in `Exec`: a run whose errors are `Status`es, whose crashes name what the process
died of, and whose events record the handler calls made on the way.

`ExecutorBase` is written over the interface `ValueTable` of its guarded members. The table used by
the executors of this development is `HandleTable`, whose ids are natural numbers and which carries
its freshness invariant; the 64-bit table of the source is in `Runtime/OwnedValueId.lean`, where it
is compared with this one.
-/

namespace GenC

open Lib

/-! ## The monad of the runtime -/

/-- What ends the process. -/
inductive Crash where
  /-- Reading a disengaged `std::optional`. -/
  | absentOptional
  /-- `element(i)` past the end of a repeated field. -/
  | missingElement
  /-- Writing through a null output pointer. -/
  | nullOutput
  /-- Using an object before its construction or after its destruction. -/
  | deadObject
  /-- A `CHECK` that does not hold. -/
  | checkFailure
  deriving Repr, DecidableEq

/-- What a run shows of itself. No code reads these. -/
inductive Event where
  | checkWellFormed (handler : IntrinsicHandler) (intr : Intrinsic)
  | inlineCall (handler : InlineHandler) (intr : Intrinsic) (arg : Value)
  | controlFlowCall (handler : ControlFlowHandler) (intr : Intrinsic) (hasArgument : Bool)
  | runnerCall (environment : String) (func : Value) (arg : Option Value)

abbrev Exec (σ α : Type) : Type := Run Event Crash Status σ α

def Checked.run (c : Checked α) : Exec σ α :=
  match c with
  | some r => Run.ofExcept r
  | none => Run.crash .missingElement

def IntrinsicHandler.runCheckWellFormed [ProtoText] (h : IntrinsicHandler) (intr : Intrinsic) :
    Exec σ Unit := do
  Run.tell (.checkWellFormed h intr)
  (h.checkWellFormed intr).run

/-! ## The interface -/

/-- The status of a `Materialize` call, and the caller's output afterwards (`none` for a null
output pointer). -/
structure MaterializeResult where
  status : StatusOr Unit
  output : Option Value

/-- `ExecutorInterface`, over handles of type `Id`. -/
structure Executor (Id σ : Type) where
  createValue : Value → Exec σ Id
  createCall : Id → Option Id → Exec σ Id
  createStruct : List Id → Exec σ Id
  createSelection : Id → UInt32 → Exec σ Id
  materialize : Id → Option Value → Exec σ MaterializeResult
  dispose : Id → Exec σ Unit

/-- The status of a materialization into a fresh `Value`, and the value when it is OK. -/
def MaterializeResult.get (r : MaterializeResult) : Exec σ Value :=
  match r.status with
  | .ok () => pure (r.output.getD Value.defaultInstance)
  | .error e => Run.throw e

/-! ## Owned ids

An `OwnedValueId` that goes out of scope disposes of its id and ignores the status. -/

namespace Executor

variable {Id σ : Type}

/-- The destructors of a container of `OwnedValueId`s. -/
def releaseAll (exec : Executor Id σ) : List Id → Exec σ Unit
  | [] => pure ()
  | id :: ids => do
      let _ ← (exec.dispose id).attempt
      releaseAll exec ids

/-- Leave a scope that owns `ids`: they are released whether `x` succeeded or failed. -/
def releasing (exec : Executor Id σ) (ids : List Id) (x : Exec σ α) : Exec σ α := do
  match ← x.attempt with
  | .ok a => do
      exec.releaseAll ids
      pure a
  | .error e => do
      exec.releaseAll ids
      Run.throw e

/-! ### Clients

A client makes one call after another and gets a response to each, whatever it is. -/

/-- A call of the interface. -/
inductive ApiCall (Id : Type) where
  | createValue (val : Value)
  | createCall (function : Id) (argument : Option Id)
  | createStruct (members : List Id)
  | createSelection (source : Id) (index : UInt32)
  | materialize (value : Id) (valuePb : Option Value)
  | dispose (value : Id)

inductive Response (Id : Type) where
  | created (id : StatusOr Id)
  | materialized (result : StatusOr MaterializeResult)
  | disposed (status : StatusOr Unit)

def perform (exec : Executor Id σ) : ApiCall Id → Exec σ (Response Id)
  | .createValue val => do return .created (← (exec.createValue val).attempt)
  | .createCall function argument => do
      return .created (← (exec.createCall function argument).attempt)
  | .createStruct members => do return .created (← (exec.createStruct members).attempt)
  | .createSelection source index => do
      return .created (← (exec.createSelection source index).attempt)
  | .materialize value valuePb => do
      return .materialized (← (exec.materialize value valuePb).attempt)
  | .dispose value => do return .disposed (← (exec.dispose value).attempt)

def performAll (exec : Executor Id σ) : List (ApiCall Id) → Exec σ (List (Response Id))
  | [] => pure []
  | call :: calls => do
      let response ← exec.perform call
      let responses ← performAll exec calls
      return response :: responses

/-- Some calls, and then some more. -/
theorem performAll_append {exec : Executor Id σ} {calls calls' : List (ApiCall Id)}
    {responses : List (Response Id)} {s t : σ} :
    Run.Returns (exec.performAll (calls ++ calls')) s responses t ↔
      ∃ rs rs' u, Run.Returns (exec.performAll calls) s rs u ∧
        Run.Returns (exec.performAll calls') u rs' t ∧ responses = rs ++ rs' := by
  -- on the first list, splitting off the response of its first call
  induction calls generalizing s responses with
  | nil =>
      constructor
      · intro h
        exact ⟨[], responses, s, .pure _ _, h, rfl⟩
      · rintro ⟨rs, rs', u, h, h', rfl⟩
        obtain ⟨rfl, rfl⟩ := h.unique (.pure _ _)
        exact h'
  | cons call calls ih =>
      constructor
      · intro h
        obtain ⟨r, s₁, hcall, h⟩ := h.of_bind
        obtain ⟨rs, s₂, hrest, h⟩ := h.of_bind
        obtain ⟨rfl, rfl⟩ := h.unique (.pure _ _)
        obtain ⟨rs₁, rs₂, u, h₁, h₂, rfl⟩ := ih.mp hrest
        exact ⟨r :: rs₁, rs₂, u, hcall.bind (h₁.bind (.pure _ _)), h₂, rfl⟩
      · rintro ⟨rs, rs', u, h, h', rfl⟩
        obtain ⟨r, s₁, hcall, h⟩ := h.of_bind
        obtain ⟨rs₁, s₂, hrest, h⟩ := h.of_bind
        obtain ⟨rfl, rfl⟩ := h.unique (.pure _ _)
        exact hcall.bind ((ih.mpr ⟨rs₁, rs', _, hrest, h', rfl⟩).bind (.pure _ _))

/-- One more call, after the others. -/
theorem performAll_concat {exec : Executor Id σ} {calls : List (ApiCall Id)} {call : ApiCall Id}
    {responses : List (Response Id)} {response : Response Id} {s s' s'' : σ}
    (h : Run.Returns (exec.performAll calls) s responses s')
    (hcall : Run.Returns (exec.perform call) s' response s'') :
    Run.Returns (exec.performAll (calls ++ [call])) s (responses ++ [response]) s'' :=
  performAll_append.mpr ⟨responses, [response], s', h,
    hcall.bind ((Run.Returns.pure _ _).bind (.pure _ _)), rfl⟩

theorem length_of_performAll {exec : Executor Id σ} {calls : List (ApiCall Id)}
    {responses : List (Response Id)} {s t : σ} (h : Run.Returns (exec.performAll calls) s responses t) :
    responses.length = calls.length := by
  induction calls generalizing s responses with
  | nil =>
      obtain ⟨rfl, -⟩ := h.unique (.pure _ _)
      rfl
  | cons call calls ih =>
      obtain ⟨r, s₁, hcall, h⟩ := h.of_bind
      obtain ⟨rs, s₂, hrest, h⟩ := h.of_bind
      obtain ⟨rfl, rfl⟩ := h.unique (.pure _ _)
      exact congrArg Nat.succ (ih hrest)

/-- A client is answered, whatever the answers are. -/
theorem performAll_answers (exec : Executor Id σ) :
    ∀ calls : List (ApiCall Id), Run.Triple (fun _ => True) (exec.performAll calls)
      (fun _ _ => True) (fun _ _ => False)
  | [] => .pure fun _ h => h
  | call :: calls => by
      have hcall : Run.Triple (fun _ => True) (exec.perform call) (fun _ _ => True)
          (fun _ _ => False) := by
        cases call <;> exact (Run.Triple.attempt_any _).bind fun _ => .pure fun _ h => h
      exact hcall.bind fun _ => (performAll_answers exec calls).bind fun _ => .pure fun _ h => h

end Executor

/-! ## `ExecutorBase` -/

/-- `TrackValue`, `GetTracked` and the erasing half of `Dispose`: the operations on
`next_value_id_` and `tracked_values_`. -/
class ValueTable (τ : Type) (Id V : outParam Type) where
  trackValue : V → τ → Id × τ
  getTracked : τ → Id → Option V
  erase : Id → τ → τ

/-- The members of an `ExecutorBase`: its table, and the implementation's own state. -/
@[ext] structure BaseState (τ σ : Type) where
  table : τ
  impl : σ

/-- The protected virtual methods: the same operations, on values. -/
structure ExecutorImpl (σ V : Type) where
  executorName : String
  createExecutorValue : Value → Exec σ V
  createCall : V → Option V → Exec σ V
  createStruct : List V → Exec σ V
  createSelection : V → UInt32 → Exec σ V
  materialize : V → Option Value → Exec σ MaterializeResult

namespace ExecutorBase

variable {τ Id V σ : Type} [ValueTable τ Id V] [ToString Id]

def trackValue (v : V) : Exec (BaseState τ σ) Id :=
  Run.step fun s =>
    let (id, table) := ValueTable.trackValue v s.table
    (.ok id, { s with table })

def getTracked (executorName : String) (id : Id) : Exec (BaseState τ σ) V :=
  Run.step fun s =>
    match ValueTable.getTracked s.table id with
    | some v => (.ok v, s)
    | none => (.error (.notFound (executorName ++ " value not found: " ++ toString id)), s)

/-- Run a method of the implementation. -/
def onImpl (x : Exec σ α) : Exec (BaseState τ σ) α :=
  x.zoom (·.impl) (fun impl s => { s with impl })

def createValue (impl : ExecutorImpl σ V) (val : Value) : Exec (BaseState τ σ) Id := do
  trackValue (← onImpl (impl.createExecutorValue val))

/-- The argument of `CreateCall`, looked up if it is there. -/
def getTrackedArgument (executorName : String) : Option Id → Exec (BaseState τ σ) (Option V)
  | some argument => do
      let v ← getTracked executorName argument
      pure (some v)
  | none => pure none

def createCall (impl : ExecutorImpl σ V) (function : Id) (argument : Option Id) :
    Exec (BaseState τ σ) Id := do
  let functionVal ← getTracked impl.executorName function
  let argumentVal ← getTrackedArgument impl.executorName argument
  trackValue (← onImpl (impl.createCall functionVal argumentVal))

/-- The loop of `CreateStruct` over its members. -/
def getAllTracked (executorName : String) : List Id → Exec (BaseState τ σ) (List V)
  | [] => pure []
  | member :: members => do
      let v ← getTracked executorName member
      let vs ← getAllTracked executorName members
      pure (v :: vs)

def createStruct (impl : ExecutorImpl σ V) (members : List Id) : Exec (BaseState τ σ) Id := do
  let memberValues ← getAllTracked impl.executorName members
  trackValue (← onImpl (impl.createStruct memberValues))

def createSelection (impl : ExecutorImpl σ V) (source : Id) (index : UInt32) :
    Exec (BaseState τ σ) Id := do
  let sourceVal ← getTracked impl.executorName source
  trackValue (← onImpl (impl.createSelection sourceVal index))

def materialize (impl : ExecutorImpl σ V) (valueId : Id) (valuePb : Option Value) :
    Exec (BaseState τ σ) MaterializeResult := do
  match ← (getTracked impl.executorName valueId).attempt with
  | .ok v => onImpl (impl.materialize v valuePb)
  | .error e => pure ⟨.error e, valuePb⟩

def dispose (executorName : String) (value : Id) : Exec (BaseState τ σ) Unit :=
  Run.step fun s =>
    match ValueTable.getTracked s.table value with
    | some _ => (.ok (), { s with table := ValueTable.erase value s.table })
    | none =>
        (.error (.notFound
          (executorName ++ " value not found: " ++ toString value ++ ", cannot dispose.")), s)

end ExecutorBase

/-- `ExecutorBase<V>`: the executor an implementation gives rise to. -/
def executorBase {τ Id V σ : Type} [ValueTable τ Id V] [ToString Id] (impl : ExecutorImpl σ V) :
    Executor Id (BaseState τ σ) where
  createValue := ExecutorBase.createValue impl
  createCall := ExecutorBase.createCall impl
  createStruct := ExecutorBase.createStruct impl
  createSelection := ExecutorBase.createSelection impl
  materialize := ExecutorBase.materialize impl
  dispose := ExecutorBase.dispose impl.executorName

/-! ### What the operations do to the table

Whatever the implementation does, an operation that creates a value ends with one `TrackValue`, and
leaves the table alone when it fails on the way there. -/

namespace ExecutorBase

variable {τ Id V σ : Type} [ValueTable τ Id V] [ToString Id]

/-- The table `t` is one that satisfied `P` until `id` was issued from it. -/
def Issued (P : τ → Prop) (id : Id) (t : τ) : Prop :=
  ∃ t₀ v, P t₀ ∧ ValueTable.trackValue v t₀ = (id, t)

/-- Looking an id up changes nothing, and finds what the table holds. -/
theorem getTracked_triple {P : BaseState τ σ → Prop} (name : String) (id : Id) :
    Run.Triple P (getTracked name id)
      (fun v s => P s ∧ ValueTable.getTracked s.table id = some v) (fun _ => P) :=
  .step fun s hs => by
    rcases h : ValueTable.getTracked s.table id with _ | v
    · exact hs
    · exact ⟨hs, h⟩

theorem getTrackedArgument_triple {P : BaseState τ σ → Prop} (name : String) (argument : Option Id) :
    Run.Triple P (getTrackedArgument name argument : Exec _ (Option V)) (fun _ => P)
      (fun _ => P) := by
  cases argument with
  | none => exact .pure fun _ h => h
  | some argument =>
      exact (getTracked_triple name argument).bind fun _ => .pure fun _ h => h.1

theorem getAllTracked_triple {P : BaseState τ σ → Prop} (name : String) :
    ∀ members : List Id,
      Run.Triple P (getAllTracked name members : Exec _ (List V)) (fun _ => P) (fun _ => P)
  | [] => .pure fun _ h => h
  | member :: members => by
      refine (getTracked_triple name member).bind fun _ => ?_
      refine Run.Triple.bind ?_ fun _ => .pure fun _ h => h
      exact (getAllTracked_triple name members).pre fun _ h => h.1

/-- A method of the implementation works on the implementation's state only. -/
theorem onImpl_table {P : τ → Prop} (x : Exec σ α) :
    Run.Triple (fun s => P s.table) (onImpl x : Exec (BaseState τ σ) α) (fun _ s => P s.table)
      (fun _ s => P s.table) :=
  .zoom fun _ ht s _ => by
    rcases (x s).2 with a | e | k | _
    · exact ht
    · exact ht
    · trivial
    · trivial

omit [ToString Id] in
theorem trackValue_table {P : τ → Prop} (v : V) {E : Status → BaseState τ σ → Prop} :
    Run.Triple (fun s => P s.table) (trackValue v : Exec (BaseState τ σ) Id)
      (fun id s => Issued P id s.table) E :=
  .step fun s hs => ⟨s.table, v, hs, rfl⟩

variable (impl : ExecutorImpl σ V) (P : τ → Prop)

theorem createValue_table (v : Value) :
    Run.Triple (fun s => P s.table) ((executorBase impl).createValue v)
      (fun id s => Issued P id s.table) (fun _ (s : BaseState τ σ) => P s.table) :=
  (onImpl_table _).bind fun _ => trackValue_table _

theorem createCall_table (function : Id) (argument : Option Id) :
    Run.Triple (fun s => P s.table) ((executorBase impl).createCall function argument)
      (fun id s => Issued P id s.table) (fun _ (s : BaseState τ σ) => P s.table) := by
  refine (getTracked_triple _ function).bind fun _ => ?_
  exact ((getTrackedArgument_triple _ argument).bind fun _ => (onImpl_table _).bind fun _ =>
    trackValue_table _).pre fun _ h => h.1

theorem createStruct_table (members : List Id) :
    Run.Triple (fun s => P s.table) ((executorBase impl).createStruct members)
      (fun id s => Issued P id s.table) (fun _ (s : BaseState τ σ) => P s.table) :=
  (getAllTracked_triple _ _).bind fun _ => (onImpl_table _).bind fun _ => trackValue_table _

theorem createSelection_table (source : Id) (index : UInt32) :
    Run.Triple (fun s => P s.table) ((executorBase impl).createSelection source index)
      (fun id s => Issued P id s.table) (fun _ (s : BaseState τ σ) => P s.table) :=
  ((getTracked_triple _ source).conseq (fun _ h => h) (fun _ _ h => h.1) fun _ _ h => h).bind
    fun _ => (onImpl_table _).bind fun _ => trackValue_table _

theorem materialize_table (id : Id) (valuePb : Option Value) :
    Run.Triple (fun s => P s.table) ((executorBase impl).materialize id valuePb)
      (fun _ s => P s.table) (fun _ (s : BaseState τ σ) => P s.table) := by
  refine (getTracked_triple _ _).attempt.bind fun r => ?_
  cases r with
  | ok v => exact (onImpl_table _).pre fun _ h => h.1
  | error e => exact .pure fun _ h => h

/-- Disposal erases an id that is in the table, and fails on any other. -/
theorem dispose_table (id : Id) :
    Run.Triple (fun s => P s.table) ((executorBase impl).dispose id)
      (fun _ s => ∃ t₀, P t₀ ∧ ValueTable.getTracked t₀ id ≠ none ∧
        s.table = ValueTable.erase id t₀)
      (fun _ (s : BaseState τ σ) => P s.table ∧ ValueTable.getTracked s.table id = none) :=
  .step fun s hs => by
    rcases h : ValueTable.getTracked s.table id with _ | v
    · exact ⟨hs, h⟩
    · exact ⟨s.table, hs, by rw [h]; exact Option.some_ne_none v, rfl⟩

end ExecutorBase

/-! ## The handle table -/

abbrev ValueId : Type := Nat

/-- A table whose ids are natural numbers, so that none is ever issued twice. The last field is
what every operation relies on: an id that was not issued is not in the table. -/
@[ext] structure HandleTable (V : Type) where
  nextValueId : ValueId
  trackedValues : ValueId → Option V
  fresh : ∀ id, nextValueId ≤ id → trackedValues id = none

namespace HandleTable

variable {V : Type}

def empty : HandleTable V := ⟨0, fun _ => none, fun _ _ => rfl⟩

def trackValue (v : V) (t : HandleTable V) : ValueId × HandleTable V :=
  (t.nextValueId,
    { nextValueId := t.nextValueId + 1
      trackedValues := Function.update t.trackedValues t.nextValueId (some v)
      fresh := by
        intro id h
        rw [Function.update_of_ne (Nat.ne_of_gt (Nat.lt_of_succ_le h))]
        exact t.fresh id (Nat.le_of_succ_le h) })

def erase (id : ValueId) (t : HandleTable V) : HandleTable V :=
  { t with
    trackedValues := Function.update t.trackedValues id none
    fresh := by
      intro id' h
      by_cases hid : id' = id
      · rw [hid, Function.update_self]
      · rw [Function.update_of_ne hid]
        exact t.fresh id' h }

instance : ValueTable (HandleTable V) ValueId V where
  trackValue := trackValue
  getTracked := trackedValues
  erase := erase

@[simp] theorem empty_trackedValues (id : ValueId) :
    (empty : HandleTable V).trackedValues id = none := rfl

/-- The ids in the table. -/
def ids (t : HandleTable V) : Set ValueId := {id | t.trackedValues id ≠ none}

theorem nextValueId_notMem (t : HandleTable V) : t.nextValueId ∉ t.ids :=
  fun h => h (t.fresh _ (le_refl _))

theorem ids_trackValue (v : V) (t : HandleTable V) :
    (t.trackValue v).2.ids = insert t.nextValueId t.ids := by
  ext id
  by_cases h : id = t.nextValueId
  · simp [ids, trackValue, h]
  · simp [ids, trackValue, h]

theorem ids_erase (id : ValueId) (t : HandleTable V) : (t.erase id).ids = t.ids \ {id} := by
  ext id'
  by_cases h : id' = id
  · simp [ids, erase, h]
  · simp [ids, erase, h]

theorem trackedValues_trackValue_self (v : V) (t : HandleTable V) :
    (t.trackValue v).2.trackedValues (t.trackValue v).1 = some v :=
  Function.update_self ..

theorem trackedValues_trackValue_of_ne {v : V} {t : HandleTable V} {id : ValueId}
    (h : id ≠ t.nextValueId) : (t.trackValue v).2.trackedValues id = t.trackedValues id :=
  Function.update_of_ne h ..

theorem trackedValues_trackValue_of_some {v w : V} {t : HandleTable V} {id : ValueId}
    (h : t.trackedValues id = some w) : (t.trackValue v).2.trackedValues id = some w := by
  have hne : id ≠ t.nextValueId := by
    intro heq
    exact t.nextValueId_notMem (heq ▸ by simp [ids, h])
  rw [trackedValues_trackValue_of_ne hne, h]

@[simp] theorem trackedValues_erase_self (id : ValueId) (t : HandleTable V) :
    (t.erase id).trackedValues id = none :=
  Function.update_self ..

theorem trackedValues_erase_of_ne {id id' : ValueId} {t : HandleTable V} (h : id' ≠ id) :
    (t.erase id).trackedValues id' = t.trackedValues id' :=
  Function.update_of_ne h ..

theorem lt_nextValueId {t : HandleTable V} {id : ValueId} {v : V}
    (h : t.trackedValues id = some v) : id < t.nextValueId := by
  by_contra hle
  rw [t.fresh id (Nat.le_of_not_lt hle)] at h
  cases h

end HandleTable

/-! ## Growing tables -/

namespace BaseState

variable {V σ : Type}

/-- The state after tracking a value. -/
def track (s : BaseState (HandleTable V) σ) (v : V) : BaseState (HandleTable V) σ :=
  { s with table := (s.table.trackValue v).2 }

/-- What `s` tracks, `s'` tracks, and ids are issued in order. -/
structure Grows (s s' : BaseState (HandleTable V) σ) : Prop where
  next : s.table.nextValueId ≤ s'.table.nextValueId
  kept : ∀ {id v}, s.table.trackedValues id = some v → s'.table.trackedValues id = some v

theorem Grows.refl (s : BaseState (HandleTable V) σ) : s.Grows s := ⟨Nat.le_refl _, id⟩

theorem Grows.trans {s s' s'' : BaseState (HandleTable V) σ} (h : s.Grows s') (h' : s'.Grows s'') :
    s.Grows s'' :=
  ⟨h.next.trans h'.next, fun hid => h'.kept (h.kept hid)⟩

theorem grows_track (s : BaseState (HandleTable V) σ) (v : V) : s.Grows (s.track v) :=
  ⟨Nat.le_succ _, HandleTable.trackedValues_trackValue_of_some⟩

theorem tracked_track (s : BaseState (HandleTable V) σ) (v : V) :
    (s.track v).table.trackedValues s.table.nextValueId = some v :=
  HandleTable.trackedValues_trackValue_self v s.table

end BaseState

namespace ExecutorBase

variable {V σ : Type}

theorem trackValue_returns (v : V) (s : BaseState (HandleTable V) σ) :
    Run.Returns (trackValue v) s s.table.nextValueId (s.track v) :=
  .step rfl

theorem getTracked_returns {name : String} {id : ValueId} {v : V} {s : BaseState (HandleTable V) σ}
    (h : s.table.trackedValues id = some v) : Run.Returns (getTracked name id) s v s :=
  .step (by rw [show ValueTable.getTracked s.table id = some v from h])

theorem getTracked_fails (name : String) {id : ValueId} {s : BaseState (HandleTable V) σ}
    (h : s.table.trackedValues id = none) :
    Run.Fails (getTracked name id : Exec _ V) s
      (.notFound (name ++ " value not found: " ++ toString id)) s :=
  .step (by rw [show ValueTable.getTracked s.table id = none from h])

theorem getAllTracked_returns {name : String} {s : BaseState (HandleTable V) σ} :
    ∀ {ids : List ValueId} {vs : List V},
      List.Forall₂ (fun id v => s.table.trackedValues id = some v) ids vs →
        Run.Returns (getAllTracked name ids) s vs s
  | [], _, .nil => .pure _ _
  | _ :: _, _ :: _, .cons h hs =>
      (getTracked_returns h).bind ((getAllTracked_returns hs).bind (.pure _ _))

theorem dispose_fails (name : String) {id : ValueId} {s : BaseState (HandleTable V) σ}
    (h : s.table.trackedValues id = none) :
    Run.Fails (dispose name id) s
      (.notFound (name ++ " value not found: " ++ toString id ++ ", cannot dispose.")) s :=
  .step (by rw [show ValueTable.getTracked s.table id = none from h])

theorem dispose_ok (name : String) {id : ValueId} {s : BaseState (HandleTable V) σ} {v : V}
    (h : s.table.trackedValues id = some v) :
    Run.Returns (dispose name id) s () { s with table := s.table.erase id } :=
  .step (by
    rw [show ValueTable.getTracked s.table id = some v from h]
    rfl)

/-- Disposal forgets the id if it is there, and nothing else. -/
theorem dispose_returns (name : String) (id : ValueId) (s : BaseState (HandleTable V) σ) :
    ∃ r s', Run.Returns (dispose name id).attempt s r s' ∧
      s.table.nextValueId = s'.table.nextValueId ∧
      ∀ id', id' ≠ id → s'.table.trackedValues id' = s.table.trackedValues id' := by
  cases h : s.table.trackedValues id with
  | some v =>
      exact ⟨_, _, (dispose_ok name h).attempt, rfl,
        fun id' hid' => HandleTable.trackedValues_erase_of_ne hid'⟩
  | none => exact ⟨_, _, (dispose_fails name h).attempt, rfl, fun _ _ => rfl⟩

end ExecutorBase

/-! ### Temporary handles -/

theorem Executor.releaseAll_returns {V σ : Type} (impl : ExecutorImpl σ V) :
    ∀ (ids : List ValueId) (s : BaseState (HandleTable V) σ),
      ∃ s', Run.Returns ((executorBase impl).releaseAll ids) s () s' ∧
        s.table.nextValueId = s'.table.nextValueId ∧
        ∀ id, id ∉ ids → s'.table.trackedValues id = s.table.trackedValues id
  | [], s => ⟨s, .pure _ _, rfl, fun _ _ => rfl⟩
  | id :: ids, s => by
      obtain ⟨r, s₁, h₁, hnext₁, hkept₁⟩ := ExecutorBase.dispose_returns impl.executorName id s
      obtain ⟨s₂, h₂, hnext₂, hkept₂⟩ := releaseAll_returns impl ids s₁
      refine ⟨s₂, h₁.bind h₂, hnext₁.trans hnext₂, fun id' hid' => ?_⟩
      rw [hkept₂ id' fun h => hid' (List.mem_cons_of_mem _ h),
        hkept₁ id' fun h => hid' (h ▸ List.mem_cons_self ..)]

/-- A scope that returns, returns after releasing what it owns. -/
theorem Executor.releasing_returns {V σ : Type} (impl : ExecutorImpl σ V) (ids : List ValueId)
    {x : Exec (BaseState (HandleTable V) σ) α} {s s₁ : BaseState (HandleTable V) σ} {a : α}
    (hx : Run.Returns x s a s₁) :
    ∃ s₂, Run.Returns ((executorBase impl).releasing ids x) s a s₂ ∧
      s₁.table.nextValueId = s₂.table.nextValueId ∧
      ∀ id, id ∉ ids → s₂.table.trackedValues id = s₁.table.trackedValues id := by
  obtain ⟨s₂, h₂, hnext, hkept⟩ := releaseAll_returns impl ids s₁
  exact ⟨s₂, hx.attempt.bind (h₂.bind (.pure _ _)), hnext, hkept⟩

/-- What a scope returns is what was returned in it. -/
theorem Executor.of_releasing {Id σ : Type} {exec : Executor Id σ} {ids : List Id} {x : Exec σ α}
    {s s'' : σ} {a : α} (h : Run.Returns (exec.releasing ids x) s a s'') :
    ∃ s', Run.Returns x s a s' := by
  obtain ⟨r, s', hx, h⟩ := Run.Returns.of_bind h
  cases r with
  | ok a' =>
      obtain ⟨_, s₁, -, h⟩ := Run.Returns.of_bind h
      obtain ⟨rfl, rfl⟩ := h.unique (.pure _ _)
      exact ⟨s', hx.of_attempt⟩
  | error e =>
      obtain ⟨_, s₁, -, l, hl⟩ := Run.Returns.of_bind h
      cases hl

end GenC
