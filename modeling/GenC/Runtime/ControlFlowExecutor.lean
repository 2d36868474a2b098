import GenC.Intrinsics.ControlFlow
import GenC.Runtime.InlineExecutor

/-!
# The control-flow executor

`runtime/control_flow_executor.cc`: the evaluator of the IR. Lambdas, blocks, references, structs
and control-flow intrinsics are handled here; everything else goes to a child executor.

`Evaluate` and `ConstCreateCall` call each other, directly and through the handlers, so both are
written by open recursion over a `Knot` and tied by iterating it `fuel` times. One unit of fuel is
one nesting of such a call.

An `ExecutorValue` is shared, immutable and never null. What destroying it releases in the child
executor is not tracked; the temporaries of `Embed` are, with their owners, because they are
released while the values they were made from stay alive.
-/

namespace GenC

open Lib

/-! ## Values and scopes -/

/-- A value of the control-flow executor. A scope is a list of bindings, the innermost first, and
the root scope is the empty one. -/
inductive ExecutorValue where
  | embedded (childValueId : ValueId)
  | struct (elements : List ExecutorValue)
  | lambda (lambdaPb : Lambda) (scope : List (String × ExecutorValue))
  | intrinsic (intrinsicPb : Intrinsic) (handler : IntrinsicHandler)
      (scope : List (String × ExecutorValue))

abbrev Scope : Type := List (String × ExecutorValue)

def ExecutorValue.debugString : ExecutorValue → String
  | .embedded _ => "V"
  | .struct _ => "<V>"
  | _ => "invalid"

namespace Scope

def resolve (name : String) : Scope → StatusOr ExecutorValue
  | [] => .error (.notFound ("Could not find reference [" ++ name ++ "]"))
  | (bound, value) :: parent => if bound = name then .ok value else resolve name parent

def debugString : Scope → String
  | [] => "[]"
  | (name, value) :: parent =>
      debugString parent ++ "->" ++ "[" ++ name ++ "=" ++ value.debugString ++ "]"

end Scope

/-- The members of a `ControlFlowExecutor`. -/
structure ControlFlowExecutor (σ : Type) where
  intrinsicHandlers : IntrinsicHandlerSet
  childExecutor : Executor ValueId σ

/-- The two functions the evaluator's recursion goes through. -/
structure Knot (σ : Type) where
  evaluate : Value → Scope → Exec σ ExecutorValue
  createCall : ExecutorValue → Option ExecutorValue → Exec σ ExecutorValue

namespace ControlFlowExecutor

variable {σ : Type} (exec : ControlFlowExecutor σ)

/-! ## Embedding into the child executor -/

mutual

/-- `Embed`: the child id of a value, and what the caller's `slot` owns afterwards. -/
def embed : ExecutorValue → Exec σ (ValueId × Option ValueId)
  | .embedded childValueId => pure (childValueId, none)
  | .struct fields => do
      let (fieldIds, fieldSlots) ← embedFields fields [] []
      let id ← exec.childExecutor.releasing fieldSlots (exec.childExecutor.createStruct fieldIds)
      pure (id, some id)
  | .lambda lambdaPb _ => do
      let id ← exec.childExecutor.createValue
        (.lambda {} lambdaPb.parameterName lambdaPb.result)
      pure (id, some id)
  | .intrinsic _ _ _ => Run.throw (.internal "Tried to embed an unsupported value type.")

/-- The loop of `Embed` over the fields of a structure, with `field_ids` and `field_slots` so far.
Failing in the middle releases the slots made so far. -/
def embedFields : List ExecutorValue → List ValueId → List ValueId →
    Exec σ (List ValueId × List ValueId)
  | [], fieldIds, fieldSlots => pure (fieldIds, fieldSlots)
  | field :: fields, fieldIds, fieldSlots => do
      match ← (embed field).attempt with
      | .ok (id, slot) =>
          embedFields fields (fieldIds ++ [id]) (fieldSlots ++ slot.toList)
      | .error e => do
          exec.childExecutor.releaseAll fieldSlots
          Run.throw e

end

def constMaterialize (value : ExecutorValue) (valuePb : Option Value) :
    Exec σ MaterializeResult := do
  match ← (exec.embed value).attempt with
  | .ok (childValueId, slot) =>
      exec.childExecutor.releasing slot.toList (exec.childExecutor.materialize childValueId valuePb)
  | .error e => pure ⟨.error e, valuePb⟩

def createSelectionInternal (source : ExecutorValue) (index : UInt32) : Exec σ ExecutorValue :=
  match source with
  | .embedded childId => do
      let id ← exec.childExecutor.createSelection childId index
      pure (.embedded id)
  | .struct elements =>
      match elements[index.toNat]? with
      | some element => pure element
      | none => Run.throw (.notFound
          ("Failed to create selection for index [" ++ toString index ++
            "] on structure with length [" ++ toString elements.length ++ "]"))
  | .lambda _ _ | .intrinsic _ _ _ => Run.throw
      (.invalidArgument "Cannot perform selection on a Lambda or Intrinsic value")

/-! ## Evaluation -/

variable [ProtoText] (fuel : Nat) (self : Knot σ)

def hasComputation : Value → Bool
  | .notSet _ | .scalar _ _ => false
  | _ => true

/-- `default:` of `Evaluate` — everything else is the child's. -/
def createChildValue (valuePb : Value) : Exec σ ExecutorValue := do
  let id ← exec.childExecutor.createValue valuePb
  pure (.embedded id)

def constCreateExecutorValue (valuePb : Value) : Exec σ ExecutorValue :=
  match valuePb with
  | .scalar _ _ => exec.createChildValue valuePb
  | .notSet _ => Run.throw (.unimplemented "Cannot create value of type [0]")
  | _ => self.evaluate valuePb []

/-- `ControlFlowIntrinsicCallContextImpl`, for an intrinsic created in `scope`. -/
def context (scope : Scope) : Context σ ExecutorValue where
  createValue valPb :=
    if hasComputation valPb then self.evaluate valPb scope
    else exec.constCreateExecutorValue self valPb
  createCall := self.createCall
  createStruct members := pure (.struct members)
  createSelection := exec.createSelectionInternal
  materialize := exec.constMaterialize

/-- `ScopedLambda::Call`. -/
def callLambda (lambdaPb : Lambda) (scope : Scope) (arg : Option ExecutorValue) :
    Exec σ ExecutorValue :=
  match arg with
  | some arg => self.evaluate lambdaPb.result ((lambdaPb.parameterName, arg) :: scope)
  | none => self.evaluate lambdaPb.result scope

/-- `ScopedIntrinsic::Call`. -/
def callIntrinsic (intrinsicPb : Intrinsic) (handler : IntrinsicHandler) (scope : Scope)
    (arg : Option ExecutorValue) : Exec σ ExecutorValue := do
  let interface ← Run.ofExcept handler.getControlFlowInterface
  Run.tell (.controlFlowCall interface intrinsicPb arg.isSome)
  interface.executeCall (exec.context self scope) fuel intrinsicPb arg

/-- The EMBEDDED case of `ConstCreateCall`. -/
def callEmbedded (function : ValueId) (argument : Option ExecutorValue) :
    Exec σ ExecutorValue := do
  match argument with
  | none => do
      let id ← exec.childExecutor.createCall function none
      pure (.embedded id)
  | some argument => do
      let (embeddedArg, slot) ← exec.embed argument
      let id ← exec.childExecutor.releasing slot.toList
        (exec.childExecutor.createCall function (some embeddedArg))
      pure (.embedded id)

/-- `ConstCreateCall`, over the knot. -/
def constCreateCallStep (function : ExecutorValue) (argument : Option ExecutorValue) :
    Exec σ ExecutorValue :=
  match function with
  | .embedded childValueId => exec.callEmbedded childValueId argument
  | .lambda lambdaPb scope => callLambda self lambdaPb scope argument
  | .struct _ => Run.throw
      (.invalidArgument "Received value type [STRUCTURE] which is not a function.")
  | .intrinsic intrinsicPb handler scope =>
      exec.callIntrinsic fuel self intrinsicPb handler scope argument

/-! ### One kind of IR each -/

/-- The loop of `EvaluateBlock`: the scope after the locals. -/
def evaluateLocals (names : String) : List (String × Value) → Scope → Exec σ Scope
  | [], scope => pure scope
  | (name, localPb) :: locals, scope => do
      let value ← (self.evaluate localPb scope).mapError fun e =>
        e.withSuffix ("while evaluating local [" ++ name ++ "] in block locals [" ++ names ++ "]")
      evaluateLocals names locals ((name, value) :: scope)

def evaluateBlock (locals : List (String × Value)) (result : Value) (scope : Scope) :
    Exec σ ExecutorValue := do
  let scope ← evaluateLocals self (",".intercalate (locals.map Prod.fst)) locals scope
  self.evaluate result scope

def evaluateReference (name : String) (scope : Scope) : Exec σ ExecutorValue :=
  (Run.ofExcept (scope.resolve name)).mapError fun e =>
    e.withSuffix ("while searching scope: " ++ scope.debugString)

def evaluateCall (function : Value) (argument : Option Value) (scope : Scope) :
    Exec σ ExecutorValue := do
  let functionVal ← self.evaluate function scope
  match argument with
  | some argument => do
      let argumentVal ← self.evaluate argument scope
      self.createCall functionVal (some argumentVal)
  | none => self.createCall functionVal none

/-- The loop of `EvaluateStruct`. -/
def evaluateElements : List Value → Scope → Exec σ (List ExecutorValue)
  | [], _ => pure []
  | elementPb :: elements, scope => do
      let v ← self.evaluate elementPb scope
      let vs ← evaluateElements elements scope
      pure (v :: vs)

def evaluateStruct (elements : List Value) (scope : Scope) : Exec σ ExecutorValue := do
  let vs ← evaluateElements self elements scope
  pure (.struct vs)

def evaluateSelection (source : Value) (index : Int32) (scope : Scope) :
    Exec σ ExecutorValue := do
  let sourceVal ← self.evaluate source scope
  exec.createSelectionInternal sourceVal index.toUInt32

def evaluateLambda (lambdaPb : Lambda) (scope : Scope) : Exec σ ExecutorValue :=
  pure (.lambda lambdaPb scope)

/-- The intrinsic case of `Evaluate`. -/
def evaluateIntrinsic (valuePb : Value) (intr : Intrinsic) (scope : Scope) :
    Exec σ ExecutorValue := do
  let handler ← Run.ofExcept (exec.intrinsicHandlers.getHandler intr.uri)
  handler.runCheckWellFormed intr
  match handler.interface with
  | .controlFlow _ => do
      handler.runCheckWellFormed intr
      pure (.intrinsic intr handler scope)
  | .inline _ => exec.createChildValue valuePb

/-- `Evaluate`, over the knot. -/
def evaluateStep (valuePb : Value) (scope : Scope) : Exec σ ExecutorValue :=
  match valuePb with
  | .block _ locals result => evaluateBlock self locals result scope
  | .reference _ name => evaluateReference name scope
  | .call _ function argument => evaluateCall self function argument scope
  | .selection _ source index => exec.evaluateSelection self source index scope
  | .struct _ elements => evaluateStruct self elements scope
  | .lambda _ parameterName result => evaluateLambda ⟨parameterName, result⟩ scope
  | .intrinsic _ uri staticParameter => exec.evaluateIntrinsic valuePb ⟨uri, staticParameter⟩ scope
  | .scalar _ _ | .notSet _ => exec.createChildValue valuePb

/-! ### The knot -/

/-- The knot, tied with the given fuel. -/
def knot (exec : ControlFlowExecutor σ) : Nat → Knot σ
  | 0 => ⟨fun _ _ => Run.outOfFuel, fun _ _ => Run.outOfFuel⟩
  | fuel + 1 =>
      ⟨exec.evaluateStep (knot exec fuel), exec.constCreateCallStep fuel (knot exec fuel)⟩

def evaluate : Value → Scope → Exec σ ExecutorValue := (exec.knot fuel).evaluate

def constCreateCall : ExecutorValue → Option ExecutorValue → Exec σ ExecutorValue :=
  (exec.knot fuel).createCall

/-- The executor's implementation of `ExecutorBase<std::shared_ptr<ExecutorValue>>`. -/
def impl : ExecutorImpl σ ExecutorValue where
  executorName := "ControlFlowExecutor"
  createExecutorValue := exec.constCreateExecutorValue (exec.knot fuel)
  createCall := exec.constCreateCall fuel
  createStruct members := pure (.struct members)
  createSelection := exec.createSelectionInternal
  materialize := exec.constMaterialize

end ControlFlowExecutor

/-- The state of a control-flow executor over a child with state `σ`. -/
abbrev ControlFlowState (σ : Type) : Type := BaseState (HandleTable ExecutorValue) σ

def controlFlowExecutor [ProtoText] {σ : Type} (exec : ControlFlowExecutor σ) (fuel : Nat) :
    Executor ValueId (ControlFlowState σ) :=
  executorBase (exec.impl fuel)

/-- `CreateLocalExecutor`: control flow over inline, with one handler set for both. -/
def localExecutor [ProtoText] (handlers : IntrinsicHandlerSet) : ControlFlowExecutor InlineState :=
  ⟨handlers, inlineExecutor handlers⟩

/-- The state of a local stack before the first call. -/
def localInitial : ControlFlowState InlineState := ⟨.empty, ⟨.empty, ()⟩⟩

end GenC
