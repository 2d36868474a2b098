import GenC.Runtime.Executor

/-!
# The control-flow intrinsics

`ExecuteCall` of the nine control-flow handlers (`intrinsics/*.cc`). Each works on values of the
executor that called it, through a `Context`; the handlers know nothing else about that executor.

`arg.value()` on an absent argument, `element(i)` past the end and `->` on a disengaged optional are
crashes here, as they are in the source.
-/

namespace GenC

open Lib

/-- `ControlFlowIntrinsicHandlerInterface::Context`. -/
structure Context (σ V : Type) where
  createValue : Value → Exec σ V
  createCall : V → Option V → Exec σ V
  createStruct : List V → Exec σ V
  createSelection : V → UInt32 → Exec σ V
  materialize : V → Option Value → Exec σ MaterializeResult

namespace Context

variable {σ V : Type}

/-- `v0::Value pb; GENC_TRY(context->Materialize(value, &pb));` -/
def materializeValue (ctx : Context σ V) (value : V) : Exec σ Value := do
  (← ctx.materialize value (some Value.defaultInstance)).get

/-- The loop that creates a value for each IR of a list. -/
def createValues (ctx : Context σ V) : List Value → Exec σ (List V)
  | [] => pure []
  | v :: vs => do
      let ref ← ctx.createValue v
      let refs ← ctx.createValues vs
      pure (ref :: refs)

end Context

/-- `arg.value()`. -/
def engaged (arg : Option V) : Exec σ V :=
  match arg with
  | some v => pure v
  | none => Run.crash .absentOptional

/-- `element(i)`. -/
def elementAt (es : List Value) (i : Nat) : Exec σ Value :=
  match es[i]? with
  | some v => pure v
  | none => Run.crash .missingElement

/-- `optional->Swap(&v)`: the optional must already hold a value. -/
def swapInto (optional : Option Value) (v : Value) : Exec σ (Option Value) :=
  match optional with
  | some _ => pure (some v)
  | none => Run.crash .absentOptional

namespace ControlFlowHandler

variable [ProtoText] {σ V : Type} (ctx : Context σ V)

/-! ## Repeat -/

def repeatLoop (bodyFn : V) : Nat → V → Exec σ V
  | 0, state => pure state
  | n + 1, state => do
      let state ← ctx.createCall bodyFn (some state)
      repeatLoop bodyFn n state

def repeatExecuteCall (intr : Intrinsic) (arg : Option V) : Exec σ V := do
  let numSteps := (← elementAt intr.parameter.elements 0).int32
  let bodyFn ← ctx.createValue (← elementAt intr.parameter.elements 1)
  let state ← engaged arg
  repeatLoop ctx bodyFn numSteps.toInt.toNat state

/-! ## While -/

def whileLoop (conditionFn bodyFn : V) : Nat → V → Exec σ V
  | 0, _ => Run.outOfFuel
  | fuel + 1, state => do
      let conditionVal ← ctx.createCall conditionFn (some state)
      let condPb ← ctx.materializeValue conditionVal
      match condPb.boolean? with
      | none =>
          Run.throw (.invalidArgument ("Condition does not have boolean: " ++ debugString condPb))
      | some false => pure state
      | some true => do
          let state ← ctx.createCall bodyFn (some state)
          whileLoop conditionFn bodyFn fuel state

def whileExecuteCall (fuel : Nat) (intr : Intrinsic) (arg : Option V) : Exec σ V := do
  let conditionFn ← ctx.createValue (← elementAt intr.parameter.elements 0)
  let bodyFn ← ctx.createValue (← elementAt intr.parameter.elements 1)
  let state ← engaged arg
  whileLoop ctx conditionFn bodyFn fuel state

/-! ## Chains -/

def serialChainLoop : List Value → V → Exec σ V
  | [], state => pure state
  | fn :: fns, state => do
      let fnRef ← ctx.createValue fn
      let state ← ctx.createCall fnRef (some state)
      serialChainLoop fns state

def serialChainExecuteCall (intr : Intrinsic) (arg : Option V) : Exec σ V := do
  let state ← engaged arg
  serialChainLoop ctx intr.parameter.elements state

def breakableChainLoop : List Value → V → Exec σ V
  | [], state => pure state
  | fn :: fns, state => do
      let fnRef ← ctx.createValue fn
      let nextState ← ctx.createCall fnRef (some state)
      let nextStatePb ← ctx.materializeValue nextState
      match nextStatePb.boolean? with
      | none => breakableChainLoop fns nextState
      | some true => pure state
      | some false => breakableChainLoop fns state

def breakableChainExecuteCall (intr : Intrinsic) (arg : Option V) : Exec σ V := do
  let state ← engaged arg
  breakableChainLoop ctx intr.parameter.elements state

/-- One round over the body functions: the new state, and `should_break`. -/
def conditionalRound : List V → V → Exec σ (V × Bool)
  | [], state => pure (state, false)
  | bodyFn :: bodyFns, state => do
      let fnVal ← ctx.createCall bodyFn (some state)
      let nextStatePb ← ctx.materializeValue fnVal
      match nextStatePb.boolean? with
      | none => do
          let state ← ctx.createValue nextStatePb
          conditionalRound bodyFns state
      | some true => pure (state, true)
      | some false => conditionalRound bodyFns state

def conditionalRounds (bodyFns : List V) : Nat → V → Exec σ V
  | 0, state => pure state
  | n + 1, state => do
      let (state, shouldBreak) ← conditionalRound ctx bodyFns state
      if shouldBreak then pure state else conditionalRounds bodyFns n state

def repeatedConditionalChainExecuteCall (intr : Intrinsic) (arg : Option V) : Exec σ V := do
  let numSteps := (← elementAt intr.parameter.elements 0).int32
  -- the first parameter is reserved for num_steps
  let bodyFns ← ctx.createValues (intr.parameter.elements.drop 1)
  let state ← engaged arg
  conditionalRounds ctx bodyFns numSteps.toInt.toNat state

/-! ## ParallelMap -/

def parallelMapLoop (fnVal : V) : List Value → Exec σ (List V)
  | [] => pure []
  | e :: es => do
      let argVal ← ctx.createValue e
      let result ← ctx.createCall fnVal (some argVal)
      let results ← parallelMapLoop fnVal es
      pure (result :: results)

def parallelMapExecuteCall (intr : Intrinsic) (arg : Option V) : Exec σ V := do
  let argsPb ← ctx.materializeValue (← engaged arg)
  let fnVal ← ctx.createValue intr.parameter
  let results ← parallelMapLoop ctx fnVal argsPb.elements
  ctx.createStruct results

/-! ## Conditional -/

def conditionalExecuteCall (intr : Intrinsic) (arg : Option V) : Exec σ V := do
  match arg with
  | none => Run.throw (.invalidArgument "Missing condition.")
  | some arg => do
      let condPb ← ctx.materializeValue arg
      match condPb.boolean? with
      | none =>
          Run.throw (.invalidArgument ("Condition is not a Boolean: " ++ debugString condPb))
      | some cond =>
          ctx.createValue (← elementAt intr.parameter.elements (if cond then 0 else 1))

/-! ## Fallback -/

def fallbackLoop (arg : Option V) : Status → List Value → Exec σ V
  | errorStatus, [] => Run.throw errorStatus
  | _, fnPb :: fns => do
      match ← (ctx.createValue fnPb).attempt with
      | .error e => fallbackLoop arg e fns
      | .ok fn =>
        match ← (ctx.createCall fn arg).attempt with
        | .error e => fallbackLoop arg e fns
        | .ok result =>
          match (← ctx.materialize result none).status with
          | .ok () => pure result
          | .error e => fallbackLoop arg e fns

def fallbackExecuteCall (intr : Intrinsic) (arg : Option V) : Exec σ V :=
  fallbackLoop ctx arg (.unavailable "No candidate computations available.")
    intr.parameter.elements

/-! ## Delegate -/

/-- `optional_arg_pb`: absent to start with, and filled in through `->` when there is an argument. -/
def delegateArgument (arg : Option V) : Exec σ (Option Value) := do
  let optionalArgPb : Option Value := none
  match arg with
  | some arg => do
      let argPb ← ctx.materializeValue arg
      swapInto optionalArgPb argPb
  | none => pure optionalArgPb

def delegateExecuteCall (runnerMap : RunnerMap) (intr : Intrinsic) (arg : Option V) :
    Exec σ V := do
  let environmentName := (← elementAt intr.parameter.elements 0).str
  match runnerMap environmentName with
  | none => Run.throw (.notFound ("No such runtime environment: " ++ environmentName))
  | some runnerFn => do
      let funcPb ← elementAt intr.parameter.elements 1
      let optionalArgPb ← delegateArgument ctx arg
      Run.tell (.runnerCall environmentName funcPb optionalArgPb)
      let resultPb ← Run.ofExcept (runnerFn funcPb optionalArgPb)
      ctx.createValue resultPb

/-! ## Dispatch -/

/-- The virtual `ExecuteCall`. Only `While` has an unbounded loop, so only it needs fuel. -/
def executeCall (fuel : Nat) : ControlFlowHandler → Intrinsic → Option V → Exec σ V
  | .breakableChain => breakableChainExecuteCall ctx
  | .serialChain => serialChainExecuteCall ctx
  | .conditional => conditionalExecuteCall ctx
  | .delegate runnerMap => delegateExecuteCall ctx runnerMap
  | .fallback => fallbackExecuteCall ctx
  | .parallelMap => parallelMapExecuteCall ctx
  | .repeat => repeatExecuteCall ctx
  | .while => whileExecuteCall ctx fuel
  | .repeatedConditionalChain => repeatedConditionalChainExecuteCall ctx

end ControlFlowHandler

end GenC
