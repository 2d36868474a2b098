import GenC.Authoring.Constructor
import GenC.Flow.Action

/-!
# Flows

The programs that authors compose: functions (`Flow`) out of the constructors of `authoring/constructor.cc`, and
expressions (`Expr`) for the bodies of lambdas. `toPb` is the IR that is built for a program, and `action` and
`eval` are what the program means.

The programs are first-order ones: a function is written out where it is used, names are bound to data, and
every call has an argument. A flow is one for a set of handlers, since which intrinsics are inline, and make
data of data, depends on it.
-/

namespace GenC

open Lib

/-- Materialized data is made of materialized data. -/
def InlineHandler.KeepsData (handler : InlineHandler) (intr : Intrinsic) : Prop :=
  ∀ {arg result}, arg.Materialized → handler.executeCall intr arg = some (.ok result) → result.Materialized

/-- If there is a handler for the intrinsic, it is an inline one, and what it makes of data is data. -/
def IntrinsicHandlerSet.Inline (handlers : IntrinsicHandlerSet) (intr : Intrinsic) : Prop :=
  ∀ handler, handlers.getHandler intr.uri = .ok handler →
    ∃ interface, handler.interface = .inline interface ∧ interface.KeepsData intr

mutual

/-- A function of data. -/
inductive Flow (handlers : IntrinsicHandlerSet) : Type where
  | inline (intr : Intrinsic) (h : handlers.Inline intr)
  | serialChain (functionList : List (Flow handlers))
  | breakableChain (fnsList : List (Flow handlers))
  | repeatedConditionalChain (numSteps : Int32) (bodyFns : List (Flow handlers))
  | repeat (numSteps : Int32) (bodyFn : Flow handlers)
  | while (conditionFn bodyFn : Flow handlers)
  | fallback (functionList : List (Flow handlers))
  | parallelMap (mapFn : Flow handlers)
  | lambda (argName : String) (body : Expr handlers)

/-- Data, over the names in scope. -/
inductive Expr (handlers : IntrinsicHandlerSet) : Type where
  | literal (m : Meta) (c : Scalar)
  | reference (name : String)
  | struct (valueList : List (Expr handlers))
  | selection (source : Expr handlers) (index : Int32)
  | call (fn : Flow handlers) (arg : Expr handlers)
  | conditional (condition positiveBranch negativeBranch : Expr handlers)
  | block (locals : List (String × Expr handlers)) (result : Expr handlers)

end

variable {handlers : IntrinsicHandlerSet}

/-! ## The IR -/

mutual

def Flow.toPb : Flow handlers → Value
  | .inline intr _ => intr.toValue
  | .serialChain functionList => createSerialChain (Flow.toPbs functionList)
  | .breakableChain fnsList => createBreakableChain (Flow.toPbs fnsList)
  | .repeatedConditionalChain numSteps bodyFns => createRepeatedConditionalChain numSteps (Flow.toPbs bodyFns)
  | .repeat numSteps bodyFn => createRepeat numSteps bodyFn.toPb
  | .while conditionFn bodyFn => createWhile conditionFn.toPb bodyFn.toPb
  | .fallback functionList => createFallback (Flow.toPbs functionList)
  | .parallelMap mapFn => createParallelMap mapFn.toPb
  | .lambda argName body => createLambda argName body.toPb

def Flow.toPbs : List (Flow handlers) → List Value
  | [] => []
  | f :: fs => f.toPb :: Flow.toPbs fs

def Expr.toPb : Expr handlers → Value
  | .literal m c => .scalar m c
  | .reference name => createReference name
  | .struct valueList => createStruct (Expr.toPbs valueList)
  | .selection source index => createSelection source.toPb index
  | .call fn arg => createCall fn.toPb arg.toPb
  | .conditional condition positiveBranch negativeBranch =>
      createConditional condition.toPb positiveBranch.toPb negativeBranch.toPb
  | .block locals result => .block {} (Expr.localsToPb locals) result.toPb

def Expr.toPbs : List (Expr handlers) → List Value
  | [] => []
  | e :: es => e.toPb :: Expr.toPbs es

def Expr.localsToPb : List (String × Expr handlers) → List (String × Value)
  | [] => []
  | (name, e) :: locals => (name, e.toPb) :: Expr.localsToPb locals

end

/-! ## The meaning -/

section

variable [ProtoText]

/-- A literal that is a branch takes the label of the branch. -/
def Expr.relabel (label : String) : Expr handlers → Datum → Datum
  | .literal _ _, d => d.relabel label
  | _, d => d

/-- A chain of no functions is not well formed. -/
def Flow.chainCreate (fns : List (Flow handlers)) : Meaning Unit :=
  if fns.isEmpty then .throw (.invalidArgument "Expect at least 1 function in chain, but got none.")
  else pure ()

/-- And neither is one that is repeated. -/
def Flow.roundsCreate (numSteps : Int32) (fns : List (Flow handlers)) : Meaning Unit :=
  if fns.isEmpty then .throw (.invalidArgument
    ("Expect at least 2 elementes in static parameter 'num_steps' and a listed of body_fns, got: "
      ++ debugString (.struct {} [createLabeledValue "num_steps" (.ofInt32 numSteps)])))
  else pure ()

/-! ### Flows and expressions -/

mutual

/-- What a function means where the names have these meanings. -/
def Flow.action : Flow handlers → Env → Action
  | .inline intr _, _ => .inline handlers intr
  | .serialChain functionList, ρ =>
      { create := Flow.chainCreate functionList
        call := Action.serial (Flow.actions functionList ρ) }
  | .breakableChain fnsList, ρ =>
      { create := Flow.chainCreate fnsList
        call := Action.breakable (Flow.actions fnsList ρ) }
  | .repeatedConditionalChain numSteps bodyFns, ρ =>
      { create := Flow.roundsCreate numSteps bodyFns
        call := fun d => do
          Action.createAll (Flow.actions bodyFns ρ)
          Action.rounds (Flow.actions bodyFns ρ) numSteps.toInt.toNat d }
  | .repeat numSteps bodyFn, ρ =>
      { create := pure ()
        call := fun d => do
          (bodyFn.action ρ).create
          (bodyFn.action ρ).iterate numSteps.toInt.toNat d }
  | .while conditionFn bodyFn, ρ =>
      { create := pure ()
        call := fun d => do
          (conditionFn.action ρ).create
          (bodyFn.action ρ).create
          Action.whileDo (conditionFn.action ρ) (bodyFn.action ρ) d }
  | .fallback functionList, ρ =>
      { create := pure ()
        call := Action.firstOf (.unavailable "No candidate computations available.") (Flow.actions functionList ρ) }
  | .parallelMap mapFn, ρ =>
      { create := pure ()
        call := (mapFn.action ρ).parallel }
  | .lambda argName body, ρ =>
      { create := pure ()
        call := fun d => body.eval ((argName, d) :: ρ) }

def Flow.actions : List (Flow handlers) → Env → List Action
  | [], _ => []
  | f :: fs, ρ => f.action ρ :: Flow.actions fs ρ

/-- What an expression evaluates to. -/
def Expr.eval : Expr handlers → Env → Meaning Datum
  | .literal m c, _ => pure (.leaf (.ok (.scalar m c)))
  | .reference name, ρ =>
      (Behavior.ofExcept (Env.resolve name ρ)).mapError fun e =>
        e.withSuffix ("while searching scope: " ++ Env.debugString ρ)
  | .struct valueList, ρ => do
      let ds ← Expr.evalAll valueList ρ
      pure (.node ds)
  | .selection source index, ρ => do
      let d ← source.eval ρ
      d.select index.toUInt32
  | .call fn arg, ρ => do
      (fn.action ρ).create
      let d ← arg.eval ρ
      (fn.action ρ).call d
  | .conditional condition positiveBranch negativeBranch, ρ => do
      let d ← condition.eval ρ
      let condPb ← d.shown
      match condPb.boolean? with
      | none => .throw (.invalidArgument ("Condition is not a Boolean: " ++ debugString condPb))
      | some true => positiveBranch.relabel "then" <$> positiveBranch.eval ρ
      | some false => negativeBranch.relabel "else" <$> negativeBranch.eval ρ
  | .block locals result, ρ => do
      let ρ ← Expr.evalLocals (",".intercalate (locals.map Prod.fst)) locals ρ
      result.eval ρ

def Expr.evalAll : List (Expr handlers) → Env → Meaning (List Datum)
  | [], _ => pure []
  | e :: es, ρ => do
      let d ← e.eval ρ
      let ds ← Expr.evalAll es ρ
      pure (d :: ds)

/-- The environment after the locals. -/
def Expr.evalLocals (names : String) : List (String × Expr handlers) → Env → Meaning Env
  | [], ρ => pure ρ
  | (name, e) :: locals, ρ => do
      let d ← (e.eval ρ).mapError fun e =>
        e.withSuffix ("while evaluating local [" ++ name ++ "] in block locals [" ++ names ++ "]")
      Expr.evalLocals names locals ((name, d) :: ρ)

end

end

end GenC
