import GenC.Proto.Value

/-!
# Intrinsic handlers and handler sets

`runtime/intrinsic_handler.h` and the `CheckWellFormed` half of `intrinsics/*.cc`.

A handler is either INLINE (a function from data to data, run by the inline executor) or
CONTROL_FLOW (it drives the executor that calls it). The inline ones enter as arbitrary
functions; the control-flow ones are the nine of the complete handler set, and their
`ExecuteCall` is in `Intrinsics/ControlFlow.lean`.

Reading a repeated field past its end is undefined behaviour in the protobuf runtime. A `Checked`
computation is `none` where the source does that.
-/

namespace GenC

/-- `Message::DebugString()` of the protobuf library. Only error messages use it. -/
class ProtoText where
  debugString : Value → String

export ProtoText (debugString)

/-- A printer for runs that print nothing. -/
@[reducible] def ProtoText.silent : ProtoText := ⟨fun _ => ""⟩

/-- A pure computation over a message: `none` when it reads a missing element. -/
abbrev Checked (α : Type) : Type := Option (StatusOr α)

namespace Checked

def ok (a : α) : Checked α := some (.ok a)

def error (e : Status) : Checked α := some (.error e)

/-- Continue with `element(i)`. -/
def withElement (es : List Value) (i : Nat) (k : Value → Checked α) : Checked α :=
  match es[i]? with
  | some v => k v
  | none => none

end Checked

/-- A handler of the INLINE interface. -/
structure InlineHandler where
  checkWellFormed : Intrinsic → Checked Unit
  executeCall : Intrinsic → Value → Checked Value

/-- `LogicalNot` of `intrinsics/logical_not.cc`. -/
def logicalNot : InlineHandler where
  checkWellFormed _ := .ok ()
  executeCall _ arg :=
    match arg.boolean? with
    | none => .error (.invalidArgument "Argument does not contain boolean.")
    | some b => .ok (.ofBool !b)

/-- `Delegate::RunnerFn`. -/
abbrev RunnerFn : Type := Value → Option Value → StatusOr Value

/-- `Delegate::RunnerMap`. -/
abbrev RunnerMap : Type := String → Option RunnerFn

/-- The handlers of the CONTROL_FLOW interface in the complete handler set. -/
inductive ControlFlowHandler where
  | breakableChain
  | serialChain
  | conditional
  | delegate (runnerMap : RunnerMap)
  | fallback
  | parallelMap
  | repeat
  | while
  | repeatedConditionalChain

namespace ControlFlowHandler

/-- The URIs of `intrinsics/intrinsic_uris.h`. -/
def uri : ControlFlowHandler → String
  | .breakableChain => "breakable_chain"
  | .serialChain => "serial_chain"
  | .conditional => "conditional"
  | .delegate _ => "delegate"
  | .fallback => "fallback"
  | .parallelMap => "parallel_map"
  | .repeat => "repeat"
  | .while => "while"
  | .repeatedConditionalChain => "repeated_conditional_chain"

/-! ### `CheckWellFormed` -/

variable [ProtoText]

/-- The check most handlers start from: a struct whose length passes. -/
def checkStruct (lengthOk : Nat → Bool) (message : String) (intr : Intrinsic) : Checked Unit :=
  if intr.parameter.hasStruct && lengthOk intr.parameter.elements.length then .ok ()
  else .error (.invalidArgument message)

def repeatWellFormed : Intrinsic → Checked Unit :=
  checkStruct (· = 2) "Expext struct with 2 elements for Repeat."

def conditionalWellFormed : Intrinsic → Checked Unit :=
  checkStruct (· = 2) "Missing a pair of static parameters."

def serialChainWellFormed : Intrinsic → Checked Unit :=
  checkStruct (1 ≤ ·) "Expect at least 1 function in chain, but got none."

def breakableChainWellFormed : Intrinsic → Checked Unit :=
  checkStruct (1 ≤ ·) "Expect at least 1 function in chain, but got none."

def repeatedConditionalChainWellFormed (intr : Intrinsic) : Checked Unit :=
  checkStruct (2 ≤ ·)
    ("Expect at least 2 elementes in static parameter 'num_steps' and a listed of body_fns, got: "
      ++ debugString intr.parameter) intr

/-- Unlike the others, `While` does not ask for a struct: any other parameter has no elements. -/
def whileWellFormed (intr : Intrinsic) : Checked Unit :=
  if intr.parameter.elements.length ≠ 2 then
    .error (.invalidArgument "Missing required static parameters.")
  else .ok ()

def parallelMapWellFormed (intr : Intrinsic) : Checked Unit :=
  if intr.staticParameter.isNone then
    .error (.invalidArgument "Expect exactly one static_parameter for ParallelMap, got None.")
  else .ok ()

def fallbackWellFormed (_ : Intrinsic) : Checked Unit := .ok ()

/-- `Delegate` reads `element(0)` without asking for the length. -/
def delegateWellFormed (intr : Intrinsic) : Checked Unit :=
  if !intr.parameter.hasStruct then .error (.invalidArgument "Expect a struct.")
  else
    .withElement intr.parameter.elements 0 fun name =>
      if !name.hasStr then
        .error (.invalidArgument "Expected an environment name string.")
      else .ok ()

def checkWellFormed : ControlFlowHandler → Intrinsic → Checked Unit
  | .breakableChain => breakableChainWellFormed
  | .serialChain => serialChainWellFormed
  | .conditional => conditionalWellFormed
  | .delegate _ => delegateWellFormed
  | .fallback => fallbackWellFormed
  | .parallelMap => parallelMapWellFormed
  | .repeat => repeatWellFormed
  | .while => whileWellFormed
  | .repeatedConditionalChain => repeatedConditionalChainWellFormed

end ControlFlowHandler

/-! ## Handlers and handler sets -/

inductive HandlerInterface where
  | inline (handler : InlineHandler)
  | controlFlow (handler : ControlFlowHandler)

structure IntrinsicHandler where
  uri : String
  interface : HandlerInterface

namespace IntrinsicHandler

def checkWellFormed [ProtoText] (h : IntrinsicHandler) (intr : Intrinsic) : Checked Unit :=
  match h.interface with
  | .inline handler => handler.checkWellFormed intr
  | .controlFlow handler => handler.checkWellFormed intr

def getInlineInterface (h : IntrinsicHandler) : StatusOr InlineHandler :=
  match h.interface with
  | .inline handler => .ok handler
  | .controlFlow _ => .error (.internal ("Not an inline handler interface type: " ++ h.uri))

def getControlFlowInterface (h : IntrinsicHandler) : StatusOr ControlFlowHandler :=
  match h.interface with
  | .inline _ => .error (.internal ("Not a control flow handler interface type: " ++ h.uri))
  | .controlFlow handler => .ok handler

end IntrinsicHandler

/-- The registered handlers, the most recently added first. -/
abbrev IntrinsicHandlerSet : Type := List IntrinsicHandler

namespace IntrinsicHandlerSet

/-- `handlers_[handler->uri()] = handler`: a later handler replaces an earlier one. -/
def addHandler (handler : IntrinsicHandler) (set : IntrinsicHandlerSet) : IntrinsicHandlerSet :=
  handler :: set

def getHandler (set : IntrinsicHandlerSet) (uri : String) : StatusOr IntrinsicHandler :=
  match set.find? fun h => h.uri == uri with
  | some h => .ok h
  | none => .error (.notFound ("Could not find a handler for: " ++ uri))

theorem mem_of_getHandler {set : IntrinsicHandlerSet} {uri : String} {h : IntrinsicHandler}
    (hg : set.getHandler uri = .ok h) : h ∈ set := by
  unfold getHandler at hg
  split at hg
  · next heq =>
      cases hg
      exact List.mem_of_find?_eq_some heq
  · cases hg

theorem uri_of_getHandler {set : IntrinsicHandlerSet} {uri : String} {h : IntrinsicHandler}
    (hg : set.getHandler uri = .ok h) : h.uri = uri := by
  unfold getHandler at hg
  split at hg
  · next heq =>
      cases hg
      exact eq_of_beq (List.find?_some heq :)
  · cases hg

end IntrinsicHandlerSet

/-- `CreateCompleteHandlerSet`: the nine control-flow handlers over the configuration's runners,
and inline handlers (the built-in ones and the configured ones). -/
def createCompleteHandlerSet (delegateMap : RunnerMap) (inlineHandlers : List (String × InlineHandler)) :
    IntrinsicHandlerSet :=
  (inlineHandlers.map fun h => ⟨h.1, .inline h.2⟩) ++
    ([.breakableChain, .serialChain, .conditional, .delegate delegateMap, .fallback, .parallelMap,
      .repeat, .while, .repeatedConditionalChain] : List ControlFlowHandler).map
        fun h => ⟨h.uri, .controlFlow h⟩

end GenC
