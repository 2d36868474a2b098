import GenC.Intrinsics.Inline
import GenC.Runtime.ControlFlowExecutor

/-!
# Handlers that share a state

The functions and models of a configuration may work on objects that outlive their calls, such as the local
cache. Here an inline handler is a run on a state that it shares with the others.

As in `Runtime/InlineExecutor.lean`, a future is replaced by what it ends with, and the body of a task runs
when the task is scheduled. With a state this is right for programs that make one call after another, each
on what came of the one before it: its task waits for that.

Handlers that do without the state make the executors of `Runtime/InlineExecutor.lean`
(`sharedLocalExecutor_shared`).
-/

namespace GenC

open Lib

/-- A handler of the INLINE interface, over a state. -/
structure SharedHandler (κ : Type) where
  checkWellFormed : Intrinsic → Checked Unit
  executeCall : Intrinsic → Value → Exec κ Value

namespace SharedHandler

/-- What the handler does in one state, without what it makes of the state. -/
def inState {κ : Type} (handler : SharedHandler κ) (w : κ) : InlineHandler where
  checkWellFormed := handler.checkWellFormed
  executeCall intr arg :=
    match (handler.executeCall intr arg w).2 with
    | .ok v _ => .ok v
    | .error e _ => .error e
    | .crash _ | .outOfFuel => none

end SharedHandler

/-- A handler that has nothing to do with the state. -/
def InlineHandler.shared {κ : Type} (handler : InlineHandler) : SharedHandler κ where
  checkWellFormed := handler.checkWellFormed
  executeCall intr arg := (handler.executeCall intr arg).run

@[simp] theorem InlineHandler.inState_shared {κ : Type} (handler : InlineHandler) (w : κ) :
    handler.shared.inState w = handler := by
  have hexecute : (handler.shared.inState w).executeCall = handler.executeCall := by
    funext intr arg
    rcases h : handler.executeCall intr arg with _ | e | v <;>
      simp [InlineHandler.shared, SharedHandler.inState, Checked.run, Run.ofExcept, Run.step, Run.crash, h,
        Checked.ok, Checked.error]
  exact congrArg (InlineHandler.mk handler.checkWellFormed) hexecute

/-- The configured control-flow handlers, and inline handlers over a state. -/
structure SharedHandlerSet (κ : Type) where
  delegateMap : RunnerMap
  inlineHandlers : List (String × SharedHandler κ)

/-- The handlers as they are in one state. -/
def SharedHandlerSet.inState {κ : Type} (handlers : SharedHandlerSet κ) (w : κ) : IntrinsicHandlerSet :=
  createCompleteHandlerSet handlers.delegateMap (handlers.inlineHandlers.map fun h => (h.1, h.2.inState w))

/-! ### Looking a handler up -/

theorem lookup_map {α β : Type} (f : α → β) (uri : String) (l : List (String × α)) :
    (l.map fun h => (h.1, f h.2)).lookup uri = (l.lookup uri).map f := by
  induction l with
  | nil => rfl
  | cons first rest ih =>
      rw [List.map_cons, List.lookup_cons, List.lookup_cons, ih]
      split <;> rfl

/-- The inline handlers come first. -/
theorem getHandler_createCompleteHandlerSet (delegateMap : RunnerMap)
    (inlineHandlers : List (String × InlineHandler)) (uri : String) :
    (createCompleteHandlerSet delegateMap inlineHandlers).getHandler uri =
      match inlineHandlers.lookup uri with
      | some handler => .ok ⟨uri, .inline handler⟩
      | none => (createCompleteHandlerSet delegateMap []).getHandler uri := by
  induction inlineHandlers with
  | nil => rfl
  | cons first rest ih =>
      obtain ⟨name, handler⟩ := first
      rw [List.lookup_cons]
      by_cases hname : uri = name
      · subst hname
        simp [createCompleteHandlerSet, IntrinsicHandlerSet.getHandler]
      · have hbeq : (uri == name) = false := beq_false_of_ne hname
        rw [hbeq, ← ih]
        simp [createCompleteHandlerSet, IntrinsicHandlerSet.getHandler, Ne.symm hname]

theorem SharedHandlerSet.getHandler_inState {κ : Type} (handlers : SharedHandlerSet κ) (w : κ) (uri : String) :
    (handlers.inState w).getHandler uri =
      match handlers.inlineHandlers.lookup uri with
      | some handler => .ok ⟨uri, .inline (handler.inState w)⟩
      | none => (createCompleteHandlerSet handlers.delegateMap []).getHandler uri := by
  rw [inState, getHandler_createCompleteHandlerSet,
    lookup_map fun handler : SharedHandler κ => handler.inState w]
  cases handlers.inlineHandlers.lookup uri <;> rfl

/-! ## The executors -/

namespace SharedExecutor

variable [ProtoText] {κ : Type} (handlers : SharedHandlerSet κ)

/-- The body of the task of `CreateCall`, after both waits. -/
def callTask (fn arg : Value) : Exec κ Value :=
  match fn with
  | .intrinsic _ uri staticParameter =>
      match handlers.inlineHandlers.lookup uri with
      | some handler => do
          let intr : Intrinsic := ⟨uri, staticParameter⟩
          let w ← Run.step fun w => (.ok w, w)
          IntrinsicHandler.runCheckWellFormed ⟨uri, .inline (handler.inState w)⟩ intr
          Run.tell (.inlineCall (handler.inState w) intr arg)
          handler.executeCall intr arg
      -- what is left are the control-flow handlers
      | none => InlineExecutor.callTask (createCompleteHandlerSet handlers.delegateMap []) fn arg
  | fn => Run.throw (.invalidArgument ("Unsupported function type: " ++ debugString fn))

def createCall (function : StatusOr Value) (argument : Option (StatusOr Value)) : Exec κ (StatusOr Value) :=
  match argument with
  | none => Run.throw (.invalidArgument "An argument is always required.")
  | some argument =>
      Run.attempt do
        let fn ← InlineExecutor.wait function
        let arg ← InlineExecutor.wait argument
        callTask handlers fn arg

def impl : ExecutorImpl κ (StatusOr Value) where
  executorName := "InlineExecutor"
  createExecutorValue val := pure (.ok val)
  createCall := createCall handlers
  createStruct members := pure (InlineExecutor.structTask members)
  createSelection value index := pure (InlineExecutor.createSelection value index)
  materialize value valPb := pure (InlineExecutor.materialize value valPb)

end SharedExecutor

/-- The state of an inline executor whose handlers share a state. -/
abbrev SharedState (κ : Type) : Type := BaseState (HandleTable (StatusOr Value)) κ

section

variable [ProtoText] {κ : Type} (handlers : SharedHandlerSet κ)

def sharedExecutor : Executor ValueId (SharedState κ) := executorBase (SharedExecutor.impl handlers)

/-- `CreateLocalExecutor`, in the state `w₀`. The control-flow executor asks which handlers there are and
lets them check their intrinsics, for which the state makes no difference. -/
def sharedLocalExecutor (w₀ : κ) : ControlFlowExecutor (SharedState κ) :=
  ⟨handlers.inState w₀, sharedExecutor handlers⟩

end

/-! ### What the operations return -/

/-- A scope that owns nothing. -/
theorem Executor.releasing_nil_returns {Id σ α : Type} {exec : Executor Id σ} {x : Exec σ α} {s s' : σ} {a : α}
    (h : Run.Returns x s a s') : Run.Returns (exec.releasing [] x) s a s' :=
  h.attempt.bind (Run.Returns.bind (a := ()) (.pure _ s') (.pure a s'))

theorem BaseState.grows_track_with {V σ : Type} (s : BaseState (HandleTable V) σ) (impl : σ) (v : V) :
    s.Grows (BaseState.track { s with impl } v) :=
  ⟨Nat.le_succ _, HandleTable.trackedValues_trackValue_of_some⟩

namespace SharedExecutor

variable [ProtoText] {κ : Type} {handlers : SharedHandlerSet κ} {s : SharedState κ}

theorem createValue_returns (v : Value) (s : SharedState κ) :
    Run.Returns ((sharedExecutor handlers).createValue v) s s.table.nextValueId (s.track (.ok v)) :=
  (Run.Returns.pure _ _).zoom.bind (ExecutorBase.trackValue_returns _ _)

theorem callTask_returns {handler : SharedHandler κ} {m : Meta} {uri : String} {staticParameter : Option Value}
    {arg r : Value} {w w' : κ} (hlookup : handlers.inlineHandlers.lookup uri = some handler)
    (hwf : handler.checkWellFormed ⟨uri, staticParameter⟩ = .ok ())
    (h : Run.Returns (handler.executeCall ⟨uri, staticParameter⟩ arg) w r w') :
    Run.Returns (callTask handlers (.intrinsic m uri staticParameter) arg) w r w' := by
  have hcheck : Run.Returns (IntrinsicHandler.runCheckWellFormed ⟨uri, .inline (handler.inState w)⟩
      ⟨uri, staticParameter⟩) w () w := by
    refine (Run.Returns.tell _ w).bind ?_
    show Run.Returns (handler.checkWellFormed ⟨uri, staticParameter⟩).run w () w
    rw [hwf]
    exact .ofExcept rfl w
  simp only [callTask, hlookup]
  exact Run.Returns.bind (.step rfl) (hcheck.bind ((Run.Returns.tell _ w).bind h))

theorem createCall_returns {f a : ValueId} {fn arg r : Value} {w' : κ}
    (hf : s.table.trackedValues f = some (.ok fn)) (ha : s.table.trackedValues a = some (.ok arg))
    (hr : Run.Returns (callTask handlers fn arg) s.impl r w') :
    Run.Returns ((sharedExecutor handlers).createCall f (some a)) s s.table.nextValueId
      (BaseState.track { s with impl := w' } (.ok r)) := by
  refine (ExecutorBase.getTracked_returns hf).bind ?_
  refine Run.Returns.bind ((ExecutorBase.getTracked_returns ha).bind (.pure _ _)) ?_
  refine Run.Returns.bind (Run.Returns.zoom (u := w') ?_) (ExecutorBase.trackValue_returns _ _)
  exact Run.Returns.attempt ((Run.Returns.ofExcept rfl _).bind ((Run.Returns.ofExcept rfl _).bind hr))

theorem materialize_returns {id : ValueId} {v : Value} (pb : Value)
    (h : s.table.trackedValues id = some (.ok v)) :
    Run.Returns ((sharedExecutor handlers).materialize id (some pb)) s ⟨.ok (), some v⟩ s :=
  (ExecutorBase.getTracked_returns h).attempt.bind (Run.Returns.pure _ _).zoom

end SharedExecutor

/-! ## Configurations -/

/-- A function over a state. -/
abbrev SharedFunction (κ : Type) : Type := Value → Exec κ Value

/-- `HandlerSetConfig`, with functions over a state, and without custom intrinsics. -/
structure SharedConfig (κ : Type) where
  delegateMap : RunnerMap
  modelInferenceMap : String → Option (SharedFunction κ)
  modelInferenceWithConfigMap : String → Option (Intrinsic → SharedFunction κ)
  customFunctionMap : String → Option (SharedFunction κ)

namespace SharedConfig

variable {κ : Type} (config : SharedConfig κ)

def modelInference : SharedHandler κ where
  checkWellFormed := checkStr fun _ => "Expect model_uri as str, got none."
  executeCall intr arg :=
    let modelUri := intr.parameter.str
    if modelUri = "test_model" then pure (testModelOutput arg)
    else
      match config.modelInferenceMap modelUri with
      | some inferenceFn => inferenceFn arg
      | none => Run.throw (unsupportedModel modelUri)

def modelInferenceWithConfig : SharedHandler κ where
  checkWellFormed := checkFirstStr "Expected struct_ to be set, got none."
    "Expected model_uri to be set, got none."
  executeCall intr arg := do
    match intr.parameter.elements[0]? with
    | none => Run.crash .missingElement
    | some modelUriPb =>
        let modelUri := modelUriPb.str
        if modelUri = "test_model" then pure (testModelOutput arg)
        else
          match config.modelInferenceWithConfigMap modelUri with
          | some inferenceFn => inferenceFn intr arg
          | none => Run.throw (unsupportedModel modelUri)

def customFunction : SharedHandler κ where
  checkWellFormed := checkStr fun _ => "Expect fn_uri as str, got none."
  executeCall intr arg :=
    match config.customFunctionMap intr.parameter.str with
    | some fn => fn arg
    | none => pure Value.defaultInstance

/-- The handlers of `CreateCompleteHandlerSet`. -/
def completeHandlerSet [ProtoText] (libraries : InlineLibraries) : SharedHandlerSet κ where
  delegateMap := config.delegateMap
  inlineHandlers :=
    [("confidential_computation", (confidentialComputation libraries).shared),
      ("logger", logger.shared),
      ("inja_template", (injaTemplate libraries).shared),
      ("custom_function", config.customFunction),
      ("model_inference", config.modelInference),
      ("model_inference_with_config", config.modelInferenceWithConfig),
      ("logical_not", logicalNot.shared),
      ("prompt_template", (promptTemplate libraries).shared),
      ("prompt_template_with_parameters", (promptTemplateWithParameters libraries).shared),
      ("regex_partial_match", (regexPartialMatch libraries).shared),
      ("rest_call", (restCall libraries).shared)]

end SharedConfig

/-! ### Without a state -/

/-- The functions of a configuration, which have nothing to do with the state. -/
def HandlerSetConfig.shared {κ : Type} (config : HandlerSetConfig) : SharedConfig κ where
  delegateMap := config.delegateMap
  modelInferenceMap modelUri := (config.modelInferenceMap modelUri).map fun f arg => Run.ofExcept (f arg)
  modelInferenceWithConfigMap modelUri :=
    (config.modelInferenceWithConfigMap modelUri).map fun f intr arg => Run.ofExcept (f intr arg)
  customFunctionMap fnUri := (config.customFunctionMap fnUri).map fun f arg => Run.ofExcept (f arg)

section

variable {κ : Type} (config : HandlerSetConfig)

theorem modelInference_shared :
    (config.shared : SharedConfig κ).modelInference = (modelInference config).shared := by
  refine congrArg (SharedHandler.mk _) (funext fun intr => funext fun arg => ?_)
  simp only [HandlerSetConfig.shared, modelInference]
  split
  · rfl
  · cases config.modelInferenceMap intr.parameter.str <;> rfl

theorem modelInferenceWithConfig_shared : (config.shared : SharedConfig κ).modelInferenceWithConfig =
    (modelInferenceWithConfig config).shared := by
  refine congrArg (SharedHandler.mk _) (funext fun intr => funext fun arg => ?_)
  simp only [HandlerSetConfig.shared, modelInferenceWithConfig, Checked.withElement]
  cases intr.parameter.elements[0]? with
  | none => rfl
  | some modelUriPb =>
      simp only
      split
      · rfl
      · cases config.modelInferenceWithConfigMap modelUriPb.str <;> rfl

theorem customFunction_shared :
    (config.shared : SharedConfig κ).customFunction = (customFunction config).shared := by
  refine congrArg (SharedHandler.mk _) (funext fun intr => funext fun arg => ?_)
  simp only [HandlerSetConfig.shared, customFunction]
  cases config.customFunctionMap intr.parameter.str <;> rfl

variable [ProtoText]

theorem SharedExecutor.callTask_shared (delegateMap : RunnerMap)
    (inlineHandlers : List (String × InlineHandler))
    (fn arg : Value) :
    (callTask ⟨delegateMap, inlineHandlers.map fun h => (h.1, h.2.shared)⟩ fn arg : Exec κ Value) =
      InlineExecutor.callTask (createCompleteHandlerSet delegateMap inlineHandlers) fn arg := by
  cases fn with
  | intrinsic m uri staticParameter =>
      rw [callTask, lookup_map]
      conv_rhs => rw [InlineExecutor.callTask, getHandler_createCompleteHandlerSet]
      cases inlineHandlers.lookup uri with
      | none => rfl
      | some handler =>
          funext w
          refine (Run.bind_ok rfl).trans ?_
          simp only [InlineHandler.inState_shared, List.nil_append, Run.ofExcept_ok, pure_bind,
            IntrinsicHandler.getInlineInterface]
          rfl
  | _ => rfl

theorem SharedExecutor.impl_shared (delegateMap : RunnerMap) (inlineHandlers : List (String × InlineHandler)) :
    impl ⟨delegateMap, inlineHandlers.map fun h => (h.1, h.2.shared)⟩ =
      InlineExecutor.impl (createCompleteHandlerSet delegateMap inlineHandlers) := by
  unfold impl InlineExecutor.impl
  congr 1
  funext function argument
  cases argument with
  | none => rfl
  | some argument => simp only [createCall, InlineExecutor.createCall, callTask_shared]

variable (libraries : InlineLibraries)

theorem completeHandlerSet_shared : (config.shared : SharedConfig κ).completeHandlerSet libraries =
    ⟨config.delegateMap, (builtinInlineHandlers config libraries).map fun h => (h.1, h.2.shared)⟩ := by
  rw [SharedConfig.completeHandlerSet, modelInference_shared, modelInferenceWithConfig_shared,
    customFunction_shared]
  rfl

/-- **Functions without a state make the local executor without one.** -/
theorem sharedLocalExecutor_shared :
    sharedLocalExecutor ((config.shared : SharedConfig Unit).completeHandlerSet libraries) () =
      localExecutor (builtinHandlers config libraries) := by
  have hhandlers : ((config.shared : SharedConfig Unit).completeHandlerSet libraries).inState () =
      builtinHandlers config libraries := by
    rw [completeHandlerSet_shared, SharedHandlerSet.inState, builtinHandlers, List.map_map]
    congr 1
    exact (List.map_congr_left fun h _ => by simp).trans (List.map_id _)
  rw [sharedLocalExecutor, localExecutor, hhandlers, sharedExecutor, inlineExecutor, completeHandlerSet_shared,
    SharedExecutor.impl_shared]
  rfl

end

end GenC
