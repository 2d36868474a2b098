import GenC.Runtime.DataFunctions
import GenC.Runtime.WhileAndFallback

/-!
# Candidates that are not available

The candidates of a `Fallback` that name models and custom functions, directly or in a `SerialChain`. One
that names a model which is not registered fails, and `Fallback` goes on with the next one. One that names
a custom function which is not registered may answer all the same: the function is taken to leave the result
unset. `Fallback` then stops there (`drop_unavailable`).

Models and functions are taken to be functions of their argument. With a state that they share, such as that
of the local cache, what a chain does before it fails is not undone, and dropping it can make a difference.
-/

namespace GenC

open Lib ControlFlowExecutor

/-! ## Candidates -/

/-- What a candidate names. -/
inductive CandidateName where
  | model (modelUri : String)
  | modelWithConfig (modelUri : String)
  | function (fnUri : String)

/-- A candidate of a `Fallback`. -/
inductive Candidate where
  | modelInference (m parameterMeta : Meta) (modelUri : String)
  | modelInferenceWithConfig (m parameterMeta uriMeta : Meta) (modelUri : String) (modelConfig : List Value)
  | customFunction (m parameterMeta : Meta) (fnUri : String)
  | serialChain (m parameterMeta : Meta) (fns : List Candidate)

namespace Candidate

mutual

/-- The IR of a candidate. -/
def toPb : Candidate → Value
  | .modelInference m pm modelUri =>
      .intrinsic m "model_inference" (some (.scalar pm (.str modelUri)))
  | .modelInferenceWithConfig m pm um modelUri modelConfig =>
      .intrinsic m "model_inference_with_config"
        (some (.struct pm (.scalar um (.str modelUri) :: modelConfig)))
  | .customFunction m pm fnUri => .intrinsic m "custom_function" (some (.scalar pm (.str fnUri)))
  | .serialChain m pm fns => .intrinsic m "serial_chain" (some (.struct pm (toPbs fns)))

def toPbs : List Candidate → List Value
  | [] => []
  | c :: cs => c.toPb :: toPbs cs

end

mutual

/-- The names in a candidate. -/
def names : Candidate → List CandidateName
  | .modelInference _ _ modelUri => [.model modelUri]
  | .modelInferenceWithConfig _ _ _ modelUri _ => [.modelWithConfig modelUri]
  | .customFunction _ _ fnUri => [.function fnUri]
  | .serialChain _ _ fns => namesAll fns

def namesAll : List Candidate → List CandidateName
  | [] => []
  | c :: cs => c.names ++ namesAll cs

end

/-! ### What a candidate answers -/

variable (config : HandlerSetConfig)

mutual

/-- What a candidate makes of data. -/
def answer : Candidate → Value → StatusOr Value
  | .modelInference _ _ modelUri, d =>
      if modelUri = "test_model" then .ok (testModelOutput d)
      else
        match config.modelInferenceMap modelUri with
        | some inferenceFn => inferenceFn d
        | none => .error (unsupportedModel modelUri)
  | .modelInferenceWithConfig _ pm um modelUri modelConfig, d =>
      if modelUri = "test_model" then .ok (testModelOutput d)
      else
        match config.modelInferenceWithConfigMap modelUri with
        | some inferenceFn => inferenceFn
            ⟨"model_inference_with_config", some (.struct pm (.scalar um (.str modelUri) :: modelConfig))⟩ d
        | none => .error (unsupportedModel modelUri)
  | .customFunction _ _ fnUri, d =>
      match config.customFunctionMap fnUri with
      | some fn => fn d
      | none => .ok Value.defaultInstance
  | .serialChain _ _ fns, d =>
      if fns.isEmpty then .error (.invalidArgument "Expect at least 1 function in chain, but got none.")
      else answerAll fns d

/-- One after another. -/
def answerAll : List Candidate → Value → StatusOr Value
  | [], d => .ok d
  | c :: cs, d =>
      match c.answer d with
      | .ok r => answerAll cs r
      | .error e => .error e

end

/-- The model or function is registered, or it is the model that is built in. -/
def registered : CandidateName → Bool
  | .model modelUri => modelUri = "test_model" || (config.modelInferenceMap modelUri).isSome
  | .modelWithConfig modelUri =>
      modelUri = "test_model" || (config.modelInferenceWithConfigMap modelUri).isSome
  | .function fnUri => (config.customFunctionMap fnUri).isSome

def available (c : Candidate) : Bool := c.names.all (registered config)

/-- The first candidate that answers. -/
def answering (cs : List Candidate) (d : Value) : Option Candidate := cs.find? fun c => (c.answer config d).isOk

/-- What the first candidate that answers gives. -/
def firstAnswer (cs : List Candidate) (d : Value) : Option Value :=
  cs.findSome? fun c => (c.answer config d).toOption

/-- Every custom function that the candidate names is registered. -/
def FunctionsRegistered (c : Candidate) : Prop :=
  ∀ fnUri, .function fnUri ∈ c.names → (config.customFunctionMap fnUri).isSome

variable {config}

mutual

/-- **A model that is not registered fails.** So a candidate that answers, names none. -/
theorem registered_of_answer : ∀ {c : Candidate} {d w : Value}, c.answer config d = .ok w →
    ∀ name ∈ c.names, registered config name ∨ ∃ fnUri, name = .function fnUri
  | .modelInference m pm modelUri, d, w, h, name, hname => by
      obtain rfl : name = .model modelUri := List.mem_singleton.mp hname
      rw [answer] at h
      split at h
      · next htest => simp [registered, htest]
      · split at h
        · next hsome => simp [registered, hsome]
        · cases h
  | .modelInferenceWithConfig m pm um modelUri modelConfig, d, w, h, name, hname => by
      obtain rfl : name = .modelWithConfig modelUri := List.mem_singleton.mp hname
      rw [answer] at h
      split at h
      · next htest => simp [registered, htest]
      · split at h
        · next hsome => simp [registered, hsome]
        · cases h
  -- an unregistered function still answers, with an empty value
  | .customFunction m pm fnUri, d, w, h, name, hname => .inr ⟨fnUri, List.mem_singleton.mp hname⟩
  | .serialChain m pm fns, d, w, h, name, hname => by
      rw [answer] at h
      split at h
      · cases h
      · exact registered_of_answerAll h name hname

theorem registered_of_answerAll : ∀ {cs : List Candidate} {d w : Value}, answerAll config cs d = .ok w →
    ∀ name ∈ namesAll cs, registered config name ∨ ∃ fnUri, name = .function fnUri
  | [], _, _, _, _, hname => (List.not_mem_nil hname).elim
  | c :: cs, d, w, h, name, hname => by
      rw [answerAll] at h
      rcases hr : c.answer config d with e | r <;> rw [hr] at h
      · cases h
      rcases List.mem_append.mp hname with hname | hname
      · exact registered_of_answer hr name hname
      · exact registered_of_answerAll h name hname

end

/-- What is not available and answers nevertheless, names a custom function that is not registered. -/
theorem available_eq_false_iff {c : Candidate} {d w : Value} (h : c.answer config d = .ok w) :
    available config c = false ↔
      ∃ fnUri, .function fnUri ∈ c.names ∧ config.customFunctionMap fnUri = none := by
  rw [available, List.all_eq_false]
  constructor
  · rintro ⟨name, hname, hnot⟩
    obtain hregistered | ⟨fnUri, rfl⟩ := registered_of_answer h name hname
    · exact (hnot hregistered).elim
    · exact ⟨fnUri, hname, by simpa [registered] using hnot⟩
  · rintro ⟨fnUri, hname, hnone⟩
    exact ⟨_, hname, by simp [registered, hnone]⟩

end Candidate

/-! ## Runs -/

section

variable [ProtoText] {handlers : IntrinsicHandlerSet} {scope : Scope} {s s' u : InlineState}
  {x : ExecutorValue} {o : StatusOr ExecutorValue} {r : StatusOr Value} {e e' : Status}

/-- A call that ended with `o` gave `r`, at once or once it is materialized. Which error it is does not
matter. -/
inductive Comes (s' : InlineState) : StatusOr ExecutorValue → StatusOr Value → Prop where
  | fails {e e' : Status} : Comes s' (.error e) (.error e')
  | late {y : ExecutorValue} {e e' : Status} (halive : y.Alive s')
      (h : y.contents s' = some (.error e)) : Comes s' (.ok y) (.error e')
  | data {y : ExecutorValue} {w : Value} (halive : y.Alive s') (h : y.contents s' = some (.ok w)) :
      Comes s' (.ok y) (.ok w)

omit [ProtoText] in
theorem Comes.error (h : Comes s' o (.error e)) (e' : Status) : Comes s' o (.error e') := by
  cases h with
  | fails => exact .fails
  | late halive h => exact .late halive h

omit [ProtoText] in
theorem Comes.of_contents {y : ExecutorValue} (halive : y.Alive s') (h : y.contents s' = some r) :
    Comes s' (.ok y) r := by
  cases r with
  | ok w => exact .data halive h
  | error e => exact .late halive h

/-- A function that is created and called on `x` gives `r`. -/
inductive Tries (handlers : IntrinsicHandlerSet) (scope : Scope) (fnPb : Value) (x : ExecutorValue)
    (s : InlineState) : StatusOr Value → InlineState → Prop where
  | create {e e' : Status} {s' : InlineState}
      (h : Context.CreateFails ((localExecutor handlers).contexts scope) fnPb s e s') :
      Tries handlers scope fnPb x s (.error e') s'
  | call {fn : ExecutorValue} {u s' : InlineState} {o : StatusOr ExecutorValue} {r : StatusOr Value}
      (hcreate : Context.Creates ((localExecutor handlers).contexts scope) fnPb s fn u)
      (hcall : Run.Settles (fun n => ((localExecutor handlers).contexts scope n).createCall fn (some x))
        u o s') (h : Comes s' o r) : Tries handlers scope fnPb x s r s'

/-- A handler of the child is tried on whatever the child holds for the argument. -/
theorem tries_inline {m : Meta} {uri : String} {staticParameter : Option Value}
    {handler : IntrinsicHandler} {interface : InlineHandler} {G : Value → StatusOr Value}
    (hget : handlers.getHandler uri = .ok handler) (hinterface : handler.interface = .inline interface)
    (hwf : handler.checkWellFormed ⟨uri, staticParameter⟩ = some (.ok ()))
    (hG : ∀ d, interface.executeCall ⟨uri, staticParameter⟩ d = some (G d))
    (hx : x.Alive s) (hr : x.contents s = some r) :
    ∃ s', s ≤ s' ∧ Tries handlers scope (.intrinsic m uri staticParameter) x s (r.bind G) s' := by
  have hcreate := InlineExecutor.createValue_returns handlers (.intrinsic m uri staticParameter) s
  have hle : s ≤ s.track (.ok (.intrinsic m uri staticParameter)) := .track s _
  -- the child is called with what the handle holds, also where that is an error
  have hend : Run.Returns (InlineExecutor.createCall handlers (.ok (.intrinsic m uri staticParameter))
      (some r)) () (r.bind G) () := by
    cases r with
    | ok d => exact InlineExecutor.createCall_inline hget hinterface hwf (hG d)
    | error e => exact Run.Fails.attempt (.bind (.ofExcept rfl ()) (Run.Fails.bind_left (.throw e ())))
  obtain ⟨_, hcall⟩ := hend
  obtain ⟨s', hs', hend⟩ := callEmbedded_end handlers (s.tracked_track _) (hx.of_le hle)
  rw [ExecutorValue.contents_frame hle hx, hr] at hend
  simp only [hcall] at hend
  obtain ⟨id, hid, hreturns⟩ := hend
  -- what it gives is tracked, and the handle of it is the result of the call
  have hcalls : Context.Calls ((localExecutor handlers).contexts scope) (.embedded s.table.nextValueId)
      (some x) (s.track (.ok (.intrinsic m uri staticParameter))) (.embedded id) s' :=
    calls_iff.mpr (.embedded hreturns)
  refine ⟨s', hle.trans hs', .call ((creates_iff rfl).mpr (.inline hget hinterface hwf hcreate))
    (.of_finally (((localExecutor handlers).contexts_growing scope).createCall _ _) hcalls)
    (.of_contents (.embedded hid) hid)⟩

theorem settles_call {handler : ControlFlowHandler} {intr : Intrinsic} {uri : String} {scope' : Scope}
    {arg : Option ExecutorValue}
    (h : Run.Settles (fun n => handler.executeCall ((localExecutor handlers).contexts scope n) n intr arg)
      s o s') :
    Run.Settles (fun n => ((localExecutor handlers).contexts scope' n).createCall
      (.intrinsic intr ⟨uri, .controlFlow handler⟩ scope) arg) s o s' := by
  have hgrowing := ((localExecutor handlers).contexts_growing scope').createCall
    (.intrinsic intr ⟨uri, .controlFlow handler⟩ scope) arg
  cases o with
  | ok y => exact .of_finally hgrowing (finally_call_iff.mpr h.finally_)
  | error e => exact .of_finallyFails hgrowing (finallyFails_call_iff.mpr h.finallyFails)

/-- What does not pass its check is not created. -/
theorem createFails_of_check {m : Meta} {uri : String} {staticParameter : Option Value}
    {handler : IntrinsicHandler} (hget : handlers.getHandler uri = .ok handler)
    (hwf : handler.checkWellFormed ⟨uri, staticParameter⟩ = some (.error e)) :
    Context.CreateFails ((localExecutor handlers).contexts scope) (.intrinsic m uri staticParameter) s e
      s := by
  refine ⟨1, Run.Fails.bind (.ofExcept hget s) (Run.Fails.bind_left ?_)⟩
  refine Run.Fails.bind (.tell _ s) ?_
  rw [hwf]
  exact .throw e s

namespace Candidate

/-- The handlers that candidates rely on. -/
structure Handled (handlers : IntrinsicHandlerSet) (config : HandlerSetConfig) : Prop where
  modelInference : handlers.getHandler "model_inference" =
    .ok ⟨"model_inference", .inline (GenC.modelInference config)⟩
  modelInferenceWithConfig : handlers.getHandler "model_inference_with_config" =
    .ok ⟨"model_inference_with_config", .inline (GenC.modelInferenceWithConfig config)⟩
  customFunction : handlers.getHandler "custom_function" =
    .ok ⟨"custom_function", .inline (GenC.customFunction config)⟩
  serialChain : handlers.getHandler "serial_chain" = .ok ⟨"serial_chain", .controlFlow .serialChain⟩

/-! ### Candidate by candidate -/

variable {config : HandlerSetConfig}

omit [ProtoText] in
theorem modelInference_executeCall {m pm : Meta} {modelUri : String} (d : Value) :
    (GenC.modelInference config).executeCall ⟨"model_inference", some (.scalar pm (.str modelUri))⟩ d =
      some (answer config (.modelInference m pm modelUri) d) := by
  show (if modelUri = "test_model" then _ else _) = _
  rw [answer]
  split
  · rfl
  · show (match config.modelInferenceMap modelUri with
      | some inferenceFn => some (inferenceFn d)
      | none => Checked.error (unsupportedModel modelUri)) = _
    cases config.modelInferenceMap modelUri <;> rfl

omit [ProtoText] in
theorem modelInferenceWithConfig_executeCall {m pm um : Meta} {modelUri : String}
    {modelConfig : List Value} (d : Value) :
    (GenC.modelInferenceWithConfig config).executeCall ⟨"model_inference_with_config",
        some (.struct pm (.scalar um (.str modelUri) :: modelConfig))⟩ d =
      some (answer config (.modelInferenceWithConfig m pm um modelUri modelConfig) d) := by
  show (if modelUri = "test_model" then _ else _) = _
  rw [answer]
  split
  · rfl
  · show (match config.modelInferenceWithConfigMap modelUri with
      | some inferenceFn => some (inferenceFn _ d)
      | none => Checked.error (unsupportedModel modelUri)) = _
    cases config.modelInferenceWithConfigMap modelUri <;> rfl

omit [ProtoText] in
theorem customFunction_executeCall {m pm : Meta} {fnUri : String} (d : Value) :
    (GenC.customFunction config).executeCall ⟨"custom_function", some (.scalar pm (.str fnUri))⟩ d =
      some (answer config (.customFunction m pm fnUri) d) := by
  simp only [GenC.customFunction, Intrinsic.parameter, Option.getD_some, Value.str, answer]
  cases config.customFunctionMap fnUri <;> rfl

omit [ProtoText] in
theorem bind_answerAll (r : StatusOr Value) (c : Candidate) (cs : List Candidate) :
    r.bind (answerAll config (c :: cs)) = (r.bind (c.answer config)).bind (answerAll config cs) := by
  rcases r with e | d
  · rfl
  show answerAll config (c :: cs) d = (c.answer config d).bind (answerAll config cs)
  rw [answerAll]
  rcases c.answer config d with e | r <;> rfl

mutual

/-- **A candidate gives what it answers.** -/
theorem tries (hhandled : Handled handlers config) : ∀ (c : Candidate) {x : ExecutorValue}
    {r : StatusOr Value} {s : InlineState}, x.Alive s → x.contents s = some r →
      ∃ s', s ≤ s' ∧ Tries handlers scope c.toPb x s (r.bind (c.answer config)) s'
  | .modelInference m pm modelUri, x, r, s, hx, hr => by
      exact tries_inline hhandled.modelInference rfl rfl modelInference_executeCall hx hr
  | .modelInferenceWithConfig m pm um modelUri modelConfig, x, r, s, hx, hr => by
      exact tries_inline hhandled.modelInferenceWithConfig rfl rfl modelInferenceWithConfig_executeCall hx hr
  | .customFunction m pm fnUri, x, r, s, hx, hr => by
      exact tries_inline hhandled.customFunction rfl rfl customFunction_executeCall hx hr
  -- an empty chain is refused when it is created
  | .serialChain m pm [], x, r, s, hx, hr => by
      have herror : ∃ e, r.bind (answer config (.serialChain m pm [])) = .error e := by
        cases r with
        | ok d => exact ⟨_, by rw [Except.bind, answer]; rfl⟩
        | error e => exact ⟨e, rfl⟩
      obtain ⟨e, herror⟩ := herror
      rw [herror]
      exact ⟨s, le_refl s, .create (createFails_of_check hhandled.serialChain rfl)⟩
  | .serialChain m pm (c :: cs), x, r, s, hx, hr => by
      obtain ⟨o, s', hle, hloop, ho⟩ := triesAll hhandled (c :: cs) hx hr
      -- the chain is well formed, so its answer is what comes of trying its functions in order
      have hanswer : answer config (.serialChain m pm (c :: cs)) = answerAll config (c :: cs) := by
        funext d
        rw [answer]
        rfl
      rw [hanswer]
      have hcreate : Context.Creates ((localExecutor handlers).contexts scope)
          (toPb (.serialChain m pm (c :: cs))) s
          (.intrinsic ⟨"serial_chain", some (.struct pm (toPbs (c :: cs)))⟩
            ⟨"serial_chain", .controlFlow .serialChain⟩ scope) s :=
        (creates_iff rfl).mpr (.controlFlow hhandled.serialChain rfl rfl)
      exact ⟨s', hle, .call hcreate (settles_call ((Run.Settles.pure x s).bind hloop)) ho⟩

/-- So does a chain of them. -/
theorem triesAll (hhandled : Handled handlers config) : ∀ (cs : List Candidate) {x : ExecutorValue}
    {r : StatusOr Value} {s : InlineState}, x.Alive s → x.contents s = some r → ∃ o s', s ≤ s' ∧
      Run.Settles (fun n => ControlFlowHandler.serialChainLoop ((localExecutor handlers).contexts scope n)
        (toPbs cs) x) s o s' ∧ Comes s' o (r.bind (answerAll config cs))
  | [], x, r, s, hx, hr => by
      refine ⟨.ok x, s, le_refl s, .pure x s, ?_⟩
      have hself : r.bind (answerAll config []) = r := by
        rcases r with e | d <;> rfl
      rw [hself]
      exact .of_contents hx hr
  | c :: cs, x, r, s, hx, hr => by
      have hgrowing := (localExecutor handlers).contexts_growing scope
      obtain ⟨u, hu, htries⟩ := tries hhandled c hx hr
      rw [bind_answerAll]
      -- what the first candidate gives is all that the rest depends on
      generalize r.bind (c.answer config) = r' at htries
      cases htries with
      | create h =>
          exact ⟨_, u, hu, Run.Settles.bind_error (.of_finallyFails (hgrowing.createValue _) h), .fails⟩
      | call hcreate hcall h =>
          have hcreates := Run.Settles.of_finally (hgrowing.createValue c.toPb) hcreate
          cases h with
          | fails => exact ⟨_, u, hu, hcreates.bind hcall.bind_error, .fails⟩
          -- the error has been tracked: the rest is called on a handle that holds it
          | late halive h =>
              obtain ⟨o, s', hle, hloop, ho⟩ := triesAll hhandled cs halive h
              exact ⟨o, s', hu.trans hle, hcreates.bind (hcall.bind hloop), ho.error _⟩
          | data halive h =>
              obtain ⟨o, s', hle, hloop, ho⟩ := triesAll hhandled cs halive h
              exact ⟨o, s', hu.trans hle, hcreates.bind (hcall.bind hloop), ho⟩

end

/-! ## `Fallback` -/

omit [ProtoText] in
theorem firstAnswer_cons (c : Candidate) (cs : List Candidate) (d : Value) :
    firstAnswer config (c :: cs) d =
      match c.answer config d with
      | .ok w => some w
      | .error _ => firstAnswer config cs d := by
  unfold firstAnswer
  rw [List.findSome?_cons]
  rcases c.answer config d with e | w <;> rfl

theorem checks_contents {y : ExecutorValue} (halive : y.Alive s) (h : y.contents s = some r) :
    ∃ s', s ≤ s' ∧
      Fallback.Checks ((localExecutor handlers).contexts scope) y s (r.map fun _ => ()) s' := by
  obtain ⟨m, s', hle, hm, hspec⟩ := constMaterialize_spec handlers halive none
  rw [h] at hspec
  subst hspec
  exact ⟨s', hle, _, ⟨0, hm⟩, by cases r <;> rfl⟩

/-- A candidate that answers works. -/
theorem works_of_tries {fnPb w : Value} (h : Tries handlers scope fnPb x s (.ok w) u) : ∃ fn y s', u ≤ s' ∧
    Fallback.Works ((localExecutor handlers).contexts scope) (some x) fnPb s fn y s' ∧ y.Alive s' ∧
      y.contents s' = some (.ok w) := by
  cases h with
  | call hcreate hcall h =>
      cases h with
      | @data y _ halive h =>
          obtain ⟨s', hle, hchecks⟩ := checks_contents halive h
          exact ⟨_, y, s', hle, ⟨_, _, hcreate, hcall.finally_, hchecks⟩, halive.of_le hle,
            (ExecutorValue.contents_frame hle halive).trans h⟩

/-- One that does not is rejected. -/
theorem rejected_of_tries {fnPb : Value} (h : Tries handlers scope fnPb x s (.error e) u) :
    ∃ l e' s', u ≤ s' ∧
      Fallback.Rejected ((localExecutor handlers).contexts scope) (some x) fnPb s l e' s' := by
  cases h with
  | create h => exact ⟨_, _, u, le_refl u, .create h⟩
  | call hcreate hcall h =>
      cases h with
      | fails => exact ⟨_, _, u, le_refl u, .call hcreate hcall.finallyFails⟩
      | late halive h =>
          obtain ⟨s', hle, hchecks⟩ := checks_contents halive h
          exact ⟨_, _, s', hle, .materialize hcreate hcall.finally_ hchecks⟩

/-- The loop comes to what the first candidate that answers gives. By induction on the candidates. -/
theorem fallbackLoop_settles (hhandled : Handled handlers config) {d : Value} (cs : List Candidate)
    (hx : x.Alive s) (hd : x.contents s = some (.ok d)) (e : Status) : ∃ o s',
      Run.Settles (fun n => ControlFlowHandler.fallbackLoop ((localExecutor handlers).contexts scope n)
        (some x) e (cs.map toPb)) s o s' ∧
      match firstAnswer config cs d with
      | some w => ∃ y, o = .ok y ∧ y.contents s' = some (.ok w)
      | none => ∃ e', o = .error e' := by
  have hgrowing := (localExecutor handlers).contexts_growing scope
  -- each candidate that gives no answer is rejected, whether at once or when its result is looked at
  induction cs generalizing s e with
  | nil => exact ⟨.error e, s, ⟨0, fun _ _ => Run.Fails.throw e s⟩, e, rfl⟩
  | cons c cs ih =>
      obtain ⟨u, hu, htries⟩ := tries hhandled c hx hd
      rw [show Except.bind (.ok d) (c.answer config) = c.answer config d from rfl] at htries
      rw [firstAnswer_cons]
      rcases hanswer : c.answer config d with e' | w <;> rw [hanswer] at htries
      -- the argument is still alive and holds the same after the failed try
      · obtain ⟨l, e₁, t, ht, hrejected⟩ := rejected_of_tries htries
        have hle := hu.trans ht
        obtain ⟨o, s', hloop, ho⟩ := ih (hx.of_le hle) ((ExecutorValue.contents_frame hle hx).trans hd) e₁
        exact ⟨o, s', hloop.of_end (fallbackLoop_of_rejected hgrowing hrejected), ho⟩
      · obtain ⟨fn, y, s', -, hworks, -, hcontents⟩ := works_of_tries htries
        refine ⟨.ok y, s', .of_finally ?_ (fallbackLoop_of_works hgrowing hworks), y, rfl, hcontents⟩
        exact fun _ _ hnm => ControlFlowHandler.fallbackLoop_le (hgrowing hnm) (some x) _ e

end Candidate

/-! ### What a fallback gives -/

section

variable (handlers scope) (m : Meta) (cs : List Candidate) (x : ExecutorValue) (s : InlineState)

/-- Calling the `Fallback` of the candidates on `x` returns a value that materializes to `w`. -/
def FallbackGives (w : Value) : Prop :=
  ∃ y s', Context.Calls ((localExecutor handlers).contexts scope)
    (ControlFlowHandler.fallback.function m (cs.map Candidate.toPb) scope) (some x) s y s' ∧
      y.contents s' = some (.ok w)

/-- Calling it fails. -/
def FallbackFails : Prop :=
  ∃ e s', Context.CallFails ((localExecutor handlers).contexts scope)
    (ControlFlowHandler.fallback.function m (cs.map Candidate.toPb) scope) (some x) s e s'

variable {handlers scope m cs x s} {config : HandlerSetConfig} (hhandled : Candidate.Handled handlers config)
  {d : Value} (hx : x.Alive s) (hd : x.contents s = some (.ok d))

include hhandled hx hd

variable (scope m cs) in
theorem fallback_ends : ∃ o s', Run.Settles (fun n =>
      ((localExecutor handlers).contexts scope n).createCall
        (ControlFlowHandler.fallback.function m (cs.map Candidate.toPb) scope) (some x)) s o s' ∧
      match Candidate.firstAnswer config cs d with
      | some w => ∃ y, o = .ok y ∧ y.contents s' = some (.ok w)
      | none => ∃ e', o = .error e' := by
  obtain ⟨o, s', hloop, ho⟩ :=
    Candidate.fallbackLoop_settles hhandled cs hx hd noCandidates
  exact ⟨o, s', settles_call hloop, ho⟩

theorem fallbackGives_iff (w : Value) :
    FallbackGives handlers scope m cs x s w ↔ Candidate.firstAnswer config cs d = some w := by
  have hgrowing := ((localExecutor handlers).contexts_growing scope).createCall
    (ControlFlowHandler.fallback.function m (cs.map Candidate.toPb) scope) (some x)
  -- a call ends in one way only, so that one way decides
  obtain ⟨o, s', hend, ho⟩ := fallback_ends scope m cs hhandled hx hd
  rcases hfirst : Candidate.firstAnswer config cs d with _ | w' <;> simp only [hfirst] at ho
  · obtain ⟨e, rfl⟩ := ho
    refine ⟨fun ⟨y, t, hcall, _⟩ => ?_, fun h => (nomatch h)⟩
    exact (hgrowing.not_both hcall hend.finallyFails).elim
  · obtain ⟨y, rfl, hcontents⟩ := ho
    constructor
    · rintro ⟨y', t, hcall, hw⟩
      obtain ⟨rfl, rfl⟩ := hgrowing.unique hend.finally_ hcall
      rw [hcontents] at hw
      cases hw
      rfl
    · rintro ⟨⟩
      exact ⟨y, s', hend.finally_, hcontents⟩

theorem fallbackFails_iff :
    FallbackFails handlers scope m cs x s ↔ Candidate.firstAnswer config cs d = none := by
  have hgrowing := ((localExecutor handlers).contexts_growing scope).createCall
    (ControlFlowHandler.fallback.function m (cs.map Candidate.toPb) scope) (some x)
  obtain ⟨o, s', hend, ho⟩ := fallback_ends scope m cs hhandled hx hd
  rcases hfirst : Candidate.firstAnswer config cs d with _ | w <;> simp only [hfirst] at ho
  · obtain ⟨e, rfl⟩ := ho
    exact ⟨fun _ => rfl, fun _ => ⟨e, s', hend.finallyFails⟩⟩
  · obtain ⟨y, rfl, -⟩ := ho
    constructor
    · rintro ⟨e, t, hfails⟩
      exact (hgrowing.not_both hend.finally_ hfails).elim
    · intro h
      cases h

end

end

/-! ## Dropping candidates -/

namespace Candidate

variable {config : HandlerSetConfig} {d : Value}

theorem answering_cons (c : Candidate) (cs : List Candidate) (d : Value) : answering config (c :: cs) d =
    match c.answer config d with
    | .ok _ => some c
    | .error _ => answering config cs d := by
  unfold answering
  rw [List.find?_cons]
  rcases c.answer config d with e | w <;> rfl

/-- What is available is never dropped, and what is not may answer only if it names a function that is not
registered. So it makes no difference unless such a candidate answers first. By induction on the candidates. -/
theorem firstAnswer_filter_of_registered {cs : List Candidate}
    (h : ∀ c ∈ answering config cs d, FunctionsRegistered config c) :
    firstAnswer config cs d = firstAnswer config (cs.filter (available config)) d := by
  induction cs with
  | nil => rfl
  | cons c cs ih =>
      rw [answering_cons] at h
      rcases hanswer : c.answer config d with e | w <;> rw [hanswer] at h
      -- no answer: it does not matter whether the filter drops it
      · have hskip : firstAnswer config (c :: cs) d = firstAnswer config cs d := by
          rw [firstAnswer_cons, hanswer]
        rw [hskip, ih h]
        cases hav : available config c with
        | true => rw [List.filter_cons_of_pos hav, firstAnswer_cons, hanswer]
        | false => rw [List.filter_cons_of_neg (by simp [hav])]
      -- the one that answers stays: only an unregistered function could make it unavailable
      · have hav : available config c = true := by
          by_contra hnot
          obtain ⟨fnUri, hname, hnone⟩ :=
            (available_eq_false_iff hanswer).mp (Bool.eq_false_iff.mpr hnot)
          have hregistered := h c rfl fnUri hname
          rw [hnone] at hregistered
          cases hregistered
        rw [List.filter_cons_of_pos hav, firstAnswer_cons, firstAnswer_cons, hanswer]

theorem firstAnswer_of_answering {cs : List Candidate} {c : Candidate} {w : Value}
    (h : answering config cs d = some c) (hanswer : c.answer config d = .ok w) :
    firstAnswer config cs d = some w := by
  induction cs with
  | nil => cases h
  | cons first cs ih =>
      rw [answering_cons] at h
      rw [firstAnswer_cons]
      rcases hfirst : first.answer config d with e | w' <;> rw [hfirst] at h
      · exact ih h
      · obtain rfl : first = c := Option.some.inj h
        rw [hfirst] at hanswer
        cases hanswer
        rfl

end Candidate

/-- Both fail, or both return what materializes to the same. -/
def SameFallback [ProtoText] (handlers : IntrinsicHandlerSet) (scope : Scope) (m : Meta)
    (cs cs' : List Candidate) (x : ExecutorValue) (s : InlineState) : Prop :=
  (∀ w, FallbackGives handlers scope m cs x s w ↔ FallbackGives handlers scope m cs' x s w) ∧
    (FallbackFails handlers scope m cs x s ↔ FallbackFails handlers scope m cs' x s)

theorem sameFallback_iff [ProtoText] {handlers : IntrinsicHandlerSet} {scope : Scope} {m : Meta}
    {cs cs' : List Candidate} {x : ExecutorValue} {s : InlineState} {config : HandlerSetConfig} {d : Value}
    (hhandled : Candidate.Handled handlers config) (hx : x.Alive s) (hd : x.contents s = some (.ok d)) :
    SameFallback handlers scope m cs cs' x s ↔
      Candidate.firstAnswer config cs d = Candidate.firstAnswer config cs' d := by
  simp only [SameFallback, fallbackGives_iff hhandled hx hd, fallbackFails_iff hhandled hx hd]
  constructor
  · exact fun h => Option.ext h.1
  · intro h
    rw [h]
    exact ⟨fun _ => Iff.rfl, Iff.rfl⟩

/-- Nothing is registered. -/
def HandlerSetConfig.bare : HandlerSetConfig where
  delegateMap _ := none
  modelInferenceMap _ := none
  modelInferenceWithConfigMap _ := none
  customFunctionMap _ := none
  customIntrinsicsList := []

theorem handled_bare [ProtoText] (libraries : InlineLibraries) :
    Candidate.Handled (completeHandlerSet .bare libraries) .bare := ⟨rfl, rfl, rfl, rfl⟩

/-- A function that refuses its argument, and one that gives it back. -/
def HandlerSetConfig.refuseAndEcho : HandlerSetConfig :=
  { HandlerSetConfig.bare with
    customFunctionMap := fun fnUri =>
      if fnUri = "/refuse" then some fun _ => .error (.unavailable "")
      else if fnUri = "/echo" then some fun d => .ok d
      else none }

/-- A model that is not there, a chain with a function that is not there but is not reached either, a function
that is, and the test model. -/
def refusedAndEchoed : List Candidate :=
  [.modelInference {} {} "/missing",
    .serialChain {} {} [.customFunction {} {} "/refuse", .customFunction {} {} "/missing"],
    .customFunction {} {} "/echo", .modelInference {} {} "test_model"]

end GenC
