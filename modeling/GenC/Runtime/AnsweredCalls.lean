import GenC.Intrinsics.WellFormed
import GenC.Runtime.ChildExecutor

/-!
# Calls that are answered

When a client of a local stack gets a value or a status for every call that it makes. The process may end
instead, because a handler reads an optional that is not there or an element that its static parameter
lacks, and a call may go on forever.

Whether a call of an intrinsic comes to read an absent optional depends on the state that it is made in, so
the condition is about the calls made in the course of a run. It is stated with a second executor, which
does as the first one but for a check in front of every such call: `checkedKnot` stops when it is about to
make one that `Misses`. **`performAll_answers_iff`** then says that everything is answered exactly when no
check fails, no event of the run is at fault, and the run ends.
-/

namespace GenC

open Lib

variable [ProtoText]

/-! ## Checks in front of calls -/

namespace ControlFlowExecutor

variable {σ : Type} (exec : ControlFlowExecutor σ)

/-- `ConstCreateCall` after a check that the call reads no absent optional. The check looks at what the
executor does without checks (`plain`). -/
def checkedCallStep (fuel : Nat) (plain self : Knot σ) (function : ExecutorValue)
    (argument : Option ExecutorValue) : Exec σ ExecutorValue :=
  (exec.constCreateCallStep fuel self function argument).stopIf (exec.Misses plain function argument)
    .checkFailure

/-- The knot, with checks. -/
def checkedKnot (exec : ControlFlowExecutor σ) : Nat → Knot σ
  | 0 => ⟨fun _ _ => Run.outOfFuel, fun _ _ => Run.outOfFuel⟩
  | fuel + 1 =>
      ⟨exec.evaluateStep (checkedKnot exec fuel),
        exec.checkedCallStep fuel (exec.knot fuel) (checkedKnot exec fuel)⟩

/-- The implementation, with checks. -/
def checkedImpl (fuel : Nat) : ExecutorImpl σ ExecutorValue :=
  { exec.impl fuel with
    createExecutorValue := exec.constCreateExecutorValue (exec.checkedKnot fuel)
    createCall := (exec.checkedKnot fuel).createCall }

end ControlFlowExecutor

/-- A control-flow executor with checks in front of the calls that it makes. -/
def checkedExecutor {σ : Type} (exec : ControlFlowExecutor σ) (fuel : Nat) :
    Executor ValueId (ControlFlowState σ) :=
  executorBase (exec.checkedImpl fuel)

/-! ## The checks change nothing else -/

/-- The relator of the executor with the checks and the one without. -/
abbrev Relator.checks (σ : Type) : Relator Event Crash Status σ σ :=
  .stopsShort Event Status σ .checkFailure .absentOptional

omit [ProtoText] in
theorem Executor.related_self {σ : Type} (exec : Executor ValueId σ) : exec.Related (Relator.checks σ) exec where
  createValue _ := .refl _
  createCall _ _ := .refl _
  createStruct _ := .refl _
  createSelection _ _ := .refl _
  materialize _ _ := .refl _
  dispose _ := .refl _

namespace ControlFlowExecutor

variable {σ : Type} (exec : ControlFlowExecutor σ)

omit [ProtoText] in
theorem related_self : exec.Related (Relator.checks σ) exec where
  error_eq h := h
  handlers := rfl
  child := exec.childExecutor.related_self

/-- A call that misses does crash. -/
theorem constCreateCallStep_of_misses (fuel : Nat) {self : Knot σ} {function : ExecutorValue}
    {argument : Option ExecutorValue} {s : σ} (h : exec.Misses self function argument s) :
    (exec.constCreateCallStep fuel self function argument s).2 = .crash .absentOptional := by
  cases function with
  | intrinsic intr handler scope =>
      obtain ⟨uri, interface⟩ := handler
      cases interface with
      | inline handler => exact h.elim
      | controlFlow handler =>
          refine (Run.Returns.ofExcept rfl s).bind_end.trans ((Run.Returns.tell _ s).bind_end.trans ?_)
          exact ControlFlowHandler.executeCall_of_readsAbsent fuel h
  | embedded => exact h.elim
  | struct => exact h.elim
  | lambda => exact h.elim

theorem checkedKnot_related (fuel : Nat) :
    (exec.checkedKnot fuel).Related (Relator.checks σ) (exec.knot fuel) := by
  induction fuel with
  | zero => exact ⟨fun _ _ => Relator.outOfFuel _, fun _ _ => Relator.outOfFuel _⟩
  | succ fuel ih =>
      refine ⟨exec.related_self.evaluateStep ih, fun f a => ?_⟩
      exact .stopIf (fun s hs => exec.constCreateCallStep_of_misses fuel hs)
        (exec.related_self.constCreateCallStep (w := ()) ih f a)

/-- What would miss in the executor with the checks, would miss without. -/
theorem misses_of_checked (fuel : Nat) {function : ExecutorValue} {argument : Option ExecutorValue} {s : σ}
    (h : exec.Misses (exec.checkedKnot fuel) function argument s) :
    exec.Misses (exec.knot fuel) function argument s := by
  cases function with
  | intrinsic intr handler scope =>
      obtain ⟨uri, interface⟩ := handler
      cases interface with
      | inline handler => exact h.elim
      | controlFlow handler =>
          have hcontext := exec.related_self.context (w := ()) (exec.checkedKnot_related fuel) scope
          obtain ⟨helements, h⟩ := h
          refine ⟨helements, ?_⟩
          have hfirst := hcontext.createValues fun v (_ : v ∈ handler.functionsFirst intr) => trivial
          -- `Materialize` calls nothing, so for `Delegate` there is no difference
          cases handler <;> cases argument <;> first
            | exact h
            | exact Run.StopsShort.isOk hfirst h
  | embedded => exact h.elim
  | struct => exact h.elim
  | lambda => exact h.elim

/-! ## With the checks only faults are left -/

variable {I : σ → Prop} {exec}

theorem checkedKnot_guards (hchild : exec.childExecutor.Guards I (· = .checkFailure))
    (haccounted : exec.intrinsicHandlers.Accounted) (fuel : Nat) :
    (exec.checkedKnot fuel).Guards I (· = .checkFailure) := by
  induction fuel with
  | zero => exact ⟨fun _ _ _ => .outOfFuel, fun _ _ _ _ => .outOfFuel⟩
  | succ fuel ih =>
      refine ⟨fun v _ hs => evaluateStep_guarded hchild ih haccounted v hs, fun f a hf ha s hs => ?_⟩
      refine .stopIf hs rfl fun hmisses => constCreateCallStep_guardedAt hchild ih fuel hf ha hs fun h => ?_
      exact hmisses (exec.misses_of_checked fuel h)

theorem checkedImpl_guards (hchild : exec.childExecutor.Guards I (· = .checkFailure))
    (haccounted : exec.intrinsicHandlers.Accounted) (fuel : Nat) :
    (exec.checkedImpl fuel).Guards I (· = .checkFailure) ExecutorValue.Checked where
  createExecutorValue v := constCreateExecutorValue_guarded hchild (checkedKnot_guards hchild haccounted fuel) v
  createCall := (checkedKnot_guards hchild haccounted fuel).createCall
  createStruct _ hvs := .pure (.struct hvs)
  createSelection _ i hv := createSelectionInternal_guarded hchild hv i
  materialize v pb _ := constMaterialize_guarded hchild v pb

end ControlFlowExecutor

/-! ## Clients -/

section

variable {σ τ : Type} {𝓡 : Lib.Relator Event Crash Status σ τ} (herror : ∀ {e e'}, 𝓡.Error e e' → e = e')
  {exec : Executor ValueId σ} {exec' : Executor ValueId τ}

include herror

omit [ProtoText] in
/-- What ends alike, is answered alike. -/
theorem Lib.Relator.attempt_same {α : Type} {w : 𝓡.World} {x : Exec σ α} {y : Exec τ α}
    (h : 𝓡.Rel w (fun _ => Eq) x y) : 𝓡.Rel w (fun _ => Eq) x.attempt y.attempt := by
  have hbind : 𝓡.Rel w (fun _ => Eq) (x.attempt >>= Pure.pure) (y.attempt >>= Pure.pure) := by
    refine 𝓡.bind (𝓡.attempt h) fun w' _ r r' hr => 𝓡.pure fun _ _ => ?_
    cases r <;> cases r'
    · exact congrArg Except.error (herror hr)
    · exact hr.elim
    · exact hr.elim
    · exact congrArg Except.ok hr
  rwa [bind_pure, bind_pure] at hbind

omit [ProtoText] in
/-- Clients of executors that answer alike. -/
theorem Executor.Related.performAll (h : exec.Related 𝓡 exec') (calls : List (Executor.ApiCall ValueId))
    {w : 𝓡.World} : 𝓡.Rel w (fun _ => Eq) (exec.performAll calls) (exec'.performAll calls) := by
  induction calls generalizing w with
  | nil => exact 𝓡.same []
  | cons call calls ih =>
      have hperform : 𝓡.Rel w (fun _ => Eq) (exec.perform call) (exec'.perform call) := by
        cases call with
        | createValue v => exact 𝓡.bind_same (𝓡.attempt_same herror (h.createValue v)) fun _ _ _ => 𝓡.same _
        | createCall f a => exact 𝓡.bind_same (𝓡.attempt_same herror (h.createCall f a)) fun _ _ _ => 𝓡.same _
        | createStruct ms => exact 𝓡.bind_same (𝓡.attempt_same herror (h.createStruct ms)) fun _ _ _ => 𝓡.same _
        | createSelection v i =>
            exact 𝓡.bind_same (𝓡.attempt_same herror (h.createSelection v i)) fun _ _ _ => 𝓡.same _
        | materialize v pb =>
            exact 𝓡.bind_same (𝓡.attempt_same herror (h.materialize v pb)) fun _ _ _ => 𝓡.same _
        | dispose v => exact 𝓡.bind_same (𝓡.attempt_same herror (h.dispose v)) fun _ _ _ => 𝓡.same _
      exact 𝓡.bind_same hperform fun _ _ _ => 𝓡.bind_same ih fun _ _ _ => 𝓡.same _

end

/-- The executor with the checks and the one without. -/
theorem checkedExecutor_related {σ : Type} (exec : ControlFlowExecutor σ) (fuel : Nat) :
    (checkedExecutor exec fuel).Related (Relator.checks (ControlFlowState σ)) (controlFlowExecutor exec fuel) := by
  let 𝓡 := Relator.checks (ControlFlowState σ)
  have hknot := exec.checkedKnot_related fuel
  exact
    { createValue := fun v => by
        have hcreate := exec.related_self.constCreateExecutorValue (w := ()) hknot v
        exact 𝓡.bind_same (w := ()) (Run.StopsShort.zoom hcreate) fun _ _ _ => .refl _
      createCall := fun f a => by
        refine 𝓡.bind_same (w := ()) (.refl _) fun _ _ fv => 𝓡.bind_same (w := ()) (.refl _) fun _ _ av => ?_
        exact 𝓡.bind_same (w := ()) (Run.StopsShort.zoom (hknot.createCall (w := ()) fv av)) fun _ _ _ => .refl _
      createStruct := fun _ => .refl _
      createSelection := fun _ _ => .refl _
      materialize := fun _ _ => .refl _
      dispose := fun _ => .refl _ }

/-! ## The complete handler set -/

/-- Handlers that the configuration adds: inline ones, under URIs other than those of the three handlers that
read more than they check, which never read a missing element. -/
def HandlerSetConfig.CustomsAccounted (config : HandlerSetConfig) : Prop :=
  ∀ handler ∈ config.customIntrinsicsList,
    handler.uri ∉ ["delegate", "model_inference_with_config", "rest_call"] ∧
      ∃ interface, handler.interface = .inline interface ∧
        ∀ intr, interface.checkWellFormed intr ≠ none ∧ ∀ arg, interface.executeCall intr arg ≠ none

section

variable {config : HandlerSetConfig} {libraries : InlineLibraries} {handler : IntrinsicHandler}

theorem mem_completeHandlerSet (h : handler ∈ completeHandlerSet config libraries) :
    handler ∈ config.customIntrinsicsList ∨ handler ∈ builtinHandlers config libraries := by
  unfold completeHandlerSet at h
  generalize builtinHandlers config libraries = set at h ⊢
  generalize config.customIntrinsicsList = custom at h ⊢
  induction custom generalizing set with
  | nil => exact .inr h
  | cons first custom ih =>
      rcases ih _ h with h | h
      · exact .inl (List.mem_cons_of_mem _ h)
      · rcases List.mem_cons.mp h with rfl | h
        · exact .inl List.mem_cons_self
        · exact .inr h

/-- The three handlers that read more than they check, and the others. -/
theorem builtinHandlers_cases (h : handler ∈ builtinHandlers config libraries) :
    handler = ⟨"delegate", .controlFlow (.delegate config.delegateMap)⟩ ∨
      handler = ⟨"model_inference_with_config", .inline (modelInferenceWithConfig config)⟩ ∨
      handler = ⟨"rest_call", .inline (restCall libraries)⟩ ∨
      handler.uri ∉ ["delegate", "model_inference_with_config", "rest_call"] := by
  simp only [builtinHandlers, createCompleteHandlerSet, builtinInlineHandlers, List.map_cons, List.map_nil,
    List.cons_append, List.nil_append, List.mem_cons, List.not_mem_nil, or_false] at h
  rcases h with rfl | rfl | rfl | rfl | rfl | rfl | rfl | rfl | rfl | rfl | rfl | rfl | rfl | rfl | rfl | rfl |
    rfl | rfl | rfl | rfl <;> first
    | exact .inl rfl
    | exact .inr (.inl rfl)
    | exact .inr (.inr (.inl rfl))
    | exact .inr (.inr (.inr (by simp only [ControlFlowHandler.uri]; decide)))

/-- A handler outside of the three reads a missing element nowhere. -/
theorem guardsCall_of_completeHandlerSet (hcustoms : config.CustomsAccounted)
    (h : handler ∈ completeHandlerSet config libraries)
    (huri : handler.uri ∉ ["delegate", "model_inference_with_config", "rest_call"]) (intr : Intrinsic) :
    handler.GuardsCall intr := by
  rcases mem_completeHandlerSet h with hcustom | hbuiltin
  · obtain ⟨-, interface, hinterface, hcalls⟩ := hcustoms handler hcustom
    rw [IntrinsicHandler.GuardsCall, hinterface]
    exact ⟨(hcalls intr).1, fun _ => (hcalls intr).2⟩
  · simp only [List.mem_cons, List.not_mem_nil, or_false, not_or] at huri
    exact (guardsCall_iff config libraries handler hbuiltin intr).mpr (.of_ne config huri.1 huri.2.1 huri.2.2)

/-- What guards its calls is accounted for, if it is none of the three. -/
theorem accounted_of_guardsCall {intr : Intrinsic} (huri : handler.uri = intr.uri)
    (hother : handler.uri ∉ ["delegate", "model_inference_with_config", "rest_call"])
    (h : handler.GuardsCall intr) : handler.Accounted intr := by
  simp only [huri, List.mem_cons, List.not_mem_nil, or_false, not_or] at hother
  obtain ⟨hdelegate, hmodel, hrest⟩ := hother
  obtain ⟨uri, interface⟩ := handler
  cases interface with
  | inline handler =>
      refine ⟨iff_of_false h.1 fun hfault => hfault.1.elim hdelegate hmodel, fun hinterface hwf arg => ?_⟩
      cases hinterface
      exact iff_of_false (h.2 hwf arg) fun hfault => hrest hfault.1
  | controlFlow handler =>
      exact ⟨iff_of_false h.1 fun hfault => hfault.1.elim hdelegate hmodel, fun hinterface => nomatch hinterface⟩

/-! ### Handler by handler -/

omit [ProtoText] in
theorem checkFirstStr_eq_none_iff {structMessage strMessage : String} {intr : Intrinsic} :
    checkFirstStr structMessage strMessage intr = none ↔
      intr.parameter.hasStruct = true ∧ intr.parameter.elements = [] := by
  rw [← not_iff_not, ← ne_eq, checkFirstStr_ne_none_iff, not_and, ne_eq]

theorem delegate_accounted {runnerMap : RunnerMap} {intr : Intrinsic} (huri : intr.uri = "delegate") :
    (IntrinsicHandler.mk "delegate" (.controlFlow (.delegate runnerMap))).Accounted intr where
  checkWellFormed := by
    show ControlFlowHandler.delegateWellFormed intr = none ↔ _
    rw [ControlFlowHandler.delegateWellFormed_eq, checkFirstStr_eq_none_iff]
    exact ⟨fun h => ⟨.inl huri, h⟩, fun h => h.2⟩
  executeCall hinterface := nomatch hinterface

theorem modelInferenceWithConfig_accounted {intr : Intrinsic} (huri : intr.uri = "model_inference_with_config") :
    (IntrinsicHandler.mk "model_inference_with_config" (.inline (modelInferenceWithConfig config))).Accounted intr where
  checkWellFormed := by
    show checkFirstStr _ _ intr = none ↔ _
    rw [checkFirstStr_eq_none_iff]
    exact ⟨fun h => ⟨.inr huri, h⟩, fun h => h.2⟩
  executeCall hinterface hwf arg := by
    cases hinterface
    have hcheck : checkFirstStr "Expected struct_ to be set, got none."
        "Expected model_uri to be set, got none." intr = some (.ok ()) := hwf
    obtain ⟨-, first, es, hes, -⟩ := checkFirstStr_eq_ok_iff.mp hcheck
    have hguards := (InlineHandler.modelInferenceWithConfig_guardsCall_iff config intr).mpr fun _ => by simp [hes]
    refine iff_of_false (hguards.2 hwf arg) fun hfault => ?_
    exact absurd (huri.symm.trans hfault.1) (by decide)

theorem restCall_accounted {intr : Intrinsic} (huri : intr.uri = "rest_call") :
    (IntrinsicHandler.mk "rest_call" (.inline (restCall libraries))).Accounted intr where
  checkWellFormed := by
    -- its check reads only elements that it has counted, so neither side holds
    refine iff_of_false ?_ fun hfault => ?_
    · show (restCall libraries).checkWellFormed intr ≠ none
      simp only [restCall]
      split_ifs <;> exact Option.some_ne_none _
    · rcases hfault.1 with h | h <;> exact absurd (huri.symm.trans h) (by decide)
  executeCall hinterface hwf arg := by
    cases hinterface
    constructor
    · intro hnone
      -- the guards fail on a post without a body, and this is what the fault says
      by_contra hfault
      have hguards := (InlineHandler.restCall_guardsCall_iff libraries intr).mpr fun method url hes hpost =>
        hfault ⟨huri, method, url, hes, hpost⟩
      exact hguards.2 hwf arg hnone
    · rintro ⟨-, method, url, hes, hpost⟩
      exact InlineHandler.restCall_eq_none libraries hes hpost arg

/-- **What the handlers of the complete set do with a static parameter that is too short**, is what
`Event.Fault` says. -/
theorem completeHandlerSet_accounted (hcustoms : config.CustomsAccounted) :
    (completeHandlerSet config libraries).Accounted := by
  intro intr handler hget
  have hmem := IntrinsicHandlerSet.mem_of_getHandler hget
  have huri := IntrinsicHandlerSet.uri_of_getHandler hget
  by_cases hother : handler.uri ∉ ["delegate", "model_inference_with_config", "rest_call"]
  · exact accounted_of_guardsCall huri hother (guardsCall_of_completeHandlerSet hcustoms hmem hother intr)
  · have hbuiltin := (mem_completeHandlerSet hmem).resolve_left fun hcustom => hother (hcustoms handler hcustom).1
    rcases builtinHandlers_cases hbuiltin with rfl | rfl | rfl | h
    · exact delegate_accounted huri.symm
    · exact modelInferenceWithConfig_accounted huri.symm
    · exact restCall_accounted huri.symm
    · exact absurd h hother

end

/-! ## Answers -/

/-- **When a client is answered.** A client of a local stack makes any calls, of any IR, with or without
arguments. Everything is answered with a value or a status, exactly when no call that is made along the way
comes to read an absent optional, no event is at fault for reading a missing element, and the run ends. -/
theorem performAll_answers_iff {config : HandlerSetConfig} (libraries : InlineLibraries)
    (hcustoms : config.CustomsAccounted) (fuel : Nat) (calls : List (Executor.ApiCall ValueId)) :
    let exec := localExecutor (completeHandlerSet config libraries)
    let run := (controlFlowExecutor exec fuel).performAll calls localInitial
    (∃ responses s, run.2 = .ok responses s) ↔
      ((checkedExecutor exec fuel).performAll calls localInitial).2 ≠ .crash .checkFailure ∧
        (∀ e ∈ run.1, ∀ k, ¬e.Fault k) ∧ run.2 ≠ .outOfFuel := by
  intro exec run
  have haccounted : (completeHandlerSet config libraries).Accounted := completeHandlerSet_accounted hcustoms
  have hinline : exec.childExecutor.Guards _ (· = .checkFailure) :=
    executorBase_guards (InlineExecutor.impl_guards haccounted)
  have hbase := executorBase_guards (ControlFlowExecutor.checkedImpl_guards hinline haccounted fuel)
  -- the run with the checks ends in the ordinary way, but for a failed check or an event at fault
  have hguarded : Run.AccountedFor _ Event.Fault _ _
      ((checkedExecutor exec fuel).performAll calls localInitial).1
      ((checkedExecutor exec fuel).performAll calls localInitial).2 :=
    hbase.performAll calls localInitial ⟨⟨trivial, by rintro id v ⟨⟩⟩, by rintro id v ⟨⟩⟩
  have hrelated : Run.StopsShort .checkFailure .absentOptional Eq
      ((checkedExecutor exec fuel).performAll calls) ((controlFlowExecutor exec fuel).performAll calls) :=
    (checkedExecutor_related exec fuel).performAll (w := ()) (fun h => h) calls
  have hanswers := (controlFlowExecutor exec fuel).performAll_answers calls localInitial trivial
  constructor
  · rintro ⟨responses, s, hok⟩
    have heq := hrelated.eq_of_isOk (s := localInitial) (by rw [hok]; rfl)
    rw [heq] at hguarded ⊢
    have hne : run.2 ≠ .crash .checkFailure ∧ run.2 ≠ .outOfFuel := by
      rw [hok]
      exact ⟨nofun, nofun⟩
    refine ⟨hne.1, fun e he k hfault => ?_, hne.2⟩
    have hcrash := hguarded.crash_of_fault he hfault
    rw [hok] at hcrash
    cases hcrash
  · rintro ⟨hchecks, hfaults, hends⟩
    have heq := hrelated.eq_of_ne hchecks
    rw [heq] at hguarded hchecks
    rcases hrun : run.2 with ⟨responses, s⟩ | e | k | _
    · exact ⟨responses, s, rfl⟩
    · rw [hrun] at hanswers
      exact hanswers.elim
    · rw [hrun] at hguarded hchecks
      exact absurd (congrArg _ (hguarded.allowed_of_crash hfaults)) hchecks
    · exact absurd hrun hends

/-! ### With and without an argument -/

section

omit [ProtoText]

/-- `Call(SerialChain(Lambda x. x), argument)`. -/
def callIdentityChain (argument : Option Value) : Value :=
  .call {} (.intrinsic {} "serial_chain" (some (.ofStruct [.lambda {} "x" (.reference {} "x")])))
    argument

/-- A call of `Repeat` without an argument. The body is not in scope, so it does not come to reading one. -/
def callUnknownBody : Value :=
  .call {} (.intrinsic {} "repeat" (some (.ofStruct [.ofInt32 2, .reference {} "nope"]))) none

/-- A delegation to an environment without a runner, and without a function to delegate. -/
def callNowhere : Value :=
  .call {} (.intrinsic {} "delegate" (some (.ofStruct [.ofStr "nowhere"]))) (some (.ofStr "a"))

/-- A client of a local stack over the complete handler set. -/
def runOffline (calls : List (Executor.ApiCall ValueId)) :=
  letI := ProtoText.silent
  (controlFlowExecutor (localExecutor (completeHandlerSet .empty .offline)) 5).performAll calls localInitial

/-- A chain that is called with its argument, and calls that are refused before they come to the defects. -/
theorem performAll_answers_iff_refused :
    let _ := ProtoText.silent
    let calls : List (Executor.ApiCall ValueId) :=
      [.createValue (callIdentityChain (some (.ofStr "a"))), .materialize 0 (some .defaultInstance),
        .createValue callUnknownBody, .createValue callNowhere]
    ((checkedExecutor (localExecutor (completeHandlerSet .empty .offline)) 5).performAll calls localInitial).2 ≠
        .crash .checkFailure ∧
      (∀ e ∈ (runOffline calls).1, ∀ k, ¬e.Fault k) ∧ (runOffline calls).2 ≠ .outOfFuel := by
  intro _ calls
  have hcustoms : HandlerSetConfig.empty.CustomsAccounted := fun _ h => nomatch h
  exact (performAll_answers_iff .offline hcustoms 5 calls).mp ⟨_, _, rfl⟩

/-- Without its argument the chain ends the process. -/
theorem runOffline_crashes :
    (runOffline [.createValue (callIdentityChain none), .materialize 0 (some .defaultInstance)]).2 =
      .crash .absentOptional := rfl

end

end GenC
