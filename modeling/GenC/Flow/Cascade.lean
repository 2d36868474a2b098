import GenC.Agents.CustomAgent
import GenC.Flow.Laws
import GenC.Flow.Program

/-!
# Model cascades

What `create_computation_from_llm` makes of the models of LangChain. A cascade may consist of cascades. It runs
as the cascade of all of the models in them would, one after the other.
-/

namespace GenC

open Lib

namespace Llm

mutual

/-- The models in it, in the order in which they are asked. -/
def models : Llm → List Llm
  | .modelCascade llms => modelsAll llms
  | llm => [llm]

def modelsAll : List Llm → List Llm
  | [] => []
  | llm :: llms => llm.models ++ modelsAll llms

end

/-- No cascade in it is empty. -/
inductive Populated : Llm → Prop where
  | customModel (uri : String) (config : List (String × PyArg)) : Populated (.customModel uri config)
  | modelCascade {llms : List Llm} (hne : llms ≠ []) (h : ∀ llm ∈ llms, llm.Populated) :
      Populated (.modelCascade llms)
  | other : Populated .other

/-- The computations of two lists, one after the other. -/
theorem createComputations_append {llms llms' : List Llm} {vs vs' : List Value}
    (h : createComputations llms = .ok vs) (h' : createComputations llms' = .ok vs') :
    createComputations (llms ++ llms') = .ok (vs ++ vs') := by
  induction llms generalizing vs with
  | nil =>
      cases h
      exact h'
  | cons llm llms ih =>
      rw [createComputations] at h
      obtain ⟨v, hv, h⟩ := ok_of_bind h
      obtain ⟨us, hus, h⟩ := ok_of_bind h
      cases h
      rw [List.cons_append, createComputations, hv, ih hus]
      rfl

variable [ProtoText] {handlers : IntrinsicHandlerSet}

/-- The function answers as the others do, one after the other. -/
structure AnswersAs (f : Flow handlers) (fs : List (Flow handlers)) : Prop where
  ne_nil : fs ≠ []
  answer : ∀ ρ e d, (f.action ρ).answer d = Action.firstOf e (Flow.actions fs ρ) d

theorem AnswersAs.single (f : Flow handlers) : AnswersAs f [f] where
  ne_nil := List.cons_ne_nil f []
  answer ρ e d := by
    rw [Flow.actions, Flow.actions, Action.firstOf]
    exact (Behavior.handle_pure_throw _).symm

/-- Cascades of cascades. -/
theorem AnswersAs.fallback {gs : List (Flow handlers)} {fss : List (List (Flow handlers))} (hne : gs ≠ [])
    (h : List.Forall₂ AnswersAs gs fss) : AnswersAs (.fallback gs) fss.flatten where
  ne_nil := by
    cases h with
    | nil => exact (hne rfl).elim
    | cons hfs _ => exact fun hnil => hfs.ne_nil (List.append_eq_nil_iff.mp hnil).1
  answer ρ e d := by
    have hactions : ∀ fs : List (Flow handlers), Flow.actions fs ρ = fs.map fun f => f.action ρ := by
      intro fs
      induction fs with
      | nil => rw [Flow.actions, List.map_nil]
      | cons f fs ih => rw [Flow.actions, List.map_cons, ih]
    -- each of the nested cascades answers like the first of its models that does
    have hall : List.Forall₂ (fun a bs => bs ≠ [] ∧ ∀ e d, a.answer d = Action.firstOf e bs d)
        (Flow.actions gs ρ) (fss.map fun fs => Flow.actions fs ρ) := by
      rw [hactions]
      refine List.forall₂_map_left_iff.mpr (List.forall₂_map_right_iff.mpr (h.imp fun g fs hfs => ?_))
      refine ⟨fun hnil => hfs.ne_nil ?_, hfs.answer ρ⟩
      rw [hactions, List.map_eq_nil_iff] at hnil
      exact hnil
    have hne' : Flow.actions gs ρ ≠ [] := by
      rw [hactions]
      exact fun hnil => hne (List.map_eq_nil_iff.mp hnil)
    rw [Flow.action, Action.answer_firstOf, Action.firstOf_start hne' _ e, Action.firstOf_flatten hall]
    refine congrArg (Action.firstOf e · d) ?_
    rw [hactions, List.map_flatten]
    exact congrArg List.flatten (List.map_congr_left fun fs _ => hactions fs)

/-! ### What is built for a model -/

variable {config : HandlerSetConfig} (libraries : InlineLibraries) (hextends : config.Extends)
  (hconfig : config.KeepsData)

include hextends hconfig

/-- Every model is one of two intrinsics. -/
theorem createComputation_customModel {uri : String} {options : List (String × PyArg)} {v : Value}
    (h : (customModel uri options).createComputation = .ok v) :
    ∃ f : Flow (completeHandlerSet config libraries), f.toPb = v := by
  -- both intrinsics are inline in the complete handler set
  have hinline : ∀ intr : Intrinsic, intr.uri = "model_inference" ∨ intr.uri = "model_inference_with_config" →
      (completeHandlerSet config libraries).Inline intr := by
    rintro ⟨_, staticParameter⟩ (rfl | rfl)
    · exact completeHandlerSet_inline hextends hconfig _ (show "model_inference" ∈ inlineUris by decide)
        (fun h => absurd h (by simp)) fun h => absurd h (by simp)
    · exact completeHandlerSet_inline hextends hconfig _ (show "model_inference_with_config" ∈ inlineUris by decide)
        (fun h => absurd h (by simp)) fun h => absurd h (by simp)
  rw [createComputation] at h
  split at h
  · cases h
  split at h
  · cases h
    exact ⟨.inline ⟨"model_inference", _⟩ (hinline _ (.inl rfl)), rfl⟩
  · obtain ⟨w, -, h⟩ := ok_of_bind h
    cases h
    exact ⟨.inline ⟨"model_inference_with_config", _⟩ (hinline _ (.inr rfl)), rfl⟩

/-- What is built for an LLM answers as the models in it. By induction on the LLM. -/
theorem Populated.answersAs {llm : Llm} (hp : llm.Populated) :
    ∀ {v}, llm.createComputation = .ok v → ∃ (f : Flow (completeHandlerSet config libraries)) (fs : List _),
      f.toPb = v ∧ createComputations llm.models = .ok (Flow.toPbs fs) ∧ AnswersAs f fs := by
  induction hp with
  | customModel uri options =>
      intro v h
      obtain ⟨f, rfl⟩ := createComputation_customModel libraries hextends hconfig h
      refine ⟨f, [f], rfl, ?_, .single f⟩
      rw [models, createComputations, h, Flow.toPbs, Flow.toPbs]
      · rfl
      · exact fun _ h => by cases h
  | @modelCascade llms hne hpopulated ih =>
      intro v h
      rw [createComputation] at h
      replace h := ok_of_bind h
      obtain ⟨vs, hvs, h⟩ := h
      cases h
      -- the flows of the cascades in it, and for each of them those of its models
      suffices hall : ∃ (gs : List (Flow (completeHandlerSet config libraries))) (fss : List (List _)),
          Flow.toPbs gs = vs ∧ createComputations (modelsAll llms) = .ok (Flow.toPbs fss.flatten) ∧
            gs.length = llms.length ∧ List.Forall₂ AnswersAs gs fss by
        obtain ⟨gs, fss, rfl, hmodels, hlength, hanswers⟩ := hall
        refine ⟨.fallback gs, fss.flatten, by rw [Flow.toPb], by rw [models, hmodels], .fallback ?_ hanswers⟩
        exact fun hnil => hne (List.length_eq_zero_iff.mp (by rw [← hlength, hnil, List.length_nil]))
      clear hne hpopulated
      induction llms generalizing vs with
      | nil =>
          cases hvs
          exact ⟨[], [], rfl, rfl, rfl, .nil⟩
      | cons llm llms ih' =>
          rw [createComputations] at hvs
          obtain ⟨v, hv, hvs⟩ := ok_of_bind hvs
          obtain ⟨vs, hrest, hvs⟩ := ok_of_bind hvs
          cases hvs
          obtain ⟨f, fs, rfl, hmodels, hanswers⟩ := ih llm List.mem_cons_self hv
          obtain ⟨gs, fss, rfl, hmodels', hlength, hall⟩ :=
            ih' (fun llm hllm => ih llm (List.mem_cons_of_mem _ hllm)) vs hrest
          refine ⟨f :: gs, fs :: fss, by rw [Flow.toPbs], ?_, congrArg Nat.succ hlength, .cons hanswers hall⟩
          rw [modelsAll, createComputations_append hmodels hmodels', List.flatten_cons, Flow.toPbs_eq_map,
            Flow.toPbs_eq_map, Flow.toPbs_eq_map, List.map_append]
  | other =>
      intro v h
      cases h

end Llm

/-! ## Running cascades -/

variable [ProtoText] {handlers : IntrinsicHandlerSet}

variable (handlers) in
/-- Whatever the executor has done so far, runs of the two computations return the same and fail with the same. -/
def RunAlike (v w : Value) : Prop :=
  ∀ (arg : Value) (s : ControlFlowState InlineState), arg.Materialized →
    let runs := fun (computation : Value) n =>
      Runner.run ⟨some computation, controlFlowExecutor (localExecutor handlers) n⟩ arg
    (∀ r, (∃ s', Run.Finally (runs v) s r s') ↔ ∃ s', Run.Finally (runs w) s r s') ∧
      ∀ e, (∃ s', Run.FinallyFails (runs v) s e s') ↔ ∃ s', Run.FinallyFails (runs w) s e s'

/-- Functions with one meaning run alike. -/
theorem RunAlike.of_run_eq (hh : handlers.Standard) {f g : Flow handlers} (h : f.run = g.run) :
    RunAlike handlers f.toPb g.toPb := by
  intro arg s harg runs
  have hf := f.runsAs hh harg s
  have hg := g.runsAs hh harg s
  rw [← h] at hg
  exact ⟨fun r => ⟨fun ⟨_, hr⟩ => hg.of_returns (hf.returns hr).2, fun ⟨_, hr⟩ => hf.of_returns (hg.returns hr).2⟩,
    fun e => ⟨fun ⟨_, he⟩ => hg.of_fails (hf.fails he).2, fun ⟨_, he⟩ => hf.of_fails (hg.fails he).2⟩⟩

theorem Flow.run_eq_answer (f : Flow handlers) (arg : Value) :
    f.run arg = (f.action []).answer (.ofValue arg) >>= Datum.shown := by
  rw [Action.answer_shown, Action.apply, bind_assoc, Flow.run]

theorem Llm.AnswersAs.run_eq {f : Flow handlers} {fs : List (Flow handlers)} (h : Llm.AnswersAs f fs) :
    f.run = (Flow.fallback fs).run := by
  funext arg
  rw [Flow.run_eq_answer, Flow.run_eq_answer, h.answer [] (.unavailable "No candidate computations available."),
    Flow.action, Action.answer_firstOf]

/-- **Cascades may be nested.** What is built for an LLM runs as what is built for the flat cascade of its models. -/
theorem Llm.cascade_flattens {config : HandlerSetConfig} (libraries : InlineLibraries) (hextends : config.Extends)
    (hconfig : config.KeepsData) {llm : Llm} (hp : llm.Populated) {v : Value}
    (h : llm.createComputation = .ok v) :
    ∃ w, (Llm.modelCascade llm.models).createComputation = .ok w ∧
      RunAlike (completeHandlerSet config libraries) v w := by
  obtain ⟨f, fs, rfl, hmodels, hanswers⟩ := hp.answersAs libraries hextends hconfig h
  refine ⟨(Flow.fallback fs).toPb, ?_, .of_run_eq (completeHandlerSet_standard hextends) hanswers.run_eq⟩
  rw [createComputation, hmodels, Flow.toPb]
  rfl

omit [ProtoText] in
/-- Three models, two of them in a cascade of their own. -/
theorem cascade_flattens_three :
    let _ := ProtoText.silent
    RunAlike (completeHandlerSet .empty .offline)
      (createFallback [createModel "a", createFallback [createModel "b", createModel "test_model"]])
      (createFallback [createModel "a", createModel "b", createModel "test_model"]) := by
  intro _
  have hp : (Llm.modelCascade [.customModel "a" [], .modelCascade [.customModel "b" [],
      .customModel "test_model" []]]).Populated := by
    refine .modelCascade (List.cons_ne_nil _ _) (List.forall_mem_cons.mpr ⟨.customModel _ _, ?_⟩)
    refine List.forall_mem_cons.mpr ⟨.modelCascade (List.cons_ne_nil _ _) ?_, List.forall_mem_nil _⟩
    exact List.forall_mem_cons.mpr ⟨.customModel _ _, List.forall_mem_cons.mpr ⟨.customModel _ _,
      List.forall_mem_nil _⟩⟩
  obtain ⟨w, hw, halike⟩ := Llm.cascade_flattens .offline HandlerSetConfig.empty_extends
    HandlerSetConfig.empty_keepsData hp rfl
  cases hw
  exact halike

end GenC
