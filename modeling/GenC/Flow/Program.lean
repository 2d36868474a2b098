import GenC.Flow.Intrinsics
import GenC.Intrinsics.WellFormed
import GenC.Runtime.RunnerCalls

/-!
# Programs, run

A flow is run by handing its IR to a `Runner` over the local stack.
-/

namespace GenC

open Lib ControlFlowExecutor

variable [ProtoText] {handlers : IntrinsicHandlerSet}

/-- What the function makes of an argument. -/
def Flow.run (f : Flow handlers) (arg : Value) : Meaning Value := do
  (f.action []).create
  let d ← (f.action []).call (.ofValue arg)
  d.shown

/-! ## The implementation -/

section

variable (exec : ControlFlowExecutor σ)

/-- In the root scope, a context creates what the executor does. -/
theorem createExecutorValue_eq_contexts (n : Nat) (v : Value) :
    (exec.impl n).createExecutorValue v = (exec.contexts [] n).createValue v := by
  cases v <;> rfl

theorem impl_run_eq (n : Nat) (computation arg : Value) :
    (exec.impl n).run computation arg = (do
      let compVal ← (exec.contexts [] n).createValue computation
      let argVal ← (exec.contexts [] n).createValue arg
      let resultVal ← exec.constCreateCall n compVal (some argVal)
      (exec.contexts [] n).materializeValue resultVal) := by
  rw [ExecutorImpl.run, createExecutorValue_eq_contexts, createExecutorValue_eq_contexts]
  rfl

end

theorem impl_run_growing (computation arg : Value) :
    Run.Growing fun n => ((localExecutor handlers).impl n).run computation arg := by
  have hrun : (fun n => ((localExecutor handlers).impl n).run computation arg) = _ :=
    funext fun n => impl_run_eq (localExecutor handlers) n computation arg
  rw [hrun]
  exact (createValue_growing [] computation).bind fun f => (createValue_growing [] arg).bind fun x =>
    (constCreateCall_growing f (some x)).bind fun r => materializeValue_growing [] r

/-- The calls of a run follow the meaning. -/
theorem Flow.impl_run_follows (hh : handlers.Standard) (f : Flow handlers) {arg : Value}
    (harg : arg.Materialized) (s : InlineState) :
    Run.Follows (fun _ r r' => r = r') (fun n => ((localExecutor handlers).impl n).run f.toPb arg) s
      (f.run arg) := by
  -- the four calls of a Runner, in the root scope
  have hrun : (fun n => ((localExecutor handlers).impl n).run f.toPb arg) = _ :=
    funext fun n => impl_run_eq (localExecutor handlers) n f.toPb arg
  rw [hrun]
  have hbuilds : Builds handlers [] s f.toPb (f.action []) :=
    setLabel_toPb f ▸ f.builds hh (ρ := []) List.Forall₂.nil ""
  have hcall : ∀ g x, Run.Growing fun n => (localExecutor handlers).constCreateCall n g (some x) >>= fun r =>
      ((localExecutor handlers).contexts [] n).materializeValue r :=
    fun g x => (constCreateCall_growing g (some x)).bind fun r => materializeValue_growing [] r
  refine .bind (createValue_growing [] _) (fun g => (createValue_growing [] arg).bind (hcall g))
    (hbuilds (le_refl s)) fun g s₁ _ _ hg => ?_
  refine (pure_bind (Datum.ofValue arg) fun x => (f.action []).call x >>= Datum.shown) ▸ ?_
  refine .bind (createValue_growing [] arg) (hcall g) (createValue_data [] harg s₁) fun x s₂ _ hs₂ hx => ?_
  refine .bind (constCreateCall_growing g (some x)) (fun r => materializeValue_growing [] r) (hg hs₂ hx)
    fun r s₃ d _ hr => ?_
  exact (materializeValue_follows [] hr).mono fun _ _ _ _ h => h.1

/-! ## The runner -/

/-- Nothing that the caller has is disturbed: no handle of the executor, and none of the child. -/
structure ControlFlowState.Kept (s s' : ControlFlowState InlineState) : Prop where
  tracked : s'.table.trackedValues = s.table.trackedValues
  impl : s.impl ≤ s'.impl

omit [ProtoText] in
theorem ControlFlowState.Kept.of_restored {s s' : ControlFlowState InlineState} {i : InlineState}
    (h : BaseState.Restored s.table i s') (hi : s.impl ≤ i) : s.Kept s' where
  tracked := h.trackedValues
  impl := h.impl ▸ hi

variable (handlers) in
/-- Runs of a computation end as the behavior does, and leave what they found. -/
structure RunsAs (computation arg : Value) (s : ControlFlowState InlineState) (p : Meaning Value) : Prop where
  returns : ∀ {r s'}, Run.Finally (fun n => Runner.run ⟨some computation,
    controlFlowExecutor (localExecutor handlers) n⟩ arg) s r s' → s.Kept s' ∧ Run.Finally p.run () r ()
  of_returns : ∀ {r}, Run.Finally p.run () r () → ∃ s', Run.Finally (fun n => Runner.run ⟨some computation,
    controlFlowExecutor (localExecutor handlers) n⟩ arg) s r s'
  fails : ∀ {e s'}, Run.FinallyFails (fun n => Runner.run ⟨some computation,
    controlFlowExecutor (localExecutor handlers) n⟩ arg) s e s' → s.Kept s' ∧ Run.FinallyFails p.run () e ()
  of_fails : ∀ {e}, Run.FinallyFails p.run () e () → ∃ s', Run.FinallyFails (fun n => Runner.run
    ⟨some computation, controlFlowExecutor (localExecutor handlers) n⟩ arg) s e s'
  crashes : ∀ {k}, Run.FinallyCrashes (fun n => Runner.run
    ⟨some computation, controlFlowExecutor (localExecutor handlers) n⟩ arg) s k ↔ Run.FinallyCrashes p.run () k

theorem Flow.runsAs (hh : handlers.Standard) (f : Flow handlers) {arg : Value} (harg : arg.Materialized)
    (s : ControlFlowState InlineState) : RunsAs handlers f.toPb arg s (f.run arg) := by
  -- A Runner does on handles what is done on the values themselves, and that follows the meaning.
  have hcouples (n : Nat) := Runner.runInternal_couples ((localExecutor handlers).impl n) s.table (fun _ => none)
    (some f.toPb) f.toPb arg
  have hrefl : BaseState.Restored s.table s.impl s := .refl s
  have hfollows := f.impl_run_follows hh harg s.impl
  refine ⟨fun hr => ?_, fun hr => ?_, fun he => ?_, fun he => ?_,
    (Run.Couples.crashes hcouples hrefl).symm.trans hfollows.crashes⟩
  · obtain ⟨_, i, hi, rfl, hs'⟩ := Run.Couples.of_returns hcouples hrefl hr
    obtain ⟨hle, _, hmeans, rfl⟩ := hfollows.returns hi
    exact ⟨.of_restored hs' hle, hmeans⟩
  · obtain ⟨_, i, hi, rfl⟩ := hfollows.of_returns hr
    obtain ⟨_, s', hs', rfl, -⟩ := Run.Couples.returns hcouples hrefl hi
    exact ⟨s', hs'⟩
  · obtain ⟨i, hi, hs'⟩ := Run.Couples.of_fails hcouples hrefl he
    obtain ⟨hle, hmeans⟩ := hfollows.fails hi
    exact ⟨.of_restored hs' hle, hmeans⟩
  · obtain ⟨i, hi⟩ := hfollows.of_fails he
    obtain ⟨s', hs', -⟩ := Run.Couples.fails hcouples hrefl hi
    exact ⟨s', hs'⟩

/-- **Programs do what they mean.** A run returns just what the meaning returns, fails with just what it fails with
and crashes just where it does, and it leaves the executor as it found it. -/
theorem Flow.runs_as_meant (hh : handlers.Standard) (f : Flow handlers) {arg : Value} (harg : arg.Materialized)
    (s : ControlFlowState InlineState) :
    let runs := fun n => Runner.run ⟨some f.toPb, controlFlowExecutor (localExecutor handlers) n⟩ arg
    (∀ r, (∃ s', Run.Finally runs s r s') ↔ Run.Finally (f.run arg).run () r ()) ∧
      (∀ e, (∃ s', Run.FinallyFails runs s e s') ↔ Run.FinallyFails (f.run arg).run () e ()) ∧
      (∀ k, Run.FinallyCrashes runs s k ↔ Run.FinallyCrashes (f.run arg).run () k) ∧
      (∀ r s', Run.Finally runs s r s' → s.Kept s') ∧ ∀ e s', Run.FinallyFails runs s e s' → s.Kept s' := by
  have h := f.runsAs hh harg s
  exact ⟨fun r => ⟨fun ⟨_, hr⟩ => (h.returns hr).2, h.of_returns⟩,
    fun e => ⟨fun ⟨_, he⟩ => (h.fails he).2, h.of_fails⟩, fun _ => h.crashes, fun _ _ hr => (h.returns hr).1,
    fun _ _ he => (h.fails he).1⟩

/-! ### A program -/

omit [ProtoText] in
theorem HandlerSetConfig.empty_extends : HandlerSetConfig.empty.Extends where
  controlFlow _ h := (List.not_mem_nil h).elim
  inline _ h := (List.not_mem_nil h).elim

omit [ProtoText] in
theorem HandlerSetConfig.empty_keepsData : HandlerSetConfig.empty.KeepsData where
  modelInference h := by cases h
  modelInferenceWithConfig h := by cases h
  customFunction h := by cases h

theorem inline_logicalNot : (completeHandlerSet .empty .offline).Inline ⟨"logical_not", none⟩ :=
  completeHandlerSet_inline HandlerSetConfig.empty_extends HandlerSetConfig.empty_keepsData
    _ (by decide) (fun h => absurd h (by decide)) fun h => absurd h (by decide)

/-- The negation of the argument, or else the argument. -/
def Flow.negation : Flow (completeHandlerSet .empty .offline) :=
  .fallback [.inline ⟨"logical_not", none⟩ inline_logicalNot, .lambda "x" (.reference "x")]

omit [ProtoText] in
/-- Strings cannot be negated. -/
theorem negation_runs :
    let _ := ProtoText.silent
    ∃ s', Run.Finally (fun n => Runner.run ⟨some Flow.negation.toPb, controlFlowExecutor
      (localExecutor (completeHandlerSet .empty .offline)) n⟩ (.ofStr "a")) ⟨.empty, .empty, ()⟩
        (.ofStr "a") s' := by
  intro _
  have harg : (Value.ofStr "a").Materialized := .scalar
  have hruns := Flow.runs_as_meant (completeHandlerSet_standard HandlerSetConfig.empty_extends) Flow.negation harg
    ⟨.empty, .empty, ()⟩
  exact (hruns.1 _).mpr ⟨1, _, rfl⟩

end GenC
