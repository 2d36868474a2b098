import GenC.Flow.Program
import GenC.Runtime.ScheduledStack

/-!
# Programs, in any schedule

What a program means does not depend on the threads that run the tasks of the local stack.

* `Flow.impl_runAll_follows` — one run after another, over tasks that run on the spot.
* **`Flow.scheduled_as_meant`** — and in any schedule.
-/

namespace GenC

open Lib ControlFlowExecutor

variable [ProtoText] {handlers : IntrinsicHandlerSet}

/-! ## One run after another -/

/-- What the runs return and fail with. -/
def Flow.runAll : List (Flow handlers × Value) → Meaning (List (StatusOr Value))
  | [] => pure []
  | (f, arg) :: programs => do
      let result ← (f.run arg).attempt
      let results ← Flow.runAll programs
      pure (result :: results)

/-- What a `Runner` is given. -/
def Flow.request (program : Flow handlers × Value) : Value × Value := (program.1.toPb, program.2)

theorem impl_runAll_growing (requests : List (Value × Value)) :
    Run.Growing fun n => ((localExecutor handlers).impl n).runAll requests := by
  induction requests with
  | nil => exact .const _
  | cons request requests ih =>
      apply (impl_run_growing request.1 request.2).attempt.bind
      intro result
      exact ih.bind fun _ => .const _

theorem Flow.impl_runAll_follows (hh : handlers.Standard) {programs : List (Flow handlers × Value)}
    (hargs : ∀ program ∈ programs, program.2.Materialized) (s : InlineState) :
    Run.Follows (fun _ rs rs' => rs = rs')
      (fun n => ((localExecutor handlers).impl n).runAll (programs.map Flow.request)) s (Flow.runAll programs) := by
  induction programs generalizing s with
  | nil => exact .pure rfl
  | cons program programs ih =>
      have hrest : ∀ result : StatusOr Value, Run.Growing fun n =>
          ((localExecutor handlers).impl n).runAll (programs.map Flow.request) >>= fun results =>
            (pure (result :: results) : Exec InlineState (List (StatusOr Value))) :=
        fun result => (impl_runAll_growing _).bind fun _ => .const _
      have hrun := program.1.impl_run_follows hh (hargs program List.mem_cons_self) s
      refine .bind (impl_run_growing _ _).attempt hrest hrun.attempt fun result s₁ result' _ hresult => ?_
      -- the results are related by their kind, and equal where both are errors or both values
      obtain rfl : result = result' := by
        cases result <;> cases result'
        · exact congrArg Except.error hresult
        · exact hresult.elim
        · exact hresult.elim
        · exact congrArg Except.ok hresult
      have hprograms := ih (fun program hprogram => hargs program (List.mem_cons_of_mem _ hprogram)) s₁
      have hpure : ∀ results : List (StatusOr Value), Run.Growing fun _ : Nat =>
          (pure (result :: results) : Exec InlineState (List (StatusOr Value))) := fun _ => .const _
      refine .bind (impl_runAll_growing _) hpure hprograms fun results s₂ results' _ hresults => ?_
      exact .pure (congrArg (result :: ·) hresults)

/-! ## In any schedule -/

/-- The two local stacks, one with tasks and one without. -/
theorem scheduledLocalExecutor_related (schedule : Nat → Turn Unit Value) :
    (scheduledLocalExecutor handlers schedule).Related (.covering Event Crash Status ScheduledState.Linked)
      (localExecutor handlers) where
  error_eq h := h
  handlers := rfl
  child := ScheduledInlineExecutor.scheduled_related schedule

/-- The scheduled stack before the first call. -/
def scheduledInitial : ControlFlowState (ScheduledState Unit Value) :=
  ⟨.empty, ⟨⟨.empty, TaskPool.empty ()⟩, 0⟩⟩

variable (handlers) in
/-- In a schedule, runs end as the behavior does where that does not crash. They leave no value in the executor. -/
structure RunsAllAs (requests : List (Value × Value)) (schedule : Nat → Turn Unit Value)
    (p : Meaning (List (StatusOr Value))) : Prop where
  of_returns : ∀ {rs}, Run.Finally p.run () rs () → ∃ s', Run.Finally (fun n => Runner.runAll
    (controlFlowExecutor (scheduledLocalExecutor handlers schedule) n) requests) scheduledInitial rs s'
  returns : (∀ k, ¬ Run.FinallyCrashes p.run () k) → ∀ {rs s'}, Run.Finally (fun n => Runner.runAll
    (controlFlowExecutor (scheduledLocalExecutor handlers schedule) n) requests) scheduledInitial rs s' →
      Run.Finally p.run () rs ()
  not_crashes : (∀ k, ¬ Run.FinallyCrashes p.run () k) → ∀ k, ¬ Run.FinallyCrashes (fun n => Runner.runAll
    (controlFlowExecutor (scheduledLocalExecutor handlers schedule) n) requests) scheduledInitial k
  restored : ∀ {rs s'}, Run.Finally (fun n => Runner.runAll
    (controlFlowExecutor (scheduledLocalExecutor handlers schedule) n) requests) scheduledInitial rs s' →
      ∀ id, s'.table.trackedValues id = none

theorem Flow.runsAllAs (hh : handlers.Standard) {programs : List (Flow handlers × Value)}
    (hargs : ∀ program ∈ programs, program.2.Materialized) (schedule : Nat → Turn Unit Value) :
    RunsAllAs handlers (programs.map Flow.request) schedule (Flow.runAll programs) := by
  have hlinked : ScheduledState.Linked scheduledInitial.impl ⟨.empty, ()⟩ :=
    ⟨[], ⟨rfl, TaskPool.sound_empty trivial⟩, HandleTable.Related.empty⟩
  have hrestored : BaseState.Restored scheduledInitial.table scheduledInitial.impl scheduledInitial := .refl _
  have hfollows := Flow.impl_runAll_follows hh hargs (⟨.empty, ()⟩ : InlineState)
  have hrelated : (scheduledLocalExecutor handlers schedule).Related _ (localExecutor handlers) :=
    scheduledLocalExecutor_related schedule
  have hcovers (n : Nat) := hrelated.impl_runAll (w := ()) n (programs.map Flow.request)
  have hcouples (n : Nat) := Runner.runAll_couples ((scheduledLocalExecutor handlers schedule).impl n)
    scheduledInitial.table (programs.map Flow.request)
  have hseq : (∀ k, ¬ Run.FinallyCrashes (Flow.runAll programs).run () k) → ∀ n k,
      (((localExecutor handlers).impl n).runAll (programs.map Flow.request) ⟨.empty, ()⟩).2 ≠ .crash k :=
    fun hcrash n k hk => hcrash k (hfollows.crashes.mp ⟨n, hk⟩)
  -- between the meaning and the runs stand the implementation in sequence and the scheduled one
  refine ⟨fun hrs => ?_, fun hcrash rs s' hrs => ?_, fun hcrash k hk => ?_, fun {rs s'} hrs id => ?_⟩
  · obtain ⟨_, t, hseq, rfl⟩ := hfollows.of_returns hrs
    obtain ⟨_, i, hi, rfl, -⟩ := Run.Covers.returns hcovers hlinked hseq
    obtain ⟨_, s', hs', rfl, -⟩ := Run.Couples.returns hcouples hrestored hi
    exact ⟨s', hs'⟩
  · obtain ⟨_, i, hi, rfl, -⟩ := Run.Couples.of_returns hcouples hrestored hrs
    obtain ⟨_, t, ht, rfl, -⟩ := Run.Covers.of_returns hcovers hlinked (hseq hcrash) hi
    obtain ⟨-, _, hmeans, rfl⟩ := hfollows.returns ht
    exact hmeans
  · have hi := (Run.Couples.crashes hcouples hrestored).mpr hk
    exact Run.Covers.not_crashes hcovers hlinked (hseq hcrash) k hi
  · obtain ⟨_, i, hi, rfl, hs'⟩ := Run.Couples.of_returns hcouples hrestored hrs
    rw [hs'.trackedValues]
    rfl

/-- **In any schedule**, programs that are run one after the other return what they mean to. Unless one of them is to
crash, they return nothing else, and do not crash either. They leave no value behind in the executor. -/
theorem Flow.scheduled_as_meant (hh : handlers.Standard) (programs : List (Flow handlers × Value))
    (hargs : ∀ program ∈ programs, program.2.Materialized) (schedule : Nat → Turn Unit Value) :
    let runs := fun n => Runner.runAll (controlFlowExecutor (scheduledLocalExecutor handlers schedule) n)
      (programs.map Flow.request)
    (∀ rs, Run.Finally (Flow.runAll programs).run () rs () → ∃ s', Run.Finally runs scheduledInitial rs s') ∧
      ((∀ k, ¬ Run.FinallyCrashes (Flow.runAll programs).run () k) →
        (∀ rs s', Run.Finally runs scheduledInitial rs s' → Run.Finally (Flow.runAll programs).run () rs ()) ∧
          ∀ k, ¬ Run.FinallyCrashes runs scheduledInitial k) ∧
      ∀ rs s', Run.Finally runs scheduledInitial rs s' → ∀ id, s'.table.trackedValues id = none := by
  have h := Flow.runsAllAs hh hargs schedule
  exact ⟨fun _ => h.of_returns, fun hcrash => ⟨fun _ _ => h.returns hcrash, h.not_crashes hcrash⟩,
    fun _ _ => h.restored⟩

omit [ProtoText] in
/-- One Boolean after a string, with threads that put everything off. -/
theorem negations_scheduled :
    let _ := ProtoText.silent
    ∃ s', Run.Finally (fun n => Runner.runAll (controlFlowExecutor (scheduledLocalExecutor
      (completeHandlerSet .empty .offline) fun _ => Turn.late) n)
        ([(Flow.negation, .ofStr "a"), (Flow.negation, .ofBool true)].map Flow.request)) scheduledInitial
          [.ok (.ofStr "a"), .ok (.ofBool false)] s' := by
  intro _
  have hargs : ∀ program ∈ [(Flow.negation, Value.ofStr "a"), (Flow.negation, .ofBool true)],
      program.2.Materialized := by
    intro program hprogram
    rcases List.mem_pair.mp hprogram with rfl | rfl <;> exact .scalar
  have hruns := Flow.scheduled_as_meant (completeHandlerSet_standard HandlerSetConfig.empty_extends) _ hargs
    fun _ => Turn.late
  exact hruns.1 _ ⟨1, _, rfl⟩

end GenC
