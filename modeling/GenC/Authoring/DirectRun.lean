import GenC.Authoring.TraceScoping
import GenC.Runtime.Data
import GenC.Runtime.Runner

/-!
# Running a function directly

What a Python function denotes without being traced: its calls run one after another, each on the data
that the calls before it gave. A function that it defines is a closure: it can be called again and again,
from other functions too, and sees the variables that were there where it was defined.

Which data a computation cannot tell apart is a parameter (`DataEquivalence`): no two pieces of data, or
those that differ in their metadata only. A computation is `Deterministic` if it does always what it does
once: what it gave on some data, it gives in every scope, at any time, on any value that holds the data.
-/

namespace GenC

open Lib TracingContext

/-- A traced function, run directly: what it returns on which arguments. -/
abbrev DirectFunction : Type := List Value → Value → Prop

/-- What is in scope while a function runs. -/
abbrev DataFrames : Type := Frames Value DirectFunction

namespace PyOperand

/-- The data that is passed on. -/
def Denotes (frames : DataFrames) : PyOperand → Value → Prop
  | .var x, d => frames.find x = some d
  | .lit l, d => l.toValueProto = .ok d

end PyOperand

/-- The body runs on data, where `direct c d r` says that `c` gives `r` on `d`. Several arguments are
packed. A function that is defined inside runs where it is called, with what was in scope where it was
defined. -/
def PyBody.Runs (direct : Value → Value → Value → Prop) : PyBody → DataFrames → Value → Prop
  | .ret x, frames, out => frames.find x = some out
  | .call c args rest, frames, out =>
      args ≠ [] ∧ ∃ ds r, List.Forall₂ (PyOperand.Denotes frames) args ds ∧ direct c (inputVal ds) r ∧
        rest.Runs direct (frames.push r) out
  | .define arity inner rest, frames, out =>
      arity.val ≠ 0 ∧ rest.Runs direct (frames.pushFunction fun ds r =>
        ds.length = arity.val ∧ inner.Runs direct (.begin ds :: frames) r) out
  | .apply g args rest, frames, out =>
      ∃ f ds r, frames.function g = some f ∧ List.Forall₂ (PyOperand.Denotes frames) args ds ∧ f ds r ∧
        rest.Runs direct (frames.push r) out

/-! ## Computations -/

section

variable [ProtoText] (handlers : IntrinsicHandlerSet) (e : DataEquivalence)

namespace DataEquivalence

/-- From now on, the function gives `r` on whatever holds `d`. -/
structure Gives (f : ExecutorValue) (d r : Value) (s : InlineState) : Prop where
  alive : f.Alive s
  call : ∀ {s' a}, s ≤ s' → e.Holds a d s' →
    ∃ v s'', (localExecutor handlers).Calls f a s' v s'' ∧ e.Holds v r s''

/-- Run by itself, from the root scope of some stack, `c` gave `r` on some value that held `d`. -/
def DirectCall (c d r : Value) : Prop :=
  ∃ s f s₁ s₂ a v s₃, (localExecutor handlers).Evaluates c [] s f s₁ ∧ s₁ ≤ s₂ ∧ e.Holds a d s₂ ∧
    (localExecutor handlers).Calls f a s₂ v s₃ ∧ e.Holds v r s₃

/-- In every scope, `c` is a function that gives `r` on `d`. -/
def Computes (c d r : Value) : Prop :=
  ∀ (scope : Scope) (s : InlineState), scope.Alive s → ∃ f s',
    (localExecutor handlers).Evaluates c scope s f s' ∧ e.Gives handlers f d r s'

/-- What the computation gave once, it gives always. -/
def Deterministic (c : Value) : Prop := ∀ d r, e.DirectCall handlers c d r → e.Computes handlers c d r

variable {handlers e}

theorem Gives.of_le {f : ExecutorValue} {d r : Value} {s s' : InlineState}
    (h : e.Gives handlers f d r s) (hs : s ≤ s') : e.Gives handlers f d r s' :=
  ⟨h.alive.of_le hs, fun hs' ha => h.call (hs.trans hs') ha⟩

/-! ### The runner -/

/-- A handle that was called. -/
theorem calls_of_createCall {fuel : Nat} {s s' : ControlFlowState InlineState} {f a id : ValueId}
    {fv av : ExecutorValue} (hf : s.table.trackedValues f = some fv)
    (ha : s.table.trackedValues a = some av)
    (h : Run.Returns ((controlFlowExecutor (localExecutor handlers) fuel).createCall f (some a)) s id
      s') : ∃ v c, (localExecutor handlers).Calls fv av s.impl v c ∧ id = s.table.nextValueId ∧
        s' = BaseState.track { s with impl := c } v := by
  have hargument : Run.Returns (ExecutorBase.getTrackedArgument "ControlFlowExecutor" (some a)) s
      (some av) s := (ExecutorBase.getTracked_returns ha).bind (.pure _ _)
  have himpl := hargument.bind_iff.mp ((ExecutorBase.getTracked_returns hf).bind_iff.mp h)
  obtain ⟨v, t, hcall, htrack⟩ := himpl.of_bind
  obtain ⟨c, hv, rfl⟩ := hcall.of_zoom
  obtain ⟨rfl, rfl⟩ := htrack.unique (ExecutorBase.trackValue_returns v _)
  exact ⟨v, c, ⟨fuel, hv⟩, rfl, rfl⟩

/-- What `Runner::Run` returned is what a direct call gives, where the labels of the argument's structures
do not matter. -/
theorem directCall_of_runInternal {fuel : Nat} {runner : Runner ValueId (ControlFlowState InlineState)}
    (hrunner : runner.executor = controlFlowExecutor (localExecutor handlers) fuel)
    {c d r : Value} {s s' : ControlFlowState InlineState} (hdata : d.Materialized)
    (hd : e.same d.bareStructs d) (hr : e.same r r)
    (h : Run.Returns (runner.runInternal c d) s r s') : e.DirectCall handlers c d r := by
  rw [Runner.runInternal, hrunner] at h
  obtain ⟨f, s₁, hcomp, h⟩ := h.of_bind
  obtain ⟨fv, c₁, hf, -, hfalive, rfl, rfl⟩ := evaluates_of_createValue handlers hcomp
  obtain ⟨_, h⟩ := Executor.of_releasing h
  obtain ⟨a, s₂, harg, h⟩ := h.of_bind
  obtain ⟨av, c₂, ha, hle, -, rfl, rfl⟩ := evaluates_of_createValue handlers harg
  obtain ⟨av', c₂', ha', -, havalive, haw⟩ := evaluatesTo_bareStructs handlers hdata [] c₁
  obtain ⟨rfl, rfl⟩ := ha'.unique ha
  obtain ⟨_, h⟩ := Executor.of_releasing h
  obtain ⟨id, s₃, hcall, h⟩ := h.of_bind
  have hftracked := BaseState.tracked_track { s with impl := c₁ } fv
  have hatracked := BaseState.tracked_track
    { BaseState.track { s with impl := c₁ } fv with impl := c₂' } av'
  obtain ⟨v, c₃, hv, rfl, rfl⟩ :=
    calls_of_createCall (HandleTable.trackedValues_trackValue_of_some hftracked) hatracked hcall
  have hvalive := (hv.yields (hfalive.of_le hle) havalive).2
  obtain ⟨_, h⟩ := Executor.of_releasing h
  obtain ⟨m, s₄, hm, hget⟩ := h.of_bind
  have hvtracked := BaseState.tracked_track
    { BaseState.track { BaseState.track { s with impl := c₁ } fv with impl := c₂' } av' with impl := c₃ } v
  obtain ⟨c₄, hc, -⟩ := ((ExecutorBase.getTracked_returns hvtracked).attempt.bind_iff.mp hm).of_zoom
  obtain ⟨m', c₅, -, hm', hspec⟩ := constMaterialize_spec handlers hvalive (some Value.defaultInstance)
  obtain ⟨rfl, -⟩ := hm'.unique hc
  refine ⟨s.impl, fv, c₁, c₂', av', v, c₃, hf, hle, ⟨havalive, _, haw, hd⟩, hv, hvalive, ?_⟩
  -- what was got from the materialization is what it put into the output
  rcases hcontents : v.contents c₃ with _ | _ | w <;> rw [hcontents] at hspec
  · rw [hspec] at hget
    obtain ⟨_, hl⟩ := hget
    cases hl
  · rw [hspec] at hget
    obtain ⟨_, hl⟩ := hget
    cases hl
  · rw [hspec] at hget
    obtain ⟨rfl, -⟩ := hget.unique (.pure _ _)
    exact ⟨_, rfl, hr⟩

end DataEquivalence

end

end GenC
