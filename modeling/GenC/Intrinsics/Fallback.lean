import GenC.Intrinsics.Recording

/-!
# The loop of `Fallback`

What the loop does in a family of contexts that accept a null output, with the record of it. It returns
what the first candidate that works gave (`finally_fallbackLoop_iff`), and if there is none, it fails with
the status of the last one (`finallyFails_fallbackLoop_iff`).
-/

namespace GenC

open Lib

variable {σ V : Type}

namespace Fallback

variable (ctxs : Nat → Context σ V) (arg : Option V)

/-- Materializing `v` without an output ends with `status`. -/
def Checks (v : V) (s : σ) (status : StatusOr Unit) (s' : σ) : Prop :=
  ∃ m, Run.Finally (fun n => (ctxs n).materialize v none) s m s' ∧ m.status = status

/-- A candidate that does not work, and what it ends with. -/
inductive Rejected (fnPb : Value) (s : σ) : List (Operation V) → Status → σ → Prop where
  | create {e : Status} {s' : σ} (h : Context.CreateFails ctxs fnPb s e s') :
      Rejected fnPb s [.createValue fnPb] e s'
  | call {fn : V} {e : Status} {u s' : σ} (hcreate : Context.Creates ctxs fnPb s fn u)
      (h : Context.CallFails ctxs fn arg u e s') :
      Rejected fnPb s [.createValue fnPb, .createCall fn arg] e s'
  | materialize {fn result : V} {e : Status} {u u' s' : σ}
      (hcreate : Context.Creates ctxs fnPb s fn u) (hcall : Context.Calls ctxs fn arg u result u')
      (h : Checks ctxs result u' (.error e) s') :
      Rejected fnPb s [.createValue fnPb, .createCall fn arg, .materialize result false] e s'

/-- A candidate whose creation, call and materialization all succeed. -/
def Works (fnPb : Value) (s : σ) (fn result : V) (s' : σ) : Prop :=
  ∃ u u', Context.Creates ctxs fnPb s fn u ∧ Context.Calls ctxs fn arg u result u' ∧
    Checks ctxs result u' (.ok ()) s'

/-- None of the candidates works. `e` is what came before them. -/
inductive AllRejected : Status → List Value → σ → List (Operation V) → Status → σ → Prop where
  | nil {e : Status} {s : σ} : AllRejected e [] s [] e s
  | cons {e e₁ e₂ : Status} {fnPb : Value} {fns : List Value} {l l' : List (Operation V)} {s s₁ s₂ : σ}
      (h : Rejected ctxs arg fnPb s l e₁ s₁) (hrest : AllRejected e₁ fns s₁ l' e₂ s₂) :
      AllRejected e (fnPb :: fns) s (l ++ l') e₂ s₂

end Fallback

/-- The operations of a candidate that works. -/
def Fallback.trying (fnPb : Value) (arg : Option V) (fn result : V) : List (Operation V) :=
  [.createValue fnPb, .createCall fn arg, .materialize result false]

open Fallback ControlFlowHandler

section

variable {ctxs : Nat → Context σ V} {arg : Option V} {fnPb : Value} {fns : List Value} {y : V} {s s' : σ}
  {e e' : Status} {n : Nat}

/-- What a candidate comes to when the loop returns: it works, or the loop goes on with the others. -/
theorem of_returns_fallbackLoop_cons
    (hend : Run.Returns (fallbackLoop (ctxs n) arg e (fnPb :: fns)) s y s') :
    (∃ fn, Works ctxs arg fnPb s fn y s') ∨ ∃ l e₁ u, Rejected ctxs arg fnPb s l e₁ u ∧
      Run.Returns (fallbackLoop (ctxs n) arg e₁ fns) u y s' := by
  obtain ⟨e₁ | fn, u, hcreate, hend⟩ := hend.of_bind
  · exact .inr ⟨_, e₁, u, .create ⟨n, .of_attempt hcreate⟩, hend⟩
  obtain ⟨e₁ | result, u₁, hcall, hend⟩ := hend.of_bind
  · exact .inr ⟨_, e₁, u₁, .call ⟨n, hcreate.of_attempt⟩ ⟨n, .of_attempt hcall⟩, hend⟩
  obtain ⟨m, u₂, hm, hend⟩ := hend.of_bind
  have hcheck : Checks ctxs result u₁ m.status u₂ := ⟨m, ⟨n, hm⟩, rfl⟩
  rcases hstatus : m.status with e₁ | ⟨⟩ <;> rw [hstatus] at hend hcheck
  · exact .inr ⟨_, e₁, u₂, .materialize ⟨n, hcreate.of_attempt⟩ ⟨n, hcall.of_attempt⟩ hcheck, hend⟩
  · obtain ⟨rfl, rfl⟩ := hend.unique (.pure result u₂)
    exact .inl ⟨fn, u, u₁, ⟨n, hcreate.of_attempt⟩, ⟨n, hcall.of_attempt⟩, hcheck⟩

/-- When the loop fails, it goes on with the others. -/
theorem of_fails_fallbackLoop_cons
    (hnull : ∀ n v u e u', ¬ Run.Fails ((ctxs n).materialize v none) u e u')
    (hend : Run.Fails (fallbackLoop (ctxs n) arg e (fnPb :: fns)) s e' s') :
    ∃ l e₁ u, Rejected ctxs arg fnPb s l e₁ u ∧
      Run.Fails (fallbackLoop (ctxs n) arg e₁ fns) u e' s' := by
  rcases hend.of_bind with hend | ⟨e₁ | fn, u, hcreate, hend⟩
  · exact (Run.not_fails_attempt hend).elim
  · exact ⟨_, e₁, u, .create ⟨n, .of_attempt hcreate⟩, hend⟩
  rcases hend.of_bind with hend | ⟨e₁ | result, u₁, hcall, hend⟩
  · exact (Run.not_fails_attempt hend).elim
  · exact ⟨_, e₁, u₁, .call ⟨n, hcreate.of_attempt⟩ ⟨n, .of_attempt hcall⟩, hend⟩
  rcases hend.of_bind with hend | ⟨m, u₂, hm, hend⟩
  · exact (hnull n result u₁ e' s' hend).elim
  -- a candidate is rejected when it is created, called or materialized
  have hcheck : Checks ctxs result u₁ m.status u₂ := ⟨m, ⟨n, hm⟩, rfl⟩
  rcases hstatus : m.status with e₁ | ⟨⟩ <;> rw [hstatus] at hend hcheck
  · exact ⟨_, e₁, u₂, .materialize ⟨n, hcreate.of_attempt⟩ ⟨n, hcall.of_attempt⟩ hcheck, hend⟩
  · obtain ⟨_, hl⟩ := hend
    cases hl

variable (h : Context.Growing ctxs)

include h

/-- A candidate that does not work is passed over. -/
theorem fallbackLoop_of_rejected {l : List (Operation V)} {e₁ : Status} {u : σ}
    (hrejected : Rejected ctxs arg fnPb s l e₁ u) : ∃ n₀, ∀ n ≥ n₀,
      (fallbackLoop (ctxs n) arg e (fnPb :: fns) s).2 = (fallbackLoop (ctxs n) arg e₁ fns u).2 := by
  cases hrejected with
  | create hcreate =>
      obtain ⟨n₀, hcreate⟩ := (h.createValue fnPb).fails_of_le hcreate
      exact ⟨n₀, fun n hn => (hcreate n hn).attempt.bind_end⟩
  | call hcreate hcall =>
      obtain ⟨n₁, hcreate⟩ := (h.createValue fnPb).returns_of_le hcreate
      obtain ⟨n₂, hcall⟩ := (h.createCall _ arg).fails_of_le hcall
      refine ⟨max n₁ n₂, fun n hn => ?_⟩
      obtain ⟨hn₁, hn₂⟩ := Nat.max_le.mp hn
      exact (hcreate n hn₁).attempt.bind_end.trans (hcall n hn₂).attempt.bind_end
  | materialize hcreate hcall hcheck =>
      obtain ⟨m, hm, hstatus⟩ := hcheck
      obtain ⟨n₁, hcreate⟩ := (h.createValue fnPb).returns_of_le hcreate
      obtain ⟨n₂, hcall⟩ := (h.createCall _ arg).returns_of_le hcall
      obtain ⟨n₃, hm⟩ := (h.materialize _ none).returns_of_le hm
      refine ⟨max n₁ (max n₂ n₃), fun n hn => ?_⟩
      obtain ⟨hn₁, hn'⟩ := Nat.max_le.mp hn
      obtain ⟨hn₂, hn₃⟩ := Nat.max_le.mp hn'
      refine (hcreate n hn₁).attempt.bind_end.trans ?_
      refine (hcall n hn₂).attempt.bind_end.trans ?_
      refine (hm n hn₃).bind_end.trans ?_
      rw [hstatus]

/-- A candidate that works ends the loop. -/
theorem fallbackLoop_of_works {fn : V} (hworks : Works ctxs arg fnPb s fn y s') :
    Run.Finally (fun n => fallbackLoop (ctxs n) arg e (fnPb :: fns)) s y s' := by
  obtain ⟨u₁, u₂, hcreate, hcall, m, hm, hstatus⟩ := hworks
  obtain ⟨n₁, hcreate⟩ := (h.createValue fnPb).returns_of_le hcreate
  obtain ⟨n₂, hcall⟩ := (h.createCall _ arg).returns_of_le hcall
  obtain ⟨n₃, hm⟩ := (h.materialize _ none).returns_of_le hm
  refine ⟨max n₁ (max n₂ n₃), ?_⟩
  refine (hcreate _ (Nat.le_max_left ..)).attempt.bind ?_
  refine (hcall _ (by omega)).attempt.bind ((hm _ (by omega)).bind ?_)
  rw [hstatus]
  exact .pure y s'

/-- So are all the candidates before the first that works. -/
theorem fallbackLoop_of_allRejected {e₁ : Status} {l : List (Operation V)} {tried : List Value} {u : σ}
    (hrejected : AllRejected ctxs arg e tried s l e₁ u) (later : List Value) : ∃ n₀, ∀ n ≥ n₀,
      (fallbackLoop (ctxs n) arg e (tried ++ later) s).2 = (fallbackLoop (ctxs n) arg e₁ later u).2 := by
  induction hrejected with
  | nil => exact ⟨0, fun _ _ => rfl⟩
  | cons hfirst _ ih =>
      obtain ⟨n₁, hfirst⟩ := fallbackLoop_of_rejected h hfirst
      obtain ⟨n₂, hrest⟩ := ih
      refine ⟨max n₁ n₂, fun n hn => ?_⟩
      obtain ⟨hn₁, hn₂⟩ := Nat.max_le.mp hn
      exact (hfirst n hn₁).trans (hrest n hn₂)

/-- **The loop returns what the first candidate that works gave.** -/
theorem finally_fallbackLoop_iff : Run.Finally (fun n => fallbackLoop (ctxs n) arg e fns) s y s' ↔
    ∃ tried fnPb later l e₁ u fn, fns = tried ++ fnPb :: later ∧ AllRejected ctxs arg e tried s l e₁ u ∧
      Works ctxs arg fnPb u fn y s' := by
  constructor
  · rintro ⟨n, hend⟩
    induction fns generalizing e s with
    | nil =>
        obtain ⟨_, hl⟩ := hend
        cases hl
    | cons fnPb fns ih =>
        rcases of_returns_fallbackLoop_cons hend with ⟨fn, hworks⟩ | ⟨l, e₁, u, hrejected, hend⟩
        · exact ⟨[], fnPb, fns, [], e, s, fn, rfl, .nil, hworks⟩
        · obtain ⟨tried, fnPb', later, l', e₂, u', fn, rfl, hrest, hworks⟩ := ih hend
          exact ⟨fnPb :: tried, fnPb', later, _, e₂, u', fn, rfl, .cons hrejected hrest, hworks⟩
  · rintro ⟨tried, fnPb, later, l, e₁, u, fn, rfl, hrejected, hworks⟩
    -- enough fuel for those that are rejected, and for the one that works
    obtain ⟨n₀, hskip⟩ := fallbackLoop_of_allRejected h hrejected (fnPb :: later)
    obtain ⟨n₁, hend⟩ := Run.Growing.returns_of_le
      (fun _ _ hnm => fallbackLoop_le (h hnm) arg (fnPb :: later) e₁) (fallbackLoop_of_works h hworks)
    exact ⟨max n₀ n₁, (hend _ (Nat.le_max_right ..)).of_end (hskip _ (Nat.le_max_left ..))⟩

/-- **If none works, the loop fails with the status of the last one.** -/
theorem finallyFails_fallbackLoop_iff
    (hnull : ∀ n v u e u', ¬ Run.Fails ((ctxs n).materialize v none) u e u') :
    Run.FinallyFails (fun n => fallbackLoop (ctxs n) arg e fns) s e' s' ↔
      ∃ l, AllRejected ctxs arg e fns s l e' s' := by
  constructor
  · rintro ⟨n, hend⟩
    induction fns generalizing e s with
    | nil =>
        obtain ⟨rfl, rfl⟩ := hend.unique (.throw e s)
        exact ⟨[], .nil⟩
    | cons fnPb fns ih =>
        obtain ⟨l, e₁, u, hrejected, hend⟩ := of_fails_fallbackLoop_cons hnull hend
        obtain ⟨l', hrest⟩ := ih hend
        exact ⟨_, .cons hrejected hrest⟩
  · rintro ⟨l, hrejected⟩
    obtain ⟨n₀, hskip⟩ := fallbackLoop_of_allRejected h hrejected []
    rw [List.append_nil] at hskip
    exact ⟨n₀, (Run.Fails.throw e' s').of_end (hskip n₀ (le_refl _))⟩

end

/-! ## The record -/

section

variable {ctxs : Nat → Context σ V} {arg : Option V} {fnPb : Value} {y : V} {s s' : σ} {e e' : Status}
  {l l' record : List (Operation V)}

namespace Fallback

theorem checks_recording_iff {v : V} {status : StatusOr Unit} :
    Checks (fun n => (ctxs n).recording) v (s, l) status (s', l') ↔
      Checks ctxs v s status s' ∧ l' = l ++ [.materialize v false] := by
  constructor
  · rintro ⟨m, hm, rfl⟩
    obtain ⟨hchecked, rfl⟩ := Context.finally_recorded_iff.mp hm
    exact ⟨⟨m, hchecked, rfl⟩, rfl⟩
  · rintro ⟨⟨m, hm, rfl⟩, rfl⟩
    exact ⟨m, Context.finally_recorded_iff.mpr ⟨hm, rfl⟩, rfl⟩

theorem works_recording_iff {fn : V} :
    Works (fun n => (ctxs n).recording) arg fnPb (s, l) fn y (s', l') ↔
      Works ctxs arg fnPb s fn y s' ∧ l' = l ++ trying fnPb arg fn y := by
  constructor
  · rintro ⟨⟨u, l₁⟩, ⟨u', l₂⟩, hcreate, hcall, hcheck⟩
    obtain ⟨hcreated, rfl⟩ := Context.creates_recording_iff.mp hcreate
    obtain ⟨hcalled, rfl⟩ := Context.calls_recording_iff.mp hcall
    obtain ⟨hchecked, rfl⟩ := checks_recording_iff.mp hcheck
    exact ⟨⟨u, u', hcreated, hcalled, hchecked⟩, by simp [trying]⟩
  · rintro ⟨⟨u, u', hcreate, hcall, hcheck⟩, rfl⟩
    refine ⟨(u, l ++ [.createValue fnPb]), (u', l ++ [.createValue fnPb] ++ [.createCall fn arg]),
      Context.creates_recording_iff.mpr ⟨hcreate, rfl⟩, Context.calls_recording_iff.mpr ⟨hcall, rfl⟩, ?_⟩
    exact checks_recording_iff.mpr ⟨hcheck, by simp [trying]⟩

theorem rejected_recording_iff :
    Rejected (fun n => (ctxs n).recording) arg fnPb (s, l) record e (s', l') ↔
      Rejected ctxs arg fnPb s record e s' ∧ l' = l ++ record := by
  constructor
  · intro h
    -- an index has to be a variable for `cases`
    generalize hs' : (s', l') = p' at h
    cases h with
    | create h =>
        subst hs'
        obtain ⟨hfails, rfl⟩ := Context.createFails_recording_iff.mp h
        exact ⟨.create hfails, rfl⟩
    | @call fn _ u _ hcreate h =>
        subst hs'
        obtain ⟨u, l₁⟩ := u
        obtain ⟨hcreated, rfl⟩ := Context.creates_recording_iff.mp hcreate
        obtain ⟨hfails, rfl⟩ := Context.callFails_recording_iff.mp h
        exact ⟨.call hcreated hfails, by simp⟩
    | @materialize fn result _ u u' _ hcreate hcall h =>
        subst hs'
        obtain ⟨u, l₁⟩ := u
        obtain ⟨u', l₂⟩ := u'
        obtain ⟨hcreated, rfl⟩ := Context.creates_recording_iff.mp hcreate
        obtain ⟨hcalled, rfl⟩ := Context.calls_recording_iff.mp hcall
        obtain ⟨hchecked, rfl⟩ := checks_recording_iff.mp h
        exact ⟨.materialize hcreated hcalled hchecked, by simp⟩
  · rintro ⟨h, rfl⟩
    cases h with
    | create h => exact .create (Context.createFails_recording_iff.mpr ⟨h, rfl⟩)
    | call hcreate h =>
        refine .call (Context.creates_recording_iff.mpr ⟨hcreate, rfl⟩) ?_
        exact Context.callFails_recording_iff.mpr ⟨h, by simp⟩
    | materialize hcreate hcall h =>
        refine .materialize (Context.creates_recording_iff.mpr ⟨hcreate, rfl⟩)
          (Context.calls_recording_iff.mpr ⟨hcall, rfl⟩) ?_
        exact checks_recording_iff.mpr ⟨h, by simp⟩

theorem allRejected_recording_iff {fns : List Value} :
    AllRejected (fun n => (ctxs n).recording) arg e fns (s, l) record e' (s', l') ↔
      AllRejected ctxs arg e fns s record e' s' ∧ l' = l ++ record := by
  constructor
  · intro h
    generalize hs : (s, l) = p, hs' : (s', l') = p' at h
    induction h generalizing s l with
    | nil =>
        cases hs
        cases hs'
        exact ⟨.nil, (List.append_nil _).symm⟩
    | @cons e e₁ e₂ fnPb fns record record' p u p' hfirst _ ih =>
        subst hs
        obtain ⟨u, l₁⟩ := u
        obtain ⟨hrejected, rfl⟩ := rejected_recording_iff.mp hfirst
        obtain ⟨hrest, rfl⟩ := ih rfl hs'
        exact ⟨.cons hrejected hrest, List.append_assoc ..⟩
  · rintro ⟨h, rfl⟩
    induction h generalizing l with
    | nil =>
        rw [List.append_nil]
        exact .nil
    | cons hfirst _ ih =>
        refine .cons (rejected_recording_iff.mpr ⟨hfirst, rfl⟩) ?_
        rw [← List.append_assoc]
        exact ih

end Fallback

end

end GenC
