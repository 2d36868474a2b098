import GenC.Lib.Behavior

/-!
# Behaviors that do not crash

A behavior is `Safe` if it never crashes, and if it returns or fails, unless it may go on forever. There is one rule
for each combinator. What follows in a sequence only has to be safe after what comes before it has returned.
-/

namespace GenC.Lib

open Run

namespace Behavior

variable {ω κ ε α β γ : Type}

/-- It never crashes, and it ends unless it may go on `forever`. -/
structure Safe (forever : Prop) (p : Behavior ω κ ε α) : Prop where
  not_crashes : ∀ k, ¬ FinallyCrashes p.run () k
  ends : forever ∨ (∃ a, Finally p.run () a ()) ∨ ∃ e, FinallyFails p.run () e ()

namespace Safe

variable {forever : Prop} {p : Behavior ω κ ε α}

theorem pure (a : α) : Safe forever (Pure.pure a : Behavior ω κ ε α) where
  not_crashes _ := not_finallyCrashes_pure
  ends := .inr (.inl ⟨a, finally_pure_iff.mpr ⟨rfl, rfl⟩⟩)

theorem throw (e : ε) : Safe forever (throw e : Behavior ω κ ε α) where
  not_crashes _ := not_finallyCrashes_throw
  ends := .inr (.inr ⟨e, finallyFails_throw_iff.mpr ⟨rfl, rfl⟩⟩)

theorem ofExcept (r : Except ε α) : Safe forever (ofExcept r : Behavior ω κ ε α) := by
  cases r with
  | ok a => exact .pure a
  | error e => exact .throw e

theorem bind {f : α → Behavior ω κ ε β} (hp : p.Safe forever)
    (hf : ∀ a, Finally p.run () a () → (f a).Safe forever) : Safe forever (p >>= f) := by
  have hgrowing : ∀ a, Growing fun n => (f a).run n := fun a => (f a).growing
  constructor
  · intro k hk
    rcases (finallyCrashes_bind_iff p.growing hgrowing).mp hk with hk | ⟨a, _, ha, hk⟩
    · exact hp.not_crashes k hk
    · exact (hf a ha).not_crashes k hk
  · rcases hp.ends with hforever | ⟨a, ha⟩ | ⟨e, he⟩
    · exact .inl hforever
    · rcases (hf a ha).ends with hforever | ⟨b, hb⟩ | ⟨e, he⟩
      · exact .inl hforever
      · exact .inr (.inl ⟨b, (finally_bind_iff p.growing hgrowing).mpr ⟨a, (), ha, hb⟩⟩)
      · exact .inr (.inr ⟨e, (finallyFails_bind_iff p.growing hgrowing).mpr (.inr ⟨a, (), ha, he⟩)⟩)
    · exact .inr (.inr ⟨e, (finallyFails_bind_iff p.growing hgrowing).mpr (.inl he)⟩)

theorem map (g : α → β) (hp : p.Safe forever) : Safe forever (g <$> p) := by
  rw [map_eq_pure_bind]
  exact hp.bind fun a _ => .pure (g a)

theorem attempt (hp : p.Safe forever) : p.attempt.Safe forever where
  not_crashes k hk := hp.not_crashes k (finallyCrashes_attempt_iff.mp hk)
  ends := by
    rcases hp.ends with hforever | ⟨a, ha⟩ | ⟨e, he⟩
    · exact .inl hforever
    · exact .inr (.inl ⟨.ok a, finally_attempt_ok_iff.mpr ha⟩)
    · exact .inr (.inl ⟨.error e, finally_attempt_error_iff.mpr he⟩)

theorem mapError (g : ε → ε) (hp : p.Safe forever) : (p.mapError g).Safe forever where
  not_crashes k hk := hp.not_crashes k (finallyCrashes_mapError_iff.mp hk)
  ends := by
    rcases hp.ends with hforever | ⟨a, ha⟩ | ⟨e, he⟩
    · exact .inl hforever
    · exact .inr (.inl ⟨a, finally_mapError_iff.mpr ha⟩)
    · exact .inr (.inr ⟨g e, finallyFails_mapError_iff.mpr ⟨e, he, rfl⟩⟩)

theorem handle {ok : α → Behavior ω κ ε β} {err : ε → Behavior ω κ ε β} (hp : p.Safe forever)
    (hok : ∀ a, (ok a).Safe forever) (herr : ∀ e, (err e).Safe forever) : (p.handle ok err).Safe forever := by
  refine hp.attempt.bind fun r _ => ?_
  cases r with
  | ok a => exact hok a
  | error e => exact herr e

/-- A loop may go on forever, but it does not crash. By induction on the number of steps. -/
theorem loop {step : α → Behavior ω κ ε (α ⊕ β)} (hforever : forever) (hstep : ∀ a, (step a).Safe forever) (a : α) :
    (Behavior.loop step a).Safe forever where
  not_crashes := by
    rintro k ⟨n, hk⟩
    have hsteps : ∀ m a, (steps (fun a => (step a).run n) m a ()).2 ≠ .crash k := by
      intro m
      induction m with
      | zero => exact fun a => nofun
      | succ m ih =>
          intro a hcrash
          rcases bind_crash_iff.mp hcrash with hk | ⟨r, _, _, hk⟩
          · exact (hstep a).not_crashes k ⟨n, hk⟩
          · cases r with
            | inl a => exact ih a hk
            | inr b => cases hk
    exact hsteps n a hk
  ends := .inl hforever

end Safe

end Behavior

end GenC.Lib
