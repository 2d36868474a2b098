import GenC.Lib.EndAlike

/-!
# Couplings

Two programs that do the same on states of different kinds. From states that are related they end alike: both
return, both fail with the same error, both crash in the same way, or both run out of fuel. What they return and
the states that they leave are related again, by a relation that may depend on all four.

There is one rule for each combinator. A coupling at every amount of fuel carries over to how the programs end
finally (`Couples.returns`, `Couples.fails`, `Couples.crashes`).
-/

namespace GenC.Lib

namespace Run

variable {ω κ ε σ τ α β γ δ : Type}

/-- How two programs end that are coupled. -/
inductive Coupled (Q : α → β → σ → τ → Prop) (E : σ → τ → Prop) :
    Outcome κ ε σ α → Outcome κ ε τ β → Prop where
  | ok {a b s t} (h : Q a b s t) : Coupled Q E (.ok a s) (.ok b t)
  | error {e s t} (h : E s t) : Coupled Q E (.error e s) (.error e t)
  | crash {k} : Coupled Q E (.crash k) (.crash k)
  | outOfFuel : Coupled Q E .outOfFuel .outOfFuel

/-- From states related by `P`, the programs end alike. -/
def Couples (P : σ → τ → Prop) (x : Run ω κ ε σ α) (y : Run ω κ ε τ β) (Q : α → β → σ → τ → Prop)
    (E : σ → τ → Prop) : Prop :=
  ∀ s t, P s t → Coupled Q E (x s).2 (y t).2

namespace Couples

variable {P P' : σ → τ → Prop} {Q Q' : α → β → σ → τ → Prop} {E E' : σ → τ → Prop} {x : Run ω κ ε σ α}
  {y : Run ω κ ε τ β}

theorem conseq (h : Couples P x y Q E) (hP : ∀ s t, P' s t → P s t) (hQ : ∀ a b s t, Q a b s t → Q' a b s t)
    (hE : ∀ s t, E s t → E' s t) : Couples P' x y Q' E' := by
  intro s t hst
  generalize (x s).2 = o, (y t).2 = o', h s t (hP s t hst) = hend
  cases hend with
  | ok h => exact .ok (hQ _ _ _ _ h)
  | error h => exact .error (hE _ _ h)
  | crash => exact .crash
  | outOfFuel => exact .outOfFuel

theorem pure {a : α} {b : β} (h : ∀ s t, P s t → Q a b s t) :
    Couples P (Pure.pure a : Run ω κ ε σ α) (Pure.pure b : Run ω κ ε τ β) Q E :=
  fun s t hst => .ok (h s t hst)

theorem throw (e : ε) (h : ∀ s t, P s t → E s t) :
    Couples P (Run.throw e : Run ω κ ε σ α) (Run.throw e : Run ω κ ε τ β) Q E :=
  fun s t hst => .error (h s t hst)

theorem bind {f : α → Run ω κ ε σ γ} {g : β → Run ω κ ε τ δ} {R : γ → δ → σ → τ → Prop}
    (h : Couples P x y Q E) (hfg : ∀ a b, Couples (Q a b) (f a) (g b) R E) :
    Couples P (x >>= f) (y >>= g) R E := by
  intro s t hst
  have hend := h s t hst
  rcases hx : x s with ⟨l, o⟩
  rcases hy : y t with ⟨l', o'⟩
  rw [hx, hy] at hend
  rw [bind_apply, bind_apply, hx, hy]
  cases hend with
  | ok h => exact hfg _ _ _ _ h
  | error h => exact .error h
  | crash => exact .crash
  | outOfFuel => exact .outOfFuel

/-- What is attempted fails on both sides, or on neither. -/
theorem attempt_bind {f : Except ε α → Run ω κ ε σ γ} {g : Except ε β → Run ω κ ε τ δ} {R : γ → δ → σ → τ → Prop}
    {F : σ → τ → Prop} (h : Couples P x y Q E) (hok : ∀ a b, Couples (Q a b) (f (.ok a)) (g (.ok b)) R F)
    (herror : ∀ e, Couples E (f (.error e)) (g (.error e)) R F) :
    Couples P (x.attempt >>= f) (y.attempt >>= g) R F := by
  intro s t hst
  have hend := h s t hst
  rcases hx : x s with ⟨l, o⟩
  rcases hy : y t with ⟨l', o'⟩
  rw [hx, hy] at hend
  rw [bind_apply, bind_apply, Run.attempt, Run.attempt, hx, hy]
  cases hend with
  | ok h => exact hok _ _ _ _ h
  | error h => exact herror _ _ _ h
  | crash => exact .crash
  | outOfFuel => exact .outOfFuel

/-- One side may do something more once it has ended. -/
theorem attempt_right {g : Except ε β → Run ω κ ε τ δ} {R : α → δ → σ → τ → Prop} {F : σ → τ → Prop}
    (h : Couples P x y Q E) (hok : ∀ a b, Couples (Q a b) (Pure.pure a) (g (.ok b)) R F)
    (herror : ∀ e, Couples E (Run.throw e) (g (.error e)) R F) : Couples P x (y.attempt >>= g) R F := by
  intro s t hst
  have hend := h s t hst
  rcases hx : x s with ⟨l, o⟩
  rcases hy : y t with ⟨l', o'⟩
  rw [hx, hy] at hend
  rw [bind_apply, Run.attempt, hy]
  cases hend with
  | ok h => exact hok _ _ _ _ h
  | error h => exact herror _ _ _ h
  | crash => exact .crash
  | outOfFuel => exact .outOfFuel

/-- A program may take a step of its own. -/
theorem bind_right {g : γ → Run ω κ ε τ β} {z : Run ω κ ε τ γ} {R : γ → σ → τ → Prop}
    (hz : ∀ s t, P s t → ∃ c t', Returns z t c t' ∧ R c s t') (h : ∀ c, Couples (R c) x (g c) Q E) :
    Couples P x (z >>= g) Q E := by
  intro s t hst
  obtain ⟨c, t', hreturns, hc⟩ := hz s t hst
  rw [hreturns.bind_end]
  exact h c s t' hc

/-- What is known besides the states may be used. -/
theorem of_fact {p : Prop} (hp : ∀ s t, P s t → p) (h : p → Couples P x y Q E) : Couples P x y Q E :=
  fun s t hst => h (hp s t hst) s t hst

theorem of_exists {ι : Type} {P : ι → σ → τ → Prop} (h : ∀ i, Couples (P i) x y Q E) :
    Couples (fun s t => ∃ i, P i s t) x y Q E := by
  rintro s t ⟨i, hst⟩
  exact h i s t hst

/-! ## With more and more fuel -/

section

variable {x : Nat → Run ω κ ε σ α} {y : Nat → Run ω κ ε τ β} {s s' : σ} {t t' : τ} {a : α} {b : β} {e : ε}
  (h : ∀ n, Couples P (x n) (y n) Q E) (hst : P s t)

include h hst

theorem returns (ha : Finally x s a s') : ∃ b t', Finally y t b t' ∧ Q a b s' t' := by
  obtain ⟨n, l, hl⟩ := ha
  have hend := h n s t hst
  rcases hy : y n t with ⟨l', o⟩
  rw [hl, hy] at hend
  cases hend with
  | ok hab => exact ⟨_, _, ⟨n, l', hy⟩, hab⟩

theorem of_returns (hb : Finally y t b t') : ∃ a s', Finally x s a s' ∧ Q a b s' t' := by
  obtain ⟨n, l, hl⟩ := hb
  have hend := h n s t hst
  rcases hx : x n s with ⟨l', o⟩
  rw [hl, hx] at hend
  cases hend with
  | ok hab => exact ⟨_, _, ⟨n, l', hx⟩, hab⟩

theorem fails (he : FinallyFails x s e s') : ∃ t', FinallyFails y t e t' ∧ E s' t' := by
  obtain ⟨n, l, hl⟩ := he
  have hend := h n s t hst
  rcases hy : y n t with ⟨l', o⟩
  rw [hl, hy] at hend
  cases hend with
  | error hs => exact ⟨_, ⟨n, l', hy⟩, hs⟩

theorem of_fails (he : FinallyFails y t e t') : ∃ s', FinallyFails x s e s' ∧ E s' t' := by
  obtain ⟨n, l, hl⟩ := he
  have hend := h n s t hst
  rcases hx : x n s with ⟨l', o⟩
  rw [hl, hx] at hend
  cases hend with
  | error hs => exact ⟨_, ⟨n, l', hx⟩, hs⟩

theorem crashes {k : κ} : FinallyCrashes x s k ↔ FinallyCrashes y t k := by
  refine exists_congr fun n => ?_
  generalize (x n s).2 = o, (y n t).2 = o', h n s t hst = hend
  cases hend <;> simp

end

end Couples

end Run

end GenC.Lib
