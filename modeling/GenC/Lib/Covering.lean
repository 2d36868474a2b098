import GenC.Lib.Coupling
import GenC.Lib.Growth
import GenC.Lib.Relator

/-!
# Covering what a program does

A program covers another one if it does what that one does, on a state of its own, unless the other one crashes.
Where it crashes nothing is asked: what runs in the background may crash later, or not be waited for at all.

As for couplings there is one rule for each combinator. With one relation of states for all of them, covering is a
`Relator`.
-/

namespace GenC.Lib

namespace Run

variable {ω κ ε σ τ α β γ δ : Type}

/-- How a program ends that covers another one. -/
inductive Covered (Q : α → β → σ → τ → Prop) (E : σ → τ → Prop) : Outcome κ ε σ α → Outcome κ ε τ β → Prop where
  | ok {a b s t} (h : Q a b s t) : Covered Q E (.ok a s) (.ok b t)
  | error {e s t} (h : E s t) : Covered Q E (.error e s) (.error e t)
  | crash {o k} : Covered Q E o (.crash k)
  | outOfFuel : Covered Q E .outOfFuel .outOfFuel

/-- From states related by `P`, the first program covers the second. -/
def Covers (P : σ → τ → Prop) (x : Run ω κ ε σ α) (y : Run ω κ ε τ β) (Q : α → β → σ → τ → Prop)
    (E : σ → τ → Prop) : Prop :=
  ∀ s t, P s t → Covered Q E (x s).2 (y t).2

namespace Covers

variable {P P' : σ → τ → Prop} {Q Q' : α → β → σ → τ → Prop} {E E' : σ → τ → Prop} {x : Run ω κ ε σ α}
  {y : Run ω κ ε τ β}

theorem conseq (h : Covers P x y Q E) (hP : ∀ s t, P' s t → P s t) (hQ : ∀ a b s t, Q a b s t → Q' a b s t)
    (hE : ∀ s t, E s t → E' s t) : Covers P' x y Q' E' := by
  intro s t hst
  generalize (x s).2 = o, (y t).2 = o', h s t (hP s t hst) = hend
  cases hend with
  | ok h => exact .ok (hQ _ _ _ _ h)
  | error h => exact .error (hE _ _ h)
  | crash => exact .crash
  | outOfFuel => exact .outOfFuel

theorem pure {a : α} {b : β} (h : ∀ s t, P s t → Q a b s t) :
    Covers P (Pure.pure a : Run ω κ ε σ α) (Pure.pure b : Run ω κ ε τ β) Q E :=
  fun s t hst => .ok (h s t hst)

theorem throw (e : ε) (h : ∀ s t, P s t → E s t) :
    Covers P (Run.throw e : Run ω κ ε σ α) (Run.throw e : Run ω κ ε τ β) Q E :=
  fun s t hst => .error (h s t hst)

theorem bind {f : α → Run ω κ ε σ γ} {g : β → Run ω κ ε τ δ} {R : γ → δ → σ → τ → Prop}
    (h : Covers P x y Q E) (hfg : ∀ a b, Covers (Q a b) (f a) (g b) R E) :
    Covers P (x >>= f) (y >>= g) R E := by
  intro s t hst
  have hend := h s t hst
  rcases hx : x s with ⟨l, o⟩
  rcases hy : y t with ⟨l', o'⟩
  rw [hx, hy] at hend
  rw [bind_apply, bind_apply, hx, hy]
  cases hend with
  | ok h => exact hfg _ _ _ _ h
  | error h => exact .error h
  | crash => exact .crash
  | outOfFuel => exact .outOfFuel

/-- Either side may do something more once it has returned or failed. -/
theorem attempt_bind {f : Except ε α → Run ω κ ε σ γ} {g : Except ε β → Run ω κ ε τ δ} {R : γ → δ → σ → τ → Prop}
    {F : σ → τ → Prop} (h : Covers P x y Q E) (hok : ∀ a b, Covers (Q a b) (f (.ok a)) (g (.ok b)) R F)
    (herror : ∀ e, Covers E (f (.error e)) (g (.error e)) R F) :
    Covers P (x.attempt >>= f) (y.attempt >>= g) R F := by
  intro s t hst
  have hend := h s t hst
  rcases hx : x s with ⟨l, o⟩
  rcases hy : y t with ⟨l', o'⟩
  rw [hx, hy] at hend
  rw [bind_apply, bind_apply, Run.attempt, Run.attempt, hx, hy]
  cases hend with
  | ok h => exact hok _ _ _ _ h
  | error h => exact herror _ _ _ h
  | crash => exact .crash
  | outOfFuel => exact .outOfFuel

/-- The first program may take a step of its own. -/
theorem bind_left {f : γ → Run ω κ ε σ α} {z : Run ω κ ε σ γ} {R : γ → σ → τ → Prop}
    (hz : ∀ s t, P s t → ∃ c s', Returns z s c s' ∧ R c s' t) (h : ∀ c, Covers (R c) (f c) y Q E) :
    Covers P (z >>= f) y Q E := by
  intro s t hst
  obtain ⟨c, s', hreturns, hc⟩ := hz s t hst
  rw [hreturns.bind_end]
  exact h c s' t hc

/-- Nothing is asked where the second program crashes. -/
theorem of_crash (h : ∀ s t, P s t → ∃ k, (y t).2 = .crash k) : Covers P x y Q E := by
  intro s t hst
  obtain ⟨k, hk⟩ := h s t hst
  rw [hk]
  exact .crash

/-- Runs that agree, the second of which ends. -/
theorem of_agree {lax : Prop} (h : Agree lax P x y Q E) (hends : Ends y) : Covers P x y Q E := by
  intro s t hst
  rcases h s t hst with ⟨a, b, s', t', ⟨l, hx⟩, ⟨l', hy⟩, hab⟩ | ⟨e, s', t', ⟨l, hx⟩, ⟨l', hy⟩, he⟩ |
    ⟨hstalls, -⟩
  · rw [hx, hy]
    exact .ok hab
  · rw [hx, hy]
    exact .error he
  · exact (hends.not_stalls t hstalls).elim

/-- What is known besides the states may be used. -/
theorem of_fact {p : Prop} (hp : ∀ s t, P s t → p) (h : p → Covers P x y Q E) : Covers P x y Q E :=
  fun s t hst => h (hp s t hst) s t hst

theorem of_exists {ι : Type} {P : ι → σ → τ → Prop} (h : ∀ i, Covers (P i) x y Q E) :
    Covers (fun s t => ∃ i, P i s t) x y Q E := by
  rintro s t ⟨i, hst⟩
  exact h i s t hst

/-- The first program may work on a part of its state. -/
theorem zoom {σ' : Type} {get : σ' → σ} {put : σ → σ' → σ'} (hget : ∀ s s', get (put s s') = s)
    (h : Covers P x y Q E) : Covers (fun s t => P (get s) t) (x.zoom get put) y
      (fun a b s t => Q a b (get s) t) fun s t => E (get s) t := by
  intro s t hst
  rw [Run.zoom]
  rcases hx : x (get s) with ⟨l, o⟩
  have hend := h (get s) t hst
  rw [hx] at hend
  generalize (y t).2 = o' at hend
  cases hend with
  | ok h => exact .ok ((hget _ _).symm ▸ h)
  | error h => exact .error ((hget _ _).symm ▸ h)
  | crash => exact .crash
  | outOfFuel => exact .outOfFuel

/-! ## With more and more fuel -/

section

variable {x : Nat → Run ω κ ε σ α} {y : Nat → Run ω κ ε τ β} {s s' : σ} {t t' : τ} {a : α} {b : β} {e : ε}
  (h : ∀ n, Covers P (x n) (y n) Q E) (hst : P s t)

include h hst

theorem returns (hb : Finally y t b t') : ∃ a s', Finally x s a s' ∧ Q a b s' t' := by
  obtain ⟨n, l, hb⟩ := hb
  have hend := h n s t hst
  rw [hb] at hend
  rcases hx : x n s with ⟨l', o⟩
  rw [hx] at hend
  cases hend with
  | ok hab => exact ⟨_, _, ⟨n, l', hx⟩, hab⟩

theorem fails (he : FinallyFails y t e t') : ∃ s', FinallyFails x s e s' ∧ E s' t' := by
  obtain ⟨n, l, he⟩ := he
  have hend := h n s t hst
  rw [he] at hend
  rcases hx : x n s with ⟨l', o⟩
  rw [hx] at hend
  cases hend with
  | error hab => exact ⟨_, ⟨n, l', hx⟩, hab⟩

variable (hcrash : ∀ n k, (y n t).2 ≠ .crash k)

include hcrash

/-- What a program returns that covers one that does not crash. -/
theorem of_returns (ha : Finally x s a s') : ∃ b t', Finally y t b t' ∧ Q a b s' t' := by
  obtain ⟨n, l, ha⟩ := ha
  have hend := h n s t hst
  have hnot := hcrash n
  rw [ha] at hend
  rcases hy : y n t with ⟨l', o⟩
  rw [hy] at hend hnot
  cases hend with
  | ok hab => exact ⟨_, _, ⟨n, l', hy⟩, hab⟩
  | crash => exact absurd rfl (hnot _)

theorem not_crashes (k : κ) : ¬ FinallyCrashes x s k := by
  rintro ⟨n, hk⟩
  have hend := h n s t hst
  have hnot := hcrash n
  rw [hk] at hend
  rcases hy : y n t with ⟨l, o⟩
  rw [hy] at hend hnot
  cases hend with
  | crash => exact hnot _ rfl

theorem of_fails (he : FinallyFails x s e s') : ∃ t', FinallyFails y t e t' ∧ E s' t' := by
  obtain ⟨n, l, he⟩ := he
  have hend := h n s t hst
  have hnot := hcrash n
  rw [he] at hend
  rcases hy : y n t with ⟨l', o⟩
  rw [hy] at hend hnot
  cases hend with
  | error hab => exact ⟨_, ⟨n, l', hy⟩, hab⟩
  | crash => exact absurd rfl (hnot _)

end

end Covers

end Run

/-- Covering, as one of the ways in which runs are related. -/
def Relator.covering (ω κ ε : Type) {σ τ : Type} (S : σ → τ → Prop) : Relator ω κ ε σ τ where
  World := Unit
  order := Run.anyOrder Unit
  Error := Eq
  Rel _ R x y := Run.Covers S x y (fun a b s t => R () a b ∧ S s t) S
  error_refl _ := rfl
  pure h := .pure fun _ _ hst => ⟨h () trivial, hst⟩
  bind hx hf := hx.bind fun a b => .of_fact (fun _ _ h => h.1) fun hab =>
    (hf () trivial a b hab).conseq (fun _ _ h => h.2) (fun _ _ _ _ h => h) fun _ _ h => h
  throw h := h ▸ .throw _ fun _ _ hst => hst
  crash k := .of_crash fun _ _ _ => ⟨k, rfl⟩
  outOfFuel := fun _ _ _ => .outOfFuel
  tell _ := fun _ _ hst => .ok ⟨trivial, hst⟩
  attempt {α β w R x y} h := by
    have hattempt : Run.Covers S (x.attempt >>= Pure.pure) (y.attempt >>= Pure.pure)
        (fun r r' s t => Except.Related Eq (R ()) r r' ∧ S s t) S :=
      h.attempt_bind (fun a b => .pure fun _ _ hab => hab) fun e => .pure fun _ _ hst => ⟨rfl, hst⟩
    rwa [bind_pure, bind_pure] at hattempt

end GenC.Lib
