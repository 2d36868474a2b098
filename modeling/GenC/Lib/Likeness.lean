import Mathlib.Order.CompleteBooleanAlgebra
import Mathlib.Order.CompletePartialOrder
import GenC.Lib.Relator

/-!
# Runs in lockstep

Two runs from the same state that cannot be told apart by what they do: `Run.Alike I E R x y` says that
from every state in which `I` holds, `x` and `y` emit the same events, end in the same way and leave the
same state, in which `I` holds again. What they return is related by `R`, and their errors by `E`.

Unlike `Run.Agree` this says nothing about termination: where `x` crashes or runs out of fuel, `y` does.
-/

namespace GenC.Lib

variable {ω κ ε σ α β γ δ : Type}

/-- Two ends that are alike. -/
inductive Outcome.Alike (I : σ → Prop) (E : ε → ε → Prop) (R : α → β → Prop) :
    Outcome κ ε σ α → Outcome κ ε σ β → Prop where
  | ok {a : α} {b : β} {s : σ} (hs : I s) (h : R a b) : Alike I E R (.ok a s) (.ok b s)
  | error {e e' : ε} {s : σ} (hs : I s) (h : E e e') : Alike I E R (.error e s) (.error e' s)
  | crash {k : κ} : Alike I E R (.crash k) (.crash k)
  | outOfFuel : Alike I E R .outOfFuel .outOfFuel

namespace Run

/-- From every state in which `I` holds, `x` and `y` run alike. -/
def Alike (I : σ → Prop) (E : ε → ε → Prop) (R : α → β → Prop) (x : Run ω κ ε σ α)
    (y : Run ω κ ε σ β) : Prop :=
  ∀ s, I s → (x s).1 = (y s).1 ∧ Outcome.Alike I E R (x s).2 (y s).2

namespace Alike

variable {I : σ → Prop} {E : ε → ε → Prop} {R : α → β → Prop} {S : γ → δ → Prop}

theorem pure {a : α} {b : β} (h : R a b) :
    Alike I E R (Pure.pure a : Run ω κ ε σ α) (Pure.pure b) :=
  fun _ hs => ⟨rfl, .ok hs h⟩

theorem throw {e e' : ε} (h : E e e') :
    Alike I E R (Run.throw e : Run ω κ ε σ α) (Run.throw e' : Run ω κ ε σ β) :=
  fun _ hs => ⟨rfl, .error hs h⟩

theorem crash (k : κ) : Alike I E R (Run.crash k : Run ω κ ε σ α) (Run.crash k : Run ω κ ε σ β) :=
  fun _ _ => ⟨rfl, .crash⟩

theorem outOfFuel : Alike I E R (Run.outOfFuel : Run ω κ ε σ α) (Run.outOfFuel : Run ω κ ε σ β) :=
  fun _ _ => ⟨rfl, .outOfFuel⟩

theorem tell (w : ω) {R : Unit → Unit → Prop} (h : R () ()) :
    Alike I E R (Run.tell w : Run ω κ ε σ Unit) (Run.tell w) :=
  fun _ hs => ⟨rfl, .ok hs h⟩

theorem mono {x : Run ω κ ε σ α} {y : Run ω κ ε σ β} {E' : ε → ε → Prop} {R' : α → β → Prop}
    (h : Alike I E R x y) (hE : ∀ e e', E e e' → E' e e') (hR : ∀ a b, R a b → R' a b) :
    Alike I E' R' x y := by
  intro s hs
  obtain ⟨hlog, hend⟩ := h s hs
  refine ⟨hlog, ?_⟩
  generalize (x s).2 = o, (y s).2 = o' at hend ⊢
  cases hend with
  | ok ht h => exact .ok ht (hR _ _ h)
  | error ht h => exact .error ht (hE _ _ h)
  | crash => exact .crash
  | outOfFuel => exact .outOfFuel

/-- A run is like itself, where it keeps the invariant. -/
theorem refl {x : Run ω κ ε σ α} {R : α → α → Prop}
    (h : Triple I x (fun a s => I s ∧ R a a) fun e s => I s ∧ E e e) : Alike I E R x x := by
  intro s hs
  refine ⟨rfl, ?_⟩
  have hx := h s hs
  split at hx
  · next heq => exact heq ▸ .ok hx.1 hx.2
  · next heq => exact heq ▸ .error hx.1 hx.2
  · next heq => exact heq ▸ .crash
  · next heq => exact heq ▸ .outOfFuel

theorem ofExcept {r r' : Except ε α} {R : α → α → Prop} (h : match r, r' with
      | .ok a, .ok b => R a b
      | .error e, .error e' => E e e'
      | _, _ => False) :
    Alike I E R (Run.ofExcept r : Run ω κ ε σ α) (Run.ofExcept r') := by
  cases r <;> cases r'
  · exact .throw h
  · exact h.elim
  · exact h.elim
  · exact .pure h

theorem bind {x : Run ω κ ε σ α} {y : Run ω κ ε σ β} {f : α → Run ω κ ε σ γ} {g : β → Run ω κ ε σ δ}
    (hx : Alike I E R x y) (hf : ∀ a b, R a b → Alike I E S (f a) (g b)) :
    Alike I E S (x >>= f) (y >>= g) := by
  intro s hs
  obtain ⟨hlog, hend⟩ := hx s hs
  rcases hxs : x s with ⟨l, o⟩
  rcases hys : y s with ⟨l', o'⟩
  rw [hxs, hys] at hlog hend
  obtain rfl : l = l' := hlog
  rw [bind_apply, bind_apply, hxs, hys]
  cases hend with
  | @ok a b t ht h =>
      obtain ⟨hlog, hend⟩ := hf a b h t ht
      exact ⟨congrArg (l ++ ·) hlog, hend⟩
  | error ht h => exact ⟨rfl, .error ht h⟩
  | crash => exact ⟨rfl, .crash⟩
  | outOfFuel => exact ⟨rfl, .outOfFuel⟩

/-- Errors that are attempted are related as errors, and handed on as values. -/
theorem attempt {x : Run ω κ ε σ α} {y : Run ω κ ε σ β} (h : Alike I E R x y) :
    Alike I E (fun r r' => match r, r' with
      | .ok a, .ok b => R a b
      | .error e, .error e' => E e e'
      | _, _ => False) x.attempt y.attempt := by
  intro s hs
  obtain ⟨hlog, hend⟩ := h s hs
  rcases hxs : x s with ⟨l, o⟩
  rcases hys : y s with ⟨l', o'⟩
  rw [hxs, hys] at hlog hend
  obtain rfl : l = l' := hlog
  rw [Run.attempt, Run.attempt, hxs, hys]
  cases hend with
  | ok ht h => exact ⟨rfl, .ok ht h⟩
  | error ht h => exact ⟨rfl, .ok ht h⟩
  | crash => exact ⟨rfl, .crash⟩
  | outOfFuel => exact ⟨rfl, .outOfFuel⟩

/-- The errors may be rewritten differently on the two sides. -/
theorem mapError {x : Run ω κ ε σ α} {y : Run ω κ ε σ β} {f g : ε → ε} (h : Alike I E R x y)
    (hfg : ∀ e e', E e e' → E (f e) (g e')) : Alike I E R (x.mapError f) (y.mapError g) := by
  intro s hs
  obtain ⟨hlog, hend⟩ := h s hs
  rcases hxs : x s with ⟨l, o⟩
  rcases hys : y s with ⟨l', o'⟩
  rw [hxs, hys] at hlog hend
  obtain rfl : l = l' := hlog
  rw [Run.mapError, Run.mapError, hxs, hys]
  cases hend with
  | ok ht h => exact ⟨rfl, .ok ht h⟩
  | error ht h => exact ⟨rfl, .error ht (hfg _ _ h)⟩
  | crash => exact ⟨rfl, .crash⟩
  | outOfFuel => exact ⟨rfl, .outOfFuel⟩

/-- Where one returns, so does the other. -/
theorem of_returns {x : Run ω κ ε σ α} {y : Run ω κ ε σ β} (h : Alike I E R x y) {s s' : σ} {a : α}
    (hs : I s) (hx : Returns x s a s') : ∃ b, Returns y s b s' ∧ R a b := by
  obtain ⟨-, hend⟩ := h s hs
  obtain ⟨l, hl⟩ := hx
  rcases hys : y s with ⟨l', o⟩
  rw [hl, hys] at hend
  cases hend with
  | ok _ h => exact ⟨_, ⟨l', hys⟩, h⟩

theorem of_fails {x : Run ω κ ε σ α} {y : Run ω κ ε σ β} (h : Alike I E R x y) {s s' : σ} {e : ε}
    (hs : I s) (hx : Fails x s e s') : ∃ e', Fails y s e' s' ∧ E e e' := by
  obtain ⟨-, hend⟩ := h s hs
  obtain ⟨l, hl⟩ := hx
  rcases hys : y s with ⟨l', o⟩
  rw [hl, hys] at hend
  cases hend with
  | error _ h => exact ⟨_, ⟨l', hys⟩, h⟩

end Alike

end Run

/-- Runs in lockstep, as one of the ways in which runs are related. -/
def Relator.lockstep (ω κ : Type) (I : σ → Prop) (E : ε → ε → Prop) (hE : ∀ e, E e e) :
    Relator ω κ ε σ σ where
  World := Unit
  order := inferInstance
  Error := E
  Rel _ R x y := Run.Alike I E (R ()) x y
  error_refl := hE
  pure h := .pure (h () (le_refl _))
  bind hx hf := hx.bind (hf () (le_refl _))
  throw h := .throw h
  crash k := .crash k
  outOfFuel := .outOfFuel
  tell w := .tell w trivial
  attempt h := (h.attempt).mono (fun _ _ h => h) fun r r' h => by cases r <;> cases r' <;> exact h

end GenC.Lib
