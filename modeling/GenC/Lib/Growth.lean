import Mathlib.Order.Monotone.Defs
import GenC.Lib.Run

/-!
# Growing states

States that are ordered by growth, and facts about results that growth does not undo.
`Run.Yields allowed s₀ x Q` says that from every state above `s₀` the run only grows the state, also when
it fails, that what it returns satisfies `Q` where it is returned, and that it crashes only as `allowed`.

Quantifying over the states above `s₀` makes the predicate monotone, so that what is known at the start
of a program is known at each of its steps.
-/

namespace GenC.Lib.Run

variable {ω κ ε σ α β : Type} [Preorder σ]

/-- From every state above `s₀` the run grows the state, what it returns satisfies `Q`, and a crash is
`allowed`. -/
def Yields (allowed : κ → Prop) (s₀ : σ) (x : Run ω κ ε σ α) (Q : α → σ → Prop) : Prop :=
  ∀ s, s₀ ≤ s → match (x s).2 with
    | .ok a s' => s ≤ s' ∧ Q a s'
    | .error _ s' => s ≤ s'
    | .crash k => allowed k
    | .outOfFuel => True

namespace Yields

variable {allowed : κ → Prop} {s₀ s₁ : σ} {Q Q' : α → σ → Prop} {R : β → σ → Prop}

theorem mono {x : Run ω κ ε σ α} (h : Yields allowed s₀ x Q) (hs : s₀ ≤ s₁) :
    Yields allowed s₁ x Q :=
  fun s hs₁ => h s (hs.trans hs₁)

theorem pure {a : α} (h : ∀ s, s₀ ≤ s → Q a s) :
    Yields allowed s₀ (Pure.pure a : Run ω κ ε σ α) Q :=
  fun s hs => ⟨le_refl s, h s hs⟩

theorem throw (e : ε) : Yields allowed s₀ (Run.throw e : Run ω κ ε σ α) Q := fun s _ => le_refl s

theorem crash {k : κ} (h : allowed k) : Yields allowed s₀ (Run.crash k : Run ω κ ε σ α) Q :=
  fun _ _ => h

theorem outOfFuel : Yields allowed s₀ (Run.outOfFuel : Run ω κ ε σ α) Q := fun _ _ => trivial

theorem ofExcept {r : Except ε α} (h : ∀ a, r = .ok a → ∀ s, s₀ ≤ s → Q a s) :
    Yields allowed s₀ (Run.ofExcept r : Run ω κ ε σ α) Q := by
  cases r with
  | ok a => exact .pure (h a rfl)
  | error e => exact .throw e

theorem tell (w : ω) : Yields allowed s₀ (Run.tell w : Run ω κ ε σ Unit) fun _ _ => True :=
  fun s _ => ⟨le_refl s, trivial⟩

/-- What follows a result starts above the state it was returned in. -/
theorem bind {x : Run ω κ ε σ α} {f : α → Run ω κ ε σ β} (hx : Yields allowed s₀ x Q)
    (hf : ∀ s₁, s₀ ≤ s₁ → ∀ a, Q a s₁ → Yields allowed s₁ (f a) R) :
    Yields allowed s₀ (x >>= f) R := by
  intro s hs
  have h := hx s hs
  rcases hxs : x s with ⟨l, a | e | k | _⟩ <;> rw [hxs] at h
  case ok s₁ =>
    have h' := hf s₁ (hs.trans h.1) a h.2 s₁ (le_refl s₁)
    rw [bind_ok hxs]
    rcases hfs : f a s₁ with ⟨l', b | e | k | _⟩ <;> rw [hfs] at h'
    · exact ⟨h.1.trans h'.1, h'.2⟩
    · exact h.1.trans h'
    · exact h'
    · trivial
  case error => rw [bind_error hxs]; exact h
  case crash => rw [bind_crash hxs]; exact h
  case outOfFuel => rw [bind_outOfFuel hxs]; trivial

theorem attempt {x : Run ω κ ε σ α} (hx : Yields allowed s₀ x Q) :
    Yields allowed s₀ x.attempt fun r s => ∀ a, r = .ok a → Q a s := by
  intro s hs
  have h := hx s hs
  rcases hxs : x s with ⟨l, a | e | k | _⟩ <;> simp only [Run.attempt, hxs] <;> rw [hxs] at h
  · exact ⟨h.1, by rintro _ ⟨⟩; exact h.2⟩
  · exact ⟨h, by rintro _ ⟨⟩⟩
  · exact h

theorem mapError {x : Run ω κ ε σ α} (f : ε → ε) (hx : Yields allowed s₀ x Q) :
    Yields allowed s₀ (x.mapError f) Q := by
  intro s hs
  have h := hx s hs
  rcases hxs : x s with ⟨l, a | e | k | _⟩ <;> simp only [Run.mapError, hxs] <;> rw [hxs] at h <;>
    exact h

/-- A run that ends from every state above `s₀` as it should. -/
theorem of_ends {x : Run ω κ ε σ α} (h : ∀ s, s₀ ≤ s →
    (∃ a s', Returns x s a s' ∧ s ≤ s' ∧ Q a s') ∨ ∃ e s', Fails x s e s' ∧ s ≤ s') :
    Yields allowed s₀ x Q := by
  intro s hs
  rcases h s hs with ⟨a, s', ⟨l, hl⟩, hle, ha⟩ | ⟨e, s', ⟨l, hl⟩, hle⟩
  · rw [hl]
    exact ⟨hle, ha⟩
  · rw [hl]
    exact hle

/-- Where crashes do not matter. -/
theorem of_triple {x : Run ω κ ε σ α} (hallowed : ∀ k, allowed k) (h : ∀ s, s₀ ≤ s →
    Triple (· = s) x (fun a s' => s ≤ s' ∧ Q a s') (fun _ s' => s ≤ s')) : Yields allowed s₀ x Q := by
  intro s hs
  have hx := h s hs s rfl
  rcases hxs : x s with ⟨l, a | e | k | _⟩ <;> rw [hxs] at hx
  · exact hx
  · exact hx
  · exact hallowed k
  · trivial

/-- What is returned, from a state above `s₀`. -/
theorem of_returns {x : Run ω κ ε σ α} (h : Yields allowed s₀ x Q) {s s' : σ} {a : α} (hs : s₀ ≤ s)
    (hx : Returns x s a s') : s ≤ s' ∧ Q a s' := by
  obtain ⟨l, hl⟩ := hx
  have := h s hs
  rw [hl] at this
  exact this

theorem of_fails {x : Run ω κ ε σ α} (h : Yields allowed s₀ x Q) {s s' : σ} {e : ε} (hs : s₀ ≤ s)
    (hx : Fails x s e s') : s ≤ s' := by
  obtain ⟨l, hl⟩ := hx
  have hend := h s hs
  rw [hl] at hend
  exact hend

end Yields

/-- The order for when growth does not matter: every state is above every other. -/
@[reducible] def anyOrder (σ : Type) : Preorder σ where
  le _ _ := True
  le_refl _ := trivial
  le_trans _ _ _ _ _ := trivial

end GenC.Lib.Run
