/-!
# Predicate transformers of steps

A step takes an argument and a state to a result and another state. It is specified by a predicate
transformer: for a postcondition, what has to hold of the argument and the state before. The transformers of
sequences of steps, of rounds whose steps can decide to end them, and of loops of such rounds are folds over
those of the steps.
-/

namespace GenC.Lib

/-- What has to hold of an argument and a state, so that `Q` holds of the result and the state after. -/
abbrev Transformer (α κ : Type) : Type := (α → κ → Prop) → α → κ → Prop

namespace Transformer

variable {α κ : Type}

/-- The steps one after another, each on what the one before it gave. -/
def serial : List (Transformer α κ) → Transformer α κ
  | [], Q => Q
  | T :: Ts, Q => T (serial Ts Q)

/-- The steps one after another. A result that is no decision replaces the argument; the decision `false`
keeps it, and `true` ends the round with it. The postcondition is told whether the round was ended. -/
def round (decision : α → Option Bool) : List (Transformer α κ) → (α → Bool → κ → Prop) → α → κ → Prop
  | [], Q, a, s => Q a false s
  | T :: Ts, Q, a, s =>
    T (fun r s' =>
      match decision r with
      | none => round decision Ts Q r s'
      | some true => Q a true s'
      | some false => round decision Ts Q a s') a s

/-- As many rounds, unless one of them is ended. -/
def rounds (decision : α → Option Bool) (Ts : List (Transformer α κ)) : Nat → Transformer α κ
  | 0, Q => Q
  | n + 1, Q => round decision Ts fun a ended s => if ended then Q a s else rounds decision Ts n Q a s

/-- A loop with an invariant: a round that is ended gets to `Q`, and any other to the invariant of the next. -/
theorem rounds_of_invariant {decision : α → Option Bool} {Ts : List (Transformer α κ)} {n : Nat}
    {I : Nat → α → κ → Prop} {Q : α → κ → Prop}
    (hround : ∀ k < n, ∀ a s, I k a s → ∀ R : α → Bool → κ → Prop, (∀ a s, Q a s → R a true s) →
      (∀ a s, I (k + 1) a s → R a false s) → round decision Ts R a s)
    (hend : ∀ a s, I n a s → Q a s) {a : α} {s : κ} (hstart : I 0 a s) : rounds decision Ts n Q a s := by
  -- the invariant holds from any round on, by induction on those that are left
  have hfrom : ∀ left k, k + left = n → ∀ a s, I k a s → rounds decision Ts left Q a s := by
    intro left
    induction left with
    | zero =>
        rintro k rfl a s h
        exact hend a s h
    | succ left ih =>
        intro k hk a s h
        refine hround k (by omega) a s h _ (fun a s hq => ?_) fun a s hi => ?_
        · exact hq
        · exact ih (k + 1) (by omega) a s hi
  exact hfrom n 0 (Nat.zero_add n) a s hstart

end Transformer

end GenC.Lib
