import Mathlib.Logic.Relation
import Mathlib.Order.WellFounded

/-!
# Transition systems

Initial states and a step relation; every interleaving of the parties of a concurrent program is a
path of steps.

* `System.Reachable` and `System.Inductive` — invariants, by one step at a time.
* `Execution` — one run, with the states it goes through in order. A run may stutter, so a finite run
  is one that stutters for ever. `Execution.first_change` finds the step at which something became true.
-/

namespace GenC.Lib

variable {σ : Type}

structure System (σ : Type) where
  init : σ → Prop
  step : σ → σ → Prop

namespace System

variable (S : System σ)

inductive Reachable : σ → Prop where
  | init {s} : S.init s → Reachable s
  | step {s s'} : Reachable s → S.step s s' → Reachable s'

/-- `I` holds to begin with, and every step keeps it. -/
structure Inductive (I : σ → Prop) : Prop where
  init : ∀ {s}, S.init s → I s
  step : ∀ {s s'}, I s → S.step s s' → I s'

variable {S}

/-- An inductive property is an invariant. -/
theorem Inductive.reachable {I : σ → Prop} (h : S.Inductive I) {s : σ} (hs : S.Reachable s) : I s := by
  induction hs with
  | init hinit => exact h.init hinit
  | step _ hstep ih => exact h.step ih hstep

/-- Another invariant may be used to show that a property is inductive. -/
theorem Reachable.induction {I J : σ → Prop} (hI : S.Inductive I) (hinit : ∀ s, S.init s → J s)
    (hstep : ∀ s s', I s → I s' → J s → S.step s s' → J s') {s : σ} (hs : S.Reachable s) : J s := by
  have hboth : S.Inductive fun s => I s ∧ J s :=
    { init := fun h => ⟨hI.init h, hinit _ h⟩
      step := fun h h' => ⟨hI.step h.1 h', hstep _ _ h.1 (hI.step h.1 h') h.2 h'⟩ }
  exact (hboth.reachable hs).2

theorem Reachable.trans {s s' : σ} (hs : S.Reachable s) (h : Relation.ReflTransGen S.step s s') :
    S.Reachable s' := by
  induction h with
  | refl => exact hs
  | tail _ hstep ih => exact .step ih hstep

/-- Where only finitely many steps can follow each other, there is a state from which none can. -/
theorem exists_stuck (hwf : WellFounded fun s' s => S.step s s') {s : σ} (hs : S.Reachable s) :
    ∃ s', S.Reachable s' ∧ ∀ s'', ¬S.step s' s'' := by
  obtain ⟨s', hs', hmin⟩ := hwf.has_min {s | S.Reachable s} ⟨s, hs⟩
  exact ⟨s', hs', fun s'' hstep => hmin s'' (Reachable.step hs' hstep) hstep⟩

end System

/-! ## Runs -/

/-- A run, step by step. It may stutter. -/
structure Execution (S : System σ) where
  state : Nat → σ
  init : S.init (state 0)
  step : ∀ i, state (i + 1) = state i ∨ S.step (state i) (state (i + 1))

namespace Execution

variable {S : System σ} (ρ : Execution S)

theorem reachable (i : Nat) : S.Reachable (ρ.state i) := by
  induction i with
  | zero => exact .init ρ.init
  | succ i ih =>
      rcases ρ.step i with heq | hstep
      · rw [heq]
        exact ih
      · exact .step ih hstep

theorem invariant {I : σ → Prop} (h : S.Inductive I) (i : Nat) : I (ρ.state i) :=
  h.reachable (ρ.reachable i)

/-- What holds after `j` steps and not to begin with, became true at some step in between. -/
theorem first_change {P : σ → Prop} {j : Nat} (h₀ : ¬P (ρ.state 0)) (hj : P (ρ.state j)) :
    ∃ i < j, ¬P (ρ.state i) ∧ P (ρ.state (i + 1)) ∧ S.step (ρ.state i) (ρ.state (i + 1)) := by
  induction j with
  | zero => exact (h₀ hj).elim
  | succ j ih =>
      by_cases hprev : P (ρ.state j)
      · obtain ⟨i, hi, h⟩ := ih hprev
        exact ⟨i, Nat.lt_succ_of_lt hi, h⟩
      · rcases ρ.step j with heq | hstep
        · rw [heq] at hj
          exact (hprev hj).elim
        · exact ⟨j, Nat.lt_succ_self j, hprev, hj, hstep⟩

end Execution

/-! ## Systems of many parties

The parties are kept in a list, by number. A step adds one or changes one. -/

section Parties

variable {α : Type} {l : List α} {a b : α} {i j : Nat}

/-- With one more party, a party is an old one or the new one. -/
theorem of_getElem?_concat (h : (l ++ [a])[i]? = some b) :
    l[i]? = some b ∨ (i = l.length ∧ b = a) := by
  grind

theorem getElem?_concat_of_some (h : l[i]? = some b) : (l ++ [a])[i]? = some b := by
  rw [List.getElem?_append_left (List.getElem?_eq_some_iff.mp h).1]
  exact h

/-- With one party changed, a party is that one or another as it was. -/
theorem of_getElem?_set (h : (l.set i a)[j]? = some b) :
    (j = i ∧ b = a) ∨ (j ≠ i ∧ l[j]? = some b) := by
  grind

theorem getElem?_set_of_ne (hne : j ≠ i) (h : l[j]? = some b) : (l.set i a)[j]? = some b := by
  rw [List.getElem?_set_ne hne.symm]
  exact h

theorem getElem?_set_of_some (h : l[i]? = some b) : (l.set i a)[i]? = some a := by
  rw [List.getElem?_set_self (List.getElem?_eq_some_iff.mp h).1]

theorem getElem?_lt (h : l[i]? = some b) : i < l.length := (List.getElem?_eq_some_iff.mp h).1

end Parties

end GenC.Lib
