import GenC.Lib.Run

/-!
# Histories of calls

An object that is called again and again keeps its state from one call to the next, also from one that
failed. `history call s inputs` lists the calls, each with the state it started from, what it showed and
how it ended; it stops at a call from which the process does not come back.

`forall_history`: what every call keeps and shows as long as a condition on its input and on the state before
it is met, is shown all along a history whose calls all meet the condition.
-/

namespace GenC.Lib

/-- One call of a history. -/
structure Turn (ι ω κ ε σ α : Type) where
  input : ι
  before : σ
  events : List ω
  outcome : Outcome κ ε σ α

/-- The state from which the next call starts. -/
def Outcome.state {κ ε σ α : Type} : Outcome κ ε σ α → Option σ
  | .ok _ s => some s
  | .error _ s => some s
  | .crash _ => none
  | .outOfFuel => none

variable {ι ω κ ε σ α : Type}

/-- A run that comes back leaves a state. -/
theorem Run.state_of_attempt {x : Run ω κ ε σ α} {s s' : σ} {l : List ω} {r : Except ε α}
    (h : x.attempt s = (l, .ok r s')) : (x s).1 = l ∧ (x s).2.state = some s' := by
  unfold Run.attempt at h
  rcases hx : x s with ⟨l', a | e | k | _⟩ <;> simp_all [Outcome.state]

/-- A single call. -/
def turn (call : ι → Run ω κ ε σ α) (s : σ) (input : ι) : Turn ι ω κ ε σ α :=
  ⟨input, s, (call input s).1, (call input s).2⟩

def history (call : ι → Run ω κ ε σ α) : σ → List ι → List (Turn ι ω κ ε σ α)
  | _, [] => []
  | s, input :: inputs =>
      turn call s input ::
        match (call input s).2.state with
        | some s' => history call s' inputs
        | none => []

section

variable {call : ι → Run ω κ ε σ α} {I : σ → Prop} {C : ι → σ → Prop}
  {P : Turn ι ω κ ε σ α → Prop}

/-- The head of a history shows `P`. -/
theorem head_of_forall_history {s : σ} {input : ι} {inputs : List ι}
    (h : ∀ t ∈ history call s (input :: inputs), P t) : P (turn call s input) :=
  h _ List.mem_cons_self

/-- The rest of a history starts from the state that the first call leaves. -/
theorem forall_history_cons {s s' : σ} {input : ι} {inputs : List ι}
    (hstate : (call input s).2.state = some s') :
    (∀ t ∈ history call s (input :: inputs), P t) ↔
      P (turn call s input) ∧ ∀ t ∈ history call s' inputs, P t := by
  rw [history, List.forall_mem_cons, hstate]

theorem forall_history
    (hstep : ∀ input s, I s → C input s →
      P (turn call s input) ∧ ∀ s', (call input s).2.state = some s' → I s')
    {s : σ} (hs : I s) {inputs : List ι}
    (hall : ∀ t ∈ history call s inputs, C t.input t.before) :
    ∀ t ∈ history call s inputs, P t := by
  induction inputs generalizing s with
  | nil => simp [history]
  | cons input inputs ih =>
      rw [history, List.forall_mem_cons] at hall ⊢
      obtain ⟨hP, hI⟩ := hstep input s hs hall.1
      refine ⟨hP, ?_⟩
      -- a call without a state after it is the last one
      cases hstate : (call input s).2.state with
      | none => simp
      | some s' =>
          rw [hstate] at hall
          exact ih (hI s' hstate) hall.2

end

end GenC.Lib
