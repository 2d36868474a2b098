import GenC.Flow.Action

/-!
# Laws of alternatives

Alternatives may be nested or flat: it makes no difference to what they do.
-/

namespace GenC

open Lib

namespace Action

variable {as : List Action}

/-- What was an answer, can be materialized again. -/
theorem answer_handle (a : Action) (d : Datum) (f : Datum → Meaning Datum) (err : Status → Meaning Datum) :
    (a.answer d).handle (fun r => r.shown >>= fun _ => f r) err = (a.answer d).handle f err := by
  unfold answer
  rw [Behavior.handle_bind, Behavior.handle_bind]
  refine congrArg (fun ok => (a.apply d).handle ok err) (funext fun r => ?_)
  rcases hr : r.outcome with e | w
  · simp only [Datum.shown, hr, Behavior.ofExcept_error, Behavior.throw_bind, Behavior.handle_throw]
  · simp only [Datum.shown, hr, Behavior.ofExcept_ok, pure_bind, Behavior.handle_pure]

theorem firstOf_shown (e : Status) (as : List Action) (d : Datum) :
    (firstOf e as d >>= fun r => r.shown >>= fun _ => pure r) = firstOf e as d := by
  induction as generalizing e with
  | nil => exact Behavior.throw_bind e _
  | cons a as ih =>
      rw [firstOf, Behavior.handle_then]
      simp only [pure_bind, ih]
      exact answer_handle a d pure fun e => firstOf e as d

/-- The alternatives as one: it answers with what they give. -/
theorem answer_firstOf (e : Status) (as : List Action) (d : Datum) :
    (⟨pure (), firstOf e as⟩ : Action).answer d = firstOf e as d := by
  rw [answer, apply, pure_bind]
  exact firstOf_shown e as d

theorem firstOf_append (e : Status) (as bs : List Action) (d : Datum) :
    firstOf e (as ++ bs) d = (firstOf e as d).handle pure fun e' => firstOf e' bs d := by
  induction as generalizing e with
  | nil => rfl
  | cons a as ih =>
      rw [List.cons_append, firstOf, firstOf, Behavior.handle_handle]
      exact congrArg (Behavior.handle (a.answer d) pure) (funext ih)

/-- The error to begin with is only seen where there are no alternatives. -/
theorem firstOf_start (has : as ≠ []) (e e' : Status) (d : Datum) : firstOf e as d = firstOf e' as d := by
  cases as with
  | nil => exact (has rfl).elim
  | cons a as => rfl

/-- Each of the alternatives may itself be alternatives, but not none. -/
theorem firstOf_flatten {bss : List (List Action)} (h : List.Forall₂ (fun a bs => bs ≠ [] ∧
      ∀ e d, a.answer d = firstOf e bs d) as bss) (e : Status) (d : Datum) :
    firstOf e as d = firstOf e bss.flatten d := by
  induction h generalizing e with
  | nil => rfl
  | cons hbs _ ih =>
      rw [firstOf, hbs.2 e d, List.flatten_cons, firstOf_append]
      exact congrArg (Behavior.handle (firstOf e _ d) pure) (funext ih)

/-- Asking for the result twice is asking for it once. -/
theorem answer_shown (a : Action) (d : Datum) : a.answer d >>= Datum.shown = a.apply d >>= Datum.shown := by
  rw [answer, bind_assoc]
  refine congrArg (a.apply d >>= ·) (funext fun r => ?_)
  rw [bind_assoc]
  rcases hr : r.outcome with e | w
  · simp only [Datum.shown, hr, Behavior.ofExcept_error, Behavior.throw_bind]
  · simp only [Datum.shown, hr, Behavior.ofExcept_ok, pure_bind]

end Action

end GenC
