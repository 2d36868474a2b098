import Mathlib.Order.Basic

/-!
# Runs: stateful computations that can fail, crash or run out of fuel

A `Run ω κ ε σ α` maps a state to the events it emitted and to the way it ended:

* `ok a s` — a value and the state left behind;
* `error e s` — an ordinary error. The state survives it, so a caller may go on from there;
* `crash k` — the process is gone (undefined behaviour, an abort). Nothing survives but the events;
* `outOfFuel` — the fuel of an evaluator was not enough. It says nothing about the program.

Five ways of reasoning about runs are developed here, each with one rule per combinator:

* `Run.Le` — the flat order in which `outOfFuel` lies below everything. An evaluator defined by
  iterating a monotone functional is monotone in its fuel, and `Run.Converges` is what it ends with
  given enough of it.
* `Run.Returns` — total correctness from one state: the run ends with a value.
* `Run.Triple` — partial correctness, with a postcondition for each of the two ordinary endings.
* `Run.Guarded` — a crash is never silent: some event of the run is at fault for it, and an event that is at
  fault does lead to a crash.
* `Run.Agree` — two runs on related states: both return, or both fail alike, or neither ends.
-/

namespace GenC.Lib

/-! ## Exceptions -/

@[simp] theorem ok_bind {ε α β : Type} (a : α) (f : α → Except ε β) : (.ok a >>= f) = f a := rfl

/-- What succeeds, succeeds step by step. -/
theorem ok_of_bind {ε α β : Type} {x : Except ε α} {f : α → Except ε β} {b : β}
    (h : (x >>= f) = .ok b) : ∃ a, x = .ok a ∧ f a = .ok b := by
  cases x with
  | error e => cases h
  | ok a => exact ⟨a, rfl, h⟩

/-! ## Endings -/

/-- How a run ends. -/
inductive Outcome (κ ε σ α : Type) where
  | ok (a : α) (s : σ)
  | error (e : ε) (s : σ)
  | crash (k : κ)
  | outOfFuel
  deriving Repr, DecidableEq

/-- The run returned. -/
def Outcome.isOk {κ ε σ α : Type} : Outcome κ ε σ α → Bool
  | .ok _ _ => true
  | _ => false

/-- The events of a run, and its end. -/
def Run (ω κ ε σ α : Type) : Type := σ → List ω × Outcome κ ε σ α

namespace Run

variable {ω κ ε σ τ α β γ δ : Type}

/-! ## Combinators -/

protected def pure (a : α) : Run ω κ ε σ α := fun s => ([], .ok a s)

protected def bind (x : Run ω κ ε σ α) (f : α → Run ω κ ε σ β) : Run ω κ ε σ β := fun s =>
  match x s with
  | (l, .ok a s') => (l ++ (f a s').1, (f a s').2)
  | (l, .error e s') => (l, .error e s')
  | (l, .crash k) => (l, .crash k)
  | (l, .outOfFuel) => (l, .outOfFuel)

instance : Monad (Run ω κ ε σ) where
  pure := Run.pure
  bind := Run.bind

/-- End with an error. -/
def throw (e : ε) : Run ω κ ε σ α := fun s => ([], .error e s)

/-- End the process. -/
def crash (k : κ) : Run ω κ ε σ α := fun _ => ([], .crash k)

/-- Give up for want of fuel. -/
def outOfFuel : Run ω κ ε σ α := fun _ => ([], .outOfFuel)

/-- Emit an event. -/
def tell (w : ω) : Run ω κ ε σ Unit := fun s => ([w], .ok () s)

/-- Run `x` and hand its error, if any, to the continuation as a value. -/
def attempt (x : Run ω κ ε σ α) : Run ω κ ε σ (Except ε α) := fun s =>
  match x s with
  | (l, .ok a s') => (l, .ok (.ok a) s')
  | (l, .error e s') => (l, .ok (.error e) s')
  | (l, .crash k) => (l, .crash k)
  | (l, .outOfFuel) => (l, .outOfFuel)

/-- Rewrite the error, if there is one. -/
def mapError (f : ε → ε) (x : Run ω κ ε σ α) : Run ω κ ε σ α := fun s =>
  match x s with
  | (l, .error e s') => (l, .error (f e) s')
  | r => r

/-- A step that reads and replaces the whole state and may fail. -/
def step (f : σ → Except ε α × σ) : Run ω κ ε σ α := fun s =>
  match f s with
  | (.ok a, s') => ([], .ok a s')
  | (.error e, s') => ([], .error e s')

/-- The value or the error, with the state untouched. -/
def ofExcept (r : Except ε α) : Run ω κ ε σ α := step fun s => (r, s)

/-- Run a computation on a part of a larger state. -/
def zoom (get : τ → σ) (set : σ → τ → τ) (x : Run ω κ ε σ α) : Run ω κ ε τ α := fun t =>
  match x (get t) with
  | (l, .ok a s') => (l, .ok a (set s' t))
  | (l, .error e s') => (l, .error e (set s' t))
  | (l, .crash k) => (l, .crash k)
  | (l, .outOfFuel) => (l, .outOfFuel)

/-! ## Unfolding -/

@[simp] theorem pure_apply (a : α) (s : σ) :
    (pure a : Run ω κ ε σ α) s = ([], .ok a s) := rfl

theorem bind_apply (x : Run ω κ ε σ α) (f : α → Run ω κ ε σ β) (s : σ) :
    (x >>= f) s = match x s with
      | (l, .ok a s') => (l ++ (f a s').1, (f a s').2)
      | (l, .error e s') => (l, .error e s')
      | (l, .crash k) => (l, .crash k)
      | (l, .outOfFuel) => (l, .outOfFuel) := rfl

theorem bind_ok {x : Run ω κ ε σ α} {f : α → Run ω κ ε σ β} {s s' : σ} {a : α} {l : List ω}
    (h : x s = (l, .ok a s')) : (x >>= f) s = (l ++ (f a s').1, (f a s').2) := by
  rw [bind_apply, h]

theorem bind_error {x : Run ω κ ε σ α} {f : α → Run ω κ ε σ β} {s s' : σ} {e : ε} {l : List ω}
    (h : x s = (l, .error e s')) : (x >>= f) s = (l, .error e s') := by
  rw [bind_apply, h]

theorem bind_crash {x : Run ω κ ε σ α} {f : α → Run ω κ ε σ β} {s : σ} {k : κ} {l : List ω}
    (h : x s = (l, .crash k)) : (x >>= f) s = (l, .crash k) := by
  rw [bind_apply, h]

theorem bind_outOfFuel {x : Run ω κ ε σ α} {f : α → Run ω κ ε σ β} {s : σ} {l : List ω}
    (h : x s = (l, .outOfFuel)) : (x >>= f) s = (l, .outOfFuel) := by
  rw [bind_apply, h]

theorem bind_end_crash {x : Run ω κ ε σ α} {f : α → Run ω κ ε σ β} {s : σ} {k : κ}
    (h : (x s).2 = .crash k) : ((x >>= f) s).2 = .crash k :=
  congrArg Prod.snd (@bind_crash _ _ _ _ _ _ x f s k (x s).1 (Prod.ext rfl h))

theorem bind_end_outOfFuel {x : Run ω κ ε σ α} {f : α → Run ω κ ε σ β} {s : σ}
    (h : (x s).2 = .outOfFuel) : ((x >>= f) s).2 = .outOfFuel :=
  congrArg Prod.snd (@bind_outOfFuel _ _ _ _ _ _ x f s (x s).1 (Prod.ext rfl h))

theorem attempt_end_crash {x : Run ω κ ε σ α} {s : σ} {k : κ} (h : (x s).2 = .crash k) :
    (x.attempt s).2 = .crash k := by
  have hx : x s = ((x s).1, .crash k) := Prod.ext rfl h
  rw [attempt, hx]

theorem attempt_end_outOfFuel {x : Run ω κ ε σ α} {s : σ} (h : (x s).2 = .outOfFuel) :
    (x.attempt s).2 = .outOfFuel := by
  have hx : x s = ((x s).1, .outOfFuel) := Prod.ext rfl h
  rw [attempt, hx]

theorem attempt_crash {x : Run ω κ ε σ α} {s : σ} {k : κ} {l : List ω} (h : x s = (l, .crash k)) :
    x.attempt s = (l, .crash k) := by
  rw [attempt, h]

@[simp] theorem throw_apply (e : ε) (s : σ) :
    (throw e : Run ω κ ε σ α) s = ([], .error e s) := rfl

@[simp] theorem crash_apply (k : κ) (s : σ) :
    (crash k : Run ω κ ε σ α) s = ([], .crash k) := rfl

@[simp] theorem outOfFuel_apply (s : σ) :
    (outOfFuel : Run ω κ ε σ α) s = ([], .outOfFuel) := rfl

@[simp] theorem tell_apply (w : ω) (s : σ) :
    (tell w : Run ω κ ε σ Unit) s = ([w], .ok () s) := rfl

@[simp] theorem ofExcept_ok (a : α) : (ofExcept (.ok a) : Run ω κ ε σ α) = pure a := rfl

@[simp] theorem ofExcept_error (e : ε) : (ofExcept (.error e) : Run ω κ ε σ α) = throw e := rfl

theorem id_map_eq (x : Run ω κ ε σ α) : id <$> x = x := by
  funext s
  show (x >>= fun a => pure a) s = x s
  rw [bind_apply]
  rcases h : x s with ⟨l, a | e | k | _⟩ <;> simp

theorem pure_bind_eq (a : α) (f : α → Run ω κ ε σ β) : pure a >>= f = f a := by
  funext s
  show ((pure a : Run ω κ ε σ α) >>= f) s = f a s
  rw [bind_apply]
  simp

theorem bind_assoc_eq (x : Run ω κ ε σ α) (f : α → Run ω κ ε σ β) (g : β → Run ω κ ε σ γ) :
    x >>= f >>= g = x >>= fun a => f a >>= g := by
  funext s
  simp only [bind_apply]
  rcases h : x s with ⟨l, a | e | k | _⟩ <;> simp only
  rcases h' : f a _ with ⟨l', b | e | k | _⟩ <;> simp

instance : LawfulMonad (Run ω κ ε σ) := LawfulMonad.mk' _ id_map_eq pure_bind_eq bind_assoc_eq

/-! ## The flat order

`x ⊑ y` when `y` does whatever `x` does, wherever `x` has enough fuel. -/

/-- `y` agrees with `x` on every state from which `x` does not run out of fuel. -/
def Le (x y : Run ω κ ε σ α) : Prop := ∀ s, (x s).2 = .outOfFuel ∨ x s = y s

namespace Le

theorem refl (x : Run ω κ ε σ α) : Le x x := fun _ => .inr rfl

theorem outOfFuel_le (y : Run ω κ ε σ α) : Le outOfFuel y := fun _ => .inl rfl

theorem trans {x y z : Run ω κ ε σ α} (hxy : Le x y) (hyz : Le y z) : Le x z := by
  intro s
  rcases hxy s with h | h
  · exact .inl h
  · rcases hyz s with h' | h'
    · exact .inl (by rw [h]; exact h')
    · exact .inr (h.trans h')

/-- What `x` returns, `y` returns. -/
theorem eq_of_ne {x y : Run ω κ ε σ α} (h : Le x y) {s : σ} (hs : (x s).2 ≠ .outOfFuel) :
    y s = x s :=
  ((h s).resolve_left hs).symm

theorem bind {x y : Run ω κ ε σ α} {f g : α → Run ω κ ε σ β}
    (hx : Le x y) (hf : ∀ a, Le (f a) (g a)) : Le (x >>= f) (y >>= g) := by
  intro s
  rcases hx s with h | h
  · left
    rcases hxs : x s with ⟨l, o⟩
    rw [hxs] at h
    obtain rfl : o = .outOfFuel := h
    rw [bind_outOfFuel hxs]
  · rcases hxs : x s with ⟨l, a | e | k | _⟩
    case ok s' =>
      rw [bind_ok hxs, bind_ok (h ▸ hxs)]
      rcases hf a s' with h' | h'
      · exact .inl h'
      · exact .inr (by rw [h'])
    case error => exact .inr (by rw [bind_error hxs, bind_error (h ▸ hxs)])
    case crash => exact .inr (by rw [bind_crash hxs, bind_crash (h ▸ hxs)])
    case outOfFuel => exact .inl (by rw [bind_outOfFuel hxs])

theorem attempt {x y : Run ω κ ε σ α} (hx : Le x y) : Le x.attempt y.attempt := by
  intro s
  rcases hx s with h | h
  · left
    rcases hxs : x s with ⟨l, o⟩
    rw [hxs] at h
    obtain rfl : o = .outOfFuel := h
    simp only [Run.attempt, hxs]
  · exact .inr (by simp only [Run.attempt, h])

theorem mapError {x y : Run ω κ ε σ α} (f : ε → ε) (hx : Le x y) :
    Le (x.mapError f) (y.mapError f) := by
  intro s
  rcases hx s with h | h
  · left
    rcases hxs : x s with ⟨l, o⟩
    rw [hxs] at h
    obtain rfl : o = .outOfFuel := h
    simp only [Run.mapError, hxs]
  · exact .inr (by simp only [Run.mapError, h])

theorem zoom {get : τ → σ} {set : σ → τ → τ} {x y : Run ω κ ε σ α} (hx : Le x y) :
    Le (x.zoom get set) (y.zoom get set) := by
  intro t
  rcases hx (get t) with h | h
  · left
    rcases hxs : x (get t) with ⟨l, o⟩
    rw [hxs] at h
    obtain rfl : o = .outOfFuel := h
    simp only [Run.zoom, hxs]
  · exact .inr (by simp only [Run.zoom, h])

end Le

/-! ## Families of runs

An evaluator with fuel is a family of runs. What the family ends with is what one of its members
ends with, other than for want of fuel. -/

/-- Some member of the family ends this way from `s`. -/
def Converges (x : Nat → Run ω κ ε σ α) (s : σ) (l : List ω) (o : Outcome κ ε σ α) : Prop :=
  o ≠ .outOfFuel ∧ ∃ n, x n s = (l, o)

namespace Converges

/-- A family each of whose members lies below some member of another converges no more often. -/
theorem of_le {x y : Nat → Run ω κ ε σ α} (h : ∀ n, ∃ m, Le (x n) (y m)) {s : σ} {l : List ω}
    {o : Outcome κ ε σ α} (hx : Converges x s l o) : Converges y s l o := by
  obtain ⟨ho, n, hn⟩ := hx
  obtain ⟨m, hm⟩ := h n
  refine ⟨ho, m, ?_⟩
  rw [hm.eq_of_ne (by rw [hn]; exact ho), hn]

/-- Two interleaved families converge alike. -/
theorem congr {x y : Nat → Run ω κ ε σ α} (hxy : ∀ n, ∃ m, Le (x n) (y m))
    (hyx : ∀ n, ∃ m, Le (y n) (x m)) (s : σ) (l : List ω) (o : Outcome κ ε σ α) :
    Converges x s l o ↔ Converges y s l o :=
  ⟨of_le hxy, of_le hyx⟩

end Converges

/-! ## Rewriting errors -/

theorem mapError_bind (g : ε → ε) (x : Run ω κ ε σ α) (f : α → Run ω κ ε σ β) :
    (x >>= f).mapError g = x.mapError g >>= fun a => (f a).mapError g := by
  funext s
  rcases hxs : x s with ⟨l, a | e | k | _⟩
  case ok s' =>
    have hm : x.mapError g s = (l, .ok a s') := by simp only [mapError, hxs]
    rw [bind_ok hm]
    simp only [mapError, bind_ok hxs]
    rcases f a s' with ⟨l', b | e | k | _⟩ <;> rfl
  case error s' =>
    have hm : x.mapError g s = (l, .error (g e) s') := by simp only [mapError, hxs]
    rw [bind_error hm]
    simp only [mapError, bind_error hxs]
  case crash =>
    have hm : x.mapError g s = (l, .crash k) := by simp only [mapError, hxs]
    rw [bind_crash hm]
    simp only [mapError, bind_crash hxs]
  case outOfFuel =>
    have hm : x.mapError g s = (l, .outOfFuel) := by simp only [mapError, hxs]
    rw [bind_outOfFuel hm]
    simp only [mapError, bind_outOfFuel hxs]

theorem mapError_mapError (f g : ε → ε) (x : Run ω κ ε σ α) :
    (x.mapError f).mapError g = x.mapError (g ∘ f) := by
  funext s
  rcases hxs : x s with ⟨l, a | e | k | _⟩ <;> simp only [mapError, hxs, Function.comp]

@[simp] theorem mapError_pure (g : ε → ε) (a : α) :
    (pure a : Run ω κ ε σ α).mapError g = pure a := rfl

/-! ## Returning a value -/

/-- From `s` the run returns `a` and leaves `s'`. -/
def Returns (x : Run ω κ ε σ α) (s : σ) (a : α) (s' : σ) : Prop := ∃ l, x s = (l, .ok a s')

theorem isOk_iff {x : Run ω κ ε σ α} {s : σ} : (x s).2.isOk = true ↔ ∃ a s', Returns x s a s' := by
  rcases hxs : x s with ⟨l, a | e | k | _⟩ <;> simp [Outcome.isOk, Returns, hxs]

namespace Returns

theorem isOk {x : Run ω κ ε σ α} {s s' : σ} {a : α} (h : Returns x s a s') : (x s).2.isOk = true :=
  isOk_iff.mpr ⟨a, s', h⟩

theorem pure (a : α) (s : σ) : Returns (Pure.pure a : Run ω κ ε σ α) s a s := ⟨[], rfl⟩

theorem tell (w : ω) (s : σ) : Returns (Run.tell w : Run ω κ ε σ Unit) s () s := ⟨[w], rfl⟩

theorem step {f : σ → Except ε α × σ} {s s' : σ} {a : α} (h : f s = (.ok a, s')) :
    Returns (Run.step f : Run ω κ ε σ α) s a s' :=
  ⟨[], by simp only [Run.step, h]⟩

theorem ofExcept {r : Except ε α} {a : α} (h : r = .ok a) (s : σ) :
    Returns (Run.ofExcept r : Run ω κ ε σ α) s a s :=
  step (by rw [h])

theorem bind {x : Run ω κ ε σ α} {f : α → Run ω κ ε σ β} {s t u : σ} {a : α} {b : β}
    (hx : Returns x s a t) (hf : Returns (f a) t b u) : Returns (x >>= f) s b u := by
  obtain ⟨l, hl⟩ := hx
  obtain ⟨l', hl'⟩ := hf
  exact ⟨l ++ l', by rw [bind_ok hl, hl']⟩

/-- After a value, the attempt is that of what follows. -/
theorem bind_attempt {x : Run ω κ ε σ α} {f : α → Run ω κ ε σ β} {s t u : σ} {a : α}
    {r : Except ε β} (hx : Returns x s a t) (hf : Returns (f a).attempt t r u) :
    Returns (x >>= f).attempt s r u := by
  obtain ⟨l, hl⟩ := hx
  obtain ⟨l', hl'⟩ := hf
  refine ⟨l ++ l', ?_⟩
  rw [Run.attempt] at hl'
  rw [Run.attempt, bind_ok hl]
  rcases hfa : f a t with ⟨l'', b | e | k | _⟩ <;> rw [hfa] at hl' <;> cases hl' <;> rfl

theorem of_bind {x : Run ω κ ε σ α} {f : α → Run ω κ ε σ β} {s s'' : σ} {b : β}
    (h : Returns (x >>= f) s b s'') : ∃ a s', Returns x s a s' ∧ Returns (f a) s' b s'' := by
  obtain ⟨l, hl⟩ := h
  rcases hxs : x s with ⟨l', a | e | k | _⟩
  case ok s' =>
    rw [bind_ok hxs] at hl
    exact ⟨a, s', ⟨l', hxs⟩, (f a s').1, Prod.ext rfl (Prod.ext_iff.mp hl).2⟩
  case error => rw [bind_error hxs] at hl; cases hl
  case crash => rw [bind_crash hxs] at hl; cases hl
  case outOfFuel => rw [bind_outOfFuel hxs] at hl; cases hl

theorem of_mapError {x : Run ω κ ε σ α} {f : ε → ε} {s s' : σ} {a : α}
    (h : Returns (x.mapError f) s a s') : Returns x s a s' := by
  obtain ⟨l, hl⟩ := h
  rcases hxs : x s with ⟨l', b | e | k | _⟩ <;> simp only [Run.mapError, hxs] at hl
  · exact ⟨l, hxs.trans hl⟩
  all_goals cases hl

theorem attempt {x : Run ω κ ε σ α} {s s' : σ} {a : α} (hx : Returns x s a s') :
    Returns x.attempt s (.ok a) s' := by
  obtain ⟨l, hl⟩ := hx
  exact ⟨l, by simp only [Run.attempt, hl]⟩

theorem mapError {x : Run ω κ ε σ α} {s s' : σ} {a : α} (f : ε → ε) (hx : Returns x s a s') :
    Returns (x.mapError f) s a s' := by
  obtain ⟨l, hl⟩ := hx
  exact ⟨l, by simp only [Run.mapError, hl]⟩

theorem zoom {get : τ → σ} {set : σ → τ → τ} {x : Run ω κ ε σ α} {t : τ} {u : σ} {a : α}
    (hx : Returns x (get t) a u) : Returns (x.zoom get set) t a (set u t) := by
  obtain ⟨l, hl⟩ := hx
  exact ⟨l, by simp only [Run.zoom, hl]⟩

theorem of_attempt {x : Run ω κ ε σ α} {s s' : σ} {a : α} (h : Returns x.attempt s (.ok a) s') :
    Returns x s a s' := by
  obtain ⟨l, hl⟩ := h
  rw [Run.attempt] at hl
  rcases hx : x s with ⟨l', b | e | k | _⟩ <;> rw [hx] at hl <;> cases hl
  exact ⟨_, hx⟩

theorem of_zoom {get : τ → σ} {set : σ → τ → τ} {x : Run ω κ ε σ α} {t u : τ} {a : α}
    (h : Returns (x.zoom get set) t a u) : ∃ s, Returns x (get t) a s ∧ u = set s t := by
  obtain ⟨l, hl⟩ := h
  rcases hx : x (get t) with ⟨l', b | e | k | _⟩ <;> simp only [Run.zoom, hx] at hl <;> cases hl
  exact ⟨_, ⟨l, hx⟩, rfl⟩

theorem mono {x y : Run ω κ ε σ α} (h : Le x y) {s s' : σ} {a : α} (hx : Returns x s a s') :
    Returns y s a s' := by
  obtain ⟨l, hl⟩ := hx
  exact ⟨l, by rw [h.eq_of_ne (by rw [hl]; simp), hl]⟩

end Returns

/-! ## Silent runs -/

/-- The run emits no event. -/
def Silent (x : Run ω κ ε σ α) : Prop := ∀ s, (x s).1 = []

namespace Silent

theorem pure (a : α) : Silent (Pure.pure a : Run ω κ ε σ α) := fun _ => rfl

theorem throw (e : ε) : Silent (Run.throw e : Run ω κ ε σ α) := fun _ => rfl

theorem outOfFuel : Silent (Run.outOfFuel : Run ω κ ε σ α) := fun _ => rfl

theorem step (f : σ → Except ε α × σ) : Silent (Run.step f : Run ω κ ε σ α) := by
  intro s
  unfold Run.step
  split <;> rfl

theorem bind {x : Run ω κ ε σ α} {f : α → Run ω κ ε σ β} (hx : Silent x)
    (hf : ∀ a, Silent (f a)) : Silent (x >>= f) := by
  intro s
  have h := hx s
  rcases hxs : x s with ⟨l, a | e | k | _⟩ <;> rw [hxs] at h
  case ok s' =>
    obtain rfl : l = [] := h
    rw [bind_ok hxs, hf a s', List.nil_append]
  case error => rw [bind_error hxs]; exact h
  case crash => rw [bind_crash hxs]; exact h
  case outOfFuel => rw [bind_outOfFuel hxs]; exact h

theorem attempt {x : Run ω κ ε σ α} (hx : Silent x) : Silent x.attempt := by
  intro s
  have h := hx s
  rcases hxs : x s with ⟨l, a | e | k | _⟩ <;> simp only [Run.attempt, hxs] <;> rw [hxs] at h <;>
    exact h

theorem zoom {get : τ → σ} {set : σ → τ → τ} {x : Run ω κ ε σ α} (hx : Silent x) :
    Silent (x.zoom get set) := by
  intro t
  have h := hx (get t)
  rcases hxs : x (get t) with ⟨l, a | e | k | _⟩ <;> simp only [Run.zoom, hxs] <;> rw [hxs] at h <;>
    exact h

/-- A silent run that returns is known completely. -/
theorem eq_of_returns {x : Run ω κ ε σ α} (h : Silent x) {s s' : σ} {a : α}
    (hx : Returns x s a s') : x s = ([], .ok a s') := by
  obtain ⟨l, hl⟩ := hx
  have hs := h s
  rw [hl] at hs
  rw [hl, show l = [] from hs]

end Silent

/-! ## Partial correctness -/

/-- From every state satisfying `P`, a run that returns satisfies `Q` and a run that fails
satisfies `E`. Crashes and exhausted fuel are not constrained. -/
def Triple (P : σ → Prop) (x : Run ω κ ε σ α) (Q : α → σ → Prop) (E : ε → σ → Prop) : Prop :=
  ∀ s, P s → match (x s).2 with
    | .ok a s' => Q a s'
    | .error e s' => E e s'
    | .crash _ => True
    | .outOfFuel => True

namespace Triple

variable {P P' : σ → Prop} {Q Q' : α → σ → Prop} {E E' : ε → σ → Prop}

theorem ok {x : Run ω κ ε σ α} (h : Triple P x Q E) {s s' : σ} {a : α} {l : List ω}
    (hs : P s) (hx : x s = (l, .ok a s')) : Q a s' := by
  have := h s hs
  rw [hx] at this
  exact this

theorem error {x : Run ω κ ε σ α} (h : Triple P x Q E) {s s' : σ} {e : ε} {l : List ω}
    (hs : P s) (hx : x s = (l, .error e s')) : E e s' := by
  have := h s hs
  rw [hx] at this
  exact this

theorem conseq {x : Run ω κ ε σ α} (h : Triple P x Q E) (hP : ∀ s, P' s → P s)
    (hQ : ∀ a s, Q a s → Q' a s) (hE : ∀ e s, E e s → E' e s) : Triple P' x Q' E' := by
  intro s hs
  have := h s (hP s hs)
  split
  · next heq => exact hQ _ _ (by rw [heq] at this; exact this)
  · next heq => exact hE _ _ (by rw [heq] at this; exact this)
  · trivial
  · trivial

/-- What a triple says of one state. -/
theorem of_eq {x : Run ω κ ε σ α} (h : Triple P x Q E) {s : σ} (hs : P s) : Triple (· = s) x Q E := by
  rintro t rfl
  exact h t hs

/-- Strengthen the precondition. -/
theorem pre {x : Run ω κ ε σ α} (h : Triple P x Q E) (hP : ∀ s, P' s → P s) : Triple P' x Q E :=
  h.conseq hP (fun _ _ h => h) fun _ _ h => h

/-- What the precondition says besides the state may be used to show the triple. -/
theorem of_fact {x : Run ω κ ε σ α} {p : Prop} (hp : ∀ s, P s → p) (h : p → Triple P x Q E) :
    Triple P x Q E :=
  fun s hs => h (hp s hs) s hs

theorem pure {a : α} (h : ∀ s, P s → Q a s) : Triple P (Pure.pure a : Run ω κ ε σ α) Q E :=
  fun s hs => h s hs

theorem any (x : Run ω κ ε σ α) : Triple P x (fun _ _ => True) (fun _ _ => True) :=
  fun s _ => by rcases (x s).2 with a | e | k | _ <;> trivial

theorem throw {e : ε} (h : ∀ s, P s → E e s) : Triple P (Run.throw e : Run ω κ ε σ α) Q E :=
  fun s hs => h s hs

theorem crash {k : κ} : Triple P (Run.crash k : Run ω κ ε σ α) Q E := fun _ _ => trivial

theorem outOfFuel : Triple P (Run.outOfFuel : Run ω κ ε σ α) Q E := fun _ _ => trivial

theorem step {f : σ → Except ε α × σ}
    (h : ∀ s, P s → match f s with
      | (.ok a, s') => Q a s'
      | (.error e, s') => E e s') : Triple P (Run.step f : Run ω κ ε σ α) Q E := by
  intro s hs
  have hf := h s hs
  rcases hfs : f s with ⟨a | e, s'⟩ <;> simp only [Run.step, hfs] <;> rw [hfs] at hf <;> exact hf

theorem ofExcept {r : Except ε α} (h : ∀ s, P s → match r with
      | .ok a => Q a s
      | .error e => E e s) : Triple P (Run.ofExcept r : Run ω κ ε σ α) Q E :=
  step fun s hs => by
    have := h s hs
    cases r <;> exact this

/-- A run on a part of the state satisfies whatever its effect on the rest allows. -/
theorem zoom {get : τ → σ} {set : σ → τ → τ} {x : Run ω κ ε σ α} {Pt : τ → Prop}
    {Qt : α → τ → Prop} {Et : ε → τ → Prop}
    (h : ∀ t, Pt t → Triple (fun s => s = get t) x (fun a s => Qt a (set s t))
      (fun e s => Et e (set s t))) : Triple Pt (x.zoom get set) Qt Et := by
  intro t ht
  have hx := h t ht (get t) rfl
  rcases hxs : x (get t) with ⟨l, a | e | k | _⟩ <;> simp only [Run.zoom, hxs] <;>
    rw [hxs] at hx <;> exact hx

theorem bind {x : Run ω κ ε σ α} {f : α → Run ω κ ε σ β} {R : β → σ → Prop}
    (hx : Triple P x Q E) (hf : ∀ a, Triple (Q a) (f a) R E) : Triple P (x >>= f) R E := by
  intro s hs
  have h := hx s hs
  rcases hxs : x s with ⟨l, a | e | k | _⟩ <;> rw [hxs] at h
  case ok s' => rw [bind_ok hxs]; exact hf a s' h
  case error => rw [bind_error hxs]; exact h
  case crash => rw [bind_crash hxs]; trivial
  case outOfFuel => rw [bind_outOfFuel hxs]; trivial

/-- After `attempt` both endings are ordinary results. -/
theorem attempt {x : Run ω κ ε σ α} {E'' : ε → σ → Prop} (h : Triple P x Q E) :
    Triple P x.attempt (fun r s => match r with | .ok a => Q a s | .error e => E e s) E'' := by
  intro s hs
  have hx := h s hs
  rcases hxs : x s with ⟨l, a | e | k | _⟩ <;> simp only [Run.attempt, hxs] <;>
    rw [hxs] at hx <;> exact hx

/-- What is attempted does not fail. -/
theorem attempt_any (x : Run ω κ ε σ α) : Triple P x.attempt (fun _ _ => True) E :=
  (any x).attempt.conseq (fun _ h => h) (fun _ _ _ => trivial) fun _ _ h => h

end Triple

/-! ## Crashes are accounted for -/

section

variable (I : σ → Prop) (fault : ω → κ → Prop) (allowed : κ → Prop)

/-- An ordinary ending satisfies `I`, and a returned value satisfies `Q`. A crash is either `allowed` or the
fault of an event of the run, and an event that is at fault for a crash has led to it. -/
inductive AccountedFor (Q : α → Prop) : List ω → Outcome κ ε σ α → Prop where
  | ok {l : List ω} {a : α} {s : σ} (hl : ∀ w ∈ l, ∀ k, ¬ fault w k) (hI : I s) (hQ : Q a) :
      AccountedFor Q l (.ok a s)
  | error {l : List ω} {e : ε} {s : σ} (hl : ∀ w ∈ l, ∀ k, ¬ fault w k) (hI : I s) :
      AccountedFor Q l (.error e s)
  | crash {l : List ω} {k : κ} (hl : ∀ w ∈ l, ∀ k', fault w k' → k' = k)
      (h : allowed k ∨ ∃ w ∈ l, fault w k) : AccountedFor Q l (.crash k)
  | outOfFuel {l : List ω} (hl : ∀ w ∈ l, ∀ k, ¬ fault w k) : AccountedFor Q l .outOfFuel

/-- So it is with the run from `s`. -/
def GuardedAt (x : Run ω κ ε σ α) (Q : α → Prop) (s : σ) : Prop :=
  AccountedFor I fault allowed Q (x s).1 (x s).2

/-- And with the runs from every state satisfying `I`. -/
def Guarded (x : Run ω κ ε σ α) (Q : α → Prop) : Prop := ∀ s, I s → GuardedAt I fault allowed x Q s

end

variable {I : σ → Prop} {fault : ω → κ → Prop} {allowed : κ → Prop} {Q Q' : α → Prop}

namespace AccountedFor

variable {l l' : List ω} {o : Outcome κ ε σ α}

/-- What came before is not at fault if the run went on. -/
theorem append (hl : ∀ w ∈ l, ∀ k, ¬ fault w k) (h : AccountedFor I fault allowed Q l' o) :
    AccountedFor I fault allowed Q (l ++ l') o := by
  have happend : ∀ {P : ω → Prop}, (∀ w ∈ l, P w) → (∀ w ∈ l', P w) → ∀ w ∈ l ++ l', P w :=
    fun h h' w hw => (List.mem_append.mp hw).elim (h w) (h' w)
  cases h with
  | ok hl' hI hQ => exact .ok (happend hl hl') hI hQ
  | error hl' hI => exact .error (happend hl hl') hI
  | outOfFuel hl' => exact .outOfFuel (happend hl hl')
  | crash hl' h =>
      refine .crash (happend (fun w hw k hk => (hl w hw k hk).elim) hl') (h.imp_right ?_)
      intro ⟨w, hw, hk⟩
      exact ⟨w, List.mem_append_right _ hw, hk⟩

/-- An event that is at fault ends the run. -/
theorem crash_of_fault (h : AccountedFor I fault allowed Q l o) {w : ω} (hw : w ∈ l) {k : κ}
    (hk : fault w k) : o = .crash k := by
  cases h with
  | ok hl => exact (hl w hw k hk).elim
  | error hl => exact (hl w hw k hk).elim
  | crash hl => rw [hl w hw k hk]
  | outOfFuel hl => exact (hl w hw k hk).elim

/-- A crash is allowed, if no event is at fault. -/
theorem allowed_of_crash {k : κ} (h : AccountedFor I fault allowed Q l (.crash k : Outcome κ ε σ α))
    (hl : ∀ w ∈ l, ∀ k, ¬ fault w k) : allowed k := by
  cases h with
  | crash _ h =>
      rcases h with h | ⟨w, hw, hk⟩
      · exact h
      · exact (hl w hw k hk).elim

end AccountedFor

namespace GuardedAt

variable {s : σ}

theorem bind {x : Run ω κ ε σ α} {f : α → Run ω κ ε σ β} {R : β → Prop}
    (hx : GuardedAt I fault allowed x Q s)
    (hf : ∀ a s', Returns x s a s' → Q a → I s' → GuardedAt I fault allowed (f a) R s') :
    GuardedAt I fault allowed (x >>= f) R s := by
  unfold GuardedAt at hx ⊢
  rcases hxs : x s with ⟨l, a | e | k | _⟩ <;> rw [hxs] at hx <;> rw [bind_apply, hxs]
  · cases hx with
    | ok hl hI hQ => exact (hf a _ ⟨l, hxs⟩ hQ hI).append hl
  · cases hx with
    | error hl hI => exact .error hl hI
  · cases hx with
    | crash hl h => exact .crash hl h
  · cases hx with
    | outOfFuel hl => exact .outOfFuel hl

/-- What an event is at fault for is allowed from then on, and has to follow. -/
theorem tell_bind {w : ω} {f : Unit → Run ω κ ε σ α} (hw : ∀ k, fault w k → (f () s).2 = .crash k)
    (hf : GuardedAt I fault (fun k => allowed k ∨ fault w k) (f ()) Q s) :
    GuardedAt I fault allowed (Run.tell w >>= f) Q s := by
  unfold GuardedAt at hf ⊢
  rw [bind_ok (tell_apply w s)]
  rcases hfs : f () s with ⟨l, o⟩
  rw [hfs] at hf hw
  -- the event is added to those that follow, and if it is at fault they end as it says
  have hcons : ∀ {P : ω → Prop}, P w → (∀ w ∈ l, P w) → ∀ w' ∈ [w] ++ l, P w' :=
    fun hw hl => List.forall_mem_cons.mpr ⟨hw, hl⟩
  cases hf with
  | ok hl hI hQ => exact .ok (hcons (fun k hk => nomatch hw k hk) hl) hI hQ
  | error hl hI => exact .error (hcons (fun k hk => nomatch hw k hk) hl) hI
  | outOfFuel hl => exact .outOfFuel (hcons (fun k hk => nomatch hw k hk) hl)
  | @crash k hl h =>
      refine .crash (hcons (fun k' hk => ?_) hl) ?_
      · exact (Outcome.crash.inj (hw k' hk)).symm
      · rcases h with (h | h) | ⟨w', hw', hk⟩
        · exact .inl h
        · exact .inr ⟨w, List.mem_cons_self, h⟩
        · exact .inr ⟨w', List.mem_cons_of_mem _ hw', hk⟩

end GuardedAt

namespace Guarded

theorem pure {a : α} (h : Q a) :
    Guarded I fault allowed (Pure.pure a : Run ω κ ε σ α) Q :=
  fun _ hs => .ok (List.forall_mem_nil _) hs h

theorem throw (e : ε) : Guarded I fault allowed (Run.throw e : Run ω κ ε σ α) Q :=
  fun _ hs => .error (List.forall_mem_nil _) hs

theorem crash {k : κ} (h : allowed k) :
    Guarded I fault allowed (Run.crash k : Run ω κ ε σ α) Q :=
  fun _ _ => .crash (List.forall_mem_nil _) (.inl h)

theorem outOfFuel : Guarded I fault allowed (Run.outOfFuel : Run ω κ ε σ α) Q :=
  fun _ _ => .outOfFuel (List.forall_mem_nil _)

theorem step {f : σ → Except ε α × σ}
    (h : ∀ s, I s → I (f s).2 ∧ ∀ a, (f s).1 = .ok a → Q a) :
    Guarded I fault allowed (Run.step f : Run ω κ ε σ α) Q := by
  intro s hs
  obtain ⟨hI, hQ⟩ := h s hs
  unfold GuardedAt
  rcases hfs : f s with ⟨a | e, s'⟩ <;> simp only [Run.step, hfs] <;> rw [hfs] at hI hQ
  · exact .error (List.forall_mem_nil _) hI
  · exact .ok (List.forall_mem_nil _) hI (hQ _ rfl)

theorem ofExcept {r : Except ε α} (h : ∀ a, r = .ok a → Q a) :
    Guarded I fault allowed (Run.ofExcept r : Run ω κ ε σ α) Q :=
  step fun _ hs => ⟨hs, h⟩

theorem bind {x : Run ω κ ε σ α} {f : α → Run ω κ ε σ β} {R : β → Prop}
    (hx : Guarded I fault allowed x Q) (hf : ∀ a, Q a → Guarded I fault allowed (f a) R) :
    Guarded I fault allowed (x >>= f) R :=
  fun s hs => (hx s hs).bind fun a s' _ hQ hI => hf a hQ s' hI

theorem conseq {x : Run ω κ ε σ α} (h : Guarded I fault allowed x Q) (hQ : ∀ a, Q a → Q' a) :
    Guarded I fault allowed x Q' := by
  have hbind : Guarded I fault allowed (x >>= Pure.pure) Q' := h.bind fun a ha => .pure (hQ a ha)
  rwa [bind_pure] at hbind

theorem allow {x : Run ω κ ε σ α} {allowed' : κ → Prop} (h : Guarded I fault allowed x Q)
    (ha : ∀ k, allowed k → allowed' k) : Guarded I fault allowed' x Q := by
  intro s hs
  have hx := h s hs
  unfold GuardedAt at hx ⊢
  generalize (x s).1 = l, (x s).2 = o at hx
  cases hx with
  | ok hl hI hQ => exact .ok hl hI hQ
  | error hl hI => exact .error hl hI
  | crash hl h => exact .crash hl (h.imp_left (ha _))
  | outOfFuel hl => exact .outOfFuel hl

theorem mapError {x : Run ω κ ε σ α} (f : ε → ε) (hx : Guarded I fault allowed x Q) :
    Guarded I fault allowed (x.mapError f) Q := by
  intro s hs
  have h := hx s hs
  unfold GuardedAt at h ⊢
  rcases hxs : x s with ⟨l, a | e | k | _⟩ <;> simp only [Run.mapError, hxs] <;> rw [hxs] at h
  case error => cases h with | error hl hI => exact .error hl hI
  all_goals exact h

theorem attempt {x : Run ω κ ε σ α} (hx : Guarded I fault allowed x Q) :
    Guarded I fault allowed x.attempt fun r => ∀ a, r = .ok a → Q a := by
  intro s hs
  have h := hx s hs
  unfold GuardedAt at h ⊢
  rcases hxs : x s with ⟨l, a | e | k | _⟩ <;> simp only [Run.attempt, hxs] <;> rw [hxs] at h
  · cases h with
    | ok hl hI hQ => exact .ok hl hI fun b hb => Except.ok.inj hb ▸ hQ
  · cases h with
    | error hl hI => exact .ok hl hI fun b hb => nomatch hb
  · cases h with
    | crash hl h => exact .crash hl h
  · cases h with
    | outOfFuel hl => exact .outOfFuel hl

theorem zoom {J : τ → Prop} {get : τ → σ} {set : σ → τ → τ} {x : Run ω κ ε σ α}
    (hx : Guarded I fault allowed x Q) (hget : ∀ t, J t → I (get t))
    (hset : ∀ t s, J t → I s → J (set s t)) : Guarded J fault allowed (x.zoom get set) Q := by
  intro t ht
  have h := hx (get t) (hget t ht)
  unfold GuardedAt at h ⊢
  rcases hxs : x (get t) with ⟨l, a | e | k | _⟩ <;> simp only [Run.zoom, hxs] <;> rw [hxs] at h
  · cases h with
    | ok hl hI hQ => exact .ok hl (hset t _ ht hI) hQ
  · cases h with
    | error hl hI => exact .error hl (hset t _ ht hI)
  · cases h with
    | crash hl h => exact .crash hl h
  · cases h with
    | outOfFuel hl => exact .outOfFuel hl

end Guarded

/-! ## Agreement -/

/-- From `s` the run fails with `e` and leaves `s'`. -/
def Fails (x : Run ω κ ε σ α) (s : σ) (e : ε) (s' : σ) : Prop := ∃ l, x s = (l, .error e s')

/-- From `s` the run does not end: it crashes, or it runs out of fuel. -/
def Stalls (x : Run ω κ ε σ α) (s : σ) : Prop := (∃ k, (x s).2 = .crash k) ∨ (x s).2 = .outOfFuel

/-- From states related by `P`, `x` and `y` both return, and `Q` relates what they return and leave;
or they both fail with the same error, and `E` relates what they leave; or neither of them ends. If the
comparison is `lax`, nothing is asked of `x` where `y` does not end. -/
def Agree (lax : Prop) (P : σ → τ → Prop) (x : Run ω κ ε σ α) (y : Run ω κ ε τ β)
    (Q : α → β → σ → τ → Prop) (E : σ → τ → Prop) : Prop :=
  ∀ s t, P s t →
    (∃ a b s' t', Returns x s a s' ∧ Returns y t b t' ∧ Q a b s' t') ∨
      (∃ e s' t', Fails x s e s' ∧ Fails y t e t' ∧ E s' t') ∨
      (Stalls y t ∧ (lax ∨ Stalls x s))

theorem Returns.unique {x : Run ω κ ε σ α} {s s₁ s₂ : σ} {a₁ a₂ : α} (h₁ : Returns x s a₁ s₁)
    (h₂ : Returns x s a₂ s₂) : a₁ = a₂ ∧ s₁ = s₂ := by
  obtain ⟨l₁, h₁⟩ := h₁
  obtain ⟨l₂, h₂⟩ := h₂
  have := (Prod.mk.inj (h₁.symm.trans h₂)).2
  cases this
  exact ⟨rfl, rfl⟩

/-- After what it returns, a run goes on as its continuation. -/
theorem Returns.bind_iff {x : Run ω κ ε σ α} {f : α → Run ω κ ε σ β} {s t u : σ} {a : α} {b : β}
    (hx : Returns x s a t) : Returns (x >>= f) s b u ↔ Returns (f a) t b u := by
  constructor
  · intro h
    obtain ⟨a', t', hx', hf⟩ := h.of_bind
    obtain ⟨rfl, rfl⟩ := hx.unique hx'
    exact hf
  · exact hx.bind

namespace Fails

theorem throw (e : ε) (s : σ) : Fails (Run.throw e : Run ω κ ε σ α) s e s := ⟨[], rfl⟩

theorem step {f : σ → Except ε α × σ} {s s' : σ} {e : ε} (h : f s = (.error e, s')) :
    Fails (Run.step f : Run ω κ ε σ α) s e s' :=
  ⟨[], by simp only [Run.step, h]⟩

theorem bind_left {x : Run ω κ ε σ α} {f : α → Run ω κ ε σ β} {s s' : σ} {e : ε}
    (hx : Fails x s e s') : Fails (x >>= f) s e s' := by
  obtain ⟨l, hl⟩ := hx
  exact ⟨l, bind_error hl⟩

theorem bind {x : Run ω κ ε σ α} {f : α → Run ω κ ε σ β} {s t u : σ} {a : α} {e : ε}
    (hx : Returns x s a t) (hf : Fails (f a) t e u) : Fails (x >>= f) s e u := by
  obtain ⟨l, hl⟩ := hx
  obtain ⟨l', hl'⟩ := hf
  exact ⟨l ++ l', by rw [bind_ok hl, hl']⟩

theorem attempt {x : Run ω κ ε σ α} {s s' : σ} {e : ε} (hx : Fails x s e s') :
    Returns x.attempt s (.error e) s' := by
  obtain ⟨l, hl⟩ := hx
  exact ⟨l, by simp only [Run.attempt, hl]⟩

theorem zoom {get : τ → σ} {set : σ → τ → τ} {x : Run ω κ ε σ α} {t : τ} {u : σ} {e : ε}
    (hx : Fails x (get t) e u) : Fails (x.zoom get set) t e (set u t) := by
  obtain ⟨l, hl⟩ := hx
  exact ⟨l, by simp only [Run.zoom, hl]⟩

end Fails

namespace Stalls

theorem not_returns {x : Run ω κ ε σ α} {s s' : σ} {a : α} (h : Stalls x s) : ¬Returns x s a s' := by
  rintro ⟨l, hl⟩
  rcases h with ⟨k, h⟩ | h <;> rw [hl] at h <;> cases h

theorem not_fails {x : Run ω κ ε σ α} {s s' : σ} {e : ε} (h : Stalls x s) : ¬Fails x s e s' := by
  rintro ⟨l, hl⟩
  rcases h with ⟨k, h⟩ | h <;> rw [hl] at h <;> cases h

theorem bind_left {x : Run ω κ ε σ α} {s : σ} (f : α → Run ω κ ε σ β) (h : Stalls x s) :
    Stalls (x >>= f) s := by
  rw [Stalls, bind_apply]
  rcases hx : x s with ⟨l, a | e | k | _⟩ <;> rw [Stalls, hx] at h
  · exact h.elim nofun nofun
  · exact h.elim nofun nofun
  · exact .inl ⟨k, rfl⟩
  · exact .inr rfl

theorem bind {x : Run ω κ ε σ α} {f : α → Run ω κ ε σ β} {s s' : σ} {a : α} (hx : Returns x s a s')
    (h : Stalls (f a) s') : Stalls (x >>= f) s := by
  obtain ⟨l, hl⟩ := hx
  rw [Stalls, bind_ok hl]
  exact h

theorem attempt {x : Run ω κ ε σ α} {s : σ} (h : Stalls x s) : Stalls x.attempt s := by
  rw [Stalls, Run.attempt]
  rcases hx : x s with ⟨l, a | e | k | _⟩ <;> rw [Stalls, hx] at h
  · exact h.elim nofun nofun
  · exact h.elim nofun nofun
  · exact .inl ⟨k, rfl⟩
  · exact .inr rfl

theorem zoom {get : τ → σ} {set : σ → τ → τ} {x : Run ω κ ε σ α} {t : τ} (h : Stalls x (get t)) :
    Stalls (x.zoom get set) t := by
  rw [Stalls, Run.zoom]
  rcases hx : x (get t) with ⟨l, a | e | k | _⟩ <;> rw [Stalls, hx] at h
  · exact h.elim nofun nofun
  · exact h.elim nofun nofun
  · exact .inl ⟨k, rfl⟩
  · exact .inr rfl

end Stalls

/-- What returns first does not matter to the end. -/
theorem Returns.bind_end {x : Run ω κ ε σ α} {f : α → Run ω κ ε σ β} {s s' : σ} {a : α}
    (h : Returns x s a s') : ((x >>= f) s).2 = (f a s').2 := by
  obtain ⟨l, hl⟩ := h
  rw [bind_ok hl]

theorem Returns.of_end {x y : Run ω κ ε σ α} {s s' t : σ} {a : α} (h : Returns x s a s')
    (hend : (y t).2 = (x s).2) : Returns y t a s' := by
  obtain ⟨l, hl⟩ := h
  rw [hl] at hend
  exact ⟨(y t).1, Prod.ext rfl hend⟩

theorem Returns.of_eq {x : Run ω κ ε σ α} {s s' : σ} {a : α} (h : (x s).2 = .ok a s') :
    Returns x s a s' := ⟨(x s).1, Prod.ext rfl h⟩

theorem Fails.of_eq {x : Run ω κ ε σ α} {s s' : σ} {e : ε} (h : (x s).2 = .error e s') :
    Fails x s e s' := ⟨(x s).1, Prod.ext rfl h⟩

theorem Fails.of_end {x y : Run ω κ ε σ α} {s s' t : σ} {e : ε} (h : Fails x s e s')
    (hend : (y t).2 = (x s).2) : Fails y t e s' := by
  obtain ⟨l, hl⟩ := h
  rw [hl] at hend
  exact ⟨(y t).1, Prod.ext rfl hend⟩

/-- From one state, what is returned and left there is what has to be right. -/
theorem Triple.of_returns {x : Run ω κ ε σ α} {s s' : σ} {a : α} {Q : α → σ → Prop}
    {E : ε → σ → Prop} (hx : Returns x s a s') (ha : Q a s') : Triple (· = s) x Q E := by
  rintro _ rfl
  obtain ⟨l, hl⟩ := hx
  rw [hl]
  exact ha

theorem Triple.of_fails {x : Run ω κ ε σ α} {s s' : σ} {e : ε} {Q : α → σ → Prop}
    {E : ε → σ → Prop} (hx : Fails x s e s') (he : E e s') : Triple (· = s) x Q E := by
  rintro _ rfl
  obtain ⟨l, hl⟩ := hx
  rw [hl]
  exact he

/-- The run neither crashes nor runs out of fuel. -/
def Ends (x : Run ω κ ε σ α) : Prop :=
  ∀ s, (∃ a s', Returns x s a s') ∨ ∃ e s', Fails x s e s'

namespace Ends

theorem not_stalls {x : Run ω κ ε σ α} (h : Ends x) (s : σ) : ¬Stalls x s := by
  intro hstalls
  rcases h s with ⟨a, s', hx⟩ | ⟨e, s', hx⟩
  · exact hstalls.not_returns hx
  · exact hstalls.not_fails hx

theorem pure (a : α) : Ends (Pure.pure a : Run ω κ ε σ α) := fun s => .inl ⟨a, s, .pure a s⟩

theorem step (f : σ → Except ε α × σ) : Ends (Run.step f : Run ω κ ε σ α) := by
  intro s
  rcases hf : f s with ⟨e | a, s'⟩
  · exact .inr ⟨e, s', .step hf⟩
  · exact .inl ⟨a, s', .step hf⟩

theorem tell (w : ω) : Ends (Run.tell w : Run ω κ ε σ Unit) := fun s => .inl ⟨(), s, .tell w s⟩

theorem throw (e : ε) : Ends (Run.throw e : Run ω κ ε σ α) := fun s => .inr ⟨e, s, .throw e s⟩

theorem ofExcept (r : Except ε α) : Ends (Run.ofExcept r : Run ω κ ε σ α) := fun s => by
  cases r with
  | ok a => exact .inl ⟨a, s, .ofExcept rfl s⟩
  | error e => exact .inr ⟨e, s, .throw e s⟩

theorem bind {x : Run ω κ ε σ α} {f : α → Run ω κ ε σ β} (hx : Ends x) (hf : ∀ a, Ends (f a)) :
    Ends (x >>= f) := by
  intro s
  rcases hx s with ⟨a, s', hx⟩ | ⟨e, s', hx⟩
  · rcases hf a s' with ⟨b, s'', hf⟩ | ⟨e, s'', hf⟩
    · exact .inl ⟨b, s'', hx.bind hf⟩
    · exact .inr ⟨e, s'', .bind hx hf⟩
  · exact .inr ⟨e, s', hx.bind_left⟩

theorem attempt {x : Run ω κ ε σ α} (hx : Ends x) : Ends x.attempt := by
  intro s
  rcases hx s with ⟨a, s', hx⟩ | ⟨e, s', hx⟩
  · exact .inl ⟨.ok a, s', hx.attempt⟩
  · exact .inl ⟨.error e, s', hx.attempt⟩

theorem zoom {get : τ → σ} {set : σ → τ → τ} {x : Run ω κ ε σ α} (hx : Ends x) :
    Ends (x.zoom get set) := by
  intro t
  rcases hx (get t) with ⟨a, s', hx⟩ | ⟨e, s', hx⟩
  · exact .inl ⟨a, _, hx.zoom⟩
  · exact .inr ⟨e, _, .zoom hx⟩

end Ends

namespace Agree

variable {lax : Prop} {P P' : σ → τ → Prop} {Q Q' : α → β → σ → τ → Prop} {E E' : σ → τ → Prop}

theorem conseq {x : Run ω κ ε σ α} {y : Run ω κ ε τ β} (h : Agree lax P x y Q E)
    (hP : ∀ s t, P' s t → P s t) (hQ : ∀ a b s t, Q a b s t → Q' a b s t)
    (hE : ∀ s t, E s t → E' s t) : Agree lax P' x y Q' E' := by
  intro s t hst
  rcases h s t (hP s t hst) with ⟨a, b, s', t', hx, hy, hq⟩ | ⟨e, s', t', hx, hy, he⟩ | hstalls
  · exact .inl ⟨a, b, s', t', hx, hy, hQ _ _ _ _ hq⟩
  · exact .inr (.inl ⟨e, s', t', hx, hy, hE _ _ he⟩)
  · exact .inr (.inr hstalls)

theorem pure {a : α} {b : β} (h : ∀ s t, P s t → Q a b s t) :
    Agree lax P (Pure.pure a : Run ω κ ε σ α) (Pure.pure b : Run ω κ ε τ β) Q E :=
  fun s t hst => .inl ⟨a, b, s, t, .pure a s, .pure b t, h s t hst⟩

theorem throw {e : ε} (h : ∀ s t, P s t → E s t) :
    Agree lax P (Run.throw e : Run ω κ ε σ α) (Run.throw e : Run ω κ ε τ β) Q E :=
  fun s t hst => .inr (.inl ⟨e, s, t, .throw e s, .throw e t, h s t hst⟩)

theorem bind {x : Run ω κ ε σ α} {y : Run ω κ ε τ β} {f : α → Run ω κ ε σ γ}
    {g : β → Run ω κ ε τ δ} {R : γ → δ → σ → τ → Prop} (hx : Agree lax P x y Q E)
    (hf : ∀ a b, Agree lax (Q a b) (f a) (g b) R E) : Agree lax P (x >>= f) (y >>= g) R E := by
  intro s t hst
  rcases hx s t hst with ⟨a, b, s', t', hx, hy, hq⟩ | ⟨e, s', t', hx, hy, he⟩ | ⟨hy, hx⟩
  · rcases hf a b s' t' hq with ⟨c, d, s'', t'', hf, hg, hr⟩ | ⟨e, s'', t'', hf, hg, he⟩ | ⟨hg, hf⟩
    · exact .inl ⟨c, d, s'', t'', hx.bind hf, hy.bind hg, hr⟩
    · exact .inr (.inl ⟨e, s'', t'', .bind hx hf, .bind hy hg, he⟩)
    · exact .inr (.inr ⟨.bind hy hg, hf.imp_right (.bind hx)⟩)
  · exact .inr (.inl ⟨e, s', t', hx.bind_left, hy.bind_left, he⟩)
  · exact .inr (.inr ⟨hy.bind_left g, hx.imp_right (.bind_left f)⟩)

/-- What is known besides the states may be used to show that two runs agree. -/
theorem of_fact {x : Run ω κ ε σ α} {y : Run ω κ ε τ β} {p : Prop} (h : p → Agree lax P x y Q E) :
    Agree lax (fun s t => P s t ∧ p) x y Q E :=
  fun s t hst => h hst.2 s t hst.1

/-- What is attempted on both sides ends alike. -/
theorem attempt {x : Run ω κ ε σ α} {y : Run ω κ ε τ β} (h : Agree lax P x y Q E) :
    Agree lax P x.attempt y.attempt (fun r r' s t => match r, r' with
      | .ok a, .ok b => Q a b s t
      | .error e, .error e' => e = e' ∧ E s t
      | _, _ => False) E' := by
  intro s t hst
  rcases h s t hst with ⟨a, b, s', t', hx, hy, hq⟩ | ⟨e, s', t', hx, hy, he⟩ | ⟨hy, hx⟩
  · exact .inl ⟨.ok a, .ok b, s', t', hx.attempt, hy.attempt, hq⟩
  · exact .inl ⟨.error e, .error e, s', t', hx.attempt, hy.attempt, rfl, he⟩
  · exact .inr (.inr ⟨hy.attempt, hx.imp_right .attempt⟩)

end Agree

end Run

end GenC.Lib
