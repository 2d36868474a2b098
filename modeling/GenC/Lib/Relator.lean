import GenC.Lib.Growth

/-!
# Relating runs

A `Relator` is a way of saying that two runs do the same, perhaps from different states: a relation of
runs for every relation of what they return, with one rule per combinator. What is related may depend on
how far the two runs have come; that is its `World`, which only grows.

Whatever is written with the combinators, and does not look into the values it is given, takes related
values to related runs, for every relator. It is enough to show that once.
-/

namespace GenC.Lib

/-- Two results, which are related as values or as errors. -/
def Except.Related {ε α β : Type} (E : ε → ε → Prop) (R : α → β → Prop) : Except ε α → Except ε β → Prop
  | .ok a, .ok b => R a b
  | .error e, .error e' => E e e'
  | _, _ => False

theorem Except.Related.mono {ε α β : Type} {E : ε → ε → Prop} {R R' : α → β → Prop} {r : Except ε α}
    {r' : Except ε β} (h : Except.Related E R r r') (hR : ∀ a b, R a b → R' a b) :
    Except.Related E R' r r' := by
  cases r <;> cases r' <;> first | exact h | exact hR _ _ h

structure Relator (ω κ ε σ τ : Type) where
  World : Type
  order : Preorder World
  /-- Errors that count as the same. -/
  Error : ε → ε → Prop
  Rel {α β : Type} : World → (World → α → β → Prop) → Run ω κ ε σ α → Run ω κ ε τ β → Prop
  error_refl : ∀ e, Error e e
  pure : ∀ {α β : Type} {w : World} {R : World → α → β → Prop} {a : α} {b : β},
    (∀ w', w ≤ w' → R w' a b) → Rel w R (Pure.pure a) (Pure.pure b)
  bind : ∀ {α β γ δ : Type} {w : World} {R : World → α → β → Prop} {S : World → γ → δ → Prop}
    {x : Run ω κ ε σ α} {y : Run ω κ ε τ β} {f : α → Run ω κ ε σ γ} {g : β → Run ω κ ε τ δ},
    Rel w R x y → (∀ w', w ≤ w' → ∀ a b, R w' a b → Rel w' S (f a) (g b)) →
      Rel w S (x >>= f) (y >>= g)
  throw : ∀ {α β : Type} {w : World} {R : World → α → β → Prop} {e e' : ε}, Error e e' →
    Rel w R (Run.throw e) (Run.throw e')
  crash : ∀ {α β : Type} {w : World} {R : World → α → β → Prop} (k : κ),
    Rel w R (Run.crash k) (Run.crash k)
  outOfFuel : ∀ {α β : Type} {w : World} {R : World → α → β → Prop}, Rel w R Run.outOfFuel Run.outOfFuel
  tell : ∀ {w : World} (event : ω), Rel w (fun _ _ _ => True) (Run.tell event) (Run.tell event)
  attempt : ∀ {α β : Type} {w : World} {R : World → α → β → Prop} {x : Run ω κ ε σ α}
    {y : Run ω κ ε τ β}, Rel w R x y → Rel w (fun w => Except.Related Error (R w)) x.attempt y.attempt

attribute [instance] Relator.order

namespace Relator

variable {ω κ ε σ τ α β γ : Type} (𝓡 : Relator ω κ ε σ τ)

theorem ofExcept {w : 𝓡.World} {R : 𝓡.World → α → β → Prop} {r : Except ε α} {r' : Except ε β}
    (h : ∀ w', w ≤ w' → Except.Related 𝓡.Error (R w') r r') :
    𝓡.Rel w R (Run.ofExcept r) (Run.ofExcept r') := by
  cases r <;> cases r'
  · exact 𝓡.throw (h w (le_refl w))
  · exact (h w (le_refl w)).elim
  · exact (h w (le_refl w)).elim
  · exact 𝓡.pure h

variable {w : 𝓡.World} {x : Run ω κ ε σ α} {y : Run ω κ ε τ α}

/-- What returns the same, goes on with the same. -/
theorem bind_same {R : 𝓡.World → β → γ → Prop} {f : α → Run ω κ ε σ β} {g : α → Run ω κ ε τ γ}
    (h : 𝓡.Rel w (fun _ => Eq) x y) (hfg : ∀ w', w ≤ w' → ∀ a, 𝓡.Rel w' R (f a) (g a)) :
    𝓡.Rel w R (x >>= f) (y >>= g) := by
  refine 𝓡.bind h fun w' hw a b hab => ?_
  subst hab
  exact hfg w' hw a

theorem same (a : α) : 𝓡.Rel w (fun _ => Eq) (Pure.pure a) (Pure.pure a) := 𝓡.pure fun _ _ => rfl

theorem of_same {R : 𝓡.World → α → α → Prop} (h : 𝓡.Rel w (fun _ => Eq) x y) (hR : ∀ w' a, R w' a a) :
    𝓡.Rel w R x y := by
  have hbind : 𝓡.Rel w R (x >>= Pure.pure) (y >>= Pure.pure) :=
    𝓡.bind_same h fun _ _ a => 𝓡.pure fun w' _ => hR w' a
  rwa [bind_pure, bind_pure] at hbind

theorem ofExcept_same (r : Except ε α) : 𝓡.Rel w (fun _ => Eq) (Run.ofExcept r) (Run.ofExcept r) := by
  cases r with
  | ok a => exact 𝓡.same a
  | error e => exact 𝓡.throw (𝓡.error_refl e)

theorem mapError_same {f : ε → ε} (hf : ∀ e e', 𝓡.Error e e' → 𝓡.Error (f e) (f e'))
    (h : 𝓡.Rel w (fun _ => Eq) x y) : 𝓡.Rel w (fun _ => Eq) (x.mapError f) (y.mapError f) := by
  have hmapError : ∀ {σ : Type} (x : Run ω κ ε σ α),
      x.mapError f = x.attempt >>= fun r => Run.ofExcept (r.mapError f) := by
    intro σ x
    funext s
    rw [Run.bind_apply, Run.mapError, Run.attempt]
    rcases x s with ⟨l, a | e | k | _⟩ <;> simp [Except.mapError, Run.ofExcept, Run.step]
  rw [hmapError, hmapError]
  refine 𝓡.bind (𝓡.attempt h) fun w' _ r r' hr => ?_
  cases r <;> cases r'
  · exact 𝓡.throw (hf _ _ hr)
  · exact hr.elim
  · exact hr.elim
  · exact 𝓡.pure fun _ _ => hr

end Relator

/-! ## Simulations

The relator of runs that end alike: from states that correspond to each other in a world, they end in the
same way, in states that correspond to each other in a later one. -/

/-- Two ends that are alike. -/
inductive Outcome.Matched {κ ε σ τ α β : Type} (S : σ → τ → Prop) (E : ε → ε → Prop) (R : α → β → Prop) :
    Outcome κ ε σ α → Outcome κ ε τ β → Prop where
  | ok {a : α} {b : β} {s : σ} {t : τ} (hs : S s t) (h : R a b) : Matched S E R (.ok a s) (.ok b t)
  | error {e e' : ε} {s : σ} {t : τ} (hs : S s t) (h : E e e') : Matched S E R (.error e s) (.error e' t)
  | crash {k : κ} : Matched S E R (.crash k) (.crash k)
  | outOfFuel : Matched S E R .outOfFuel .outOfFuel

theorem Outcome.Matched.mono {κ ε σ τ α β : Type} {S : σ → τ → Prop} {E E' : ε → ε → Prop}
    {R R' : α → β → Prop} {o : Outcome κ ε σ α} {o' : Outcome κ ε τ β} (h : Matched S E R o o')
    (hE : ∀ e e', E e e' → E' e e') (hR : ∀ a b, R a b → R' a b) : Matched S E' R' o o' := by
  cases h with
  | ok hs h => exact .ok hs (hR _ _ h)
  | error hs h => exact .error hs (hE _ _ h)
  | crash => exact .crash
  | outOfFuel => exact .outOfFuel

theorem Outcome.Matched.eq {κ ε σ α : Type} {o o' : Outcome κ ε σ α} (h : Matched Eq Eq Eq o o') : o = o' := by
  cases h with
  | ok hs h =>
      subst hs h
      rfl
  | error hs h =>
      subst hs h
      rfl
  | crash => rfl
  | outOfFuel => rfl

namespace Run

variable {World ω κ ε σ τ α β γ δ : Type} [Preorder World]

/-- From corresponding states of later worlds, `x` and `y` end alike. -/
def Simulates (S : World → σ → τ → Prop) (E : ε → ε → Prop) (w₀ : World) (R : World → α → β → Prop)
    (x : Run ω κ ε σ α) (y : Run ω κ ε τ β) : Prop :=
  ∀ w, w₀ ≤ w → ∀ s t, S w s t → ∃ w', w ≤ w' ∧ Outcome.Matched (S w') E (R w') (x s).2 (y t).2

namespace Simulates

variable {S : World → σ → τ → Prop} {E : ε → ε → Prop} {w₀ w : World} {R R' : World → α → β → Prop}
  {x : Run ω κ ε σ α} {y : Run ω κ ε τ β}

theorem mono (h : Simulates S E w₀ R x y) (hw : w₀ ≤ w) (hR : ∀ w' a b, w ≤ w' → R w' a b → R' w' a b) :
    Simulates S E w R' x y := by
  intro w₁ h₁ s t hs
  obtain ⟨w₂, h₂, hend⟩ := h w₁ (hw.trans h₁) s t hs
  exact ⟨w₂, h₂, hend.mono (fun _ _ h => h) fun a b => hR w₂ a b (h₁.trans h₂)⟩

theorem bind {R' : World → γ → δ → Prop} {f : α → Run ω κ ε σ γ} {g : β → Run ω κ ε τ δ}
    (hx : Simulates S E w₀ R x y)
    (hf : ∀ w, w₀ ≤ w → ∀ a b, R w a b → Simulates S E w R' (f a) (g b)) :
    Simulates S E w₀ R' (x >>= f) (y >>= g) := by
  intro w hw s t hs
  obtain ⟨w₁, h₁, hend⟩ := hx w hw s t hs
  rcases hxs : x s with ⟨l, o⟩
  rcases hyt : y t with ⟨l', o'⟩
  rw [hxs, hyt] at hend
  rw [bind_apply, bind_apply, hxs, hyt]
  cases hend with
  | ok ht h =>
      obtain ⟨w₂, h₂, hend⟩ := hf w₁ (hw.trans h₁) _ _ h w₁ (le_refl w₁) _ _ ht
      exact ⟨w₂, h₁.trans h₂, hend⟩
  | error ht h => exact ⟨w₁, h₁, .error ht h⟩
  | crash => exact ⟨w₁, h₁, .crash⟩
  | outOfFuel => exact ⟨w₁, h₁, .outOfFuel⟩

theorem attempt (hx : Simulates S E w₀ R x y) :
    Simulates S E w₀ (fun w => Except.Related E (R w)) x.attempt y.attempt := by
  intro w hw s t hs
  obtain ⟨w₁, h₁, hend⟩ := hx w hw s t hs
  refine ⟨w₁, h₁, ?_⟩
  rcases hxs : x s with ⟨l, o⟩
  rcases hyt : y t with ⟨l', o'⟩
  rw [hxs, hyt] at hend
  rw [Run.attempt, Run.attempt, hxs, hyt]
  cases hend with
  | ok ht h => exact .ok ht h
  | error ht h => exact .ok ht h
  | crash => exact .crash
  | outOfFuel => exact .outOfFuel

theorem mapError {f g : ε → ε} (hf : ∀ e e', E e e' → E (f e) (g e')) (hx : Simulates S E w₀ R x y) :
    Simulates S E w₀ R (x.mapError f) (y.mapError g) := by
  intro w hw s t hs
  obtain ⟨w₁, h₁, hend⟩ := hx w hw s t hs
  refine ⟨w₁, h₁, ?_⟩
  rcases hxs : x s with ⟨l, o⟩
  rcases hyt : y t with ⟨l', o'⟩
  rw [hxs, hyt] at hend
  rw [Run.mapError, Run.mapError, hxs, hyt]
  cases hend with
  | ok ht h => exact .ok ht h
  | error ht h => exact .error ht (hf _ _ h)
  | crash => exact .crash
  | outOfFuel => exact .outOfFuel

end Simulates

end Run

def Relator.simulation (ω κ : Type) {W ε σ τ : Type} [order : Preorder W]
    (S : W → σ → τ → Prop) (E : ε → ε → Prop) (hE : ∀ e, E e e) : Relator ω κ ε σ τ where
  World := W
  order := order
  Error := E
  Rel w R x y := Run.Simulates S E w R x y
  error_refl := hE
  pure h w hw _ _ hs := ⟨w, le_refl w, .ok hs (h w hw)⟩
  bind := .bind
  throw h w _ _ _ hs := ⟨w, le_refl w, .error hs h⟩
  crash _ w _ _ _ _ := ⟨w, le_refl w, .crash⟩
  outOfFuel w _ _ _ _ := ⟨w, le_refl w, .outOfFuel⟩
  tell _ w _ _ _ hs := ⟨w, le_refl w, .ok hs trivial⟩
  attempt := .attempt

/-! ## Runs with checks

The relator of a run with another one that does the same, but checks before it takes a step that would end in
a certain crash, and stops there. -/

/-- Stop in a state that satisfies `p`, and else go on with `x`. -/
def Run.stopIf {ω κ ε σ α : Type} (p : σ → Prop) [DecidablePred p] (stop : κ) (x : Run ω κ ε σ α) :
    Run ω κ ε σ α := fun s => if p s then Run.crash stop s else x s

/-- From every state `x` and `y` end alike after the same events, or else `x` stops with `stop` where `y`
crashes with `missed`. -/
def Run.StopsShort {ω κ ε σ α β : Type} (stop missed : κ) (R : α → β → Prop) (x : Run ω κ ε σ α)
    (y : Run ω κ ε σ β) : Prop :=
  ∀ s, ((x s).2 = .crash stop ∧ (y s).2 = .crash missed) ∨
    ((x s).1 = (y s).1 ∧ Outcome.Matched Eq Eq R (x s).2 (y s).2)

/-- With the check only the states that pass it have to be considered. -/
theorem Run.GuardedAt.stopIf {ω κ ε σ α : Type} {I : σ → Prop} {fault : ω → κ → Prop} {allowed : κ → Prop}
    {Q : α → Prop} {p : σ → Prop} [DecidablePred p] {stop : κ} {x : Run ω κ ε σ α} {s : σ} (hs : I s)
    (hstop : allowed stop) (hx : ¬p s → GuardedAt I fault allowed x Q s) :
    GuardedAt I fault allowed (x.stopIf p stop) Q s := by
  unfold GuardedAt
  by_cases h : p s
  · rw [Run.stopIf, if_pos h]
    exact Guarded.crash hstop s hs
  · rw [Run.stopIf, if_neg h]
    exact hx h

namespace Run.StopsShort

variable {ω κ ε σ τ α β γ δ : Type} {stop missed : κ} {R : α → β → Prop} {x : Run ω κ ε σ α}
  {y : Run ω κ ε σ β}

theorem refl (x : Run ω κ ε σ α) : StopsShort stop missed Eq x x := by
  intro s
  refine .inr ⟨rfl, ?_⟩
  rcases (x s).2 with a | e | k | _
  · exact .ok rfl rfl
  · exact .error rfl rfl
  · exact .crash
  · exact .outOfFuel

theorem stopIf {p : σ → Prop} [DecidablePred p] (hp : ∀ s, p s → (y s).2 = .crash missed)
    (hx : StopsShort stop missed R x y) : StopsShort stop missed R (x.stopIf p stop) y := by
  intro s
  by_cases h : p s
  · rw [Run.stopIf, if_pos h]
    exact .inl ⟨rfl, hp s h⟩
  · rw [Run.stopIf, if_neg h]
    exact hx s

theorem bind {S : γ → δ → Prop} {f : α → Run ω κ ε σ γ} {g : β → Run ω κ ε σ δ}
    (hx : StopsShort stop missed R x y) (hf : ∀ a b, R a b → StopsShort stop missed S (f a) (g b)) :
    StopsShort stop missed S (x >>= f) (y >>= g) := by
  intro s
  rcases hx s with ⟨hstop, hmissed⟩ | ⟨hevents, hend⟩
  · exact .inl ⟨bind_end_crash hstop, bind_end_crash hmissed⟩
  rcases hxs : x s with ⟨l, o⟩
  rcases hys : y s with ⟨l', o'⟩
  rw [hxs, hys] at hevents hend
  rw [bind_apply, bind_apply, hxs, hys]
  cases hend with
  | @ok a b s₁ t₁ hs h =>
      obtain rfl : l = l' := hevents
      obtain rfl : s₁ = t₁ := hs
      rcases hf a b h s₁ with hcrash | ⟨hevents, hend⟩
      · exact .inl hcrash
      · exact .inr ⟨congrArg (l ++ ·) hevents, hend⟩
  | error hs h => exact .inr ⟨hevents, .error hs h⟩
  | crash => exact .inr ⟨hevents, .crash⟩
  | outOfFuel => exact .inr ⟨hevents, .outOfFuel⟩

theorem attempt (hx : StopsShort stop missed R x y) :
    StopsShort stop missed (Except.Related Eq R) x.attempt y.attempt := by
  intro s
  have h := hx s
  rcases hxs : x s with ⟨l, o⟩
  rcases hys : y s with ⟨l', o'⟩
  rw [hxs, hys] at h
  rw [Run.attempt, Run.attempt, hxs, hys]
  rcases h with ⟨hstop, hmissed⟩ | ⟨hevents, hend⟩
  · obtain rfl : o = .crash stop := hstop
    obtain rfl : o' = .crash missed := hmissed
    exact .inl ⟨rfl, rfl⟩
  cases hend with
  | ok hs h => exact .inr ⟨hevents, .ok hs h⟩
  | error hs h => exact .inr ⟨hevents, .ok hs h⟩
  | crash => exact .inr ⟨hevents, .crash⟩
  | outOfFuel => exact .inr ⟨hevents, .outOfFuel⟩

theorem zoom {get : τ → σ} {set : σ → τ → τ} (hx : StopsShort stop missed R x y) :
    StopsShort stop missed R (x.zoom get set) (y.zoom get set) := by
  intro t
  have h := hx (get t)
  rcases hxs : x (get t) with ⟨l, o⟩
  rcases hys : y (get t) with ⟨l', o'⟩
  rw [hxs, hys] at h
  rw [Run.zoom, Run.zoom, hxs, hys]
  rcases h with ⟨hstop, hmissed⟩ | ⟨hevents, hend⟩
  · obtain rfl : o = .crash stop := hstop
    obtain rfl : o' = .crash missed := hmissed
    exact .inl ⟨rfl, rfl⟩
  cases hend with
  | ok hs h => exact .inr ⟨hevents, .ok (congrArg (set · t) hs) h⟩
  | error hs h => exact .inr ⟨hevents, .error (congrArg (set · t) hs) h⟩
  | crash => exact .inr ⟨hevents, .crash⟩
  | outOfFuel => exact .inr ⟨hevents, .outOfFuel⟩

/-- Where the run with the checks returns, so does the other. -/
theorem isOk (hx : StopsShort stop missed R x y) {s : σ} (h : (x s).2.isOk = true) :
    (y s).2.isOk = true := by
  rcases hx s with ⟨hstop, -⟩ | ⟨-, hend⟩
  · rw [hstop] at h
    cases h
  · generalize (x s).2 = o, (y s).2 = o' at h hend
    cases hend <;> exact h

variable {z : Run ω κ ε σ α} {s : σ}

/-- The run with the checks, if it is not stopped, is the other one. -/
theorem eq_of_ne (hx : StopsShort stop missed Eq x z) (h : (x s).2 ≠ .crash stop) : x s = z s := by
  rcases hx s with ⟨hstop, -⟩ | ⟨hevents, hend⟩
  · exact absurd hstop h
  · exact Prod.ext hevents hend.eq

/-- It is, if the other one returns. -/
theorem eq_of_isOk (hx : StopsShort stop missed Eq x z) (h : (z s).2.isOk = true) : x s = z s := by
  refine hx.eq_of_ne fun hstop => ?_
  rcases hx s with ⟨-, hmissed⟩ | ⟨-, hend⟩
  · rw [hmissed] at h
    cases h
  · rw [hstop] at hend
    generalize (z s).2 = o at h hend
    cases hend
    cases h

end Run.StopsShort

def Relator.stopsShort (ω ε σ : Type) {κ : Type} (stop missed : κ) : Relator ω κ ε σ σ where
  World := Unit
  order := Run.anyOrder Unit
  Error := Eq
  Rel _ R x y := Run.StopsShort stop missed (R ()) x y
  error_refl _ := rfl
  pure h _ := .inr ⟨rfl, .ok rfl (h () (le_refl _))⟩
  bind hx hf := .bind hx (hf () (le_refl _))
  throw h _ := .inr ⟨rfl, .error rfl h⟩
  crash _ _ := .inr ⟨rfl, .crash⟩
  outOfFuel _ := .inr ⟨rfl, .outOfFuel⟩
  tell _ _ := .inr ⟨rfl, .ok rfl trivial⟩
  attempt := .attempt

/-! ## Simulations that may be given up

The first run may stop, and then nothing is said about the second one. -/

namespace Run

variable {World ω κ ε σ τ α β γ δ : Type} [Preorder World]

/-- From corresponding states of later worlds, `x` and `y` end alike, unless `x` stops. -/
def SimulatesUnless (stop : κ → Prop) (S : World → σ → τ → Prop) (E : ε → ε → Prop) (w₀ : World)
    (R : World → α → β → Prop) (x : Run ω κ ε σ α) (y : Run ω κ ε τ β) : Prop :=
  ∀ w, w₀ ≤ w → ∀ s t, S w s t → (∃ k, stop k ∧ (x s).2 = .crash k) ∨
    ∃ w', w ≤ w' ∧ Outcome.Matched (S w') E (R w') (x s).2 (y t).2

theorem Simulates.unless {stop : κ → Prop} {S : World → σ → τ → Prop} {E : ε → ε → Prop} {w₀ : World}
    {R : World → α → β → Prop} {x : Run ω κ ε σ α} {y : Run ω κ ε τ β} (h : Simulates S E w₀ R x y) :
    SimulatesUnless stop S E w₀ R x y :=
  fun w hw s t hs => .inr (h w hw s t hs)

namespace SimulatesUnless

variable {stop : κ → Prop} {S : World → σ → τ → Prop} {E : ε → ε → Prop} {w₀ w : World}
  {R : World → α → β → Prop} {x : Run ω κ ε σ α} {y : Run ω κ ε τ β}

theorem stopped {k : κ} (hk : stop k) : SimulatesUnless stop S E w₀ R (Run.crash k) y :=
  fun _ _ _ _ _ => .inl ⟨k, hk, rfl⟩

theorem bind {R' : World → γ → δ → Prop} {f : α → Run ω κ ε σ γ} {g : β → Run ω κ ε τ δ}
    (hx : SimulatesUnless stop S E w₀ R x y)
    (hf : ∀ w, w₀ ≤ w → ∀ a b, R w a b → SimulatesUnless stop S E w R' (f a) (g b)) :
    SimulatesUnless stop S E w₀ R' (x >>= f) (y >>= g) := by
  intro w hw s t hs
  rcases hx w hw s t hs with ⟨k, hk, hstop⟩ | ⟨w₁, h₁, hend⟩
  · exact .inl ⟨k, hk, bind_end_crash hstop⟩
  rcases hxs : x s with ⟨l, o⟩
  rcases hyt : y t with ⟨l', o'⟩
  rw [hxs, hyt] at hend
  rw [bind_apply, bind_apply, hxs, hyt]
  cases hend with
  | ok ht h =>
      rcases hf w₁ (hw.trans h₁) _ _ h w₁ (le_refl w₁) _ _ ht with ⟨k, hk, hstop⟩ | ⟨w₂, h₂, hend⟩
      · exact .inl ⟨k, hk, hstop⟩
      · exact .inr ⟨w₂, h₁.trans h₂, hend⟩
  | error ht h => exact .inr ⟨w₁, h₁, .error ht h⟩
  | crash => exact .inr ⟨w₁, h₁, .crash⟩
  | outOfFuel => exact .inr ⟨w₁, h₁, .outOfFuel⟩

theorem attempt (hx : SimulatesUnless stop S E w₀ R x y) :
    SimulatesUnless stop S E w₀ (fun w => Except.Related E (R w)) x.attempt y.attempt := by
  intro w hw s t hs
  rcases hx w hw s t hs with ⟨k, hk, hstop⟩ | ⟨w₁, h₁, hend⟩
  · exact .inl ⟨k, hk, attempt_end_crash hstop⟩
  refine .inr ⟨w₁, h₁, ?_⟩
  rcases hxs : x s with ⟨l, o⟩
  rcases hyt : y t with ⟨l', o'⟩
  rw [hxs, hyt] at hend
  rw [Run.attempt, Run.attempt, hxs, hyt]
  cases hend with
  | ok ht h => exact .ok ht h
  | error ht h => exact .ok ht h
  | crash => exact .crash
  | outOfFuel => exact .outOfFuel

theorem mapError {f g : ε → ε} (hf : ∀ e e', E e e' → E (f e) (g e')) (hx : SimulatesUnless stop S E w₀ R x y) :
    SimulatesUnless stop S E w₀ R (x.mapError f) (y.mapError g) := by
  intro w hw s t hs
  rcases hxs : x s with ⟨l, o⟩
  rcases hyt : y t with ⟨l', o'⟩
  have h := hx w hw s t hs
  rw [hxs, hyt] at h
  rw [Run.mapError, Run.mapError, hxs, hyt]
  rcases h with ⟨k, hk, hstop⟩ | ⟨w₁, h₁, hend⟩
  · obtain rfl : o = .crash k := hstop
    exact .inl ⟨k, hk, rfl⟩
  refine .inr ⟨w₁, h₁, ?_⟩
  cases hend with
  | ok ht h => exact .ok ht h
  | error ht h => exact .error ht (hf _ _ h)
  | crash => exact .crash
  | outOfFuel => exact .outOfFuel

end SimulatesUnless

end Run

def Relator.simulationUnless (ω : Type) {κ W ε σ τ : Type} [order : Preorder W] (stop : κ → Prop)
    (S : W → σ → τ → Prop) (E : ε → ε → Prop) (hE : ∀ e, E e e) : Relator ω κ ε σ τ where
  World := W
  order := order
  Error := E
  Rel w R x y := Run.SimulatesUnless stop S E w R x y
  error_refl := hE
  pure h w hw _ _ hs := .inr ⟨w, le_refl w, .ok hs (h w hw)⟩
  bind := .bind
  throw h w _ _ _ hs := .inr ⟨w, le_refl w, .error hs h⟩
  crash _ w _ _ _ _ := .inr ⟨w, le_refl w, .crash⟩
  outOfFuel w _ _ _ _ := .inr ⟨w, le_refl w, .outOfFuel⟩
  tell _ w _ _ _ hs := .inr ⟨w, le_refl w, .ok hs trivial⟩
  attempt := .attempt

end GenC.Lib
