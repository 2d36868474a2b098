import GenC.Lib.EndAlike

/-!
# Behaviors, and the runs that follow them

A `Behavior` is a program without a state: it returns, fails, crashes or goes on forever. Behaviors are what
the meaning of a program is written in. They form a monad, and `Behavior.loop` repeats a step for as long as it
asks for more.

A program with a state `Follows` a behavior from a state on if it returns just when the behavior does, with
results that are related, fails just when it does, with the same error, and crashes just when it does. Where it
ends it leaves a later state. There is one rule for each combinator, one to skip what only the program
does, and one for loops.
-/

namespace GenC.Lib

open Run

/-- A run without a state. More fuel does not change what it ends with. -/
structure Behavior (ω κ ε α : Type) where
  run : Nat → Run ω κ ε Unit α
  growing : Growing run

namespace Behavior

variable {ω κ ε α β γ : Type}

theorem ext_run {p q : Behavior ω κ ε α} (h : p.run = q.run) : p = q := by
  cases p
  cases q
  cases h
  rfl

/-- A run that needs no fuel. -/
def ofRun (x : Run ω κ ε Unit α) : Behavior ω κ ε α := ⟨fun _ => x, .const x⟩

protected def bind (p : Behavior ω κ ε α) (f : α → Behavior ω κ ε β) : Behavior ω κ ε β :=
  ⟨fun n => p.run n >>= fun a => (f a).run n, p.growing.bind fun a => (f a).growing⟩

instance : Monad (Behavior ω κ ε) where
  pure a := ofRun (pure a)
  bind := Behavior.bind

def throw (e : ε) : Behavior ω κ ε α := ofRun (Run.throw e)

def crash (k : κ) : Behavior ω κ ε α := ofRun (Run.crash k)

def ofExcept (r : Except ε α) : Behavior ω κ ε α := ofRun (Run.ofExcept r)

def attempt (p : Behavior ω κ ε α) : Behavior ω κ ε (Except ε α) :=
  ⟨fun n => (p.run n).attempt, p.growing.attempt⟩

def mapError (g : ε → ε) (p : Behavior ω κ ε α) : Behavior ω κ ε α :=
  ⟨fun n => (p.run n).mapError g, fun _ _ hnm => (p.growing hnm).mapError g⟩

theorem run_bind (p : Behavior ω κ ε α) (f : α → Behavior ω κ ε β) (n : Nat) :
    (p >>= f).run n = p.run n >>= fun a => (f a).run n := rfl

@[simp] theorem ofExcept_ok (a : α) : (ofExcept (.ok a) : Behavior ω κ ε α) = pure a := rfl

@[simp] theorem ofExcept_error (e : ε) : (ofExcept (.error e) : Behavior ω κ ε α) = throw e := rfl

@[simp] theorem throw_bind (e : ε) (f : α → Behavior ω κ ε β) : throw e >>= f = throw e := rfl

@[simp] theorem crash_bind (k : κ) (f : α → Behavior ω κ ε β) : crash k >>= f = crash k := rfl

@[simp] theorem attempt_ofExcept (r : Except ε α) : (ofExcept r : Behavior ω κ ε α).attempt = pure r := by
  cases r <;> rfl

@[simp] theorem attempt_crash (k : κ) : (crash k : Behavior ω κ ε α).attempt = crash k := rfl

instance : LawfulMonad (Behavior ω κ ε) := LawfulMonad.mk' _
  (fun p => ext_run (funext fun n => bind_pure (p.run n)))
  (fun a f => ext_run (funext fun n => pure_bind a fun a => (f a).run n))
  (fun p f g => ext_run (funext fun n =>
    bind_assoc (p.run n) (fun a => (f a).run n) fun b => (g b).run n))

/-! ## Loops -/

end Behavior

namespace Run

variable {ω κ ε σ α β γ : Type}

/-- At most `k` steps, each of which says whether to go on from what it gives. -/
def steps (step : α → Run ω κ ε σ (α ⊕ β)) : Nat → α → Run ω κ ε σ β
  | 0, _ => outOfFuel
  | k + 1, a => step a >>= Sum.elim (steps step k) Pure.pure

theorem steps_le {step step' : α → Run ω κ ε σ (α ⊕ β)} (h : ∀ a, Le (step a) (step' a)) {k l : Nat}
    (hkl : k ≤ l) (a : α) : Le (steps step k a) (steps step' l a) := by
  induction k generalizing l a with
  | zero => exact .outOfFuel_le _
  | succ k ih =>
      obtain ⟨l, rfl⟩ : ∃ l', l = l' + 1 := ⟨l - 1, by omega⟩
      refine (h a).bind fun r => ?_
      cases r with
      | inl a => exact ih (Nat.le_of_succ_le_succ hkl) a
      | inr b => exact .refl _

/-- Go on from what `x` returns, or from the error that it fails with. -/
def handle (x : Run ω κ ε σ α) (ok : α → Run ω κ ε σ β) (err : ε → Run ω κ ε σ β) : Run ω κ ε σ β := do
  match ← x.attempt with
  | .ok a => ok a
  | .error e => err e

@[simp] theorem handle_pure (a : α) (ok : α → Run ω κ ε σ β) (err : ε → Run ω κ ε σ β) :
    (Pure.pure a : Run ω κ ε σ α).handle ok err = ok a := rfl

@[simp] theorem handle_throw (e : ε) (ok : α → Run ω κ ε σ β) (err : ε → Run ω κ ε σ β) :
    (throw e : Run ω κ ε σ α).handle ok err = err e := rfl

section

variable {x : Run ω κ ε σ α} {ok : α → Run ω κ ε σ β} {err : ε → Run ω κ ε σ β} {s s' : σ} {l : List ω}

theorem handle_of_ok {a : α} (h : x s = (l, .ok a s')) :
    x.handle ok err s = (l ++ (ok a s').1, (ok a s').2) :=
  bind_ok (x := x.attempt) (a := .ok a) (by rw [attempt, h])

theorem handle_of_error {e : ε} (h : x s = (l, .error e s')) :
    x.handle ok err s = (l ++ (err e s').1, (err e s').2) :=
  bind_ok (x := x.attempt) (a := .error e) (by rw [attempt, h])

theorem handle_of_crash {k : κ} (h : x s = (l, .crash k)) : x.handle ok err s = (l, .crash k) :=
  bind_crash (x := x.attempt) (by rw [attempt, h])

theorem handle_of_outOfFuel (h : x s = (l, .outOfFuel)) : x.handle ok err s = (l, .outOfFuel) :=
  bind_outOfFuel (x := x.attempt) (by rw [attempt, h])

end

/-- To hand on both what is returned and the error, is to do nothing. -/
theorem handle_pure_throw (x : Run ω κ ε σ α) : x.handle Pure.pure throw = x := by
  funext s
  rcases hx : x s with ⟨l, a | e | k | _⟩
  · rw [handle_of_ok hx, pure_apply, List.append_nil]
  · rw [handle_of_error hx, throw_apply, List.append_nil]
  · exact handle_of_crash hx
  · exact handle_of_outOfFuel hx

/-- What is attempted does not fail. -/
theorem attempt_handle (x : Run ω κ ε σ α) (ok : Except ε α → Run ω κ ε σ β) (err : ε → Run ω κ ε σ β) :
    x.attempt.handle ok err = x.attempt >>= ok := by
  funext s
  rcases hx : x s with ⟨l, a | e | k | _⟩
  case ok s' =>
    have hattempt : x.attempt s = (l, .ok (.ok a) s') := by rw [attempt, hx]
    rw [handle_of_ok hattempt, bind_ok hattempt]
  case error s' =>
    have hattempt : x.attempt s = (l, .ok (.error e) s') := by rw [attempt, hx]
    rw [handle_of_ok hattempt, bind_ok hattempt]
  case crash =>
    have hattempt : x.attempt s = (l, .crash k) := by rw [attempt, hx]
    rw [handle_of_crash hattempt, bind_crash hattempt]
  case outOfFuel =>
    have hattempt : x.attempt s = (l, .outOfFuel) := by rw [attempt, hx]
    rw [handle_of_outOfFuel hattempt, bind_outOfFuel hattempt]

/-- In a sequence, each part hands its error to the same handler. -/
theorem handle_bind (x : Run ω κ ε σ α) (f : α → Run ω κ ε σ β) (ok : β → Run ω κ ε σ γ)
    (err : ε → Run ω κ ε σ γ) :
    (x >>= f).handle ok err = x.handle (fun a => (f a).handle ok err) err := by
  funext s
  rcases hx : x s with ⟨l, a | e | k | _⟩
  case ok s' =>
    rw [handle_of_ok hx]
    have hbind := bind_ok (f := f) hx
    rcases hf : f a s' with ⟨l', b | e | k | _⟩ <;> rw [hf] at hbind
    · rw [handle_of_ok hbind, handle_of_ok hf, List.append_assoc]
    · rw [handle_of_error hbind, handle_of_error hf, List.append_assoc]
    · rw [handle_of_crash hbind, handle_of_crash hf]
    · rw [handle_of_outOfFuel hbind, handle_of_outOfFuel hf]
  case error => rw [handle_of_error (bind_error hx), handle_of_error hx]
  case crash => rw [handle_of_crash (bind_crash hx), handle_of_crash hx]
  case outOfFuel => rw [handle_of_outOfFuel (bind_outOfFuel hx), handle_of_outOfFuel hx]

end Run

namespace Behavior

variable {ω κ ε α β γ : Type}

/-- Go on from what `p` returns, or from the error that it fails with. -/
def handle (p : Behavior ω κ ε α) (ok : α → Behavior ω κ ε β) (err : ε → Behavior ω κ ε β) :
    Behavior ω κ ε β := do
  match ← p.attempt with
  | .ok a => ok a
  | .error e => err e

theorem run_handle (p : Behavior ω κ ε α) (ok : α → Behavior ω κ ε β) (err : ε → Behavior ω κ ε β) (n : Nat) :
    (p.handle ok err).run n = (p.run n).handle (fun a => (ok a).run n) fun e => (err e).run n := by
  refine congrArg ((p.run n).attempt >>= ·) (funext fun r => ?_)
  cases r <;> rfl

@[simp] theorem handle_pure (a : α) (ok : α → Behavior ω κ ε β) (err : ε → Behavior ω κ ε β) :
    (pure a : Behavior ω κ ε α).handle ok err = ok a := rfl

@[simp] theorem handle_throw (e : ε) (ok : α → Behavior ω κ ε β) (err : ε → Behavior ω κ ε β) :
    (throw e : Behavior ω κ ε α).handle ok err = err e := rfl

theorem handle_bind (p : Behavior ω κ ε α) (f : α → Behavior ω κ ε β) (ok : β → Behavior ω κ ε γ)
    (err : ε → Behavior ω κ ε γ) :
    (p >>= f).handle ok err = p.handle (fun a => (f a).handle ok err) err :=
  ext_run (funext fun n => by simp only [run_handle, run_bind, Run.handle_bind])

@[simp] theorem handle_pure_throw (p : Behavior ω κ ε α) : p.handle pure throw = p :=
  ext_run (funext fun n => (run_handle _ _ _ n).trans (Run.handle_pure_throw _))

theorem attempt_handle (p : Behavior ω κ ε α) (ok : Except ε α → Behavior ω κ ε β) (err : ε → Behavior ω κ ε β) :
    p.attempt.handle ok err = p.attempt >>= ok :=
  ext_run (funext fun n => (run_handle _ _ _ n).trans (Run.attempt_handle _ _ _))

/-- What is handled may fail again. -/
theorem handle_handle (p : Behavior ω κ ε α) (ok : α → Behavior ω κ ε β) (err : ε → Behavior ω κ ε β)
    (ok' : β → Behavior ω κ ε γ) (err' : ε → Behavior ω κ ε γ) :
    (p.handle ok err).handle ok' err' =
      p.handle (fun a => (ok a).handle ok' err') fun e => (err e).handle ok' err' := by
  unfold handle
  show (p.attempt >>= _).handle ok' err' = _
  rw [handle_bind, attempt_handle]
  refine congrArg (p.attempt >>= ·) (funext fun r => ?_)
  cases r <;> rfl

theorem handle_then (p : Behavior ω κ ε α) (ok : α → Behavior ω κ ε β) (err : ε → Behavior ω κ ε β)
    (k : β → Behavior ω κ ε γ) : p.handle ok err >>= k = p.handle (fun a => ok a >>= k) fun e => err e >>= k := by
  unfold handle
  rw [bind_assoc]
  refine congrArg (p.attempt >>= ·) (funext fun r => ?_)
  cases r <;> rfl

/-- Steps until there is a result. -/
def loop (step : α → Behavior ω κ ε (α ⊕ β)) (a : α) : Behavior ω κ ε β :=
  ⟨fun n => steps (fun a => (step a).run n) n a,
    fun _ _ hnm => steps_le (fun a => (step a).growing hnm) hnm a⟩

end Behavior

/-! ## What a family ends with -/

/-- Nothing was returned, and no error either. -/
inductive Outcome.Stuck {κ ε σ α : Type} : Outcome κ ε σ α → Prop where
  | crash {k : κ} : Stuck (.crash k)
  | outOfFuel : Stuck .outOfFuel

namespace Run

variable {ω κ ε σ α β : Type} {x : Nat → Run ω κ ε σ α} {s s' : σ} {a : α} {e : ε}

theorem not_finally_of_stuck {o : Outcome κ ε σ α} (hx : ∀ n, (x n s).2 = o) (ho : o.Stuck) :
    ¬ Finally x s a s' := by
  rintro ⟨n, l, h⟩
  have hn := hx n
  rw [h] at hn
  subst hn
  cases ho

theorem not_finallyFails_of_stuck {o : Outcome κ ε σ α} (hx : ∀ n, (x n s).2 = o) (ho : o.Stuck) :
    ¬ FinallyFails x s e s' := by
  rintro ⟨n, l, h⟩
  have hn := hx n
  rw [h] at hn
  subst hn
  cases ho

theorem finally_mapError_iff {g : ε → ε} : Finally (fun n => (x n).mapError g) s a s' ↔ Finally x s a s' :=
  ⟨fun ⟨n, h⟩ => ⟨n, h.of_mapError⟩, fun ⟨n, h⟩ => ⟨n, h.mapError g⟩⟩

theorem finallyFails_mapError_iff {g : ε → ε} :
    FinallyFails (fun n => (x n).mapError g) s e s' ↔ ∃ e', FinallyFails x s e' s' ∧ e = g e' := by
  constructor
  · rintro ⟨n, l, h⟩
    rcases hxs : x n s with ⟨l', a | e' | k | _⟩ <;> simp only [mapError, hxs] at h <;> cases h
    exact ⟨e', ⟨n, l, hxs⟩, rfl⟩
  · rintro ⟨e', ⟨n, l, h⟩, rfl⟩
    exact ⟨n, l, by simp only [mapError, h]⟩

theorem Growing.handle {ok : Nat → α → Run ω κ ε σ β} {err : Nat → ε → Run ω κ ε σ β} (hx : Growing x)
    (hok : ∀ a, Growing fun n => ok n a) (herr : ∀ e, Growing fun n => err n e) :
    Growing fun n => (x n).handle (ok n) (err n) := by
  refine hx.attempt.bind fun r => ?_
  cases r with
  | ok a => exact hok a
  | error e => exact herr e

theorem finally_attempt_ok_iff : Finally (fun n => (x n).attempt) s (.ok a) s' ↔ Finally x s a s' :=
  ⟨fun ⟨n, h⟩ => ⟨n, h.of_attempt⟩, fun ⟨n, h⟩ => ⟨n, h.attempt⟩⟩

theorem finally_attempt_error_iff :
    Finally (fun n => (x n).attempt) s (.error e) s' ↔ FinallyFails x s e s' :=
  ⟨fun ⟨n, h⟩ => ⟨n, .of_attempt h⟩, fun ⟨n, h⟩ => ⟨n, h.attempt⟩⟩

theorem not_finallyFails_attempt : ¬ FinallyFails (fun n => (x n).attempt) s e s' :=
  fun ⟨_, h⟩ => not_fails_attempt h

end Run

/-! ## Following a behavior -/

namespace Run

variable {ω κ ε σ α β γ δ : Type} [Preorder σ]

/-- The program ends or crashes as the behavior does, in a later state. `Q` relates what the two return. -/
structure Follows (Q : σ → α → β → Prop) (x : Nat → Run ω κ ε σ α) (s : σ) (p : Behavior ω κ ε β) :
    Prop where
  returns : ∀ {a s'}, Finally x s a s' → s ≤ s' ∧ ∃ b, Finally p.run () b () ∧ Q s' a b
  of_returns : ∀ {b}, Finally p.run () b () → ∃ a s', Finally x s a s' ∧ Q s' a b
  fails : ∀ {e s'}, FinallyFails x s e s' → s ≤ s' ∧ FinallyFails p.run () e ()
  of_fails : ∀ {e}, FinallyFails p.run () e () → ∃ s', FinallyFails x s e s'
  crashes : ∀ {k}, FinallyCrashes x s k ↔ FinallyCrashes p.run () k

namespace Follows

variable {Q Q' : σ → α → β → Prop} {x : Nat → Run ω κ ε σ α} {s s' : σ} {p : Behavior ω κ ε β}

theorem mono (h : Follows Q x s p) (hQ : ∀ s' a b, s ≤ s' → Q s' a b → Q' s' a b) : Follows Q' x s p where
  returns ha := by
    obtain ⟨hs, b, hb, hab⟩ := h.returns ha
    exact ⟨hs, b, hb, hQ _ _ _ hs hab⟩
  of_returns hb := by
    obtain ⟨a, s', ha, hab⟩ := h.of_returns hb
    exact ⟨a, s', ha, hQ _ _ _ (h.returns ha).1 hab⟩
  fails := h.fails
  of_fails := h.of_fails
  crashes := h.crashes

/-- One step of fuel more makes no difference. -/
theorem of_succ (hx : Growing x) (h : Follows Q (fun n => x (n + 1)) s p) : Follows Q x s p := by
  have hsooner (n : Nat) : ∃ m, Le (x n) (x (m + 1)) := ⟨n, hx n.le_succ⟩
  have hlater (n : Nat) : ∃ m, Le (x (n + 1)) (x m) := ⟨n + 1, .refl _⟩
  refine ⟨fun ha => h.returns ((finally_congr hsooner hlater).mp ha), fun hb => ?_,
    fun he => h.fails ((finallyFails_congr hsooner hlater).mp he), fun he => ?_,
    (finallyCrashes_congr hsooner hlater).trans h.crashes⟩
  · obtain ⟨a, s', ha, hab⟩ := h.of_returns hb
    exact ⟨a, s', (finally_congr hsooner hlater).mpr ha, hab⟩
  · obtain ⟨s', hs'⟩ := h.of_fails he
    exact ⟨s', (finallyFails_congr hsooner hlater).mpr hs'⟩

/-- Where the behavior has nothing more to do. -/
theorem of_bind_pure (h : Follows Q x s (p >>= Pure.pure)) : Follows Q x s p := by
  rwa [bind_pure] at h

theorem pure {a : α} {b : β} (h : Q s a b) :
    Follows Q (fun _ => (Pure.pure a : Run ω κ ε σ α)) s (Pure.pure b) where
  returns ha := by
    obtain ⟨rfl, rfl⟩ := finally_pure_iff.mp ha
    exact ⟨le_refl s, b, finally_pure_iff.mpr ⟨rfl, rfl⟩, h⟩
  of_returns hb := by
    obtain ⟨rfl, -⟩ := finally_pure_iff.mp hb
    exact ⟨a, s, finally_pure_iff.mpr ⟨rfl, rfl⟩, h⟩
  fails he := (not_finallyFails_pure he).elim
  of_fails he := (not_finallyFails_pure he).elim
  crashes := iff_of_false not_finallyCrashes_pure not_finallyCrashes_pure

theorem throw (e : ε) :
    Follows Q (fun _ => (Run.throw e : Run ω κ ε σ α)) s (Behavior.throw e) where
  returns ha := (not_finally_throw ha).elim
  of_returns hb := (not_finally_throw hb).elim
  fails he := by
    obtain ⟨rfl, rfl⟩ := finallyFails_throw_iff.mp he
    exact ⟨le_refl s, finallyFails_throw_iff.mpr ⟨rfl, rfl⟩⟩
  of_fails he := by
    obtain ⟨rfl, -⟩ := finallyFails_throw_iff.mp he
    exact ⟨s, finallyFails_throw_iff.mpr ⟨rfl, rfl⟩⟩
  crashes := iff_of_false not_finallyCrashes_throw not_finallyCrashes_throw

theorem ofExcept {r : Except ε α} {r' : Except ε β} (h : Except.Related Eq (Q s) r r') :
    Follows Q (fun _ => (Run.ofExcept r : Run ω κ ε σ α)) s (Behavior.ofExcept r') := by
  rcases r with e | a <;> rcases r' with e' | b
  · obtain rfl : e = e' := h
    exact .throw e
  · cases h
  · cases h
  · exact .pure h

/-- A program of which it is known what it returns. -/
theorem of_finally {a : α} {b : β} (hx : Growing x) (ha : Finally x s a s') (hs : s ≤ s') (h : Q s' a b) :
    Follows Q x s (Pure.pure b) where
  returns ha' := by
    obtain ⟨rfl, rfl⟩ := hx.unique ha ha'
    exact ⟨hs, b, finally_pure_iff.mpr ⟨rfl, rfl⟩, h⟩
  of_returns hb := by
    obtain ⟨rfl, -⟩ := finally_pure_iff.mp hb
    exact ⟨a, s', ha, h⟩
  fails he := (hx.not_both ha he).elim
  of_fails he := (not_finallyFails_pure he).elim
  crashes := iff_of_false (hx.not_returns_crash ha) not_finallyCrashes_pure

/-- A program of which it is known what it fails with. -/
theorem of_finallyFails {e : ε} (hx : Growing x) (he : FinallyFails x s e s') (hs : s ≤ s') :
    Follows Q x s (Behavior.throw e) where
  returns ha := (hx.not_both ha he).elim
  of_returns hb := (not_finally_throw hb).elim
  fails he' := by
    obtain ⟨rfl, rfl⟩ := hx.fails_unique he he'
    exact ⟨hs, finallyFails_throw_iff.mpr ⟨rfl, rfl⟩⟩
  of_fails he' := by
    obtain ⟨rfl, -⟩ := finallyFails_throw_iff.mp he'
    exact ⟨s', he⟩
  crashes := iff_of_false (hx.not_fails_crash he) not_finallyCrashes_throw

/-- Neither of them returns or fails. -/
theorem stuck {o : Outcome κ ε σ α} {o' : Outcome κ ε Unit β} (hx : ∀ n, (x n s).2 = o)
    (hp : ∀ n, (p.run n ()).2 = o') (ho : o.Stuck) (ho' : o'.Stuck) (hcrash : ∀ k, o = .crash k ↔ o' = .crash k) :
    Follows Q x s p where
  returns ha := (not_finally_of_stuck hx ho ha).elim
  of_returns hb := (not_finally_of_stuck hp ho' hb).elim
  fails he := (not_finallyFails_of_stuck hx ho he).elim
  of_fails he := (not_finallyFails_of_stuck hp ho' he).elim
  crashes {k} := by
    have hxk : FinallyCrashes x s k ↔ o = .crash k :=
      ⟨fun ⟨n, h⟩ => (hx n).symm.trans h, fun h => ⟨0, (hx 0).trans h⟩⟩
    have hpk : FinallyCrashes p.run () k ↔ o' = .crash k :=
      ⟨fun ⟨n, h⟩ => (hp n).symm.trans h, fun h => ⟨0, (hp 0).trans h⟩⟩
    rw [hxk, hpk, hcrash]

theorem crash {k : κ} (hx : ∀ n, (x n s).2 = .crash k) : Follows Q x s (Behavior.crash k) :=
  .stuck hx (fun _ => rfl) .crash .crash fun _ => ⟨fun h => by cases h; rfl, fun h => by cases h; rfl⟩

theorem outOfFuel {hp : Growing fun _ => (Run.outOfFuel : Run ω κ ε Unit β)} :
    Follows Q (fun _ => (Run.outOfFuel : Run ω κ ε σ α)) s ⟨fun _ => Run.outOfFuel, hp⟩ :=
  .stuck (fun _ => rfl) (fun _ => rfl) .outOfFuel .outOfFuel fun _ => ⟨nofun, nofun⟩

theorem mapError (g : ε → ε) (h : Follows Q x s p) :
    Follows Q (fun n => (x n).mapError g) s (p.mapError g) where
  returns ha := by
    obtain ⟨hs, b, hb, hab⟩ := h.returns (finally_mapError_iff.mp ha)
    exact ⟨hs, b, finally_mapError_iff.mpr hb, hab⟩
  of_returns hb := by
    obtain ⟨a, s', ha, hab⟩ := h.of_returns (finally_mapError_iff.mp hb)
    exact ⟨a, s', finally_mapError_iff.mpr ha, hab⟩
  fails he := by
    obtain ⟨e', he', rfl⟩ := finallyFails_mapError_iff.mp he
    exact ⟨(h.fails he').1, finallyFails_mapError_iff.mpr ⟨e', (h.fails he').2, rfl⟩⟩
  of_fails he := by
    obtain ⟨e', he', rfl⟩ := finallyFails_mapError_iff.mp he
    obtain ⟨s', hs'⟩ := h.of_fails he'
    exact ⟨s', finallyFails_mapError_iff.mpr ⟨e', hs', rfl⟩⟩
  crashes := finallyCrashes_mapError_iff.trans (h.crashes.trans finallyCrashes_mapError_iff.symm)

/-- What is attempted returns, with what it would have returned or failed with. -/
theorem attempt (h : Follows Q x s p) :
    Follows (fun s' => Except.Related Eq (Q s')) (fun n => (x n).attempt) s p.attempt where
  returns {r s'} hr := by
    cases r with
    | ok a =>
        obtain ⟨hs, b, hb, hab⟩ := h.returns (finally_attempt_ok_iff.mp hr)
        exact ⟨hs, .ok b, finally_attempt_ok_iff.mpr hb, hab⟩
    | error e =>
        obtain ⟨hs, he⟩ := h.fails (finally_attempt_error_iff.mp hr)
        exact ⟨hs, .error e, finally_attempt_error_iff.mpr he, rfl⟩
  of_returns {r} hr := by
    cases r with
    | ok b =>
        obtain ⟨a, s', ha, hab⟩ := h.of_returns (finally_attempt_ok_iff.mp hr)
        exact ⟨.ok a, s', finally_attempt_ok_iff.mpr ha, hab⟩
    | error e =>
        obtain ⟨s', he⟩ := h.of_fails (finally_attempt_error_iff.mp hr)
        exact ⟨.error e, s', finally_attempt_error_iff.mpr he, rfl⟩
  fails he := (not_finallyFails_attempt he).elim
  of_fails he := (not_finallyFails_attempt he).elim
  crashes := finallyCrashes_attempt_iff.trans (h.crashes.trans finallyCrashes_attempt_iff.symm)

section

variable {R : σ → γ → δ → Prop} {f : Nat → α → Run ω κ ε σ γ} (hx : Growing x)
  (hf : ∀ a, Growing fun n => f n a)

include hx hf

theorem bind {g : β → Behavior ω κ ε δ} (h : Follows Q x s p)
    (hfg : ∀ a s' b, s ≤ s' → Q s' a b → Follows R (fun n => f n a) s' (g b)) :
    Follows R (fun n => x n >>= f n) s (p >>= g) := by
  have hg : ∀ b, Growing fun n => (g b).run n := fun b => (g b).growing
  refine ⟨fun {c u} hc => ?_, fun {d} hd => ?_, fun {e u} he => ?_, fun {e} he => ?_, fun {k} => ?_⟩
  · obtain ⟨a, s₁, ha, hc⟩ := (finally_bind_iff hx hf).mp hc
    obtain ⟨hs, b, hb, hab⟩ := h.returns ha
    obtain ⟨hs₁, d, hd, hcd⟩ := (hfg a s₁ b hs hab).returns hc
    exact ⟨hs.trans hs₁, d, (finally_bind_iff p.growing hg).mpr ⟨b, (), hb, hd⟩, hcd⟩
  · obtain ⟨b, _, hb, hd⟩ := (finally_bind_iff p.growing hg).mp hd
    obtain ⟨a, s₁, ha, hab⟩ := h.of_returns hb
    obtain ⟨c, s₂, hc, hcd⟩ := (hfg a s₁ b (h.returns ha).1 hab).of_returns hd
    exact ⟨c, s₂, (finally_bind_iff hx hf).mpr ⟨a, s₁, ha, hc⟩, hcd⟩
  · rcases (finallyFails_bind_iff hx hf).mp he with he | ⟨a, s₁, ha, he⟩
    · exact ⟨(h.fails he).1, (finallyFails_bind_iff p.growing hg).mpr (.inl (h.fails he).2)⟩
    · obtain ⟨hs, b, hb, hab⟩ := h.returns ha
      obtain ⟨hs₁, he⟩ := (hfg a s₁ b hs hab).fails he
      exact ⟨hs.trans hs₁, (finallyFails_bind_iff p.growing hg).mpr (.inr ⟨b, (), hb, he⟩)⟩
  · rcases (finallyFails_bind_iff p.growing hg).mp he with he | ⟨b, _, hb, he⟩
    · obtain ⟨u, hu⟩ := h.of_fails he
      exact ⟨u, (finallyFails_bind_iff hx hf).mpr (.inl hu)⟩
    · obtain ⟨a, s₁, ha, hab⟩ := h.of_returns hb
      obtain ⟨u, hu⟩ := (hfg a s₁ b (h.returns ha).1 hab).of_fails he
      exact ⟨u, (finallyFails_bind_iff hx hf).mpr (.inr ⟨a, s₁, ha, hu⟩)⟩
  · rw [finallyCrashes_bind_iff hx hf, h.crashes]
    refine Iff.trans (or_congr .rfl ⟨?_, ?_⟩) (finallyCrashes_bind_iff p.growing hg).symm
    · rintro ⟨a, s₁, ha, hk⟩
      obtain ⟨hs, b, hb, hab⟩ := h.returns ha
      exact ⟨b, (), hb, (hfg a s₁ b hs hab).crashes.mp hk⟩
    · rintro ⟨b, _, hb, hk⟩
      obtain ⟨a, s₁, ha, hab⟩ := h.of_returns hb
      exact ⟨a, s₁, ha, (hfg a s₁ b (h.returns ha).1 hab).crashes.mpr hk⟩

/-- What the program returns first, is skipped. -/
theorem skip {q : Behavior ω κ ε δ} {a : α} (ha : Finally x s a s') (hs : s ≤ s')
    (h : Follows R (fun n => f n a) s' q) : Follows R (fun n => x n >>= f n) s q := by
  refine ⟨fun {c u} hc => ?_, fun {d} hd => ?_, fun {e u} he => ?_, fun {e} he => ?_, fun {k} => ?_⟩
  · obtain ⟨a', s₁, ha', hc⟩ := (finally_bind_iff hx hf).mp hc
    obtain ⟨rfl, rfl⟩ := hx.unique ha ha'
    obtain ⟨hu, hd⟩ := h.returns hc
    exact ⟨hs.trans hu, hd⟩
  · obtain ⟨c, u, hc, hcd⟩ := h.of_returns hd
    exact ⟨c, u, (finally_bind_iff hx hf).mpr ⟨a, s', ha, hc⟩, hcd⟩
  · rcases (finallyFails_bind_iff hx hf).mp he with he | ⟨a', s₁, ha', he⟩
    · exact (hx.not_both ha he).elim
    · obtain ⟨rfl, rfl⟩ := hx.unique ha ha'
      obtain ⟨hu, he⟩ := h.fails he
      exact ⟨hs.trans hu, he⟩
  · obtain ⟨u, hu⟩ := h.of_fails he
    exact ⟨u, (finallyFails_bind_iff hx hf).mpr (.inr ⟨a, s', ha, hu⟩)⟩
  · rw [finallyCrashes_bind_iff hx hf]
    constructor
    · rintro (hk | ⟨a', s₁, ha', hk⟩)
      · exact (hx.not_returns_crash ha hk).elim
      · obtain ⟨rfl, rfl⟩ := hx.unique ha ha'
        exact h.crashes.mp hk
    · exact fun hk => .inr ⟨a, s', ha, h.crashes.mpr hk⟩

end

/-- What is done with an error, follows what is done with it. -/
theorem handle {R : σ → γ → δ → Prop} {ok : Nat → α → Run ω κ ε σ γ} {err : Nat → ε → Run ω κ ε σ γ}
    {pok : β → Behavior ω κ ε δ} {perr : ε → Behavior ω κ ε δ} (hx : Growing x)
    (hok : ∀ a, Growing fun n => ok n a) (herr : ∀ e, Growing fun n => err n e) (h : Follows Q x s p)
    (hreturns : ∀ a s' b, s ≤ s' → Q s' a b → Follows R (fun n => ok n a) s' (pok b))
    (hfails : ∀ e s', s ≤ s' → Follows R (fun n => err n e) s' (perr e)) :
    Follows R (fun n => (x n).handle (ok n) (err n)) s (p.handle pok perr) := by
  unfold Run.handle Behavior.handle
  refine bind hx.attempt ?_ h.attempt ?_
  · rintro (e | a)
    · exact herr e
    · exact hok a
  rintro (e | a) s' (e' | b) hs hr
  · obtain rfl : e = e' := hr
    exact hfails e s' hs
  · cases hr
  · cases hr
  · exact hreturns a s' b hs hr

/-! ### Loops -/

/-- Two programs with two amounts of fuel, given the same for both. -/
theorem diagonal {x : Nat → Nat → Run ω κ ε σ α} {y : Nat → Nat → Run ω κ ε Unit β}
    (hx : ∀ ⦃k l n m⦄, k ≤ l → n ≤ m → Le (x k n) (x l m))
    (hy : ∀ ⦃k l n m⦄, k ≤ l → n ≤ m → Le (y k n) (y l m))
    (h : ∀ k, Follows Q (x k) s ⟨y k, fun _ _ => hy (Nat.le_refl k)⟩) :
    Follows Q (fun n => x n n) s ⟨fun n => y n n, fun _ _ hnm => hy hnm hnm⟩ where
  returns := by
    rintro a s' ⟨n, ha⟩
    obtain ⟨hs, b, ⟨m, hb⟩, hab⟩ := (h n).returns ⟨n, ha⟩
    exact ⟨hs, b, ⟨max n m, hb.mono (hy (Nat.le_max_left n m) (Nat.le_max_right n m))⟩, hab⟩
  of_returns := by
    rintro b ⟨n, hb⟩
    obtain ⟨a, s', ⟨m, ha⟩, hab⟩ := (h n).of_returns ⟨n, hb⟩
    exact ⟨a, s', ⟨max n m, ha.mono (hx (Nat.le_max_left n m) (Nat.le_max_right n m))⟩, hab⟩
  fails := by
    rintro e s' ⟨n, he⟩
    obtain ⟨hs, m, he'⟩ := (h n).fails ⟨n, he⟩
    exact ⟨hs, max n m, he'.mono (hy (Nat.le_max_left n m) (Nat.le_max_right n m))⟩
  of_fails := by
    rintro e ⟨n, he⟩
    obtain ⟨s', m, he'⟩ := (h n).of_fails ⟨n, he⟩
    exact ⟨s', max n m, he'.mono (hx (Nat.le_max_left n m) (Nat.le_max_right n m))⟩
  crashes := by
    intro k
    constructor
    · rintro ⟨n, hk⟩
      obtain ⟨m, hk'⟩ := (h n).crashes.mp ⟨n, hk⟩
      exact ⟨max n m, crash_of_le (hy (Nat.le_max_left n m) (Nat.le_max_right n m)) hk'⟩
    · rintro ⟨n, hk⟩
      obtain ⟨m, hk'⟩ := (h n).crashes.mpr ⟨n, hk⟩
      exact ⟨max n m, crash_of_le (hx (Nat.le_max_left n m) (Nat.le_max_right n m)) hk'⟩

/-- **A loop follows a loop if each of its steps does**, from values that `R` relates. By induction on the
number of steps; the fuel of the steps themselves is another. -/
theorem loop {R : σ → α → β → Prop} {Q : σ → γ → δ → Prop} {xstep : Nat → α → Run ω κ ε σ (α ⊕ γ)}
    {pstep : β → Behavior ω κ ε (β ⊕ δ)} (hx : ∀ a, Growing fun n => xstep n a)
    (hstep : ∀ s', s ≤ s' → ∀ a b, R s' a b →
      Follows (fun s'' => Sum.LiftRel (R s'') (Q s'')) (fun n => xstep n a) s' (pstep b))
    {a : α} {b : β} (hab : R s a b) :
    Follows Q (fun n => steps (xstep n) n a) s (Behavior.loop pstep b) := by
  refine diagonal (x := fun k n => steps (xstep n) k a)
    (y := fun k n => steps (fun b => (pstep b).run n) k b)
    (fun k l n m hkl hnm => steps_le (fun a => hx a hnm) hkl a)
    (fun k l n m hkl hnm => steps_le (fun b => (pstep b).growing hnm) hkl b) fun k => ?_
  suffices h : ∀ s', s ≤ s' → ∀ a b, R s' a b → Follows Q (fun n => steps (xstep n) k a) s'
      ⟨fun n => steps (fun b => (pstep b).run n) k b, fun n m hnm =>
        steps_le (fun b => (pstep b).growing hnm) (Nat.le_refl k) b⟩ from h s (le_refl s) a b hab
  clear hab
  induction k with
  | zero => exact fun _ _ _ _ _ => .outOfFuel
  | succ k ih =>
      intro s' hs a b hab
      have hrest : ∀ r : α ⊕ γ, Growing fun n => Sum.elim (steps (xstep n) k) Pure.pure r := by
        rintro (a | c)
        · exact fun n m hnm => steps_le (fun a => hx a hnm) (Nat.le_refl k) a
        · exact .const _
      refine bind (hx a) hrest (g := fun r => ⟨fun n =>
        Sum.elim (steps (fun b => (pstep b).run n) k) Pure.pure r, ?_⟩) (hstep s' hs a b hab) ?_
      · cases r with
        | inl b => exact fun n m hnm => steps_le (fun b => (pstep b).growing hnm) (Nat.le_refl k) b
        | inr d => exact .const _
      · rintro _ s'' _ hs' (⟨hab'⟩ | ⟨hcd⟩)
        · exact ih s'' (hs.trans hs') _ _ hab'
        · exact .pure hcd

end Follows

end Run

end GenC.Lib
