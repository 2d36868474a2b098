import GenC.Lib.Run

/-!
# With enough fuel

A program with unbounded loops is a family of runs, one for each amount of fuel. `Growing` families are
those where more fuel never changes an end. `Finally x s a s'` and `FinallyFails x s e s'` say what such
a family ends with, and `FinallyCrashes x s k` that it crashes, and with them fuel is out of sight: there
is one equivalence per combinator.
-/

namespace GenC.Lib.Run

variable {ω κ ε σ α β : Type}

/-- More fuel does not change what the runs end with. -/
def Growing (x : Nat → Run ω κ ε σ α) : Prop := ∀ ⦃n m⦄, n ≤ m → Le (x n) (x m)

/-- With enough fuel, the runs return. -/
def Finally (x : Nat → Run ω κ ε σ α) (s : σ) (a : α) (s' : σ) : Prop := ∃ n, Returns (x n) s a s'

/-- With enough fuel, the runs fail. -/
def FinallyFails (x : Nat → Run ω κ ε σ α) (s : σ) (e : ε) (s' : σ) : Prop := ∃ n, Fails (x n) s e s'

theorem Fails.mono {x y : Run ω κ ε σ α} (h : Le x y) {s s' : σ} {e : ε} (hx : Fails x s e s') :
    Fails y s e s' := by
  obtain ⟨l, hl⟩ := hx
  exact ⟨l, (h.eq_of_ne (by rw [hl]; exact nofun)).trans hl⟩

/-- A failing sequence fails in its first part or in the rest. -/
theorem Fails.of_bind {x : Run ω κ ε σ α} {f : α → Run ω κ ε σ β} {s s' : σ} {e : ε}
    (h : Fails (x >>= f) s e s') :
    Fails x s e s' ∨ ∃ a u, Returns x s a u ∧ Fails (f a) u e s' := by
  obtain ⟨l, hl⟩ := h
  rcases hxs : x s with ⟨l', a | e' | k | _⟩
  case ok u =>
    rw [bind_ok hxs] at hl
    obtain ⟨-, hend⟩ := Prod.mk.inj hl
    exact .inr ⟨a, u, ⟨l', hxs⟩, (f a u).1, hend ▸ rfl⟩
  case error u =>
    rw [bind_error hxs] at hl
    obtain ⟨rfl, hend⟩ := Prod.mk.inj hl
    cases hend
    exact .inl ⟨l', hxs⟩
  case crash => cases (bind_crash hxs).symm.trans hl
  case outOfFuel => cases (bind_outOfFuel hxs).symm.trans hl

/-- What `attempt` hands on as an error, was one. -/
theorem Fails.of_attempt {x : Run ω κ ε σ α} {s s' : σ} {e : ε}
    (h : Returns x.attempt s (.error e) s') : Fails x s e s' := by
  obtain ⟨l, hl⟩ := h
  rcases hxs : x s with ⟨l', a | e' | k | _⟩ <;> simp only [Run.attempt, hxs] at hl <;> cases hl
  exact ⟨l, hxs⟩

theorem not_fails_attempt {x : Run ω κ ε σ α} {s s' : σ} {e : ε} : ¬ Fails x.attempt s e s' := by
  rintro ⟨l, hl⟩
  rcases hxs : x s with ⟨l', a | e' | k | _⟩ <;> simp only [Run.attempt, hxs] at hl <;> cases hl

theorem Fails.unique {x : Run ω κ ε σ α} {s s₁ s₂ : σ} {e₁ e₂ : ε} (h₁ : Fails x s e₁ s₁)
    (h₂ : Fails x s e₂ s₂) : e₁ = e₂ ∧ s₁ = s₂ := by
  obtain ⟨l₁, h₁⟩ := h₁
  obtain ⟨l₂, h₂⟩ := h₂
  cases h₁.symm.trans h₂
  exact ⟨rfl, rfl⟩

theorem Returns.not_fails {x : Run ω κ ε σ α} {s s₁ s₂ : σ} {a : α} {e : ε} (h₁ : Returns x s a s₁)
    (h₂ : Fails x s e s₂) : False := by
  obtain ⟨l₁, h₁⟩ := h₁
  obtain ⟨l₂, h₂⟩ := h₂
  cases h₁.symm.trans h₂

namespace Growing

theorem const (x : Run ω κ ε σ α) : Growing fun _ => x := fun _ _ _ => .refl x

theorem bind {x : Nat → Run ω κ ε σ α} {f : Nat → α → Run ω κ ε σ β} (hx : Growing x)
    (hf : ∀ a, Growing fun n => f n a) : Growing fun n => x n >>= f n :=
  fun _ _ hnm => (hx hnm).bind fun a => hf a hnm

theorem attempt {x : Nat → Run ω κ ε σ α} (hx : Growing x) : Growing fun n => (x n).attempt :=
  fun _ _ hnm => (hx hnm).attempt

variable {x : Nat → Run ω κ ε σ α} (hx : Growing x) {s : σ}

include hx

theorem returns_max {n : Nat} (m : Nat) {a : α} {s' : σ} (h : Returns (x n) s a s') :
    Returns (x (max n m)) s a s' := h.mono (hx (Nat.le_max_left n m))

theorem fails_max {n : Nat} (m : Nat) {e : ε} {s' : σ} (h : Fails (x n) s e s') :
    Fails (x (max n m)) s e s' := h.mono (hx (Nat.le_max_left n m))

/-- Once there is enough fuel, there is. -/
theorem returns_of_le {a : α} {s' : σ} (h : Finally x s a s') : ∃ n₀, ∀ n ≥ n₀, Returns (x n) s a s' := by
  obtain ⟨n₀, h⟩ := h
  exact ⟨n₀, fun n hn => h.mono (hx hn)⟩

theorem fails_of_le {e : ε} {s' : σ} (h : FinallyFails x s e s') : ∃ n₀, ∀ n ≥ n₀, Fails (x n) s e s' := by
  obtain ⟨n₀, h⟩ := h
  exact ⟨n₀, fun n hn => h.mono (hx hn)⟩

theorem unique {a b : α} {s₁ s₂ : σ} (ha : Finally x s a s₁) (hb : Finally x s b s₂) :
    a = b ∧ s₁ = s₂ := by
  obtain ⟨n, ha⟩ := ha
  obtain ⟨m, hb⟩ := hb
  exact (hx.returns_max m ha).unique (Nat.max_comm m n ▸ hx.returns_max n hb)

theorem fails_unique {e₁ e₂ : ε} {s₁ s₂ : σ} (h₁ : FinallyFails x s e₁ s₁)
    (h₂ : FinallyFails x s e₂ s₂) : e₁ = e₂ ∧ s₁ = s₂ := by
  obtain ⟨n, h₁⟩ := h₁
  obtain ⟨m, h₂⟩ := h₂
  exact (hx.fails_max m h₁).unique (Nat.max_comm m n ▸ hx.fails_max n h₂)

theorem not_both {a : α} {e : ε} {s₁ s₂ : σ} (ha : Finally x s a s₁) (he : FinallyFails x s e s₂) :
    False := by
  obtain ⟨n, ha⟩ := ha
  obtain ⟨m, he⟩ := he
  exact (hx.returns_max m ha).not_fails (Nat.max_comm m n ▸ hx.fails_max n he)

/-- What returns with enough fuel does not crash with any. -/
theorem ne_crash {a : α} {s' : σ} (ha : Finally x s a s') (n : Nat) (k : κ) : (x n s).2 ≠ .crash k := by
  obtain ⟨m, ha⟩ := ha
  obtain ⟨_, hend⟩ := hx.returns_max n ha
  intro hcrash
  rcases hx (Nat.le_max_right m n) s with hfuel | heq
  · rw [hcrash] at hfuel
    cases hfuel
  · rw [heq, hend] at hcrash
    cases hcrash

end Growing

/-! ## Combinators -/

section

variable {x : Nat → Run ω κ ε σ α} {f : Nat → α → Run ω κ ε σ β} {s s' : σ} {a a' : α} {b : β} {e e' : ε}

theorem finally_const_iff {x : Run ω κ ε σ α} : Finally (fun _ => x) s a s' ↔ Returns x s a s' :=
  ⟨fun ⟨_, h⟩ => h, fun h => ⟨0, h⟩⟩

theorem finallyFails_const_iff {x : Run ω κ ε σ α} : FinallyFails (fun _ => x) s e s' ↔ Fails x s e s' :=
  ⟨fun ⟨_, h⟩ => h, fun h => ⟨0, h⟩⟩

theorem finally_pure_iff :
    Finally (fun _ => (Pure.pure a : Run ω κ ε σ α)) s a' s' ↔ a = a' ∧ s = s' := by
  rw [finally_const_iff]
  exact ⟨(Returns.pure a s).unique, fun ⟨ha, hs⟩ => ha ▸ hs ▸ .pure a s⟩

theorem not_finallyFails_pure : ¬ FinallyFails (fun _ => (Pure.pure a : Run ω κ ε σ α)) s e s' :=
  fun h => (Returns.pure a s).not_fails (finallyFails_const_iff.mp h)

theorem finallyFails_throw_iff :
    FinallyFails (fun _ => (Run.throw e : Run ω κ ε σ α)) s e' s' ↔ e = e' ∧ s = s' := by
  rw [finallyFails_const_iff]
  exact ⟨(Fails.throw e s).unique, fun ⟨he, hs⟩ => he ▸ hs ▸ .throw e s⟩

theorem not_finally_throw : ¬ Finally (fun _ => (Run.throw e : Run ω κ ε σ α)) s a s' :=
  fun h => (finally_const_iff.mp h).not_fails (.throw e s)

theorem finally_bind_iff (hx : Growing x) (hf : ∀ a, Growing fun n => f n a) :
    Finally (fun n => x n >>= f n) s b s' ↔
      ∃ a u, Finally x s a u ∧ Finally (fun n => f n a) u b s' := by
  constructor
  · rintro ⟨n, h⟩
    obtain ⟨a, u, ha, hb⟩ := h.of_bind
    exact ⟨a, u, ⟨n, ha⟩, n, hb⟩
  · rintro ⟨a, u, ⟨n, ha⟩, m, hb⟩
    exact ⟨max n m, (hx.returns_max m ha).bind (Nat.max_comm m n ▸ (hf a).returns_max n hb)⟩

theorem finallyFails_bind_iff (hx : Growing x) (hf : ∀ a, Growing fun n => f n a) :
    FinallyFails (fun n => x n >>= f n) s e s' ↔
      FinallyFails x s e s' ∨ ∃ a u, Finally x s a u ∧ FinallyFails (fun n => f n a) u e s' := by
  constructor
  · rintro ⟨n, h⟩
    rcases h.of_bind with h | ⟨a, u, ha, he⟩
    · exact .inl ⟨n, h⟩
    · exact .inr ⟨a, u, ⟨n, ha⟩, n, he⟩
  · rintro (⟨n, h⟩ | ⟨a, u, ⟨n, ha⟩, m, he⟩)
    · exact ⟨n, h.bind_left⟩
    · exact ⟨max n m, Fails.bind (hx.returns_max m ha) (Nat.max_comm m n ▸ (hf a).fails_max n he)⟩

/-- Two families, each of which is overtaken by the other. -/
theorem finally_congr {y : Nat → Run ω κ ε σ α} (hxy : ∀ n, ∃ m, Le (x n) (y m))
    (hyx : ∀ n, ∃ m, Le (y n) (x m)) : Finally x s a s' ↔ Finally y s a s' := by
  constructor
  · rintro ⟨n, h⟩
    obtain ⟨m, hm⟩ := hxy n
    exact ⟨m, h.mono hm⟩
  · rintro ⟨n, h⟩
    obtain ⟨m, hm⟩ := hyx n
    exact ⟨m, h.mono hm⟩

theorem finallyFails_congr {y : Nat → Run ω κ ε σ α} (hxy : ∀ n, ∃ m, Le (x n) (y m))
    (hyx : ∀ n, ∃ m, Le (y n) (x m)) : FinallyFails x s e s' ↔ FinallyFails y s e s' := by
  constructor
  · rintro ⟨n, h⟩
    obtain ⟨m, hm⟩ := hxy n
    exact ⟨m, h.mono hm⟩
  · rintro ⟨n, h⟩
    obtain ⟨m, hm⟩ := hyx n
    exact ⟨m, h.mono hm⟩

end

/-! ## Crashes -/

/-- With enough fuel, the runs crash. -/
def FinallyCrashes (x : Nat → Run ω κ ε σ α) (s : σ) (k : κ) : Prop := ∃ n, (x n s).2 = .crash k

section

variable {x : Nat → Run ω κ ε σ α} {s s' : σ} {a : α} {e : ε} {k : κ}

theorem crash_of_le {x y : Run ω κ ε σ α} (h : Le x y) (hx : (x s).2 = .crash k) : (y s).2 = .crash k := by
  have hne : (x s).2 ≠ .outOfFuel := by
    rw [hx]
    exact nofun
  rw [h.eq_of_ne hne, hx]

namespace Growing

variable (hx : Growing x)

include hx

theorem crash_max {n : Nat} (m : Nat) (h : (x n s).2 = .crash k) : (x (max n m) s).2 = .crash k :=
  crash_of_le (hx (Nat.le_max_left n m)) h

theorem not_returns_crash (ha : Finally x s a s') : ¬ FinallyCrashes x s k := by
  rintro ⟨m, hk⟩
  obtain ⟨n, ha⟩ := ha
  obtain ⟨l, ha⟩ := hx.returns_max m ha
  have hk := hx.crash_max n hk
  rw [Nat.max_comm, ha] at hk
  cases hk

theorem not_fails_crash (he : FinallyFails x s e s') : ¬ FinallyCrashes x s k := by
  rintro ⟨m, hk⟩
  obtain ⟨n, he⟩ := he
  obtain ⟨l, he⟩ := hx.fails_max m he
  have hk := hx.crash_max n hk
  rw [Nat.max_comm, he] at hk
  cases hk

end Growing

theorem not_finallyCrashes_pure : ¬ FinallyCrashes (fun _ => (Pure.pure a : Run ω κ ε σ α)) s k := nofun

theorem not_finallyCrashes_throw : ¬ FinallyCrashes (fun _ => (Run.throw e : Run ω κ ε σ α)) s k := nofun

theorem attempt_crash_iff {x : Run ω κ ε σ α} : (x.attempt s).2 = .crash k ↔ (x s).2 = .crash k := by
  rw [Run.attempt]
  rcases x s with ⟨l, a | e | k' | _⟩ <;> simp

theorem mapError_crash_iff {x : Run ω κ ε σ α} {g : ε → ε} :
    (x.mapError g s).2 = .crash k ↔ (x s).2 = .crash k := by
  rw [Run.mapError]
  rcases x s with ⟨l, a | e | k' | _⟩ <;> simp

theorem bind_crash_iff {x : Run ω κ ε σ α} {f : α → Run ω κ ε σ β} :
    ((x >>= f) s).2 = .crash k ↔ (x s).2 = .crash k ∨ ∃ a u, Returns x s a u ∧ (f a u).2 = .crash k := by
  constructor
  · intro h
    rcases hxs : x s with ⟨l, a | e | k' | _⟩
    · rw [bind_ok hxs] at h
      exact .inr ⟨a, _, ⟨l, hxs⟩, h⟩
    · rw [bind_error hxs] at h
      cases h
    · rw [bind_crash hxs] at h
      cases h
      exact .inl rfl
    · rw [bind_outOfFuel hxs] at h
      cases h
  · rintro (h | ⟨a, u, ha, h⟩)
    · rcases hxs : x s with ⟨l, o⟩
      rw [hxs] at h
      subst h
      rw [bind_crash hxs]
    · rw [ha.bind_end, h]

theorem finallyCrashes_attempt_iff : FinallyCrashes (fun n => (x n).attempt) s k ↔ FinallyCrashes x s k :=
  exists_congr fun _ => attempt_crash_iff

theorem finallyCrashes_mapError_iff {g : ε → ε} :
    FinallyCrashes (fun n => (x n).mapError g) s k ↔ FinallyCrashes x s k :=
  exists_congr fun _ => mapError_crash_iff

/-- A sequence crashes in its first part, or in the rest. -/
theorem finallyCrashes_bind_iff {f : Nat → α → Run ω κ ε σ β} (hx : Growing x)
    (hf : ∀ a, Growing fun n => f n a) : FinallyCrashes (fun n => x n >>= f n) s k ↔
      FinallyCrashes x s k ∨ ∃ a u, Finally x s a u ∧ FinallyCrashes (fun n => f n a) u k := by
  constructor
  · rintro ⟨n, h⟩
    rcases bind_crash_iff.mp h with h | ⟨a, u, ha, h⟩
    · exact .inl ⟨n, h⟩
    · exact .inr ⟨a, u, ⟨n, ha⟩, n, h⟩
  · rintro (⟨n, h⟩ | ⟨a, u, ⟨n, ha⟩, m, h⟩)
    · exact ⟨n, bind_crash_iff.mpr (.inl h)⟩
    · have hrest := (hf a).crash_max n h
      rw [Nat.max_comm] at hrest
      exact ⟨max n m, bind_crash_iff.mpr (.inr ⟨a, u, hx.returns_max m ha, hrest⟩)⟩

/-- Two families, each of which is overtaken by the other. -/
theorem finallyCrashes_congr {y : Nat → Run ω κ ε σ α} (hxy : ∀ n, ∃ m, Le (x n) (y m))
    (hyx : ∀ n, ∃ m, Le (y n) (x m)) : FinallyCrashes x s k ↔ FinallyCrashes y s k := by
  constructor
  · rintro ⟨n, h⟩
    obtain ⟨m, hm⟩ := hxy n
    exact ⟨m, crash_of_le hm h⟩
  · rintro ⟨n, h⟩
    obtain ⟨m, hm⟩ := hyx n
    exact ⟨m, crash_of_le hm h⟩

end

/-! ## From some amount on -/

/-- The run ends with `r`: it returns, or it fails. -/
def EndsWith (x : Run ω κ ε σ α) (s : σ) : Except ε α → σ → Prop
  | .ok a, s' => Returns x s a s'
  | .error e, s' => Fails x s e s'

/-- From some amount of fuel on, the runs end with `r`. Unlike `Finally` this needs nothing of the rest of
a sequence. -/
def Settles (x : Nat → Run ω κ ε σ α) (s : σ) (r : Except ε α) (s' : σ) : Prop :=
  ∃ n₀, ∀ n ≥ n₀, EndsWith (x n) s r s'

namespace Settles

variable {x : Nat → Run ω κ ε σ α} {f : Nat → α → Run ω κ ε σ β} {s s' u : σ} {a : α} {e : ε}
  {r : Except ε β}

theorem of_finally (hx : Growing x) (h : Finally x s a s') : Settles x s (.ok a) s' := hx.returns_of_le h

theorem of_finallyFails (hx : Growing x) (h : FinallyFails x s e s') : Settles x s (.error e) s' :=
  hx.fails_of_le h

theorem finally_ (h : Settles x s (.ok a) s') : Finally x s a s' := by
  obtain ⟨n₀, h⟩ := h
  exact ⟨n₀, h n₀ (Nat.le_refl n₀)⟩

theorem finallyFails (h : Settles x s (.error e) s') : FinallyFails x s e s' := by
  obtain ⟨n₀, h⟩ := h
  exact ⟨n₀, h n₀ (Nat.le_refl n₀)⟩

/-- Runs that end as these do, settle on the same. -/
theorem of_end {x : Nat → Run ω κ ε σ α} {y : Nat → Run ω κ ε σ α} {s t s' : σ}
    {r : Except ε α} (h : Settles y t r s') (hend : ∃ n₀, ∀ n ≥ n₀, (x n s).2 = (y n t).2) :
    Settles x s r s' := by
  obtain ⟨n, h⟩ := h
  obtain ⟨m, hend⟩ := hend
  refine ⟨max n m, fun k hk => ?_⟩
  have hk' := h k (Nat.le_trans (Nat.le_max_left n m) hk)
  have hendk := hend k (Nat.le_trans (Nat.le_max_right n m) hk)
  cases r with
  | ok a => exact Returns.of_end hk' hendk
  | error e => exact Fails.of_end hk' hendk

theorem pure (a : α) (s : σ) : Settles (fun _ => (Pure.pure a : Run ω κ ε σ α)) s (.ok a) s :=
  ⟨0, fun _ _ => .pure a s⟩

theorem bind (ha : Settles x s (.ok a) u) (h : Settles (fun n => f n a) u r s') :
    Settles (fun n => x n >>= f n) s r s' := by
  obtain ⟨n, ha⟩ := ha
  obtain ⟨m, h⟩ := h
  refine ⟨max n m, fun k hk => ?_⟩
  have hak : Returns (x k) s a u := ha k (Nat.le_trans (Nat.le_max_left n m) hk)
  have hk := h k (Nat.le_trans (Nat.le_max_right n m) hk)
  cases r with
  | ok b => exact hak.bind hk
  | error e => exact Fails.bind hak hk

theorem bind_error (h : Settles x s (.error e) s') : Settles (fun n => x n >>= f n) s (.error e) s' := by
  obtain ⟨n, h⟩ := h
  exact ⟨n, fun k hk => Fails.bind_left (h k hk)⟩

end Settles

end GenC.Lib.Run
