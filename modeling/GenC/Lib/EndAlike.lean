import GenC.Lib.Fuel
import GenC.Lib.Relator

/-!
# Families that end alike

Two families of runs end alike if, given enough fuel, they both return, and `Q` relates what they return
and leave, or both fail, with errors that are the same (`EndAlike`) or that `E` relates (`EndUpTo`), or
neither of them does either. Like `Run.Finally` this is a notion without fuel: it composes by `bind`, and a
part that only one of the two runs has is skipped by `of_left`.
-/

namespace GenC.Lib.Run

variable {ω κ ε σ τ α β γ δ : Type}

/-- The two families end alike, with errors that are related. -/
structure EndUpTo (E : ε → ε → Prop) (Q : α → σ → β → τ → Prop) (x : Nat → Run ω κ ε σ α) (s : σ)
    (y : Nat → Run ω κ ε τ β) (t : τ) : Prop where
  returns : ∀ {a s'}, Finally x s a s' → ∃ b t', Finally y t b t' ∧ Q a s' b t'
  of_returns : ∀ {b t'}, Finally y t b t' → ∃ a s', Finally x s a s' ∧ Q a s' b t'
  fails : ∀ {e s'}, FinallyFails x s e s' → ∃ e' t', FinallyFails y t e' t' ∧ E e e'
  of_fails : ∀ {e' t'}, FinallyFails y t e' t' → ∃ e s', FinallyFails x s e s' ∧ E e e'

namespace EndUpTo

variable {E : ε → ε → Prop} {Q Q' : α → σ → β → τ → Prop} {x : Nat → Run ω κ ε σ α}
  {y : Nat → Run ω κ ε τ β} {s s' : σ} {t t' : τ}

theorem mono (h : EndUpTo E Q x s y t) (hQ : ∀ a s' b t', Q a s' b t' → Q' a s' b t') :
    EndUpTo E Q' x s y t where
  returns ha := by
    obtain ⟨b, t', hb, hab⟩ := h.returns ha
    exact ⟨b, t', hb, hQ _ _ _ _ hab⟩
  of_returns hb := by
    obtain ⟨a, s', ha, hab⟩ := h.of_returns hb
    exact ⟨a, s', ha, hQ _ _ _ _ hab⟩
  fails := h.fails
  of_fails := h.of_fails

theorem mono_error {E' : ε → ε → Prop} (h : EndUpTo E Q x s y t) (hE : ∀ e e', E e e' → E' e e') :
    EndUpTo E' Q x s y t where
  returns := h.returns
  of_returns := h.of_returns
  fails he := by
    obtain ⟨e', t', he', hee'⟩ := h.fails he
    exact ⟨e', t', he', hE _ _ hee'⟩
  of_fails he := by
    obtain ⟨e, s', he', hee'⟩ := h.of_fails he
    exact ⟨e, s', he', hE _ _ hee'⟩

theorem symm (h : EndUpTo E Q x s y t) :
    EndUpTo (fun e e' => E e' e) (fun b t' a s' => Q a s' b t') y t x s :=
  ⟨h.of_returns, h.returns, h.of_fails, h.fails⟩

theorem throw {e e' : ε} (h : E e e') :
    EndUpTo E Q (fun _ => (Run.throw e : Run ω κ ε σ α)) s (fun _ => (Run.throw e' : Run ω κ ε τ β)) t where
  returns ha := (not_finally_throw ha).elim
  of_returns hb := (not_finally_throw hb).elim
  fails he := by
    obtain ⟨rfl, rfl⟩ := finallyFails_throw_iff.mp he
    exact ⟨e', t, finallyFails_throw_iff.mpr ⟨rfl, rfl⟩, h⟩
  of_fails he := by
    obtain ⟨rfl, rfl⟩ := finallyFails_throw_iff.mp he
    exact ⟨e, s, finallyFails_throw_iff.mpr ⟨rfl, rfl⟩, h⟩

theorem pure {a : α} {b : β} (h : Q a s b t) :
    EndUpTo E Q (fun _ => (Pure.pure a : Run ω κ ε σ α)) s (fun _ => (Pure.pure b : Run ω κ ε τ β)) t where
  returns ha := by
    obtain ⟨rfl, rfl⟩ := finally_pure_iff.mp ha
    exact ⟨b, t, finally_pure_iff.mpr ⟨rfl, rfl⟩, h⟩
  of_returns hb := by
    obtain ⟨rfl, rfl⟩ := finally_pure_iff.mp hb
    exact ⟨a, s, finally_pure_iff.mpr ⟨rfl, rfl⟩, h⟩
  fails he := (not_finallyFails_pure he).elim
  of_fails he := (not_finallyFails_pure he).elim

theorem bind {R : γ → σ → δ → τ → Prop} {f : Nat → α → Run ω κ ε σ γ} {g : Nat → β → Run ω κ ε τ δ}
    (hx : Growing x) (hf : ∀ a, Growing fun n => f n a) (hy : Growing y)
    (hg : ∀ b, Growing fun n => g n b) (h : EndUpTo E Q x s y t)
    (hfg : ∀ a s' b t', Finally x s a s' → Finally y t b t' → Q a s' b t' →
      EndUpTo E R (fun n => f n a) s' (fun n => g n b) t') :
    EndUpTo E R (fun n => x n >>= f n) s (fun n => y n >>= g n) t where
  returns hc := by
    obtain ⟨a, s₁, ha, hc⟩ := (finally_bind_iff hx hf).mp hc
    obtain ⟨b, t₁, hb, hab⟩ := h.returns ha
    obtain ⟨d, t₂, hd, hcd⟩ := (hfg a s₁ b t₁ ha hb hab).returns hc
    exact ⟨d, t₂, (finally_bind_iff hy hg).mpr ⟨b, t₁, hb, hd⟩, hcd⟩
  of_returns hd := by
    obtain ⟨b, t₁, hb, hd⟩ := (finally_bind_iff hy hg).mp hd
    obtain ⟨a, s₁, ha, hab⟩ := h.of_returns hb
    obtain ⟨c, s₂, hc, hcd⟩ := (hfg a s₁ b t₁ ha hb hab).of_returns hd
    exact ⟨c, s₂, (finally_bind_iff hx hf).mpr ⟨a, s₁, ha, hc⟩, hcd⟩
  fails he := by
    -- a failure is one of the first run, or one of what follows after both have returned
    rcases (finallyFails_bind_iff hx hf).mp he with he | ⟨a, s₁, ha, he⟩
    · obtain ⟨e', t₁, he, hE⟩ := h.fails he
      exact ⟨e', t₁, (finallyFails_bind_iff hy hg).mpr (.inl he), hE⟩
    · obtain ⟨b, t₁, hb, hab⟩ := h.returns ha
      obtain ⟨e', t₂, he, hE⟩ := (hfg a s₁ b t₁ ha hb hab).fails he
      exact ⟨e', t₂, (finallyFails_bind_iff hy hg).mpr (.inr ⟨b, t₁, hb, he⟩), hE⟩
  of_fails he := by
    rcases (finallyFails_bind_iff hy hg).mp he with he | ⟨b, t₁, hb, he⟩
    · obtain ⟨e, s₁, he, hE⟩ := h.of_fails he
      exact ⟨e, s₁, (finallyFails_bind_iff hx hf).mpr (.inl he), hE⟩
    · obtain ⟨a, s₁, ha, hab⟩ := h.of_returns hb
      obtain ⟨e, s₂, he, hE⟩ := (hfg a s₁ b t₁ ha hb hab).of_fails he
      exact ⟨e, s₂, (finallyFails_bind_iff hx hf).mpr (.inr ⟨a, s₁, ha, he⟩), hE⟩

/-- What comes after parts that do not return does not matter. -/
theorem bind_of_not_returns {R : γ → σ → δ → τ → Prop} {f : Nat → α → Run ω κ ε σ γ}
    {g : Nat → β → Run ω κ ε τ δ} (hx : Growing x) (hf : ∀ a, Growing fun n => f n a) (hy : Growing y)
    (hg : ∀ b, Growing fun n => g n b) (h : EndUpTo E Q x s y t) (hno : ¬ ∃ a s', Finally x s a s') :
    EndUpTo E R (fun n => x n >>= f n) s (fun n => y n >>= g n) t :=
  .bind hx hf hy hg h fun a s' _ _ ha _ _ => (hno ⟨a, s', ha⟩).elim

/-- Families end alike if their runs do, with any fuel. -/
theorem of_matched {World : Type} [Preorder World] {S : World → σ → τ → Prop} {w : World}
    {R : World → α → β → Prop}
    (hend : ∀ n, ∃ w', w ≤ w' ∧ Outcome.Matched (S w') E (R w') (x n s).2 (y n t).2) :
    EndUpTo E (fun a s' b t' => ∃ w', w ≤ w' ∧ S w' s' t' ∧ R w' a b) x s y t := by
  refine ⟨?_, ?_, ?_, ?_⟩
  · rintro a s' ⟨n, _, hx⟩
    obtain ⟨w', hw, hend⟩ := hend n
    rcases hy : y n t with ⟨l, o⟩
    rw [hx, hy] at hend
    cases hend with
    | @ok _ b _ t' hst hab => exact ⟨b, t', ⟨n, l, hy⟩, w', hw, hst, hab⟩
  · rintro b t' ⟨n, _, hy⟩
    obtain ⟨w', hw, hend⟩ := hend n
    rcases hx : x n s with ⟨l, o⟩
    rw [hx, hy] at hend
    cases hend with
    | @ok a _ s' _ hst hab => exact ⟨a, s', ⟨n, l, hx⟩, w', hw, hst, hab⟩
  · rintro e s' ⟨n, _, hx⟩
    obtain ⟨w', -, hend⟩ := hend n
    rcases hy : y n t with ⟨l, o⟩
    rw [hx, hy] at hend
    cases hend with
    | @error _ e' _ t' _ he => exact ⟨e', t', ⟨n, l, hy⟩, he⟩
  · rintro e' t' ⟨n, _, hy⟩
    obtain ⟨w', -, hend⟩ := hend n
    rcases hx : x n s with ⟨l, o⟩
    rw [hx, hy] at hend
    cases hend with
    | @error e _ s' _ _ he => exact ⟨e, s', ⟨n, l, hx⟩, he⟩

/-- So runs that a simulation relates end alike. -/
theorem of_simulates {World : Type} [Preorder World] {S : World → σ → τ → Prop} {w : World}
    {R : World → α → β → Prop} (h : ∀ n, Simulates S E w R (x n) (y n)) (hs : S w s t) :
    EndUpTo E (fun a s' b t' => ∃ w', w ≤ w' ∧ S w' s' t' ∧ R w' a b) x s y t :=
  .of_matched fun n => h n w (le_refl w) s t hs

end EndUpTo

/-! ## With the same errors -/

structure EndAlike (Q : α → σ → β → τ → Prop) (x : Nat → Run ω κ ε σ α) (s : σ)
    (y : Nat → Run ω κ ε τ β) (t : τ) : Prop where
  returns : ∀ {a s'}, Finally x s a s' → ∃ b t', Finally y t b t' ∧ Q a s' b t'
  of_returns : ∀ {b t'}, Finally y t b t' → ∃ a s', Finally x s a s' ∧ Q a s' b t'
  fails : ∀ {e s'}, FinallyFails x s e s' → ∃ t', FinallyFails y t e t'
  of_fails : ∀ {e t'}, FinallyFails y t e t' → ∃ s', FinallyFails x s e s'

/-- That is to end alike up to equality. -/
theorem EndAlike.upTo {Q : α → σ → β → τ → Prop} {x : Nat → Run ω κ ε σ α} {s : σ}
    {y : Nat → Run ω κ ε τ β} {t : τ} (h : EndAlike Q x s y t) : EndUpTo Eq Q x s y t where
  returns := h.returns
  of_returns := h.of_returns
  fails he := by
    obtain ⟨t', he'⟩ := h.fails he
    exact ⟨_, t', he', rfl⟩
  of_fails he := by
    obtain ⟨s', he'⟩ := h.of_fails he
    exact ⟨_, s', he', rfl⟩

theorem EndUpTo.endAlike {Q : α → σ → β → τ → Prop} {x : Nat → Run ω κ ε σ α} {s : σ}
    {y : Nat → Run ω κ ε τ β} {t : τ} (h : EndUpTo Eq Q x s y t) : EndAlike Q x s y t where
  returns := h.returns
  of_returns := h.of_returns
  fails he := by
    obtain ⟨_, t', he', rfl⟩ := h.fails he
    exact ⟨t', he'⟩
  of_fails he := by
    obtain ⟨_, s', he', rfl⟩ := h.of_fails he
    exact ⟨s', he'⟩

/-- The two families end with the same, in the same state. -/
abbrev EndSame (x : Nat → Run ω κ ε σ α) (s : σ) (y : Nat → Run ω κ ε σ α) (t : σ) : Prop :=
  EndAlike (fun a s' b t' => a = b ∧ s' = t') x s y t

namespace EndAlike

variable {Q Q' : α → σ → β → τ → Prop} {x : Nat → Run ω κ ε σ α} {y : Nat → Run ω κ ε τ β} {s s' : σ}
  {t t' : τ}

theorem mono (h : EndAlike Q x s y t) (hQ : ∀ a s' b t', Q a s' b t' → Q' a s' b t') :
    EndAlike Q' x s y t where
  returns ha := by
    obtain ⟨b, t', hb, hab⟩ := h.returns ha
    exact ⟨b, t', hb, hQ _ _ _ _ hab⟩
  of_returns hb := by
    obtain ⟨a, s', ha, hab⟩ := h.of_returns hb
    exact ⟨a, s', ha, hQ _ _ _ _ hab⟩
  fails := h.fails
  of_fails := h.of_fails

theorem symm (h : EndAlike Q x s y t) : EndAlike (fun b t' a s' => Q a s' b t') y t x s :=
  ⟨h.of_returns, h.returns, h.of_fails, h.fails⟩

/-- What ends exactly as the other, ends alike with whatever that does. -/
theorem of_iff {x' : Nat → Run ω κ ε σ α} (h : EndAlike Q x' s' y t)
    (hreturns : ∀ {a u}, Finally x s a u ↔ Finally x' s' a u)
    (hfails : ∀ {e u}, FinallyFails x s e u ↔ FinallyFails x' s' e u) : EndAlike Q x s y t where
  returns ha := h.returns (hreturns.mp ha)
  of_returns hb := by
    obtain ⟨a, u, ha, hab⟩ := h.of_returns hb
    exact ⟨a, u, hreturns.mpr ha, hab⟩
  fails he := h.fails (hfails.mp he)
  of_fails he := (h.of_fails he).imp fun _ => hfails.mpr

theorem refl (x : Nat → Run ω κ ε σ α) (s : σ) : EndSame x s x s :=
  ⟨fun h => ⟨_, _, h, rfl, rfl⟩, fun h => ⟨_, _, h, rfl, rfl⟩, fun h => ⟨_, h⟩, fun h => ⟨_, h⟩⟩

theorem same_symm {x' : Nat → Run ω κ ε σ α} (h : EndSame x s x' s') : EndSame x' s' x s :=
  h.symm.mono fun _ _ _ _ h => ⟨h.1.symm, h.2.symm⟩

/-- A family may be replaced by one that ends with the same. -/
theorem of_same {x' : Nat → Run ω κ ε σ α} (h : EndSame x s x' s') (h' : EndAlike Q x' s' y t) :
    EndAlike Q x s y t where
  returns ha := by
    obtain ⟨_, _, ha, rfl, rfl⟩ := h.returns ha
    exact h'.returns ha
  of_returns hb := by
    obtain ⟨_, _, ha, hab⟩ := h'.of_returns hb
    obtain ⟨a, u, hx, rfl, rfl⟩ := h.of_returns ha
    exact ⟨a, u, hx, hab⟩
  fails he := by
    obtain ⟨_, he⟩ := h.fails he
    exact h'.fails he
  of_fails he := by
    obtain ⟨_, he⟩ := h'.of_fails he
    exact h.of_fails he

theorem trans_same {y' : Nat → Run ω κ ε τ β} (h : EndAlike Q x s y t) (h' : EndSame y t y' t') :
    EndAlike Q x s y' t' :=
  (of_same h'.same_symm h.symm).symm

/-- One step of fuel more makes no difference. -/
theorem of_succ (hx : Growing x) (h : EndAlike Q (fun n => x (n + 1)) s y t) : EndAlike Q x s y t := by
  have hreturns : ∀ {a u}, Finally x s a u ↔ Finally (fun n => x (n + 1)) s a u :=
    fun {_ _} => finally_congr (fun n => ⟨n, hx n.le_succ⟩) fun n => ⟨n + 1, .refl _⟩
  have hfails : ∀ {e u}, FinallyFails x s e u ↔ FinallyFails (fun n => x (n + 1)) s e u :=
    fun {_ _} => finallyFails_congr (fun n => ⟨n, hx n.le_succ⟩) fun n => ⟨n + 1, .refl _⟩
  exact .of_iff h hreturns hfails

theorem pure {a : α} {b : β} (h : Q a s b t) :
    EndAlike Q (fun _ => (Pure.pure a : Run ω κ ε σ α)) s (fun _ => (Pure.pure b : Run ω κ ε τ β)) t :=
  (EndUpTo.pure h).endAlike

section

variable {R : γ → σ → δ → τ → Prop} {f : Nat → α → Run ω κ ε σ γ} {g : Nat → β → Run ω κ ε τ δ}
  (hx : Growing x) (hf : ∀ a, Growing fun n => f n a)

include hx hf

theorem bind (hy : Growing y) (hg : ∀ b, Growing fun n => g n b) (h : EndAlike Q x s y t)
    (hfg : ∀ a s' b t', Finally x s a s' → Finally y t b t' → Q a s' b t' →
      EndAlike R (fun n => f n a) s' (fun n => g n b) t') :
    EndAlike R (fun n => x n >>= f n) s (fun n => y n >>= g n) t :=
  (h.upTo.bind hx hf hy hg fun a s' b t' ha hb hab => (hfg a s' b t' ha hb hab).upTo).endAlike

/-- What returns first on one side only, is skipped. -/
theorem of_left {a : α} {y : Nat → Run ω κ ε τ δ} (ha : Finally x s a s')
    (h : EndAlike R (fun n => f n a) s' y t) : EndAlike R (fun n => x n >>= f n) s y t := by
  refine of_iff h (fun {c u} => ?_) fun {e u} => ?_
  · rw [finally_bind_iff hx hf]
    constructor
    · rintro ⟨a', s₁, ha', hc⟩
      obtain ⟨rfl, rfl⟩ := hx.unique ha ha'
      exact hc
    · exact fun hc => ⟨a, s', ha, hc⟩
  · rw [finallyFails_bind_iff hx hf]
    constructor
    · rintro (he | ⟨a', s₁, ha', he⟩)
      · exact (hx.not_both ha he).elim
      · obtain ⟨rfl, rfl⟩ := hx.unique ha ha'
        exact he
    · exact fun he => .inr ⟨a, s', ha, he⟩

end

theorem of_right {R : γ → σ → δ → τ → Prop} {x : Nat → Run ω κ ε σ γ} {g : Nat → β → Run ω κ ε τ δ}
    {b : β} (hy : Growing y) (hg : ∀ b, Growing fun n => g n b) (hb : Finally y t b t')
    (h : EndAlike R x s (fun n => g n b) t') : EndAlike R x s (fun n => y n >>= g n) t :=
  (of_left hy hg hb h.symm).symm

/-- Two families of which it is known what they end with. -/
theorem of_settles (hx : Growing x) (hy : Growing y) {r : Except ε α} {r' : Except ε β}
    (hr : Settles x s r s') (hr' : Settles y t r' t')
    (h : Except.Related Eq (fun a b => Q a s' b t') r r') : EndAlike Q x s y t := by
  rcases r with e | a <;> rcases r' with e' | b
  · obtain rfl : e = e' := h
    refine ⟨fun ha => ?_, fun hb => ?_, fun he => ?_, fun he => ?_⟩
    · exact (hx.not_both ha hr.finallyFails).elim
    · exact (hy.not_both hb hr'.finallyFails).elim
    · exact ⟨t', (hx.fails_unique hr.finallyFails he).1 ▸ hr'.finallyFails⟩
    · exact ⟨s', (hy.fails_unique hr'.finallyFails he).1 ▸ hr.finallyFails⟩
  · cases h
  · cases h
  · refine ⟨fun ha => ?_, fun hb => ?_, fun he => ?_, fun he => ?_⟩
    · obtain ⟨rfl, rfl⟩ := hx.unique hr.finally_ ha
      exact ⟨b, t', hr'.finally_, h⟩
    · obtain ⟨rfl, rfl⟩ := hy.unique hr'.finally_ hb
      exact ⟨a, s', hr.finally_, h⟩
    · exact (hx.not_both hr.finally_ he).elim
    · exact (hy.not_both hr'.finally_ he).elim

end EndAlike

/-! ## Parts that are replaced -/

namespace EndUpTo

variable {E : ε → ε → Prop} {Q : α → σ → β → τ → Prop} {x : Nat → Run ω κ ε σ α}
  {y : Nat → Run ω κ ε τ β} {s s' : σ} {t t' : τ}

/-- A family may be replaced by one that ends with the same. -/
theorem of_same {x' : Nat → Run ω κ ε σ α} (hsame : EndSame x s x' s') (h : EndUpTo E Q x' s' y t) :
    EndUpTo E Q x s y t where
  returns ha := by
    obtain ⟨_, _, ha, rfl, rfl⟩ := hsame.returns ha
    exact h.returns ha
  of_returns hb := by
    obtain ⟨_, _, ha, hab⟩ := h.of_returns hb
    obtain ⟨a, u, hx, rfl, rfl⟩ := hsame.of_returns ha
    exact ⟨a, u, hx, hab⟩
  fails he := by
    obtain ⟨_, he⟩ := hsame.fails he
    exact h.fails he
  of_fails he := by
    obtain ⟨e, _, he, hE⟩ := h.of_fails he
    obtain ⟨u, he⟩ := hsame.of_fails he
    exact ⟨e, u, he, hE⟩

theorem trans_same {y' : Nat → Run ω κ ε τ β} (h : EndUpTo E Q x s y t) (hsame : EndSame y t y' t') :
    EndUpTo E Q x s y' t' :=
  (of_same hsame.same_symm h.symm).symm

theorem of_left {f : Nat → γ → Run ω κ ε σ α} {z : Nat → Run ω κ ε σ γ} {c : γ} (hz : Growing z)
    (hf : ∀ c, Growing fun n => f n c) (hc : Finally z s c s')
    (h : EndUpTo E Q (fun n => f n c) s' y t) : EndUpTo E Q (fun n => z n >>= f n) s y t :=
  of_same (.of_left hz hf hc (.refl _ s')) h

theorem of_right {g : Nat → γ → Run ω κ ε τ β} {z : Nat → Run ω κ ε τ γ} {c : γ} (hz : Growing z)
    (hg : ∀ c, Growing fun n => g n c) (hc : Finally z t c t')
    (h : EndUpTo E Q x s (fun n => g n c) t') : EndUpTo E Q x s (fun n => z n >>= g n) t :=
  trans_same h (EndAlike.of_left hz hg hc (.refl _ t')).same_symm

end EndUpTo

theorem EndAlike.of_simulates {x : Nat → Run ω κ ε σ α} {y : Nat → Run ω κ ε τ β} {s : σ} {t : τ}
    {World : Type} [Preorder World] {S : World → σ → τ → Prop} {w : World} {R : World → α → β → Prop}
    (h : ∀ n, Simulates S Eq w R (x n) (y n)) (hs : S w s t) :
    EndAlike (fun a s' b t' => ∃ w', w ≤ w' ∧ S w' s' t' ∧ R w' a b) x s y t :=
  (EndUpTo.of_simulates h hs).endAlike

end GenC.Lib.Run
