import GenC.Lib.Naming
import Mathlib.Data.List.Nodup

/-!
# Reordering definitions

Definitions that are evaluated one after another (`Elaborates`) may be reordered, if every expression finds
the names that it depends on as it found them before: what an expression depends on is said by `Within`, and
`Transfers` says that it depends on nothing else. The two orders may be evaluated by different evaluators.
**`Elaborates.reorder`**: if each name that an expression is within comes before it in both orders or in
neither, the two orders end in environments that bind all names alike.
-/

namespace GenC.Lib

variable {ν ε α σ : Type} [DecidableEq ν]

/-! ## Orders of names -/

/-- `m` comes first. -/
def Before (l : List ν) (m n : ν) : Prop := l.idxOf m < l.idxOf n

instance (l : List ν) (m n : ν) : Decidable (Before l m n) := Nat.decLt _ _

theorem mem_iff_before {l p r : List ν} {m n : ν} (hl : l = p ++ n :: r) (hn : n ∉ p) :
    m ∈ p ↔ Before l m n := by
  subst hl
  rw [Before, List.idxOf_append, List.idxOf_append, if_neg hn, List.idxOf_cons_self, Nat.zero_add]
  constructor
  · intro hm
    rw [if_pos hm]
    exact List.idxOf_lt_length_of_mem hm
  · intro hlt
    by_contra hm
    rw [if_neg hm] at hlt
    omega

theorem Before.mem {l : List ν} {m n : ν} (h : Before l m n) : m ∈ l :=
  List.idxOf_lt_length_iff.mp (Nat.lt_of_lt_of_le h List.idxOf_le_length)

theorem before_or_before {l : List ν} {m n : ν} (hm : m ∈ l) (hne : m ≠ n) : Before l m n ∨ Before l n m :=
  Nat.lt_or_gt_of_ne fun heq => hne ((List.idxOf_inj hm).mp heq)

/-- The names before a definition are those before it in its list. -/
theorem mem_map_iff_before {l p r : List (ν × ε)} {n : ν} {e : ε} (hl : (l.map Prod.fst).Nodup)
    (heq : l = p ++ (n, e) :: r) {m : ν} : m ∈ p.map Prod.fst ↔ Before (l.map Prod.fst) m n := by
  have hmap : l.map Prod.fst = p.map Prod.fst ++ n :: r.map Prod.fst := by
    rw [heq, List.map_append, List.map_cons]
  refine mem_iff_before hmap fun hn => ?_
  rw [hmap] at hl
  exact (List.nodup_append.mp hl).2.2 n hn n (List.mem_cons_self ..) rfl

/-! ## Evaluation that depends on lookups -/

variable [Preorder σ] (Eval Eval' : ε → List (ν × α) → σ → α → σ → Prop) (Within : Set ν → ε → Prop)
  (R : α → σ → α → σ → Prop) (Alive : List (ν × α) → σ → Prop)

/-- The environments bind all names alike. -/
def BindAlike (env : List (ν × α)) (s : σ) (env' : List (ν × α)) (t : σ) (x : ν) : Prop :=
  Option.Rel (fun v v' => R v s v' t) (env.lookup x) (env'.lookup x)

/-- What is evaluated stays alive. -/
structure Lives : Prop where
  grows : ∀ {e env s v s'}, Alive env s → Eval e env s v s' → s ≤ s'
  alive : ∀ {e env s v s' x}, Alive env s → Eval e env s v s' → Alive ((x, v) :: env) s'

/-- What an expression evaluates to depends on the names that it is within. -/
structure Transfers : Prop where
  mono : ∀ {v s v' t s' t'}, R v s v' t → s ≤ s' → t ≤ t' → R v s' v' t'
  lives : Lives Eval Alive
  lives' : Lives Eval' Alive
  transfer : ∀ {e env s v s' env' t M}, Within M e → Alive env s → Alive env' t →
    (∀ x ∈ M, BindAlike R env s env' t x) → Eval e env s v s' →
      ∃ v' t', Eval' e env' t v' t' ∧ R v s' v' t'

variable {Eval Eval' Within R Alive} {defs xs ys : List (ν × ε)} {env env' env₁ : List (ν × α)} {s s' s₁ t : σ}

omit [DecidableEq ν] in
/-- So is an environment. By induction on the definitions. -/
theorem Elaborates.alive (hlives : Lives Eval Alive) (h : Elaborates Eval defs env s env' s')
    (halive : Alive env s) : Alive env' s' := by
  induction h with
  | nil => exact halive
  | cons he _ ih => exact ih (hlives.alive halive he)

/-- The names are bound as in a run of which was recorded what each came to be bound to, and when; all
others are bound as before. -/
structure Recorded (tr : ν → Option (α × σ)) (names : List ν) (env env₁ : List (ν × α)) (s₁ : σ) :
    Prop where
  bound : ∀ m ∈ names, ∃ v u, tr m = some (v, u) ∧ env₁.lookup m = some v ∧ u ≤ s₁
  free : ∀ m ∉ names, env₁.lookup m = env.lookup m

omit [Preorder σ] in
theorem lookup_cons_of_ne {x m : ν} (v : α) (env : List (ν × α)) (h : m ≠ x) :
    List.lookup m ((x, v) :: env) = env.lookup m := by
  rw [List.lookup_cons, beq_false_of_ne h]

theorem Recorded.cons {tr : ν → Option (α × σ)} {names : List ν} {x : ν} {v : α}
    (h : Recorded tr names ((x, v) :: env) env₁ s₁) (hx : x ∉ names) (hs : s ≤ s₁) :
    Recorded (fun m => if m = x then some (v, s) else tr m) (x :: names) env env₁ s₁ where
  bound m hm := by
    by_cases hmx : m = x
    · subst hmx
      have hlookup : env₁.lookup m = some v := by
        rw [h.free m hx, List.lookup_cons, beq_self_eq_true]
      exact ⟨v, s, if_pos rfl, hlookup, hs⟩
    · obtain ⟨w, u, htr, hw, hu⟩ := h.bound m ((List.mem_cons.mp hm).resolve_left hmx)
      exact ⟨w, u, (if_neg hmx).trans htr, hw, hu⟩
  free m hm := by
    obtain ⟨hmx, hm⟩ := not_or.mp (List.mem_cons.not.mp hm)
    rw [h.free m hm, lookup_cons_of_ne v env hmx]

/-- Runs can be recorded. By induction on the definitions. -/
theorem Elaborates.recorded (hlives : Lives Eval Alive) (h : Elaborates Eval defs env s env' s')
    (halive : Alive env s) (hnodup : (defs.map Prod.fst).Nodup) :
    s ≤ s' ∧ ∃ tr, Recorded tr (defs.map Prod.fst) env env' s' ∧
      ∀ p n e r, defs = p ++ (n, e) :: r → ∃ env₁ s₁ v u, Alive env₁ s₁ ∧ s ≤ s₁ ∧
        Recorded tr (p.map Prod.fst) env env₁ s₁ ∧ tr n = some (v, u) ∧ Eval e env₁ s₁ v u := by
  induction h with
  | @nil env s =>
      refine ⟨le_refl s, fun _ => none, ⟨fun m hm => (nomatch hm), fun m _ => rfl⟩, fun p n e r h => ?_⟩
      exact (List.append_ne_nil_of_right_ne_nil p (List.cons_ne_nil _ r) h.symm).elim
  | @cons x e defs env env' v s s₁ s' he h ih =>
      obtain ⟨hx, hnodup⟩ := List.nodup_cons.mp hnodup
      -- what is defined later is recorded, and does not define the first name again
      obtain ⟨hs', tr, hrecorded, htr⟩ := ih (hlives.alive halive he) hnodup
      have hs₁ := hlives.grows halive he
      refine ⟨hs₁.trans hs', _, hrecorded.cons hx hs', fun p n e' r hsplit => ?_⟩
      rcases p with _ | ⟨d, p⟩
      · obtain ⟨heq, -⟩ := List.cons.inj hsplit
        cases heq
        exact ⟨env, s, v, s₁, halive, le_refl s, ⟨fun m hm => (nomatch hm), fun m _ => rfl⟩, if_pos rfl, he⟩
      · obtain ⟨hd, hrest⟩ := List.cons.inj hsplit
        subst hd
        have hrest : defs = p ++ (n, e') :: r := hrest
        obtain ⟨env₁, s₂, w, u, halive₁, hs₂, hrecorded₁, htrn, heval⟩ := htr p n e' r hrest
        have hn : n ≠ x := by
          rintro rfl
          refine hx (List.mem_map.mpr ⟨(n, e'), ?_, rfl⟩)
          rw [hrest]
          exact List.mem_append_right p (List.mem_cons_self ..)
        have hxp : x ∉ p.map Prod.fst := by
          rw [hrest, List.map_append] at hx
          exact fun hmem => hx (List.mem_append_left _ hmem)
        exact ⟨env₁, s₂, w, u, halive₁, hs₁.trans hs₂, hrecorded₁.cons hxp hs₂, (if_neg hn).trans htrn, heval⟩

theorem BindAlike.mono (hT : Transfers Eval Eval' Within R Alive) {x : ν} {t₁ : σ}
    (h : BindAlike R env s env' t x) (hs : s ≤ s₁) (ht : t ≤ t₁) : BindAlike R env s₁ env' t₁ x := by
  unfold BindAlike at h ⊢
  cases hx : env.lookup x <;> cases hx' : env'.lookup x <;> rw [hx, hx'] at h <;> cases h
  · exact .none
  · next h => exact .some (hT.mono h hs ht)

/-- The names are bound like those of the run that was recorded. -/
structure Follows (R : α → σ → α → σ → Prop) (tr : ν → Option (α × σ)) (names : List ν)
    (env env₁ : List (ν × α)) (s₁ : σ) : Prop where
  bound : ∀ m ∈ names, ∃ v u v', tr m = some (v, u) ∧ env₁.lookup m = some v' ∧ R v u v' s₁
  free : ∀ m ∉ names, env₁.lookup m = env.lookup m

namespace Follows

variable {tr : ν → Option (α × σ)} {names : List ν} {t₁ : σ} {env₂ : List (ν × α)}

theorem concat (hT : Transfers Eval Eval' Within R Alive) (h : Follows R tr names env' env₂ t) {x : ν}
    {v v' : α} {u : σ} (hx : tr x = some (v, u)) (hv : R v u v' t₁) (ht : t ≤ t₁) :
    Follows R tr (names ++ [x]) env' ((x, v') :: env₂) t₁ where
  bound m hm := by
    by_cases hmx : m = x
    · subst hmx
      refine ⟨v, u, v', hx, ?_, hv⟩
      rw [List.lookup_cons, beq_self_eq_true]
    · have hm : m ∈ names := by simpa [hmx] using hm
      obtain ⟨w, u', w', htr, hw, hR⟩ := h.bound m hm
      exact ⟨w, u', w', htr, (lookup_cons_of_ne v' env₂ hmx).trans hw, hT.mono hR (le_refl u') ht⟩
  free m hm := by
    simp only [List.mem_append, List.mem_singleton, not_or] at hm
    rw [lookup_cons_of_ne v' env₂ hm.2, h.free m hm.1]

/-- A name that both runs have bound, or neither, is bound alike. -/
theorem bindAlike (hT : Transfers Eval Eval' Within R Alive) {names' : List ν} {x : ν}
    (h : Follows R tr names' env' env₂ t₁) (hrecorded : Recorded tr names env env₁ s₁)
    (henv : BindAlike R env s env' t x) (hs : s ≤ s₁) (ht : t ≤ t₁) (hx : x ∈ names ↔ x ∈ names') :
    BindAlike R env₁ s₁ env₂ t₁ x := by
  unfold BindAlike
  by_cases hmem : x ∈ names
  · obtain ⟨v, u, htr, hv, hu⟩ := hrecorded.bound x hmem
    -- both sides look the name up in the same trace
    obtain ⟨w, u', v', htr', hv', hR⟩ := h.bound x (hx.mp hmem)
    cases htr.symm.trans htr'
    rw [hv, hv']
    exact .some (hT.mono hR hu (le_refl t₁))
  · rw [hrecorded.free x hmem, h.free x (hx.not.mp hmem)]
    exact henv.mono hT hs ht

end Follows

/-- **Definitions may be reordered** if no expression depends on a name that comes before it in one of the
orders only. By induction on the second order. -/
theorem Elaborates.reorder (hT : Transfers Eval Eval' Within R Alive) (hxs : Elaborates Eval xs env s env₁ s₁)
    (halive : Alive env s) (halive' : Alive env' t) (hnodup : (xs.map Prod.fst).Nodup) (hperm : xs.Perm ys)
    (henv : ∀ x, BindAlike R env s env' t x)
    (hwithin : ∀ d ∈ xs, ∃ M, Within M d.2 ∧
      ∀ m ∈ M, Before (xs.map Prod.fst) m d.1 ↔ Before (ys.map Prod.fst) m d.1) :
    ∃ env₂ t₁, Elaborates Eval' ys env' t env₂ t₁ ∧ s ≤ s₁ ∧ t ≤ t₁ ∧ Alive env₂ t₁ ∧
      ∀ x, BindAlike R env₁ s₁ env₂ t₁ x := by
  obtain ⟨hs, tr, hrecorded, htr⟩ := hxs.recorded hT.lives halive hnodup
  have hnodup' : (ys.map Prod.fst).Nodup := (hperm.map Prod.fst).nodup_iff.mp hnodup
  have hrest : ∀ (rest q : List (ν × ε)) (env₂ : List (ν × α)) (t₂ : σ), ys = q ++ rest →
      Follows R tr (q.map Prod.fst) env' env₂ t₂ → Alive env₂ t₂ → t ≤ t₂ → ∃ env₃ t₃,
        Elaborates Eval' rest env₂ t₂ env₃ t₃ ∧ t ≤ t₃ ∧ Alive env₃ t₃ ∧
          Follows R tr (ys.map Prod.fst) env' env₃ t₃ := by
    intro rest
    induction rest with
    | nil =>
        intro q env₂ t₂ hys hfollows halive₂ ht₂
        rw [List.append_nil] at hys
        exact ⟨env₂, t₂, .nil, ht₂, halive₂, hys ▸ hfollows⟩
    | cons d rest ih =>
        obtain ⟨n, e⟩ := d
        intro q env₂ t₂ hys hfollows halive₂ ht₂
        have hmem : (n, e) ∈ xs := hperm.mem_iff.mpr (hys ▸ List.mem_append_right q (List.mem_cons_self ..))
        obtain ⟨p, r, hp⟩ := List.append_of_mem hmem
        obtain ⟨envp, sp, v, u, halivep, hsp, hrecordedp, htrn, heval⟩ := htr p n e r hp
        obtain ⟨M, hM, hbefore⟩ := hwithin (n, e) hmem
        -- what the expression depends on is bound before it in both orders, or in neither
        have hagree : ∀ m ∈ M, BindAlike R envp sp env₂ t₂ m := fun m hm =>
          hfollows.bindAlike hT hrecordedp (henv m) hsp ht₂
            ((mem_map_iff_before hnodup hp).trans
              ((hbefore m hm).trans (mem_map_iff_before hnodup' hys).symm))
        obtain ⟨v', t₃, heval', hR⟩ := hT.transfer hM halivep halive₂ hagree heval
        have ht₃ := hT.lives'.grows halive₂ heval'
        obtain ⟨env₃, t₄, hrun, ht₄, halive₃, hfollows₃⟩ := ih (q ++ [(n, e)]) ((n, v') :: env₂) t₃
          (by rw [hys, List.append_assoc, List.singleton_append])
          (by
            rw [List.map_append, List.map_singleton]
            exact hfollows.concat hT htrn hR ht₃)
          (hT.lives'.alive halive₂ heval') (ht₂.trans ht₃)
        exact ⟨env₃, t₄, .cons heval' hrun, ht₄, halive₃, hfollows₃⟩
  obtain ⟨env₂, t₁, hrun, ht₁, halive₂, hfollows⟩ := hrest ys [] env' t rfl
    ⟨fun m hm => (nomatch hm), fun m _ => rfl⟩ halive' (le_refl t)
  exact ⟨env₂, t₁, hrun, hs, ht₁, halive₂, fun x =>
    hfollows.bindAlike hT hrecorded (henv x) hs ht₁ (hperm.map Prod.fst).mem_iff⟩

end GenC.Lib
