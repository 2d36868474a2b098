import Mathlib.Data.List.Basic
import Mathlib.Data.Set.Basic
import Mathlib.Order.Basic

/-!
# Naming expressions

A list of definitions `x₀ = e₀, x₁ = e₁, …` grows by giving names to expressions: an expression that has
a name already is given the same one again (`Names`). The definitions are evaluated one after another,
each under the names of those before it (`Elaborates`).

An expression that is named when there are many definitions may be one that was named, and evaluated,
when there were few. So what is known of names and expressions is stated for all prefixes of the
definitions under which they are in scope: `Known` for a name, `Evaluable` for an expression.
**`Names.known`** says that the two go together.
-/

namespace GenC.Lib

variable {ν ε α σ : Type} [DecidableEq ν]

/-- An element of a list with one more at its end is one of the list, or the last. -/
theorem getElem?_concat_cases {l : List α} {a b : α} {k : Nat} (h : (l ++ [a])[k]? = some b) :
    l[k]? = some b ∨ k = l.length ∧ b = a := by
  rw [List.getElem?_append] at h
  split at h
  · exact .inl h
  · next hk =>
      obtain ⟨hzero, heq⟩ := List.getElem?_eq_some_iff.mp h
      rw [List.length_singleton, Nat.lt_one_iff] at hzero
      rw [List.getElem_singleton] at heq
      exact .inr ⟨by omega, heq.symm⟩

/-! ## Evaluation -/

section

variable (Eval : ε → List (ν × α) → σ → α → σ → Prop)

/-- The definitions take an environment and a state to another. -/
inductive Elaborates : List (ν × ε) → List (ν × α) → σ → List (ν × α) → σ → Prop where
  | nil {env : List (ν × α)} {s : σ} : Elaborates [] env s env s
  | cons {x : ν} {e : ε} {defs : List (ν × ε)} {env env' : List (ν × α)} {v : α} {s s₁ s' : σ}
      (he : Eval e env s v s₁) (h : Elaborates defs ((x, v) :: env) s₁ env' s') :
      Elaborates ((x, e) :: defs) env s env' s'

namespace Elaborates

variable {Eval} {defs defs₁ defs₂ : List (ν × ε)} {env env₁ env' : List (ν × α)} {s s₁ s' : σ}

omit [DecidableEq ν] in
theorem append (h₁ : Elaborates Eval defs₁ env s env₁ s₁) (h₂ : Elaborates Eval defs₂ env₁ s₁ env' s') :
    Elaborates Eval (defs₁ ++ defs₂) env s env' s' := by
  induction h₁ with
  | nil => exact h₂
  | cons he _ ih => exact .cons he (ih h₂)

omit [DecidableEq ν] in
theorem of_append (h : Elaborates Eval (defs₁ ++ defs₂) env s env' s') :
    ∃ env₁ s₁, Elaborates Eval defs₁ env s env₁ s₁ ∧ Elaborates Eval defs₂ env₁ s₁ env' s' := by
  induction defs₁ generalizing env s with
  | nil => exact ⟨env, s, .nil, h⟩
  | cons d defs₁ ih =>
      cases h with
      | cons he h =>
          obtain ⟨env₁, s₁, h₁, h₂⟩ := ih h
          exact ⟨env₁, s₁, .cons he h₁, h₂⟩

/-- A name that is not defined anew keeps its meaning. -/
theorem lookup {x : ν} (h : Elaborates Eval defs env s env' s') (hx : ∀ d ∈ defs, d.1 ≠ x) :
    env'.lookup x = env.lookup x := by
  induction h with
  | nil => rfl
  | @cons y e defs env env' v s s₁ s' he h ih =>
      have hne : ¬x = y := fun heq => hx _ (List.mem_cons_self ..) heq.symm
      rw [ih fun d hd => hx d (List.mem_cons_of_mem _ hd), List.lookup_cons, beq_false_of_ne hne]

omit [DecidableEq ν] in
theorem le [Preorder σ] (hgrows : ∀ {e env s v s'}, Eval e env s v s' → s ≤ s')
    (h : Elaborates Eval defs env s env' s') : s ≤ s' := by
  induction h with
  | nil => exact le_refl _
  | cons he _ ih => exact (hgrows he).trans ih

end Elaborates

end

/-! ## Names -/

section

variable (name : Nat → ν) (Within : Set ν → ε → Prop) (B : Set ν)

/-- The names in scope after `n` definitions: those of `B`, and those of the definitions. -/
def visible (n : Nat) : Set ν := {x | x ∈ B ∨ ∃ j < n, x = name j}

/-- The definitions are named in order, and each stays within the names that are in scope. -/
def WellScoped (defs : List (ν × ε)) : Prop :=
  ∀ k x e, defs[k]? = some (x, e) → x = name k ∧ Within (visible name B k) e

/-- `e` is named `x`: it is a definition already, or becomes the next one. -/
inductive Names (defs : List (ν × ε)) (e : ε) : List (ν × ε) → ν → Prop where
  | shared {k : Nat} (h : defs[k]? = some (name k, e)) : Names defs e defs (name k)
  | fresh : Names defs e (defs ++ [(name defs.length, e)]) (name defs.length)

variable {name Within B} {defs defs' : List (ν × ε)} {e : ε} {x : ν}

omit [DecidableEq ν] in
theorem visible_mono {n n' : Nat} (h : n ≤ n') : visible name B n ⊆ visible name B n' := by
  rintro x (hx | ⟨j, hj, rfl⟩)
  · exact .inl hx
  · exact .inr ⟨j, hj.trans_le h, rfl⟩

omit [DecidableEq ν] in
/-- A name that is in scope is not one of the names to come. -/
theorem ne_of_visible (hname : Function.Injective name) {n k : Nat} (hk : n ≤ k) (hB : name k ∉ B)
    (hx : x ∈ visible name B n) : x ≠ name k := by
  rintro rfl
  rcases hx with hx | ⟨j, hj, heq⟩
  · exact hB hx
  · exact absurd (hname heq) (Nat.ne_of_gt (hj.trans_le hk))

namespace Names

omit [DecidableEq ν] in
theorem isPrefix (h : Names name defs e defs' x) : defs <+: defs' := by
  cases h with
  | shared _ => exact List.prefix_rfl
  | fresh => exact List.prefix_append _ _

omit [DecidableEq ν] in
/-- Whichever it is, the name stands for the expression. -/
theorem entry (h : Names name defs e defs' x) :
    ∃ k ≤ defs.length, x = name k ∧ defs'[k]? = some (x, e) := by
  cases h with
  | @shared k h => exact ⟨k, (List.getElem?_eq_some_iff.mp h).1.le, rfl, h⟩
  | fresh => exact ⟨defs.length, Nat.le_refl _, rfl, List.getElem?_concat_length⟩

omit [DecidableEq ν] in
theorem mem_visible (h : Names name defs e defs' x) : x ∈ visible name B defs'.length := by
  obtain ⟨k, -, rfl, hk⟩ := h.entry
  exact .inr ⟨k, (List.getElem?_eq_some_iff.mp hk).1, rfl⟩

omit [DecidableEq ν] in
theorem wellScoped (h : Names name defs e defs' x) (hdefs : WellScoped name Within B defs)
    (he : Within (visible name B defs.length) e) : WellScoped name Within B defs' := by
  cases h with
  | shared _ => exact hdefs
  | fresh =>
      intro k y e' hk
      rcases getElem?_concat_cases hk with hk | ⟨rfl, heq⟩
      · exact hdefs k y e' hk
      · cases heq
        exact ⟨rfl, he⟩

end Names

/-! ## What is known -/

variable (Eval : ε → List (ν × α) → σ → α → σ → Prop) (name Within B)
  (env : List (ν × α)) (s : σ)

/-- Wherever `x` is in scope, it is bound to a value that satisfies `P` there. -/
def Known (defs : List (ν × ε)) (x : ν) (P : α → σ → Prop) : Prop :=
  ∀ p, p <+: defs → ∀ env' s', Elaborates Eval p env s env' s' → x ∈ visible name B p.length →
    ∃ v, env'.lookup x = some v ∧ P v s'

/-- Wherever the names of `e` are in scope, it evaluates to a value that satisfies `P`. -/
def Evaluable (defs : List (ν × ε)) (e : ε) (P : α → σ → Prop) : Prop :=
  ∀ p, p <+: defs → ∀ env' s', Elaborates Eval p env s env' s' → Within (visible name B p.length) e →
    ∃ v s'', Eval e env' s' v s'' ∧ P v s''

variable {Eval name Within B env s}

/-- Evaluation has one result, and only grows the state. -/
structure Evaluation [Preorder σ] (Eval : ε → List (ν × α) → σ → α → σ → Prop) : Prop where
  unique : ∀ {e env s v s₁ v' s₂}, Eval e env s v s₁ → Eval e env s v' s₂ → v = v' ∧ s₁ = s₂
  grows : ∀ {e env s v s'}, Eval e env s v s' → s ≤ s'

namespace Names

omit [DecidableEq ν] in
/-- There is always one more definition to evaluate. -/
theorem elaborates {P : α → σ → Prop} {env' : List (ν × α)} {s' : σ} (h : Names name defs e defs' x)
    (hscoped : WellScoped name Within B defs') (hdefs : Elaborates Eval defs env s env' s')
    (heval : Evaluable name Within B Eval env s defs e P) :
    ∃ env'' s'', Elaborates Eval defs' env s env'' s'' := by
  cases h with
  | shared _ => exact ⟨env', s', hdefs⟩
  | fresh =>
      have he : Within (visible name B defs.length) e :=
        (hscoped _ _ e List.getElem?_concat_length).2
      obtain ⟨v, s'', hv, -⟩ := heval defs List.prefix_rfl env' s' hdefs he
      exact ⟨_, s'', hdefs.append (.cons hv .nil)⟩

variable [Preorder σ] {P : α → σ → Prop}

/-- What is known of a name stays known. -/
theorem mono {y : ν} (hname : Function.Injective name) (heval : Evaluation Eval)
    (hP : ∀ {v s s'}, s ≤ s' → P v s → P v s') (h : Names name defs e defs' x)
    (hB : ∀ j < defs'.length, name j ∉ B) (hy : y ∈ visible name B defs.length)
    (hknown : Known name B Eval env s defs y P) : Known name B Eval env s defs' y P := by
  cases h with
  | shared _ => exact hknown
  | fresh =>
      intro p hp env' s' hrun hvisible
      rcases List.prefix_concat_iff.mp hp with rfl | hp
      -- the new name is not the old one, so looking up the old one passes it
      · obtain ⟨env₁, s₁, hdefs, hlast⟩ := hrun.of_append
        obtain ⟨v, hv, hPv⟩ := hknown defs List.prefix_rfl env₁ s₁ hdefs hy
        have hlt : defs.length < (defs ++ [(name defs.length, e)]).length := by
          rw [List.length_append]
          exact Nat.lt_succ_self _
        have hne : y ≠ name defs.length := ne_of_visible hname (le_refl _) (hB _ hlt) hy
        refine ⟨v, ?_, hP (hlast.le heval.grows) hPv⟩
        rw [hlast.lookup fun d hd => by
          rw [List.mem_singleton.mp hd]
          exact hne.symm]
        exact hv
      · exact hknown p hp env' s' hrun hvisible

/-- **What is named is known as what it evaluates to**, also where it was evaluated long ago. -/
theorem known (hname : Function.Injective name) (heval : Evaluation Eval)
    (hP : ∀ {v s s'}, s ≤ s' → P v s → P v s') (h : Names name defs e defs' x)
    (hB : ∀ j < defs'.length, name j ∉ B) (hdefs' : WellScoped name Within B defs')
    (hevaluable : Evaluable name Within B Eval env s defs e P) :
    Known name B Eval env s defs' x P := by
  obtain ⟨k, hk, rfl, hentry⟩ := h.entry
  have hk' : k < defs'.length := (List.getElem?_eq_some_iff.mp hentry).1
  intro p hp env' s' hrun hvisible
  have hlt : k < p.length := by
    rcases hvisible with hx | ⟨j, hj, heq⟩
    · exact (hB k hk' hx).elim
    · exact hname heq ▸ hj
  have hpk : p[k]? = some (name k, e) := by
    obtain ⟨rest, rfl⟩ := hp
    rwa [List.getElem?_append_left hlt] at hentry
  -- the definitions before this one, itself, and those after it
  have hsplit : p = p.take k ++ (name k, e) :: p.drop (k + 1) := by
    obtain ⟨_, heq⟩ := List.getElem?_eq_some_iff.mp hpk
    rw [← heq, List.getElem_cons_drop, List.take_append_drop]
  rw [hsplit] at hrun
  obtain ⟨env₁, s₁, hbefore, hrest⟩ := hrun.of_append
  have htake : p.take k <+: defs := by
    have hpre : p.take k <+: defs' := (List.take_prefix k p).trans hp
    refine List.prefix_of_prefix_length_le hpre h.isPrefix ?_
    exact (List.length_take_le k p).trans hk
  have hscoped : Within (visible name B (p.take k).length) e := by
    rw [List.length_take_of_le hlt.le]
    exact (hdefs' k _ e hentry).2
  obtain ⟨v, s₂, hv, hPv⟩ := hevaluable _ htake env₁ s₁ hbefore hscoped
  cases hrest with
  | cons hv' hafter =>
      obtain ⟨rfl, rfl⟩ := heval.unique hv hv'
      refine ⟨v, ?_, hP (hafter.le heval.grows) hPv⟩
      rw [hafter.lookup, List.lookup_cons, beq_self_eq_true]
      -- the names after it are others
      intro d hd
      obtain ⟨i, hi⟩ := List.mem_iff_getElem?.mp hd
      rw [List.getElem?_drop] at hi
      have hdefs'i : defs'[k + 1 + i]? = some (d.1, d.2) := by
        obtain ⟨rest, rfl⟩ := hp
        rw [List.getElem?_append_left (List.getElem?_eq_some_iff.mp hi).1]
        exact hi
      rw [(hdefs' _ _ _ hdefs'i).1]
      exact fun heq => absurd (hname heq) (by omega)

end Names

end

end GenC.Lib
