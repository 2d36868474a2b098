import Mathlib.Logic.Function.Basic

/-!
# A call-by-value λ-calculus with tuples

Closed programs over named variables, tuples and primitive functions, with the substitution
semantics: applying a function substitutes its argument for its parameter. Only closed values are
ever substituted, so no name is captured, and an inner binder of a name hides the outer ones.

The constants `C` and the primitives `P` are arbitrary; what a primitive does to a piece of data is
given by a partial function `δ`.

What an implementation with environments needs to know about substitution is collected here:
`Term.close_close` (substituting under an environment extends it), `Term.Eval.closed` (values stay
closed) and `Term.Eval.eq_of_isValue` (a value evaluates to itself only).
-/

namespace GenC.Lib

/-- What a program computes with in the end: nested tuples of constants. -/
inductive Data (C : Type) where
  | scalar (c : C)
  | tuple (ds : List (Data C))

inductive Term (P C : Type) where
  | const (c : C)
  | prim (p : P)
  | var (x : String)
  | lam (x : String) (body : Term P C)
  | app (f a : Term P C)
  | tuple (es : List (Term P C))
  | sel (e : Term P C) (i : Int)
  | letIn (x : String) (e body : Term P C)

namespace Term

variable {P C : Type}

/-- Structural induction. -/
theorem ind {motive : Term P C → Prop}
    (const : ∀ c, motive (.const c)) (prim : ∀ p, motive (.prim p)) (var : ∀ x, motive (.var x))
    (lam : ∀ x body, motive body → motive (.lam x body))
    (app : ∀ f a, motive f → motive a → motive (.app f a))
    (tuple : ∀ es, (∀ e ∈ es, motive e) → motive (.tuple es))
    (sel : ∀ e i, motive e → motive (.sel e i))
    (letIn : ∀ x e body, motive e → motive body → motive (.letIn x e body)) (e : Term P C) :
    motive e :=
  @Term.rec P C motive (fun es => ∀ e ∈ es, motive e) const prim var lam app tuple sel letIn
    (by simp) (by simp +contextual) e

/-! ## Data as terms -/

mutual

def ofData : Data C → Term P C
  | .scalar c => .const c
  | .tuple ds => .tuple (ofDataAll ds)

def ofDataAll : List (Data C) → List (Term P C)
  | [] => []
  | d :: ds => ofData d :: ofDataAll ds

end

theorem ofDataAll_eq_map (ds : List (Data C)) :
    (ofDataAll ds : List (Term P C)) = ds.map ofData := by
  induction ds with
  | nil => rfl
  | cons d ds ih => rw [ofDataAll, ih, List.map_cons]

mutual

theorem ofData_injective : ∀ {d d' : Data C}, (ofData d : Term P C) = ofData d' → d = d'
  | .scalar _, .scalar _, h => by cases h; rfl
  | .tuple _, .tuple _, h => by rw [ofDataAll_injective (Term.tuple.inj h)]

theorem ofDataAll_injective : ∀ {ds ds' : List (Data C)},
    (ofDataAll ds : List (Term P C)) = ofDataAll ds' → ds = ds'
  | [], [], _ => rfl
  | d :: ds, d' :: ds', h => by
      obtain ⟨hd, hds⟩ := List.cons.inj h
      rw [ofData_injective hd, ofDataAll_injective hds]

end

/-! ## Free variables -/

inductive FreeIn (x : String) : Term P C → Prop where
  | var : FreeIn x (.var x)
  | lam {y : String} {body : Term P C} (h : x ≠ y) (hb : FreeIn x body) : FreeIn x (.lam y body)
  | app_left {f a : Term P C} (h : FreeIn x f) : FreeIn x (.app f a)
  | app_right {f a : Term P C} (h : FreeIn x a) : FreeIn x (.app f a)
  | tuple {e : Term P C} {es : List (Term P C)} (he : e ∈ es) (h : FreeIn x e) :
      FreeIn x (.tuple es)
  | sel {e : Term P C} {i : Int} (h : FreeIn x e) : FreeIn x (.sel e i)
  | letIn_bound {y : String} {e body : Term P C} (h : FreeIn x e) : FreeIn x (.letIn y e body)
  | letIn_body {y : String} {e body : Term P C} (h : x ≠ y) (hb : FreeIn x body) :
      FreeIn x (.letIn y e body)

def Closed (e : Term P C) : Prop := ∀ x, ¬FreeIn x e

theorem Closed.of_tuple_cons {e : Term P C} {es : List (Term P C)}
    (h : (Term.tuple (e :: es)).Closed) : e.Closed ∧ (Term.tuple es).Closed := by
  refine ⟨fun x hx => h x (.tuple (List.mem_cons_self ..) hx), fun x hx => ?_⟩
  cases hx with
  | tuple he hx => exact h x (.tuple (List.mem_cons_of_mem _ he) hx)

theorem Closed.of_letIn {x : String} {e body : Term P C} (h : (Term.letIn x e body).Closed) :
    (Term.lam x body).Closed := by
  intro y hy
  cases hy with
  | lam hyx hb => exact h y (.letIn_body hyx hb)

/-! ## Substitution -/

/-- What to put in the place of each name. -/
abbrev Subst (P C : Type) : Type := String → Option (Term P C)

mutual

/-- Substitute for all free variables at once. A binder hides what the substitution has for its
name. This is capture-avoiding for closed terms, the only ones ever substituted. -/
def close (σ : Subst P C) : Term P C → Term P C
  | .const c => .const c
  | .prim p => .prim p
  | .var x => (σ x).getD (.var x)
  | .lam x body => .lam x (close (Function.update σ x none) body)
  | .app f a => .app (close σ f) (close σ a)
  | .tuple es => .tuple (closeAll σ es)
  | .sel e i => .sel (close σ e) i
  | .letIn x e body => .letIn x (close σ e) (close (Function.update σ x none) body)

def closeAll (σ : Subst P C) : List (Term P C) → List (Term P C)
  | [] => []
  | e :: es => close σ e :: closeAll σ es

end

theorem closeAll_eq_map (σ : Subst P C) (es : List (Term P C)) :
    closeAll σ es = es.map (close σ) := by
  induction es with
  | nil => rfl
  | cons e es ih => rw [closeAll, ih, List.map_cons]

/-- `e[x := u]`. -/
def subst (x : String) (u e : Term P C) : Term P C :=
  e.close (Function.update (fun _ => none) x (some u))

/-- Every term the substitution has is closed. -/
def ClosedSubst (σ : Subst P C) : Prop := ∀ x t, σ x = some t → t.Closed

theorem ClosedSubst.hide {σ : Subst P C} (h : ClosedSubst σ) (x : String) :
    ClosedSubst (Function.update σ x none) := by
  intro y t ht
  by_cases hy : y = x
  · rw [hy, Function.update_self] at ht
    cases ht
  · rw [Function.update_of_ne hy] at ht
    exact h y t ht

/-- A substitution that knows none of the free variables changes nothing. -/
theorem close_eq_self (e : Term P C) :
    ∀ {σ : Subst P C}, (∀ x, FreeIn x e → σ x = none) → e.close σ = e := by
  -- under a binder the name is not replaced, so no free name is
  have hbind : ∀ {σ : Subst P C} {x : String} {body : Term P C},
      (∀ y, y ≠ x → FreeIn y body → σ y = none) →
      ∀ y, FreeIn y body → Function.update σ x none y = none := by
    intro σ x body h y hy
    by_cases hyx : y = x
    · rw [hyx, Function.update_self]
    · rw [Function.update_of_ne hyx]
      exact h y hyx hy
  induction e using ind with
  | const c => intro σ h; rfl
  | prim p => intro σ h; rfl
  | var x => intro σ h; rw [close, h x .var, Option.getD_none]
  | lam x body ih =>
      intro σ h
      rw [close, ih (hbind fun y hyx hy => h y (.lam hyx hy))]
  | app f a ihf iha =>
      intro σ h
      rw [close, ihf fun x hx => h x (.app_left hx), iha fun x hx => h x (.app_right hx)]
  | tuple es ih =>
      intro σ h
      rw [close, closeAll_eq_map]
      have hes : es.map (close σ) = es.map id :=
        List.map_congr_left fun e he => ih e he fun x hx => h x (.tuple he hx)
      rw [hes, List.map_id]
  | sel e i ih => intro σ h; rw [close, ih fun x hx => h x (.sel hx)]
  | letIn x e body ihe ihb =>
      intro σ h
      rw [close, ihe fun y hy => h y (.letIn_bound hy),
        ihb (hbind fun y hyx hy => h y (.letIn_body hyx hy))]

/-- A closed term is not changed by any substitution. -/
theorem Closed.close_eq {e : Term P C} (h : e.Closed) (σ : Subst P C) : e.close σ = e :=
  close_eq_self e fun x hx => (h x hx).elim

/-- The names left free by a substitution are those it does not know. -/
theorem FreeIn.of_close (e : Term P C) : ∀ {σ : Subst P C} {x : String}, ClosedSubst σ →
    FreeIn x (e.close σ) → FreeIn x e ∧ σ x = none := by
  -- a binder hides only its own name from the substitution
  have hbind : ∀ {σ : Subst P C} {x y : String}, x ≠ y → Function.update σ y none x = none →
      σ x = none := by
    intro σ x y hxy h
    rwa [Function.update_of_ne hxy] at h
  induction e using ind with
  | const c => intro σ x hσ h; cases h
  | prim p => intro σ x hσ h; cases h
  | var y =>
      intro σ x hσ h
      rw [close] at h
      cases hy : σ y with
      | none =>
          rw [hy] at h
          cases h
          exact ⟨.var, hy⟩
      | some t =>
          rw [hy] at h
          -- what is substituted is closed
          exact (hσ y t hy x h).elim
  | lam y body ih =>
      intro σ x hσ h
      cases h with
      | lam hxy hb =>
          obtain ⟨hf, hn⟩ := ih (hσ.hide y) hb
          exact ⟨.lam hxy hf, hbind hxy hn⟩
  | app f a ihf iha =>
      intro σ x hσ h
      cases h with
      | app_left h => exact (ihf hσ h).imp_left .app_left
      | app_right h => exact (iha hσ h).imp_left .app_right
  | tuple es ih =>
      intro σ x hσ h
      rw [close, closeAll_eq_map] at h
      cases h with
      | tuple he h =>
          obtain ⟨e, hes, rfl⟩ := List.mem_map.mp he
          exact (ih e hes hσ h).imp_left (.tuple hes)
  | sel e i ih =>
      intro σ x hσ h
      cases h with
      | sel h => exact (ih hσ h).imp_left .sel
  | letIn y e body ihe ihb =>
      intro σ x hσ h
      cases h with
      | letIn_bound h => exact (ihe hσ h).imp_left .letIn_bound
      | letIn_body hxy hb =>
          obtain ⟨hf, hn⟩ := ihb (hσ.hide y) hb
          exact ⟨.letIn_body hxy hf, hbind hxy hn⟩

/-- A term all of whose free variables are known becomes closed. -/
theorem closed_close {e : Term P C} {σ : Subst P C} (hσ : ClosedSubst σ)
    (h : ∀ x, FreeIn x e → σ x ≠ none) : (e.close σ).Closed := by
  intro x hx
  obtain ⟨hf, hn⟩ := FreeIn.of_close e hσ hx
  exact h x hf hn

/-- One substitution after another. -/
theorem close_close (e : Term P C) : ∀ {σ τ : Subst P C}, ClosedSubst σ →
    (e.close σ).close τ = e.close fun x => (σ x).or (τ x) := by
  -- under a binder both substitutions hide its name
  have hbind : ∀ (σ τ : Subst P C) (y : String),
      (fun x => (Function.update σ y none x).or (Function.update τ y none x)) =
        Function.update (fun x => (σ x).or (τ x)) y none := by
    intro σ τ y
    funext x
    by_cases hx : x = y
    · rw [hx]
      simp only [Function.update_self, Option.or_none]
    · simp only [Function.update_of_ne hx]
  induction e using ind with
  | const c => intro σ τ hσ; rfl
  | prim p => intro σ τ hσ; rfl
  | var x =>
      intro σ τ hσ
      rw [close, close]
      cases hx : σ x with
      | none => rw [Option.getD_none, Option.none_or, close]
      | some t => rw [Option.getD_some, (hσ x t hx).close_eq, Option.some_or, Option.getD_some]
  | lam y body ih =>
      intro σ τ hσ
      rw [close, close, close, ih (hσ.hide y), hbind]
  | app f a ihf iha => intro σ τ hσ; rw [close, close, close, ihf hσ, iha hσ]
  | tuple es ih =>
      intro σ τ hσ
      rw [close, close, close, closeAll_eq_map, closeAll_eq_map, closeAll_eq_map, List.map_map]
      congr 1
      exact List.map_congr_left fun e he => ih e he hσ
  | sel e i ih => intro σ τ hσ; rw [close, close, close, ih hσ]
  | letIn y e body ihe ihb =>
      intro σ τ hσ
      rw [close, close, close, ihe hσ, ihb (hσ.hide y), hbind]

/-- **Substituting for the parameter of a body that was closed under an environment extends the
environment.** -/
theorem subst_close_hide {σ : Subst P C} (hσ : ClosedSubst σ) (x : String) (u body : Term P C) :
    subst x u (body.close (Function.update σ x none)) =
      body.close (Function.update σ x (some u)) := by
  rw [subst, close_close body (hσ.hide x)]
  congr 1
  funext y
  by_cases hy : y = x
  · rw [hy]
    simp only [Function.update_self, Option.none_or]
  · simp only [Function.update_of_ne hy, Option.or_none]

theorem ClosedSubst.extend {σ : Subst P C} (h : ClosedSubst σ) {u : Term P C} (hu : u.Closed)
    (x : String) : ClosedSubst (Function.update σ x (some u)) := by
  intro y t ht
  by_cases hy : y = x
  · rw [hy, Function.update_self] at ht
    cases ht
    exact hu
  · rw [Function.update_of_ne hy] at ht
    exact h y t ht

/-- The body of a closed function, applied to a closed term. -/
theorem closed_subst {x : String} {u body : Term P C} (hlam : (Term.lam x body).Closed)
    (hu : u.Closed) : (subst x u body).Closed := by
  refine closed_close (ClosedSubst.extend (fun _ _ h => by cases h) hu x) fun y hy => ?_
  by_cases hyx : y = x
  · rw [hyx, Function.update_self]
    exact Option.some_ne_none u
  · exact (hlam y (.lam hyx hy)).elim

/-! ## Evaluation -/

inductive IsValue : Term P C → Prop where
  | const {c : C} : IsValue (.const c)
  | prim {p : P} : IsValue (.prim p)
  | lam {x : String} {body : Term P C} : IsValue (.lam x body)
  | tuple {es : List (Term P C)} (h : ∀ e ∈ es, IsValue e) : IsValue (.tuple es)

/-- Call-by-value evaluation of closed terms, from left to right. -/
inductive Eval (δ : P → Data C → Option (Data C)) : Term P C → Term P C → Prop where
  | const {c : C} : Eval δ (.const c) (.const c)
  | prim {p : P} : Eval δ (.prim p) (.prim p)
  | lam {x : String} {body : Term P C} : Eval δ (.lam x body) (.lam x body)
  | app_lam {f a body u t : Term P C} {x : String} (hf : Eval δ f (.lam x body)) (ha : Eval δ a u)
      (hb : Eval δ (subst x u body) t) : Eval δ (.app f a) t
  | app_prim {f a : Term P C} {p : P} {d d' : Data C} (hf : Eval δ f (.prim p))
      (ha : Eval δ a (ofData d)) (hδ : δ p d = some d') : Eval δ (.app f a) (ofData d')
  | tuple_nil : Eval δ (.tuple []) (.tuple [])
  | tuple_cons {e t : Term P C} {es ts : List (Term P C)} (he : Eval δ e t)
      (hes : Eval δ (.tuple es) (.tuple ts)) : Eval δ (.tuple (e :: es)) (.tuple (t :: ts))
  | sel {e t : Term P C} {ts : List (Term P C)} {i : Int} (he : Eval δ e (.tuple ts)) (hi : 0 ≤ i)
      (ht : ts[i.toNat]? = some t) : Eval δ (.sel e i) t
  | letIn {x : String} {e body u t : Term P C} (he : Eval δ e u) (hb : Eval δ (subst x u body) t) :
      Eval δ (.letIn x e body) t

theorem isValue_ofData : ∀ d : Data C, (ofData d : Term P C).IsValue
  | .scalar _ => .const
  | .tuple ds => .tuple (isValue_ofDataAll ds)
where
  isValue_ofDataAll : ∀ ds : List (Data C), ∀ e ∈ (ofDataAll ds : List (Term P C)), e.IsValue
  | [], _, he => by cases he
  | d :: ds, e, he => by
      rcases List.mem_cons.mp he with rfl | he
      · exact isValue_ofData d
      · exact isValue_ofDataAll ds e he

theorem closed_ofData : ∀ d : Data C, (ofData d : Term P C).Closed
  | .scalar _, x, h => by cases h
  | .tuple ds, x, h => by
      cases h with
      | tuple he h => exact closed_ofDataAll ds _ he x h
where
  closed_ofDataAll : ∀ ds : List (Data C), ∀ e ∈ (ofDataAll ds : List (Term P C)), e.Closed
  | [], _, he => by cases he
  | d :: ds, e, he => by
      rcases List.mem_cons.mp he with rfl | he
      · exact closed_ofData d
      · exact closed_ofDataAll ds e he

namespace Eval

variable {δ : P → Data C → Option (Data C)}

/-- What evaluation ends with is a value. -/
theorem isValue {e t : Term P C} (h : Eval δ e t) : t.IsValue := by
  induction h with
  | const => exact .const
  | prim => exact .prim
  | lam => exact .lam
  | app_lam _ _ _ _ _ ih => exact ih
  | app_prim => exact isValue_ofData _
  | tuple_nil => exact .tuple (by simp)
  | tuple_cons _ _ ihe ihes =>
      cases ihes with
      | tuple h => exact .tuple (List.forall_mem_cons.mpr ⟨ihe, h⟩)
  | sel _ _ ht ih =>
      cases ih with
      | tuple h => exact h _ (List.mem_of_getElem? ht)
  | letIn _ _ _ ih => exact ih

/-- Data evaluates to itself. -/
theorem ofData : ∀ d : Data C, Eval δ (Term.ofData d) (Term.ofData d)
  | .scalar _ => .const
  | .tuple ds => ofDataAll ds
where
  ofDataAll : ∀ ds : List (Data C), Eval δ (.tuple (Term.ofDataAll ds)) (.tuple (Term.ofDataAll ds))
  | [] => .tuple_nil
  | d :: ds => .tuple_cons (ofData d) (ofDataAll ds)

/-- A value evaluates to itself and nothing else. -/
theorem eq_of_isValue {e t : Term P C} (h : Eval δ e t) (he : e.IsValue) : t = e := by
  induction h with
  | const | prim | lam | tuple_nil => rfl
  | app_lam | app_prim | sel | letIn => cases he
  | tuple_cons _ _ ihe ihes =>
      cases he with
      | tuple h =>
          obtain ⟨he, hes⟩ := List.forall_mem_cons.mp h
          rw [ihe he, Term.tuple.inj (ihes (.tuple hes))]

/-- **Closed terms evaluate to closed values.** -/
theorem closed {e t : Term P C} (h : Eval δ e t) (he : e.Closed) : t.Closed := by
  induction h with
  | const | prim | lam | tuple_nil => exact he
  | @app_lam f a body u t x _ _ _ ihf iha ihb =>
      -- the body is evaluated with its parameter replaced, so it is closed again
      have hlam := ihf fun y hy => he y (.app_left hy)
      have hu := iha fun y hy => he y (.app_right hy)
      exact ihb (closed_subst hlam hu)
  | app_prim => exact closed_ofData _
  | tuple_cons _ _ ihe ihes =>
      obtain ⟨hce, hces⟩ := he.of_tuple_cons
      intro x hx
      cases hx with
      | tuple hmem hx =>
          rcases List.mem_cons.mp hmem with rfl | hmem
          · exact ihe hce x hx
          · exact ihes hces x (.tuple hmem hx)
  | sel _ _ ht ih =>
      intro x hx
      exact ih (fun y hy => he y (.sel hy)) x (.tuple (List.mem_of_getElem? ht) hx)
  | @letIn x e body u t _ _ ihe ihb =>
      have hu := ihe fun y hy => he y (.letIn_bound hy)
      exact ihb (closed_subst he.of_letIn hu)

end Eval

end Term

end GenC.Lib
