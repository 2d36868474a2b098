import Mathlib.Data.List.Induction
import Mathlib.Logic.Function.Basic

/-!
# Cells

Parts of a store that can be read and written. A store may lack a part, as a tree lacks most paths. Cells
compose, and what was shown to be apart stays apart below.

**`Cell.assign_eq_self`**: assignments leave a store as it was, if the last one to each cell writes what was in
it; and only then, by `Cell.get_of_lastTo`.
-/

namespace GenC.Lib

structure Cell (σ α : Type) where
  get : σ → Option α
  set : α → σ → σ

namespace Cell

variable {σ τ ι α β γ : Type}

structure Lawful (c : Cell σ α) : Prop where
  get_set : ∀ {s x} y, c.get s = some x → c.get (c.set y s) = some y
  set_get : ∀ {s x}, c.get s = some x → c.set x s = s
  set_set : ∀ s x y, c.set y (c.set x s) = c.set y s

/-- Neither of the cells is touched when the other one is written. -/
structure Apart (c : Cell σ α) (d : Cell σ β) : Prop where
  get_left : ∀ s y, c.get (d.set y s) = c.get s
  get_right : ∀ s x, d.get (c.set x s) = d.get s
  set_comm : ∀ s x y, c.set x (d.set y s) = d.set y (c.set x s)

theorem Apart.symm {c : Cell σ α} {d : Cell σ β} (h : c.Apart d) : d.Apart c :=
  ⟨h.get_right, h.get_left, fun s y x => (h.set_comm s x y).symm⟩

/-! ## Cells in cells -/

def comp (c : Cell σ τ) (d : Cell τ α) : Cell σ α where
  get s := (c.get s).bind d.get
  set x s :=
    match c.get s with
    | some t => c.set (d.set x t) s
    | none => s

section Comp

variable {c : Cell σ τ} {d : Cell τ α} {e : Cell τ β} {s : σ} {t : τ}

theorem comp_get (h : c.get s = some t) : (c.comp d).get s = d.get t := by
  show (c.get s).bind d.get = d.get t
  rw [h]
  rfl

theorem comp_set (h : c.get s = some t) (x : α) : (c.comp d).set x s = c.set (d.set x t) s := by
  simp only [comp, h]

theorem comp_set_none (h : c.get s = none) (x : α) : (c.comp d).set x s = s := by
  simp only [comp, h]

theorem Lawful.comp (hc : c.Lawful) (hd : d.Lawful) : (c.comp d).Lawful where
  get_set := by
    intro s x y h
    obtain ⟨t, ht, hx⟩ := Option.bind_eq_some_iff.mp h
    rw [comp_set ht, comp_get (hc.get_set _ ht)]
    exact hd.get_set y hx
  set_get := by
    intro s x h
    obtain ⟨t, ht, hx⟩ := Option.bind_eq_some_iff.mp h
    rw [comp_set ht, hd.set_get hx, hc.set_get ht]
  set_set := by
    intro s x y
    cases ht : c.get s with
    | none => rw [comp_set_none ht]
    | some t => rw [comp_set ht, comp_set (hc.get_set _ ht), hd.set_set, hc.set_set, comp_set ht]

theorem Apart.comp_left {f : Cell σ γ} (h : c.Apart f) : (c.comp d).Apart f where
  get_left s y := by
    show (c.get (f.set y s)).bind d.get = (c.get s).bind d.get
    rw [h.get_left]
  get_right s x := by
    cases ht : c.get s with
    | none => rw [comp_set_none ht]
    | some t => rw [comp_set ht, h.get_right]
  set_comm s x y := by
    have hleft := h.get_left s y
    cases ht : c.get s with
    | none => rw [comp_set_none ht, comp_set_none (hleft.trans ht)]
    | some t => rw [comp_set ht, comp_set (hleft.trans ht), h.set_comm]

/-- Cells that are apart are so wherever they are. -/
theorem Apart.comp_right (hc : c.Lawful) (h : d.Apart e) : (c.comp d).Apart (c.comp e) where
  get_left s y := by
    cases ht : c.get s with
    | none => rw [comp_set_none ht]
    | some t => rw [comp_set ht, comp_get (hc.get_set _ ht), comp_get ht, h.get_left]
  get_right s x := by
    cases ht : c.get s with
    | none => rw [comp_set_none ht]
    | some t => rw [comp_set ht, comp_get (hc.get_set _ ht), comp_get ht, h.get_right]
  set_comm s x y := by
    cases ht : c.get s with
    | none => rw [comp_set_none ht, comp_set_none ht, comp_set_none ht]
    | some t =>
        rw [comp_set ht, comp_set ht, comp_set (hc.get_set _ ht), comp_set (hc.get_set _ ht), hc.set_set,
          hc.set_set, h.set_comm]

end Comp

/-- The store itself. -/
def whole : Cell σ σ := ⟨some, fun x _ => x⟩

/-! ## The entries of a function -/

section Entry

variable [DecidableEq ι]

def entry (i : ι) : Cell (ι → α) α where
  get f := some (f i)
  set x f := Function.update f i x

theorem entry_lawful (i : ι) : (entry i : Cell (ι → α) α).Lawful where
  get_set _ _ := congrArg some (Function.update_self ..)
  set_get := by
    intro f x h
    obtain rfl := Option.some.inj h
    exact Function.update_eq_self i f
  set_set _ _ _ := Function.update_idem ..

theorem entry_apart {i j : ι} (h : i ≠ j) : (entry i : Cell (ι → α) α).Apart (entry j) where
  get_left _ _ := congrArg some (Function.update_of_ne h ..)
  get_right _ _ := congrArg some (Function.update_of_ne h.symm ..)
  set_comm _ _ _ := Function.update_comm h.symm ..

end Entry

/-! ## The nodes of a tree -/

section Tree

variable (root : Cell τ α) (child : ι → Cell τ τ)

/-- At the end of a path, from the root downwards. -/
def node : List ι → Cell τ α
  | [] => root
  | i :: path => (child i).comp (node path)

theorem node_get (path : List ι) (t : τ) :
    (node root child path).get t = ((node whole child path).get t).bind root.get := by
  induction path generalizing t with
  | nil => rfl
  | cons i path ih =>
      show ((child i).get t).bind (node root child path).get =
        (((child i).get t).bind (node whole child path).get).bind root.get
      rw [Option.bind_assoc]
      exact congrArg ((child i).get t).bind (funext ih)

variable {root child} (hroot : root.Lawful) (hchild : ∀ i, (child i).Lawful)
  (hrootChild : ∀ i, root.Apart (child i)) (hchildren : ∀ {i j}, i ≠ j → (child i).Apart (child j))

include hroot hchild in
theorem node_lawful (path : List ι) : (node root child path).Lawful := by
  induction path with
  | nil => exact hroot
  | cons i path ih => exact (hchild i).comp ih

include hchild hrootChild hchildren in
theorem node_apart {path path' : List ι} (h : path ≠ path') :
    (node root child path).Apart (node root child path') := by
  induction path generalizing path' with
  | nil =>
      cases path' with
      | nil => exact absurd rfl h
      | cons j path' => exact (hrootChild j).symm.comp_left.symm
  | cons i path ih =>
      cases path' with
      | nil => exact (hrootChild i).symm.comp_left
      | cons j path' =>
          -- two children are apart, and below one child it is the rest of the paths
          by_cases hij : i = j
          · subst hij
            exact (ih fun hpath => h (congrArg (i :: ·) hpath)).comp_right (hchild i)
          · exact (hchildren hij).comp_left.symm.comp_left.symm

end Tree

/-! ## The children of a node -/

/-- The children of a node are taken out and put back, as many of them. -/
structure LawfulParts (parts : τ → List τ) (withParts : List τ → τ → τ) : Prop where
  parts_withParts : ∀ {us t}, us.length = (parts t).length → parts (withParts us t) = us
  withParts_parts : ∀ t, withParts (parts t) t = t
  withParts_withParts : ∀ {us us' t}, us.length = (parts t).length → us'.length = (parts t).length →
    withParts us' (withParts us t) = withParts us' t

section Parts

variable {parts : τ → List τ} {withParts : List τ → τ → τ}

def part (parts : τ → List τ) (withParts : List τ → τ → τ) (i : Nat) : Cell τ τ where
  get t := (parts t)[i]?
  set u t := withParts ((parts t).set i u) t

variable (h : LawfulParts parts withParts) (i j : Nat)

include h

theorem parts_set (u t : τ) : parts ((part parts withParts i).set u t) = (parts t).set i u :=
  h.parts_withParts List.length_set

theorem set_set_part (u v t : τ) : (part parts withParts j).set v ((part parts withParts i).set u t) =
    withParts (((parts t).set i u).set j v) t := by
  show withParts ((parts ((part parts withParts i).set u t)).set j v) _ = _
  rw [parts_set h]
  exact h.withParts_withParts List.length_set (by rw [List.length_set, List.length_set])

theorem part_lawful : (part parts withParts i).Lawful where
  get_set := by
    intro t u v hu
    obtain ⟨hi, -⟩ := List.getElem?_eq_some_iff.mp hu
    show (parts ((part parts withParts i).set v t))[i]? = some v
    rw [parts_set h, List.getElem?_set_self hi]
  set_get := by
    intro t u hu
    obtain ⟨hi, rfl⟩ := List.getElem?_eq_some_iff.mp hu
    show withParts ((parts t).set i (parts t)[i]) t = t
    rw [List.set_getElem_self, h.withParts_parts]
  set_set t u v := by
    rw [set_set_part h, List.set_set]
    rfl

theorem part_apart {i j : Nat} (hij : i ≠ j) :
    (part parts withParts i).Apart (part parts withParts j) where
  get_left t v := by
    show (parts ((part parts withParts j).set v t))[i]? = (parts t)[i]?
    rw [parts_set h, List.getElem?_set_ne hij.symm]
  get_right t u := by
    show (parts ((part parts withParts i).set u t))[j]? = (parts t)[j]?
    rw [parts_set h, List.getElem?_set_ne hij]
  set_comm t u v := by
    rw [set_set_part h, set_set_part h, List.set_comm _ _ hij.symm]

end Parts

/-! ## Assignments -/

section Assign

variable [DecidableEq ι] (cell : ι → Cell σ α)

def assign : List (ι × α) → σ → σ
  | [], s => s
  | (i, x) :: assignments, s => assign assignments ((cell i).set x s)

/-- What is assigned to `i` last. -/
def lastTo (i : ι) (assignments : List (ι × α)) : Option α := assignments.reverse.lookup i

variable {cell} {i j : ι} {x y : α} {s : σ} {assignments : List (ι × α)}

omit [DecidableEq ι] in
theorem assign_append (assignments assignments' : List (ι × α)) (s : σ) :
    assign cell (assignments ++ assignments') s = assign cell assignments' (assign cell assignments s) := by
  induction assignments generalizing s with
  | nil => rfl
  | cons a assignments ih => exact ih _

theorem lastTo_append (i j : ι) (x : α) (assignments : List (ι × α)) :
    lastTo i (assignments ++ [(j, x)]) = if i = j then some x else lastTo i assignments := by
  rw [lastTo, List.reverse_append, List.reverse_singleton, List.singleton_append, List.lookup_cons]
  by_cases h : i = j
  · rw [if_pos h, h, beq_self_eq_true]
  · rw [if_neg h, beq_eq_false_iff_ne.mpr h]
    rfl

theorem mem_of_lastTo (h : lastTo i assignments = some x) : (i, x) ∈ assignments := by
  induction assignments using List.reverseRecOn with
  | nil => cases h
  | append_singleton assignments a ih =>
      rw [lastTo_append] at h
      split at h
      · next heq =>
          cases h
          subst heq
          exact List.mem_append_right _ (List.mem_singleton_self _)
      · exact List.mem_append_left _ (ih h)

/-- Dropping what is assigned to one cell changes nothing for the others. -/
theorem lastTo_filter (h : lastTo j (assignments.filter (·.1 ≠ i)) = some y) :
    j ≠ i ∧ lastTo j assignments = some y := by
  have hne : j ≠ i := of_decide_eq_true (List.mem_filter.mp (mem_of_lastTo h)).2
  refine ⟨hne, ?_⟩
  rw [← h]
  clear h
  induction assignments using List.reverseRecOn with
  | nil => rfl
  | append_singleton assignments a ih =>
      obtain ⟨k, z⟩ := a
      rw [lastTo_append, List.filter_append]
      by_cases hk : k = i
      -- the assignment is filtered out, and was not to this cell
      · have hdrop : [(k, z)].filter (·.1 ≠ i) = [] := by simp [hk]
        rw [hdrop, List.append_nil, ih, if_neg (hk ▸ hne)]
      · have hkeep : [(k, z)].filter (·.1 ≠ i) = [(k, z)] := by simp [hk]
        rw [hkeep, lastTo_append, ih]

variable (hcell : ∀ i, (cell i).Lawful) (hcells : ∀ {i j}, i ≠ j → (cell i).Apart (cell j))

include hcell hcells

theorem get_assign (h : (cell i).get s = some x) :
    (cell i).get (assign cell assignments s) = some ((lastTo i assignments).getD x) := by
  induction assignments using List.reverseRecOn with
  | nil => exact h
  | append_singleton assignments a ih =>
      obtain ⟨j, y⟩ := a
      rw [assign_append, lastTo_append]
      show (cell i).get ((cell j).set y (assign cell assignments s)) = _
      by_cases hij : i = j
      · subst hij
        rw [if_pos rfl]
        exact (hcell i).get_set y ih
      · rw [if_neg hij, (hcells hij).get_left]
        exact ih

/-- An assignment makes the earlier ones to its cell superfluous. -/
theorem set_assign (i : ι) (x : α) (assignments : List (ι × α)) (s : σ) :
    (cell i).set x (assign cell assignments s) =
      assign cell (assignments.filter (·.1 ≠ i)) ((cell i).set x s) := by
  induction assignments generalizing s with
  | nil => rfl
  | cons a assignments ih =>
      obtain ⟨j, y⟩ := a
      rw [assign, ih]
      by_cases hij : j = i
      · subst hij
        rw [(hcell j).set_set, List.filter_cons_of_neg (by simp)]
      · rw [List.filter_cons_of_pos (by simpa using hij), assign, (hcells hij).set_comm]

/-- **Assignments that change nothing.** -/
theorem assign_eq_self (h : ∀ i x, lastTo i assignments = some x → (cell i).get s = some x) :
    assign cell assignments s = s := by
  induction hlength : assignments.length using Nat.strongRecOn generalizing assignments with
  | ind n ih =>
      cases assignments using List.reverseRecOn with
      | nil => rfl
      | append_singleton assignments a =>
          obtain ⟨i, x⟩ := a
          have hlast : lastTo i (assignments ++ [(i, x)]) = some x := by rw [lastTo_append, if_pos rfl]
          -- the last assignment writes what is there already, so those to its cell can go
          rw [assign_append]
          show (cell i).set x (assign cell assignments s) = s
          rw [set_assign hcell hcells, (hcell i).set_get (h i x hlast)]
          refine ih _ ?_ ?_ rfl
          · rw [← hlength, List.length_append, List.length_singleton]
            exact Nat.lt_succ_of_le (List.length_filter_le ..)
          · intro j y hj
            obtain ⟨hne, hj'⟩ := lastTo_filter hj
            exact h j y (by rw [lastTo_append, if_neg hne, hj'])

/-- If a cell comes out as it was, what was assigned to it last was in it. -/
theorem get_of_lastTo (hheld : ((cell i).get s).isSome)
    (h : (cell i).get (assign cell assignments s) = (cell i).get s)
    (hlast : lastTo i assignments = some x) : (cell i).get s = some x := by
  obtain ⟨y, hy⟩ := Option.isSome_iff_exists.mp hheld
  have hget := @get_assign _ _ _ _ _ _ _ _ assignments hcell hcells hy
  rw [h, hlast] at hget
  exact hget

end Assign

end Cell

end GenC.Lib
