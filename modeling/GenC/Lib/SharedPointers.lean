import Mathlib.Data.List.Perm.Basic
import Mathlib.Data.List.Count

/-!
# Shared pointers

A heap of objects that count the pointers to them. An object may hold pointers itself. Pointers that no
object holds (in variables, in containers, on their way out of scope) are listed beside the heap, as often
as there are any.

`Counted` — every object counts the pointers to it, wherever they are held, and an object that counts none
is gone. It is kept by making, copying, assigning and dropping, and so no pointer dangles
(**`Counted.live_of_mem`**, **`Counted.live_of_field`**).
-/

namespace GenC.Lib

variable {α : Type}

structure Shared (α : Type) where
  count : Nat
  object : α

/-- Objects that are gone keep their place. -/
abbrev SharedHeap (α : Type) : Type := List (Shared α)

namespace SharedHeap

variable {heap : SharedHeap α} {p q : Nat} {a b : α}

def object? (heap : SharedHeap α) (p : Nat) : Option α := heap[p]?.map Shared.object

def useCount (heap : SharedHeap α) (p : Nat) : Nat :=
  match heap[p]? with
  | some cell => cell.count
  | none => 0

/-- The object has not been destroyed. -/
def Live (heap : SharedHeap α) (p : Nat) : Prop := 0 < heap.useCount p

/-- The pointer to what is made next. -/
def fresh (heap : SharedHeap α) : Nat := heap.length

def make (a : α) (heap : SharedHeap α) : SharedHeap α := heap ++ [⟨1, a⟩]

def copy (p : Nat) (heap : SharedHeap α) : SharedHeap α :=
  heap.modify p fun cell => { cell with count := cell.count + 1 }

/-- One pointer less. -/
def drop (p : Nat) (heap : SharedHeap α) : SharedHeap α :=
  heap.modify p fun cell => { cell with count := cell.count - 1 }

def assign (p : Nat) (a : α) (heap : SharedHeap α) : SharedHeap α :=
  heap.modify p fun cell => { cell with object := a }

/-! ## What a cell holds -/

theorem exists_cell (h : heap.object? p = some a) : ∃ cell, heap[p]? = some cell ∧ cell.object = a := by
  unfold object? at h
  exact Option.map_eq_some_iff.mp h

theorem exists_cell_of_live (h : heap.Live p) : ∃ cell, heap[p]? = some cell ∧ 0 < cell.count := by
  unfold Live useCount at h
  split at h
  · next cell hcell => exact ⟨cell, hcell, h⟩
  · exact absurd h (Nat.lt_irrefl 0)

theorem object_make (b : α) (h : heap.object? p = some a) : (heap.make b).object? p = some a := by
  obtain ⟨cell, hcell, rfl⟩ := exists_cell h
  have hlt := (List.getElem?_eq_some_iff.mp hcell).1
  rw [object?, make, List.getElem?_append_left hlt, hcell]
  rfl

theorem object_make_fresh (a : α) (heap : SharedHeap α) : (heap.make a).object? heap.fresh = some a := by
  rw [object?, make, fresh, List.getElem?_concat_length]
  rfl

theorem of_object_make (h : (heap.make b).object? p = some a) :
    heap.object? p = some a ∨ p = heap.fresh ∧ a = b := by
  rcases Nat.lt_trichotomy p heap.length with hlt | rfl | hgt
  · refine .inl ?_
    rw [object?, make, List.getElem?_append_left hlt] at h
    exact h
  · have hfresh := object_make_fresh b heap
    exact .inr ⟨rfl, Option.some.inj (h.symm.trans hfresh)⟩
  · have hnew : (heap.make b).length ≤ p := by
      rw [make, List.length_append]
      exact hgt
    rw [object?, List.getElem?_eq_none hnew] at h
    cases h

/-- Counting changes no object. -/
theorem object_modify {f : Shared α → Shared α} (hf : ∀ cell, (f cell).object = cell.object) (p q : Nat)
    (heap : SharedHeap α) : object? (heap.modify p f) q = heap.object? q := by
  unfold object?
  rw [List.getElem?_modify]
  cases heap[q]? with
  | none => rfl
  | some cell =>
      by_cases hpq : p = q
      · simp only [Functor.map, Option.map_some, if_pos hpq, hf]
      · simp only [Functor.map, Option.map_some, if_neg hpq]

@[simp] theorem object_copy (p q : Nat) (heap : SharedHeap α) : (heap.copy p).object? q = heap.object? q :=
  object_modify (f := fun cell => { cell with count := cell.count + 1 }) (fun _ => rfl) p q heap

@[simp] theorem object_drop (p q : Nat) (heap : SharedHeap α) : (heap.drop p).object? q = heap.object? q :=
  object_modify (f := fun cell => { cell with count := cell.count - 1 }) (fun _ => rfl) p q heap

theorem object_assign (b : α) (h : heap.object? p = some a) : (heap.assign p b).object? p = some b := by
  obtain ⟨cell, hcell, -⟩ := exists_cell h
  rw [object?, assign, List.getElem?_modify_eq, hcell]
  rfl

theorem object_assign_of_ne (b : α) (h : q ≠ p) : (heap.assign p b).object? q = heap.object? q := by
  rw [object?, assign, List.getElem?_modify_ne _ _ (Ne.symm h), object?]

/-! ## Taking one object apart from the others -/

theorem exists_split {cell : Shared α} (h : heap[p]? = some cell) :
    ∃ before after, heap = before ++ cell :: after ∧ ∀ f, heap.modify p f = before ++ f cell :: after := by
  obtain ⟨hlt, rfl⟩ := List.getElem?_eq_some_iff.mp h
  refine ⟨List.take p heap, List.drop (p + 1) heap, ?_, fun f => List.modify_eq_take_cons_drop hlt⟩
  rw [← List.drop_eq_getElem_cons hlt, List.take_append_drop]

theorem useCount_eq {cell : Shared α} (h : heap[p]? = some cell) : heap.useCount p = cell.count := by
  rw [useCount, h]

theorem useCount_modify {cell : Shared α} (h : heap[p]? = some cell) (f : Shared α → Shared α) (q : Nat) :
    useCount (heap.modify p f) q = if q = p then (f cell).count else heap.useCount q := by
  by_cases hq : q = p
  · subst hq
    have hf : (heap.modify q f)[q]? = some (f cell) := by
      rw [List.getElem?_modify_eq, h]
      rfl
    rw [if_pos rfl, useCount_eq hf]
  · rw [if_neg hq, useCount, List.getElem?_modify_ne _ _ (Ne.symm hq), useCount]

end SharedHeap

/-! ## Who holds what -/

/-- What is destroyed holds nothing. -/
def Shared.held (fields : α → List Nat) (cell : Shared α) : List Nat :=
  if cell.count = 0 then [] else fields cell.object

namespace SharedHeap

variable {fields : α → List Nat} {heap : SharedHeap α} {p q : Nat} {a b : α} {roots roots' : List Nat}

/-- All that is held by objects. -/
def held (fields : α → List Nat) (heap : SharedHeap α) : List Nat := heap.flatMap (Shared.held fields)

/-- Every object counts the pointers to it. -/
def Counted (fields : α → List Nat) (heap : SharedHeap α) (roots : List Nat) : Prop :=
  ∀ p, heap.useCount p = roots.count p + (heap.held fields).count p

theorem count_held_modify (fields : α → List Nat) {cell : Shared α} (h : heap[p]? = some cell)
    (f : Shared α → Shared α) (q : Nat) :
    (held fields (heap.modify p f)).count q + (cell.held fields).count q =
      (heap.held fields).count q + ((f cell).held fields).count q := by
  obtain ⟨before, after, hheap, hmodify⟩ := exists_split h
  rw [hmodify, hheap]
  simp only [held, List.flatMap_append, List.flatMap_cons, List.count_append]
  omega

theorem held_of_pos {cell : Shared α} (h : 0 < cell.count) : cell.held fields = fields cell.object :=
  if_neg (Nat.ne_of_gt h)

namespace Counted

theorem nil : Counted fields [] [] := fun _ => rfl

theorem perm (h : Counted fields heap roots) (hperm : roots.Perm roots') : Counted fields heap roots' :=
  fun p => hperm.count_eq p ▸ h p

/-- What is held outside is there. -/
theorem live_of_mem (h : Counted fields heap roots) (hp : p ∈ roots) : heap.Live p := by
  have hcount := List.count_pos_iff.mpr hp
  have hp := h p
  unfold Live
  omega

/-- What is held by an object that is there, is there. -/
theorem live_of_field (h : Counted fields heap roots) (hp : heap.Live p) (ha : heap.object? p = some a)
    (hq : q ∈ fields a) : heap.Live q := by
  obtain ⟨cell, hcell, hpos⟩ := exists_cell_of_live hp
  obtain ⟨cell', hcell', rfl⟩ := exists_cell ha
  obtain rfl := Option.some.inj (hcell.symm.trans hcell')
  have hmem : q ∈ heap.held fields :=
    List.mem_flatMap.mpr ⟨cell, List.mem_of_getElem? hcell, (held_of_pos hpos).symm ▸ hq⟩
  have hcount := List.count_pos_iff.mpr hmem
  have hq := h q
  unfold Live
  omega

/-- A new object takes over what it is made of. -/
theorem make (h : Counted fields heap (fields a ++ roots)) :
    Counted fields (heap.make a) (heap.fresh :: roots) := by
  intro q
  have hq := h q
  have hheld : (held fields (heap.make a)).count q = (heap.held fields).count q + (fields a).count q := by
    simp [held, SharedHeap.make, Shared.held, List.count_append]
  rw [hheld, List.count_cons]
  rw [List.count_append] at hq
  by_cases hfresh : q = heap.fresh
  · subst hfresh
    -- the new pointer has no owner but the root
    have hnone : heap.useCount heap.fresh = 0 := by
      rw [useCount, fresh, List.getElem?_eq_none (Nat.le_refl _)]
    have hone : (heap.make a).useCount heap.fresh = 1 := by
      rw [useCount, SharedHeap.make, fresh, List.getElem?_concat_length]
    simp only [hone, beq_self_eq_true, if_true]
    omega
  -- the others have the owners that they had
  · have hold : (heap.make a).useCount q = heap.useCount q := by
      unfold useCount SharedHeap.make
      rcases Nat.lt_or_gt_of_ne hfresh with hlt | hgt
      · rw [List.getElem?_append_left hlt]
      · have hnew : heap.length + 1 ≤ q := hgt
        rw [List.getElem?_eq_none (by simpa using hnew), List.getElem?_eq_none (Nat.le_of_succ_le hnew)]
    rw [hold, beq_eq_false_iff_ne.mpr (Ne.symm hfresh), if_neg Bool.false_ne_true]
    omega

/-- Exchanging one cell for another, if the difference in pointers is the difference in counts. -/
theorem modify {cell : Shared α} {f : Shared α → Shared α} (h : Counted fields heap roots)
    (hcell : heap[p]? = some cell)
    (hcounts : ∀ q, roots'.count q + ((f cell).held fields).count q + (if p == q then cell.count else 0) =
      roots.count q + (cell.held fields).count q + if p == q then (f cell).count else 0) :
    Counted fields (heap.modify p f) roots' := by
  intro q
  have hq := h q
  have hheld := count_held_modify fields hcell f q
  have hcounts := hcounts q
  rw [useCount_modify hcell]
  by_cases hqp : q = p
  · subst hqp
    have hcount := useCount_eq hcell
    rw [beq_self_eq_true, if_pos rfl, if_pos rfl] at hcounts
    rw [if_pos rfl]
    omega
  · rw [beq_eq_false_iff_ne.mpr (Ne.symm hqp), if_neg Bool.false_ne_true, if_neg Bool.false_ne_true] at hcounts
    rw [if_neg hqp]
    omega

theorem copy (h : Counted fields heap roots) (hp : heap.Live p) :
    Counted fields (heap.copy p) (p :: roots) := by
  obtain ⟨cell, hcell, hpos⟩ := exists_cell_of_live hp
  refine h.modify hcell fun q => ?_
  rw [held_of_pos hpos, held_of_pos (Nat.succ_pos _), List.count_cons]
  dsimp only
  split <;> omega

/-- An assignment exchanges what the object holds for what is held outside. -/
theorem assign (h : Counted fields heap roots) (hp : heap.Live p) (ha : heap.object? p = some a)
    (hperm : (fields b ++ roots').Perm (fields a ++ roots)) :
    Counted fields (heap.assign p b) roots' := by
  obtain ⟨cell, hcell, hpos⟩ := exists_cell_of_live hp
  obtain ⟨cell', hcell', rfl⟩ := exists_cell ha
  obtain rfl := Option.some.inj (hcell.symm.trans hcell')
  refine h.modify hcell fun q => ?_
  have hcounts := hperm.count_eq q
  rw [List.count_append, List.count_append] at hcounts
  have hnew : Shared.held fields { cell with object := b } = fields b := held_of_pos hpos
  rw [held_of_pos hpos, hnew]
  dsimp only
  omega

/-- Dropping a pointer that is not the last. -/
theorem drop (h : Counted fields heap (p :: roots)) (hp : 1 < heap.useCount p) :
    Counted fields (heap.drop p) roots := by
  obtain ⟨cell, hcell, hpos⟩ := exists_cell_of_live (h.live_of_mem (List.mem_cons_self ..))
  rw [useCount_eq hcell] at hp
  refine h.modify hcell fun q => ?_
  rw [held_of_pos hpos, held_of_pos (Nat.sub_pos_of_lt hp), List.count_cons]
  dsimp only
  split <;> omega

/-- With the last pointer to it an object is destroyed: what it held remains to be dropped. -/
theorem destroy (h : Counted fields heap (p :: roots)) (hp : heap.useCount p = 1)
    (ha : heap.object? p = some a) : Counted fields (heap.drop p) (fields a ++ roots) := by
  obtain ⟨cell, hcell, rfl⟩ := exists_cell ha
  rw [useCount_eq hcell] at hp
  refine h.modify hcell fun q => ?_
  have hold : cell.held fields = fields cell.object := held_of_pos (hp ▸ Nat.one_pos)
  have hgone : Shared.held fields { cell with count := cell.count - 1 } = [] := if_pos (by rw [hp])
  rw [hold, hgone, List.count_nil, List.count_append, List.count_cons]
  dsimp only
  split <;> omega

end Counted

/-! ## What has been destroyed -/

def objects (heap : SharedHeap α) : List α := heap.map Shared.object

def gone (heap : SharedHeap α) : List α := (heap.filter (·.count = 0)).map Shared.object

theorem gone_sublist (heap : SharedHeap α) : heap.gone.Sublist heap.objects :=
  List.Sublist.map _ List.filter_sublist

theorem getElem?_objects (heap : SharedHeap α) (p : Nat) : heap.objects[p]? = heap.object? p :=
  List.getElem?_map

theorem objects_make (a : α) (heap : SharedHeap α) : (heap.make a).objects = heap.objects ++ [a] :=
  List.map_append

@[simp] theorem objects_copy (p : Nat) (heap : SharedHeap α) : (heap.copy p).objects = heap.objects :=
  List.ext_getElem? fun q => by rw [getElem?_objects, object_copy, getElem?_objects]

@[simp] theorem objects_drop (p : Nat) (heap : SharedHeap α) : (heap.drop p).objects = heap.objects :=
  List.ext_getElem? fun q => by rw [getElem?_objects, object_drop, getElem?_objects]

theorem gone_make (a : α) (heap : SharedHeap α) : (heap.make a).gone = heap.gone := by
  simp [gone, make, List.filter_append]

/-- What is there before and after a change, is not gone. -/
theorem gone_modify {cell : Shared α} {f : Shared α → Shared α} (h : heap[p]? = some cell)
    (hpos : 0 < cell.count) (hpos' : 0 < (f cell).count) : gone (heap.modify p f) = heap.gone := by
  obtain ⟨before, after, hheap, hmodify⟩ := exists_split h
  have hne := Nat.ne_of_gt hpos
  have hne' := Nat.ne_of_gt hpos'
  rw [hmodify, hheap]
  simp [gone, List.filter_append, hne, hne']

theorem gone_copy (hp : heap.Live p) : (heap.copy p).gone = heap.gone := by
  obtain ⟨cell, hcell, hpos⟩ := exists_cell_of_live hp
  exact gone_modify hcell hpos (Nat.succ_pos _)

theorem gone_assign (a : α) (hp : heap.Live p) : (heap.assign p a).gone = heap.gone := by
  obtain ⟨cell, hcell, hpos⟩ := exists_cell_of_live hp
  exact gone_modify hcell hpos hpos

theorem gone_drop (hp : 1 < heap.useCount p) : (heap.drop p).gone = heap.gone := by
  obtain ⟨cell, hcell, hpos⟩ := exists_cell_of_live (Nat.lt_of_succ_lt hp)
  rw [useCount_eq hcell] at hp
  exact gone_modify hcell hpos (Nat.sub_pos_of_lt hp)

theorem gone_destroy (hp : heap.useCount p = 1) (ha : heap.object? p = some a) :
    (heap.drop p).gone.Perm (a :: heap.gone) := by
  obtain ⟨cell, hcell, rfl⟩ := exists_cell ha
  rw [useCount_eq hcell] at hp
  obtain ⟨before, after, hheap, hmodify⟩ := exists_split hcell
  rw [SharedHeap.drop, hmodify, hheap]
  simp [gone, List.filter_append, hp]

section

variable {β : Type} {f : α → Option β} {c : β}

/-- An object that is there is not among those that are gone. -/
theorem count_gone_lt [DecidableEq β] (hp : heap.Live p) (ha : heap.object? p = some a) (hc : f a = some c) :
    (heap.gone.filterMap f).count c < (heap.objects.filterMap f).count c := by
  obtain ⟨cell, hcell, hpos⟩ := exists_cell_of_live hp
  obtain ⟨cell', hcell', rfl⟩ := exists_cell ha
  obtain rfl := Option.some.inj (hcell.symm.trans hcell')
  obtain ⟨before, after, rfl, -⟩ := exists_split hcell
  have hne := Nat.ne_of_gt hpos
  -- the cell is live, so it is among the objects but not among those that are gone
  have hgone : SharedHeap.gone (before ++ cell :: after) = gone before ++ gone after := by
    simp [gone, List.filter_append, hne]
  have hobjects : SharedHeap.objects (before ++ cell :: after) =
      objects before ++ cell.object :: objects after := List.map_append
  have hbefore := ((gone_sublist before).filterMap f).count_le c
  have hafter := ((gone_sublist after).filterMap f).count_le c
  rw [hgone, hobjects, List.filterMap_append, List.filterMap_append, List.filterMap_cons_some hc,
    List.count_append, List.count_append, List.count_cons_self]
  omega

/-- An assignment that `f` does not see. -/
theorem filterMap_objects_assign (ha : heap.object? p = some a) (hf : f b = f a) :
    (heap.assign p b).objects.filterMap f = heap.objects.filterMap f := by
  obtain ⟨cell, hcell, rfl⟩ := exists_cell ha
  obtain ⟨before, after, hheap, hmodify⟩ := exists_split hcell
  rw [assign, hmodify, hheap]
  simp [objects, List.filterMap_append, List.filterMap_cons, hf]

end

end SharedHeap

end GenC.Lib
