import Mathlib.Data.Nat.Digits.Defs

/-!
# Labelled trees, written out

A tree is written as its label, and after it its children between parentheses. Each character of a label
stands after a full stop, so a text can be read in one way only (**`text_injective`**).
-/

namespace GenC.Lib

/-- Decimal numerals are different. -/
theorem natRepr_injective : Function.Injective Nat.repr := by
  intro m n h
  rw [Nat.repr, Nat.repr] at h
  have hdigits : Nat.toDigits 10 m = Nat.toDigits 10 n := String.ofList_injective h
  rw [← Nat.ofDigitChars_ten_toDigits (n := m), hdigits, Nat.ofDigitChars_ten_toDigits]

inductive LabelledTree where
  | node (label : String) (children : List LabelledTree)

namespace LabelledTree

def leaf (label : String) : LabelledTree := .node label []

/-! ## The text of a tree -/

def spellLabel : List Char → List Char
  | [] => []
  | c :: cs => '.' :: c :: spellLabel cs

mutual

def spell : LabelledTree → List Char
  | .node label children => spellLabel label.toList ++ '(' :: spellAll children

def spellAll : List LabelledTree → List Char
  | [] => [')']
  | t :: ts => t.spell ++ spellAll ts

end

def text (t : LabelledTree) : String := .ofList t.spell

/-! ## Reading it -/

theorem spellLabel_cancel {cs ds s t : List Char} (h : spellLabel cs ++ '(' :: s = spellLabel ds ++ '(' :: t) :
    cs = ds ∧ s = t := by
  induction cs generalizing ds with
  | nil =>
      cases ds with
      | nil => exact ⟨rfl, (List.cons.inj h).2⟩
      | cons d ds => cases h
  | cons c cs ih =>
      cases ds with
      | nil => cases h
      | cons d ds =>
          obtain ⟨hc, h⟩ := List.cons.inj (List.cons.inj h).2
          obtain ⟨hcs, hst⟩ := ih h
          exact ⟨hc ▸ hcs ▸ rfl, hst⟩

/-- A tree does not begin with what ends the children of a tree. -/
theorem spell_ne_close (t : LabelledTree) (s s' : List Char) : t.spell ++ s ≠ ')' :: s' := by
  obtain ⟨label, children⟩ := t
  rw [spell]
  cases label.toList <;> exact fun h => by cases h

mutual

theorem spell_cancel : ∀ {a b : LabelledTree} {s t : List Char}, a.spell ++ s = b.spell ++ t →
    a = b ∧ s = t
  | .node label children, .node label' children', s, t, h => by
      rw [spell, spell, List.append_assoc, List.append_assoc] at h
      obtain ⟨hlabel, h⟩ := spellLabel_cancel h
      obtain ⟨hchildren, hst⟩ := spellAll_cancel h
      exact ⟨by rw [String.toList_injective hlabel, hchildren], hst⟩

theorem spellAll_cancel : ∀ {as bs : List LabelledTree} {s t : List Char},
    spellAll as ++ s = spellAll bs ++ t → as = bs ∧ s = t
  | [], [], _, _, h => ⟨rfl, (List.cons.inj h).2⟩
  | [], b :: bs, _, _, h => by
      rw [spellAll, spellAll, List.append_assoc] at h
      exact (b.spell_ne_close _ _ h.symm).elim
  | a :: as, [], _, _, h => by
      rw [spellAll, spellAll, List.append_assoc] at h
      exact (a.spell_ne_close _ _ h).elim
  | a :: as, b :: bs, s, t, h => by
      rw [spellAll, spellAll, List.append_assoc, List.append_assoc] at h
      obtain ⟨hab, h⟩ := spell_cancel h
      obtain ⟨habs, hst⟩ := spellAll_cancel h
      exact ⟨by rw [hab, habs], hst⟩

end

theorem text_injective : Function.Injective text := by
  intro a b h
  have hspell : a.spell ++ [] = b.spell ++ [] := by rw [String.ofList_injective h]
  exact (spell_cancel hspell).1

/-! ## Numbers and truth values -/

def nat (n : Nat) : LabelledTree := leaf n.repr

def int : Int → LabelledTree
  | .ofNat n => .node "" [nat n]
  | .negSucc n => .node "-" [nat n]

def bool (b : Bool) : LabelledTree := leaf (if b then "true" else "false")

theorem nat_injective : Function.Injective nat :=
  fun _ _ h => natRepr_injective (LabelledTree.node.inj h).1

theorem int_injective : Function.Injective int := by
  intro i j h
  cases i <;> cases j <;> simp [int, nat_injective.eq_iff] at h
  · rw [h]
  · rw [h]

theorem bool_injective : Function.Injective bool := by
  intro a b h
  cases a <;> cases b <;> simp [bool, leaf] at h ⊢

end LabelledTree

end GenC.Lib
