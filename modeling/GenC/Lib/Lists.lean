import Mathlib.Data.List.Forall2
import Mathlib.Data.List.Zip

/-!
# Related lists

`List.Forall₂ R` by positions and by members.
-/

namespace GenC.Lib

variable {α β : Type} {R : α → β → Prop} {as : List α} {bs : List β}

/-- Elements of related lists are related. -/
theorem forall₂_getElem? (h : List.Forall₂ R as bs) : ∀ i : Nat,
      (as[i]? = none ∧ bs[i]? = none) ∨ ∃ a b, as[i]? = some a ∧ bs[i]? = some b ∧ R a b := by
  induction h with
  | nil => exact fun i => .inl ⟨rfl, rfl⟩
  | @cons a b as bs hab _ ih =>
      intro i
      cases i with
      | zero => exact .inr ⟨a, b, rfl, rfl, hab⟩
      | succ i => exact ih i

theorem exists_of_mem_left (h : List.Forall₂ R as bs) {a : α} (ha : a ∈ as) : ∃ b ∈ bs, R a b := by
  induction h with
  | nil => cases ha
  | @cons a' b as bs hab _ ih =>
      cases ha with
      | head => exact ⟨b, .head _, hab⟩
      | tail _ ha =>
          obtain ⟨b', hb', h'⟩ := ih ha
          exact ⟨b', .tail _ hb', h'⟩

theorem exists_of_mem_right (h : List.Forall₂ R as bs) {b : β} (hb : b ∈ bs) : ∃ a ∈ as, R a b :=
  exists_of_mem_left h.flip hb

/-- Where the second list is as long, each member of the first has a partner in it. -/
theorem exists_mem_zip (h : as.length ≤ bs.length) {a : α} (ha : a ∈ as) : ∃ b, (a, b) ∈ as.zip bs := by
  rw [← List.map_fst_zip h] at ha
  obtain ⟨⟨a, b⟩, hmem, rfl⟩ := List.mem_map.mp ha
  exact ⟨b, hmem⟩

theorem mem_zip_swap {p : β × α} (h : p ∈ bs.zip as) : p.swap ∈ as.zip bs := by
  rw [← List.zip_swap]
  exact List.mem_map_of_mem h

/-- Partners in a list of the same length in between. -/
theorem exists_mem_zip_zip {as : List α} {bs : List β} {cs : List γ} (hlength : as.length = bs.length)
    {p : α × γ} (h : p ∈ as.zip cs) : ∃ b, (p.1, b) ∈ as.zip bs ∧ (b, p.2) ∈ bs.zip cs := by
  induction as generalizing bs cs with
  | nil => cases h
  | cons a as ih =>
      cases bs with
      | nil => cases hlength
      | cons b bs =>
          cases cs with
          | nil => cases h
          | cons c cs =>
              rcases List.mem_cons.mp h with rfl | h
              · exact ⟨b, List.mem_cons_self, List.mem_cons_self⟩
              · obtain ⟨b', hab, hbc⟩ := ih (Nat.succ.inj hlength) h
                exact ⟨b', List.mem_cons_of_mem _ hab, List.mem_cons_of_mem _ hbc⟩

end GenC.Lib
