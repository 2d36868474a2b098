import GenC.Lib.LabelledTree
import GenC.Proto.Value

/-!
# A text of the IR

The text format of the protobuf library is not part of the repository, and a parameter wherever it is
used. What the code relies on is that texts tell IR apart. Here is a text that does so for all IR
(**`text_injective`**), with all its metadata and types: the message as a labelled tree, written out.
-/

namespace GenC

open Lib LabelledTree

/-! ## Payloads -/

def bytesTree (bytes : List UInt8) : LabelledTree := .node "" (bytes.map fun byte => nat byte.toNat)

theorem bytesTree_injective : Function.Injective bytesTree := by
  intro a b h
  refine List.map_injective_iff.mpr ?_ (LabelledTree.node.inj h).2
  exact fun _ _ h => UInt8.toNat_inj.mp (nat_injective h)

namespace AnyPb

def tree (any : AnyPb) : LabelledTree := .node any.typeUrl [bytesTree any.value]

theorem tree_injective : Function.Injective tree := by
  rintro ⟨typeUrl, value⟩ ⟨typeUrl', value'⟩ h
  simpa [tree, bytesTree_injective.eq_iff] using h

end AnyPb

namespace Scalar

def tree : Scalar → LabelledTree
  | .str s => .node "str" [leaf s]
  | .boolean b => .node "boolean" [bool b]
  | .int32 i => .node "int_32" [int i.toInt]
  | .float32 bits => .node "float_32" [nat bits.toNat]
  | .media bytes => .node "media" [bytesTree bytes]
  | .tensor any => .node "tensor" [any.tree]
  | .customValue any => .node "custom_value" [any.tree]

theorem tree_injective : Function.Injective tree := by
  intro a b h
  cases a <;> cases b <;>
    simp [tree, leaf, int_injective.eq_iff, nat_injective.eq_iff, bytesTree_injective.eq_iff,
      AnyPb.tree_injective.eq_iff, bool_injective.eq_iff, Int32.toInt_inj, UInt32.toNat_inj] at h ⊢ <;>
    exact h

end Scalar

/-! ## Types and metadata -/

/-- A type by its number among those that have a name. -/
def ScalarType.tree : ScalarType → LabelledTree
  | .unrecognized number => .node "number" [int number.toInt]
  | scalar => .node "name" [nat scalar.ctorIdx]

theorem ScalarType.tree_injective : Function.Injective ScalarType.tree := by
  intro a b h
  cases a <;> cases b <;>
    first
    | rfl
    | exact absurd (nat_injective (List.cons.inj (LabelledTree.node.inj h).2).1) (by decide)
    | simp [tree, int_injective.eq_iff, Int32.toInt_inj] at h ⊢
  exact h

namespace TypePb

mutual

def tree : TypePb → LabelledTree
  | .notSet => .node "" []
  | .function parameter result => .node "function" [treeOption parameter, treeOption result]
  | .struct element => .node "struct" (treeAll element)
  | .sequence element => .node "sequence" [treeOption element]
  | .scalar s => .node "scalar" [s.tree]
  | .tensor s dims unknownRank =>
      .node "tensor" (s.tree :: bool unknownRank :: dims.map int)

def treeOption : Option TypePb → LabelledTree
  | none => .node "" []
  | some type => .node "some" [type.tree]

def treeAll : List TypePb → List LabelledTree
  | [] => []
  | type :: types => type.tree :: treeAll types

end

mutual

theorem tree_injective : ∀ {a b : TypePb}, a.tree = b.tree → a = b
  | .notSet, b, h => by cases b <;> simp [tree] at h ⊢
  | .function parameter result, b, h => by
      cases b <;> simp [tree] at h ⊢
      exact ⟨treeOption_injective h.1, treeOption_injective h.2⟩
  | .struct element, b, h => by
      cases b <;> simp [tree] at h ⊢
      exact treeAll_injective h
  | .sequence element, b, h => by
      cases b <;> simp [tree] at h ⊢
      exact treeOption_injective h
  | .scalar s, b, h => by
      cases b <;> simp [tree] at h ⊢
      exact ScalarType.tree_injective h
  | .tensor s dims unknownRank, b, h => by
      cases b <;> simp [tree] at h ⊢
      obtain ⟨hs, hrank, hdims⟩ := h
      exact ⟨ScalarType.tree_injective hs, List.map_injective_iff.mpr int_injective hdims,
        bool_injective hrank⟩

theorem treeOption_injective : ∀ {a b : Option TypePb}, treeOption a = treeOption b → a = b
  | none, b, h => by cases b <;> simp [treeOption] at h ⊢
  | some type, b, h => by
      cases b <;> simp [treeOption] at h ⊢
      exact tree_injective h

theorem treeAll_injective : ∀ {as bs : List TypePb}, treeAll as = treeAll bs → as = bs
  | [], bs, h => by cases bs <;> simp [treeAll] at h ⊢
  | a :: as, bs, h => by
      cases bs <;> simp [treeAll] at h ⊢
      exact ⟨tree_injective h.1, treeAll_injective h.2⟩

end

end TypePb

namespace Meta

def tree (m : Meta) : LabelledTree := .node m.label [leaf m.mimetype, TypePb.treeOption m.type]

theorem tree_injective : Function.Injective tree := by
  rintro ⟨type, label, mimetype⟩ ⟨type', label', mimetype'⟩ h
  simp [tree, leaf] at h
  obtain ⟨rfl, rfl, htype⟩ := h
  rw [TypePb.treeOption_injective htype]

end Meta

/-! ## Values -/

namespace Value

mutual

def tree : Value → LabelledTree
  | .notSet m => .node "" [m.tree]
  | .scalar m s => .node "scalar" [m.tree, s.tree]
  | .call m function argument => .node "call" (m.tree :: function.tree :: treeOption argument)
  | .lambda m parameterName result => .node "lambda" [m.tree, leaf parameterName, result.tree]
  | .reference m name => .node "reference" [m.tree, leaf name]
  | .struct m element => .node "struct" (m.tree :: treeAll element)
  | .selection m source index => .node "selection" [m.tree, source.tree, int index.toInt]
  | .block m locals result => .node "block" (m.tree :: result.tree :: treeLocals locals)
  | .intrinsic m uri staticParameter => .node "intrinsic" (m.tree :: leaf uri :: treeOption staticParameter)

def treeOption : Option Value → List LabelledTree
  | none => []
  | some v => [v.tree]

def treeAll : List Value → List LabelledTree
  | [] => []
  | v :: vs => v.tree :: treeAll vs

def treeLocals : List (String × Value) → List LabelledTree
  | [] => []
  | (name, localPb) :: locals => .node name [localPb.tree] :: treeLocals locals

end

mutual

theorem tree_injective : ∀ {v w : Value}, v.tree = w.tree → v = w
  | .notSet m, w, h => by
      cases w <;> simp [tree, Meta.tree_injective.eq_iff] at h ⊢
      exact h
  | .scalar m s, w, h => by
      cases w <;> simp [tree, Meta.tree_injective.eq_iff] at h ⊢
      exact ⟨h.1, Scalar.tree_injective h.2⟩
  | .call m function argument, w, h => by
      cases w <;> simp [tree, Meta.tree_injective.eq_iff] at h ⊢
      exact ⟨h.1, tree_injective h.2.1, treeOption_injective h.2.2⟩
  | .lambda m parameterName result, w, h => by
      cases w <;> simp [tree, leaf, Meta.tree_injective.eq_iff] at h ⊢
      exact ⟨h.1, h.2.1, tree_injective h.2.2⟩
  | .reference m name, w, h => by
      cases w <;> simp [tree, leaf, Meta.tree_injective.eq_iff] at h ⊢
      exact h
  | .struct m element, w, h => by
      cases w <;> simp [tree, Meta.tree_injective.eq_iff] at h ⊢
      exact ⟨h.1, treeAll_injective h.2⟩
  | .selection m source index, w, h => by
      cases w <;> simp [tree, Meta.tree_injective.eq_iff, int_injective.eq_iff, Int32.toInt_inj] at h ⊢
      exact ⟨h.1, tree_injective h.2.1, h.2.2⟩
  | .block m locals result, w, h => by
      cases w <;> simp [tree, Meta.tree_injective.eq_iff] at h ⊢
      exact ⟨h.1, treeLocals_injective h.2.2, tree_injective h.2.1⟩
  | .intrinsic m uri staticParameter, w, h => by
      cases w <;> simp [tree, leaf, Meta.tree_injective.eq_iff] at h ⊢
      exact ⟨h.1, h.2.1, treeOption_injective h.2.2⟩

theorem treeOption_injective : ∀ {a b : Option Value}, treeOption a = treeOption b → a = b
  | none, b, h => by cases b <;> simp [treeOption] at h ⊢
  | some v, b, h => by
      cases b <;> simp [treeOption] at h ⊢
      exact tree_injective h

theorem treeAll_injective : ∀ {vs ws : List Value}, treeAll vs = treeAll ws → vs = ws
  | [], ws, h => by cases ws <;> simp [treeAll] at h ⊢
  | v :: vs, ws, h => by
      cases ws <;> simp [treeAll] at h ⊢
      exact ⟨tree_injective h.1, treeAll_injective h.2⟩

theorem treeLocals_injective : ∀ {as bs : List (String × Value)}, treeLocals as = treeLocals bs → as = bs
  | [], bs, h => by cases bs <;> simp [treeLocals] at h ⊢
  | (name, localPb) :: as, bs, h => by
      cases bs <;> simp [treeLocals] at h ⊢
      exact ⟨Prod.ext h.1.1 (tree_injective h.1.2), treeLocals_injective h.2⟩

end

def text (v : Value) : String := v.tree.text

theorem text_injective : Function.Injective text :=
  fun _ _ h => tree_injective (LabelledTree.text_injective h)

end Value

end GenC
