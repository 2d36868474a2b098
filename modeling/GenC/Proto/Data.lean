import GenC.Authoring.Constructor
import Mathlib.Data.List.Forall2

/-!
# Data

Values that are data through and through, and what is left of them without their metadata. Which data
cannot be told apart is a parameter of much that follows (`DataEquivalence`): no two pieces of data, or those
that differ in the metadata of their structures only, or in any metadata.
-/

namespace GenC

/-! ## Materialized values -/

namespace Value

/-- A scalar, or a struct of materialized values. -/
inductive Materialized : Value → Prop where
  | scalar {m : Meta} {c : Scalar} : Materialized (.scalar m c)
  | struct {m : Meta} {es : List Value} (h : ∀ e ∈ es, Materialized e) : Materialized (.struct m es)

theorem Materialized.elements {m : Meta} {es : List Value} (h : Materialized (.struct m es)) :
    ∀ e ∈ es, e.Materialized := by
  cases h with
  | struct h => exact h

/-- The value without the metadata of its structs. -/
def bareStructs : Value → Value
  | .struct _ es => .struct {} (bareStructsAll es)
  | v => v
where
  bareStructsAll : List Value → List Value
  | [] => []
  | e :: es => bareStructs e :: bareStructsAll es

/-- No struct has metadata. -/
inductive Bare : Value → Prop where
  | scalar {m : Meta} {c : Scalar} : Bare (.scalar m c)
  | struct {es : List Value} (h : ∀ e ∈ es, Bare e) : Bare (.struct {} es)

theorem bareStructsAll_eq_map (es : List Value) :
    bareStructs.bareStructsAll es = es.map bareStructs := by
  induction es with
  | nil => rfl
  | cons e es ih => rw [bareStructs.bareStructsAll, ih, List.map_cons]

theorem bareStructsAll_eq_iff {ws ds : List Value} :
    bareStructs.bareStructsAll ws = bareStructs.bareStructsAll ds ↔
      List.Forall₂ (fun w d => w.bareStructs = d.bareStructs) ws ds := by
  rw [bareStructsAll_eq_map, bareStructsAll_eq_map, ← List.forall₂_eq_eq_eq, List.forall₂_map_left_iff,
    List.forall₂_map_right_iff]

/-- A map that changes nothing changes no element. -/
theorem map_eq_self_iff {f : Value → Value} {es : List Value} :
    es.map f = es ↔ ∀ e ∈ es, f e = e := by
  conv_lhs => rw [← List.map_id es, List.map_map]
  exact List.map_inj_left

/-- Nothing is lost just when there was nothing to lose. -/
theorem bareStructs_eq_self_iff {v : Value} (hv : v.Materialized) : v.bareStructs = v ↔ v.Bare := by
  induction hv with
  | scalar => exact ⟨fun _ => .scalar, fun _ => rfl⟩
  | @struct m es _ ih =>
      rw [bareStructs, bareStructsAll_eq_map]
      constructor
      · intro h
        obtain ⟨rfl, hes⟩ := Value.struct.inj h
        have hself : ∀ e ∈ es, e.bareStructs = e := map_eq_self_iff.mp hes
        exact .struct fun e he => (ih e he).mp (hself e he)
      · intro h
        cases h with
        | struct h =>
            have hself : ∀ e ∈ es, e.bareStructs = e := fun e he => (ih e he).mpr (h e he)
            rw [map_eq_self_iff.mpr hself]

theorem Materialized.bareStructs {v : Value} (h : v.Materialized) : v.bareStructs.Materialized := by
  induction h with
  | scalar => exact .scalar
  | @struct m es _ ih =>
      rw [Value.bareStructs, bareStructsAll_eq_map]
      refine .struct fun w hw => ?_
      obtain ⟨e, he, rfl⟩ := List.mem_map.mp hw
      exact ih e he

theorem bareStructs_bareStructs {v : Value} (h : v.Materialized) :
    v.bareStructs.bareStructs = v.bareStructs := by
  induction h with
  | scalar => rfl
  | @struct m es _ ih =>
      rw [Value.bareStructs, Value.bareStructs, bareStructsAll_eq_map, bareStructsAll_eq_map, List.map_map]
      exact congrArg (Value.struct {}) (List.map_congr_left fun e he => ih e he)

theorem boolean?_bareStructs (v : Value) : v.bareStructs.boolean? = v.boolean? := by
  cases v <;> rfl

theorem str_bareStructs (v : Value) : v.bareStructs.str = v.str := by
  cases v <;> rfl

mutual

/-- Without any metadata. Functions are left as they are. -/
def withoutMeta : Value → Value
  | .scalar _ c => .scalar {} c
  | .struct _ es => .struct {} (withoutMetaAll es)
  | v => v

def withoutMetaAll : List Value → List Value
  | [] => []
  | v :: vs => v.withoutMeta :: withoutMetaAll vs

end

theorem withoutMetaAll_eq_iff : ∀ {ws ds : List Value}, withoutMetaAll ws = withoutMetaAll ds ↔
    List.Forall₂ (fun w d => withoutMeta w = withoutMeta d) ws ds
  | [], [] => ⟨fun _ => .nil, fun _ => rfl⟩
  | [], _ :: _ => ⟨fun h => (nomatch h), fun h => (nomatch h)⟩
  | _ :: _, [] => ⟨fun h => (nomatch h), fun h => (nomatch h)⟩
  | w :: ws, d :: ds => by
      rw [withoutMetaAll, withoutMetaAll, List.cons.injEq, List.forall₂_cons, withoutMetaAll_eq_iff]

end Value

/-! ## Data that is taken for the same -/

/-- Data that is taken for the same, item by item. Not everything is data: `same d d` says that `d` is. -/
structure DataEquivalence where
  same : Value → Value → Prop
  symm : ∀ {w d}, same w d → same d w
  trans : ∀ {w d d'}, same w d → same d d' → same w d'
  scalar : ∀ m c, same (.scalar m c) (.scalar m c)
  struct : ∀ {ws ds}, List.Forall₂ same ws ds → same (createStruct ws) (createStruct ds)
  elements : ∀ {w ds}, same w (createStruct ds) → ∃ m ws, w = .struct m ws ∧ List.Forall₂ same ws ds

namespace DataEquivalence

/-- No two pieces of data are the same. -/
def exactly : DataEquivalence where
  same := Eq
  symm := Eq.symm
  trans := Eq.trans
  scalar _ _ := rfl
  struct h := by
    rw [List.forall₂_eq_eq_eq] at h
    rw [h]
  elements {w ds} h := by
    refine ⟨{}, ds, h, ?_⟩
    rw [List.forall₂_eq_eq_eq]

/-- Labels, types and MIME types do not matter. -/
def upToMetadata : DataEquivalence where
  same w d := w.withoutMeta = d.withoutMeta
  symm := Eq.symm
  trans := Eq.trans
  scalar _ _ := rfl
  struct h := by
    rw [createStruct, createStruct, Value.withoutMeta, Value.withoutMeta,
      Value.withoutMetaAll_eq_iff.mpr h]
  elements {w ds} h := by
    rw [createStruct, Value.withoutMeta] at h
    cases w with
    | struct m ws =>
        rw [Value.withoutMeta] at h
        exact ⟨m, ws, rfl, Value.withoutMetaAll_eq_iff.mp (Value.struct.inj h).2⟩
    | _ => cases h

/-- The metadata of structures does not matter. -/
def upToStructs : DataEquivalence where
  same w d := (w.Materialized ∧ d.Materialized) ∧ w.bareStructs = d.bareStructs
  symm h := ⟨h.1.symm, h.2.symm⟩
  trans h h' := ⟨⟨h.1.1, h'.1.2⟩, h.2.trans h'.2⟩
  scalar _ _ := ⟨⟨.scalar, .scalar⟩, rfl⟩
  struct {ws ds} h := by
    have hmem : (∀ w ∈ ws, w.Materialized) ∧ (∀ d ∈ ds, d.Materialized) := by
      induction h with
      | nil => exact ⟨List.forall_mem_nil _, List.forall_mem_nil _⟩
      | cons h _ ih =>
          exact ⟨List.forall_mem_cons.mpr ⟨h.1.1, ih.1⟩, List.forall_mem_cons.mpr ⟨h.1.2, ih.2⟩⟩
    refine ⟨⟨.struct hmem.1, .struct hmem.2⟩, ?_⟩
    rw [createStruct, createStruct, Value.bareStructs, Value.bareStructs,
      Value.bareStructsAll_eq_iff.mpr (h.imp fun _ _ h => h.2)]
  elements {w ds} h := by
    obtain ⟨⟨hw, hds⟩, h⟩ := h
    rw [createStruct, Value.bareStructs] at h
    cases hw with
    | scalar => cases h
    | @struct m ws hws =>
        rw [Value.bareStructs] at h
        have hall := Value.bareStructsAll_eq_iff.mp (Value.struct.inj h).2
        obtain ⟨hlength, hzip⟩ := List.forall₂_iff_zip.mp hall
        refine ⟨m, ws, rfl, List.forall₂_iff_zip.mpr ⟨hlength, fun {a b} hab => ?_⟩⟩
        obtain ⟨ha, hb⟩ := List.of_mem_zip hab
        exact ⟨⟨hws a ha, hds.elements b hb⟩, hzip hab⟩

end DataEquivalence

end GenC
