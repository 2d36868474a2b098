import GenC.Lib.Lists
import GenC.Types.Inference

/-!
# What `InferTypes` writes

A run of `InferTypes` that succeeds, as a relation between the value before it and after it: `Infers`
(`inferTypes_eq_ok_iff`). It says once what each branch does; the rest is read off it.

* `Value.Everywhere` — what holds of a value and of all that lies in it.
* `Value.Agrees` — the annotations a value comes with are right.
* `Value.Annotates` — one value is another with annotations added.

**`inferTypes_annotates`**: `InferTypes` accepts a value just when it has a type and its annotations are
right. It then annotates everything, changes nothing else, and has nothing left to do a second time.
-/

namespace GenC

open Lib

/-! ## Parts of a value -/

/-- The first is the second or lies in it, below structures and selections. -/
inductive Value.IsPart (u : Value) : Value → Prop where
  | self : IsPart u u
  | element {m : Meta} {element : List Value} {e : Value} (he : e ∈ element) (h : IsPart u e) :
      IsPart u (.struct m element)
  | source {m : Meta} {source : Value} {index : Int32} (h : IsPart u source) :
      IsPart u (.selection m source index)

def Value.Everywhere (P : Value → Prop) (v : Value) : Prop := ∀ u : Value, u.IsPart v → P u

section

variable {P : Value → Prop} {m : Meta}

theorem Value.Everywhere.self {v : Value} (h : v.Everywhere P) : P v := h v .self

theorem Value.Everywhere.element {element : List Value} (h : (Value.struct m element).Everywhere P) :
    ∀ e ∈ element, e.Everywhere P :=
  fun _ he u hu => h u (.element he hu)

theorem Value.Everywhere.source {source : Value} {index : Int32}
    (h : (Value.selection m source index).Everywhere P) : source.Everywhere P :=
  fun u hu => h u (.source hu)

end

/-! ## The reference typing -/

mutual

theorem Value.Typed.unique : ∀ {v : Value} {t t' : TypePb}, v.Typed t → v.Typed t' → t = t'
  | _, _, _, .str, .str => rfl
  | _, _, _, .int32, .int32 => rfl
  | _, _, _, .boolean, .boolean => rfl
  | _, _, _, .struct h, .struct h' => congrArg TypePb.struct (Value.Typed.unique_all h h')
  | _, _, _, .selection hsource _ ht, .selection hsource' _ ht' => by
      obtain rfl := TypePb.struct.inj (Value.Typed.unique hsource hsource')
      exact Option.some.inj (ht.symm.trans ht')

theorem Value.Typed.unique_all : ∀ {vs : List Value} {ts ts' : List TypePb},
    List.Forall₂ Value.Typed vs ts → List.Forall₂ Value.Typed vs ts' → ts = ts'
  | _, _, _, .nil, .nil => rfl
  | _, _, _, .cons h hs, .cons h' hs' => by
      rw [Value.Typed.unique h h', Value.Typed.unique_all hs hs']

end

/-! ## A run that succeeds -/

/-- `ScalarType` of a payload that has one. -/
inductive Scalar.OfType : Scalar → ScalarType → Prop where
  | str {s : String} : OfType (.str s) .string
  | int32 {i : Int32} : OfType (.int32 i) .int32
  | boolean {b : Bool} : OfType (.boolean b) .bool

section

variable [TypeText]

/-- The metadata `m` takes the annotation `t`: it has none, or one that passes the check. -/
structure Meta.Takes (m : Meta) (t : TypePb) (m' : Meta) : Prop where
  annotated : m' = { m with type := some t }
  preset : ∀ type, m.type = some type → checkEqual type t = .ok ()

/-- `InferTypes` succeeds on the first value and leaves the second. -/
inductive Infers : Value → Value → Prop where
  | scalar {m m' : Meta} {s : Scalar} {scalarType : ScalarType} (hs : s.OfType scalarType)
      (hm : m.Takes (.scalar scalarType) m') : Infers (.scalar m s) (.scalar m' s)
  | struct {m m' : Meta} {element element' : List Value} (h : List.Forall₂ Infers element element')
      (hm : m.Takes (.struct (element'.map Value.typePb)) m') :
      Infers (.struct m element) (.struct m' element')
  | selection {m m' : Meta} {source source' : Value} {index : Int32} {types : List TypePb} {t : TypePb}
      (h : Infers source source') (hsource : source'.typePb = .struct types)
      (hindex : 0 ≤ index.toInt) (ht : types[index.toInt.toNat]? = some t) (hm : m.Takes t m') :
      Infers (.selection m source index) (.selection m' source' index)

namespace Meta.Takes

variable {m m' : Meta} {t : TypePb}

theorem of_none (h : m.type = none) : m.Takes t { m with type := some t } where
  annotated := rfl
  preset := by
    intro type htype
    rw [h] at htype
    cases htype

theorem of_some {type : TypePb} (h : m.type = some type) (hcheck : checkEqual type t = .ok ()) :
    m.Takes t m where
  annotated := by
    obtain ⟨rfl, -⟩ := checkEqual_eq_ok hcheck
    rw [← h]
  preset := by
    intro type' htype'
    obtain rfl : type = type' := Option.some.inj (h.symm.trans htype')
    exact hcheck

/-- A step that writes the annotation where there is none, and else checks the one that is there. -/
theorem check_iff (f : Meta → Value) {v : Value} :
    (match m.type with
      | none => ((.ok () : StatusOr Unit), f { m with type := some t })
      | some type => (checkEqual type t, f m)) = (.ok (), v) ↔ ∃ m', m.Takes t m' ∧ v = f m' := by
  constructor
  · intro h
    split at h
    · next hnone => exact ⟨_, of_none hnone, (Prod.mk.inj h).2.symm⟩
    · next type hsome =>
        obtain ⟨hcheck, rfl⟩ := Prod.mk.inj h
        exact ⟨m, of_some hsome hcheck, rfl⟩
  · rintro ⟨m', ⟨rfl, hpreset⟩, rfl⟩
    split
    · rfl
    · next type hsome =>
        obtain ⟨rfl, -⟩ := checkEqual_eq_ok (hpreset type hsome)
        rw [hpreset _ hsome, ← hsome]

theorem type_eq (h : m.Takes t m') : m'.type = some t := by
  rw [h.annotated]

theorem getD_type (h : m.Takes t m') : m'.type.getD .notSet = t := by
  rw [h.type_eq, Option.getD_some]

/-- What was annotated and can be checked takes the same annotation again. -/
theorem again (h : m.Takes t m') (ht : t.Checkable) : m'.Takes t m' := of_some h.type_eq ht.checkEqual_self

end Meta.Takes

theorem setScalarType_eq_ok_iff {m : Meta} {s : Scalar} {scalarType : ScalarType} {v : Value} :
    setScalarType m s scalarType = (.ok (), v) ↔
      ∃ m', m.Takes (.scalar scalarType) m' ∧ v = .scalar m' s :=
  Meta.Takes.check_iff fun m => Value.scalar m s

theorem inferSelection_eq_ok_iff {m : Meta} {source v : Value} {index : Int32} :
    inferSelection m source index = (.ok (), v) ↔
      ∃ types t m', source.typePb = .struct types ∧ 0 ≤ index.toInt ∧
        types[index.toInt.toNat]? = some t ∧ m.Takes t m' ∧ v = .selection m' source index := by
  constructor
  · intro h
    unfold inferSelection at h
    split at h
    · next types hsource =>
        split at h
        · cases h
        next hindex =>
        split at h
        · cases h
        next t ht =>
        -- the index is inside of the struct, so only the annotation decides
        obtain ⟨m', hm, hv⟩ := (Meta.Takes.check_iff fun m => Value.selection m source index).mp h
        exact ⟨types, t, m', hsource, Int.not_lt.mp hindex, ht, hm, hv⟩
    · cases h
  · rintro ⟨types, t, m', hsource, hindex, ht, hm, rfl⟩
    rw [inferSelection, hsource]
    dsimp only
    rw [if_neg (Int.not_lt.mpr hindex), ht]
    exact (Meta.Takes.check_iff fun m => Value.selection m source index).mpr ⟨m', hm, rfl⟩

/-- A structure of which the elements are inferred. -/
theorem inferTypes_struct_eq_ok_iff {m : Meta} {element element' : List Value} {types : List TypePb}
    {v : Value} (hcreate : createStructType element = (.ok (), element', types)) :
    inferTypes (.struct m element) = (.ok (), v) ↔
      ∃ m', m.Takes (.struct types) m' ∧ v = .struct m' element' := by
  rw [inferTypes, hcreate]
  exact Meta.Takes.check_iff fun m => Value.struct m element'

mutual

theorem infers_of_eq_ok : ∀ {v v' : Value}, inferTypes v = (.ok (), v') → Infers v v'
  | .scalar m (.str s), v', h => by
      obtain ⟨m', hm, rfl⟩ := setScalarType_eq_ok_iff.mp h
      exact .scalar .str hm
  | .scalar m (.int32 i), v', h => by
      obtain ⟨m', hm, rfl⟩ := setScalarType_eq_ok_iff.mp h
      exact .scalar .int32 hm
  | .scalar m (.boolean b), v', h => by
      obtain ⟨m', hm, rfl⟩ := setScalarType_eq_ok_iff.mp h
      exact .scalar .boolean hm
  | .struct m element, v', h => by
      rcases hcreate : createStructType element with ⟨status, element', types⟩
      -- an element that fails fails the struct
      have hstatus : status = .ok () := by
        rw [inferTypes, hcreate] at h
        dsimp only at h
        cases status with
        | ok => rfl
        | error e => split at h <;> cases h
      rw [hstatus] at hcreate
      obtain ⟨m', hm, rfl⟩ := (inferTypes_struct_eq_ok_iff hcreate).mp h
      obtain ⟨helement, rfl⟩ := infers_of_createStructType_eq_ok hcreate
      exact .struct helement hm
  | .selection m source index, v', h => by
      rw [inferTypes] at h
      split at h
      · cases h
      next source' hinfer =>
      obtain ⟨types, t, m', hsource, hindex, ht, hm, rfl⟩ := inferSelection_eq_ok_iff.mp h
      exact .selection (infers_of_eq_ok hinfer) hsource hindex ht hm
  -- for the others no type is inferred
  | .notSet _, _, h => by cases h
  | .scalar _ (.float32 _), _, h => by cases h
  | .scalar _ (.media _), _, h => by cases h
  | .scalar _ (.tensor _), _, h => by cases h
  | .scalar _ (.customValue _), _, h => by cases h
  | .call _ _ _, _, h => by cases h
  | .lambda _ _ _, _, h => by cases h
  | .reference _ _, _, h => by cases h
  | .block _ _ _, _, h => by cases h
  | .intrinsic _ _ _, _, h => by cases h

theorem infers_of_createStructType_eq_ok : ∀ {vs vs' : List Value} {types : List TypePb},
    createStructType vs = (.ok (), vs', types) →
      List.Forall₂ Infers vs vs' ∧ types = vs'.map Value.typePb
  | [], _, _, h => by
      obtain ⟨-, rfl, rfl⟩ := h
      exact ⟨.nil, rfl⟩
  | v :: vs, _, _, h => by
      rw [createStructType] at h
      split at h
      · cases h
      next v' hinfer =>
      rcases hcreate : createStructType vs with ⟨status, vs', types⟩
      rw [hcreate] at h
      obtain ⟨rfl, rfl, rfl⟩ := h
      obtain ⟨hvs, rfl⟩ := infers_of_createStructType_eq_ok hcreate
      exact ⟨.cons (infers_of_eq_ok hinfer) hvs, rfl⟩

end

mutual

theorem Infers.eq_ok : ∀ {v v' : Value}, Infers v v' → inferTypes v = (.ok (), v')
  | _, _, .scalar hs hm => by
      cases hs <;> exact setScalarType_eq_ok_iff.mpr ⟨_, hm, rfl⟩
  | _, _, .struct h hm => (inferTypes_struct_eq_ok_iff (Infers.createStructType_eq_ok h)).mpr ⟨_, hm, rfl⟩
  | _, _, .selection h hsource hindex ht hm => by
      rw [inferTypes, Infers.eq_ok h]
      exact inferSelection_eq_ok_iff.mpr ⟨_, _, _, hsource, hindex, ht, hm, rfl⟩

theorem Infers.createStructType_eq_ok : ∀ {vs vs' : List Value}, List.Forall₂ Infers vs vs' →
    createStructType vs = (.ok (), vs', vs'.map Value.typePb)
  | _, _, .nil => rfl
  | _, _, .cons h hs => by
      rw [createStructType, Infers.eq_ok h, Infers.createStructType_eq_ok hs]
      rfl

end

theorem inferTypes_eq_ok_iff {v v' : Value} : inferTypes v = (.ok (), v') ↔ Infers v v' :=
  ⟨infers_of_eq_ok, Infers.eq_ok⟩

theorem inferTypes_ok_iff {v : Value} : (inferTypes v).1 = .ok () ↔ ∃ v', Infers v v' := by
  constructor
  · intro h
    exact ⟨(inferTypes v).2, infers_of_eq_ok (Prod.ext h rfl)⟩
  · rintro ⟨v', h⟩
    rw [h.eq_ok]

/-! ## What is left behind -/

omit [TypeText] in
theorem Scalar.OfType.unique {s : Scalar} {t t' : ScalarType} (h : s.OfType t) (h' : s.OfType t') : t = t' := by
  cases h <;> cases h' <;> rfl

theorem Infers.takes {v v' : Value} (h : Infers v v') : v.metadata.Takes v'.typePb v'.metadata := by
  have htakes : ∀ {m m' : Meta} {t : TypePb}, m.Takes t m' → m.Takes (m'.type.getD .notSet) m' := by
    intro m m' t hm
    rw [hm.getD_type]
    exact hm
  cases h with
  | scalar _ hm => exact htakes hm
  | struct _ hm => exact htakes hm
  | selection _ _ _ _ hm => exact htakes hm

mutual

/-- An inferred type has a case in `CheckEqual`, and so have its parts. -/
theorem Infers.checkable : ∀ {v v' : Value}, Infers v v' → v'.typePb.Checkable
  | _, _, .scalar _ hm => by
      rw [Value.typePb, Value.metadata, hm.getD_type]
      exact .scalar
  | _, _, .struct h hm => by
      rw [Value.typePb, Value.metadata, hm.getD_type]
      exact .struct (Infers.checkable_all h)
  | _, _, .selection h hsource _ ht hm => by
      have hstruct := Infers.checkable h
      rw [hsource] at hstruct
      rw [Value.typePb, Value.metadata, hm.getD_type]
      cases hstruct with
      | struct hall => exact hall _ (List.mem_of_getElem? ht)

theorem Infers.checkable_all : ∀ {vs vs' : List Value}, List.Forall₂ Infers vs vs' →
    ∀ t ∈ vs'.map Value.typePb, t.Checkable
  | _, _, .nil => fun _ h => (nomatch h)
  | _, _, .cons h hs => List.forall_mem_cons.mpr ⟨Infers.checkable h, Infers.checkable_all hs⟩

end

mutual

/-- A second run finds everything annotated. -/
theorem Infers.again : ∀ {v v' : Value}, Infers v v' → Infers v' v'
  | _, _, .scalar hs hm => .scalar hs (hm.again .scalar)
  | _, _, .struct h hm => .struct (Infers.again_all h) (hm.again (.struct (Infers.checkable_all h)))
  | _, _, .selection h hsource hindex ht hm => by
      have hchecked := Infers.checkable (.selection h hsource hindex ht hm)
      rw [Value.typePb, Value.metadata, hm.getD_type] at hchecked
      exact .selection (Infers.again h) hsource hindex ht (hm.again hchecked)

theorem Infers.again_all : ∀ {vs vs' : List Value}, List.Forall₂ Infers vs vs' →
    List.Forall₂ Infers vs' vs'
  | _, _, .nil => .nil
  | _, _, .cons h hs => .cons (Infers.again h) (Infers.again_all hs)

end

mutual

theorem Infers.typed_before : ∀ {v v' : Value}, Infers v v' → v.Typed v'.typePb
  | _, _, .scalar hs hm => by
      rw [Value.typePb, Value.metadata, hm.getD_type]
      cases hs with
      | str => exact .str
      | int32 => exact .int32
      | boolean => exact .boolean
  | _, _, .struct h hm => by
      rw [Value.typePb, Value.metadata, hm.getD_type]
      exact .struct (Infers.typed_before_all h)
  | _, _, .selection h hsource hindex ht hm => by
      have htyped := Infers.typed_before h
      rw [hsource] at htyped
      rw [Value.typePb, Value.metadata, hm.getD_type]
      exact .selection htyped hindex ht

theorem Infers.typed_before_all : ∀ {vs vs' : List Value}, List.Forall₂ Infers vs vs' →
    List.Forall₂ Value.Typed vs (vs'.map Value.typePb)
  | _, _, .nil => .nil
  | _, _, .cons h hs => .cons (Infers.typed_before h) (Infers.typed_before_all hs)

end

/-- What is inferred is so: of the value as it was, and of the annotated one. -/
theorem Infers.typed {v v' : Value} (h : Infers v v') : v.Typed v'.typePb ∧ v'.Typed v'.typePb :=
  ⟨h.typed_before, h.again.typed_before⟩

theorem inferTypes_typed {v v' : Value} (h : inferTypes v = (.ok (), v')) :
    v.Typed v'.typePb ∧ v'.Typed v'.typePb :=
  (infers_of_eq_ok h).typed

/-- Each part was inferred too. -/
theorem Infers.of_part {v v' u : Value} (h : Infers v v') (hu : u.IsPart v) : ∃ u', Infers u u' := by
  induction hu generalizing v' with
  | self => exact ⟨v', h⟩
  | element he _ ih =>
      cases h with
      | struct helement _ =>
          obtain ⟨e', -, hinfers⟩ := exists_of_mem_left helement he
          exact ih hinfers
  | source _ ih =>
      cases h with
      | selection hsource => exact ih hsource

/-- Each part of what is left behind was left by the run on a part. -/
theorem Infers.of_part_right {v v' u' : Value} (h : Infers v v') (hu : u'.IsPart v') :
    ∃ u, Infers u u' := by
  induction hu generalizing v with
  | self => exact ⟨v, h⟩
  | element he _ ih =>
      cases h with
      | struct helement _ =>
          obtain ⟨e, -, hinfers⟩ := exists_of_mem_right helement he
          exact ih hinfers
  | source _ ih =>
      cases h with
      | selection hsource => exact ih hsource

/-! ## Soundness and completeness -/

/-- The annotations of the value and of its parts are right, as far as `CheckEqual` can tell. -/
def Value.Agrees : Value → Prop := Value.Everywhere fun u =>
  ∀ type t, u.metadata.type = some type → u.Typed t → checkEqual type t = .ok ()

/-- The value and its parts are annotated with their types. -/
def Value.Annotated : Value → Prop := Value.Everywhere fun u => ∃ t, u.Typed t ∧ u.metadata.type = some t

/-- What has a type, and takes no other one, is inferred. -/
theorem Value.Agrees.takes {v : Value} {t : TypePb} (h : v.Agrees) (ht : v.Typed t) :
    v.metadata.Takes t { v.metadata with type := some t } where
  annotated := rfl
  preset := fun type htype => h.self type t htype ht

mutual

/-- Inference is complete: by induction on the typing, with the annotations that it meets on the way. -/
theorem Value.Typed.infers : ∀ {v : Value} {t : TypePb}, v.Typed t → v.Agrees →
    ∃ v', Infers v v' ∧ v'.typePb = t
  | _, _, .str, hagrees => ⟨_, .scalar .str (hagrees.takes .str), rfl⟩
  | _, _, .int32, hagrees => ⟨_, .scalar .int32 (hagrees.takes .int32), rfl⟩
  | _, _, .boolean, hagrees => ⟨_, .scalar .boolean (hagrees.takes .boolean), rfl⟩
  | _, _, .struct h, hagrees => by
      obtain ⟨element', helement, rfl⟩ := Value.Typed.infers_all h hagrees.element
      exact ⟨_, .struct helement (hagrees.takes (.struct h)), rfl⟩
  | _, _, .selection hsource hindex ht, hagrees => by
      obtain ⟨source', hinfers, htype⟩ := Value.Typed.infers hsource hagrees.source
      exact ⟨_, .selection hinfers htype hindex ht (hagrees.takes (.selection hsource hindex ht)), rfl⟩

theorem Value.Typed.infers_all : ∀ {vs : List Value} {ts : List TypePb},
    List.Forall₂ Value.Typed vs ts → (∀ v ∈ vs, v.Agrees) →
      ∃ vs', List.Forall₂ Infers vs vs' ∧ vs'.map Value.typePb = ts
  | _, _, .nil, _ => ⟨[], .nil, rfl⟩
  | _, _, .cons h hs, hagrees => by
      obtain ⟨hv, hvs⟩ := List.forall_mem_cons.mp hagrees
      obtain ⟨v', hinfers, rfl⟩ := Value.Typed.infers h hv
      obtain ⟨vs', hall, rfl⟩ := Value.Typed.infers_all hs hvs
      exact ⟨v' :: vs', .cons hinfers hall, rfl⟩

end

theorem Infers.agrees {v v' : Value} (h : Infers v v') : v.Agrees := by
  intro u hu type t htype ht
  obtain ⟨u', hinfers⟩ := h.of_part hu
  rw [ht.unique hinfers.typed.1]
  exact hinfers.takes.preset type htype

theorem Infers.annotated {v v' : Value} (h : Infers v v') : v'.Annotated := by
  intro u' hu'
  obtain ⟨u, hinfers⟩ := h.of_part_right hu'
  exact ⟨u'.typePb, hinfers.typed.2, hinfers.takes.type_eq⟩

/-- A value is accepted just when it has a type and its annotations are right. -/
theorem inferTypes_ok_iff_typed {v : Value} :
    (inferTypes v).1 = .ok () ↔ (∃ t, v.Typed t) ∧ v.Agrees := by
  rw [inferTypes_ok_iff]
  constructor
  · rintro ⟨v', h⟩
    exact ⟨⟨v'.typePb, h.typed.1⟩, h.agrees⟩
  · rintro ⟨⟨t, ht⟩, hagrees⟩
    obtain ⟨v', h, -⟩ := ht.infers hagrees
    exact ⟨v', h⟩

end

/-! ## What does not change -/

/-- Metadata with perhaps an annotation added. -/
structure Meta.Annotates (m m' : Meta) : Prop where
  label : m'.label = m.label
  mimetype : m'.mimetype = m.mimetype
  preset : ∀ type, m.type = some type → m'.type = some type

/-- The second value is the first one with annotations added: nothing else differs, and the annotations
that were there are there. -/
inductive Value.Annotates : Value → Value → Prop where
  | refl {v : Value} : Annotates v v
  | scalar {m m' : Meta} {s : Scalar} (hm : m.Annotates m') : Annotates (.scalar m s) (.scalar m' s)
  | struct {m m' : Meta} {element element' : List Value} (h : List.Forall₂ Annotates element element')
      (hm : m.Annotates m') : Annotates (.struct m element) (.struct m' element')
  | selection {m m' : Meta} {source source' : Value} {index : Int32} (h : Annotates source source')
      (hm : m.Annotates m') : Annotates (.selection m source index) (.selection m' source' index)

section

variable [TypeText]

theorem Meta.Takes.annotates {m m' : Meta} {t : TypePb} (h : m.Takes t m') : m.Annotates m' where
  label := by rw [h.annotated]
  mimetype := by rw [h.annotated]
  preset := by
    intro type htype
    obtain ⟨rfl, -⟩ := checkEqual_eq_ok (h.preset type htype)
    exact h.type_eq

mutual

theorem Infers.annotates : ∀ {v v' : Value}, Infers v v' → v.Annotates v'
  | _, _, .scalar _ hm => .scalar hm.annotates
  | _, _, .struct h hm => .struct (Infers.annotates_all h) hm.annotates
  | _, _, .selection h _ _ _ hm => .selection (Infers.annotates h) hm.annotates

theorem Infers.annotates_all : ∀ {vs vs' : List Value}, List.Forall₂ Infers vs vs' →
    List.Forall₂ Value.Annotates vs vs'
  | _, _, .nil => .nil
  | _, _, .cons h hs => .cons (Infers.annotates h) (Infers.annotates_all hs)

end

/-- **`InferTypes` annotates correctly.** It accepts a value just when the value has a type and agrees
with every annotation it comes with. Then the value and all its parts are annotated with their types,
nothing else has changed, and a second run accepts it and leaves it as it is. -/
theorem inferTypes_annotates (v : Value) :
    ((inferTypes v).1 = .ok () ↔ (∃ t, v.Typed t) ∧ v.Agrees) ∧
    ((inferTypes v).1 = .ok () →
      (inferTypes v).2.Annotated ∧ v.Annotates (inferTypes v).2 ∧
        inferTypes (inferTypes v).2 = (.ok (), (inferTypes v).2)) := by
  refine ⟨inferTypes_ok_iff_typed, fun hok => ?_⟩
  have h : Infers v (inferTypes v).2 := infers_of_eq_ok (Prod.ext hok rfl)
  exact ⟨h.annotated, h.annotates, h.again.eq_ok⟩

end

end GenC
