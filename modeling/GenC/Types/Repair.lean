import GenC.Types.Annotation

/-!
# A second run of `InferTypes` after one that failed

`InferTypes` writes into the value it is given, and what it has written stays there when it fails. Most of
that does no harm: a scalar or a selection is annotated when its type is known, and what was inferred
before the failure would be inferred again. But `InferTypes` makes the annotation of a structure before it
infers the elements, so around the failure it leaves a type that ends in one that is not set.

* `Repair` — a change of the sub-value that made the run fail, and perhaps of what the run did not get to.
* `Repair.Reaches` — the run fails there.

**`rerun_eq_iff`**: when the second run, on the repaired value, does what a first run on it would do.
-/

namespace GenC

open Lib

/-- A change of a value, down to the sub-value that is replaced. Elements after it may be replaced too. -/
inductive Repair where
  | replace (value : Value)
  | struct (i : Nat) (repair : Repair) (rest : List Value)
  | selection (repair : Repair)

def Repair.apply : Repair → Value → Value
  | replace value, _ => value
  | struct i repair rest, .struct m element =>
      match element[i]? with
      | some e => .struct m (element.take i ++ repair.apply e :: rest)
      | none => .struct m element
  | selection repair, .selection m source index => .selection m (repair.apply source) index
  | _, v => v

theorem Repair.apply_struct {r : Repair} {m : Meta} {before after rest : List Value} {e : Value} {i : Nat}
    (hi : i = before.length) : (Repair.struct i r rest).apply (.struct m (before ++ e :: after)) =
      .struct m (before ++ r.apply e :: rest) := by
  rw [Repair.apply, hi]
  simp

section

variable [TypeText]

/-- It has a type, and its annotations are right. -/
def Value.WellTyped (v : Value) : Prop := (∃ t, v.Typed t) ∧ v.Agrees

/-- `InferTypes` fails on the value, and it does so because of the sub-value that the repair replaces: what
it infers before that one is well-typed. -/
inductive Repair.Reaches : Repair → Value → Prop where
  | replace {v value : Value} (h : ¬v.WellTyped) : Reaches (.replace value) v
  | struct {m : Meta} {before after rest : List Value} {e : Value} {r : Repair}
      (hbefore : ∀ u ∈ before, u.WellTyped) (h : Reaches r e) :
      Reaches (.struct before.length r rest) (.struct m (before ++ e :: after))
  | selection {m : Meta} {source : Value} {index : Int32} {r : Repair} (h : Reaches r source) :
      Reaches (.selection r) (.selection m source index)

/-- Every structure around what is replaced came with an annotation, or else its element on the way there is
still not well-typed when it is repaired. -/
def Repair.Spared : Repair → Value → Prop
  | replace _, _ => True
  | struct i r _, .struct m element =>
      ∀ e, element[i]? = some e → r.Spared e ∧ (m.type.isSome ∨ ¬(r.apply e).WellTyped)
  | selection r, .selection _ source _ => r.Spared source
  | _, _ => True

theorem Repair.spared_struct {r : Repair} {m : Meta} {before after rest : List Value} {e : Value} :
    (Repair.struct before.length r rest).Spared (.struct m (before ++ e :: after)) ↔
      r.Spared e ∧ (m.type.isSome ∨ ¬(r.apply e).WellTyped) := by
  rw [Repair.Spared]
  simp

/-! ## Runs on a structure -/

theorem Value.wellTyped_iff {v : Value} : v.WellTyped ↔ (inferTypes v).1 = .ok () :=
  inferTypes_ok_iff_typed.symm

theorem Value.WellTyped.infers {v : Value} (h : v.WellTyped) : Infers v (inferTypes v).2 :=
  infers_of_eq_ok (Prod.ext (Value.wellTyped_iff.mp h) rfl)

theorem infers_map {vs : List Value} (h : ∀ v ∈ vs, v.WellTyped) :
    List.Forall₂ Infers vs (vs.map fun v => (inferTypes v).2) := by
  rw [List.forall₂_map_right_iff, List.forall₂_same]
  exact fun v hv => (h v hv).infers

theorem not_wellTyped_iff {v : Value} : ¬v.WellTyped ↔ ∃ e, (inferTypes v).1 = .error e := by
  rw [Value.wellTyped_iff]
  cases (inferTypes v).1 <;> simp

/-- The annotation of a structure, whatever becomes of its elements. -/
theorem inferTypes_struct_snd (m : Meta) (element : List Value) :
    (inferTypes (.struct m element)).2 =
      .struct { m with type := some (m.type.getD (.struct (createStructType element).2.2)) }
        (createStructType element).2.1 := by
  rw [inferTypes]
  cases htype : m.type with
  | none => rfl
  | some type =>
      dsimp only
      rw [Option.getD_some, ← htype]

theorem inferTypes_struct_error {m : Meta} {element : List Value} {e : Status}
    (h : (createStructType element).1 = .error e) : (inferTypes (.struct m element)).1 = .error e := by
  rw [inferTypes]
  cases m.type with
  | none => exact h
  | some type =>
      dsimp only
      rw [h]
      rfl

/-- Elements that are inferred, and then others. -/
theorem createStructType_append {before before' : List Value} (h : List.Forall₂ Infers before before')
    (rest : List Value) : createStructType (before ++ rest) =
      ((createStructType rest).1, before' ++ (createStructType rest).2.1,
        before'.map Value.typePb ++ (createStructType rest).2.2) := by
  induction h with
  | nil => rfl
  | cons h _ ih =>
      rw [List.cons_append, createStructType, h.eq_ok, ih]
      rfl

theorem createStructType_cons_error {v : Value} {rest : List Value} {e : Status}
    (h : (inferTypes v).1 = .error e) :
    createStructType (v :: rest) = (.error e, (inferTypes v).2 :: rest, [.notSet]) := by
  rw [createStructType]
  split
  · next e' v' hinfer =>
      rw [hinfer] at h ⊢
      obtain rfl := Except.error.inj h
      rfl
  · next v' hinfer =>
      rw [hinfer] at h
      cases h

theorem createStructType_cons_ok {v v' : Value} {rest : List Value} (h : Infers v v') :
    createStructType (v :: rest) = ((createStructType rest).1, v' :: (createStructType rest).2.1,
      v'.typePb :: (createStructType rest).2.2) := by
  rw [createStructType, h.eq_ok]

theorem createStructType_cons_snd (v : Value) (rest : List Value) :
    ∃ rest', (createStructType (v :: rest)).2.1 = (inferTypes v).2 :: rest' := by
  by_cases h : v.WellTyped
  · rw [createStructType_cons_ok h.infers]
    exact ⟨_, rfl⟩
  · obtain ⟨status, hstatus⟩ := not_wellTyped_iff.mp h
    rw [createStructType_cons_error hstatus]
    exact ⟨_, rfl⟩

theorem inferTypes_selection_error {m : Meta} {source : Value} {index : Int32} {e : Status}
    (h : (inferTypes source).1 = .error e) : inferTypes (.selection m source index) =
      (.error e, .selection m (inferTypes source).2 index) := by
  rw [inferTypes]
  split
  · next e' source' hinfer =>
      rw [hinfer] at h ⊢
      obtain rfl := Except.error.inj h
      rfl
  · next source' hinfer =>
      rw [hinfer] at h
      cases h

/-- The source of a selection, whatever becomes of the selection. -/
theorem inferTypes_selection_snd (m : Meta) (source : Value) (index : Int32) :
    ∃ m', (inferTypes (.selection m source index)).2 = .selection m' (inferTypes source).2 index := by
  rw [inferTypes]
  split
  · next e' source' hinfer => exact ⟨m, by rw [hinfer]⟩
  · next source' hinfer =>
      rw [hinfer]
      unfold inferSelection
      repeat' split
      all_goals exact ⟨_, rfl⟩

/-! ## The failed run and the second one -/

/-- Where a repair reaches, the run fails. -/
theorem Repair.Reaches.not_wellTyped {r : Repair} {v : Value} (h : r.Reaches v) : ¬v.WellTyped := by
  induction h with
  | replace h => exact h
  | @struct m before after rest e r hbefore _ ih =>
      obtain ⟨status, hstatus⟩ := not_wellTyped_iff.mp ih
      refine not_wellTyped_iff.mpr ⟨status, inferTypes_struct_error ?_⟩
      rw [createStructType_append (infers_map hbefore), createStructType_cons_error hstatus]
  | @selection m source index r _ ih =>
      obtain ⟨status, hstatus⟩ := not_wellTyped_iff.mp ih
      refine not_wellTyped_iff.mpr ⟨status, ?_⟩
      rw [inferTypes_selection_error hstatus]

/-- What a run that fails at `e` leaves of the structure around it. -/
theorem inferTypes_struct_failed {m : Meta} {before after : List Value} {e : Value}
    (hbefore : ∀ u ∈ before, u.WellTyped) (he : ¬e.WellTyped) :
    (inferTypes (.struct m (before ++ e :: after))).2 =
      .struct
        { m with type := some (m.type.getD
            (.struct ((before.map fun v => (inferTypes v).2).map Value.typePb ++ [.notSet]))) }
        ((before.map fun v => (inferTypes v).2) ++ (inferTypes e).2 :: after) := by
  obtain ⟨status, hstatus⟩ := not_wellTyped_iff.mp he
  rw [inferTypes_struct_snd, createStructType_append (infers_map hbefore),
    createStructType_cons_error hstatus]

/-- By induction on the way to the failure: what was inferred before it is inferred again, and a structure
around it is annotated in the second run as in a first one. -/
theorem Repair.Reaches.rerun_eq {r : Repair} {v : Value} (h : r.Reaches v) (hspared : r.Spared v) :
    inferTypes (r.apply (inferTypes v).2) = inferTypes (r.apply v) := by
  induction h with
  | replace => rfl
  | @selection m source index r h ih =>
      obtain ⟨status, hstatus⟩ := not_wellTyped_iff.mp h.not_wellTyped
      rw [inferTypes_selection_error hstatus, Repair.apply, Repair.apply, inferTypes, inferTypes, ih hspared]
  | @struct m before after rest e r hbefore h ih =>
      obtain ⟨hinner, hannotated⟩ := Repair.spared_struct.mp hspared
      have hagain := infers_map hbefore
      rw [inferTypes_struct_failed hbefore h.not_wellTyped, Repair.apply_struct (by simp),
        Repair.apply_struct rfl]
      -- the elements are inferred to be the same
      have hcreate : createStructType ((before.map fun v => (inferTypes v).2) ++
          r.apply (inferTypes e).2 :: rest) = createStructType (before ++ r.apply e :: rest) := by
        rw [createStructType_append (Infers.again_all hagain), createStructType_append hagain]
        simp only [createStructType, ih hinner]
      cases htype : m.type with
      | some type =>
          rw [Option.getD_some, ← htype, inferTypes, inferTypes, hcreate]
      | none =>
          have hill : ¬(r.apply e).WellTyped := by simpa [htype] using hannotated
          obtain ⟨status, hstatus⟩ := not_wellTyped_iff.mp hill
          have hfailed := createStructType_append hagain (r.apply e :: rest)
          rw [createStructType_cons_error hstatus] at hfailed
          rw [inferTypes, inferTypes, hcreate, hfailed, htype]
          rfl

/-- A structure that was annotated too early is annotated with a type that ends in one that is not set; no
value of the repaired element has that type. -/
theorem Repair.Reaches.rerun_ne {r : Repair} {v : Value} (h : r.Reaches v) (hspared : ¬r.Spared v) :
    (inferTypes (r.apply (inferTypes v).2)).2 ≠ (inferTypes (r.apply v)).2 := by
  induction h with
  | replace => exact (hspared trivial).elim
  | @selection m source index r h ih =>
      obtain ⟨status, hstatus⟩ := not_wellTyped_iff.mp h.not_wellTyped
      rw [inferTypes_selection_error hstatus, Repair.apply, Repair.apply]
      obtain ⟨m₁, h₁⟩ := inferTypes_selection_snd m (r.apply (inferTypes source).2) index
      obtain ⟨m₂, h₂⟩ := inferTypes_selection_snd m (r.apply source) index
      rw [h₁, h₂]
      intro heq
      exact ih hspared (Value.selection.inj heq).2.1
  | @struct m before after rest e r hbefore h ih =>
      have hagain := infers_map hbefore
      rw [inferTypes_struct_failed hbefore h.not_wellTyped, Repair.apply_struct (by simp),
        Repair.apply_struct rfl, inferTypes_struct_snd, inferTypes_struct_snd,
        createStructType_append (Infers.again_all hagain), createStructType_append hagain]
      intro heq
      obtain ⟨hmeta, helements⟩ := Value.struct.inj heq
      -- if the elements are not to differ, the repair spares the one that it reaches
      have hinner : r.Spared e := by
        by_contra hinner
        obtain ⟨rest₁, h₁⟩ := createStructType_cons_snd (r.apply (inferTypes e).2) rest
        obtain ⟨rest₂, h₂⟩ := createStructType_cons_snd (r.apply e) rest
        rw [h₁, h₂] at helements
        exact ih hinner (List.cons.inj (List.append_cancel_left helements)).1
      obtain ⟨htype, htyped⟩ : m.type = none ∧ (r.apply e).WellTyped := by
        rw [Repair.spared_struct] at hspared
        simpa [hinner] using hspared
      -- the types differ, since the first pass has left the type of this element unset
      have hlast := congrArg Meta.type hmeta
      rw [createStructType_cons_ok htyped.infers] at hlast
      simp only [htype, Option.getD_none, Option.getD_some, Option.some.injEq, TypePb.struct.injEq,
        List.append_cancel_left_eq, List.cons.injEq] at hlast
      have hchecked := htyped.infers.checkable
      rw [← hlast.1] at hchecked
      exact TypePb.not_checkable_notSet hchecked

/-- **A second run does what a first one would**, on the repaired value, just when the repair was spared: each
structure around the failure was annotated before, or its element is still ill-typed. -/
theorem rerun_eq_iff {r : Repair} {v : Value} (h : r.Reaches v) :
    inferTypes (r.apply (inferTypes v).2) = inferTypes (r.apply v) ↔ r.Spared v := by
  constructor
  · intro heq
    by_contra hspared
    exact h.rerun_ne hspared (congrArg Prod.snd heq)
  · exact h.rerun_eq

end

/-- A structure of one value that is not set, and a string in its place. -/
def unsetElement : Value := .ofStruct [.notSet {}]

def setElement : Repair := .struct 0 (.replace (.ofStr "a")) []

private theorem setElement_reaches [TypeText] : setElement.Reaches unsetElement := by
  refine @Repair.Reaches.struct _ _ [] [] [] _ _ (fun _ h => (nomatch h)) (.replace ?_)
  rintro ⟨⟨_, ht⟩, -⟩
  cases ht

/-- Where the structure was annotated before, the repaired value is accepted. -/
theorem rerun_eq_iff_annotated :
    let _ : TypeText := ⟨fun _ => ""⟩
    let v : Value := .struct { type := some (.struct [.scalar .string]) } [.notSet {}]
    inferTypes (setElement.apply (inferTypes v).2) = inferTypes (setElement.apply v) ↔ setElement.Spared v := by
  intro _ v
  refine rerun_eq_iff (@Repair.Reaches.struct _ _ [] [] [] _ _ (fun _ h => (nomatch h)) (.replace ?_))
  rintro ⟨⟨_, ht⟩, -⟩
  cases ht

/-- The repaired structure is accepted in a first run, and rejected in a second one. -/
theorem rerun_rejects_repaired :
    let _ : TypeText := ⟨fun _ => ""⟩
    setElement.Reaches unsetElement ∧ (inferTypes (setElement.apply unsetElement)).1 = .ok () ∧
      (inferTypes (setElement.apply (inferTypes unsetElement).2)).1 ≠ .ok () := by
  intro _
  refine ⟨setElement_reaches, by rfl, ?_⟩
  intro hok
  cases hok

end GenC
