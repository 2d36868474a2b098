import GenC.Runtime.RoundTrip
import GenC.Runtime.Selection
import GenC.Types.Annotation

/-!
# Type soundness

The types that `InferTypes` infers are those of what comes out of the control-flow executor
(**`inferTypes_sound`**). A value that has a type evaluates, and what it evaluates to has the shape of the
type: a selection that the checker lets through cannot miss its element.
-/

namespace GenC

open Lib ExecutorValue

/-- A materialized value has the shape of a type: its kind of scalar, or as many elements and each of
them the shape of its own type. -/
inductive Value.HasShape : Value → TypePb → Prop where
  | str {m : Meta} {s : String} : HasShape (.scalar m (.str s)) (.scalar .string)
  | int32 {m : Meta} {i : Int32} : HasShape (.scalar m (.int32 i)) (.scalar .int32)
  | boolean {m : Meta} {b : Bool} : HasShape (.scalar m (.boolean b)) (.scalar .bool)
  | struct {m : Meta} {element : List Value} {types : List TypePb}
      (h : List.Forall₂ HasShape element types) : HasShape (.struct m element) (.struct types)

/-- A structure has an element wherever its type has one. -/
theorem Value.HasShape.element {w : Value} {types : List TypePb} {t : TypePb} {i : Nat}
    (h : w.HasShape (.struct types)) (ht : types[i]? = some t) :
    ∃ m ws e, w = .struct m ws ∧ ws[i]? = some e ∧ e.HasShape t := by
  cases h with
  | @struct m ws _ h =>
      rcases forall₂_getElem? h i with ⟨-, hnone⟩ | ⟨e, t', he, ht', hshape⟩
      · rw [ht] at hnone
        cases hnone
      · obtain rfl : t = t' := Option.some.inj (ht.symm.trans ht')
        exact ⟨m, ws, e, rfl, he, hshape⟩

section

variable [ProtoText] (handlers : IntrinsicHandlerSet)

/-- An element that is there can be selected, whoever holds the structure. -/
theorem EvaluatesTo.selection {m mw : Meta} {source w : Value} {index : Int32} {ws : List Value}
    {scope : Scope} {s : InlineState} (h : EvaluatesTo handlers source scope s (.struct mw ws))
    (hi : ws[index.toUInt32.toNat]? = some w) :
    EvaluatesTo handlers (.selection m source index) scope s w := by
  obtain ⟨v, s₁, hv, hs₁, halive, hw⟩ := h
  have hselects := createSelectionInternal_selects handlers halive hw index.toUInt32
  rw [SelectsValue, hi] at hselects
  obtain ⟨r, s₂, hr, hralive, hrw⟩ := hselects
  have hyields := ControlFlowExecutor.createSelectionInternal_yields handlers halive index.toUInt32
  have hs₂ : s₁.Frame s₂ := (hyields.of_returns (le_refl s₁) hr).1
  exact ⟨r, s₂, hv.selection hr, hs₁.trans hs₂, hralive, hrw⟩

mutual

/-- What has a type evaluates to what has its shape, by induction on the typing. -/
theorem Value.Typed.evaluatesTo : ∀ {v : Value} {t : TypePb}, v.Typed t → ∀ scope : Scope,
    ∃ w : Value, w.HasShape t ∧ ∀ s, EvaluatesTo handlers v scope s w
  | _, _, .str, _ => ⟨_, .str, fun _ => .scalar handlers⟩
  | _, _, .int32, _ => ⟨_, .int32, fun _ => .scalar handlers⟩
  | _, _, .boolean, _ => ⟨_, .boolean, fun _ => .scalar handlers⟩
  | _, _, .struct h, scope => by
      obtain ⟨ws, hshape, hws⟩ := Value.Typed.evaluatesTo_all h scope
      exact ⟨.struct {} ws, .struct hshape, fun _ => .struct handlers hws⟩
  | _, _, .selection hsource hindex ht, scope => by
      obtain ⟨_, hshape, hw⟩ := Value.Typed.evaluatesTo hsource scope
      obtain ⟨m, ws, e, rfl, he, heshape⟩ := hshape.element ht
      -- the evaluator takes the index for an unsigned one
      rw [← toUInt32_toNat_of_nonneg hindex] at he
      exact ⟨e, heshape, fun s => (hw s).selection handlers he⟩

theorem Value.Typed.evaluatesTo_all : ∀ {vs : List Value} {ts : List TypePb},
    List.Forall₂ Value.Typed vs ts → ∀ scope : Scope, ∃ ws : List Value,
      List.Forall₂ Value.HasShape ws ts ∧
        List.Forall₂ (fun v w => ∀ s, EvaluatesTo handlers v scope s w) vs ws
  | _, _, .nil, _ => ⟨[], .nil, .nil⟩
  | _, _, .cons h hs, scope => by
      obtain ⟨w, hshape, hw⟩ := Value.Typed.evaluatesTo h scope
      obtain ⟨ws, hshapes, hws⟩ := Value.Typed.evaluatesTo_all hs scope
      exact ⟨w :: ws, .cons hshape hshapes, .cons hw hws⟩

end

variable [TypeText]

/-- **Inference is sound.** If `InferTypes` accepts a value, then in every state of the local stack the
value, as it was or annotated, can be created and materialized, and what is materialized has the shape of
the type that was inferred. -/
theorem inferTypes_sound {v : Value} (h : (inferTypes v).1 = .ok ()) (pb : Value)
    (s : ControlFlowState InlineState) : ∀ u, u = v ∨ u = (inferTypes v).2 →
    ∃ w : Value, w.HasShape (inferTypes v).2.typePb ∧ ∃ fuel id s₁ s₂, ∀ n ≥ fuel,
      Run.Returns ((controlFlowExecutor (localExecutor handlers) n).createValue u) s id s₁ ∧
      Run.Returns ((controlFlowExecutor (localExecutor handlers) n).materialize id (some pb)) s₁
        ⟨.ok (), some w⟩ s₂ := by
  intro u hu
  obtain ⟨hbefore, hafter⟩ := inferTypes_typed (Prod.ext h rfl : inferTypes v = (.ok (), (inferTypes v).2))
  have htyped : u.Typed (inferTypes v).2.typePb := by
    rcases hu with rfl | rfl
    · exact hbefore
    · exact hafter
  have hset : ∀ m, u ≠ .notSet m := by
    rintro m rfl
    cases htyped
  obtain ⟨w, hshape, hw⟩ := htyped.evaluatesTo handlers []
  exact ⟨w, hshape, (hw s.impl).created handlers hset pb⟩

end

/-- A selection from an annotated selection. -/
def nestedSelection : Value :=
  .selection {} (.selection { type := some (.struct [.scalar .bool, .scalar .string]) }
    (.ofStruct [.ofInt32 7, .ofStruct [.ofBool true, .ofStr "a"]]) 1) 1

theorem inferTypes_sound_nestedSelection :
    let _ := ProtoText.silent
    let _ : TypeText := ⟨fun _ => ""⟩
    (inferTypes nestedSelection).1 = .ok () ∧
    ∃ w : Value, w.HasShape (inferTypes nestedSelection).2.typePb ∧ ∃ fuel id s₁ s₂, ∀ n ≥ fuel,
      Run.Returns ((controlFlowExecutor (localExecutor []) n).createValue nestedSelection)
        localInitial id s₁ ∧
      Run.Returns ((controlFlowExecutor (localExecutor []) n).materialize id (some default)) s₁
        ⟨.ok (), some w⟩ s₂ := by
  intro _ _
  have hinfer : (inferTypes nestedSelection).1 = .ok () := by rfl
  exact ⟨hinfer, inferTypes_sound [] hinfer default localInitial nestedSelection (.inl rfl)⟩

end GenC
