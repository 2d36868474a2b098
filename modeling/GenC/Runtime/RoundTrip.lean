import GenC.Proto.Data
import GenC.Runtime.Evaluation
import GenC.Runtime.Materialization

/-!
# Data through the local stack

A materialized value that is created on the local stack and materialized again comes back with all its
payloads, and its scalars with their metadata (**`createValue_materialize`**). A struct is taken apart
by the control-flow executor, whose structures are lists of values, and rebuilt by `CreateStruct`, which
has no metadata to put on it.
-/

namespace GenC

open Lib ExecutorValue

/-! ## Creating and materializing -/

section

variable [ProtoText] (handlers : IntrinsicHandlerSet)

/-- The value evaluates to one that holds `w`. -/
def EvaluatesTo (v : Value) (scope : Scope) (s : InlineState) (w : Value) : Prop :=
  ∃ value s', (localExecutor handlers).Evaluates v scope s value s' ∧ s.Frame s' ∧ value.Alive s' ∧
    value.contents s' = some (.ok w)

/-- A scalar is the child's, which keeps it as it is. -/
theorem EvaluatesTo.scalar {m : Meta} {c : Scalar} {scope : Scope} {s : InlineState} :
    EvaluatesTo handlers (.scalar m c) scope s (.scalar m c) :=
  ⟨.embedded s.table.nextValueId, s.track (.ok (.scalar m c)),
    .child rfl (InlineExecutor.createValue_returns handlers _ s), .track s _,
    .embedded (s.tracked_track _), s.tracked_track _⟩

/-- A struct is the sequence of its elements. -/
theorem EvaluatesTo.struct {m : Meta} {scope : Scope} : ∀ {es ws : List Value} {s : InlineState},
    List.Forall₂ (fun e w => ∀ s, EvaluatesTo handlers e scope s w) es ws →
    EvaluatesTo handlers (.struct m es) scope s (.struct {} ws)
  | [], _, s, .nil => ⟨.struct [], s, .struct_nil, .refl s, .struct (fun _ h => (nomatch h)), rfl⟩
  | e :: es, w :: ws, s, .cons he hes => by
      obtain ⟨v, s₁, hv, hs₁, hvalive, hvw⟩ := he s
      obtain ⟨value, s₂, hvs, hs₂, halive, hw⟩ := EvaluatesTo.struct hes
      obtain ⟨vs, rfl⟩ := hvs.struct_inv
      refine ⟨.struct (v :: vs), s₂, hv.struct_cons hvs, hs₁.trans hs₂, ?_, ?_⟩
      · exact .struct (List.forall_mem_cons.mpr ⟨hvalive.frame hs₂, halive.fields⟩)
      · obtain ⟨rs, hrs, hstruct⟩ := Option.map_eq_some_iff.mp hw
        obtain ⟨ws', rfl, hws⟩ := InlineExecutor.structTask_eq_ok_iff.mp hstruct
        obtain rfl : ws = ws' := (Value.struct.inj hws).2
        rw [contents, contentsAll, contents_frame hs₂ hvalive, hvw, hrs]
        exact congrArg some (InlineExecutor.structTask_eq_ok_iff.mpr ⟨w :: ws, rfl, rfl⟩)

/-- By induction on the value: scalars travel whole, structs do not. -/
theorem evaluatesTo_bareStructs {v : Value} (hv : v.Materialized) (scope : Scope) (s : InlineState) :
    EvaluatesTo handlers v scope s v.bareStructs := by
  induction hv generalizing s with
  | scalar => exact .scalar handlers
  | @struct m es _ ih =>
      rw [Value.bareStructs, Value.bareStructsAll_eq_map]
      exact .struct handlers (List.forall₂_map_right_iff.mpr (List.forall₂_same.mpr ih))

/-- A value that evaluates to good contents is created and materialized as them. -/
theorem EvaluatesTo.created {v w : Value} {s : ControlFlowState InlineState}
    (h : EvaluatesTo handlers v [] s.impl w) (hv : ∀ m, v ≠ .notSet m) (pb : Value) :
    ∃ fuel id s₁ s₂, ∀ n ≥ fuel,
      Run.Returns ((controlFlowExecutor (localExecutor handlers) n).createValue v) s id s₁ ∧
      Run.Returns ((controlFlowExecutor (localExecutor handlers) n).materialize id (some pb)) s₁
        ⟨.ok (), some w⟩ s₂ := by
  obtain ⟨value, c₁, hevaluates, -, halive, hw⟩ := h
  obtain ⟨c₂, -, hmaterialize⟩ := constMaterialize_ok handlers halive hw pb
  obtain ⟨fuel, hcreate⟩ := hevaluates.constCreateExecutorValue hv
  let s₁ : ControlFlowState InlineState := BaseState.track { s with impl := c₁ } value
  refine ⟨fuel, s.table.nextValueId, s₁, { s₁ with impl := c₂ }, fun n hn => ⟨?_, ?_⟩⟩
  · exact (hcreate n hn).zoom.bind (ExecutorBase.trackValue_returns value _)
  · exact (ExecutorBase.getTracked_returns (BaseState.tracked_track _ value)).attempt.bind
      hmaterialize.zoom

/-! ## The round trip -/

omit [ProtoText] in
theorem Value.Materialized.ne_notSet {v : Value} (hv : v.Materialized) : ∀ m, v ≠ .notSet m := by
  rintro m rfl
  cases hv

/-- **Data that goes through the local stack comes back without the metadata of its structs**, and
with everything else; nothing is lost just when no struct has metadata. The inline executor by itself
gives back what it was given. -/
theorem createValue_materialize {v : Value} (hv : v.Materialized) (pb : Value)
    (s : ControlFlowState InlineState) (t : InlineState) :
    (∃ fuel id s₁ s₂, ∀ n ≥ fuel,
      Run.Returns ((controlFlowExecutor (localExecutor handlers) n).createValue v) s id s₁ ∧
      Run.Returns ((controlFlowExecutor (localExecutor handlers) n).materialize id (some pb)) s₁
        ⟨.ok (), some v.bareStructs⟩ s₂) ∧
    (v.bareStructs = v ↔ v.Bare) ∧
    ∃ id t₁, Run.Returns ((inlineExecutor handlers).createValue v) t id t₁ ∧
      Run.Returns ((inlineExecutor handlers).materialize id (some pb)) t₁ ⟨.ok (), some v⟩ t₁ := by
  refine ⟨?_, Value.bareStructs_eq_self_iff hv, ?_⟩
  · have h := evaluatesTo_bareStructs handlers hv [] s.impl
    exact h.created handlers hv.ne_notSet pb
  · have hcreate := InlineExecutor.createValue_returns handlers v t
    exact ⟨_, _, hcreate, InlineExecutor.materialize_returns handlers pb (t.tracked_track _)⟩

end

/-- A structure that is labelled, as a configuration is. -/
def labelledStruct : Value := .struct { label := "config" } []

/-- A configuration: a labelled structure of labelled values, with another one inside. -/
def nestedConfig : Value :=
  .struct { label := "config" } [.scalar { label := "model" } (.str "m"),
    .struct { label := "limits" } [.scalar { label := "max_tokens" } (.int32 64)]]

/-- It is created and materialized, and the labels of its structures are gone, but for the inline executor. -/
theorem createValue_materialize_nestedConfig :
    let _ := ProtoText.silent
    (∃ fuel id s₁ s₂, ∀ n ≥ fuel,
      Run.Returns ((controlFlowExecutor (localExecutor []) n).createValue nestedConfig)
        localInitial id s₁ ∧
      Run.Returns ((controlFlowExecutor (localExecutor []) n).materialize id (some default)) s₁
        ⟨.ok (), some (.struct {} [.scalar { label := "model" } (.str "m"),
          .struct {} [.scalar { label := "max_tokens" } (.int32 64)]])⟩ s₂) ∧
    ∃ id t₁, Run.Returns ((inlineExecutor []).createValue nestedConfig) ⟨.empty, ()⟩ id t₁ ∧
      Run.Returns ((inlineExecutor []).materialize id (some default)) t₁ ⟨.ok (), some nestedConfig⟩ t₁ := by
  let _ := ProtoText.silent
  have hlimits : (Value.struct { label := "limits" } [.scalar { label := "max_tokens" } (.int32 64)]).Materialized :=
    .struct (List.forall_mem_singleton.mpr .scalar)
  have hv : nestedConfig.Materialized :=
    .struct (List.forall_mem_cons.mpr ⟨.scalar, List.forall_mem_singleton.mpr hlimits⟩)
  obtain ⟨hlocal, -, hinline⟩ := createValue_materialize [] hv default localInitial ⟨.empty, ()⟩
  exact ⟨hlocal, hinline⟩

/-- So what comes back is not what was created. -/
theorem createValue_materialize_loses :
    let _ := ProtoText.silent
    ¬ ∀ v : Value, v.Materialized → ∃ fuel id s₁ s₂, ∀ n ≥ fuel,
      Run.Returns ((controlFlowExecutor (localExecutor []) n).createValue v) localInitial id s₁ ∧
      Run.Returns ((controlFlowExecutor (localExecutor []) n).materialize id (some default)) s₁
        ⟨.ok (), some v⟩ s₂ := by
  intro _ h
  obtain ⟨fuel, id, s₁, s₂, h⟩ := h labelledStruct (.struct fun _ h => (nomatch h))
  obtain ⟨hcreate, hmaterialize⟩ := h (fuel + 1) (Nat.le_succ fuel)
  obtain ⟨rfl, rfl⟩ := hcreate.unique ⟨[], rfl⟩
  obtain ⟨hresult, -⟩ := hmaterialize.unique ⟨[], rfl⟩
  have hlabel : "config" = "" :=
    congrArg Meta.label (Value.struct.inj (Option.some.inj (MaterializeResult.mk.inj hresult).2)).1
  exact absurd hlabel (by decide)

end GenC
