import GenC.Runtime.Evaluation
import GenC.Runtime.LiveHandles

/-!
# Selection

The control-flow executor selects from a structure that it holds itself by looking into it, and from one
that is embedded in the child by asking the child, which finds out about the bounds in its own time.
Which of the two happens depends on how the structure was made. **`createSelection_materialize`** says
that it makes no difference: where the structure materializes, selecting from it and materializing the
selection gives the element of what was materialized, or an error when there is none.
-/

namespace GenC

open Lib ExecutorValue

/-! ## What is evaluated is alive -/

section

variable [ProtoText] {handlers : IntrinsicHandlerSet}

namespace ControlFlowExecutor

theorem Evaluates.yields {v : Value} {scope : Scope} {s s' : InlineState} {value : ExecutorValue}
    (h : (localExecutor handlers).Evaluates v scope s value s') (hscope : scope.Alive s) :
    s ≤ s' ∧ value.Alive s' := by
  obtain ⟨n, h⟩ := h
  exact ((knot_yields handlers n).evaluate v hscope).of_returns (le_refl s) h

theorem Calls.yields {f a v : ExecutorValue} {s s' : InlineState}
    (h : (localExecutor handlers).Calls f a s v s') (hf : f.Alive s) (ha : a.Alive s) :
    s ≤ s' ∧ v.Alive s' := by
  obtain ⟨n, h⟩ := h
  have harg : ∀ w ∈ some a, ExecutorValue.Alive s w := by
    rintro w ⟨⟩
    exact ha
  exact ((knot_yields handlers n).createCall hf harg).of_returns (le_refl s) h

end ControlFlowExecutor

end

/-! ## Selecting from a value -/

section

variable [ProtoText] (handlers : IntrinsicHandlerSet)

/-- `x` makes a value that holds the element of `ws` at `index`. If there is none, it fails, or makes a
value that holds an error. -/
def SelectsValue (x : Exec InlineState ExecutorValue) (c : InlineState) (ws : List Value)
    (index : UInt32) : Prop :=
  match ws[index.toNat]? with
  | some w => ∃ v c', Run.Returns x c v c' ∧ v.Alive c' ∧ v.contents c' = some (.ok w)
  | none => (∃ e c', Run.Fails x c e c') ∨
      ∃ v c' e, Run.Returns x c v c' ∧ v.Alive c' ∧ v.contents c' = some (.error e)

/-- Both kinds of structures, whatever is in them. -/
theorem createSelectionInternal_selects {v : ExecutorValue} {c : InlineState} {m : Meta}
    {ws : List Value} (h : v.Alive c) (hw : v.contents c = some (.ok (.struct m ws))) (index : UInt32) :
    SelectsValue ((localExecutor handlers).createSelectionInternal v index) c ws index := by
  cases h with
  | @embedded id r h =>
      obtain rfl : r = .ok (.struct m ws) := Option.some.inj (h.symm.trans hw)
      -- an embedded struct is selected from in the child
      have hselect : Run.Returns ((localExecutor handlers).createSelectionInternal (.embedded id) index)
          c _ _ := (InlineExecutor.createSelection_holds handlers h index).bind (.pure _ _)
      have hnew := c.tracked_track (InlineExecutor.createSelection (.ok (.struct m ws)) index)
      unfold SelectsValue
      split
      · next w hi =>
          refine ⟨_, _, hselect, .embedded hnew, hnew.trans ?_⟩
          rw [InlineExecutor.createSelection, InlineExecutor.selectionTask, hi]
      · next hi =>
          refine .inr ⟨_, _, .outOfRange "Selection index out of bounds.", hselect, .embedded hnew,
            hnew.trans ?_⟩
          rw [InlineExecutor.createSelection, InlineExecutor.selectionTask, hi]
  | @struct fields h =>
      -- any other struct has its fields at hand, and an index beyond them fails at once
      obtain ⟨rs, hrs, hstruct⟩ := Option.map_eq_some_iff.mp hw
      obtain ⟨_, rfl, heq⟩ := InlineExecutor.structTask_eq_ok_iff.mp hstruct
      obtain ⟨rfl, rfl⟩ := Value.struct.inj heq
      have hfields := List.forall₂_map_right_iff.mp (contentsAll_eq_some_iff.mp hrs)
      unfold SelectsValue
      rcases forall₂_getElem? hfields index.toNat with ⟨hnone, hi⟩ | ⟨field, w, hfield, hi, hfw⟩
      · rw [hi]
        have hfails : Run.Fails ((localExecutor handlers).createSelectionInternal (.struct fields) index)
            c (.notFound ("Failed to create selection for index [" ++ toString index ++
              "] on structure with length [" ++ toString fields.length ++ "]")) c := by
          rw [ControlFlowExecutor.createSelectionInternal, hnone]
          exact .throw _ c
        exact .inl ⟨_, c, hfails⟩
      · rw [hi]
        refine ⟨field, c, ?_, h field (List.mem_of_getElem? hfield), hfw⟩
        rw [ControlFlowExecutor.createSelectionInternal, hfield]
        exact .pure _ c
  | lambda => cases hw
  | intrinsic => cases hw

/-! ## Clients -/

/-- What a client sees: `create` makes a handle that materializes to the element of `ws` at `index`. If
there is none, either `create` or the materialization ends with an error. -/
def Selects {σ : Type} (exec : Executor ValueId σ) (create : Exec σ ValueId) (s : σ) (ws : List Value)
    (index : UInt32) : Prop :=
  ∀ pb : Value, match ws[index.toNat]? with
  | some w => ∃ id s₁ s₂, Run.Returns create s id s₁ ∧
      Run.Returns (exec.materialize id (some pb)) s₁ ⟨.ok (), some w⟩ s₂
  | none => (∃ e s₁, Run.Fails create s e s₁) ∨
      ∃ id s₁ e s₂, Run.Returns create s id s₁ ∧
        Run.Returns (exec.materialize id (some pb)) s₁ ⟨.error e, some pb⟩ s₂

variable {fuel : Nat}

/-- The selected value is tracked, and then looked up to be materialized. -/
theorem SelectsValue.selects {x : Exec InlineState ExecutorValue} {s : ControlFlowState InlineState}
    {ws : List Value} {index : UInt32} (h : SelectsValue x s.impl ws index) :
    Selects (controlFlowExecutor (localExecutor handlers) fuel)
      (ExecutorBase.onImpl x >>= fun v => ExecutorBase.trackValue v) s ws index := by
  intro pb
  -- the value is tracked under a new handle, and materialized from there
  have hmaterialize : ∀ {v c m c'} (_ : Run.Returns x s.impl v c)
      (_ : Run.Returns ((localExecutor handlers).constMaterialize v (some pb)) c m c'),
      ∃ id s₁ s₂, Run.Returns (ExecutorBase.onImpl x >>= fun v => ExecutorBase.trackValue v) s id s₁ ∧
        Run.Returns ((controlFlowExecutor (localExecutor handlers) fuel).materialize id (some pb))
          s₁ m s₂ := by
    intro v c m c' hx hm
    let t : ControlFlowState InlineState := { s with impl := c }
    refine ⟨s.table.nextValueId, t.track v, { t.track v with impl := c' }, ?_, ?_⟩
    · exact hx.zoom.bind (ExecutorBase.trackValue_returns v t)
    · exact (ExecutorBase.getTracked_returns (t.tracked_track v)).attempt.bind hm.zoom
  unfold SelectsValue at h
  split at h
  · next w =>
      obtain ⟨v, c, hx, halive, hw⟩ := h
      obtain ⟨c', -, hm⟩ := constMaterialize_ok handlers halive hw pb
      exact hmaterialize hx hm
  -- no element: the selection fails, or gives a handle that does not materialize
  · rcases h with ⟨e, c, hx⟩ | ⟨v, c, e, hx, halive, he⟩
    · exact .inl ⟨e, _, hx.zoom.bind_left⟩
    · obtain ⟨e', c', -, hm⟩ := constMaterialize_error handlers halive
        (fun w hw => by rw [he] at hw; cases hw) (some pb)
      obtain ⟨id, s₁, s₂, hcreate, hm⟩ := hmaterialize hx hm
      exact .inr ⟨id, s₁, e', s₂, hcreate, hm⟩

omit [ProtoText] in
/-- What selects after something that returns, selects. -/
theorem Selects.bind {σ α : Type} {exec : Executor ValueId σ} {x : Exec σ α} {f : α → Exec σ ValueId}
    {s t : σ} {a : α} {ws : List Value} {index : UInt32} (hx : Run.Returns x s a t)
    (h : Selects exec (f a) t ws index) : Selects exec (x >>= f) s ws index := by
  intro pb
  have hpb := h pb
  split at hpb
  · obtain ⟨id, s₁, s₂, hcreate, hm⟩ := hpb
    exact ⟨id, s₁, s₂, hx.bind hcreate, hm⟩
  · rcases hpb with ⟨e, s₁, hfails⟩ | ⟨id, s₁, e, s₂, hcreate, hm⟩
    · exact .inl ⟨e, s₁, .bind hx hfails⟩
    · exact .inr ⟨id, s₁, e, s₂, hx.bind hcreate, hm⟩

omit [ProtoText] in
theorem SelectsValue.bind {α : Type} {x : Exec InlineState α} {f : α → Exec InlineState ExecutorValue}
    {c c' : InlineState} {a : α} {ws : List Value} {index : UInt32} (hx : Run.Returns x c a c')
    (h : SelectsValue (f a) c' ws index) : SelectsValue (x >>= f) c ws index := by
  unfold SelectsValue at h ⊢
  split at h
  · obtain ⟨v, c₁, hv, hrest⟩ := h
    exact ⟨v, c₁, hx.bind hv, hrest⟩
  · rcases h with ⟨e, c₁, hfails⟩ | ⟨v, c₁, e, hv, hrest⟩
    · exact .inl ⟨e, c₁, .bind hx hfails⟩
    · exact .inr ⟨v, c₁, e, hx.bind hv, hrest⟩

/-- From a handle whose value holds a structure. -/
theorem createSelection_selects {s : ControlFlowState InlineState} {id : ValueId} {v : ExecutorValue}
    {m : Meta} {ws : List Value} (hid : s.table.trackedValues id = some v) (h : v.Alive s.impl)
    (hw : v.contents s.impl = some (.ok (.struct m ws))) (index : UInt32) :
    Selects (controlFlowExecutor (localExecutor handlers) fuel)
      ((controlFlowExecutor (localExecutor handlers) fuel).createSelection id index) s ws index :=
  .bind (ExecutorBase.getTracked_returns hid)
    ((createSelectionInternal_selects handlers h hw index).selects handlers)

/-- By an IR selection from a value that evaluates to one that holds a structure. Its index is signed,
and is taken for an unsigned one. -/
theorem createValue_selection_selects {s : ControlFlowState InlineState} {source : Value}
    {v : ExecutorValue} {c : InlineState} {m mi : Meta} {ws : List Value}
    (hv : (localExecutor handlers).Evaluates source [] s.impl v c) (h : v.Alive c)
    (hw : v.contents c = some (.ok (.struct m ws))) (i : Int32) :
    ∃ fuel, ∀ n ≥ fuel, Selects (controlFlowExecutor (localExecutor handlers) n)
      ((controlFlowExecutor (localExecutor handlers) n).createValue (.selection mi source i)) s ws
      i.toUInt32 := by
  obtain ⟨fuel, hv⟩ := hv
  refine ⟨fuel + 1, fun n hn => ?_⟩
  obtain ⟨n, rfl⟩ : ∃ k, n = k + 1 := ⟨n - 1, by omega⟩
  have hv' := hv.mono ((localExecutor handlers).evaluate_le (Nat.le_of_succ_le_succ hn) source [])
  have hselects := createSelectionInternal_selects handlers h hw i.toUInt32
  exact (SelectsValue.bind hv' hselects).selects handlers

/-- What a materialized handle holds. -/
theorem contents_of_materialize {s s' : ControlFlowState InlineState} {id : ValueId} {w pb : Value}
    (hs : s.Live fun v c => v.Alive c)
    (hm : Run.Returns ((controlFlowExecutor (localExecutor handlers) fuel).materialize id (some pb)) s
      ⟨.ok (), some w⟩ s') :
    ∃ v, s.table.trackedValues id = some v ∧ s'.table = s.table ∧ v.Alive s.impl ∧
      v.contents s.impl = some (.ok w) ∧ s.impl ≤ s'.impl := by
  cases hid : s.table.trackedValues id with
  | none =>
      have hattempt := (ExecutorBase.getTracked_fails "ControlFlowExecutor" hid).attempt
      obtain ⟨hresult, -⟩ := (hattempt.bind_iff.mp hm).unique (.pure _ _)
      cases hresult
  | some v =>
      have himpl := (ExecutorBase.getTracked_returns hid).attempt.bind_iff.mp hm
      obtain ⟨c, hc, rfl⟩ := himpl.of_zoom
      have halive : v.Alive s.impl := hs id v hid
      obtain ⟨hw, hle⟩ := contents_of_constMaterialize handlers halive hc
      exact ⟨v, rfl, rfl, halive, hw, hle⟩

/-- What a client created, evaluates. -/
theorem evaluates_of_createValue {s s' : ControlFlowState InlineState} {source : Value} {id : ValueId}
    (h : Run.Returns ((controlFlowExecutor (localExecutor handlers) fuel).createValue source) s id s') :
    ∃ v c, (localExecutor handlers).Evaluates source [] s.impl v c ∧ s.impl ≤ c ∧ v.Alive c ∧
      id = s.table.nextValueId ∧ s' = BaseState.track { s with impl := c } v := by
  obtain ⟨v, t, himpl, htrack⟩ := h.of_bind
  obtain ⟨c, hv, rfl⟩ := himpl.of_zoom
  obtain ⟨rfl, rfl⟩ := htrack.unique (ExecutorBase.trackValue_returns v _)
  obtain ⟨hle, halive⟩ := (ControlFlowExecutor.constCreateExecutorValue_yields handlers
    (ControlFlowExecutor.knot_yields handlers fuel) source).of_returns (le_refl s.impl) hv
  refine ⟨v, c, ?_, hle, halive, rfl, rfl⟩
  cases source with
  | notSet m =>
      obtain ⟨l, hl⟩ := hv
      cases hl
  | scalar m p => exact ⟨1, hv⟩
  | _ => exact ⟨fuel, hv⟩

/-! ### The theorem -/

/-- **Selection does not depend on how a structure is represented.** In a state that a client can reach,
let a handle materialize to a structure; or let an IR value be created there, and materialize to one.
Selecting from the handle, before or after, or from the IR value by an IR selection, gives what was at
that index of the materialized structure, and an error if nothing was. -/
theorem createSelection_materialize {calls : List (Executor.ApiCall ValueId)}
    {responses : List (Executor.Response ValueId)} {s : ControlFlowState InlineState}
    (hs : Run.Returns ((controlFlowExecutor (localExecutor handlers) fuel).performAll calls)
      localInitial responses s) {m : Meta} {ws : List Value} (pb : Value) :
    (∀ {id s'}, Run.Returns ((controlFlowExecutor (localExecutor handlers) fuel).materialize id (some pb))
        s ⟨.ok (), some (.struct m ws)⟩ s' → ∀ (index : UInt32) (t), t = s ∨ t = s' →
      Selects (controlFlowExecutor (localExecutor handlers) fuel)
        ((controlFlowExecutor (localExecutor handlers) fuel).createSelection id index) t ws index) ∧
    ∀ {source id s₁ s₂},
      Run.Returns ((controlFlowExecutor (localExecutor handlers) fuel).createValue source) s id s₁ →
      Run.Returns ((controlFlowExecutor (localExecutor handlers) fuel).materialize id (some pb))
        s₁ ⟨.ok (), some (.struct m ws)⟩ s₂ →
      ∀ (mi : Meta) (i : Int32), ∃ fuel', ∀ n ≥ fuel',
        Selects (controlFlowExecutor (localExecutor handlers) n)
          ((controlFlowExecutor (localExecutor handlers) n).createValue (.selection mi source i))
          s ws i.toUInt32 := by
  have hlive := live_performAll handlers fuel hs
  constructor
  · intro id s' hm index t ht
    obtain ⟨v, hid, htable, halive, hw, hle⟩ := contents_of_materialize handlers hlive hm
    -- materializing may have added temporary handles, but the value is still alive and holds the same
    rcases ht with rfl | rfl
    · exact createSelection_selects handlers hid halive hw index
    · have hw' : v.contents t.impl = some (.ok (.struct m ws)) := (contents_frame hle halive).trans hw
      exact createSelection_selects handlers (htable ▸ hid) (halive.of_le hle) hw' index
  · intro source id s₁ s₂ hcreate hm mi i
    obtain ⟨v, c, hv, hle, halive, rfl, rfl⟩ := evaluates_of_createValue handlers hcreate
    have htracked := BaseState.tracked_track { s with impl := c } v
    obtain ⟨c', hc, -⟩ :=
      ((ExecutorBase.getTracked_returns htracked).attempt.bind_iff.mp hm).of_zoom
    obtain ⟨hw, -⟩ := contents_of_constMaterialize handlers halive hc
    exact createValue_selection_selects handlers hv halive hw i

end

/-- One element: an index on either side of the end, and a negative one. -/
theorem createSelection_materialize_single :
    let _ := ProtoText.silent
    let exec := controlFlowExecutor (localExecutor []) 2
    let elements : List Value := [.ofStr "a"]
    (∃ responses s,
      Run.Returns (exec.performAll [.createValue (.ofStruct elements)]) localInitial responses s ∧
        Selects exec (exec.createSelection 0 0) s elements 0 ∧
        Selects exec (exec.createSelection 0 1) s elements 1) ∧
    ∃ fuel, ∀ n ≥ fuel, Selects (controlFlowExecutor (localExecutor []) n)
      ((controlFlowExecutor (localExecutor []) n).createValue
        (.selection {} (.ofStruct elements) (-1))) localInitial elements (Int32.toUInt32 (-1)) := by
  intro _ exec elements
  constructor
  · have hcalls : Run.Returns (exec.performAll [.createValue (.ofStruct elements)]) localInitial _ _ :=
      ⟨[], rfl⟩
    exact ⟨_, _, hcalls, (createSelection_materialize [] hcalls default).1 ⟨[], rfl⟩ 0 _ (.inl rfl),
      (createSelection_materialize [] hcalls default).1 ⟨[], rfl⟩ 1 _ (.inl rfl)⟩
  · have hcreate : Run.Returns (exec.createValue (.ofStruct elements)) localInitial 0 _ := ⟨[], rfl⟩
    have hcalls : Run.Returns (exec.performAll []) localInitial [] localInitial := .pure _ _
    exact (createSelection_materialize [] hcalls default).2 hcreate ⟨[], rfl⟩ {} (-1)

end GenC
