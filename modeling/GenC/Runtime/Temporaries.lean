import Mathlib.Order.BooleanAlgebra.Set
import GenC.Runtime.ControlFlowExecutor
import GenC.Runtime.Runner

/-!
# No leaked temporaries

Which ids an `ExecutorBase` tracks after each operation, and from that what the control-flow executor
and the runner leave behind in the executor below them. The implementation of that executor is
arbitrary: it may have state of its own, and any of its operations may fail at any point.

Everything is said of the tracked ids (`Tracks S slots`: those in `S`, and the ones that `slots`
own). An operation that creates a value adds one fresh id, and nothing when it fails; `embed` adds
what its slot owns; releasing the slots takes their ids away again.
-/

namespace GenC

open Lib

variable {σ V : Type}

/-- The executor tracks the ids in `S` and, on top of them, those owned by `slots`. -/
structure Tracks (S : Set ValueId) (slots : List ValueId) (s : BaseState (HandleTable V) σ) :
    Prop where
  ids : s.table.ids = S ∪ {id | id ∈ slots}
  fresh : ∀ id ∈ slots, id ∉ S

namespace Tracks

variable {S : Set ValueId} {slots slots' : List ValueId} {s : BaseState (HandleTable V) σ}

theorem nil_iff : Tracks S [] s ↔ s.table.ids = S :=
  ⟨fun h => by simpa using h.ids, fun h => ⟨by simpa using h, by simp⟩⟩

/-- The slots so far can be counted among the ids that were there before. -/
theorem absorb (h : Tracks S slots s) : Tracks (S ∪ {id | id ∈ slots}) [] s :=
  nil_iff.mpr h.ids

/-- Two groups of fresh ids can be taken in either order. -/
theorem swap (hs : ∀ id ∈ slots, id ∉ S) (h : Tracks (S ∪ {id | id ∈ slots}) slots' s) :
    Tracks (S ∪ {id | id ∈ slots'}) slots s where
  ids := by
    rw [h.ids]
    ext id
    simp only [Set.mem_union, Set.mem_ofPred_eq]
    tauto
  fresh id hid := by
    rintro (hS | hid')
    · exact hs id hid hS
    · exact h.fresh id hid' (.inr hid)

theorem append (hs : ∀ id ∈ slots, id ∉ S) (h : Tracks (S ∪ {id | id ∈ slots}) slots' s) :
    Tracks S (slots ++ slots') s where
  ids := by
    rw [h.ids]
    ext id
    simp [or_assoc]
  fresh id hid := by
    rcases List.mem_append.mp hid with hid | hid
    · exact hs id hid
    · exact fun hS => h.fresh id hid (.inl hS)

end Tracks

/-! ## The operations of `ExecutorBase` -/

namespace ExecutorBase

variable {S : Set ValueId} {slots : List ValueId}

/-- What is issued over the ids in `S` is a fresh one on top of them. -/
theorem Issued.tracks {S : Set ValueId} {id : ValueId} {s : BaseState (HandleTable V) σ}
    (h : Issued (fun t : HandleTable V => t.ids = S) id s.table) : Tracks S [id] s := by
  obtain ⟨t, v, rfl, ht⟩ := h
  obtain ⟨rfl, htable⟩ := Prod.mk.inj ht
  refine ⟨?_, ?_⟩
  · rw [← htable]
    show (t.trackValue v).2.ids = _
    rw [HandleTable.ids_trackValue]
    ext id
    simp [or_comm]
  · intro id hid
    rw [List.mem_singleton.mp hid]
    exact t.nextValueId_notMem

end ExecutorBase

section Child

variable {S : Set ValueId} {slots : List ValueId} (impl : ExecutorImpl σ V)

/-- The executor under consideration. -/
abbrev child (impl : ExecutorImpl σ V) : Executor ValueId (BaseState (HandleTable V) σ) :=
  executorBase impl

open ExecutorBase

theorem createValue_tracks (v : Value) :
    Run.Triple (Tracks S []) ((child impl).createValue v) (fun id => Tracks S [id])
      (fun _ => Tracks S []) :=
  (createValue_table impl _ v).conseq (fun _ => Tracks.nil_iff.mp) (fun _ _ => Issued.tracks)
    fun _ _ => Tracks.nil_iff.mpr

theorem createCall_tracks (function : ValueId) (argument : Option ValueId) :
    Run.Triple (Tracks S []) ((child impl).createCall function argument) (fun id => Tracks S [id])
      (fun _ => Tracks S []) :=
  (createCall_table impl _ function argument).conseq (fun _ => Tracks.nil_iff.mp)
    (fun _ _ => Issued.tracks) fun _ _ => Tracks.nil_iff.mpr

theorem createStruct_tracks (members : List ValueId) :
    Run.Triple (Tracks S []) ((child impl).createStruct members) (fun id => Tracks S [id])
      (fun _ => Tracks S []) :=
  (createStruct_table impl _ members).conseq (fun _ => Tracks.nil_iff.mp)
    (fun _ _ => Issued.tracks) fun _ _ => Tracks.nil_iff.mpr

theorem materialize_tracks (id : ValueId) (valuePb : Option Value) :
    Run.Triple (Tracks S slots) ((child impl).materialize id valuePb) (fun _ => Tracks S slots)
      (fun _ => Tracks S slots) :=
  (materialize_table impl (fun t => t.ids = S ∪ {id | id ∈ slots} ∧ ∀ id ∈ slots, id ∉ S) id
    valuePb).conseq (fun _ h => ⟨h.ids, h.fresh⟩) (fun _ _ h => ⟨h.1, h.2⟩) fun _ _ h => ⟨h.1, h.2⟩

/-- A failed disposal leaves the ids alone because the id was not among them. -/
theorem dispose_ids (id : ValueId) :
    Run.Triple (fun s => s.table.ids = S) ((child impl).dispose id)
      (fun _ s => s.table.ids = S \ {id}) (fun _ s => s.table.ids = S \ {id}) := by
  refine (dispose_table impl (fun t => t.ids = S) id).conseq (fun _ h => h) ?_ ?_
  · rintro _ s ⟨t, rfl, _, hs⟩
    rw [hs]
    exact HandleTable.ids_erase id t
  · rintro _ s ⟨rfl, hnone⟩
    have hid : id ∉ s.table.ids := fun hmem => hmem hnone
    exact (Set.sdiff_singleton_eq_self hid).symm

theorem releaseAll_ids : ∀ (ids : List ValueId) (S : Set ValueId),
    Run.Triple (fun s => s.table.ids = S) ((child impl).releaseAll ids)
      (fun _ s => s.table.ids = S \ {id | id ∈ ids}) (fun _ _ => False)
  | [], S => .pure fun s h => by
      rw [h]
      ext id
      simp
  | id :: ids, S => by
      refine (dispose_ids impl id).attempt.bind fun r => ?_
      refine (releaseAll_ids ids (S \ {id})).conseq (fun s h => by cases r <;> exact h) ?_
        fun _ _ h => h
      intro _ s h
      rw [h]
      ext id'
      simp [and_assoc]

/-! ### Releasing -/

/-- The owners' destructors undo what the owners stand for. -/
theorem releaseAll_tracks :
    Run.Triple (Tracks S slots) ((child impl).releaseAll slots) (fun _ => Tracks S [])
      (fun _ _ => False) := by
  intro s hs
  refine ((releaseAll_ids impl slots _).of_eq hs.ids).conseq (fun _ h => h) (fun _ s' h => ?_)
    (fun _ _ h => h) s rfl
  · refine Tracks.nil_iff.mpr (h.trans ?_)
    ext id
    have := hs.fresh id
    simp only [Set.mem_sdiff, Set.mem_union, Set.mem_ofPred_eq]
    tauto

/-- A scope that owns `slots` gives them back, and keeps what its body made. -/
theorem releasing_tracks {x : Exec (BaseState (HandleTable V) σ) α} {M : α → List ValueId}
    (hx : Run.Triple (Tracks (S ∪ {id | id ∈ slots}) []) x
      (fun a => Tracks (S ∪ {id | id ∈ slots}) (M a))
      (fun _ => Tracks (S ∪ {id | id ∈ slots}) [])) :
    Run.Triple (Tracks S slots) ((child impl).releasing slots x) (fun a => Tracks S (M a))
      (fun _ => Tracks S []) := by
  refine .of_fact (fun s hs => hs.fresh) fun hslots => ?_
  refine (hx.conseq (fun _ => Tracks.absorb) (fun _ _ h => h) (fun _ _ h => h)).attempt.bind
    fun r => ?_
  cases r with
  | ok a =>
      refine Run.Triple.bind (Q := fun _ => Tracks S (M a)) ?_ fun _ => .pure fun _ h => h
      -- what was made is not among the slots, so releasing these leaves it
      refine .of_fact (fun s hs => hs.fresh) fun hmade => ?_
      refine (releaseAll_tracks impl (S := S ∪ {id | id ∈ M a})).conseq (fun s h => ?_)
        (fun _ s h => ?_) fun _ _ h => h.elim
      · exact h.swap hslots
      · exact ⟨Tracks.nil_iff.mp h, fun id hid hS => hmade id hid (.inl hS)⟩
  | error e =>
      refine Run.Triple.bind (Q := fun _ => Tracks S []) ?_ fun _ => .throw fun _ h => h
      refine (releaseAll_tracks impl).conseq (fun s h => ?_) (fun _ _ h => h) fun _ _ h => h.elim
      exact ⟨Tracks.nil_iff.mp h, hslots⟩

end Child

/-! ## The control-flow executor -/

namespace ControlFlowExecutor

variable {S : Set ValueId} {slots : List ValueId} (impl : ExecutorImpl σ V)
  (handlers : IntrinsicHandlerSet)

/-- A control-flow executor over the child. -/
abbrev overChild (impl : ExecutorImpl σ V) (handlers : IntrinsicHandlerSet) :
    ControlFlowExecutor (BaseState (HandleTable V) σ) :=
  ⟨handlers, child impl⟩

mutual

theorem embed_tracks (value : ExecutorValue) (S : Set ValueId) :
    Run.Triple (Tracks S []) ((overChild impl handlers).embed value)
      (fun r => Tracks S r.2.toList) (fun _ => Tracks S []) := by
  cases value with
  | embedded childValueId => exact .pure fun _ h => h
  | struct fields =>
      refine (embedFields_tracks fields [] [] S).bind fun ⟨fieldIds, fieldSlots⟩ => ?_
      refine (releasing_tracks impl (M := fun id => [id]) ?_).bind fun id => .pure fun _ h => h
      exact createStruct_tracks impl fieldIds
  | lambda lambdaPb scope => exact (createValue_tracks impl _).bind fun id => .pure fun _ h => h
  | intrinsic => exact .throw fun _ h => h

theorem embedFields_tracks (fields : List ExecutorValue) (fieldIds fieldSlots : List ValueId)
    (S : Set ValueId) :
    Run.Triple (Tracks S fieldSlots)
      ((overChild impl handlers).embedFields fields fieldIds fieldSlots)
      (fun r => Tracks S r.2) (fun _ => Tracks S []) := by
  cases fields with
  | nil => exact .pure fun _ h => h
  | cons field fields =>
      refine .of_fact (fun s hs => hs.fresh) fun hslots => ?_
      refine ((embed_tracks field (S ∪ {id | id ∈ fieldSlots})).conseq (fun _ => Tracks.absorb)
        (fun _ _ h => h) (fun _ _ h => h)).attempt.bind fun r => ?_
      cases r with
      | ok r =>
          obtain ⟨id, slot⟩ := r
          refine (embedFields_tracks fields (fieldIds ++ [id]) (fieldSlots ++ slot.toList) S).conseq
            (fun _ h => Tracks.append hslots h) (fun _ _ h => h) fun _ _ h => h
      -- a field that cannot be embedded: the slots of the fields before it are released
      | error e =>
          refine Run.Triple.bind (Q := fun _ => Tracks S []) ?_ fun _ => .throw fun _ h => h
          refine (releaseAll_tracks impl).conseq (fun s h => ?_) (fun _ _ h => h)
            fun _ _ h => h.elim
          exact ⟨Tracks.nil_iff.mp h, hslots⟩

end

theorem constMaterialize_tracks (value : ExecutorValue) (valuePb : Option Value) :
    Run.Triple (Tracks S []) ((overChild impl handlers).constMaterialize value valuePb)
      (fun _ => Tracks S []) (fun _ => Tracks S []) := by
  refine (embed_tracks impl handlers value S).attempt.bind fun r => ?_
  cases r with
  | ok r => exact releasing_tracks impl (M := fun _ => []) (materialize_tracks impl _ _)
  | error e => exact .pure fun _ h => h

/-- The value a call of an embedded function returns owns one new id. -/
theorem callEmbedded_tracks (function : ValueId) (argument : Option ExecutorValue) :
    Run.Triple (Tracks S []) ((overChild impl handlers).callEmbedded function argument)
      (fun r s => ∃ id, r = .embedded id ∧ Tracks S [id] s) (fun _ => Tracks S []) := by
  cases argument with
  | none =>
      exact (createCall_tracks impl function none).bind fun id => .pure fun s h => ⟨id, rfl, h⟩
  | some argument =>
      refine (embed_tracks impl handlers argument S).bind fun ⟨embeddedArg, slot⟩ => ?_
      refine (releasing_tracks impl (M := fun id => [id]) ?_).bind
        fun id => .pure fun s h => ⟨id, rfl, h⟩
      exact createCall_tracks impl function (some embeddedArg)

end ControlFlowExecutor

/-! ## The runner -/

theorem Runner.runInternal_tracks {S : Set ValueId} (impl : ExecutorImpl σ V)
    (computationOrNull : Option Value) (computation arg : Value) :
    Run.Triple (Tracks S []) (Runner.runInternal ⟨computationOrNull, child impl⟩ computation arg)
      (fun _ => Tracks S []) (fun _ => Tracks S []) := by
  refine (createValue_tracks impl computation).bind fun compVal => ?_
  refine releasing_tracks impl (M := fun _ => []) ?_
  refine (createValue_tracks impl arg).bind fun argVal => ?_
  refine releasing_tracks impl (M := fun _ => []) ?_
  refine (createCall_tracks impl compVal (some argVal)).bind fun resultVal => ?_
  refine releasing_tracks impl (M := fun _ => []) ?_
  refine (materialize_tracks impl resultVal _).bind fun result => ?_
  unfold MaterializeResult.get
  cases result.status with
  | ok => exact .pure fun _ h => h
  | error e => exact .throw fun _ h => h

/-! ## The operations of the executors -/

/-- The ids a control-flow executor's child tracks. -/
def childIds (s : ControlFlowState (BaseState (HandleTable V) σ)) : Set ValueId := s.impl.table.ids

namespace ControlFlowExecutor

open ExecutorBase

variable {S : Set ValueId} [ProtoText] (impl : ExecutorImpl σ V) (handlers : IntrinsicHandlerSet)
  (fuel : Nat)

omit [ProtoText] in
theorem onImpl_childIds {x : Exec (BaseState (HandleTable V) σ) α} {Q : α → Set ValueId → Prop}
    (hx : Run.Triple (Tracks S []) x (fun a s => Q a s.table.ids) (fun _ => Tracks S [])) :
    Run.Triple (fun s => childIds s = S)
      (onImpl x : Exec (ControlFlowState (BaseState (HandleTable V) σ)) α)
      (fun a s => Q a (childIds s)) (fun _ s => childIds s = S) :=
  .zoom fun t ht => hx.conseq (by rintro _ rfl; exact Tracks.nil_iff.mpr ht) (fun _ _ h => h)
    fun _ _ => Tracks.nil_iff.mp

theorem materialize_childIds (id : ValueId) (valuePb : Option Value) :
    Run.Triple (fun s => childIds s = S)
      ((controlFlowExecutor (overChild impl handlers) fuel).materialize id valuePb)
      (fun _ s => childIds s = S) (fun _ s => childIds s = S) := by
  refine (getTracked_triple _ _).attempt.bind fun r => ?_
  cases r with
  | ok v =>
      refine (onImpl_childIds (Q := fun _ ids => ids = S) ?_).pre fun _ h => h.1
      exact (constMaterialize_tracks impl handlers v valuePb).conseq (fun _ h => h)
        (fun _ _ => Tracks.nil_iff.mp) fun _ _ h => h
  | error e => exact .pure fun _ h => h

omit [ProtoText] in
theorem trackValue_childIds (v : ExecutorValue) {P : Set ValueId → Prop}
    {E : Status → ControlFlowState (BaseState (HandleTable V) σ) → Prop} :
    Run.Triple (fun s => P (childIds s)) (trackValue v)
      (fun id s => s.table.trackedValues id = some v ∧ P (childIds s)) E :=
  .step fun s hs => ⟨HandleTable.trackedValues_trackValue_self v s.table, hs⟩

theorem createCall_childIds (function : ValueId) (argument : Option ValueId) (f : ValueId) :
    Run.Triple (fun s => childIds s = S ∧ s.table.trackedValues function = some (.embedded f))
      ((controlFlowExecutor (overChild impl handlers) (fuel + 1)).createCall function argument)
      (fun id s => ∃ c, s.table.trackedValues id = some (.embedded c) ∧ c ∉ S ∧
        childIds s = insert c S)
      (fun _ s => childIds s = S) := by
  refine Run.Triple.bind (Q := fun v s => v = .embedded f ∧ childIds s = S) ?_ fun functionVal => ?_
  · refine (getTracked_triple _ function).conseq (fun _ h => h) ?_ fun _ _ h => h.1
    rintro v s ⟨⟨hs, hf⟩, hv⟩
    exact ⟨Option.some.inj (hv.symm.trans hf), hs⟩
  refine .of_fact (fun s h => h.1) fun hf => ?_
  subst hf
  refine ((getTrackedArgument_triple _ argument).pre fun _ h => h.2).bind fun argumentVal => ?_
  refine (onImpl_childIds (Q := fun r ids => ∃ c, r = .embedded c ∧ c ∉ S ∧ ids = insert c S)
    ?_).bind fun r => ?_
  · refine (callEmbedded_tracks impl handlers f argumentVal).conseq (fun _ h => h) ?_
      fun _ _ h => h
    rintro r s ⟨c, rfl, h⟩
    refine ⟨c, rfl, h.fresh c (List.mem_singleton_self c), ?_⟩
    -- the only new handle of the child is that of the result
    rw [h.ids]
    ext id
    simp [or_comm]
  · refine (trackValue_childIds r (P := fun ids => ∃ c, r = .embedded c ∧ c ∉ S ∧ ids = insert c S)
      ).conseq (fun _ h => h) ?_ fun _ _ h => h
    rintro id s ⟨hid, c, rfl, hc, hids⟩
    exact ⟨c, hid, hc, hids⟩

/-- **No leaked temporaries.** Over a child with any implementation:

* materializing any value leaves the ids the child tracks as they were;
* calling an embedded function adds the id its result owns, and nothing when it fails;
* running a computation leaves the ids of the runner's executor as they were. -/
theorem no_leaked_temporaries (impl : ExecutorImpl σ V) (handlers : IntrinsicHandlerSet)
    (fuel : Nat) (S : Set ValueId) :
    (∀ id valuePb, Run.Triple (fun s => childIds s = S)
      ((controlFlowExecutor (overChild impl handlers) fuel).materialize id valuePb)
      (fun _ s => childIds s = S) (fun _ s => childIds s = S)) ∧
    (∀ function argument f,
      Run.Triple (fun s => childIds s = S ∧ s.table.trackedValues function = some (.embedded f))
        ((controlFlowExecutor (overChild impl handlers) (fuel + 1)).createCall function argument)
        (fun id s => ∃ c, s.table.trackedValues id = some (.embedded c) ∧ c ∉ S ∧
          childIds s = insert c S)
        (fun _ s => childIds s = S)) ∧
    (∀ computationOrNull arg, Run.Triple (fun s => s.table.ids = S)
      (Runner.run ⟨computationOrNull, child impl⟩ arg)
      (fun _ s => s.table.ids = S) (fun _ s => s.table.ids = S)) ∧
    (∀ computationOrNull computation arg, Run.Triple (fun s => s.table.ids = S)
      (Runner.runComputation ⟨computationOrNull, child impl⟩ computation arg)
      (fun _ s => s.table.ids = S) (fun _ s => s.table.ids = S)) := by
  refine ⟨materialize_childIds impl handlers fuel, createCall_childIds impl handlers fuel, ?_, ?_⟩
  · intro computationOrNull arg
    cases computationOrNull with
    | none => exact .throw fun _ h => h
    | some computation =>
        exact (Runner.runInternal_tracks impl _ computation arg).conseq (fun _ => Tracks.nil_iff.mpr)
          (fun _ _ => Tracks.nil_iff.mp) fun _ _ => Tracks.nil_iff.mp
  -- a runner with a computation of its own refuses another one
  · intro computationOrNull computation arg
    cases computationOrNull with
    | some _ => exact .throw fun _ h => h
    | none =>
        exact (Runner.runInternal_tracks impl _ computation arg).conseq (fun _ => Tracks.nil_iff.mpr)
          (fun _ _ => Tracks.nil_iff.mp) fun _ _ => Tracks.nil_iff.mp

end ControlFlowExecutor

end GenC
