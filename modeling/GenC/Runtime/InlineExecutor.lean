import GenC.Runtime.Executor

/-!
# The inline executor

`runtime/inline_executor.cc`, with every future replaced by what it ends with: a value of this
executor is a `StatusOr<v0::Value>`, and a task body runs at the moment it is scheduled. That the
schedule makes no difference to what the futures end with is shown in `Runtime/TaskSchedule.lean`,
over the executor with the futures in place.
-/

namespace GenC

open Lib

namespace InlineExecutor

variable [ProtoText] (handlers : IntrinsicHandlerSet)

/-- The body of the task of `CreateCall`, after both waits. -/
def callTask (fn arg : Value) : Exec σ Value :=
  match fn with
  | .intrinsic _ uri staticParameter => do
      let intr : Intrinsic := ⟨uri, staticParameter⟩
      let handler ← Run.ofExcept (handlers.getHandler uri)
      handler.runCheckWellFormed intr
      let interface ← Run.ofExcept handler.getInlineInterface
      Run.tell (.inlineCall interface intr arg)
      (interface.executeCall intr arg).run
  | fn => Run.throw (.invalidArgument ("Unsupported function type: " ++ debugString fn))

/-- The loop of `CreateStruct` over its members: the first failing one decides. -/
def waitAll : List (StatusOr Value) → StatusOr (List Value)
  | [] => .ok []
  | .error e :: _ => .error e
  | .ok v :: members =>
      match waitAll members with
      | .ok vs => .ok (v :: vs)
      | .error e => .error e

/-- The body of the task of `CreateStruct`. -/
def structTask (members : List (StatusOr Value)) : StatusOr Value :=
  match waitAll members with
  | .ok vs => .ok (.struct {} vs)
  | .error e => .error e

/-- The body of the task of `CreateSelection`, after the wait. -/
def selectionTask (value : Value) (index : UInt32) : StatusOr Value :=
  match value with
  | .struct _ es =>
      match es[index.toNat]? with
      | some v => .ok v
      | none => .error (.outOfRange "Selection index out of bounds.")
  | value => .error (.invalidArgument ("Not a struct: " ++ debugString value))

/-- `Wait(future)` inside a task body. -/
def wait (future : StatusOr Value) : Exec σ Value := Run.ofExcept future

def createCall (function : StatusOr Value) (argument : Option (StatusOr Value)) :
    Exec σ (StatusOr Value) :=
  match argument with
  | none => Run.throw (.invalidArgument "An argument is always required.")
  | some argument =>
      Run.attempt do
        let fn ← wait function
        let arg ← wait argument
        callTask handlers fn arg

def createSelection (value : StatusOr Value) (index : UInt32) : StatusOr Value :=
  match value with
  | .ok v => selectionTask v index
  | .error e => .error e

def materialize (value : StatusOr Value) (valPb : Option Value) : MaterializeResult :=
  match value with
  | .ok v => ⟨.ok (), valPb.map fun _ => v⟩
  | .error e => ⟨.error e, valPb⟩

def impl : ExecutorImpl Unit (StatusOr Value) where
  executorName := "InlineExecutor"
  createExecutorValue val := pure (.ok val)
  createCall := createCall handlers
  createStruct members := pure (structTask members)
  createSelection value index := pure (createSelection value index)
  materialize value valPb := pure (materialize value valPb)

end InlineExecutor

/-- The state of an inline executor. -/
abbrev InlineState : Type := BaseState (HandleTable (StatusOr Value)) Unit

def inlineExecutor [ProtoText] (handlers : IntrinsicHandlerSet) : Executor ValueId InlineState :=
  executorBase (InlineExecutor.impl handlers)

/-! ## What the operations return -/

namespace InlineExecutor

variable [ProtoText] (handlers : IntrinsicHandlerSet)

theorem createValue_returns (v : Value) (s : InlineState) :
    Run.Returns ((inlineExecutor handlers).createValue v) s s.table.nextValueId (s.track (.ok v)) :=
  (Run.Returns.pure _ _).zoom.bind (ExecutorBase.trackValue_returns _ _)

theorem createCall_returns {f a : ValueId} {fn arg r : Value} {s : InlineState}
    (hf : s.table.trackedValues f = some (.ok fn)) (ha : s.table.trackedValues a = some (.ok arg))
    (hr : Run.Returns (callTask handlers fn arg) () r ()) :
    Run.Returns ((inlineExecutor handlers).createCall f (some a)) s s.table.nextValueId
      (s.track (.ok r)) := by
  refine (ExecutorBase.getTracked_returns hf).bind ?_
  refine Run.Returns.bind ((ExecutorBase.getTracked_returns ha).bind (.pure _ _)) ?_
  refine Run.Returns.bind (Run.Returns.zoom (u := ()) ?_) (ExecutorBase.trackValue_returns _ _)
  exact Run.Returns.attempt ((Run.Returns.ofExcept rfl _).bind ((Run.Returns.ofExcept rfl _).bind hr))

omit [ProtoText] in
theorem waitAll_ok : ∀ vs : List Value, waitAll (vs.map Except.ok) = .ok vs
  | [] => rfl
  | v :: vs => by rw [List.map_cons, waitAll, waitAll_ok vs]

omit [ProtoText] in
theorem waitAll_eq_ok {rs : List (StatusOr Value)} {vs : List Value} (h : waitAll rs = .ok vs) :
    rs = vs.map .ok := by
  induction rs generalizing vs with
  | nil =>
      cases h
      rfl
  | cons r rs ih =>
      cases r with
      | error e => cases h
      | ok v =>
          rw [waitAll] at h
          split at h
          · next vs' hvs =>
              cases h
              rw [List.map_cons, ih hvs]
          · cases h

omit [ProtoText] in
/-- A structure is good if all its members are. -/
theorem structTask_eq_ok_iff {rs : List (StatusOr Value)} {w : Value} :
    structTask rs = .ok w ↔ ∃ vs, rs = vs.map .ok ∧ w = .struct {} vs := by
  constructor
  · intro h
    rw [structTask] at h
    split at h
    · next vs hvs =>
        cases h
        exact ⟨vs, waitAll_eq_ok hvs, rfl⟩
    · cases h
  · rintro ⟨vs, rfl, rfl⟩
    rw [structTask, waitAll_ok]

theorem createStruct_holds {ids : List ValueId} {rs : List (StatusOr Value)} {s : InlineState}
    (h : List.Forall₂ (fun id r => s.table.trackedValues id = some r) ids rs) :
    Run.Returns ((inlineExecutor handlers).createStruct ids) s s.table.nextValueId
      (s.track (structTask rs)) := by
  refine (ExecutorBase.getAllTracked_returns h).bind ?_
  exact (Run.Returns.pure (structTask rs) ()).zoom.bind (ExecutorBase.trackValue_returns _ _)

theorem createStruct_returns {ids : List ValueId} {vs : List Value} {s : InlineState}
    (h : List.Forall₂ (fun id v => s.table.trackedValues id = some (.ok v)) ids vs) :
    Run.Returns ((inlineExecutor handlers).createStruct ids) s s.table.nextValueId
      (s.track (.ok (.struct {} vs))) := by
  have h' : List.Forall₂ (fun id r => s.table.trackedValues id = some r) ids (vs.map Except.ok) :=
    List.forall₂_map_right_iff.mpr h
  have hcreate := createStruct_holds handlers h'
  rwa [structTask, waitAll_ok] at hcreate

theorem createSelection_holds {source : ValueId} {r : StatusOr Value} {s : InlineState}
    (h : s.table.trackedValues source = some r) (index : UInt32) :
    Run.Returns ((inlineExecutor handlers).createSelection source index) s s.table.nextValueId
      (s.track (createSelection r index)) := by
  refine (ExecutorBase.getTracked_returns h).bind ?_
  exact (Run.Returns.pure (createSelection r index) ()).zoom.bind (ExecutorBase.trackValue_returns _ _)

theorem createSelection_returns {source : ValueId} {m : Meta} {es : List Value} {index : UInt32}
    {v : Value} {s : InlineState} (h : s.table.trackedValues source = some (.ok (.struct m es)))
    (hv : es[index.toNat]? = some v) :
    Run.Returns ((inlineExecutor handlers).createSelection source index) s s.table.nextValueId
      (s.track (.ok v)) := by
  have hcreate := createSelection_holds handlers h index
  rwa [createSelection, selectionTask, hv] at hcreate

theorem materialize_holds {id : ValueId} {r : StatusOr Value} {s : InlineState} (output : Option Value)
    (h : s.table.trackedValues id = some r) :
    Run.Returns ((inlineExecutor handlers).materialize id output) s (materialize r output) s :=
  (ExecutorBase.getTracked_returns h).attempt.bind (Run.Returns.pure _ ()).zoom

theorem materialize_returns {id : ValueId} {v : Value} {s : InlineState} (pb : Value)
    (h : s.table.trackedValues id = some (.ok v)) :
    Run.Returns ((inlineExecutor handlers).materialize id (some pb)) s ⟨.ok (), some v⟩ s :=
  materialize_holds handlers (some pb) h

end InlineExecutor

end GenC
