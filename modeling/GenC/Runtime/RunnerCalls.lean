import GenC.Lib.Behavior
import GenC.Lib.Coupling
import GenC.Runtime.Runner

/-!
# What clients do to an executor

A client of an executor deals in ids, and owns those that it is given. Its calls end as the same calls do on the
implementation, on the values themselves (`ExecutorImpl.direct`), and the table of the executor holds what it
held before, and what the client owns (`BaseState.Linked`). There is one coupling for each of the calls, and
one for the scope of an owned id.

A `Runner` owns nothing once it is done: however many runs are made on an executor, the table is restored.
-/

namespace GenC

open Lib Run

variable {V σ α β : Type}

/-! ## Without ids -/

/-- The executor whose ids are the values. -/
def ExecutorImpl.direct (impl : ExecutorImpl σ V) : Executor V σ where
  createValue := impl.createExecutorValue
  createCall := impl.createCall
  createStruct := impl.createStruct
  createSelection := impl.createSelection
  materialize := impl.materialize
  dispose _ := pure ()

/-- There is nothing to release. -/
@[simp] theorem ExecutorImpl.direct_releasing (impl : ExecutorImpl σ V) (vs : List V) (x : Exec σ α) :
    impl.direct.releasing vs x = x := by
  have hrelease : impl.direct.releaseAll vs = pure () := by
    induction vs with
    | nil => rfl
    | cons v vs ih =>
        rw [Executor.releaseAll, ih]
        rfl
  unfold Executor.releasing
  rw [hrelease]
  refine (congrArg (x.attempt >>= ·) (funext fun r => ?_)).trans (Run.handle_pure_throw x)
  cases r <;> rfl

/-! ## Tables with owned ids -/

/-- The implementation is in this state. The table holds what `t` does, and what the client owns. -/
structure BaseState.Linked (t : HandleTable V) (owned : ValueId → Option V) (i : σ)
    (s : BaseState (HandleTable V) σ) : Prop where
  impl : s.impl = i
  next : t.nextValueId ≤ s.table.nextValueId
  tracked : ∀ id, s.table.trackedValues id = (owned id).or (t.trackedValues id)
  fresh : ∀ id, owned id ≠ none → t.trackedValues id = none

namespace BaseState.Linked

variable {t : HandleTable V} {owned : ValueId → Option V} {i : σ} {s : BaseState (HandleTable V) σ}
  {id : ValueId}
  {v : V}

theorem refl (s : BaseState (HandleTable V) σ) : Linked s.table (fun _ => none) s.impl s :=
  ⟨rfl, Nat.le_refl _, fun _ => rfl, fun _ h => absurd rfl h⟩

theorem get (h : Linked t owned i s) (hid : owned id = some v) : s.table.trackedValues id = some v := by
  rw [h.tracked, hid]
  rfl

/-- A new id is not owned yet. -/
theorem next_not_owned (h : Linked t owned i s) : owned s.table.nextValueId = none := by
  have hnone := h.tracked s.table.nextValueId
  rw [s.table.fresh _ (Nat.le_refl _)] at hnone
  exact (Option.or_eq_none_iff.mp hnone.symm).1

theorem track (h : Linked t owned i s) (v : V) :
    Linked t (Function.update owned s.table.nextValueId (some v)) i (s.track v) where
  impl := h.impl
  next := Nat.le_succ_of_le h.next
  tracked id := by
    by_cases hid : id = s.table.nextValueId
    · subst hid
      rw [Function.update_self]
      exact HandleTable.trackedValues_trackValue_self v s.table
    · rw [Function.update_of_ne hid, ← h.tracked]
      exact HandleTable.trackedValues_trackValue_of_ne hid
  fresh id hid := by
    by_cases hnext : id = s.table.nextValueId
    · subst hnext
      exact t.fresh _ h.next
    · rw [Function.update_of_ne hnext] at hid
      exact h.fresh id hid

theorem erase (h : Linked t owned i s) (hid : owned id = some v) :
    Linked t (Function.update owned id none) i { s with table := s.table.erase id } where
  impl := h.impl
  next := h.next
  tracked id' := by
    by_cases heq : id' = id
    · subst heq
      rw [Function.update_self]
      -- the id was owned, so the older table does not have it
      rw [HandleTable.trackedValues_erase_self, h.fresh id' (by rw [hid]; exact Option.some_ne_none v)]
      rfl
    · rw [Function.update_of_ne heq, ← h.tracked]
      exact HandleTable.trackedValues_erase_of_ne heq
  fresh id' hid' := by
    by_cases heq : id' = id
    · subst heq
      exact absurd (Function.update_self id' none owned) hid'
    · rw [Function.update_of_ne heq] at hid'
      exact h.fresh id' hid'

end BaseState.Linked

/-! ## The calls -/

section

open BaseState

variable (impl : ExecutorImpl σ V) {t : HandleTable V} {owned : ValueId → Option V} {id : ValueId} {v : V}

/-- What is the case once a call has returned the same on both sides. -/
def BaseState.Keeps (t : HandleTable V) (owned : ValueId → Option V) (Q : α → β → Prop) (a : α) (b : β) (i : σ)
    (s : BaseState (HandleTable V) σ) : Prop :=
  Q a b ∧ Linked t owned i s

/-- And once it has returned an id for a value. -/
structure BaseState.Issues (t : HandleTable V) (owned : ValueId → Option V) (v : V) (id : ValueId) (i : σ)
    (s : BaseState (HandleTable V) σ) : Prop where
  new : owned id = none
  linked : Linked t (Function.update owned id (some v)) i s

namespace ExecutorBase

theorem onImpl_couples (x : Exec σ α) :
    Couples (Linked t owned) x (onImpl x) (Keeps t owned Eq) (Linked t owned) := by
  intro i s h
  have hx : (onImpl x s).2 = _ := congrArg Prod.snd (congrFun (show onImpl x = x.zoom _ _ from rfl) s)
  rw [hx, Run.zoom, h.impl]
  have hlinked (i' : σ) : Linked t owned i' { s with impl := i' } := ⟨rfl, h.next, h.tracked, h.fresh⟩
  rcases x i with ⟨l, a | e | k | _⟩
  · exact .ok ⟨rfl, hlinked _⟩
  · exact .error (hlinked _)
  · exact .crash
  · exact .outOfFuel

/-- Whatever is called, its result is tracked. -/
theorem trackValue_couples (x : Exec σ V) :
    Couples (Linked t owned) x (onImpl x >>= trackValue) (Issues t owned) (Linked t owned) := by
  intro i s h
  have hcouples : Couples (Linked t owned) x (onImpl x) (Keeps t owned Eq) (Linked t owned) := onImpl_couples x
  have hend := hcouples i s h
  rw [bind_apply]
  rcases hy : onImpl x s with ⟨l, o⟩
  rw [hy] at hend
  generalize (x i).2 = o' at hend
  cases hend with
  | @ok v v' i' s' hab =>
      obtain ⟨rfl, hlinked⟩ := hab
      exact .ok ⟨hlinked.next_not_owned, hlinked.track v⟩
  | error h => exact .error h
  | crash => exact .crash
  | outOfFuel => exact .outOfFuel

theorem getTracked_owned (name : String) (hid : owned id = some v) {i : σ} {s : BaseState (HandleTable V) σ}
    (h : Linked t owned i s) : Returns (getTracked name id) s v s := getTracked_returns (h.get hid)

theorem createValue_couples (val : Value) :
    Couples (Linked t owned) (impl.direct.createValue val) ((executorBase impl).createValue val)
      (Issues t owned)
      (Linked t owned) := trackValue_couples (impl.createExecutorValue val)

theorem createCall_couples {function : ValueId} {argument : Option ValueId} {f : V} {x : Option V}
    (hf : owned function = some f) (hx : Option.Rel (fun x id => owned id = some x) x argument) :
    Couples (Linked t owned) (impl.direct.createCall f x) ((executorBase impl).createCall function argument)
      (Issues t owned) (Linked t owned) := by
  refine .bind_right (R := fun f' i s => f' = f ∧ Linked t owned i s) ?_
    fun f' => .of_fact (fun _ _ h => h.1) ?_
  -- looking up what is owned cannot fail, and needs no step on the other side
  · exact fun i s h => ⟨f, s, getTracked_owned impl.executorName hf h, rfl, h⟩
  rintro rfl
  refine .bind_right (R := fun x' i s => x' = x ∧ Linked t owned i s) ?_
    fun x' => .of_fact (fun _ _ h => h.1) ?_
  · intro i s h
    refine ⟨x, s, ?_, rfl, h.2⟩
    cases hx with
    | none => exact .pure _ _
    | some hx => exact (getTracked_owned impl.executorName hx h.2).bind (.pure _ _)
  · rintro rfl
    exact (trackValue_couples (impl.createCall f' x')).conseq (fun _ _ h => h.2) (fun _ _ _ _ h => h)
      fun _ _ h => h

/-- The loop over the members of a struct. -/
theorem getAllTracked_owned (name : String) {ids : List ValueId} {vs : List V}
    (h : List.Forall₂ (fun v id => owned id = some v) vs ids) {i : σ} {s : BaseState (HandleTable V) σ}
    (hs : Linked t owned i s) : Returns (getAllTracked name ids) s vs s := by
  induction h with
  | nil => exact .pure _ _
  | cons hid _ ih => exact (getTracked_owned name hid hs).bind (ih.bind (.pure _ _))

theorem createStruct_couples {ids : List ValueId} {vs : List V}
    (h : List.Forall₂ (fun v id => owned id = some v) vs ids) :
    Couples (Linked t owned) (impl.direct.createStruct vs) ((executorBase impl).createStruct ids)
      (Issues t owned)
      (Linked t owned) := by
  refine .bind_right (R := fun vs' i s => vs' = vs ∧ Linked t owned i s) ?_
    fun vs' => .of_fact (fun _ _ h => h.1) ?_
  · exact fun i s hs => ⟨vs, s, getAllTracked_owned impl.executorName h hs, rfl, hs⟩
  · rintro rfl
    exact (trackValue_couples (impl.createStruct vs')).conseq (fun _ _ h => h.2) (fun _ _ _ _ h => h)
      fun _ _ h => h

theorem materialize_couples (hid : owned id = some v) (valuePb : Option Value) :
    Couples (Linked t owned) (impl.direct.materialize v valuePb) ((executorBase impl).materialize id valuePb)
      (Keeps t owned Eq) (Linked t owned) := by
  refine .bind_right (R := fun r i s => r = .ok v ∧ Linked t owned i s) ?_
    fun r => .of_fact (fun _ _ h => h.1) ?_
  · exact fun i s hs => ⟨.ok v, s, (getTracked_owned impl.executorName hid hs).attempt, rfl, hs⟩
  · rintro rfl
    exact (onImpl_couples (impl.materialize v valuePb)).conseq (fun _ _ h => h.2) (fun _ _ _ _ h => h)
      fun _ _ h => h

/-- The destructor of an id that is owned. -/
theorem release_couples {x : Exec σ α} {y : Exec (BaseState (HandleTable V) σ) β}
    {Q : α → β → σ → BaseState (HandleTable V) σ → Prop} {E : σ → BaseState (HandleTable V) σ → Prop}
    (hid : owned id = some v) (h : Couples (Linked t (Function.update owned id none)) x y Q E) :
    Couples (Linked t owned) x ((executorBase impl).releaseAll [id] >>= fun _ => y) Q E := by
  refine .bind_right (R := fun _ => Linked t (Function.update owned id none)) ?_ fun _ => h
  intro i s hs
  have hdispose := (dispose_ok impl.executorName (hs.get hid)).attempt
  exact ⟨(), _, hdispose.bind (.pure _ _), hs.erase hid⟩

end ExecutorBase

/-! ### Handles that are let go -/

/-- The scope of an owned id. However it is left, the id is not owned any more. -/
theorem Executor.releasing_couples {Q : α → β → Prop} {x : Exec σ α} {y : Exec (BaseState (HandleTable V) σ) β}
    (hnew : owned id = none) (h : Couples (Linked t (Function.update owned id (some v))) x y
      (BaseState.Keeps t (Function.update owned id (some v)) Q)
        (Linked t (Function.update owned id (some v)))) :
    Couples (Linked t (Function.update owned id (some v))) x ((executorBase impl).releasing [id] y)
      (BaseState.Keeps t owned Q)
      (Linked t owned) := by
  have hself : Function.update owned id (some v) id = some v := Function.update_self id (some v) owned
  -- letting go of the id takes the ownership back to what it was
  have hrestored : Function.update (Function.update owned id (some v)) id none = owned := by
    rw [Function.update_idem, ← hnew, Function.update_eq_self]
  refine h.attempt_right (fun a b => ?_) fun e => ?_
  · refine .of_fact (fun _ _ h => h.1) fun hab => ?_
    have hpure : Couples (Linked t owned) (Pure.pure a : Exec σ α) (Pure.pure b) (BaseState.Keeps t owned Q)
      (Linked t owned) :=
      .pure fun i s hs => ⟨hab, hs⟩
    rw [← hrestored] at hpure
    have hrelease := ExecutorBase.release_couples impl hself hpure
    rw [hrestored] at hrelease
    exact hrelease.conseq (fun _ _ h => h.2) (fun _ _ _ _ h => h) fun _ _ h => h
  · exact ExecutorBase.release_couples impl hself (hrestored.symm ▸ .throw e fun _ _ hs => hs)

/-- A call whose result is owned while the client goes on. -/
theorem Executor.owning_couples {Q : α → β → Prop} {x : Exec σ V}
    {y : Exec (BaseState (HandleTable V) σ) ValueId}
    {f : V → Exec σ α} {g : ValueId → Exec (BaseState (HandleTable V) σ) β}
    (h : Couples (Linked t owned) x y (Issues t owned) (Linked t owned))
    (hfg : ∀ v id, owned id = none → Couples (Linked t (Function.update owned id (some v))) (f v) (g id)
      (BaseState.Keeps t (Function.update owned id (some v)) Q)
        (Linked t (Function.update owned id (some v)))) :
    Couples (Linked t owned) (x >>= f) (y >>= fun id => (executorBase impl).releasing [id] (g id))
      (BaseState.Keeps t owned Q)
      (Linked t owned) := by
  refine h.bind fun v id => .of_fact (fun _ _ h => h.new) fun hnew => ?_
  exact (releasing_couples impl hnew (hfg v id hnew)).conseq (fun _ _ h => h.linked) (fun _ _ _ _ h => h)
    fun _ _ h => h

/-- A materialization whose status is looked at. -/
theorem ExecutorBase.materialize_get_couples (hid : owned id = some v) (valuePb : Option Value) :
    Couples (Linked t owned) (impl.direct.materialize v valuePb >>= fun m => m.get)
      ((executorBase impl).materialize id valuePb >>= fun m => m.get) (Keeps t owned Eq) (Linked t owned) := by
  refine (materialize_couples impl hid valuePb).bind fun m m' => .of_fact (fun _ _ h => h.1) ?_
  rintro rfl
  rw [MaterializeResult.get, MaterializeResult.get]
  rcases m.status with e | _
  · exact .throw e fun _ _ h => h.2
  · exact .pure fun _ _ h => ⟨rfl, h.2⟩

end

/-! ## Runs -/

/-- What is left of a materialization once its status has been looked at. -/
def ExecutorImpl.materialized (impl : ExecutorImpl σ V) (resultVal : V) : Exec σ Value := do
  let result ← impl.materialize resultVal (some Value.defaultInstance)
  result.get

/-- The calls of a run, on the values themselves. -/
def ExecutorImpl.run (impl : ExecutorImpl σ V) (computation arg : Value) : Exec σ Value := do
  let compVal ← impl.createExecutorValue computation
  let argVal ← impl.createExecutorValue arg
  let resultVal ← impl.createCall compVal (some argVal)
  impl.materialized resultVal

namespace Runner

variable (impl : ExecutorImpl σ V) (t : HandleTable V)

/-- The client may own other ids meanwhile. -/
theorem runInternal_couples (owned : ValueId → Option V) (computationOrNull : Option Value)
    (computation arg : Value) : Couples (BaseState.Linked t owned) (impl.run computation arg)
      (runInternal ⟨computationOrNull, executorBase impl⟩ computation arg) (BaseState.Keeps t owned Eq)
      (BaseState.Linked t owned) := by
  refine Executor.owning_couples impl (ExecutorBase.createValue_couples impl _) fun compVal comp hcomp => ?_
  refine Executor.owning_couples impl (ExecutorBase.createValue_couples impl _) fun argVal argId harg => ?_
  have hne : comp ≠ argId := by
    rintro rfl
    rw [Function.update_self] at harg
    cases harg
  refine Executor.owning_couples impl (ExecutorBase.createCall_couples impl ?_ ?_) fun resultVal result _ => ?_
  · rw [Function.update_of_ne hne, Function.update_self]
  · exact .some (Function.update_self ..)
  · exact ExecutorBase.materialize_get_couples impl (Function.update_self ..) _

/-- One run after another on the same executor, whatever becomes of each. -/
def runAll {Id : Type} (executor : Executor Id σ) : List (Value × Value) → Exec σ (List (StatusOr Value))
  | [] => pure []
  | request :: requests => do
      let result ← (run ⟨some request.1, executor⟩ request.2).attempt
      let results ← runAll executor requests
      pure (result :: results)

end Runner

/-- The same without ids. -/
def ExecutorImpl.runAll (impl : ExecutorImpl σ V) : List (Value × Value) → Exec σ (List (StatusOr Value))
  | [] => pure []
  | request :: requests => do
      let result ← (impl.run request.1 request.2).attempt
      let results ← impl.runAll requests
      pure (result :: results)

/-- The table holds what it held before. Ids may have been issued in between. -/
def BaseState.Restored (t : HandleTable V) : σ → BaseState (HandleTable V) σ → Prop :=
  BaseState.Linked t fun _ => none

theorem BaseState.Restored.trackedValues {t : HandleTable V} {i : σ} {s : BaseState (HandleTable V) σ}
    (h : BaseState.Restored t i s) : s.table.trackedValues = t.trackedValues := by
  funext id
  exact h.tracked id

theorem Runner.runAll_couples (impl : ExecutorImpl σ V) (t : HandleTable V) (requests : List (Value × Value)) :
    Couples (BaseState.Restored t) (impl.runAll requests) (Runner.runAll (executorBase impl) requests)
      (fun results results' i s => results = results' ∧ BaseState.Restored t i s) (BaseState.Restored t) := by
  induction requests with
  | nil => exact .pure fun _ _ h => ⟨rfl, h⟩
  | cons request requests ih =>
      have hrun := runInternal_couples impl t (fun _ => none) (some request.1) request.1 request.2
      have hrest (result : StatusOr Value) : Couples (BaseState.Restored t)
          (impl.runAll requests >>= fun results => pure (result :: results))
          (Runner.runAll (executorBase impl) requests >>= fun results => pure (result :: results))
          (fun results results' i s => results = results' ∧ BaseState.Restored t i s)
            (BaseState.Restored t) := by
        refine ih.bind fun results results' => .pure fun i s h => ?_
        exact ⟨congrArg (result :: ·) h.1, h.2⟩
      refine hrun.attempt_bind (fun r r' => .of_fact (fun _ _ h => h.1) ?_) fun e => hrest (.error e)
      rintro rfl
      exact (hrest (.ok r)).conseq (fun _ _ h => h.2) (fun _ _ _ _ h => h) fun _ _ h => h

/-- **Runs leave nothing behind.** However many runs are made on an executor, and whatever each of them ends with, they
are the calls of the implementation, and the table of the executor holds what it held before. -/
theorem Runner.runAll_restores (impl : ExecutorImpl σ V) (requests : List (Value × Value))
    (s : BaseState (HandleTable V) σ) :
    (∀ results s', Returns (Runner.runAll (executorBase impl) requests) s results s' →
        Returns (impl.runAll requests) s.impl results s'.impl ∧ s'.table.trackedValues = s.table.trackedValues) ∧
      (∀ results i, Returns (impl.runAll requests) s.impl results i →
        ∃ s', Returns (Runner.runAll (executorBase impl) requests) s results s' ∧ s'.impl = i) ∧
      ∀ k, (Runner.runAll (executorBase impl) requests s).2 = .crash k ↔
        (impl.runAll requests s.impl).2 = .crash k := by
  have hrestored : BaseState.Restored s.table s.impl s := .refl s
  have hcouples (_ : Nat) := Runner.runAll_couples impl s.table requests
  refine ⟨fun results s' hresults => ?_, fun results i hresults => ?_, fun k => ?_⟩
  · obtain ⟨_, i, hi, rfl, hs'⟩ := Couples.of_returns hcouples hrestored (finally_const_iff.mpr hresults)
    exact ⟨hs'.impl ▸ finally_const_iff.mp hi, hs'.trackedValues⟩
  · obtain ⟨_, s', hs', rfl, hrel⟩ := Couples.returns hcouples hrestored (finally_const_iff.mpr hresults)
    exact ⟨s', finally_const_iff.mp hs', hrel.impl⟩
  · have hcrashes := Couples.crashes hcouples hrestored (k := k)
    exact ⟨fun h => (hcrashes.mpr ⟨0, h⟩).choose_spec, fun h => (hcrashes.mp ⟨0, h⟩).choose_spec⟩

end GenC
