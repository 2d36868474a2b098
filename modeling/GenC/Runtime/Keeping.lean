import GenC.Runtime.Captures

/-!
# Executors that keep what they are given

An implementation of `ExecutorBase` that makes good values out of good values makes an executor whose
table holds nothing else (`ExecutorBase.keeps`). The inline executor holds IR over the names that it is
given IR over, if its handlers do not come up with others (`InlineExecutor.impl_keeps`).
-/

namespace GenC

open Lib

/-! ## Tables -/

section

variable {σ V : Type}

/-- Every value of the table has the property. -/
def HandleTable.All (Q : V → Prop) (t : HandleTable V) : Prop := ∀ id v, t.trackedValues id = some v → Q v

namespace HandleTable.All

variable {Q : V → Prop} {t : HandleTable V}

theorem empty : (HandleTable.empty : HandleTable V).All Q := fun _ _ h => (nomatch h)

theorem trackValue (h : t.All Q) {v : V} (hv : Q v) : (t.trackValue v).2.All Q := by
  intro id w hw
  by_cases hid : id = t.nextValueId
  · subst hid
    obtain rfl : v = w := Option.some.inj ((trackedValues_trackValue_self v t).symm.trans hw)
    exact hv
  · exact h id w ((trackedValues_trackValue_of_ne hid).symm.trans hw)

theorem erase (h : t.All Q) (id : ValueId) : (t.erase id).All Q := by
  intro id' w hw
  by_cases hid : id' = id
  · subst hid
    rw [trackedValues_erase_self] at hw
    cases hw
  · exact h id' w ((trackedValues_erase_of_ne hid).symm.trans hw)

end HandleTable.All

/-- The implementation makes values with the property out of such values and good IR. -/
structure ExecutorImpl.Keeps (Good : Value → Prop) (Q : V → Prop) (impl : ExecutorImpl σ V) : Prop where
  createValue : ∀ {v}, Good v → Run.Triple (fun _ => True) (impl.createExecutorValue v) (fun r _ => Q r)
    fun _ _ => True
  createCall : ∀ {f a}, Q f → (∀ v ∈ a, Q v) →
    Run.Triple (fun _ => True) (impl.createCall f a) (fun r _ => Q r) fun _ _ => True
  createStruct : ∀ {vs}, (∀ v ∈ vs, Q v) →
    Run.Triple (fun _ => True) (impl.createStruct vs) (fun r _ => Q r) fun _ _ => True
  createSelection : ∀ {v} index, Q v →
    Run.Triple (fun _ => True) (impl.createSelection v index) (fun r _ => Q r) fun _ _ => True
  materialize : ∀ {v output}, Q v → (∀ w ∈ output, Good w) →
    Run.Triple (fun _ => True) (impl.materialize v output) (fun m _ => ∀ w ∈ m.output, Good w)
      fun _ _ => True

namespace ExecutorBase

variable {Good : Value → Prop} {Q : V → Prop} {α : Type}

theorem getTracked_keeps (name : String) (id : ValueId) :
    Run.Alike (fun s : BaseState (HandleTable V) σ => s.table.All Q) Eq (fun v v' => v = v' ∧ Q v)
      (getTracked name id) (getTracked name id) := by
  refine .refl ?_
  refine (getTracked_triple name id).conseq (fun _ h => h) (fun v s h => ?_) fun _ _ h => ⟨h, rfl⟩
  exact ⟨h.1, rfl, h.1 id v h.2⟩

theorem getAllTracked_keeps (name : String) : ∀ ids : List ValueId,
    Run.Alike (fun s : BaseState (HandleTable V) σ => s.table.All Q) Eq
      (fun vs vs' => vs = vs' ∧ ∀ v ∈ vs, Q v) (getAllTracked name ids) (getAllTracked name ids)
  | [] => .pure ⟨rfl, List.forall_mem_nil _⟩
  | id :: ids => by
      refine (getTracked_keeps name id).bind fun v _ => ?_
      rintro ⟨rfl, hv⟩
      refine (getAllTracked_keeps name ids).bind fun vs _ => ?_
      rintro ⟨rfl, hvs⟩
      exact .pure ⟨rfl, List.forall_mem_cons.mpr ⟨hv, hvs⟩⟩

theorem getTrackedArgument_keeps (name : String) (argument : Option ValueId) :
    Run.Alike (fun s : BaseState (HandleTable V) σ => s.table.All Q) Eq
      (fun a a' => a = a' ∧ ∀ v ∈ a, Q v) (getTrackedArgument name argument)
      (getTrackedArgument name argument) := by
  cases argument with
  | none => exact .pure ⟨rfl, fun _ h => (nomatch h)⟩
  | some id =>
      refine (getTracked_keeps name id).bind fun v _ => ?_
      rintro ⟨rfl, hv⟩
      refine .pure ⟨rfl, ?_⟩
      rintro _ ⟨⟩
      exact hv

theorem onImpl_keeps {x : Exec σ α} {R : α → Prop}
    (hx : Run.Triple (fun _ => True) x (fun a _ => R a) fun _ _ => True) :
    Run.Alike (fun s : BaseState (HandleTable V) σ => s.table.All Q) Eq (fun a a' => a = a' ∧ R a)
      (onImpl x) (onImpl x) := by
  refine .refl (.zoom fun s hs => ?_)
  refine hx.conseq (fun _ _ => trivial) (fun a _ h => ⟨hs, rfl, h⟩) fun _ _ _ => ⟨hs, rfl⟩

/-! ### `ExecutorBase` -/

/-- What the implementation makes is tracked. -/
theorem track_keeps {x : Exec σ V}
    (hx : Run.Triple (fun _ => True) x (fun v _ => Q v) fun _ _ => True) :
    Run.Alike (fun s : BaseState (HandleTable V) σ => s.table.All Q) Eq Eq (onImpl x >>= trackValue)
      (onImpl x >>= trackValue) := by
  refine (onImpl_keeps hx).bind fun v _ => ?_
  rintro ⟨rfl, hv⟩
  exact .refl (.step fun s hs => ⟨hs.trackValue hv, rfl⟩)

/-- The handles of an executor keep to what its implementation keeps to. -/
theorem keeps {impl : ExecutorImpl σ V} (h : impl.Keeps Good Q) :
    (executorBase impl : Executor ValueId (BaseState (HandleTable V) σ)).Keeps
      (fun s => s.table.All Q) Good where
  createValue hv := track_keeps (h.createValue hv)
  createCall f a := by
    refine (getTracked_keeps _ f).bind fun f _ => ?_
    rintro ⟨rfl, hf⟩
    refine (getTrackedArgument_keeps _ a).bind fun a _ => ?_
    rintro ⟨rfl, ha⟩
    exact track_keeps (h.createCall hf ha)
  createStruct ids := by
    refine (getAllTracked_keeps _ ids).bind fun vs _ => ?_
    rintro ⟨rfl, hvs⟩
    exact track_keeps (h.createStruct hvs)
  createSelection id index := by
    refine (getTracked_keeps _ id).bind fun v _ => ?_
    rintro ⟨rfl, hv⟩
    exact track_keeps (h.createSelection index hv)
  -- the lookup may fail, with the same error for both
  materialize id output houtput := by
    refine (getTracked_keeps _ id).attempt.bind fun r r' hr => ?_
    rcases r with e | v <;> rcases r' with e' | v'
    · obtain rfl : e = e' := hr
      exact .pure ⟨rfl, houtput⟩
    · exact hr.elim
    · exact hr.elim
    · obtain ⟨rfl, hv⟩ := hr
      exact onImpl_keeps (h.materialize hv houtput)
  dispose id := by
    refine .refl (.step fun s hs => ?_)
    cases hid : ValueTable.getTracked s.table id with
    | none => exact ⟨hs, rfl⟩
    | some v => exact ⟨hs.erase id, rfl⟩

end ExecutorBase

end

/-! ## The inline executor -/

namespace InlineExecutor

variable {N : Set String}

/-- A result is IR over `N`, if it is one. -/
def Holds (N : Set String) (r : StatusOr Value) : Prop := ∀ w, r = .ok w → w.ClosedOver N

theorem structTask_holds {rs : List (StatusOr Value)} (h : ∀ r ∈ rs, Holds N r) :
    Holds N (structTask rs) := by
  intro w hw
  obtain ⟨vs, rfl, rfl⟩ := structTask_eq_ok_iff.mp hw
  exact .struct fun v hv => h (.ok v) (List.mem_map_of_mem hv) v rfl

variable [ProtoText]

theorem createSelection_holds_over {r : StatusOr Value} (h : Holds N r) (index : UInt32) :
    Holds N (createSelection r index) := by
  intro w hw
  cases r with
  | error e => cases hw
  | ok v =>
      have hv := h v rfl
      cases hv with
      | @struct _ m element helement =>
          rw [createSelection, selectionTask] at hw
          split at hw
          · next v hi =>
              cases hw
              exact helement w (List.mem_of_getElem? hi)
          · cases hw
      | _ => cases hw

variable {handlers : IntrinsicHandlerSet}
  (hhandlers : ∀ handler ∈ handlers, handler.Keeps (Value.ClosedOver N))

include hhandlers

theorem callTask_keeps {σ : Type} {fn arg : Value} (hfn : fn.ClosedOver N) (harg : arg.ClosedOver N) :
    Run.Triple (fun _ => True) (callTask handlers fn arg : Exec σ Value)
      (fun w _ => w.ClosedOver N) fun _ _ => True := by
  cases hfn with
  | @intrinsic _ m uri staticParameter hparameter =>
      -- a handler that is found is one of the list, all of which keep closed values closed
      have hget : Run.Triple (fun _ => True) (Run.ofExcept (handlers.getHandler uri) : Exec σ _)
          (fun handler _ => handler.Keeps (Value.ClosedOver N)) fun _ _ => True := by
        refine .ofExcept fun s _ => ?_
        cases h : handlers.getHandler uri with
        | error e => trivial
        | ok handler => exact hhandlers handler (IntrinsicHandlerSet.mem_of_getHandler h)
      refine hget.bind fun handler => .of_fact (fun _ h => h) fun hkeeps => ?_
      refine (Run.Triple.any _).bind fun _ => ?_
      have hinterface : Run.Triple (fun _ => True) (Run.ofExcept handler.getInlineInterface : Exec σ _)
          (fun interface _ => interface.Keeps (Value.ClosedOver N)) fun _ _ => True := by
        refine .ofExcept fun s _ => ?_
        unfold IntrinsicHandler.Keeps at hkeeps
        unfold IntrinsicHandler.getInlineInterface
        cases h : handler.interface with
        | inline interface =>
            rw [h] at hkeeps
            exact hkeeps
        | controlFlow interface => trivial
      refine (hinterface.pre fun _ _ => trivial).bind fun interface => .of_fact (fun _ h => h) fun hkeeps => ?_
      refine (Run.Triple.any _).bind fun _ => ?_
      cases hresult : interface.executeCall ⟨uri, staticParameter⟩ arg with
      | none => exact .crash
      | some r =>
          refine .ofExcept fun s _ => ?_
          cases r with
          | error e => trivial
          | ok w => exact hkeeps _ arg w hparameter harg hresult
  | _ => exact .throw fun _ _ => trivial

/-- What the inline executor works out of IR over `N` is IR over `N`. -/
theorem impl_keeps : (impl handlers).Keeps (Value.ClosedOver N) (Holds N) where
  createValue hv := .pure fun _ _ w hw => Except.ok.inj hw ▸ hv
  createCall := by
    intro f a hf ha
    cases a with
    | none => exact .throw fun _ _ => trivial
    | some a =>
        -- waiting gives what the future holds, or fails
        have hwait : ∀ {r : StatusOr Value}, Holds N r → Run.Triple (fun _ => True)
            (wait r : Exec Unit Value) (fun w _ => w.ClosedOver N) fun _ _ => True := by
          intro r hr
          refine .ofExcept fun s _ => ?_
          cases r with
          | error e => trivial
          | ok w => exact hr w rfl
        have htask : Run.Triple (fun _ => True)
            (wait f >>= fun fn => wait a >>= fun arg => callTask handlers fn arg : Exec Unit Value)
            (fun w _ => w.ClosedOver N) fun _ _ => True := by
          refine (hwait hf).bind fun fn => .of_fact (fun _ h => h) fun hfn => ?_
          refine ((hwait (ha a rfl)).pre fun _ _ => trivial).bind fun arg =>
            .of_fact (fun _ h => h) fun harg => ?_
          exact (callTask_keeps hhandlers hfn harg).pre fun _ _ => trivial
        refine htask.attempt.conseq (fun _ h => h) (fun r s h => ?_) fun _ _ h => h
        rintro w rfl
        exact h
  createStruct hvs := .pure fun _ _ => structTask_holds hvs
  createSelection index hv := .pure fun _ _ => createSelection_holds_over hv index
  materialize := by
    intro r output hr houtput
    refine .pure fun _ _ w hw => ?_
    cases r with
    | error e => exact houtput w hw
    | ok v =>
        obtain ⟨_, -, rfl⟩ := Option.map_eq_some_iff.mp hw
        exact hr v rfl

end InlineExecutor

end GenC
