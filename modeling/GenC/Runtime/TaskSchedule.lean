import GenC.Runtime.Concurrency
import GenC.Runtime.InlineExecutor

/-!
# The schedule of the inline executor's tasks

`runtime/inline_executor.cc` with its futures in place, over `Runtime/Concurrency.lean`.

**`schedule_independence`**: in whatever order the tasks start, advance and finish, the client sees what
it would see if every task body ran at the moment it was scheduled, as in `Runtime/InlineExecutor.lean`.
-/

namespace GenC

open Lib

/-! ## Pure handlers -/

/-- An inline handler that answers every request, with a value or an error. -/
structure PureHandler where
  uri : String
  checkWellFormed : Intrinsic → StatusOr Unit
  executeCall : Intrinsic → Value → StatusOr Value

def PureHandler.toHandler (h : PureHandler) : IntrinsicHandler :=
  ⟨h.uri, .inline
    ⟨fun intr => some (h.checkWellFormed intr), fun intr arg => some (h.executeCall intr arg)⟩⟩

/-- A handler set made of pure handlers. -/
def pureHandlerSet (hs : List PureHandler) : IntrinsicHandlerSet := hs.map PureHandler.toHandler

/-! ## The executor with its futures -/

/-- The tasks of an inline executor share no state. -/
abbrev ValuePool : Type := FuturePool Unit Value

namespace ScheduledInlineExecutor

open FuturePool

def valueJob (val : Value) : Job Unit Status Value :=
  ⟨[], fun _ s => some (.ok val, s)⟩

/-- The task of `CreateCall`: it waits for the function, then for the argument. -/
def callJob [ProtoText] (handlers : IntrinsicHandlerSet) (function argument : Nat) :
    Job Unit Status Value :=
  ⟨[function, argument], fun got s =>
    match got with
    | [fn, arg] => ending (InlineExecutor.callTask handlers fn arg) s
    | _ => none⟩

def structJob (memberFutures : List Nat) : Job Unit Status Value :=
  ⟨memberFutures, fun got s => some (.ok (.struct {} got), s)⟩

def selectionJob [ProtoText] (valueFuture : Nat) (index : UInt32) : Job Unit Status Value :=
  ⟨[valueFuture], fun got s =>
    match got with
    | [val] => some (InlineExecutor.selectionTask val index, s)
    | _ => none⟩

def createCall [ProtoText] (handlers : IntrinsicHandlerSet) (funcFuture : Nat)
    (argFuture : Option Nat) : Exec ValuePool Nat :=
  match argFuture with
  | none => Run.throw (.invalidArgument "An argument is always required.")
  | some argFuture => runAsync (callJob handlers funcFuture argFuture)

def materialize (valueFuture : Nat) (valPb : Option Value) : Exec ValuePool MaterializeResult := do
  match ← (wait valueFuture).attempt with
  | .ok v => pure ⟨.ok (), valPb.map fun _ => v⟩
  | .error e => pure ⟨.error e, valPb⟩

def impl [ProtoText] (handlers : IntrinsicHandlerSet) : ExecutorImpl ValuePool Nat where
  executorName := "InlineExecutor"
  createExecutorValue val := runAsync (valueJob val)
  createCall := createCall handlers
  createStruct memberFutures := runAsync (structJob memberFutures)
  createSelection valueFuture index := runAsync (selectionJob valueFuture index)
  materialize := materialize

end ScheduledInlineExecutor

/-! ## The jobs compute what the task bodies would -/

namespace ScheduledInlineExecutor

open FuturePool

variable {value : Nat → StatusOr Value} {i : Nat}

theorem valueJob_implements (val : Value) (h : value i = .ok val) :
    (valueJob val).Implements (.values Value) value i where
  captured _ hj := by cases hj
  error he := by cases he
  work _ _ _ := ⟨_, _, rfl, trivial, trivial, Denotation.matches_values.mpr h.symm⟩

/-- Results that are values are the values. -/
theorem eq_of_forall₂ {got vs : List Value} {s : Unit}
    (h : List.Forall₂ ( Denotation.Rel (.values Value) s) got vs) : got = vs :=
  List.forall₂_eq_eq_eq ▸ h

theorem structJob_implements {members : List Nat} (hlt : ∀ j ∈ members, j < i)
    (h : value i = InlineExecutor.structTask (members.map value)) :
    (structJob members).Implements (.values Value) value i := by
  -- waiting for the members one after the other gives the first error of them
  have hwait : InlineExecutor.waitAll (members.map value) = members.mapM value := by
    clear h hlt
    induction members with
    | nil => rfl
    | cons j js ih =>
        rw [List.map_cons, List.mapM_cons, ← ih]
        cases value j with
        | error e => rfl
        | ok v =>
            rw [InlineExecutor.waitAll]
            cases InlineExecutor.waitAll (js.map value) <;> rfl
  rw [InlineExecutor.structTask, hwait] at h
  refine ⟨hlt, fun {e} he => ?_, fun {got vs n s} hvs _ hgot => ?_⟩
  · rw [show members.mapM value = .error e from he] at h
    exact h
  · obtain rfl := eq_of_forall₂ hgot
    rw [show members.mapM value = .ok got from hvs] at h
    exact ⟨_, _, rfl, trivial, trivial, Denotation.matches_values.mpr h.symm⟩

variable [ProtoText]

theorem selectionJob_implements {source : Nat} {index : UInt32} (hlt : source < i)
    (h : value i = InlineExecutor.createSelection (value source) index) :
    (selectionJob source index).Implements (.values Value) value i := by
  refine ⟨fun j hj => List.mem_singleton.mp hj ▸ hlt, fun {e} he => ?_, fun {got vs n s} hvs _ hgot => ?_⟩
  · rcases of_mapM_cons_error he with hsource | ⟨_, _, hnil⟩
    · rw [h, hsource]
      rfl
    · cases hnil
  · obtain rfl := eq_of_forall₂ hgot
    have hsource := mapM_eq_ok_iff.mp (show [source].mapM value = .ok got from hvs)
    cases hsource with
    | @cons _ v _ _ hv hnil =>
        cases hnil
        rw [hv] at h
        exact ⟨_, _, rfl, trivial, trivial, Denotation.matches_values.mpr h.symm⟩

/-- The body of the task of `CreateCall`, with what its futures end with. -/
def callBody (handlers : IntrinsicHandlerSet) (function argument : StatusOr Value) :
    Exec Unit Value := do
  let fn ← InlineExecutor.wait function
  let arg ← InlineExecutor.wait argument
  InlineExecutor.callTask handlers fn arg

theorem callJob_implements {handlers : IntrinsicHandlerSet} {function argument : Nat}
    (hfunction : function < i) (hargument : argument < i)
    (h : ending (callBody handlers (value function) (value argument)) () = some (value i, ())) :
    (callJob handlers function argument).Implements (.values Value) value i := by
  refine ⟨fun j hj => ?_, fun {e} he => ?_, fun {got vs n s} hvs _ hgot => ?_⟩
  · rcases List.mem_cons.mp hj with rfl | hj
    · exact hfunction
    · exact List.mem_singleton.mp hj ▸ hargument
  · -- the function's error comes before the argument's
    rcases of_mapM_cons_error he with hfn | ⟨fn, hfn, hrest⟩
    · rw [hfn] at h
      exact (Prod.mk.inj (Option.some.inj h)).1.symm
    · rcases of_mapM_cons_error hrest with harg | ⟨_, _, hnil⟩
      · rw [hfn, harg] at h
        exact (Prod.mk.inj (Option.some.inj h)).1.symm
      · cases hnil
  · obtain rfl := eq_of_forall₂ hgot
    have hboth := mapM_eq_ok_iff.mp (show [function, argument].mapM value = .ok got from hvs)
    cases hboth with
    | @cons _ fn _ _ hfn hrest =>
        cases hrest with
        | @cons _ arg _ _ harg hnil =>
            cases hnil
            rw [hfn, harg] at h
            have hwork : ending (InlineExecutor.callTask handlers fn arg) () = some (value i, ()) := h
            exact ⟨value i, (), hwork, trivial, trivial, Denotation.matches_values.mpr rfl⟩

/-! ### Tasks end -/

omit [ProtoText] in
/-- What a pure handler set has registered is a pure handler. -/
theorem of_getHandler {hs : List PureHandler} {uri : String} {handler : IntrinsicHandler}
    (h : (pureHandlerSet hs).getHandler uri = .ok handler) :
    ∃ pure : PureHandler, handler = pure.toHandler := by
  unfold IntrinsicHandlerSet.getHandler at h
  split at h
  · next heq =>
    cases h
    obtain ⟨pure, -, rfl⟩ := List.mem_map.mp (List.mem_of_find?_eq_some heq)
    exact ⟨pure, rfl⟩
  · cases h

/-- With pure handlers every call ends, one way or the other. -/
theorem callTask_ends (hs : List PureHandler) (fn arg : Value) :
    Run.Ends (InlineExecutor.callTask (pureHandlerSet hs) fn arg : Exec Unit Value) := by
  cases fn with
  | intrinsic m uri staticParameter =>
      show Run.Ends (Run.ofExcept ((pureHandlerSet hs).getHandler uri) >>= _)
      cases hget : (pureHandlerSet hs).getHandler uri with
      | error e => exact .throw e
      | ok handler =>
          obtain ⟨pure, rfl⟩ := of_getHandler hget
          rw [Run.ofExcept_ok, Run.pure_bind_eq]
          refine .bind (.bind (.tell _) fun _ => .ofExcept _) fun _ => ?_
          have hinterface : pure.toHandler.getInlineInterface = .ok ⟨fun intr =>
            some (pure.checkWellFormed intr), fun intr arg => some (pure.executeCall intr arg)⟩ := rfl
          rw [hinterface, Run.ofExcept_ok, Run.pure_bind_eq]
          exact .bind (.tell _) fun _ => .ofExcept _
  | _ => exact .throw _

theorem callBody_pure_ends (hs : List PureHandler) (function argument : StatusOr Value) :
    Run.Ends (callBody (pureHandlerSet hs) function argument) :=
  .bind (.ofExcept _) fun fn => .bind (.ofExcept _) fun arg => callTask_ends hs fn arg

theorem exists_ending (hs : List PureHandler) (function argument : StatusOr Value) :
    ∃ r, ending (callBody (pureHandlerSet hs) function argument) () = some (r, ()) := by
  rcases callBody_pure_ends hs function argument () with ⟨v, s, hv⟩ | ⟨e, s, he⟩
  · exact ⟨.ok v, ending_eq_some_iff.mpr hv.attempt⟩
  · exact ⟨.error e, ending_eq_some_iff.mpr he.attempt⟩

/-- The executor without futures ends whatever it does. -/
theorem inline_ends (hs : List PureHandler) : (InlineExecutor.impl (pureHandlerSet hs)).Ends where
  createValue _ := .pure _
  createCall function argument := by
    cases argument with
    | none => exact .throw _
    | some argument => exact (callBody_pure_ends hs function argument).attempt
  createStruct _ := .pure _
  createSelection _ _ := .pure _
  materialize _ _ := .pure _

omit [ProtoText] in
/-- A future that is there answers a wait. -/
theorem materialize_returns {pool : ValuePool} {future : Nat} {r : StatusOr Value}
    (h : pool.future future = some r) (valPb : Option Value) :
    Run.Returns (materialize future valPb) pool (InlineExecutor.materialize r valPb) pool := by
  refine (wait_returns h).bind ?_
  cases r with
  | ok v => exact .pure _ _
  | error e => exact .pure _ _

/-- Each method schedules what the executor without futures does on the spot. -/
theorem schedules (hs : List PureHandler) :
    Schedules (.values Value) (fun _ => True) (impl (pureHandlerSet hs))
      (InlineExecutor.impl (pureHandlerSet hs)) where
  name := rfl
  createValue val := .task (.pure _ _) (valueJob_implements val (valueOf_concat_self ..))
  createCall {w function argument f a} hf ha := by
    cases ha with
    -- a call without an argument fails at once, and no task is launched
    | none => exact .error _
    | some ha =>
        obtain ⟨r, hr⟩ := exists_ending hs f _
        refine .task (ending_eq_some_iff.mp hr) (callJob_implements (getElem?_lt hf) (getElem?_lt ha) ?_)
        rw [valueOf_concat r hf, valueOf_concat r ha, valueOf_concat_self]
        exact hr
  createStruct {w members rs} hvs := by
    obtain ⟨hlt, hmap⟩ := valueOf_all (InlineExecutor.structTask rs) hvs
    refine .task (.pure _ _) (structJob_implements hlt ?_)
    rw [valueOf_concat_self, hmap]
  createSelection {w source r} index hv := by
    refine .task (.pure _ _) (selectionJob_implements (getElem?_lt hv) ?_)
    rw [valueOf_concat_self, valueOf_concat _ hv]
  materialize {n pool future b r valPb} hb hmatches _ _ := by
    obtain rfl := Denotation.matches_values.mp hmatches
    exact .inl ⟨_, pool.shared, materialize_returns hb valPb, .pure _ _, trivial, trivial⟩
  blocked {pool future} valPb hnone := by
    have hwait : FuturePool.wait future pool = ([], .outOfFuel) := by rw [FuturePool.wait, hnone]
    show (materialize future valPb pool).2 = _
    simp only [materialize, Run.bind_apply, Run.attempt, hwait]

end ScheduledInlineExecutor

/-! ## Every schedule -/

/-- **Schedule independence.** Whatever the client and the tasks have done so far, in whatever order
that respects the waits:

* the calls made have had the responses that the executor without futures gives when it evaluates them
  one by one, and a future that has its result has what that executor holds under the same id;
* no task body was entered twice, and every task that finished was entered once;
* in every set of tasks there is one that waits for no task of the set;
* if nothing can be done, then every call is made and every task has finished.

And only finitely many things can be done one after the other. -/
theorem schedule_independence [ProtoText] (hs : List PureHandler)
    (program : List (Executor.ApiCall ValueId)) :
    (∀ s, (schedule (ScheduledInlineExecutor.impl (pureHandlerSet hs)) () program).Reachable s →
      (∃ made l t, program = made ++ s.calls ∧
        (inlineExecutor (pureHandlerSet hs)).performAll made ⟨HandleTable.empty, ()⟩ =
          (l, .ok s.responses t) ∧
        ∀ id, Option.Rel (fun future r => future < s.exec.impl.tasks.length ∧
            ∀ r', s.exec.impl.future future = some r' → r' = r)
          (s.exec.table.trackedValues id) (t.table.trackedValues id)) ∧
      (∀ task ∈ s.exec.impl.tasks, task.runs ≤ 1 ∧
        ∀ r, task.phase = .finished r → task.runs = 1) ∧
      (∀ X : Set Nat, X.Nonempty → ∃ i ∈ X, ∀ j ∈ X, ¬s.exec.impl.WaitsOn i j) ∧
      ((∀ s', ¬ScheduleStep (ScheduledInlineExecutor.impl (pureHandlerSet hs)) s s') →
        s.calls = [] ∧ ∀ i, ¬s.exec.impl.Pending i)) ∧
    WellFounded fun s' s =>
      ScheduleStep (ScheduledInlineExecutor.impl (pureHandlerSet hs)) s s' := by
  refine ⟨fun s hreach => ?_, wellFounded_scheduleStep _⟩
  have hschedules := ScheduledInlineExecutor.schedules hs
  have hpermits : ∀ call ∈ program, (futures (.values Value) fun _ => True).Permits call :=
    fun call _ => by cases call <;> trivial
  -- the inline executor answers every program, so no schedule runs ahead of it
  have hanswers := (ScheduledInlineExecutor.inline_ends hs).answers program
  have hinStep := InStep.reachable hschedules trivial hpermits hanswers hreach
  obtain ⟨made, t, w, hprogram, ⟨l, hmade⟩, ⟨hlen, hsound⟩, htable⟩ := id hinStep
  refine ⟨⟨made, l, t, hprogram, hmade, ?_⟩, ?_, fun X hX => hsound.exists_not_waiting hX,
    hinStep.finished hschedules hpermits hanswers⟩
  · refine (htable.mono fun future r hr => ⟨hlen ▸ getElem?_lt hr, fun r' hr' => ?_⟩).tracked
    have hfuture := Denotation.matches_values.mp (hsound.future hr')
    exact hfuture.trans (valueOf_eq hr)
  · intro task htask
    obtain ⟨i, hi⟩ := List.mem_iff_getElem?.mp htask
    exact hsound.runs hi

end GenC
