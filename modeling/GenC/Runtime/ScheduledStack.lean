import GenC.Lib.Covering
import GenC.Runtime.ChildExecutor
import GenC.Runtime.TaskSchedule

/-!
# The local stack over its threads

`CreateLocalExecutor` with the tasks of the inline executor in place. The control-flow executor is a client of the
inline executor, and the tasks go on in between: a `Turn` says what the threads do before a call, and while
`Materialize` waits. A schedule is a sequence of turns. Any interleaving of the client with the tasks is one of some
schedule.

**`scheduled_related`**: in any schedule the inline executor covers the one that runs each task on the spot. So the
control-flow executor above it does, too.
-/

namespace GenC

open Lib

/-! ## Schedules -/

/-- What the threads do. They do not leave a client waiting as long as a task can advance. -/
structure Turn (σ β : Type) where
  advance : FuturePool σ β → FuturePool σ β
  await : Nat → FuturePool σ β → FuturePool σ β
  advance_steps : ∀ pool, Relation.ReflTransGen TaskPool.Step pool (advance pool)
  await_steps : ∀ future pool, Relation.ReflTransGen TaskPool.Step pool (await future pool)
  await_ends : ∀ future pool, (∀ pool', ¬ TaskPool.Step (await future pool) pool') ∨
    (await future pool).future future ≠ none

/-- Threads that do nothing before they are waited for, and then do everything. -/
noncomputable def Turn.late {σ β : Type} : Turn σ β where
  advance pool := pool
  await _ pool := pool.exists_quiescent.choose
  advance_steps _ := .refl
  await_steps _ pool := pool.exists_quiescent.choose_spec.1
  await_ends _ pool := .inl pool.exists_quiescent.choose_spec.2

/-- The state of an executor with tasks, and the turns that the threads have had. -/
structure ScheduledState (σ β : Type) where
  exec : BaseState (HandleTable Nat) (FuturePool σ β)
  turns : Nat

namespace ScheduledState

variable {σ β : Type}

/-- The threads have a turn. If the client waits for the value of an id, they work on its future. -/
def takeTurn (schedule : Nat → Turn σ β) (waitingFor : Option ValueId) : Exec (ScheduledState σ β) Unit :=
  Run.step fun s =>
    let pool :=
      match waitingFor.bind s.exec.table.trackedValues with
      | some future => (schedule s.turns).await future s.exec.impl
      | none => (schedule s.turns).advance s.exec.impl
    (.ok (), ⟨{ s.exec with impl := pool }, s.turns + 1⟩)

/-- A call of the client. -/
def call (schedule : Nat → Turn σ β) (waitingFor : Option ValueId)
    (x : Exec (BaseState (HandleTable Nat) (FuturePool σ β)) α) : Exec (ScheduledState σ β) α := do
  takeTurn schedule waitingFor
  x.zoom (·.exec) fun exec s => { s with exec }

end ScheduledState

/-- An executor with tasks, in a schedule. -/
def Executor.scheduled {σ β : Type} (exec : Executor ValueId (BaseState (HandleTable Nat) (FuturePool σ β)))
    (schedule : Nat → Turn σ β) : Executor ValueId (ScheduledState σ β) where
  createValue val := ScheduledState.call schedule none (exec.createValue val)
  createCall function argument := ScheduledState.call schedule none (exec.createCall function argument)
  createStruct members := ScheduledState.call schedule none (exec.createStruct members)
  createSelection source index := ScheduledState.call schedule none (exec.createSelection source index)
  materialize value valuePb := ScheduledState.call schedule (some value) (exec.materialize value valuePb)
  dispose value := ScheduledState.call schedule none (exec.dispose value)

/-- `CreateLocalExecutor`, over threads that follow a schedule. -/
def scheduledLocalExecutor [ProtoText] (handlers : IntrinsicHandlerSet) (schedule : Nat → Turn Unit Value) :
    ControlFlowExecutor (ScheduledState Unit Value) :=
  ⟨handlers, Executor.scheduled (executorBase (ScheduledInlineExecutor.impl handlers)) schedule⟩

/-! ## In any schedule -/

namespace ScheduledState

/-- Futures stand for what they are to hold. -/
abbrev values : Correspondence ValuePool Nat Unit (StatusOr Value) := futures (.values Value) fun _ => True

/-- The tables have the same ids, and each future is to hold what is on the other side, if it does not already. -/
def Linked (s : ScheduledState Unit Value) (t : InlineState) : Prop := ∃ w, values.Linked 1 w s.exec t

variable {w : List (StatusOr Value)} {s : BaseState (HandleTable Nat) ValuePool} {t : InlineState}

/-- Results that are values do not depend on how often they are looked at. -/
theorem linked_succ {n : Nat} (h : values.Linked n w s t) : values.Linked (n + 1) w s t :=
  ⟨⟨h.1.1, h.1.2.access trivial trivial⟩, h.2⟩

/-- Tasks may advance. -/
theorem linked_steps {n : Nat} {pool : ValuePool} (h : values.Linked n w s t)
    (hsteps : Relation.ReflTransGen TaskPool.Step s.impl pool) : values.Linked n w { s with impl := pool } t := by
  induction hsteps with
  | refl => exact h
  | tail _ hstep ih => exact ⟨⟨hstep.length_eq.trans ih.1.1, (ih.1.2.step hstep).1⟩, ih.2⟩

theorem takeTurn_returns (schedule : Nat → Turn Unit Value) (waitingFor : Option ValueId)
    {s : ScheduledState Unit Value} (h : values.Linked 1 w s.exec t) :
    ∃ s', Run.Returns (takeTurn schedule waitingFor) s () s' ∧ values.Linked 1 w s'.exec t ∧
      ∀ id ∈ waitingFor, ∀ valPb, values.Unblocked (.materialize id valPb) s'.exec := by
  refine ⟨_, .step rfl, ?_, ?_⟩
  · cases hfuture : waitingFor.bind s.exec.table.trackedValues with
    | some future => exact linked_steps h ((schedule s.turns).await_steps future s.exec.impl)
    | none => exact linked_steps h ((schedule s.turns).advance_steps s.exec.impl)
  · intro id hid valPb future hfuture
    have htracked : waitingFor.bind s.exec.table.trackedValues = some future := by
      rw [Option.mem_def.mp hid]
      exact hfuture
    simp only [htracked]
    have hlinked := linked_steps h ((schedule s.turns).await_steps future s.exec.impl)
    rcases (schedule s.turns).await_ends future s.exec.impl with hstuck | hready
    · -- with nothing left to do, every future is there
      intro hnone
      rcases hlinked.2.cases id with ⟨hnot, -⟩ | ⟨future', r, hs, -, hr⟩
      · cases hfuture.symm.trans hnot
      · obtain rfl : future = future' := Option.some.inj (hfuture.symm.trans hs)
        obtain ⟨pool', hstep⟩ := hlinked.1.2.progress ⟨hlinked.1.1.symm ▸ getElem?_lt hr, hnone⟩
        exact hstuck pool' hstep
    · exact hready

/-- What is so for a call when the threads have had their turn. -/
theorem call_covers (schedule : Nat → Turn Unit Value) (waitingFor : Option ValueId)
    {x : Exec (BaseState (HandleTable Nat) ValuePool) α} {y : Exec InlineState α}
    (h : ∀ w, Run.Covers (fun s t => values.Linked 1 w s t ∧
        ∀ id ∈ waitingFor, ∀ valPb, values.Unblocked (.materialize id valPb) s) x y
      (fun a b s t => a = b ∧ ∃ w, values.Linked 0 w s t) (values.Linked 0 w)) :
    Run.Covers Linked (call schedule waitingFor x) y (fun a b s t => a = b ∧ Linked s t) Linked := by
  refine .of_exists fun w => .bind_left (R := fun _ s t => values.Linked 1 w s.exec t ∧
    ∀ id ∈ waitingFor, ∀ valPb, values.Unblocked (.materialize id valPb) s.exec) ?_ fun _ => ?_
  · intro s t hst
    obtain ⟨s', hs'⟩ := takeTurn_returns schedule waitingFor hst
    exact ⟨(), s', hs'⟩
  · refine (Run.Covers.zoom (fun _ _ => rfl) (h w)).conseq (fun _ _ h => h) ?_ fun _ _ h => ⟨w, linked_succ h⟩
    rintro a b s t ⟨hab, w', hw'⟩
    exact ⟨hab, w', linked_succ hw'⟩

end ScheduledState

/-! ## Call by call -/

namespace ScheduledInlineExecutor

open ScheduledState ExecutorBase ExecutorImpl.Ends

variable [ProtoText] {handlers : IntrinsicHandlerSet} {w : List (StatusOr Value)}

/-- All but the calls are made without asking a handler. -/
theorem simulates : values.Simulates (impl (pureHandlerSet [])) (InlineExecutor.impl (pureHandlerSet [])) :=
  (schedules []).simulates

/-- The task of a call ends, or else the process does. -/
theorem callBody_ends (function argument : StatusOr Value) :
    (∃ r, FuturePool.ending (callBody handlers function argument) () = some (r, ())) ∨
      ∃ k, (callBody handlers function argument ()).2 = .crash k := by
  -- nothing in the body of a call takes fuel
  have hbind : ∀ {α β : Type} {x : Exec Unit α} {f : α → Exec Unit β}, (x ()).2 ≠ .outOfFuel →
      (∀ a, (f a ()).2 ≠ .outOfFuel) → ((x >>= f) ()).2 ≠ .outOfFuel := by
    intro α β x f hx hf
    rw [Run.bind_apply]
    rcases h : x () with ⟨l, a | e | k | _⟩ <;> rw [h] at hx
    · exact hf a
    · exact nofun
    · exact nofun
    · exact (hx rfl).elim
  have hchecked : ∀ {α : Type} (c : Checked α), ((c.run : Exec Unit α) ()).2 ≠ .outOfFuel := by
    rintro α (_ | _ | _) <;> exact nofun
  have hexcept : ∀ {α : Type} (r : StatusOr α), ((Run.ofExcept r : Exec Unit α) ()).2 ≠ .outOfFuel := by
    rintro α (_ | _) <;> exact nofun
  have htask : ∀ fn arg : Value, ((InlineExecutor.callTask handlers fn arg : Exec Unit Value) ()).2 ≠ .outOfFuel := by
    intro fn arg
    cases fn with
    | intrinsic m uri staticParameter =>
        refine hbind (hexcept _) fun handler => hbind (hbind nofun fun _ => hchecked _) fun _ => ?_
        exact hbind (hexcept _) fun interface => hbind nofun fun _ => hchecked _
    | _ => exact nofun
  have hbody : (callBody handlers function argument ()).2 ≠ .outOfFuel :=
    hbind (hexcept _) fun fn => hbind (hexcept _) fun arg => htask fn arg
  unfold FuturePool.ending
  generalize (callBody handlers function argument ()).2 = o at hbody
  rcases o with v | e | k | _
  · exact .inl ⟨.ok v, rfl⟩
  · exact .inl ⟨.error e, rfl⟩
  · exact .inr ⟨k, rfl⟩
  · exact (hbody rfl).elim

theorem createCall_covers (function : ValueId) (argument : Option ValueId) :
    Run.Covers (values.Linked 1 w) ((executorBase (impl handlers)).createCall function argument)
      ((inlineExecutor handlers).createCall function argument)
      (fun id id' s t => id = id' ∧ ∃ w, values.Linked 0 w s t) (values.Linked 0 w) := by
  have hfunction := getTracked_agree True (P := values.Linked 1 w) (fun _ _ h => h.2)
    (impl handlers).executorName function
  have hargument := getTrackedArgument_agree True (P := values.Linked 1 w) (fun _ _ h => h.2)
    (impl handlers).executorName argument
  refine (Run.Covers.of_agree (hfunction.conseq (fun _ _ h => h) (fun _ _ _ _ h => h) fun _ _ h => h.succ)
    (getTracked_ends _ function)).bind fun future f => .of_fact (fun _ _ h => h.2) fun hf => ?_
  refine Run.Covers.conseq ?_ (fun _ _ h => h.1) (fun _ _ _ _ h => h) fun _ _ h => h
  refine (Run.Covers.of_agree (hargument.conseq (fun _ _ h => h) (fun _ _ _ _ h => h) fun _ _ h => h.succ)
    (getTrackedArgument_ends _ argument)).bind fun future' a => .of_fact (fun _ _ h => h.2) fun ha => ?_
  refine Run.Covers.conseq ?_ (fun _ _ h => h.1) (fun _ _ _ _ h => h) fun _ _ h => h
  cases ha with
  | none => exact .of_agree (values.trackValue_agree (Launches.error _).agree) (trackValue_ends (.throw _))
  | @some future' a ha =>
      rcases callBody_ends f a with ⟨r, hr⟩ | ⟨k, hk⟩
      · have hjob : (callJob handlers future future').Implements (.values Value) (valueOf (w ++ [r])) w.length := by
          refine callJob_implements (getElem?_lt hf) (getElem?_lt ha) ?_
          rw [valueOf_concat r hf, valueOf_concat r ha, valueOf_concat_self]
          exact hr
        have hlaunches : Launches (.values Value) w ((impl handlers).createCall future (some future'))
            ((InlineExecutor.impl handlers).createCall f (some a)) :=
          .task (FuturePool.ending_eq_some_iff.mp hr) hjob
        have hends : Run.Ends ((InlineExecutor.impl handlers).createCall f (some a)) := fun _ =>
          .inl ⟨r, (), FuturePool.ending_eq_some_iff.mp hr⟩
        exact .of_agree (Correspondence.trackValue_agree hlaunches.agree) (trackValue_ends hends)
      · refine .of_crash fun s t _ => ⟨k, Run.bind_crash_iff.mpr (.inl ?_)⟩
        have hcall : ((InlineExecutor.createCall handlers f (some a) : Exec Unit _) ()).2 = .crash k :=
          Run.attempt_crash_iff.mpr hk
        show (Run.zoom _ _ (InlineExecutor.createCall handlers f (some a)) t).2 = _
        rw [Run.zoom]
        -- the executor without tasks has no state
        cases t.impl
        rcases hx : (InlineExecutor.createCall handlers f (some a) : Exec Unit _) () with ⟨l, o⟩
        rw [hx] at hcall
        subst hcall
        rfl

/-- **In any schedule**, the inline executor answers as the one without tasks, as long as that one does not crash. -/
theorem scheduled_related (schedule : Nat → Turn Unit Value) : Executor.Related (.covering Event Crash Status Linked)
    (Executor.scheduled (executorBase (impl handlers)) schedule) (inlineExecutor handlers) where
  createValue val := call_covers schedule none fun w => by
    have hagree := Correspondence.trackValue_agree (simulates.createValue (n := 0) (w := w) val)
    exact .conseq (.of_agree hagree ((inline_ends []).createValue_ends val)) (fun _ _ h => h.1)
      (fun _ _ _ _ h => h) fun _ _ h => h
  createCall function argument := call_covers schedule none fun w =>
    (createCall_covers function argument).conseq (fun _ _ h => h.1) (fun _ _ _ _ h => h) fun _ _ h => h
  createStruct members := call_covers schedule none fun w => by
    have hagree := simulates.createStruct_agree (n := 0) (w := w) members
    exact .conseq (.of_agree hagree ((inline_ends []).createStruct_ends members)) (fun _ _ h => h.1)
      (fun _ _ _ _ h => h) fun _ _ h => h
  createSelection source index := call_covers schedule none fun w => by
    have hagree := simulates.createSelection_agree (n := 0) (w := w) source index
    exact .conseq (.of_agree hagree ((inline_ends []).createSelection_ends source index)) (fun _ _ h => h.1)
      (fun _ _ _ _ h => h) fun _ _ h => h
  -- this call waits: the turn before it has run the tasks until the future is there
  materialize id output := call_covers schedule (some id) fun w => by
    have hpermits : values.Output output := trivial
    have hagree := simulates.materialize_agree (n := 0) (w := w) id hpermits
    exact .conseq (.of_agree hagree ((inline_ends []).materialize_ends id output))
      (fun _ _ h => ⟨h.1, h.2 id rfl output⟩) (fun _ _ _ _ h => h) fun _ _ h => h.elim
  dispose id := call_covers schedule none fun w => by
    have hagree := simulates.dispose_agree (n := 0) (w := w) id
    exact .conseq (.of_agree hagree (dispose_ends id)) (fun _ _ h => h.1) (fun _ _ _ _ h => ⟨rfl, w, h⟩)
      fun _ _ h => h

end ScheduledInlineExecutor

end GenC
