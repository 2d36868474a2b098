import GenC.Lib.TaskPool
import GenC.Runtime.Simulation

/-!
# Executors whose values are futures

`runtime/concurrency.h`, over the threads of `runtime/threading.cc`. A value of such an executor is a
future; every `Create*` that does not fail at once schedules a task (`ConcurrencyInterface::RunAsync`),
and a task body waits for the futures it captured.

A client makes its calls while the tasks start, advance and finish in any order that respects the
waits. `Schedules` says of each method that the task it schedules computes what a reference
implementation computes on the spot, if that ends. Then, in every schedule, the client gets the responses
of the reference, as far as there are any (**`foretold`**). If the reference answers all the calls of the
client, everything ends: **`InStep.reachable`**, **`InStep.progress`**, **`wellFounded_scheduleStep`**.
-/

namespace GenC

open Lib

/-- The tasks of an executor, over what they share. -/
abbrev FuturePool (σ β : Type) : Type := TaskPool σ Status β

namespace FuturePool

variable {σ β : Type}

/-- `RunAsync` hands out the future of the task it schedules. -/
def runAsync (job : Job σ Status β) : Exec (FuturePool σ β) Nat :=
  Run.step fun pool =>
    let (future, pool) := pool.spawn job
    (.ok future, pool)

/-- `Wait` on the client's own thread. It has no result as long as the task is unfinished. -/
def wait (valueFuture : Nat) : Exec (FuturePool σ β) β := fun pool =>
  match pool.future valueFuture with
  | some (.ok v) => ([], .ok v pool)
  | some (.error e) => ([], .error e pool)
  | none => ([], .outOfFuel)

/-- How a task body ends, unless the process ends there. -/
def ending (x : Exec σ β) (s : σ) : Option (StatusOr β × σ) :=
  match (x s).2 with
  | .ok v s' => some (.ok v, s')
  | .error e s' => some (.error e, s')
  | .crash _ => none
  | .outOfFuel => none

theorem ending_eq_some_iff {x : Exec σ β} {s s' : σ} {r : StatusOr β} :
    ending x s = some (r, s') ↔ Run.Returns x.attempt s r s' := by
  unfold ending
  constructor
  · intro h
    rcases hx : x s with ⟨l, v | e | k | _⟩ <;> rw [hx] at h <;> cases h
    · exact ⟨l, by simp only [Run.attempt, hx]⟩
    · exact ⟨l, by simp only [Run.attempt, hx]⟩
  · rintro ⟨l, hl⟩
    rw [Run.attempt] at hl
    rcases hx : x s with ⟨l', v | e | k | _⟩ <;> rw [hx] at hl <;> cases hl <;> rfl

/-- A future that is there answers a wait. -/
theorem wait_returns {pool : FuturePool σ β} {future : Nat} {r : StatusOr β}
    (h : pool.future future = some r) : Run.Returns (wait future).attempt pool r pool := by
  cases r with
  | ok v => exact ⟨[], by simp only [Run.attempt, wait, h]⟩
  | error e => exact ⟨[], by simp only [Run.attempt, wait, h]⟩

/-- Use what the tasks share. -/
def onShared (x : Exec σ α) : Exec (FuturePool σ β) α :=
  x.zoom (·.shared) fun shared pool => { pool with shared }

end FuturePool

/-! ## A client and the tasks -/

/-- The executor, the calls its client has yet to make, and the responses to those it has made. -/
structure ScheduleState (σ β : Type) where
  exec : BaseState (HandleTable Nat) (FuturePool σ β)
  calls : List (Executor.ApiCall ValueId)
  responses : List (Executor.Response ValueId)

inductive ScheduleStep {σ β : Type} (impl : ExecutorImpl (FuturePool σ β) Nat) :
    ScheduleState σ β → ScheduleState σ β → Prop where
  /-- The client makes its next call. A `Materialize` waits for its future. -/
  | call {s call calls l response exec} : s.calls = call :: calls →
      (executorBase impl).perform call s.exec = (l, .ok response exec) →
      ScheduleStep impl s ⟨exec, calls, s.responses ++ [response]⟩
  /-- A task advances. -/
  | task {s pool} : TaskPool.Step s.exec.impl pool →
      ScheduleStep impl s { s with exec := { s.exec with impl := pool } }

/-- A client with a program of calls, and tasks that run in any order over `shared`. -/
def schedule {σ β : Type} (impl : ExecutorImpl (FuturePool σ β) Nat) (shared : σ)
    (program : List (Executor.ApiCall ValueId)) : System (ScheduleState σ β) where
  init s := s = ⟨⟨HandleTable.empty, TaskPool.empty shared⟩, program, []⟩
  step := ScheduleStep impl

/-- Every step makes a call, or advances a task. -/
theorem wellFounded_scheduleStep {σ β : Type} (impl : ExecutorImpl (FuturePool σ β) Nat) :
    WellFounded fun s' s => ScheduleStep impl s s' := by
  have hwf : WellFounded (InvImage (Prod.Lex (· < ·) (· < ·)) fun s : ScheduleState σ β =>
      (s.calls.length, s.exec.impl.measure)) :=
    InvImage.wf _ (WellFounded.prod_lex Nat.lt_wfRel.wf Nat.lt_wfRel.wf)
  refine Subrelation.wf ?_ hwf
  intro s' s hstep
  cases hstep with
  | @call call calls l response exec hcalls _ =>
      refine Prod.Lex.left _ _ ?_
      rw [hcalls]
      exact Nat.lt_succ_self _
  | task htask => exact Prod.Lex.right _ htask.measure_lt

/-! ## Scheduling what a reference computes -/

variable {σ β V : Type}

/-- What the tasks are to compute, one value or error for each. -/
def valueOf (w : List (StatusOr V)) (i : Nat) : StatusOr V :=
  match w[i]? with
  | some r => r
  | none => .error (.notFound "")

theorem valueOf_eq {w : List (StatusOr V)} {i : Nat} {r : StatusOr V} (h : w[i]? = some r) :
    valueOf w i = r := by
  rw [valueOf, h]

theorem valueOf_concat_self (w : List (StatusOr V)) (r : StatusOr V) :
    valueOf (w ++ [r]) w.length = r :=
  valueOf_eq List.getElem?_concat_length

theorem valueOf_concat {w : List (StatusOr V)} {i : Nat} {r : StatusOr V} (r' : StatusOr V)
    (h : w[i]? = some r) : valueOf (w ++ [r']) i = r :=
  valueOf_eq (getElem?_concat_of_some h)

theorem valueOf_prefix (w : List (StatusOr V)) (r : StatusOr V) {i : Nat} (h : i < w.length) :
    valueOf (w ++ [r]) i = valueOf w i := by
  rw [valueOf, valueOf, List.getElem?_append_left h]

/-- Futures that are there, and what they are to hold. -/
theorem valueOf_all {w : List (StatusOr V)} {js : List Nat} {rs : List (StatusOr V)} (r' : StatusOr V)
    (h : List.Forall₂ (fun j r => w[j]? = some r) js rs) :
    (∀ j ∈ js, j < w.length) ∧ js.map (valueOf (w ++ [r'])) = rs := by
  induction h with
  | nil => exact ⟨fun _ hj => (nomatch hj), rfl⟩
  | @cons j r js rs hj _ ih =>
      refine ⟨fun k hk => ?_, ?_⟩
      · rcases List.mem_cons.mp hk with rfl | hk
        · exact getElem?_lt hj
        · exact ih.1 k hk
      · rw [List.map_cons, valueOf_concat r' hj, ih.2]

/-! ### Calls of the reference -/

/-- `x` schedules a task that computes what `y` computes on the spot; or they fail alike. Where `y` does
not end, `x` may hand out a future that stays empty. -/
inductive Launches (d : Denotation σ β V) (w : List (StatusOr V)) :
    Exec (FuturePool σ β) Nat → Exec Unit (StatusOr V) → Prop where
  | task {job y r} : Run.Returns y () r () → job.Implements d (valueOf (w ++ [r])) w.length →
      Launches d w (FuturePool.runAsync job) y
  | error (e) : Launches d w (Run.throw e) (Run.throw e)
  | stalls {x y} : Run.Stalls y () → Launches d w x y

/-- Each method of `impl` schedules what that of `ref` computes. -/
structure Schedules (d : Denotation σ β V) (Output : Option Value → Prop)
    (impl : ExecutorImpl (FuturePool σ β) Nat) (ref : ExecutorImpl Unit (StatusOr V)) : Prop where
  name : impl.executorName = ref.executorName
  createValue : ∀ {w} (val : Value),
    Launches d w (impl.createExecutorValue val) (ref.createExecutorValue val)
  createCall : ∀ {w : List (StatusOr V)} {function argument f a}, w[function]? = some f →
    Option.Rel (fun future r => w[future]? = some r) argument a →
    Launches d w (impl.createCall function argument) (ref.createCall f a)
  createStruct : ∀ {w : List (StatusOr V)} {members rs},
    List.Forall₂ (fun future r => w[future]? = some r) members rs →
    Launches d w (impl.createStruct members) (ref.createStruct rs)
  createSelection : ∀ {w : List (StatusOr V)} {source r} (index : UInt32), w[source]? = some r →
    Launches d w (impl.createSelection source index) (ref.createSelection r index)
  materialize : ∀ {n : Nat} {pool : FuturePool σ β} {future b r valPb}, pool.future future = some b →
    d.Matches pool.shared b r → d.Inv (n + 1) pool.shared → Output valPb →
    (∃ m shared, Run.Returns (impl.materialize future valPb) pool m { pool with shared } ∧
      Run.Returns (ref.materialize r valPb) () m () ∧ d.Inv n shared ∧ d.Ext pool.shared shared) ∨
    Run.Stalls (ref.materialize r valPb) ()
  blocked : ∀ {pool : FuturePool σ β} {future} (valPb), pool.future future = none →
    (impl.materialize future valPb pool).2 = .outOfFuel

/-- A future stands for what its task is to compute. -/
def futures (d : Denotation σ β V) (Output : Option Value → Prop) :
    Correspondence (FuturePool σ β) Nat Unit (StatusOr V) where
  World := List (StatusOr V)
  Le w w' := ∀ {i r}, w[i]? = some r → w'[i]? = some r
  Inv n w pool _ := pool.tasks.length = w.length ∧ pool.Sound d (valueOf w) n
  Rel w future r := w[future]? = some r
  Ready future pool := pool.future future ≠ none
  Output := Output
  Same m m' := m = m'
  lax := True
  inv_succ h := ⟨h.1, h.2.succ⟩
  rel_mono hle h := hle h
  same_refl _ := rfl

variable {d : Denotation σ β V} {Output : Option Value → Prop} {n : Nat}

theorem Launches.agree {w : List (StatusOr V)} {x : Exec (FuturePool σ β) Nat}
    {y : Exec Unit (StatusOr V)} (h : Launches d w x y) :
    Run.Agree True ((futures d Output).Inv (n + 1) w) x y ((futures d Output).Created n w)
      ((futures d Output).Inv n w) := by
  rintro pool ⟨⟩ ⟨hlen, hsound⟩
  cases h with
  | error e => exact .inr (.inl ⟨e, pool, (), .throw e pool, .throw e (), hlen, hsound.succ⟩)
  -- a future that never completes: the other side does not end
  | stalls hy => exact .inr (.inr ⟨hy, .inl trivial⟩)
  | @task job _ r hy hjob =>
      have hspawn : Run.Returns (FuturePool.runAsync job) pool pool.tasks.length (pool.spawn job).2 :=
        .step rfl
      refine .inl ⟨_, r, _, (), hspawn, hy, w ++ [r], fun h => getElem?_concat_of_some h, ⟨?_, ?_⟩, ?_⟩
      · rw [TaskPool.spawn, List.length_append, List.length_append, hlen]
        rfl
      -- the earlier tasks refer to earlier results, which are still in their places
      · have hold : pool.Sound d (valueOf (w ++ [r])) (n + 1) :=
          hsound.congr fun i hi => valueOf_prefix w r (hlen ▸ hi)
        exact hold.spawn (hlen ▸ hjob)
      · show (w ++ [r])[pool.tasks.length]? = some r
        rw [hlen]
        exact List.getElem?_concat_length

variable {impl : ExecutorImpl (FuturePool σ β) Nat} {ref : ExecutorImpl Unit (StatusOr V)}

theorem Schedules.simulates (h : Schedules d Output impl ref) :
    (futures d Output).Simulates impl ref where
  name := h.name
  createValue val := (h.createValue val).agree
  createCall hf ha := (h.createCall hf ha).agree
  createStruct hvs := (h.createStruct hvs).agree
  createSelection index hv := (h.createSelection index hv).agree
  materialize {n w future r valPb} hv houtput := by
    rintro pool ⟨⟩ ⟨⟨hlen, hsound⟩, hready⟩
    obtain ⟨b, hb⟩ := Option.ne_none_iff_exists'.mp hready
    have hmatches : d.Matches pool.shared b r := valueOf_eq hv ▸ hsound.future hb
    rcases h.materialize (n := pool.toCome + n) hb hmatches hsound.inv houtput with
      ⟨m, shared, hx, hy, hinv, hext⟩ | hy
    · exact .inl ⟨m, m, _, (), hx, hy, rfl, w, id, hlen, hsound.access hinv hext⟩
    · exact .inr (.inr ⟨hy, .inl trivial⟩)

/-- A call that returned was not blocked. -/
theorem Schedules.unblocked (h : Schedules d Output impl ref) {call : Executor.ApiCall ValueId}
    {s s' : BaseState (HandleTable Nat) (FuturePool σ β)} {response : Executor.Response ValueId}
    (hperform : Run.Returns ((executorBase impl).perform call) s response s') :
    (futures d Output).Unblocked call s := by
  cases call with
  | materialize id valPb =>
      intro future hfuture hnone
      have hlookup : (ExecutorBase.getTracked impl.executorName id).attempt s =
          ([], .ok (.ok future) s) := by
        rw [Run.attempt, ExecutorBase.getTracked, Run.step,
          show ValueTable.getTracked s.table id = _ from hfuture]
      -- waiting for a future without a result takes all fuel there is
      have hblocked : ((executorBase impl).materialize id valPb s).2 = .outOfFuel := by
        show (((ExecutorBase.getTracked impl.executorName id).attempt >>= _) s).2 = _
        rw [Run.bind_ok hlookup]
        show (ExecutorBase.onImpl (impl.materialize future valPb) s).2 = _
        have hwait := h.blocked valPb hnone
        rcases hx : impl.materialize future valPb s.impl with ⟨l, o⟩
        rw [hx] at hwait
        obtain rfl : o = .outOfFuel := hwait
        rw [ExecutorBase.onImpl, Run.zoom, hx]
      -- but the call has returned
      obtain ⟨r, s₁, ⟨l, hl⟩, -⟩ := hperform.of_bind
      rw [Run.attempt] at hl
      rcases hx : (executorBase impl).materialize id valPb s with ⟨l', o⟩
      rw [hx] at hl hblocked
      obtain rfl : o = .outOfFuel := hblocked
      cases hl
  | _ => trivial

/-! ## Every schedule -/

/-- The reference, before the first call. -/
def ExecutorImpl.initial : BaseState (HandleTable V) Unit := ⟨HandleTable.empty, ()⟩

/-- The reference answers every call of the program. -/
def ExecutorImpl.Answers (ref : ExecutorImpl Unit V) (program : List (Executor.ApiCall ValueId)) : Prop :=
  ∀ made call rest responses t, program = made ++ call :: rest →
    Run.Returns ((executorBase ref).performAll made) ExecutorImpl.initial responses t →
    ¬Run.Stalls ((executorBase ref).perform call) t

theorem ExecutorImpl.Ends.answers {ref : ExecutorImpl Unit V} (h : ref.Ends)
    (program : List (Executor.ApiCall ValueId)) : ref.Answers program :=
  fun _ call _ _ t _ _ => (h.perform call).not_stalls t

/-- It does so if it gets to the end of the program. -/
theorem ExecutorImpl.answers_of_returns {ref : ExecutorImpl Unit V}
    {program : List (Executor.ApiCall ValueId)} {responses t}
    (h : Run.Returns ((executorBase ref).performAll program) ExecutorImpl.initial responses t) :
    ref.Answers program := by
  rintro made call rest responses' t' rfl hmade hstalls
  obtain ⟨rs, rs', u, hmade', hrest, -⟩ := Executor.performAll_append.mp h
  obtain ⟨-, rfl⟩ := hmade.unique hmade'
  obtain ⟨r, u, hcall, -⟩ := hrest.of_bind
  exact hstalls.not_returns hcall

/-- The calls made so far have had the responses of the reference, and what is in the tables agrees. -/
def InStep (d : Denotation σ β V) (Output : Option Value → Prop) (ref : ExecutorImpl Unit (StatusOr V))
    (program : List (Executor.ApiCall ValueId)) (s : ScheduleState σ β) : Prop :=
  ∃ made t w, program = made ++ s.calls ∧
    Run.Returns ((executorBase ref).performAll made) ExecutorImpl.initial s.responses t ∧
    (futures d Output).Linked s.calls.length w s.exec t

/-- The reference has not got as far: the first calls have had its responses, up to one that it does not
answer. -/
def Outruns (ref : ExecutorImpl Unit (StatusOr V)) (program : List (Executor.ApiCall ValueId))
    (s : ScheduleState σ β) : Prop :=
  ∃ made call rest responses more t, program = made ++ call :: rest ++ s.calls ∧
    Run.Returns ((executorBase ref).performAll made) ExecutorImpl.initial responses t ∧
    Run.Stalls ((executorBase ref).perform call) t ∧ s.responses = responses ++ more

theorem Executor.Response.Same.eq {r r' : Executor.Response ValueId}
    (h : Executor.Response.Same (· = ·) r r') : r = r' := by
  cases h with
  | materialized h => rw [h]
  | _ => rfl

variable {program : List (Executor.ApiCall ValueId)} {s s' : ScheduleState σ β}

theorem Outruns.step (h : Outruns ref program s) (hstep : ScheduleStep impl s s') :
    Outruns ref program s' := by
  obtain ⟨made, call, rest, responses, more, t, hprogram, hmade, hstalls, hresponses⟩ := h
  cases hstep with
  | task => exact ⟨made, call, rest, responses, more, t, hprogram, hmade, hstalls, hresponses⟩
  | @call call' calls l response exec hcalls _ =>
      refine ⟨made, call, rest ++ [call'], responses, more ++ [response], t, ?_, hmade, hstalls, ?_⟩
      · rw [hprogram, hcalls]
        simp only [List.append_assoc, List.cons_append, List.nil_append]
      · rw [hresponses, List.append_assoc]

namespace InStep

/-- Whatever is done next, by the client or by a task, the executors stay in step, as long as the reference
goes on. -/
theorem step (hschedules : Schedules d Output impl ref)
    (hpermits : ∀ call ∈ program, (futures d Output).Permits call) (h : InStep d Output ref program s)
    (hstep : ScheduleStep impl s s') : InStep d Output ref program s' ∨ Outruns ref program s' := by
  obtain ⟨made, t, w, hprogram, hmade, hlinked⟩ := h
  cases hstep with
  -- a task changes nothing but its own future, which held no result
  | @task pool htask =>
      refine .inl ⟨made, t, w, hprogram, hmade, ⟨?_, ?_⟩, hlinked.2⟩
      · exact htask.length_eq.trans hlinked.1.1
      · exact (hlinked.1.2.step htask).1
  | @call call calls l response exec hcalls hperform =>
      rw [hcalls] at hprogram hlinked
      have hcall : (futures d Output).Permits call :=
        hpermits call (hprogram ▸ List.mem_append_right _ (List.mem_cons_self ..))
      rcases hschedules.simulates.perform_agree call hcall s.exec t
          ⟨hlinked, hschedules.unblocked ⟨l, hperform⟩⟩ with
        ⟨r, r', exec', t', hx, hy, hsame, w', hlinked'⟩ | ⟨_, _, _, _, _, hfalse⟩ | ⟨hstalls, -⟩
      · obtain ⟨rfl, rfl⟩ := hx.unique ⟨l, hperform⟩
        obtain rfl := hsame.eq
        refine .inl ⟨made ++ [call], t', w', ?_, Executor.performAll_concat hmade hy, hlinked'⟩
        rw [hprogram, List.append_assoc]
        rfl
      · exact hfalse.elim
      -- the reference does not end on this call, which has returned here
      · refine .inr ⟨made, call, [], s.responses, [response], t, ?_, hmade, hstalls, rfl⟩
        rw [hprogram, List.append_assoc]
        rfl

end InStep

/-! ### Runs -/

theorem inStep_or_outruns (hschedules : Schedules d Output impl ref) {shared : σ}
    (hshared : d.Inv program.length shared)
    (hpermits : ∀ call ∈ program, (futures d Output).Permits call)
    (hs : (schedule impl shared program).Reachable s) :
    InStep d Output ref program s ∨ Outruns ref program s := by
  have hinductive : (schedule impl shared program).Inductive
      fun s => InStep d Output ref program s ∨ Outruns ref program s :=
    { init := by
        rintro s rfl
        exact .inl ⟨[], ExecutorImpl.initial, [], rfl, .pure _ _, ⟨rfl, TaskPool.sound_empty hshared⟩,
          .empty⟩
      step := by
        rintro s s' (h | h) hstep
        · exact h.step hschedules hpermits hstep
        · exact .inr (h.step hstep) }
  exact hinductive.reachable hs

/-- **What the client is told.** Every call has had the response of the reference, as far as that goes. -/
theorem foretold (hschedules : Schedules d Output impl ref) {shared : σ}
    (hshared : d.Inv program.length shared)
    (hpermits : ∀ call ∈ program, (futures d Output).Permits call)
    (hs : (schedule impl shared program).Reachable s) {made rest : List (Executor.ApiCall ValueId)}
    {responses t} (hprogram : program = made ++ rest ++ s.calls)
    (hmade : Run.Returns ((executorBase ref).performAll made) ExecutorImpl.initial responses t) :
    responses = s.responses.take made.length := by
  have htake : ∀ {more : List (Executor.Response ValueId)}, s.responses = responses ++ more →
      responses = s.responses.take made.length := by
    intro more hmore
    rw [hmore, ← Executor.length_of_performAll hmade, List.take_left']
    rfl
  rcases inStep_or_outruns hschedules hshared hpermits hs with
    ⟨made', t', w, hprogram', hmade', -⟩ | ⟨made', call, more, responses', rs, t', hprogram', hmade', hstalls, hrs⟩
  · obtain rfl : made ++ rest = made' := List.append_cancel_right (hprogram.symm.trans hprogram')
    obtain ⟨rs, rs', u, hrs, -, hresponses⟩ := Executor.performAll_append.mp hmade'
    obtain ⟨rfl, -⟩ := hmade.unique hrs
    exact htake hresponses
  · have hcalls : made ++ rest = made' ++ call :: more :=
      List.append_cancel_right (hprogram.symm.trans hprogram')
    rcases List.append_eq_append_iff.mp hcalls with ⟨k, rfl, -⟩ | ⟨k, rfl, hk⟩
    · obtain ⟨rs₁, rs₂, u, hrs₁, -, rfl⟩ := Executor.performAll_append.mp hmade'
      obtain ⟨rfl, -⟩ := hmade.unique hrs₁
      exact htake (hrs.trans (List.append_assoc ..))
    · -- the reference would have answered the call
      cases k with
      | nil =>
          rw [List.append_nil] at hmade
          obtain ⟨rfl, -⟩ := hmade.unique hmade'
          exact htake hrs
      | cons call' k =>
          obtain ⟨rfl, -⟩ := List.cons.inj hk
          obtain ⟨_, _, u, hmade₁, hrest, -⟩ := Executor.performAll_append.mp hmade
          obtain ⟨-, rfl⟩ := hmade'.unique hmade₁
          obtain ⟨_, _, hcall, -⟩ := hrest.of_bind
          exact (hstalls.not_returns hcall).elim

namespace InStep

/-- A reference that answers every call is not outrun. -/
theorem reachable (hschedules : Schedules d Output impl ref) {shared : σ}
    (hshared : d.Inv program.length shared)
    (hpermits : ∀ call ∈ program, (futures d Output).Permits call) (hanswers : ref.Answers program)
    (hs : (schedule impl shared program).Reachable s) : InStep d Output ref program s := by
  rcases inStep_or_outruns hschedules hshared hpermits hs with h | h
  · exact h
  · obtain ⟨made, call, rest, responses, more, t, hprogram, hmade, hstalls, -⟩ := h
    exact (hanswers _ _ _ _ _ (hprogram.trans (List.append_assoc ..)) hmade hstalls).elim

/-- As long as there is a call to make or a task to finish, something can be done. -/
theorem progress (hschedules : Schedules d Output impl ref)
    (hpermits : ∀ call ∈ program, (futures d Output).Permits call) (hanswers : ref.Answers program)
    (h : InStep d Output ref program s) (hleft : s.calls ≠ [] ∨ ∃ i, s.exec.impl.Pending i) :
    ∃ s', ScheduleStep impl s s' := by
  obtain ⟨made, t, w, hprogram, hmade, hlinked⟩ := h
  by_cases hpending : ∃ i, s.exec.impl.Pending i
  · obtain ⟨i, hi⟩ := hpending
    obtain ⟨pool, hpool⟩ := hlinked.1.2.progress hi
    exact ⟨_, .task hpool⟩
  · obtain ⟨call, calls, hcalls⟩ := List.exists_cons_of_ne_nil (hleft.resolve_right hpending)
    rw [hcalls] at hprogram hlinked
    -- with every task finished, no call blocks
    have hunblocked : (futures d Output).Unblocked call s.exec := by
      cases call with
      | materialize id valPb =>
          intro future hfuture hnone
          rcases hlinked.2.cases id with ⟨hnot, -⟩ | ⟨future', r, hs, -, hr⟩
          · rw [hfuture] at hnot
            cases hnot
          · obtain rfl : future = future' := Option.some.inj (hfuture.symm.trans hs)
            have hlt : future < s.exec.impl.tasks.length := hlinked.1.1.symm ▸ getElem?_lt hr
            exact hpending ⟨future, hlt, hnone⟩
      | _ => trivial
    have hcall : (futures d Output).Permits call :=
      hpermits call (hprogram ▸ List.mem_append_right _ (List.mem_cons_self ..))
    rcases hschedules.simulates.perform_agree call hcall s.exec t ⟨hlinked, hunblocked⟩ with
      ⟨r, _, exec', _, ⟨l, hl⟩, -⟩ | ⟨_, _, _, _, _, hfalse⟩ | ⟨hstalls, -⟩
    · exact ⟨_, .call hcalls hl⟩
    · exact hfalse.elim
    · exact (hanswers _ _ _ _ _ hprogram hmade hstalls).elim

/-- Where nothing can be done, every call is made and every task has finished. -/
theorem finished (hschedules : Schedules d Output impl ref)
    (hpermits : ∀ call ∈ program, (futures d Output).Permits call) (hanswers : ref.Answers program)
    (h : InStep d Output ref program s) (hstuck : ∀ s', ¬ScheduleStep impl s s') :
    s.calls = [] ∧ ∀ i, ¬s.exec.impl.Pending i := by
  by_contra hleft
  obtain ⟨s', hs'⟩ := h.progress hschedules hpermits hanswers (by
    by_contra hnone
    push Not at hnone
    exact hleft hnone)
  exact hstuck s' hs'

end InStep

end GenC
