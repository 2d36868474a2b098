import GenC.Lib.SharedPointers
import GenC.Lib.Transition
import GenC.Runtime.HandleAccounting

/-!
# The lifetime of remote references

`runtime/remote_executor.cc` once more, with the pointers that `Runtime/RemoteExecutor.lean` leaves out.
A reference of the server is kept in an `ExecutorValue`, whose destructor schedules a task that disposes of
it. What shares the `ExecutorValue` is the task that got it from the server; the task is shared by the table
of the executor, by the calls in progress, by the tasks whose lambdas captured it, and by its own callback.

Any number of threads call the executor, and each task runs on a thread of its own. A step is what one
thread does between two moments at which another may come in between; a pointer that goes out of scope is
dropped in a step of its own, and so is each of those that were held by what this destroys.

**`handle_lifetime`**: no request names a reference that is to be disposed of, and no reference is disposed
of more often than the server has handed it out.
-/

namespace GenC

open Lib

/-- The references that a request makes use of. -/
def ExecutorRequest.uses : ExecutorRequest → List ValueRef
  | .createValue _ => []
  | .createCall request => request.functionRef.toList ++ request.argumentRef.toList
  | .createStruct request => request.elementRef
  | .createSelection request => request.sourceRef.toList
  | .materialize request => request.valueRef.toList
  | .dispose _ => []

/-- The references that a request disposes of. -/
def ExecutorRequest.disposes : ExecutorRequest → List ValueRef
  | .dispose request => request.valueRef
  | _ => []

namespace RemoteLifetime

/-! ## Tasks and values -/

/-- What the methods of `RemoteExecutor` schedule. -/
inductive Lambda where
  | createValue (valPb : Value)
  | createCall
  | createStruct
  | createSelection (index : UInt32)

namespace Lambda

/-- What is sent, once the references of what was captured are there. -/
def request : Lambda → List ValueRef → ExecutorRequest
  | createValue valPb, _ => .createValue { value := some valPb }
  | createCall, refs => .createCall { functionRef := refs[0]?, argumentRef := refs[1]? }
  | createStruct, refs => .createStruct { elementRef := refs }
  | createSelection index, refs => .createSelection { sourceRef := refs[0]?, index := index.toInt32 }

/-- Whether what is waited for after `refs` stays in scope until the lambda returns. `func_value` and
`source_value` do; `arg_value` and `element_value` do not. -/
def keeps : Lambda → List ValueRef → Bool
  | createValue _, _ => true
  | createCall, refs => refs.isEmpty
  | createStruct, _ => false
  | createSelection _, _ => true

end Lambda

/-- Where the lambda of a task is. The variables of type `shared_ptr<ExecutorValue>` that are in scope are
listed first. -/
inductive Phase where
  | scheduled
  /-- `refs` are in the request, and `rest` is to be waited for. -/
  | waiting (locals : List Nat) (refs : List ValueRef) (rest : List Nat)
  /-- `Wait` has returned a value. -/
  | got (value : Nat) (locals : List Nat) (refs : List ValueRef) (rest : List Nat)
  /-- The request is with the server. -/
  | calling (locals : List Nat) (refs : List ValueRef)
  | returning (result : StatusOr Nat)
  | finished (result : StatusOr Nat)

/-- The pointer in a result. -/
def resultPointers : StatusOr Nat → List Nat
  | .ok value => [value]
  | .error _ => []

namespace Phase

def held : Phase → List Nat
  | scheduled => []
  | waiting locals _ _ => locals
  | got value locals _ _ => value :: locals
  | calling locals _ => locals
  | returning result => resultPointers result
  | finished result => resultPointers result

/-- The lambda has been entered, and has not returned. -/
def Running : Phase → Prop
  | scheduled => False
  | finished _ => False
  | _ => True

end Phase

/-- `Task`, with what its lambda captured. -/
structure RemoteTask where
  lambda : Lambda
  captured : List Nat
  phase : Phase

/-- What is shared. -/
inductive Object where
  | task (task : RemoteTask)
  | value (ref : ValueRef)

namespace Object

/-- The pointers among the members. -/
def fields : Object → List Nat
  | task t => t.captured ++ t.phase.held
  | value _ => []

def ref? : Object → Option ValueRef
  | task _ => none
  | value ref => some ref

end Object

/-! ### What is sent and scheduled -/

/-- What can be seen from outside. -/
inductive Event where
  /-- The server has handed out a reference. -/
  | returned (ref : ValueRef)
  /-- A task has been scheduled that is to dispose of a reference. -/
  | scheduled (ref : ValueRef)
  | sent (request : ExecutorRequest)

namespace Event

def returned? : Event → Option ValueRef
  | returned ref => some ref
  | _ => none

def scheduled? : Event → Option ValueRef
  | scheduled ref => some ref
  | _ => none

def disposes : Event → List ValueRef
  | sent request => request.disposes
  | _ => []

end Event

/-- The references that the server has handed out. -/
def returnedRefs (log : List Event) : List ValueRef := log.filterMap Event.returned?

/-- The references that are to be disposed of, or have been. -/
def scheduledRefs (log : List Event) : List ValueRef := log.filterMap Event.scheduled?

/-- The references that the server has been asked to dispose of. -/
def disposedRefs (log : List Event) : List ValueRef := log.flatMap Event.disposes

theorem returnedRefs_append (log events : List Event) :
    returnedRefs (log ++ events) = returnedRefs log ++ returnedRefs events :=
  List.filterMap_append

theorem scheduledRefs_append (log events : List Event) :
    scheduledRefs (log ++ events) = scheduledRefs log ++ scheduledRefs events :=
  List.filterMap_append

theorem disposedRefs_append (log events : List Event) :
    disposedRefs (log ++ events) = disposedRefs log ++ disposedRefs events :=
  List.flatMap_append

/-! ## Tasks step by step -/

/-- A step of the task at `p`: the heap after it, the variables that went out of scope, and what could be
seen. An error may be that of the future that was waited for, or of the waiting itself. The copy of a future
that `Wait` is given is left out: the captured one outlives it. -/
inductive TaskStep (heap : SharedHeap Object) (p : Nat) :
    RemoteTask → SharedHeap Object → List Nat → List Event → Prop where
  | start {lambda captured} :
      TaskStep heap p ⟨lambda, captured, .scheduled⟩
        (heap.assign p (.task ⟨lambda, captured, .waiting [] [] captured⟩)) [] []
  | wait {lambda captured locals refs j rest lambda' captured' v} :
      heap.object? j = some (.task ⟨lambda', captured', .finished (.ok v)⟩) →
      TaskStep heap p ⟨lambda, captured, .waiting locals refs (j :: rest)⟩
        ((heap.copy v).assign p (.task ⟨lambda, captured, .got v locals refs rest⟩)) [] []
  | waitFails {lambda captured locals refs j rest} (e : Status) :
      TaskStep heap p ⟨lambda, captured, .waiting locals refs (j :: rest)⟩
        (heap.assign p (.task ⟨lambda, captured, .returning (.error e)⟩)) locals []
  | keep {lambda captured v locals refs rest ref} : heap.object? v = some (.value ref) →
      lambda.keeps refs = true →
      TaskStep heap p ⟨lambda, captured, .got v locals refs rest⟩
        (heap.assign p (.task ⟨lambda, captured, .waiting (v :: locals) (refs ++ [ref]) rest⟩)) [] []
  | leave {lambda captured v locals refs rest ref} : heap.object? v = some (.value ref) →
      lambda.keeps refs = false →
      TaskStep heap p ⟨lambda, captured, .got v locals refs rest⟩
        (heap.assign p (.task ⟨lambda, captured, .waiting locals (refs ++ [ref]) rest⟩)) [v] []
  | send {lambda captured locals refs} :
      TaskStep heap p ⟨lambda, captured, .waiting locals refs []⟩
        (heap.assign p (.task ⟨lambda, captured, .calling locals refs⟩)) [] [.sent (lambda.request refs)]
  | reply {lambda captured locals refs} (ref : ValueRef) :
      TaskStep heap p ⟨lambda, captured, .calling locals refs⟩
        ((heap.make (.value ref)).assign p (.task ⟨lambda, captured, .returning (.ok heap.fresh)⟩)) locals
        [.returned ref]
  | replyFails {lambda captured locals refs} (e : Status) :
      TaskStep heap p ⟨lambda, captured, .calling locals refs⟩
        (heap.assign p (.task ⟨lambda, captured, .returning (.error e)⟩)) locals []
  | finish {lambda captured result} :
      TaskStep heap p ⟨lambda, captured, .returning result⟩
        (heap.assign p (.task ⟨lambda, captured, .finished result⟩)) [] []

/-! ## The executor and its callers -/

/-- A call of the executor in progress. -/
inductive Call where
  /-- Getting tracked values, one after the other. -/
  | lookingUp (call : Executor.ApiCall UInt64) (futures : List Nat) (ids : List UInt64)
  /-- A task has been scheduled, and its future is to be tracked. -/
  | tracking (future : Nat)
  /-- `Wait` has returned a value, which is to be materialized. -/
  | waited (future value : Nat)
  /-- The request to materialize is with the server. -/
  | materializing (future value : Nat)

def Call.held : Call → List Nat
  | lookingUp _ futures _ => futures
  | tracking future => [future]
  | waited future value => [future, value]
  | materializing future value => [future, value]

/-- The ids in a call, in the order in which they are looked up. -/
def operands : Executor.ApiCall UInt64 → List UInt64
  | .createValue _ => []
  | .createCall function argument => function :: argument.toList
  | .createStruct members => members
  | .createSelection source _ => [source]
  | .materialize value _ => [value]
  | .dispose value => [value]

/-- What a call schedules. -/
def lambda? : Executor.ApiCall UInt64 → Option Lambda
  | .createValue val => some (.createValue val)
  | .createCall _ _ => some .createCall
  | .createStruct _ => some .createStruct
  | .createSelection _ index => some (.createSelection index)
  | .materialize _ _ => none
  | .dispose _ => none

structure State where
  heap : SharedHeap Object
  trackedValues : List (UInt64 × Nat)
  nextValueId : UInt64
  calls : List Call
  /-- The tasks that the callbacks of the concurrency interface hold. -/
  callbacks : List Nat
  /-- Pointers that have gone out of scope, and are to be dropped. -/
  leaving : List Nat
  /-- The references of tasks that are to dispose of them, and have not run. -/
  disposals : List ValueRef
  /-- No code reads it. -/
  log : List Event

namespace State

def init : State := ⟨[], [], 0, [], [], [], [], []⟩

/-- The pointers that are held outside of the heap. -/
def roots (s : State) : List Nat :=
  s.trackedValues.map Prod.snd ++ s.calls.flatMap Call.held ++ s.callbacks ++ s.leaving

end State

/-! ### Steps -/

inductive Step : State → State → Prop where
  /-- A method is entered. -/
  | call {s} (call : Executor.ApiCall UInt64) : (∀ id, call ≠ .dispose id) →
      Step s { s with calls := .lookingUp call [] (operands call) :: s.calls }
  | getTracked {s before after call futures id ids p} :
      s.calls = before ++ .lookingUp call futures (id :: ids) :: after → (id, p) ∈ s.trackedValues →
      Step s { s with
        heap := s.heap.copy p
        calls := before ++ .lookingUp call (futures ++ [p]) ids :: after }
  | notFound {s before after call futures id ids} :
      s.calls = before ++ .lookingUp call futures (id :: ids) :: after →
      id ∉ s.trackedValues.map Prod.fst →
      Step s { s with calls := before ++ after, leaving := futures ++ s.leaving }
  /-- `RunAsync`: the task is held by its callback, and as a future. -/
  | runAsync {s before after call futures lambda} :
      s.calls = before ++ .lookingUp call futures [] :: after → lambda? call = some lambda →
      Step s { s with
        heap := (s.heap.make (.task ⟨lambda, futures, .scheduled⟩)).copy s.heap.fresh
        calls := before ++ .tracking s.heap.fresh :: after
        callbacks := s.heap.fresh :: s.callbacks }
  | trackValue {s before after future} : s.calls = before ++ .tracking future :: after →
      s.nextValueId ∉ s.trackedValues.map Prod.fst →
      Step s { s with
        trackedValues := (s.nextValueId, future) :: s.trackedValues
        nextValueId := s.nextValueId + 1
        calls := before ++ after }
  /-- The ids have come round to one that is taken: `emplace` does nothing. -/
  | trackTaken {s before after future} : s.calls = before ++ .tracking future :: after →
      s.nextValueId ∈ s.trackedValues.map Prod.fst →
      Step s { s with
        nextValueId := s.nextValueId + 1
        calls := before ++ after
        leaving := future :: s.leaving }
  | wait {s before after id valuePb future lambda captured value} :
      s.calls = before ++ .lookingUp (.materialize id valuePb) [future] [] :: after →
      s.heap.object? future = some (.task ⟨lambda, captured, .finished (.ok value)⟩) →
      Step s { s with
        heap := s.heap.copy value
        calls := before ++ .waited future value :: after }
  | waitFails {s before after id valuePb future} :
      s.calls = before ++ .lookingUp (.materialize id valuePb) [future] [] :: after →
      Step s { s with calls := before ++ after, leaving := future :: s.leaving }
  | materialize {s before after future value ref} : s.calls = before ++ .waited future value :: after →
      s.heap.object? value = some (.value ref) →
      Step s { s with
        calls := before ++ .materializing future value :: after
        log := s.log ++ [.sent (.materialize { valueRef := some ref })] }
  | materialized {s before after future value} :
      s.calls = before ++ .materializing future value :: after →
      Step s { s with calls := before ++ after, leaving := [future, value] ++ s.leaving }
  /-- `Dispose` of an id that is tracked. -/
  | dispose {s before after id future} : s.trackedValues = before ++ (id, future) :: after →
      Step s { s with trackedValues := before ++ after, leaving := future :: s.leaving }
  /-- The executor is destroyed, and its table with it. -/
  | close {s} :
      Step s { s with trackedValues := [], leaving := s.trackedValues.map Prod.snd ++ s.leaving }
  | task {s p t heap out events} : s.heap.object? p = some (.task t) →
      (t.phase = .scheduled → p ∈ s.callbacks) → TaskStep s.heap p t heap out events →
      Step s { s with heap, leaving := out ++ s.leaving, log := s.log ++ events }
  /-- A callback is destroyed after it has run, or unrun if it could not be scheduled. -/
  | release {s before after p t} : s.callbacks = before ++ p :: after →
      s.heap.object? p = some (.task t) → ¬t.phase.Running →
      Step s { s with callbacks := before ++ after, leaving := p :: s.leaving }
  | drop {s before after p} : s.leaving = before ++ p :: after → 1 < s.heap.useCount p →
      Step s { s with heap := s.heap.drop p, leaving := before ++ after }
  | destroyTask {s before after p t} : s.leaving = before ++ p :: after → s.heap.useCount p = 1 →
      s.heap.object? p = some (.task t) →
      Step s { s with heap := s.heap.drop p, leaving := (Object.task t).fields ++ (before ++ after) }
  /-- `~ExecutorValue`. -/
  | destroyValue {s before after p ref} : s.leaving = before ++ p :: after → s.heap.useCount p = 1 →
      s.heap.object? p = some (.value ref) →
      Step s { s with
        heap := s.heap.drop p
        leaving := before ++ after
        disposals := ref :: s.disposals
        log := s.log ++ [.scheduled ref] }
  /-- A task that is to dispose of a reference runs. -/
  | disposal {s before after ref} : s.disposals = before ++ ref :: after →
      Step s { s with
        disposals := before ++ after
        log := s.log ++ [.sent (.dispose { valueRef := [ref] })] }
  /-- It could not be scheduled. -/
  | disposalFails {s before after ref} : s.disposals = before ++ ref :: after →
      Step s { s with disposals := before ++ after }

/-- The executor, with any number of threads that call it. -/
def remoteExecutor : System State where
  init s := s = .init
  step := Step

/-! ## What a task has waited for -/

variable {heap heap' : SharedHeap Object}

/-- The task at `j` has got the value at `v`. -/
def HasResult (heap : SharedHeap Object) (j v : Nat) : Prop :=
  ∃ lambda captured, heap.object? j = some (.task ⟨lambda, captured, .finished (.ok v)⟩)

/-- The task at `j` has got a value, of which `ref` is the reference. -/
def HasRef (heap : SharedHeap Object) (j : Nat) (ref : ValueRef) : Prop :=
  ∃ v, HasResult heap j v ∧ heap.object? v = some (.value ref)

/-- The references in a request are those of what was captured, as far as the lambda has come. -/
def RemoteTask.Sound (heap : SharedHeap Object) (t : RemoteTask) : Prop :=
  match t.phase with
  | .waiting _ refs rest => ∃ done, t.captured = done ++ rest ∧ List.Forall₂ (HasRef heap) done refs
  | .got v _ refs rest => ∃ done j, t.captured = done ++ j :: rest ∧ HasResult heap j v ∧
      List.Forall₂ (HasRef heap) done refs
  | .calling _ refs => List.Forall₂ (HasRef heap) t.captured refs
  | _ => True

/-- What is not changed any more. -/
def Object.Settled : Object → Prop
  | .task t => ∃ result, t.phase = .finished result
  | .value _ => True

/-- What is settled in `heap` is the same in `heap'`. -/
def Keeps (heap heap' : SharedHeap Object) : Prop :=
  ∀ p o, o.Settled → heap.object? p = some o → heap'.object? p = some o

theorem HasResult.keeps {j v : Nat} (hkeeps : Keeps heap heap') (h : HasResult heap j v) :
    HasResult heap' j v := by
  obtain ⟨lambda, captured, hj⟩ := h
  exact ⟨lambda, captured, hkeeps j _ ⟨_, rfl⟩ hj⟩

theorem HasRef.keeps {j : Nat} {ref : ValueRef} (hkeeps : Keeps heap heap') (h : HasRef heap j ref) :
    HasRef heap' j ref := by
  obtain ⟨v, hj, hv⟩ := h
  exact ⟨v, hj.keeps hkeeps, hkeeps v _ trivial hv⟩

theorem RemoteTask.Sound.keeps {t : RemoteTask} (hkeeps : Keeps heap heap') (h : t.Sound heap) :
    t.Sound heap' := by
  obtain ⟨lambda, captured, phase⟩ := t
  cases phase with
  | waiting locals refs rest =>
      obtain ⟨done, hdone, hrefs⟩ := h
      exact ⟨done, hdone, hrefs.imp fun _ _ => HasRef.keeps hkeeps⟩
  | got v locals refs rest =>
      obtain ⟨done, j, hdone, hj, hrefs⟩ := h
      exact ⟨done, j, hdone, hj.keeps hkeeps, hrefs.imp fun _ _ => HasRef.keeps hkeeps⟩
  | calling locals refs => exact List.Forall₂.imp (fun _ _ => HasRef.keeps hkeeps) h
  | scheduled => trivial
  | returning result => trivial
  | finished result => trivial

theorem keeps_make (o : Object) (heap : SharedHeap Object) : Keeps heap (heap.make o) :=
  fun _ _ _ h => SharedHeap.object_make o h

theorem keeps_assign {p : Nat} {o o' : Object} (hp : heap.object? p = some o) (ho : ¬o.Settled) :
    Keeps heap (heap.assign p o') := by
  intro q o₁ hsettled hq
  have hne : q ≠ p := by
    rintro rfl
    cases hp.symm.trans hq
    exact ho hsettled
  rw [SharedHeap.object_assign_of_ne o' hne]
  exact hq

/-! ## The invariant of the heap -/

/-- The pointers are counted, lambdas that run are held by a callback, requests are made of what was
captured, and the values that are gone are those that are to be disposed of. -/
structure HeapInv (heap : SharedHeap Object) (roots callbacks : List Nat) (returned scheduled : List ValueRef) :
    Prop where
  counted : heap.Counted Object.fields roots
  running : ∀ {p t}, heap.object? p = some (.task t) → t.phase.Running → p ∈ callbacks
  sound : ∀ {p t}, heap.object? p = some (.task t) → t.Sound heap
  returned : heap.objects.filterMap Object.ref? = returned
  scheduled : scheduled.Perm (heap.gone.filterMap Object.ref?)

namespace HeapInv

variable {roots roots' callbacks callbacks' : List Nat} {returned scheduled : List ValueRef} {p : Nat}
  {t t' : RemoteTask} {ref : ValueRef}

/-- Where objects are the same. -/
theorem of_objects (h : HeapInv heap roots callbacks returned scheduled)
    (hcounted : heap'.Counted Object.fields roots') (hobjects : ∀ q, heap'.object? q = heap.object? q)
    (hreturned : heap'.objects = heap.objects)
    {scheduled' : List ValueRef} (hscheduled : scheduled'.Perm (heap'.gone.filterMap Object.ref?)) :
    HeapInv heap' roots' callbacks returned scheduled' where
  counted := hcounted
  running ht := h.running ((hobjects _).symm.trans ht)
  sound ht := (h.sound ((hobjects _).symm.trans ht)).keeps fun q _ _ hq => (hobjects q).trans hq
  returned := hreturned ▸ h.returned
  scheduled := hscheduled

theorem copy (h : HeapInv heap roots callbacks returned scheduled) (hp : heap.Live p) :
    HeapInv (heap.copy p) (p :: roots) callbacks returned scheduled :=
  h.of_objects (h.counted.copy hp) (fun q => SharedHeap.object_copy p q heap) (SharedHeap.objects_copy p heap)
    ((SharedHeap.gone_copy hp).symm ▸ h.scheduled)

theorem drop (h : HeapInv heap (p :: roots) callbacks returned scheduled) (hp : 1 < heap.useCount p) :
    HeapInv (heap.drop p) roots callbacks returned scheduled :=
  h.of_objects (h.counted.drop hp) (fun q => SharedHeap.object_drop p q heap) (SharedHeap.objects_drop p heap)
    ((SharedHeap.gone_drop hp).symm ▸ h.scheduled)

theorem destroyTask (h : HeapInv heap (p :: roots) callbacks returned scheduled) (hone : heap.useCount p = 1)
    (hp : heap.object? p = some (.task t)) :
    HeapInv (heap.drop p) ((Object.task t).fields ++ roots) callbacks returned scheduled :=
  h.of_objects (h.counted.destroy hone hp) (fun q => SharedHeap.object_drop p q heap)
    (SharedHeap.objects_drop p heap)
    (h.scheduled.trans ((SharedHeap.gone_destroy hone hp).filterMap Object.ref?).symm)

theorem destroyValue (h : HeapInv heap (p :: roots) callbacks returned scheduled) (hone : heap.useCount p = 1)
    (hp : heap.object? p = some (.value ref)) :
    HeapInv (heap.drop p) roots callbacks returned (scheduled ++ [ref]) := by
  refine h.of_objects (h.counted.destroy hone hp) (fun q => SharedHeap.object_drop p q heap)
    (SharedHeap.objects_drop p heap) ?_
  have hgone := (SharedHeap.gone_destroy hone hp).filterMap Object.ref?
  refine List.Perm.trans ?_ hgone.symm
  exact (List.perm_append_singleton ref scheduled).trans (h.scheduled.cons ref)

/-! ### Objects made and assigned -/

/-- What is made is not running, and asks for nothing. -/
theorem make {o : Object} (h : HeapInv heap (o.fields ++ roots) callbacks returned scheduled)
    (ho : ∀ t, o = .task t → t.phase = .scheduled) :
    HeapInv (heap.make o) (heap.fresh :: roots) callbacks (returned ++ o.ref?.toList) scheduled := by
  -- a task of the longer heap is an old one, or the new one, which has not started
  have hcases : ∀ {p t}, (heap.make o).object? p = some (.task t) →
      heap.object? p = some (.task t) ∨ t.phase = .scheduled := by
    intro p t ht
    rcases SharedHeap.of_object_make ht with hold | ⟨-, rfl⟩
    · exact .inl hold
    · exact .inr (ho t rfl)
  refine ⟨h.counted.make, fun ht hrunning => ?_, fun {p t} ht => ?_, ?_, ?_⟩
  · rcases hcases ht with hold | hphase
    · exact h.running hold hrunning
    · rw [hphase] at hrunning
      exact hrunning.elim
  · rcases hcases ht with hold | hphase
    · exact (h.sound hold).keeps (keeps_make o heap)
    · obtain ⟨lambda, captured, phase⟩ := t
      cases hphase
      trivial
  · rw [SharedHeap.objects_make, List.filterMap_append, h.returned]
    cases o <;> rfl
  · rw [SharedHeap.gone_make]
    exact h.scheduled

/-- A task that has not finished goes on. -/
theorem assign (h : HeapInv heap roots callbacks returned scheduled) (hp : heap.object? p = some (.task t))
    (hlive : heap.Live p) (ht : ∀ result, t.phase ≠ .finished result)
    (hrunning : t'.phase.Running → p ∈ callbacks) (hsound : t'.Sound heap)
    (hperm : ((Object.task t').fields ++ roots').Perm ((Object.task t).fields ++ roots)) :
    HeapInv (heap.assign p (.task t')) roots' callbacks returned scheduled := by
  have hkeeps : Keeps heap (heap.assign p (.task t')) :=
    keeps_assign hp fun ⟨result, hresult⟩ => ht result hresult
  -- only the task at `p` is another one now
  have hcases : ∀ {q t₁}, (heap.assign p (.task t')).object? q = some (.task t₁) →
      q = p ∧ t₁ = t' ∨ heap.object? q = some (.task t₁) := by
    intro q t₁ hq
    by_cases hqp : q = p
    · subst hqp
      rw [SharedHeap.object_assign _ hp] at hq
      cases hq
      exact .inl ⟨rfl, rfl⟩
    · rw [SharedHeap.object_assign_of_ne _ hqp] at hq
      exact .inr hq
  refine ⟨h.counted.assign hlive hp hperm, fun hq hphase => ?_, fun hq => ?_, ?_, ?_⟩
  · rcases hcases hq with ⟨rfl, rfl⟩ | hold
    · exact hrunning hphase
    · exact h.running hold hphase
  · rcases hcases hq with ⟨rfl, rfl⟩ | hold
    · exact hsound.keeps hkeeps
    · exact (h.sound hold).keeps hkeeps
  · rw [SharedHeap.filterMap_objects_assign (b := .task t') hp rfl]
    exact h.returned
  · rw [SharedHeap.gone_assign _ hlive]
    exact h.scheduled

/-- As long as a value is held, there is one disposal less than there are references to it. -/
theorem count_scheduled_lt (h : HeapInv heap roots callbacks returned scheduled) (hlive : heap.Live p)
    (hp : heap.object? p = some (.value ref)) : scheduled.count ref < returned.count ref := by
  rw [← h.returned, h.scheduled.count_eq]
  exact SharedHeap.count_gone_lt hlive hp rfl

theorem count_scheduled_le (h : HeapInv heap roots callbacks returned scheduled) (ref : ValueRef) :
    scheduled.count ref ≤ returned.count ref := by
  rw [← h.returned, h.scheduled.count_eq]
  exact ((SharedHeap.gone_sublist heap).filterMap Object.ref?).count_le ref

/-- A task that runs is there. -/
theorem live_of_running (h : HeapInv heap roots callbacks returned scheduled)
    (hcallbacks : ∀ q ∈ callbacks, q ∈ roots) (hp : heap.object? p = some (.task t)) (ht : t.phase.Running) :
    heap.Live p :=
  h.counted.live_of_mem (hcallbacks p (h.running hp ht))

/-- A lambda that runs holds what its request names: its callback holds the task, the task what was captured,
and each of these the value that it has got. -/
theorem live_of_hasRef (h : HeapInv heap roots callbacks returned scheduled)
    (hcallbacks : ∀ q ∈ callbacks, q ∈ roots) (hp : heap.object? p = some (.task t))
    (hrunning : t.phase.Running) {j : Nat} (hj : j ∈ t.captured) (href : HasRef heap j ref) :
    ∃ v, heap.Live v ∧ heap.object? v = some (.value ref) := by
  obtain ⟨v, ⟨lambda, captured, hv⟩, hvalue⟩ := href
  have hlive := h.live_of_running hcallbacks hp hrunning
  have hlive' := h.counted.live_of_field hlive hp (List.mem_append_left _ hj)
  have hmem : v ∈ (Object.task ⟨lambda, captured, .finished (.ok v)⟩).fields :=
    List.mem_append_right _ (List.mem_singleton_self v)
  exact ⟨v, h.counted.live_of_field hlive' hv hmem, hvalue⟩

end HeapInv

/-! ## A step of a task -/

section

variable {roots callbacks : List Nat} {returned scheduled : List ValueRef} {p : Nat} {t : RemoteTask}
  {out : List Nat} {events : List Event}

/-- A lambda that runs goes on, or returns. -/
theorem HeapInv.goOn (h : HeapInv heap roots callbacks returned scheduled)
    (hcallbacks : ∀ q ∈ callbacks, q ∈ roots) {lambda : Lambda} {captured roots' : List Nat}
    {phase phase' : Phase} (hp : heap.object? p = some (.task ⟨lambda, captured, phase⟩)) (hrunning : phase.Running)
    (hsound : RemoteTask.Sound heap ⟨lambda, captured, phase'⟩)
    (hcounts : ∀ q, phase'.held.count q + roots'.count q = phase.held.count q + roots.count q) :
    HeapInv (heap.assign p (.task ⟨lambda, captured, phase'⟩)) roots' callbacks returned scheduled := by
  refine h.assign hp (h.live_of_running hcallbacks hp hrunning) ?_ (fun _ => h.running hp hrunning) hsound ?_
  · intro result hphase
    obtain rfl : phase = .finished result := hphase
    exact hrunning
  · refine List.perm_iff_count.mpr fun q => ?_
    have hq := hcounts q
    simp only [Object.fields, List.count_append]
    omega

theorem TaskStep.inv (hstep : TaskStep heap p t heap' out events)
    (h : HeapInv heap roots callbacks returned scheduled) (hcallbacks : ∀ q ∈ callbacks, q ∈ roots)
    (hp : heap.object? p = some (.task t)) (hstart : t.phase = .scheduled → p ∈ callbacks) :
    HeapInv heap' (out ++ roots) callbacks (returned ++ returnedRefs events) scheduled := by
  have hsound := h.sound hp
  cases hstep with
  | @start lambda captured =>
      have hmem := hstart rfl
      rw [returnedRefs, List.filterMap_nil, List.append_nil]
      have hlive := h.counted.live_of_mem (hcallbacks p hmem)
      exact h.assign hp hlive nofun (fun _ => hmem) ⟨[], rfl, .nil⟩ (List.Perm.refl _)
  -- the value that is waited for is copied: the task that has it keeps its own reference
  | @wait lambda captured locals refs j rest lambda' captured' v hj =>
      obtain ⟨done, hcaptured, hrefs⟩ := hsound
      have hjmem : j ∈ captured := by
        rw [show captured = _ from hcaptured]
        exact List.mem_append_right _ (List.mem_cons_self ..)
      have hplive := h.live_of_running hcallbacks hp trivial
      have hjlive := h.counted.live_of_field hplive hp (List.mem_append_left _ hjmem)
      have hvmem : v ∈ (Object.task ⟨lambda', captured', .finished (.ok v)⟩).fields :=
        List.mem_append_right _ (List.mem_singleton_self v)
      have hcopy := h.copy (h.counted.live_of_field hjlive hj hvmem)
      rw [returnedRefs, List.filterMap_nil, List.append_nil]
      refine hcopy.goOn (fun q hq => List.mem_cons_of_mem _ (hcallbacks q hq))
        ((SharedHeap.object_copy v p heap).trans hp) trivial ⟨done, j, hcaptured, ?_, ?_⟩ fun q => ?_
      · exact ⟨lambda', captured', (SharedHeap.object_copy v j heap).trans hj⟩
      · exact hrefs.imp fun _ _ => HasRef.keeps fun q _ _ hq => (SharedHeap.object_copy v q heap).trans hq
      · simp only [Phase.held, List.nil_append, List.count_cons]
        omega
  | waitFails e =>
      rw [returnedRefs, List.filterMap_nil, List.append_nil]
      refine h.goOn hcallbacks hp trivial trivial fun q => ?_
      simp only [Phase.held, resultPointers, List.count_append, List.count_nil]
      omega
  -- one captured future more has been resolved to its reference
  | @keep lambda captured v locals refs rest ref hv _ =>
      obtain ⟨done, j, hcaptured, hj, hrefs⟩ := hsound
      rw [returnedRefs, List.filterMap_nil, List.append_nil]
      refine h.goOn hcallbacks hp trivial ⟨done ++ [j], ?_, ?_⟩ fun q => rfl
      · rw [List.append_assoc]
        exact hcaptured
      · exact List.rel_append hrefs (.cons ⟨v, hj, hv⟩ .nil)
  | @leave lambda captured v locals refs rest ref hv _ =>
      obtain ⟨done, j, hcaptured, hj, hrefs⟩ := hsound
      rw [returnedRefs, List.filterMap_nil, List.append_nil]
      refine h.goOn hcallbacks hp trivial ⟨done ++ [j], ?_, ?_⟩ fun q => ?_
      · rw [List.append_assoc]
        exact hcaptured
      · exact List.rel_append hrefs (.cons ⟨v, hj, hv⟩ .nil)
      · simp only [Phase.held, List.singleton_append, List.count_cons]
        omega
  | @send lambda captured locals refs =>
      obtain ⟨done, hcaptured, hrefs⟩ := hsound
      obtain rfl : captured = done := by
        rw [show captured = _ from hcaptured, List.append_nil]
      exact (List.append_nil returned).symm ▸ h.goOn hcallbacks hp trivial hrefs fun q => rfl
  -- the reference that has been returned gets an object of its own
  | @reply lambda captured locals refs ref =>
      have hmake : HeapInv (heap.make (.value ref)) (heap.fresh :: roots) callbacks (returned ++ [ref])
          scheduled := HeapInv.make (o := .value ref) h nofun
      refine hmake.goOn (fun q hq => List.mem_cons_of_mem _ (hcallbacks q hq))
        (SharedHeap.object_make _ hp) trivial trivial fun q => ?_
      simp only [Phase.held, resultPointers, List.count_append, List.count_cons, List.count_nil]
      omega
  | replyFails e =>
      rw [returnedRefs, List.filterMap_nil, List.append_nil]
      refine h.goOn hcallbacks hp trivial trivial fun q => ?_
      simp only [Phase.held, resultPointers, List.count_append, List.count_nil]
      omega
  | finish =>
      rw [returnedRefs, List.filterMap_nil, List.append_nil]
      exact h.goOn hcallbacks hp trivial trivial fun q => rfl

/-- A task does not schedule a disposal. -/
theorem TaskStep.scheduled_eq_nil (hstep : TaskStep heap p t heap' out events) :
    scheduledRefs events = [] := by
  cases hstep <;> rfl

/-- What a task sends disposes of nothing. -/
theorem Lambda.disposes_request (lambda : Lambda) (refs : List ValueRef) :
    (lambda.request refs).disposes = [] := by
  cases lambda <;> rfl

theorem TaskStep.disposes_eq_nil (hstep : TaskStep heap p t heap' out events) :
    disposedRefs events = [] := by
  cases hstep with
  | @send lambda captured locals refs => exact (List.append_nil _).trans (lambda.disposes_request refs)
  | _ => rfl

/-- A request names what has been waited for. -/
theorem Lambda.uses_request {lambda : Lambda} {refs : List ValueRef} {ref : ValueRef}
    (h : ref ∈ (lambda.request refs).uses) : ref ∈ refs := by
  cases lambda with
  | createValue valPb => cases h
  | createCall =>
      rcases List.mem_append.mp h with h | h
      · exact List.mem_of_getElem? (Option.mem_toList.mp h)
      · exact List.mem_of_getElem? (Option.mem_toList.mp h)
  | createStruct => exact h
  | createSelection index => exact List.mem_of_getElem? (Option.mem_toList.mp h)

/-! ### The references that a task uses -/

/-- What a task sends names references of values that it holds. -/
theorem TaskStep.uses (hstep : TaskStep heap p t heap' out events)
    (h : HeapInv heap roots callbacks returned scheduled) (hcallbacks : ∀ q ∈ callbacks, q ∈ roots)
    (hp : heap.object? p = some (.task t)) {request : ExecutorRequest} (hmem : Event.sent request ∈ events)
    {ref : ValueRef} (href : ref ∈ request.uses) : scheduled.count ref < returned.count ref := by
  cases hstep with
  | @send lambda captured locals refs =>
      obtain rfl : request = lambda.request refs := Event.sent.inj (List.mem_singleton.mp hmem)
      obtain ⟨done, hcaptured, hrefs⟩ := h.sound hp
      obtain ⟨j, hj, hjref⟩ := exists_of_mem_right hrefs (Lambda.uses_request href)
      have hjmem : j ∈ captured := by
        rw [show captured = _ from hcaptured]
        exact List.mem_append_left _ hj
      obtain ⟨v, hlive, hv⟩ := h.live_of_hasRef hcallbacks hp trivial hjmem hjref
      exact h.count_scheduled_lt hlive hv
  | reply ref' => cases List.mem_singleton.mp hmem
  | _ => cases hmem

end

/-! ## A step of the executor -/

/-- The heap is in order, and counts the pointers of the state. -/
def State.HeapInv (s : State) : Prop :=
  RemoteLifetime.HeapInv s.heap s.roots s.callbacks (returnedRefs s.log) (scheduledRefs s.log)

/-- Pointers may be held elsewhere, and callbacks that do not run may be destroyed. -/
theorem HeapInv.move {roots roots' callbacks callbacks' : List Nat} {returned scheduled : List ValueRef}
    (h : HeapInv heap roots callbacks returned scheduled) (hcounts : ∀ q, roots.count q = roots'.count q)
    (hcallbacks : ∀ q t, heap.object? q = some (.task t) → t.phase.Running → q ∈ callbacks → q ∈ callbacks') :
    HeapInv heap roots' callbacks' returned scheduled :=
  { h with
    counted := h.counted.perm (List.perm_iff_count.mpr hcounts)
    running := fun ht hrunning => hcallbacks _ _ ht hrunning (h.running ht hrunning) }

theorem State.callbacks_subset_roots (s : State) : ∀ q ∈ s.callbacks, q ∈ s.roots :=
  fun _ hq => List.mem_append_left _ (List.mem_append_right _ hq)

theorem State.mem_roots_of_call {s : State} {call : Call} {p : Nat} (hcall : call ∈ s.calls)
    (hp : p ∈ call.held) : p ∈ s.roots :=
  List.mem_append_left _
    (List.mem_append_left _ (List.mem_append_right _ (List.mem_flatMap.mpr ⟨call, hcall, hp⟩)))

theorem State.count_roots (s : State) (q : Nat) :
    s.roots.count q = (s.trackedValues.map Prod.snd).count q + (s.calls.flatMap Call.held).count q +
      s.callbacks.count q + s.leaving.count q := by
  simp only [State.roots, List.count_append]

/-- One call of several. -/
theorem count_held_calls (before after : List Call) (call : Call) (q : Nat) :
    ((before ++ call :: after).flatMap Call.held).count q =
      ((before ++ after).flatMap Call.held).count q + call.held.count q := by
  simp only [List.flatMap_append, List.flatMap_cons, List.count_append]
  omega

theorem HeapInv.log {roots callbacks : List Nat} {log events : List Event}
    (h : HeapInv heap roots callbacks (returnedRefs log ++ returnedRefs events)
      (scheduledRefs log ++ scheduledRefs events)) :
    HeapInv heap roots callbacks (returnedRefs (log ++ events)) (scheduledRefs (log ++ events)) := by
  rw [returnedRefs_append, scheduledRefs_append]
  exact h

/-- What is sent is neither handed out nor scheduled. -/
theorem HeapInv.sent {roots callbacks : List Nat} {log : List Event} (request : ExecutorRequest)
    (h : HeapInv heap roots callbacks (returnedRefs log) (scheduledRefs log)) :
    HeapInv heap roots callbacks (returnedRefs (log ++ [.sent request]))
      (scheduledRefs (log ++ [.sent request])) := by
  refine HeapInv.log ?_
  have hnone : returnedRefs [.sent request] = [] := rfl
  have hnone' : scheduledRefs [.sent request] = [] := rfl
  rw [hnone, hnone', List.append_nil, List.append_nil]
  exact h

/-- A pointer that is leaving is one more. -/
theorem State.HeapInv.leaving {s : State} (h : s.HeapInv) {before after : List Nat} {p : Nat}
    (hleaving : s.leaving = before ++ p :: after) :
    RemoteLifetime.HeapInv s.heap (p :: State.roots { s with leaving := before ++ after }) s.callbacks
      (returnedRefs s.log) (scheduledRefs s.log) := by
  refine HeapInv.move h (fun q => ?_) fun q t _ _ hq => hq
  simp only [State.count_roots, hleaving, List.count_append, List.count_cons]
  omega

/-! ### Every step -/

theorem Step.heapInv {s s' : State} (hstep : Step s s') (h : s.HeapInv) : s'.HeapInv := by
  cases hstep with
  | call call hcall => exact h
  -- each future that a call looks up is one more reference to its task
  | @getTracked before after call futures id ids p hcalls hp =>
      have hmem : p ∈ s.roots :=
        List.mem_append_left _ (List.mem_append_left _ (List.mem_append_left _ (List.mem_map_of_mem hp)))
      refine HeapInv.move (h.copy (h.counted.live_of_mem hmem)) (fun q => ?_) fun q t _ _ hq => hq
      simp only [State.count_roots, hcalls, count_held_calls, Call.held, List.count_append, List.count_cons,
        List.count_nil]
      omega
  | @notFound before after call futures id ids hcalls hid =>
      refine HeapInv.move h (fun q => ?_) fun q t _ _ hq => hq
      simp only [State.count_roots, hcalls, count_held_calls, Call.held, List.count_append]
      omega
  | @runAsync before after call futures lambda hcalls hlambda =>
      -- the new task takes over the references of the call; the call and the thread hold one to the task each
      have hrest : HeapInv s.heap ((Object.task ⟨lambda, futures, .scheduled⟩).fields ++
          State.roots { s with calls := before ++ after }) s.callbacks (returnedRefs s.log)
            (scheduledRefs s.log) := by
        refine HeapInv.move h (fun q => ?_) fun q t _ _ hq => hq
        simp only [State.count_roots, hcalls, count_held_calls, Object.fields, Phase.held, Call.held,
          List.append_nil, List.count_append]
        omega
      have hmake := hrest.make fun t ht => by
        cases ht
        rfl
      have hcopy := hmake.copy (hmake.counted.live_of_mem (List.mem_cons_self ..))
      have hreturned : returnedRefs s.log ++ (Object.task ⟨lambda, futures, .scheduled⟩).ref?.toList =
          returnedRefs s.log :=
        List.append_nil _
      rw [hreturned] at hcopy
      refine hcopy.move (fun q => ?_) fun q t _ _ hq => List.mem_cons_of_mem _ hq
      simp only [State.count_roots, count_held_calls, Call.held, List.count_cons, List.count_nil]
      omega
  -- a tracked future moves from the call to the table, and any other one is let go
  | @trackValue before after future hcalls hid =>
      refine HeapInv.move h (fun q => ?_) fun q t _ _ hq => hq
      simp only [State.count_roots, hcalls, count_held_calls, Call.held, List.map_cons, List.count_cons,
        List.count_nil]
      omega
  | @trackTaken before after future hcalls hid =>
      refine HeapInv.move h (fun q => ?_) fun q t _ _ hq => hq
      simp only [State.count_roots, hcalls, count_held_calls, Call.held, List.count_cons, List.count_nil]
      omega
  | @wait before after id valuePb future lambda captured value hcalls hfuture =>
      have hcall : Call.lookingUp (.materialize id valuePb) [future] [] ∈ s.calls := by
        rw [hcalls]
        exact List.mem_append_right _ (List.mem_cons_self ..)
      have hmem : future ∈ s.roots := State.mem_roots_of_call hcall (List.mem_singleton_self future)
      have hvalue : value ∈ (Object.task ⟨lambda, captured, .finished (.ok value)⟩).fields :=
        List.mem_append_right _ (List.mem_singleton_self value)
      -- the value is alive because its task is, which the call holds
      have hlive := h.counted.live_of_field (h.counted.live_of_mem hmem) hfuture hvalue
      refine HeapInv.move (h.copy hlive) (fun q => ?_) fun q t _ _ hq => hq
      simp only [State.count_roots, hcalls, count_held_calls, Call.held, List.count_cons, List.count_nil]
      omega
  | @waitFails before after id valuePb future hcalls =>
      refine HeapInv.move h (fun q => ?_) fun q t _ _ hq => hq
      simp only [State.count_roots, hcalls, count_held_calls, Call.held, List.count_cons, List.count_nil]
      omega
  | @materialize before after future value ref hcalls hvalue =>
      refine HeapInv.sent _ (HeapInv.move h (fun q => ?_) fun q t _ _ hq => hq)
      simp only [State.count_roots, hcalls, count_held_calls, Call.held]
  | @materialized before after future value hcalls =>
      refine HeapInv.move h (fun q => ?_) fun q t _ _ hq => hq
      simp only [State.count_roots, hcalls, count_held_calls, Call.held, List.count_append]
      omega
  | @dispose before after id future htable =>
      refine HeapInv.move h (fun q => ?_) fun q t _ _ hq => hq
      simp only [State.count_roots, htable, List.map_append, List.map_cons, List.count_append, List.count_cons]
      omega
  | close =>
      refine HeapInv.move h (fun q => ?_) fun q t _ _ hq => hq
      simp only [State.count_roots, List.map_nil, List.count_append, List.count_nil]
      omega
  | @task p t heap out events hp hstart htask =>
      have htask' := htask.inv h s.callbacks_subset_roots hp hstart
      refine HeapInv.log ?_
      rw [htask.scheduled_eq_nil, List.append_nil]
      refine htask'.move (fun q => ?_) fun q t _ _ hq => hq
      simp only [State.count_roots, List.count_append]
      omega
  -- only a thread whose task does not run lets go, so no running task loses its thread
  | @release before after p t hcallbacks hp hphase =>
      refine HeapInv.move h (fun q => ?_) fun q t' hq hrunning hmem => ?_
      · simp only [State.count_roots, hcallbacks, List.count_append, List.count_cons]
        omega
      · rw [hcallbacks] at hmem
        rcases List.mem_append.mp hmem with hmem | hmem
        · exact List.mem_append_left _ hmem
        · rcases List.mem_cons.mp hmem with rfl | hmem
          · cases hp.symm.trans hq
            exact absurd hrunning hphase
          · exact List.mem_append_right _ hmem
  | @drop before after p hleaving hp => exact (h.leaving hleaving).drop hp
  | @destroyTask before after p t hleaving hone hp =>
      refine ((h.leaving hleaving).destroyTask hone hp).move (fun q => ?_) fun q t _ _ hq => hq
      simp only [State.count_roots, List.count_append]
      omega
  | @destroyValue before after p ref hleaving hone hp =>
      have hdestroy := (h.leaving hleaving).destroyValue hone hp
      refine HeapInv.log ?_
      -- a scheduled disposal is not the return of a value
      have hnone : returnedRefs [.scheduled ref] = [] := rfl
      rw [hnone, List.append_nil]
      exact hdestroy
  | disposal hdisposals => exact HeapInv.sent _ h
  | disposalFails hdisposals => exact h

/-! ## What is disposed of -/

/-- Every reference is disposed of as often at most as that has been scheduled. -/
def State.Accounted (s : State) : Prop :=
  ∀ ref, (disposedRefs s.log).count ref + s.disposals.count ref ≤ (scheduledRefs s.log).count ref

/-- Where nothing is disposed of, or scheduled to be. -/
theorem State.Accounted.append {s s' : State} {events : List Event} (h : s.Accounted)
    (hlog : s'.log = s.log ++ events) (hdisposals : s'.disposals = s.disposals)
    (hdisposed : disposedRefs events = []) (hscheduled : scheduledRefs events = []) : s'.Accounted := by
  intro ref
  rw [hlog, disposedRefs_append, scheduledRefs_append, hdisposals, hdisposed, hscheduled, List.append_nil,
    List.append_nil]
  exact h ref

theorem Step.accounted {s s' : State} (hstep : Step s s') (h : s.Accounted) : s'.Accounted := by
  cases hstep with
  | materialize hcalls hvalue => exact h.append rfl rfl rfl rfl
  | task hp hstart htask => exact h.append rfl rfl htask.disposes_eq_nil htask.scheduled_eq_nil
  | @destroyValue before after p ref hleaving hone hp =>
      intro ref'
      have href := h ref'
      have hnone : disposedRefs [.scheduled ref] = [] := rfl
      have hsome : scheduledRefs [.scheduled ref] = [ref] := rfl
      simp only [disposedRefs_append, scheduledRefs_append, hnone, hsome, List.count_append, List.count_cons,
        List.count_nil]
      omega
  -- what is scheduled and not yet sent makes up the difference
  | @disposal before after ref hdisposals =>
      intro ref'
      have href := h ref'
      have hsome : disposedRefs [.sent (.dispose { valueRef := [ref] })] = [ref] := rfl
      have hnone : scheduledRefs [.sent (.dispose { valueRef := [ref] })] = [] := rfl
      rw [hdisposals] at href
      simp only [disposedRefs_append, scheduledRefs_append, hnone, hsome, List.count_append, List.count_cons,
        List.count_nil] at href ⊢
      omega
  -- a disposal that finds no thread is lost, so fewer are sent than were asked for
  | @disposalFails before after ref hdisposals =>
      intro ref'
      have href := h ref'
      rw [hdisposals] at href
      simp only [List.count_append, List.count_cons] at href ⊢
      omega
  | _ => exact h

/-! ## What is sent -/

/-- Whenever a request that names a reference was sent, fewer disposals of it had been scheduled than the
server had handed it out. -/
def Ordered (log : List Event) : Prop :=
  ∀ before request after, log = before ++ .sent request :: after →
    ∀ ref ∈ request.uses, (scheduledRefs before).count ref < (returnedRefs before).count ref

/-- With one event more, if that is not a request for what is to be disposed of. -/
theorem Ordered.append {log events : List Event} (h : Ordered log) (hone : events.length ≤ 1)
    (hevents : ∀ request, .sent request ∈ events →
      ∀ ref ∈ request.uses, (scheduledRefs log).count ref < (returnedRefs log).count ref) :
    Ordered (log ++ events) := by
  intro before request after heq
  rcases events with _ | ⟨event, _ | ⟨event', events⟩⟩
  · rw [List.append_nil] at heq
    exact h before request after heq
  · rcases List.eq_nil_or_concat after with rfl | ⟨after, last, rfl⟩
    · obtain ⟨rfl, hevent⟩ := List.append_inj' heq rfl
      exact hevents request (hevent ▸ List.mem_singleton_self _)
    · rw [List.concat_eq_append, ← List.cons_append, ← List.append_assoc] at heq
      exact h before request after (List.append_inj' heq rfl).1
  · exact absurd hone (by simp)

theorem TaskStep.length_events {p : Nat} {t : RemoteTask} {out : List Nat} {events : List Event}
    (hstep : TaskStep heap p t heap' out events) : events.length ≤ 1 := by
  cases hstep <;> simp

theorem Step.ordered {s s' : State} (hstep : Step s s') (hinv : s.HeapInv) (h : Ordered s.log) :
    Ordered s'.log := by
  cases hstep with
  | @materialize before after future value ref hcalls hvalue =>
      refine h.append (Nat.le_refl 1) fun request hmem ref' href => ?_
      obtain rfl := Event.sent.inj (List.mem_singleton.mp hmem)
      obtain rfl : ref' = ref := List.mem_singleton.mp href
      have hcall : Call.waited future value ∈ s.calls := by
        rw [hcalls]
        exact List.mem_append_right _ (List.mem_cons_self ..)
      -- the call holds the value while it waits, so no disposal of it can have been scheduled
      have hheld : value ∈ (Call.waited future value).held := List.mem_cons_of_mem _ (List.mem_singleton_self _)
      exact hinv.count_scheduled_lt (hinv.counted.live_of_mem (State.mem_roots_of_call hcall hheld)) hvalue
  | task hp hstart htask =>
      exact h.append htask.length_events fun request hmem ref href =>
        htask.uses hinv s.callbacks_subset_roots hp hmem href
  | destroyValue hleaving hone hp => exact h.append (Nat.le_refl 1) fun request hmem => by simp at hmem
  | disposal hdisposals =>
      refine h.append (Nat.le_refl 1) fun request hmem ref href => ?_
      obtain rfl := Event.sent.inj (List.mem_singleton.mp hmem)
      cases href
  | _ => exact h

/-! ## Every run -/

/-- The pointers are counted, and what is sent and scheduled is in order. -/
structure State.Inv (s : State) : Prop where
  heap : s.HeapInv
  accounted : s.Accounted
  ordered : Ordered s.log

theorem inductive_inv : remoteExecutor.Inductive State.Inv where
  init := by
    rintro s rfl
    refine ⟨⟨SharedHeap.Counted.nil, nofun, nofun, rfl, .nil⟩, fun ref => Nat.le_refl 0, ?_⟩
    intro before request after heq
    exact absurd heq (by simp [State.init])
  step h hstep := ⟨Step.heapInv hstep h.heap, Step.accounted hstep h.accounted,
    Step.ordered hstep h.heap h.ordered⟩

theorem mem_scheduledRefs {log : List Event} {ref : ValueRef} (h : .scheduled ref ∈ log) :
    ref ∈ scheduledRefs log :=
  List.mem_filterMap.mpr ⟨_, h, rfl⟩

/-- **The lifetime of remote references.** Whatever was done so far, by any number of threads that call the
executor and by its tasks, in any order:

* whenever a request to create or to materialize was sent, fewer disposals of a reference that it names had
  been scheduled than the server had handed it out;
* no reference was the subject of more disposals than the server has handed it out.

If the server hands out no reference twice, then none of these requests names a reference for which a disposal
has been scheduled, and no reference is the subject of two disposals. -/
theorem handle_lifetime {s : State} (hs : remoteExecutor.Reachable s) :
    ((∀ before request after, s.log = before ++ .sent request :: after →
      ∀ ref ∈ request.uses, (scheduledRefs before).count ref < (returnedRefs before).count ref) ∧
    ∀ ref, (disposedRefs s.log).count ref ≤ (returnedRefs s.log).count ref) ∧
    ((returnedRefs s.log).Nodup →
      (∀ before request after, s.log = before ++ .sent request :: after →
        ∀ ref ∈ request.uses, .scheduled ref ∉ before) ∧
      ∀ ref, (disposedRefs s.log).count ref ≤ 1) := by
  have hinv := inductive_inv.reachable hs
  have hdisposed : ∀ ref, (disposedRefs s.log).count ref ≤ (returnedRefs s.log).count ref := by
    intro ref
    have haccounted := hinv.accounted ref
    have hscheduled := hinv.heap.count_scheduled_le ref
    omega
  refine ⟨⟨hinv.ordered, hdisposed⟩, fun hserver => ⟨?_, fun ref => ?_⟩⟩
  · intro before request after hlog ref href hmem
    have hlt := hinv.ordered before request after hlog ref href
    have hpos := List.count_pos_iff.mpr (mem_scheduledRefs hmem)
    rw [hlog, returnedRefs_append] at hserver
    -- handed out once at most, and already scheduled: the count would have to be both
    have hone := List.nodup_iff_count_le_one.mp hserver.of_append_left ref
    omega
  · exact (hdisposed ref).trans (List.nodup_iff_count_le_one.mp hserver ref)

/-- A call is in progress, the id of what is called is disposed of, and then the call is made. -/
theorem handle_lifetime_pending :
    ∃ s, remoteExecutor.Reachable s ∧ s.trackedValues = [] ∧
      s.log = [.sent (.createValue { value := some .defaultInstance }), .returned ⟨"0"⟩,
        .sent (.createCall { functionRef := some ⟨"0"⟩ })] ∧
      (∀ before request after, s.log = before ++ .sent request :: after →
        ∀ ref ∈ request.uses, .scheduled ref ∉ before) ∧
      ∀ ref, (disposedRefs s.log).count ref ≤ 1 := by
  have h₁ := (System.Reachable.init (S := remoteExecutor) rfl).step
    (.call (.createValue .defaultInstance) nofun)
  have h₂ := h₁.step (@Step.runAsync _ [] [] _ _ _ rfl rfl)
  have h₃ := h₂.step (@Step.trackValue _ [] [] _ rfl nofun)
  have h₄ := h₃.step (@Step.task _ 0 _ _ _ _ rfl (fun _ => .head _) .start)
  have h₅ := h₄.step (@Step.task _ 0 _ _ _ _ rfl nofun .send)
  have h₆ := h₅.step (@Step.task _ 0 _ _ _ _ rfl nofun (.reply ⟨"0"⟩))
  have h₇ := h₆.step (@Step.task _ 0 _ _ _ _ rfl nofun .finish)
  -- the second task is given the first future, and then that is disposed of and dropped
  have h₈ := h₇.step (.call (.createCall 0 none) nofun)
  have h₉ := h₈.step (@Step.getTracked _ [] [] _ _ _ _ 0 rfl (.head _))
  have h₁₀ := h₉.step (@Step.runAsync _ [] [] _ _ _ rfl rfl)
  have h₁₁ := h₁₀.step (@Step.dispose _ [] [] _ _ rfl)
  have h₁₂ := h₁₁.step (@Step.drop _ [] [] 0 rfl (by decide))
  have h₁₃ := h₁₂.step (@Step.task _ 2 _ _ _ _ rfl (fun _ => .head _) .start)
  have h₁₄ := h₁₃.step (@Step.task _ 2 _ _ _ _ rfl nofun (.wait rfl))
  have h₁₅ := h₁₄.step (@Step.task _ 2 _ _ _ _ rfl nofun (.keep rfl rfl))
  have h₁₆ := h₁₅.step (@Step.task _ 2 _ _ _ _ rfl nofun .send)
  exact ⟨_, h₁₆, rfl, rfl, (handle_lifetime h₁₆).2 (List.nodup_singleton _)⟩

end RemoteLifetime

/-! ## The server

What is assumed of the server, a service does that runs over an executor of its own. -/

instance : DecidablePred ExecutorRequest.Creates
  | .createValue _ => isTrue trivial
  | .createCall _ => isTrue trivial
  | .createStruct _ => isTrue trivial
  | .createSelection _ => isTrue trivial
  | .materialize _ => isFalse id
  | .dispose _ => isFalse id

/-- The reference that is handed out in reply to a request. -/
def handedOut (request : ExecutorRequest) (reply : GrpcReply ExecutorResponse) : Option ValueRef :=
  if request.Creates ∧ reply.status.ok = true then reply.response.ref else none

/-- The references that are handed out in reply to requests. -/
def allHandedOut (requests : List ExecutorRequest) (replies : List (GrpcReply ExecutorResponse)) :
    List ValueRef :=
  (requests.zip replies).filterMap fun p => handedOut p.1 p.2

namespace Ledger

variable {L L' : Ledger} {request : ExecutorRequest} {reply : GrpcReply ExecutorResponse}

/-- What is handed out is new, and returned from then on. -/
theorem Accepts.handedOut (h : L.Accepts request reply L') :
    (handedOut request reply = none ∧ L'.returned = L.returned) ∨
      ∃ ref id, handedOut request reply = some ref ∧ refToValueId ref = .ok id ∧ id ∉ L.returned ∧
        L'.returned = insert id L.returned := by
  cases h with
  | @created _ _ ref id hcreates hok href hid hnew =>
      exact .inr ⟨ref, id, (if_pos ⟨hcreates, hok⟩).trans href, hid, hnew, rfl⟩
  | rejected hcreates hnot => exact .inl ⟨if_neg fun h => by simp [hnot] at h, rfl⟩
  | materialized => exact .inl ⟨if_neg fun h => h.1, rfl⟩
  | disposed hok => exact .inl ⟨if_neg fun h => h.1, rfl⟩

theorem AcceptsAll.nodup_handedOut {requests : List ExecutorRequest}
    {replies : List (GrpcReply ExecutorResponse)} (h : L.AcceptsAll requests replies L') :
    (allHandedOut requests replies).Nodup ∧
      ∀ ref ∈ allHandedOut requests replies, ∃ id, refToValueId ref = .ok id ∧ id ∉ L.returned := by
  induction h with
  | nil => exact ⟨List.nodup_nil, List.forall_mem_nil _⟩
  | @cons L L₁ L₂ request reply requests replies hone _ ih =>
      obtain ⟨hnodup, hnew⟩ := ih
      have hcons : allHandedOut (request :: requests) (reply :: replies) =
          (handedOut request reply).toList ++ allHandedOut requests replies := by
        rw [allHandedOut, List.zip_cons_cons, List.filterMap_cons]
        cases handedOut request reply <;> rfl
      rw [hcons]
      rcases hone.handedOut with ⟨hnone, hreturned⟩ | ⟨ref, id, hsome, href, hid, hreturned⟩
      · rw [hnone]
        exact ⟨hnodup, hreturned ▸ hnew⟩
      -- the reference handed out first names an id that was new then, and is returned from now on
      · rw [hsome]
        refine ⟨List.nodup_cons.mpr ⟨fun hmem => ?_, hnodup⟩, List.forall_mem_cons.mpr ⟨⟨id, href, hid⟩, ?_⟩⟩
        · obtain ⟨id', href', hid'⟩ := hnew ref hmem
          obtain rfl : id = id' := Except.ok.inj (href.symm.trans href')
          rw [hreturned] at hid'
          exact hid' (Set.mem_insert id _)
        · intro ref' hmem
          obtain ⟨id', href', hid'⟩ := hnew ref' hmem
          rw [hreturned] at hid'
          exact ⟨id', href', fun h => hid' (Set.mem_insert_of_mem id h)⟩

end Ledger

/-- A service hands out no reference twice. -/
theorem nodup_allHandedOut {V σ : Type} (impl : ExecutorImpl σ V) {requests : List ExecutorRequest}
    {replies : List (GrpcReply ExecutorResponse)} {s : σ} {s' : BaseState (TrackedValues V) σ}
    (h : Run.Returns ((executorService (executorBase impl)).serveAll requests)
      ⟨TrackedValues.empty, s⟩ replies s') : (allHandedOut requests replies).Nodup := by
  obtain ⟨events, hrun⟩ := h
  have hkept : Ledger.empty.Kept (⟨TrackedValues.empty, s⟩ : BaseState (TrackedValues V) σ) :=
    ⟨HandleTable.empty, Ledger.matches_empty⟩
  obtain ⟨L, haccepts, -⟩ :=
    (ExecutorService.serveAll_triple impl requests (E := fun _ _ => True)).ok hkept hrun
  exact haccepts.nodup_handedOut.1

end GenC
