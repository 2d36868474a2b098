import Mathlib.Data.Finmap
import GenC.Lib.Transition

/-!
# The callback tracker

`CallbackTracker` and `ConcurrencyManagerWithCallbackTracker::Schedule`,
`runtime/concurrency_helpers.h`.

Any number of threads call `Schedule` and `WaitUntilAllCompleted`; callbacks call `Schedule` too. The
mutex makes each of the tracker's critical sections one step, and everything else that happens (the
moment `ScheduleInternal` takes a callback on, the moment it returns, the start and the end of a
callback) is a step of its own, so that a state of `callbackTracker` is what a debugger would find
with all threads stopped somewhere.

`ScheduleInternal` is pure virtual. What is assumed of it is in the steps: it may take a callback on
at any time before it returns; it returns OK if it has, and an error if it has not; and a callback
that has been taken on runs once. A waitable stands for the callback of one call of `Schedule`.
-/

namespace GenC

open Lib

/-! ## The class -/

/-- The members of `CallbackTracker`. A waitable is named by the call of `Schedule` that got it. -/
structure CallbackTracker where
  totalNumCallbacksScheduled : Int32
  totalNumCallbacksCompleted : Int32
  completedEarly : Finset Int32
  callbacks : Finmap fun _ : Int32 => Nat

namespace CallbackTracker

def init : CallbackTracker := ⟨0, 0, ∅, ∅⟩

def getNewCallbackId (t : CallbackTracker) : Int32 × CallbackTracker :=
  let callbackId := t.totalNumCallbacksScheduled + 1
  (callbackId, { t with totalNumCallbacksScheduled := callbackId })

def registerCallback (callbackId : Int32) (waitable : Nat) (t : CallbackTracker) : CallbackTracker :=
  if callbackId ∈ t.completedEarly then
    { t with completedEarly := t.completedEarly.erase callbackId }
  else
    { t with callbacks := t.callbacks.insert callbackId waitable }

/-- `IgnoreCallback` does not look at the id it is given. -/
def ignoreCallback (t : CallbackTracker) : CallbackTracker :=
  { t with totalNumCallbacksCompleted := t.totalNumCallbacksCompleted + 1 }

/-- The critical section of `RunCallback`, after `callback()` has returned. -/
def finishCallback (callbackId : Int32) (t : CallbackTracker) : CallbackTracker :=
  if callbackId ∈ t.callbacks then
    { t with
      callbacks := t.callbacks.erase callbackId
      totalNumCallbacksCompleted := t.totalNumCallbacksCompleted + 1 }
  else
    { t with
      completedEarly := insert callbackId t.completedEarly
      totalNumCallbacksCompleted := t.totalNumCallbacksCompleted + 1 }

def numPending (t : CallbackTracker) : Int32 :=
  t.totalNumCallbacksScheduled - t.totalNumCallbacksCompleted

end CallbackTracker

/-- Where a call of `WaitUntilAllCompleted` is. -/
inductive WaitPhase where
  /-- Between two rounds of the loop. -/
  | looping
  /-- In `waitable->Wait()`. -/
  | waiting (waitable : Nat)
  | returnedOk
  | returnedFailedPrecondition
  deriving DecidableEq

/-- The critical section of a round. `callbacks_.begin()` may be any entry of the map. -/
inductive CallbackTracker.Poll (t : CallbackTracker) : WaitPhase → Prop where
  | done : t.numPending ≤ 0 → Poll t .returnedOk
  | wait {callbackId waitable} : ¬t.numPending ≤ 0 → t.callbacks.lookup callbackId = some waitable →
      Poll t (.waiting waitable)
  | nothing : ¬t.numPending ≤ 0 → t.callbacks = ∅ → Poll t .returnedFailedPrecondition

/-! ## The calls of `Schedule` and their callbacks -/

/-- Where a call of `Schedule` is, after it got its id. -/
inductive SchedulePhase where
  /-- In `ScheduleInternal`. -/
  | internal
  /-- `ScheduleInternal` has returned OK, and the waitable is to be registered. -/
  | ok
  /-- `ScheduleInternal` has failed, and the id is to be ignored. -/
  | failed
  | returned
  deriving DecidableEq

/-- Where the callback of a call is. -/
inductive CallbackPhase where
  /-- `ScheduleInternal` has not taken it on. -/
  | unscheduled
  | pending
  /-- In `callback()`. -/
  | running
  /-- `callback()` has returned, and `RunCallback` is about to take the lock. -/
  | returned
  | finished
  deriving DecidableEq

/-- A call of `Schedule`, made from outside or inside the callback of another call. -/
structure ScheduleCall where
  caller : Option Nat
  callbackId : Int32
  schedule : SchedulePhase
  callback : CallbackPhase

namespace ScheduleCall

/-- The call itself has not returned. -/
def ScheduleInProgress (c : ScheduleCall) : Prop := c.schedule ≠ .returned

/-- `ScheduleInternal` has taken the callback on, and it has not finished. -/
def CallbackInProgress (c : ScheduleCall) : Prop :=
  c.callback ≠ .unscheduled ∧ c.callback ≠ .finished

/-- The callback has been run, or ignored. -/
def settled (c : ScheduleCall) : Bool :=
  c.callback = .finished || (c.schedule = .returned && c.callback = .unscheduled)

/-- A step of the `n`-th call or of its callback, and what it does to the tracker. -/
inductive Step (n : Nat) : ScheduleCall → (CallbackTracker → CallbackTracker) → ScheduleCall → Prop where
  | accept {c} : c.schedule = .internal → c.callback = .unscheduled →
      Step n c id { c with callback := .pending }
  | start {c} : c.callback = .pending → Step n c id { c with callback := .running }
  | finish {c} : c.callback = .returned →
      Step n c (CallbackTracker.finishCallback c.callbackId) { c with callback := .finished }
  | succeed {c} : c.schedule = .internal → c.callback ≠ .unscheduled →
      Step n c id { c with schedule := .ok }
  | fail {c} : c.schedule = .internal → c.callback = .unscheduled →
      Step n c id { c with schedule := .failed }
  | register {c} : c.schedule = .ok →
      Step n c (CallbackTracker.registerCallback c.callbackId n) { c with schedule := .returned }
  | ignore {c} : c.schedule = .failed →
      Step n c CallbackTracker.ignoreCallback { c with schedule := .returned }

end ScheduleCall

/-! ## The system -/

/-- The tracker, the calls of `Schedule` in the order in which they got their ids, and the calls of
`WaitUntilAllCompleted`. -/
structure TrackerState where
  tracker : CallbackTracker
  calls : List ScheduleCall
  waits : List WaitPhase

inductive TrackerStep : TrackerState → TrackerState → Prop where
  /-- `Schedule` is called, from outside or by a running callback, and gets its id. -/
  | schedule {s} (caller : Option Nat) :
      (∀ p, caller = some p → ∃ c, s.calls[p]? = some c ∧ c.callback = .running) →
      TrackerStep s
        { s with
          tracker := s.tracker.getNewCallbackId.2
          calls := s.calls ++ [⟨caller, s.tracker.getNewCallbackId.1, .internal, .unscheduled⟩] }
  | call {s n c f c'} : s.calls[n]? = some c → ScheduleCall.Step n c f c' →
      TrackerStep s { s with tracker := f s.tracker, calls := s.calls.set n c' }
  /-- A callback returns, after the calls of `Schedule` that it made. -/
  | callbackReturns {s n c} : s.calls[n]? = some c → c.callback = .running →
      (∀ c' ∈ s.calls, c'.caller = some n → c'.schedule = .returned) →
      TrackerStep s { s with calls := s.calls.set n { c with callback := .returned } }
  | waitUntilAllCompleted {s} : TrackerStep s { s with waits := s.waits ++ [.looping] }
  | poll {s w phase} : s.waits[w]? = some .looping → s.tracker.Poll phase →
      TrackerStep s { s with waits := s.waits.set w phase }
  /-- `waitable->Wait()` returns OK. -/
  | waitOk {s w n c} : s.waits[w]? = some (.waiting n) → s.calls[n]? = some c →
      c.callback = .finished → TrackerStep s { s with waits := s.waits.set w .looping }
  /-- `waitable->Wait()` returns an error, which is logged. -/
  | waitError {s w n} : s.waits[w]? = some (.waiting n) →
      TrackerStep s { s with waits := s.waits.set w .looping }

def callbackTracker : System TrackerState where
  init s := s = ⟨.init, [], []⟩
  step := TrackerStep

/-! ## The invariant -/

namespace ScheduleCall

/-- The waitable has been registered, and the callback has not finished. -/
def Registered (c : ScheduleCall) : Prop := c.schedule = .returned ∧ c.CallbackInProgress

/-- The callback has finished, and its waitable is yet to be registered. -/
def FinishedEarly (c : ScheduleCall) : Prop := c.schedule ≠ .returned ∧ c.callback = .finished

/-- What `ScheduleInternal` returned agrees with what became of the callback. -/
structure Consistent (c : ScheduleCall) : Prop where
  ok : c.schedule = .ok → c.callback ≠ .unscheduled
  failed : c.schedule = .failed → c.callback = .unscheduled

end ScheduleCall

open ScheduleCall

namespace CallbackTracker

/-- The tracker's two collections say what they should of the call `c`. -/
structure Tracks (t : CallbackTracker) (c : ScheduleCall) : Prop where
  callbacks : c.callbackId ∈ t.callbacks ↔ c.Registered
  completedEarly : c.callbackId ∈ t.completedEarly ↔ c.FinishedEarly

/-- The critical section `f` of the call with id `callbackId` leaves the other ids alone. -/
structure Frames (callbackId : Int32) (f : CallbackTracker → CallbackTracker) : Prop where
  callbacks : ∀ t, ∀ id ≠ callbackId, id ∈ (f t).callbacks ↔ id ∈ t.callbacks
  completedEarly : ∀ t, ∀ id ≠ callbackId, id ∈ (f t).completedEarly ↔ id ∈ t.completedEarly
  scheduled : ∀ t, (f t).totalNumCallbacksScheduled = t.totalNumCallbacksScheduled

theorem frames_id (callbackId : Int32) : Frames callbackId id :=
  ⟨fun _ _ _ => Iff.rfl, fun _ _ _ => Iff.rfl, fun _ => rfl⟩

theorem frames_ignoreCallback (callbackId : Int32) : Frames callbackId ignoreCallback :=
  ⟨fun _ _ _ => Iff.rfl, fun _ _ _ => Iff.rfl, fun _ => rfl⟩

theorem frames_registerCallback (callbackId : Int32) (waitable : Nat) :
    Frames callbackId (registerCallback callbackId waitable) where
  callbacks t id hid := by
    unfold registerCallback
    split
    · rfl
    · simp only [Finmap.mem_insert, hid, false_or]
  completedEarly t id hid := by
    unfold registerCallback
    split
    · simp only [Finset.mem_erase, ne_eq, hid, not_false_eq_true, true_and]
    · rfl
  scheduled t := by
    unfold registerCallback
    split <;> rfl

theorem frames_finishCallback (callbackId : Int32) :
    Frames callbackId (finishCallback callbackId) where
  callbacks t id hid := by
    unfold finishCallback
    split
    · simp only [Finmap.mem_erase, ne_eq, hid, not_false_eq_true, true_and]
    · rfl
  completedEarly t id hid := by
    unfold finishCallback
    split
    · rfl
    · simp only [Finset.mem_insert, hid, false_or]
  scheduled t := by
    unfold finishCallback
    split <;> rfl

theorem completed_finishCallback (callbackId : Int32) (t : CallbackTracker) :
    (finishCallback callbackId t).totalNumCallbacksCompleted = t.totalNumCallbacksCompleted + 1 := by
  unfold finishCallback
  split <;> rfl

theorem completed_registerCallback (callbackId : Int32) (waitable : Nat) (t : CallbackTracker) :
    (registerCallback callbackId waitable t).totalNumCallbacksCompleted =
      t.totalNumCallbacksCompleted := by
  unfold registerCallback
  split <;> rfl

end CallbackTracker

namespace ScheduleCall.Step

variable {n : Nat} {c c' : ScheduleCall} {f : CallbackTracker → CallbackTracker}

theorem callbackId_eq (h : Step n c f c') : c'.callbackId = c.callbackId := by cases h <;> rfl

theorem caller_eq (h : Step n c f c') : c'.caller = c.caller := by cases h <;> rfl

theorem frames (h : Step n c f c') : CallbackTracker.Frames c.callbackId f := by
  cases h with
  | finish => exact CallbackTracker.frames_finishCallback _
  | register => exact CallbackTracker.frames_registerCallback _ _
  | ignore => exact CallbackTracker.frames_ignoreCallback _
  | _ => exact CallbackTracker.frames_id _

theorem consistent (h : Step n c f c') (hc : c.Consistent) : c'.Consistent := by
  obtain ⟨hok, hfailed⟩ := hc
  cases h <;> constructor <;> grind

/-- A call that runs callbacks is in the middle of one, and stays there unless it finishes. -/
theorem running (h : Step n c f c') (hr : c.callback = .running) : c'.callback = .running := by
  cases h with
  | accept _ hcb => rw [hr] at hcb; cases hcb
  | start hcb => rfl
  | finish hcb => rw [hr] at hcb; cases hcb
  | _ => exact hr

/-- Once returned, a call of `Schedule` stays so. -/
theorem returned (h : Step n c f c') (hr : c.schedule = .returned) : c'.schedule = .returned := by
  cases h with
  | register => rfl
  | ignore => rfl
  | accept hs => exact hr
  | start => exact hr
  | finish => exact hr
  | succeed hs => rw [hr] at hs; cases hs
  | fail hs => rw [hr] at hs; cases hs

/-- The collections go on saying what they should of the call. -/
theorem tracks {t : CallbackTracker} (h : Step n c f c') (hc : c.Consistent) (ht : t.Tracks c) :
    (f t).Tracks c' := by
  obtain ⟨hcallbacks, hearly⟩ := ht
  cases h with
  | finish hcb =>
      -- the callback is registered exactly if the call has returned by now
      have hreg : c.Registered ↔ c.schedule = .returned :=
        ⟨fun h => h.1, fun h => ⟨h, by rw [hcb]; decide, by rw [hcb]; decide⟩⟩
      have hnew : c.callbackId ∉ t.completedEarly := fun hmem => by
        have := (hearly.mp hmem).2
        rw [hcb] at this
        cases this
      unfold CallbackTracker.finishCallback
      constructor
      · split
        · exact ⟨fun h => absurd rfl (Finmap.mem_erase.mp h).1, fun h => absurd rfl h.2.2⟩
        · next hmem => exact ⟨fun h => absurd h hmem, fun h => absurd rfl h.2.2⟩
      · split
        · next hmem =>
          exact ⟨fun h => absurd h hnew, fun h => absurd (hreg.mp (hcallbacks.mp hmem)) h.1⟩
        · next hmem =>
          refine ⟨fun _ => ⟨fun hret => hmem (hcallbacks.mpr (hreg.mpr hret)), rfl⟩, fun _ => ?_⟩
          exact Finset.mem_insert_self _ _
  | register hs =>
      have hcb : c.callback ≠ .unscheduled := hc.ok hs
      have hnew : c.callbackId ∉ t.callbacks := fun hmem => by
        have := (hcallbacks.mp hmem).1
        rw [hs] at this
        cases this
      unfold CallbackTracker.registerCallback
      constructor
      · split
        · next hmem =>
          exact ⟨fun h => absurd h hnew, fun h => absurd (hearly.mp hmem).2 h.2.2⟩
        · next hmem =>
          refine ⟨fun _ => ⟨rfl, hcb, fun hfin => hmem (hearly.mpr ⟨?_, hfin⟩)⟩, fun _ => ?_⟩
          · rw [hs]; decide
          · exact Finmap.mem_insert.mpr (.inl rfl)
      · split
        · exact ⟨fun h => absurd rfl (Finset.mem_erase.mp h).1, fun h => absurd rfl h.1⟩
        · next hmem => exact ⟨fun h => absurd h hmem, fun h => absurd rfl h.1⟩
  | ignore hs =>
      have hcb : c.callback = .unscheduled := hc.failed hs
      constructor
      · exact hcallbacks.trans ⟨fun h => absurd hcb h.2.1, fun h => absurd hcb h.2.1⟩
      · exact hearly.trans ⟨fun h => (nomatch hcb.symm.trans h.2), fun h => absurd rfl h.1⟩
  | accept hs hcb =>
      constructor
      · exact hcallbacks.trans ⟨fun h => absurd hcb h.2.1, fun h => (nomatch hs.symm.trans h.1)⟩
      · exact hearly.trans ⟨fun h => (nomatch hcb.symm.trans h.2), fun h => (nomatch h.2)⟩
  | start hcb =>
      constructor
      · exact hcallbacks.trans
          ⟨fun h => ⟨h.1, nofun, nofun⟩, fun h => ⟨h.1, by rw [hcb]; decide, by rw [hcb]; decide⟩⟩
      · exact hearly.trans ⟨fun h => (nomatch hcb.symm.trans h.2), fun h => (nomatch h.2)⟩
  | succeed hs hcb =>
      constructor
      · exact hcallbacks.trans ⟨fun h => (nomatch hs.symm.trans h.1), fun h => (nomatch h.1)⟩
      · exact hearly.trans ⟨fun h => ⟨nofun, h.2⟩, fun h => ⟨by rw [hs]; decide, h.2⟩⟩
  | fail hs hcb =>
      constructor
      · exact hcallbacks.trans ⟨fun h => (nomatch hs.symm.trans h.1), fun h => (nomatch h.1)⟩
      · exact hearly.trans ⟨fun h => ⟨nofun, h.2⟩, fun h => ⟨by rw [hs]; decide, h.2⟩⟩

/-- A call is settled once, and that is when the counter of completed callbacks moves. -/
theorem completed (h : Step n c f c') (hc : c.Consistent) (t : CallbackTracker) :
    (c'.settled = c.settled ∧
        (f t).totalNumCallbacksCompleted = t.totalNumCallbacksCompleted) ∨
      (c.settled = false ∧ c'.settled = true ∧
        (f t).totalNumCallbacksCompleted = t.totalNumCallbacksCompleted + 1) := by
  cases h with
  -- a call is settled when its callback has finished or was never scheduled
  | finish hcb =>
      exact .inr ⟨by simp [settled, hcb], by simp [settled],
        CallbackTracker.completed_finishCallback _ _⟩
  | register hs =>
      have hcb : c.callback ≠ .unscheduled := hc.ok hs
      exact .inl ⟨by simp [settled, hs, hcb], CallbackTracker.completed_registerCallback _ _ _⟩
  | ignore hs =>
      have hcb : c.callback = .unscheduled := hc.failed hs
      exact .inr ⟨by simp [settled, hs, hcb], by simp [settled, hcb], rfl⟩
  | accept hs hcb => exact .inl ⟨by simp [settled, hs, hcb], rfl⟩
  | start hcb => exact .inl ⟨by simp [settled, hcb], rfl⟩
  | succeed hs hcb => exact .inl ⟨by simp [settled, hs], rfl⟩
  | fail hs hcb => exact .inl ⟨by simp [settled, hs], rfl⟩

end ScheduleCall.Step

/-! ### The tracker and the calls -/

/-- The tracker `t` is in order, given the calls so far. -/
structure CallbackTracker.Sound (t : CallbackTracker) (calls : List ScheduleCall) : Prop where
  ids : ∀ {n : Nat} {c : ScheduleCall}, calls[n]? = some c → c.callbackId.toInt = n + 1
  scheduled : t.totalNumCallbacksScheduled.toInt = calls.length
  completed : t.totalNumCallbacksCompleted.toInt = calls.countP settled
  tracks : ∀ c ∈ calls, t.Tracks c
  callbacks : ∀ id ∈ t.callbacks, ∃ c ∈ calls, c.callbackId = id
  completedEarly : ∀ id ∈ t.completedEarly, ∃ c ∈ calls, c.callbackId = id
  consistent : ∀ c ∈ calls, c.Consistent
  /-- A call in progress was made from outside, or by an earlier call's callback, now running. -/
  nested : ∀ {n : Nat} {c : ScheduleCall}, calls[n]? = some c → c.ScheduleInProgress →
    ∀ p, c.caller = some p → p < n ∧ ∃ c', calls[p]? = some c' ∧ c'.callback = .running

namespace CallbackTracker

theorem sound_init : init.Sound [] where
  ids h := by cases h
  scheduled := rfl
  completed := rfl
  tracks _ h := by cases h
  callbacks _ h := absurd h Finmap.notMem_empty
  completedEarly _ h := absurd h (Finset.notMem_empty _)
  consistent _ h := by cases h
  nested h := by cases h

variable {t : CallbackTracker} {calls : List ScheduleCall}

/-- One more id, below the limit. -/
theorem toInt_add_one {a : Int32} {n : Nat} (ha : a.toInt = n) (hn : n + 1 < 2 ^ 31) :
    (a + 1).toInt = n + 1 := by
  rw [Int32.toInt_add, ha]
  exact Int.bmod_eq_of_le (by simp; omega) (by simp; omega)

/-- The number of pending callbacks, as the tracker computes it. -/
theorem Sound.numPending (hs : t.Sound calls) (hlt : calls.length < 2 ^ 31) :
    t.numPending.toInt = (calls.length : Int) - calls.countP settled := by
  have hle : calls.countP settled ≤ calls.length := List.countP_le_length
  rw [CallbackTracker.numPending, Int32.toInt_sub, hs.scheduled, hs.completed]
  exact Int.bmod_eq_of_le (by simp; omega) (by simp; omega)

/-- Nothing is pending exactly if every call has been settled. -/
theorem Sound.numPending_le_zero (hs : t.Sound calls) (hlt : calls.length < 2 ^ 31) :
    t.numPending ≤ 0 ↔ ∀ c ∈ calls, c.settled = true := by
  have hle : calls.countP settled ≤ calls.length := List.countP_le_length
  rw [Int32.le_iff_toInt_le, hs.numPending hlt, ← List.countP_eq_length]
  show (calls.length : Int) - calls.countP settled ≤ 0 ↔ _
  omega

/-- No call has the id that is given out next. -/
theorem Sound.callbackId_ne (hs : t.Sound calls) (hlt : calls.length + 1 < 2 ^ 31) :
    ∀ c ∈ calls, c.callbackId ≠ t.getNewCallbackId.1 := by
  intro c hc heq
  obtain ⟨n, hn⟩ := List.mem_iff_getElem?.mp hc
  have hid : t.getNewCallbackId.1.toInt = calls.length + 1 := toInt_add_one hs.scheduled hlt
  have hold : c.callbackId.toInt = n + 1 := hs.ids hn
  have hlen : n < calls.length := getElem?_lt hn
  rw [heq, hid] at hold
  omega

theorem Sound.getNewCallbackId (hs : t.Sound calls) (hlt : calls.length + 1 < 2 ^ 31)
    {caller : Option Nat}
    (hcaller : ∀ p, caller = some p → ∃ c, calls[p]? = some c ∧ c.callback = .running) :
    t.getNewCallbackId.2.Sound
      (calls ++ [⟨caller, t.getNewCallbackId.1, .internal, .unscheduled⟩]) where
  ids {n c} h := by
    rcases of_getElem?_concat h with h | ⟨rfl, rfl⟩
    · exact hs.ids h
    · exact toInt_add_one hs.scheduled hlt
  scheduled := by
    rw [List.length_append]
    exact toInt_add_one hs.scheduled hlt
  completed := by
    rw [List.countP_append]
    exact hs.completed
  tracks c hc := by
    rcases List.mem_append.mp hc with hc | hc
    · exact ⟨(hs.tracks c hc).callbacks, (hs.tracks c hc).completedEarly⟩
    · obtain rfl := List.mem_singleton.mp hc
      constructor
      -- no callback has the new id yet, neither a pending nor a completed one
      · refine ⟨fun h => ?_, fun h => nomatch h.1⟩
        obtain ⟨c', hc', heq⟩ := hs.callbacks _ h
        exact (hs.callbackId_ne hlt c' hc' heq).elim
      · refine ⟨fun h => ?_, fun h => nomatch h.2⟩
        obtain ⟨c', hc', heq⟩ := hs.completedEarly _ h
        exact (hs.callbackId_ne hlt c' hc' heq).elim
  callbacks id hid := by
    obtain ⟨c, hc, heq⟩ := hs.callbacks id hid
    exact ⟨c, List.mem_append_left _ hc, heq⟩
  completedEarly id hid := by
    obtain ⟨c, hc, heq⟩ := hs.completedEarly id hid
    exact ⟨c, List.mem_append_left _ hc, heq⟩
  consistent c hc := by
    rcases List.mem_append.mp hc with hc | hc
    · exact hs.consistent c hc
    · obtain rfl := List.mem_singleton.mp hc
      exact ⟨nofun, nofun⟩
  nested {n c} h hprogress p hp := by
    rcases of_getElem?_concat h with h | ⟨rfl, rfl⟩
    · obtain ⟨hlt', c', hc', hrunning⟩ := hs.nested h hprogress p hp
      exact ⟨hlt', c', getElem?_concat_of_some hc', hrunning⟩
    · obtain ⟨c', hc', hrunning⟩ := hcaller p hp
      exact ⟨getElem?_lt hc', c', getElem?_concat_of_some hc', hrunning⟩

/-! ### A step of a call -/

/-- The call `n` goes from `c` to `c'` with the critical section `f`. -/
structure Update (calls : List ScheduleCall) (n : Nat) (c c' : ScheduleCall)
    (f : CallbackTracker → CallbackTracker) : Prop where
  callbackId : c'.callbackId = c.callbackId
  caller : c'.caller = c.caller
  frames : Frames c.callbackId f
  consistent : c.Consistent → c'.Consistent
  tracks : ∀ t : CallbackTracker, c.Consistent → t.Tracks c → (f t).Tracks c'
  completed : c.Consistent → ∀ t : CallbackTracker,
    (c'.settled = c.settled ∧
        (f t).totalNumCallbacksCompleted = t.totalNumCallbacksCompleted) ∨
      (c.settled = false ∧ c'.settled = true ∧
        (f t).totalNumCallbacksCompleted = t.totalNumCallbacksCompleted + 1)
  returned : c.schedule = .returned → c'.schedule = .returned
  running : c.callback = .running →
    c'.callback = .running ∨ ∀ d ∈ calls, d.caller = some n → d.schedule = .returned

theorem Sound.update (hs : t.Sound calls) (hlt : calls.length < 2 ^ 31) {n : Nat}
    {c c' : ScheduleCall} {f : CallbackTracker → CallbackTracker} (hc : calls[n]? = some c)
    (hu : Update calls n c c' f) : (f t).Sound (calls.set n c') := by
  have hmem : c ∈ calls := List.mem_of_getElem? hc
  have hn : n < calls.length := getElem?_lt hc
  have hnew : c' ∈ calls.set n c' := List.mem_of_getElem? (getElem?_set_of_some hc)
  -- another call has another id
  have hother : ∀ {m d}, m ≠ n → calls[m]? = some d → d.callbackId ≠ c.callbackId := by
    intro m d hne hd heq
    have hm := hs.ids hd
    rw [heq, hs.ids hc] at hm
    omega
  have hkept : ∀ id, id ≠ c.callbackId → (∃ d ∈ calls, d.callbackId = id) →
      ∃ d ∈ calls.set n c', d.callbackId = id := by
    rintro id hid ⟨d, hd, rfl⟩
    obtain ⟨m, hm⟩ := List.mem_iff_getElem?.mp hd
    have hne : m ≠ n := by
      rintro rfl
      rw [hc] at hm
      exact hid (Option.some.inj hm ▸ rfl)
    exact ⟨d, List.mem_of_getElem? (getElem?_set_of_ne hne hm), rfl⟩
  constructor
  case ids =>
    intro m d hd
    rcases of_getElem?_set hd with ⟨rfl, rfl⟩ | ⟨-, hd⟩
    · rw [hu.callbackId]
      exact hs.ids hc
    · exact hs.ids hd
  case scheduled =>
    rw [hu.frames.scheduled, List.length_set]
    exact hs.scheduled
  case completed =>
    have hcount := List.countP_set (p := settled) (a := c') hn
    have hget : calls[n] = c := (List.getElem?_eq_some_iff.mp hc).2
    rw [hget] at hcount
    rcases hu.completed (hs.consistent c hmem) t with ⟨heq, hcompleted⟩ | ⟨hold, hnow, hcompleted⟩
    · have hpos : c.settled = true → 0 < calls.countP settled := fun h =>
        List.countP_pos_iff.mpr ⟨c, hmem, h⟩
      have hsame : (calls.set n c').countP settled = calls.countP settled := by
        rw [hcount, heq]
        split
        · next h => exact Nat.sub_add_cancel (hpos h)
        · rfl
      rw [hcompleted, hsame]
      exact hs.completed
    · have hmore : (calls.set n c').countP settled = calls.countP settled + 1 := by
        rw [hcount, hold, hnow]
        rfl
      have hle : (calls.set n c').countP settled ≤ (calls.set n c').length :=
        List.countP_le_length
      rw [hmore, List.length_set] at hle
      rw [hcompleted, hmore]
      exact toInt_add_one hs.completed (by omega)
  case tracks =>
    intro d hd
    obtain ⟨m, hm⟩ := List.mem_iff_getElem?.mp hd
    rcases of_getElem?_set hm with ⟨rfl, rfl⟩ | ⟨hne, hm⟩
    · exact hu.tracks t (hs.consistent c hmem) (hs.tracks c hmem)
    · have hid := hother hne hm
      have ht := hs.tracks d (List.mem_of_getElem? hm)
      exact ⟨(hu.frames.callbacks t _ hid).trans ht.callbacks,
        (hu.frames.completedEarly t _ hid).trans ht.completedEarly⟩
  case callbacks =>
    intro id hid
    by_cases heq : id = c.callbackId
    · exact ⟨c', hnew, hu.callbackId.trans heq.symm⟩
    · exact hkept id heq (hs.callbacks id ((hu.frames.callbacks t id heq).mp hid))
  case completedEarly =>
    intro id hid
    by_cases heq : id = c.callbackId
    · exact ⟨c', hnew, hu.callbackId.trans heq.symm⟩
    · exact hkept id heq (hs.completedEarly id ((hu.frames.completedEarly t id heq).mp hid))
  case consistent =>
    intro d hd
    rcases List.mem_or_eq_of_mem_set hd with hd | rfl
    · exact hs.consistent d hd
    · exact hu.consistent (hs.consistent c hmem)
  case nested =>
    intro m d hd hprogress p hp
    -- the call was in progress before, and its caller was running
    have hold : ∃ d₀, calls[m]? = some d₀ ∧ d₀.ScheduleInProgress ∧ d₀.caller = some p := by
      rcases of_getElem?_set hd with ⟨rfl, rfl⟩ | ⟨-, hd⟩
      · exact ⟨c, hc, fun h => hprogress (hu.returned h), hu.caller ▸ hp⟩
      · exact ⟨d, hd, hprogress, hp⟩
    obtain ⟨d₀, hd₀, hprogress₀, hp₀⟩ := hold
    obtain ⟨hlt', e, he, hrunning⟩ := hs.nested hd₀ hprogress₀ p hp₀
    refine ⟨hlt', ?_⟩
    by_cases hpn : p = n
    · subst hpn
      obtain rfl : c = e := Option.some.inj (hc.symm.trans he)
      rcases hu.running hrunning with hstill | hnone
      · exact ⟨c', getElem?_set_of_some hc, hstill⟩
      · exact (hprogress₀ (hnone d₀ (List.mem_of_getElem? hd₀) hp₀)).elim
    · exact ⟨e, getElem?_set_of_ne hpn he, hrunning⟩

/-- A step of a call is an update of the tracker. -/
theorem update_of_step {calls : List ScheduleCall} {n : Nat} {c c' : ScheduleCall}
    {f : CallbackTracker → CallbackTracker} (h : ScheduleCall.Step n c f c') :
    Update calls n c c' f where
  callbackId := h.callbackId_eq
  caller := h.caller_eq
  frames := h.frames
  consistent := h.consistent
  tracks _ := h.tracks
  completed := h.completed
  returned := h.returned
  running hr := .inl (h.running hr)

/-- So is the return of a callback that waits for no call of its own. -/
theorem update_of_return {calls : List ScheduleCall} {n : Nat} {c : ScheduleCall}
    (hr : c.callback = .running)
    (hcalls : ∀ d ∈ calls, d.caller = some n → d.schedule = .returned) :
    Update calls n c { c with callback := .returned } id where
  callbackId := rfl
  caller := rfl
  frames := frames_id _
  -- a running callback was scheduled without an error
  consistent hc := by
    refine ⟨fun _ => nofun, fun hf => ?_⟩
    have hcb := hc.failed hf
    rw [hr] at hcb
    cases hcb
  tracks t _ ht := by
    constructor
    · exact ht.callbacks.trans
        ⟨fun h => ⟨h.1, nofun, nofun⟩, fun h => ⟨h.1, by rw [hr]; decide, by rw [hr]; decide⟩⟩
    · exact ht.completedEarly.trans ⟨fun h => (nomatch hr.symm.trans h.2), fun h => nomatch h.2⟩
  completed _ _ := .inl ⟨by simp [settled, hr], rfl⟩
  returned h := h
  running _ := .inr hcalls

end CallbackTracker

/-- Until the ids run out, the tracker is in order. -/
def TrackerState.Inv (s : TrackerState) : Prop :=
  s.calls.length < 2 ^ 31 → s.tracker.Sound s.calls

theorem inv_inductive : callbackTracker.Inductive TrackerState.Inv where
  init h := by
    subst h
    exact fun _ => CallbackTracker.sound_init
  step {s s'} hs h := by
    cases h with
    -- only here does the number of calls grow, which is bounded by the numbering of the callbacks
    | schedule caller hcaller =>
        intro hlt
        rw [List.length_append] at hlt
        exact (hs (Nat.lt_of_succ_lt hlt)).getNewCallbackId hlt hcaller
    | call hc hstep =>
        intro hlt
        rw [List.length_set] at hlt
        exact (hs hlt).update hlt hc (CallbackTracker.update_of_step hstep)
    | callbackReturns hc hr hcalls =>
        intro hlt
        rw [List.length_set] at hlt
        exact (hs hlt).update hlt hc (CallbackTracker.update_of_return hr hcalls)
    | waitUntilAllCompleted => exact hs
    | poll => exact hs
    | waitOk => exact hs
    | waitError => exact hs

/-! ## What the tracker promises -/

namespace CallbackTracker

variable {t : CallbackTracker} {calls : List ScheduleCall}

/-- As long as a call is unsettled and none from outside is in progress, some callback that is in
progress is registered: the call's own, or that of the call it was made from, and so on. -/
theorem Sound.exists_registered (hs : t.Sound calls)
    (hexternal : ∀ c ∈ calls, c.caller = none → c.schedule = .returned) :
    ∀ {n : Nat} {c : ScheduleCall}, calls[n]? = some c → c.settled = false →
      ∃ c' ∈ calls, c'.Registered := by
  intro n
  -- on the number of the call: whoever makes an unfinished call from a callback made it earlier
  induction n using Nat.strong_induction_on with
  | _ n ih =>
      intro c hc hsettled
      have hmem : c ∈ calls := List.mem_of_getElem? hc
      by_cases hret : c.schedule = .returned
      · have hcb : c.callback ≠ .unscheduled := by
          intro hcb
          simp [settled, hret, hcb] at hsettled
        have hfin : c.callback ≠ .finished := by
          intro hcb
          simp [settled, hcb] at hsettled
        exact ⟨c, hmem, hret, hcb, hfin⟩
      · cases hcaller : c.caller with
        | none => exact (hret (hexternal c hmem hcaller)).elim
        | some p =>
            -- the caller is a running callback, so its own call is not settled either
            obtain ⟨hlt, c', hc', hrunning⟩ := hs.nested hc hret p hcaller
            exact ih p hlt hc' (by simp [settled, hrunning])

/-- With nothing in progress both collections are empty. -/
theorem Sound.empty (hs : t.Sound calls) (hschedule : ∀ c ∈ calls, ¬c.ScheduleInProgress)
    (hcallback : ∀ c ∈ calls, ¬c.CallbackInProgress) : t.callbacks = ∅ ∧ t.completedEarly = ∅ := by
  constructor
  · refine Finmap.ext_lookup fun id => ?_
    rw [Finmap.lookup_empty, Finmap.lookup_eq_none]
    intro hid
    obtain ⟨c, hc, rfl⟩ := hs.callbacks id hid
    exact hcallback c hc ((hs.tracks c hc).callbacks.mp hid).2
  · refine Finset.eq_empty_of_forall_notMem fun id hid => ?_
    obtain ⟨c, hc, rfl⟩ := hs.completedEarly id hid
    exact hschedule c hc ((hs.tracks c hc).completedEarly.mp hid).1

end CallbackTracker

/-! ### Waits -/

/-- A wait returns by a poll of the tracker, and nothing else happens in that step. -/
theorem returned_of_step {s s' : TrackerState} (h : TrackerStep s s') {w : Nat} {phase : WaitPhase}
    (hphase : phase = .returnedOk ∨ phase = .returnedFailedPrecondition)
    (hold : s.waits[w]? ≠ some phase) (hnew : s'.waits[w]? = some phase) :
    s.waits[w]? = some .looping ∧ s.tracker.Poll phase := by
  have hlooping : phase ≠ .looping := by
    rintro rfl
    rcases hphase with h | h <;> cases h
  cases h with
  | waitUntilAllCompleted =>
      rcases of_getElem?_concat hnew with h | ⟨-, rfl⟩
      · exact (hold h).elim
      · exact (hlooping rfl).elim
  -- the only step that ends a wait
  | poll hw hpoll =>
      rcases of_getElem?_set hnew with ⟨rfl, rfl⟩ | ⟨-, h⟩
      · exact ⟨hw, hpoll⟩
      · exact (hold h).elim
  | waitOk hw =>
      rcases of_getElem?_set hnew with ⟨rfl, rfl⟩ | ⟨-, h⟩
      · exact (hlooping rfl).elim
      · exact (hold h).elim
  | waitError hw =>
      rcases of_getElem?_set hnew with ⟨rfl, rfl⟩ | ⟨-, h⟩
      · exact (hlooping rfl).elim
      · exact (hold h).elim
  | schedule => exact (hold hnew).elim
  | call => exact (hold hnew).elim
  | callbackReturns => exact (hold hnew).elim

/-- In a run, a wait that has returned was looping when it polled the tracker. -/
theorem exists_poll (ρ : Execution callbackTracker) {w j : Nat} {phase : WaitPhase}
    (hphase : phase = .returnedOk ∨ phase = .returnedFailedPrecondition)
    (h : (ρ.state j).waits[w]? = some phase) :
    ∃ i < j, (ρ.state i).waits[w]? = some .looping ∧ (ρ.state i).tracker.Poll phase := by
  have hinit : ¬(ρ.state 0).waits[w]? = some phase := by
    rw [show ρ.state 0 = ⟨.init, [], []⟩ from ρ.init]
    exact nofun
  obtain ⟨i, hi, hold, hnew, hstep⟩ := ρ.first_change (P := fun s => s.waits[w]? = some phase) hinit h
  exact ⟨i, hi, returned_of_step hstep hphase hold hnew⟩

/-- **Callback accounting.** In every run that issues fewer than 2^31 ids:

* a wait that has returned OK was in its loop at a moment when every id issued so far had been run or
  ignored;
* a wait that has returned `FailedPrecondition` was in its loop at a moment when a call of `Schedule`
  from outside was in progress;
* whenever no call of `Schedule` and no callback is in progress, `callbacks_` and `completed_early_`
  are empty. -/
theorem callback_accounting (ρ : Execution callbackTracker)
    (hlt : ∀ i, (ρ.state i).calls.length < 2 ^ 31) :
    (∀ w j : Nat, (ρ.state j).waits[w]? = some .returnedOk →
      ∃ i < j, (ρ.state i).waits[w]? = some .looping ∧
        ∀ c ∈ (ρ.state i).calls, c.settled = true) ∧
    (∀ w j : Nat, (ρ.state j).waits[w]? = some .returnedFailedPrecondition →
      ∃ i < j, (ρ.state i).waits[w]? = some .looping ∧
        ∃ c ∈ (ρ.state i).calls, c.caller = none ∧ c.ScheduleInProgress) ∧
    (∀ j, (∀ c ∈ (ρ.state j).calls, ¬c.ScheduleInProgress) →
      (∀ c ∈ (ρ.state j).calls, ¬c.CallbackInProgress) →
      (ρ.state j).tracker.callbacks = ∅ ∧ (ρ.state j).tracker.completedEarly = ∅) := by
  have hsound : ∀ i, (ρ.state i).tracker.Sound (ρ.state i).calls := fun i =>
    ρ.invariant inv_inductive i (hlt i)
  refine ⟨fun w j h => ?_, fun w j h => ?_, fun j => (hsound j).empty⟩
  · obtain ⟨i, hi, hlooping, hpoll⟩ := exists_poll ρ (.inl rfl) h
    cases hpoll with
    | done hpending => exact ⟨i, hi, hlooping, ((hsound i).numPending_le_zero (hlt i)).mp hpending⟩
  · obtain ⟨i, hi, hlooping, hpoll⟩ := exists_poll ρ (.inr rfl) h
    refine ⟨i, hi, hlooping, ?_⟩
    cases hpoll with
    | nothing hpending hempty =>
        -- If no external call were still being scheduled, some call would be registered.
        by_contra hnone
        have hexternal : ∀ c ∈ (ρ.state i).calls, c.caller = none → c.schedule = .returned := by
          intro c hc hcaller
          by_contra hprogress
          exact hnone ⟨c, hc, hcaller, hprogress⟩
        have hunsettled : ¬∀ c ∈ (ρ.state i).calls, c.settled = true := fun h =>
          hpending (((hsound i).numPending_le_zero (hlt i)).mpr h)
        push Not at hunsettled
        obtain ⟨c, hc, hsettled⟩ := hunsettled
        obtain ⟨n, hn⟩ := List.mem_iff_getElem?.mp hc
        obtain ⟨c', hc', hregistered⟩ :=
          (hsound i).exists_registered hexternal hn (Bool.eq_false_iff.mpr hsettled)
        have hmem := ((hsound i).tracks c' hc').callbacks.mpr hregistered
        rw [hempty] at hmem
        exact Finmap.notMem_empty hmem

/-- A call of `Schedule` has its id, and a wait finds nothing to wait for. -/
def earlyWait : Execution callbackTracker where
  state
    | 0 => ⟨.init, [], []⟩
    | 1 => ⟨CallbackTracker.init.getNewCallbackId.2, [⟨none, 1, .internal, .unscheduled⟩], []⟩
    | 2 => ⟨CallbackTracker.init.getNewCallbackId.2, [⟨none, 1, .internal, .unscheduled⟩],
        [.looping]⟩
    | _ => ⟨CallbackTracker.init.getNewCallbackId.2, [⟨none, 1, .internal, .unscheduled⟩],
        [.returnedFailedPrecondition]⟩
  init := rfl
  step
    | 0 => .inr (.schedule none nofun)
    | 1 => .inr .waitUntilAllCompleted
    | 2 => .inr (TrackerStep.poll (s := ⟨_, _, [.looping]⟩) (w := 0) rfl (.nothing (by decide) rfl))
    | _ + 3 => .inl rfl

theorem callback_accounting_earlyWait : ∃ i < 3, ∃ c ∈ (earlyWait.state i).calls,
    c.caller = none ∧ c.ScheduleInProgress := by
  have hlt : ∀ i, (earlyWait.state i).calls.length < 2 ^ 31
    | 0 => by simp [earlyWait]
    | 1 => by simp [earlyWait]
    | 2 => by simp [earlyWait]
    | _ + 3 => by simp [earlyWait]
  obtain ⟨i, hi, -, h⟩ := (callback_accounting earlyWait hlt).2.1 0 3 rfl
  exact ⟨i, hi, h⟩

end GenC
