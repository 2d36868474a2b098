import Mathlib.Algebra.Group.Int.Defs
import Mathlib.Algebra.Group.Nat.Defs
import GenC.Lib.ByteBuffer
import GenC.Lib.Transition

/-!
# The Java HTTP client

`interop/network/HttpClientImpl.java`: the callback that collects a response in byte buffers, and Cronet,
which calls it. Cronet is not part of the repository: it may redirect, fail, or fill as much as it likes of
the buffer that it was given, in any order that the documentation of its callbacks allows. Other threads run
the tasks of the `finishingExecutor`, or cancel the future, at any time.

**`reassembles`**: a response is the bytes that were delivered, in order, whatever the header says of their
number. No more redirects are followed than are allowed, and the next one fails the future.
-/

namespace GenC

open Lib

namespace HttpClientImpl

/-! ## Java -/

/-- `Integer.parseInt`, of ASCII digits. `none` is a `NumberFormatException`. -/
def parseInt (text : String) : Option Int32 :=
  let (sign, digits) : Int × List Char :=
    match text.toList with
    | '-' :: digits => (-1, digits)
    | '+' :: digits => (1, digits)
    | digits => (1, digits)
  let number := sign * digits.foldl (fun number digit => 10 * number + (digit.toNat - '0'.toNat : Nat)) 0
  if digits ≠ [] ∧ digits.all Char.isDigit ∧ -2 ^ 31 ≤ number ∧ number < 2 ^ 31 then some (.ofInt number)
  else none

/-- `none` is an `IllegalArgumentException`. -/
def allocateDirect (capacity : Int32) : Option ByteBuffer :=
  if capacity < 0 then none else some (.allocate capacity.toInt.toNat)

inductive Failure where
  /-- An `HttpException` with its message. -/
  | http (message : String)
  /-- Any other `RuntimeException`. -/
  | runtime
  deriving Repr, DecidableEq

/-- A `SettableFuture<HttpResponse>`. -/
inductive SettableFuture where
  | pending
  | response (bytes : List UInt8)
  | exception (e : Failure)
  | cancelled
  deriving Repr, DecidableEq

/-- `set`, `setException` and `cancel`: a future is completed once. -/
def SettableFuture.complete (future result : SettableFuture) : SettableFuture :=
  match future with
  | .pending => result
  | _ => future

/-- The buffers of a response as `coalesce` leaves them, and the buffer that it makes of them. -/
def coalesce (bufferList : List ByteBuffer) : List ByteBuffer × Option ByteBuffer :=
  match bufferList with
  | [] => ([], allocateDirect 0)
  | [result] =>
      let result := (if result.hasRemaining then result.flip else result).rewind
      ([result], some result)
  | _ =>
      let bufferList := bufferList.map ByteBuffer.flip
      let size := bufferList.foldl (fun size buffer => size + Int32.ofNat buffer.remaining) 0
      let resultBuffer := do
        let resultBuffer ← allocateDirect size
        return (← bufferList.foldlM (fun resultBuffer buffer => resultBuffer.put buffer.rest) resultBuffer).flip
      (bufferList, resultBuffer)

/-- `readResponseBody`. -/
def readResponseBody (responseBuffer : ByteBuffer) : List UInt8 := responseBuffer.rest

/-! ## The request -/

/-- What Cronet may call next. -/
inductive Cronet where
  /-- `onRedirectReceived` or `onResponseStarted`. -/
  | starting
  /-- `onReadCompleted` with the buffer of this number, or `onSucceeded`. -/
  | reading (buffer : Nat)
  /-- Nothing, unless the request fails or is canceled. -/
  | idle
  /-- It has made its last call. -/
  | finished
  deriving Repr, DecidableEq

/-- A task of the `finishingExecutor`. -/
inductive Task where
  | succeeded
  | failed
  | canceled
  deriving Repr, DecidableEq

structure UrlResponseInfo where
  httpStatusCode : Int32
  /-- The first `Content-Length`. -/
  contentLength : Option String

/-- A request with its callback and its future, and what happened to it so far. -/
structure UrlRequest where
  settableFuture : SettableFuture
  bufferList : List ByteBuffer
  redirectRemaining : Int32
  cronet : Cronet
  tasks : List Task
  /-- `cancel` was called on the request. -/
  canceled : Bool
  /-- In `onRedirectReceived`, after it has canceled the request. -/
  refusing : Bool
  /-- `onRedirectReceived` has returned after that. -/
  refused : Bool
  /-- The redirects that were followed. -/
  followed : Nat
  /-- The bytes that Cronet has put into buffers. -/
  delivered : List UInt8

namespace UrlRequest

/-- `send`. -/
def send (redirectsToFollow : Int32) : UrlRequest where
  settableFuture := .pending
  bufferList := []
  redirectRemaining := redirectsToFollow
  cronet := .starting
  tasks := []
  canceled := false
  refusing := false
  refused := false
  followed := 0
  delivered := []

def complete (result : SettableFuture) (r : UrlRequest) : UrlRequest :=
  { r with settableFuture := r.settableFuture.complete result }

/-- A `RuntimeException` in a callback. -/
def catchRuntime (r : UrlRequest) : UrlRequest := { r.complete (.exception .runtime) with cronet := .idle }

def bufferLength : Int32 := 128 * 1024

/-- `none` is a `NumberFormatException`. -/
def getResponseBufferSizeEstimate (info : UrlResponseInfo) : Option Int32 :=
  match info.contentLength with
  | some contentLength => (parseInt contentLength).map (· + 1)
  | none => some bufferLength

/-- `read` of Cronet does not take a full buffer. -/
def read (buffer : Nat) (r : UrlRequest) : UrlRequest :=
  match r.bufferList[buffer]? with
  | none => r
  | some byteBuffer => if byteBuffer.hasRemaining then { r with cronet := .reading buffer } else r.catchRuntime

/-- A new buffer at the end of the list, and a call of `read` with it. -/
def readNew (capacity : Option Int32) (r : UrlRequest) : UrlRequest :=
  match capacity.bind allocateDirect with
  | none => r.catchRuntime
  | some byteBuffer => read r.bufferList.length { r with bufferList := r.bufferList ++ [byteBuffer] }

def onResponseStarted (info : UrlResponseInfo) (r : UrlRequest) : UrlRequest :=
  if info.httpStatusCode = 200 then r.readNew (getResponseBufferSizeEstimate info)
  else
    { r.complete (.exception (.http ("Http request failed with status code: " ++ toString info.httpStatusCode)))
      with cronet := .idle }

/-- With the buffer of this number. -/
def onReadCompleted (buffer : Nat) (r : UrlRequest) : UrlRequest :=
  match r.bufferList[buffer]? with
  | none => r
  | some byteBuffer => if byteBuffer.hasRemaining then r.read buffer else r.readNew (some bufferLength)

/-- `onSucceeded`, `onFailed` and `onCanceled`. -/
def onFinished (task : Task) (r : UrlRequest) : UrlRequest :=
  { r with cronet := .finished, tasks := r.tasks ++ [task] }

/-- What the executor runs. -/
def run (task : Task) (r : UrlRequest) : UrlRequest :=
  match task with
  | .succeeded =>
      let (bufferList, responseBody) := coalesce r.bufferList
      let r := { r with bufferList := bufferList }
      match responseBody with
      | some responseBody => r.complete (.response (readResponseBody responseBody))
      | none => r.complete (.exception .runtime)
  | .failed => r.complete (.exception (.http "Http request failed"))
  | .canceled => r.complete .cancelled

/-- A step of Cronet, of the executor, or of who waits for the future. -/
inductive Step (redirectsToFollow : Int32) : UrlRequest → UrlRequest → Prop where
  /-- `onRedirectReceived`, with `followRedirect`. -/
  | follow {r : UrlRequest} (h : r.cronet = .starting) (hremaining : 0 < r.redirectRemaining) :
      Step redirectsToFollow r
        { r with redirectRemaining := r.redirectRemaining - 1, followed := r.followed + 1 }
  /-- `onRedirectReceived`, up to `cancel`. -/
  | refuse {r : UrlRequest} (h : r.cronet = .starting) (hremaining : ¬0 < r.redirectRemaining) :
      Step redirectsToFollow r { r with cronet := .idle, canceled := true, refusing := true }
  /-- `onRedirectReceived`, after `cancel`. -/
  | refused {r : UrlRequest} (h : r.refusing = true) :
      Step redirectsToFollow r
        { r.complete (.exception (.http ("More redirects than allowed: " ++ toString redirectsToFollow))) with
          refusing := false
          refused := true }
  | onResponseStarted {r : UrlRequest} (info : UrlResponseInfo) (h : r.cronet = .starting) :
      Step redirectsToFollow r (r.onResponseStarted info)
  /-- Some bytes, or none, are put into the buffer. -/
  | onReadCompleted {r : UrlRequest} {buffer : Nat} {byteBuffer filled : ByteBuffer} (bytes : List UInt8)
      (h : r.cronet = .reading buffer) (hbuffer : r.bufferList[buffer]? = some byteBuffer)
      (hfilled : byteBuffer.put bytes = some filled) :
      Step redirectsToFollow r
        (onReadCompleted buffer
          { r with bufferList := r.bufferList.set buffer filled, delivered := r.delivered ++ bytes })
  | onSucceeded {r : UrlRequest} {buffer : Nat} (h : r.cronet = .reading buffer) :
      Step redirectsToFollow r (r.onFinished .succeeded)
  | onFailed {r : UrlRequest} (h : r.cronet ≠ .finished) : Step redirectsToFollow r (r.onFinished .failed)
  | onCanceled {r : UrlRequest} (h : r.cronet ≠ .finished) (hcanceled : r.canceled = true) :
      Step redirectsToFollow r (r.onFinished .canceled)
  | run {r : UrlRequest} {before after : List Task} {task : Task} (h : r.tasks = before ++ task :: after) :
      Step redirectsToFollow r (run task { r with tasks := before ++ after })
  /-- The future is canceled from outside, and its listener cancels the request. -/
  | cancel {r : UrlRequest} (h : r.settableFuture = .pending) :
      Step redirectsToFollow r { r.complete .cancelled with canceled := true }

/-- A request with so many redirects to follow, and any response. -/
def system (redirectsToFollow : Int32) : System UrlRequest where
  init r := r = send redirectsToFollow
  step := Step redirectsToFollow

end UrlRequest

/-! ## Coalescing -/

/-- Whatever the buffers and the sum of their sizes, the result is what was written to them, in order. -/
theorem rest_of_coalesce {bufferList : List ByteBuffer} {responseBody : ByteBuffer}
    (h : (coalesce bufferList).2 = some responseBody) :
    responseBody.rest = (bufferList.map ByteBuffer.written).flatten := by
  unfold coalesce at h
  split at h
  · cases h
    rfl
  · next result =>
      cases h
      -- one buffer is handed on itself, flipped unless it is full
      have hflatten : ([result].map ByteBuffer.written).flatten = result.written := List.append_nil _
      rw [hflatten]
      split
      · exact ByteBuffer.rest_rewind_flip result
      · next hremaining => exact ByteBuffer.rest_rewind_of_full (Bool.not_eq_true _ ▸ hremaining)
  · obtain ⟨resultBuffer, hallocate, h⟩ := Option.bind_eq_some_iff.mp h
    obtain ⟨filled, hput, h⟩ := Option.bind_eq_some_iff.mp h
    cases h
    -- several are copied, one after the other, into a buffer that starts empty
    have hwritten : resultBuffer.written = [] := by
      unfold allocateDirect at hallocate
      split at hallocate
      · cases hallocate
      · cases hallocate
        rfl
    rw [ByteBuffer.rest_flip, ByteBuffer.written_putAll hput, hwritten, List.map_map]
    rfl

namespace SettableFuture

variable {future result : SettableFuture}

theorem eq_or_eq_of_complete (future result : SettableFuture) :
    future.complete result = future ∨ future.complete result = result := by
  cases future with
  | pending => exact .inr rfl
  | _ => exact .inl rfl

theorem complete_ne_pending (h : result ≠ .pending) : future.complete result ≠ .pending := by
  cases future with
  | pending => exact h
  | _ => exact nofun

/-- A future with a response had it before, or gets it now. -/
theorem response_of_complete {bytes : List UInt8} (h : future.complete result = .response bytes) :
    future = .response bytes ∨ result = .response bytes := by
  rcases eq_or_eq_of_complete future result with heq | heq
  · exact .inl (heq ▸ h)
  · exact .inr (heq ▸ h)

end SettableFuture

/-! ## The invariant -/

/-- What holds of a request at any time. -/
structure Consistent (redirectsToFollow : Int32) (r : UrlRequest) : Prop where
  /-- Cronet fills the last buffer. -/
  reading_last : ∀ buffer, r.cronet = .reading buffer → buffer + 1 = r.bufferList.length
  /-- Until they are coalesced, the buffers have what was delivered. -/
  written : r.cronet ≠ .finished ∨ .succeeded ∈ r.tasks →
    (r.bufferList.map ByteBuffer.written).flatten = r.delivered
  tasks_nil : r.cronet ≠ .finished → r.tasks = []
  tasks_length : r.tasks.length ≤ 1
  response : ∀ bytes, r.settableFuture = .response bytes →
    r.cronet = .finished ∧ r.tasks = [] ∧ bytes = r.delivered
  redirects : r.followed + r.redirectRemaining.toInt = redirectsToFollow.toInt
  remaining : r.followed = 0 ∨ 0 ≤ r.redirectRemaining.toInt
  refusal : r.refusing = true ∨ r.refused = true →
    (r.cronet = .idle ∨ r.cronet = .finished) ∧ .succeeded ∉ r.tasks ∧
      (∀ bytes, r.settableFuture ≠ .response bytes) ∧ r.followed = redirectsToFollow.toInt.toNat
  refused : r.refused = true → r.settableFuture ≠ .pending

namespace Consistent

variable {redirectsToFollow : Int32} {r : UrlRequest}

theorem send : Consistent redirectsToFollow (.send redirectsToFollow) where
  reading_last := nofun
  written _ := rfl
  tasks_nil _ := rfl
  tasks_length := Nat.zero_le _
  response := nofun
  redirects := Int.zero_add _
  remaining := .inl rfl
  refusal := by simp [UrlRequest.send]
  refused := nofun

/-- Before the last call of Cronet, the future has no response. -/
theorem not_response (h : Consistent redirectsToFollow r) (hcronet : r.cronet ≠ .finished)
    (bytes : List UInt8) :
    r.settableFuture ≠ .response bytes :=
  fun hresponse => hcronet (h.response bytes hresponse).1

/-- While Cronet has something to call, no redirect was refused. -/
theorem not_refused (h : Consistent redirectsToFollow r) (hidle : r.cronet ≠ .idle)
    (hfinished : r.cronet ≠ .finished) : ¬(r.refusing = true ∨ r.refused = true) := by
  intro hrefusal
  rcases (h.refusal hrefusal).1 with hcronet | hcronet
  · exact hidle hcronet
  · exact hfinished hcronet

/-- A call that ends with `read`, or with an exception. -/
theorem next (h : Consistent redirectsToFollow r) (hidle : r.cronet ≠ .idle) (hfinished : r.cronet ≠ .finished)
    {bufferList : List ByteBuffer} {cronet : Cronet} {settableFuture : SettableFuture}
    (hwritten : (bufferList.map ByteBuffer.written).flatten = r.delivered)
    (hreading : ∀ buffer, cronet = .reading buffer → buffer + 1 = bufferList.length)
    (hfuture : settableFuture = r.settableFuture ∨ ∃ e,
      settableFuture = r.settableFuture.complete (.exception e)) :
    Consistent redirectsToFollow
      { r with bufferList := bufferList, cronet := cronet, settableFuture := settableFuture } where
  reading_last := hreading
  written _ := hwritten
  tasks_nil _ := h.tasks_nil hfinished
  tasks_length := h.tasks_length
  response bytes hresponse := by
    -- an unfinished request has no response, and completing with an exception makes none
    have hnone := h.not_response hfinished bytes
    rcases hfuture with rfl | ⟨e, rfl⟩
    · exact absurd hresponse hnone
    · rcases SettableFuture.response_of_complete hresponse with hresponse | hresponse
      · exact absurd hresponse hnone
      · cases hresponse
  redirects := h.redirects
  remaining := h.remaining
  refusal hrefusal := absurd hrefusal (h.not_refused hidle hfinished)
  refused hrefused := absurd (.inr hrefused) (h.not_refused hidle hfinished)

theorem catchRuntime (h : Consistent redirectsToFollow r) (hidle : r.cronet ≠ .idle)
    (hfinished : r.cronet ≠ .finished) : Consistent redirectsToFollow r.catchRuntime :=
  h.next hidle hfinished (h.written (.inl hfinished)) nofun (.inr ⟨_, rfl⟩)

theorem read (h : Consistent redirectsToFollow r) (hidle : r.cronet ≠ .idle) (hfinished : r.cronet ≠ .finished)
    {buffer : Nat} (hlast : buffer + 1 = r.bufferList.length) :
    Consistent redirectsToFollow (r.read buffer) := by
  unfold UrlRequest.read
  split
  · exact h
  · split
    · refine h.next hidle hfinished (h.written (.inl hfinished)) (fun buffer' heq => ?_) (.inl rfl)
      cases heq
      exact hlast
    · exact h.catchRuntime hidle hfinished

theorem readNew (h : Consistent redirectsToFollow r) (hidle : r.cronet ≠ .idle)
    (hfinished : r.cronet ≠ .finished)
    (capacity : Option Int32) : Consistent redirectsToFollow (r.readNew capacity) := by
  unfold UrlRequest.readNew
  split
  · exact h.catchRuntime hidle hfinished
  · next byteBuffer hallocate =>
      obtain ⟨capacity, -, hallocate⟩ := Option.bind_eq_some_iff.mp hallocate
      -- the new buffer is empty, so what was written stays what was delivered
      have hempty : byteBuffer.written = [] := by
        unfold allocateDirect at hallocate
        split at hallocate
        · cases hallocate
        · cases hallocate
          rfl
      have hwritten : ((r.bufferList ++ [byteBuffer]).map ByteBuffer.written).flatten = r.delivered := by
        rw [List.map_append, List.flatten_append, h.written (.inl hfinished)]
        simp [hempty]
      have hget : (r.bufferList ++ [byteBuffer])[r.bufferList.length]? = some byteBuffer := by simp
      unfold UrlRequest.read
      dsimp only
      rw [hget]
      dsimp only
      split
      · refine h.next hidle hfinished hwritten (fun buffer heq => ?_) (.inl rfl)
        cases heq
        rw [List.length_append]
        rfl
      · exact h.next hidle hfinished hwritten nofun (.inr ⟨_, rfl⟩)

theorem onResponseStarted (h : Consistent redirectsToFollow r) (info : UrlResponseInfo)
    (hcronet : r.cronet = .starting) : Consistent redirectsToFollow (r.onResponseStarted info) := by
  have hidle : r.cronet ≠ .idle := hcronet ▸ nofun
  have hfinished : r.cronet ≠ .finished := hcronet ▸ nofun
  unfold UrlRequest.onResponseStarted
  split
  · exact h.readNew hidle hfinished _
  · exact h.next hidle hfinished (h.written (.inl hfinished)) nofun (.inr ⟨_, rfl⟩)

/-- What Cronet puts into the last buffer comes after what was delivered before. -/
theorem deliver (h : Consistent redirectsToFollow r) {buffer : Nat} {byteBuffer filled : ByteBuffer}
    {bytes : List UInt8} (hcronet : r.cronet = .reading buffer)
    (hbuffer : r.bufferList[buffer]? = some byteBuffer) (hfilled : byteBuffer.put bytes = some filled) :
    Consistent redirectsToFollow
      { r with bufferList := r.bufferList.set buffer filled, delivered := r.delivered ++ bytes } := by
  have hfinished : r.cronet ≠ .finished := hcronet ▸ nofun
  have hidle : r.cronet ≠ .idle := hcronet ▸ nofun
  have hlast := h.reading_last buffer hcronet
  -- the buffer that Cronet writes into is the last of the list
  obtain ⟨before, hbefore⟩ : ∃ before, r.bufferList = before ++ [byteBuffer] := by
    refine List.getLast?_eq_some_iff.mp ?_
    rw [List.getLast?_eq_getElem?, ← hlast]
    exact hbuffer
  have hset : r.bufferList.set buffer filled = before ++ [filled] := by
    rw [hbefore, List.length_append] at hlast
    have hbuffer : buffer = before.length := Nat.succ_inj.mp hlast
    rw [hbefore, hbuffer, List.set_append_right _ _ (Nat.le_refl _), Nat.sub_self]
    rfl
  have hwritten := h.written (.inl hfinished)
  rw [hbefore, List.map_append, List.flatten_append] at hwritten
  exact
    { reading_last := fun buffer' heq => by
        rw [List.length_set]
        exact h.reading_last buffer' heq
      written := fun _ => by
        rw [hset, List.map_append, List.flatten_append, ← hwritten]
        simp [ByteBuffer.written_put hfilled]
      tasks_nil := h.tasks_nil
      tasks_length := h.tasks_length
      response := fun bytes' hresponse => absurd hresponse (h.not_response hfinished bytes')
      redirects := h.redirects
      remaining := h.remaining
      refusal := h.refusal
      refused := h.refused }

theorem onReadCompleted (h : Consistent redirectsToFollow r) {buffer : Nat}
    (hcronet : r.cronet = .reading buffer) :
    Consistent redirectsToFollow (r.onReadCompleted buffer) := by
  have hidle : r.cronet ≠ .idle := hcronet ▸ nofun
  have hfinished : r.cronet ≠ .finished := hcronet ▸ nofun
  unfold UrlRequest.onReadCompleted
  split
  · exact h
  · split
    · exact h.read hidle hfinished (h.reading_last buffer hcronet)
    · exact h.readNew hidle hfinished _

theorem onFinished (h : Consistent redirectsToFollow r) {task : Task} (hfinished : r.cronet ≠ .finished)
    (htask : task = .succeeded → ∃ buffer, r.cronet = .reading buffer) :
    Consistent redirectsToFollow (r.onFinished task) := by
  have hnil := h.tasks_nil hfinished
  exact
    { reading_last := nofun
      written := fun _ => h.written (.inl hfinished)
      tasks_nil := fun hne => absurd rfl hne
      tasks_length := by simp [UrlRequest.onFinished, hnil]
      response := fun bytes hresponse => absurd hresponse (h.not_response hfinished bytes)
      redirects := h.redirects
      remaining := h.remaining
      refusal := fun hrefusal => by
        obtain ⟨hcronet, -, hresponse, hfollowed⟩ := h.refusal hrefusal
        refine ⟨.inr rfl, fun hmem => ?_, hresponse, hfollowed⟩
        simp only [UrlRequest.onFinished, hnil, List.nil_append, List.mem_singleton] at hmem
        obtain ⟨buffer, hreading⟩ := htask hmem.symm
        rw [hreading] at hcronet
        rcases hcronet with hcronet | hcronet <;> cases hcronet
      refused := h.refused }

/-- The last task completes the future, if nothing else has. -/
theorem settle (h : Consistent redirectsToFollow r) (hfinished : r.cronet = .finished)
    (bufferList : List ByteBuffer) {result : SettableFuture} (hpending : result ≠ .pending)
    (hresult : ∀ bytes, result = .response bytes → .succeeded ∈ r.tasks ∧ bytes = r.delivered) :
    Consistent redirectsToFollow
      { r with
        tasks := [], bufferList := bufferList, settableFuture := r.settableFuture.complete result } where
  reading_last buffer hreading := by
    rw [hfinished] at hreading
    cases hreading
  written h := by
    rcases h with hne | hmem
    · exact absurd hfinished hne
    · cases hmem
  tasks_nil _ := rfl
  tasks_length := Nat.zero_le _
  response bytes hresponse := by
    rcases SettableFuture.response_of_complete hresponse with hresponse | hresponse
    -- a future that was complete already keeps its result
    · exact ⟨hfinished, rfl, (h.response bytes hresponse).2.2⟩
    · exact ⟨hfinished, rfl, (hresult bytes hresponse).2⟩
  redirects := h.redirects
  remaining := h.remaining
  refusal hrefusal := by
    obtain ⟨hcronet, htasks, hnone, hfollowed⟩ := h.refusal hrefusal
    refine ⟨hcronet, List.not_mem_nil, fun bytes hresponse => ?_, hfollowed⟩
    rcases SettableFuture.response_of_complete hresponse with hresponse | hresponse
    · exact hnone bytes hresponse
    · exact htasks (hresult bytes hresponse).1
  refused _ := SettableFuture.complete_ne_pending hpending

/-- A task is the only one. -/
theorem run (h : Consistent redirectsToFollow r) {before after : List Task} {task : Task}
    (htasks : r.tasks = before ++ task :: after) :
    Consistent redirectsToFollow (UrlRequest.run task { r with tasks := before ++ after }) := by
  have hlength := h.tasks_length
  rw [htasks, List.length_append, List.length_cons] at hlength
  -- there is at most one task
  obtain rfl : before = [] := List.length_eq_zero_iff.mp (by omega)
  obtain rfl : after = [] := List.length_eq_zero_iff.mp (by omega)
  have hmem : task ∈ r.tasks := htasks ▸ List.mem_cons_self
  -- and there are tasks only after the request has finished
  have hfinished : r.cronet = .finished := by
    by_contra hne
    rw [h.tasks_nil hne] at hmem
    cases hmem
  cases task with
  | succeeded =>
      unfold UrlRequest.run
      dsimp only
      split
      · next responseBody hcoalesce =>
          have hrest := rest_of_coalesce hcoalesce
          rw [h.written (.inr hmem)] at hrest
          refine h.settle hfinished _ nofun fun bytes heq => ?_
          cases heq
          exact ⟨hmem, hrest⟩
      · exact h.settle hfinished _ nofun nofun
  | failed => exact h.settle hfinished r.bufferList nofun nofun
  | canceled => exact h.settle hfinished r.bufferList nofun nofun

theorem toInt_sub_one {i : Int32} (h : 0 < i.toInt) : (i - 1).toInt = i.toInt - 1 :=
  Int32.toInt_sub_of_le i 1 (by decide) (Int32.le_iff_toInt_le.mpr h)

theorem step {r' : UrlRequest} (h : Consistent redirectsToFollow r)
    (hstep : UrlRequest.Step redirectsToFollow r r') :
    Consistent redirectsToFollow r' := by
  cases hstep with
  | follow hcronet hremaining =>
      have hfinished : r.cronet ≠ .finished := hcronet ▸ nofun
      have hidle : r.cronet ≠ .idle := hcronet ▸ nofun
      have hpos : 0 < r.redirectRemaining.toInt := Int32.lt_iff_toInt_lt.mp hremaining
      -- one redirect less remains, and nothing wraps around as one was left
      have hsub := toInt_sub_one hpos
      have hredirects := h.redirects
      exact
        { reading_last := h.reading_last
          written := h.written
          tasks_nil := h.tasks_nil
          tasks_length := h.tasks_length
          response := h.response
          redirects := by
            dsimp only
            rw [hsub]
            omega
          remaining := .inr (by
            dsimp only
            rw [hsub]
            omega)
          refusal := fun hrefusal => absurd hrefusal (h.not_refused hidle hfinished)
          refused := h.refused }
  | refuse hcronet hremaining =>
      have hfinished : r.cronet ≠ .finished := hcronet ▸ nofun
      have hnil := h.tasks_nil hfinished
      exact
        { reading_last := nofun
          written := fun _ => h.written (.inl hfinished)
          tasks_nil := fun _ => hnil
          tasks_length := h.tasks_length
          response := fun bytes hresponse => absurd hresponse (h.not_response hfinished bytes)
          redirects := h.redirects
          remaining := h.remaining
          refusal := fun _ => by
            refine ⟨.inl rfl, by simp [hnil], h.not_response hfinished, ?_⟩
            -- no redirect remains, so all of them have been followed
            have hnonpos : ¬0 < r.redirectRemaining.toInt :=
              fun hpos => hremaining (Int32.lt_iff_toInt_lt.mpr hpos)
            have hredirects := h.redirects
            have hfollowed := h.remaining
            dsimp only
            omega
          refused := h.refused }
  | refused hrefusing =>
      obtain ⟨hcronet, htasks, hresponse, hfollowed⟩ := h.refusal (.inl hrefusing)
      -- the exception is not a response, whether it is set or comes too late
      have hresponse' (bytes : List UInt8) : r.settableFuture.complete
          (.exception (.http ("More redirects than allowed: " ++ toString redirectsToFollow))) ≠ .response bytes := by
        intro heq
        rcases SettableFuture.response_of_complete heq with heq | heq
        · exact hresponse bytes heq
        · cases heq
      exact
        { reading_last := h.reading_last
          written := h.written
          tasks_nil := h.tasks_nil
          tasks_length := h.tasks_length
          response := fun bytes heq => absurd heq (hresponse' bytes)
          redirects := h.redirects
          remaining := h.remaining
          refusal := fun _ => ⟨hcronet, htasks, hresponse', hfollowed⟩
          refused := fun _ => SettableFuture.complete_ne_pending nofun }
  | onResponseStarted info hcronet => exact h.onResponseStarted info hcronet
  | onReadCompleted bytes hcronet hbuffer hfilled =>
      exact (h.deliver hcronet hbuffer hfilled).onReadCompleted hcronet
  | onSucceeded hcronet => exact h.onFinished (hcronet ▸ nofun) fun _ => ⟨_, hcronet⟩
  | onFailed hfinished => exact h.onFinished hfinished nofun
  | onCanceled hfinished hcanceled => exact h.onFinished hfinished nofun
  | run htasks => exact h.run htasks
  | cancel hpending =>
      have hresponse' (bytes : List UInt8) (heq : r.settableFuture.complete .cancelled = .response bytes) :
          r.settableFuture = .response bytes :=
        (SettableFuture.response_of_complete heq).resolve_right nofun
      exact
        { reading_last := h.reading_last
          written := h.written
          tasks_nil := h.tasks_nil
          tasks_length := h.tasks_length
          response := fun bytes heq => h.response bytes (hresponse' bytes heq)
          redirects := h.redirects
          remaining := h.remaining
          refusal := fun hrefusal => by
            obtain ⟨hcronet, htasks, hresponse, hfollowed⟩ := h.refusal hrefusal
            exact ⟨hcronet, htasks, fun bytes heq => hresponse bytes (hresponse' bytes heq), hfollowed⟩
          refused := fun _ => SettableFuture.complete_ne_pending nofun }

/-- It holds in every run. -/
theorem inductive_system (redirectsToFollow : Int32) :
    (UrlRequest.system redirectsToFollow).Inductive (Consistent redirectsToFollow) where
  init h := by
    cases h
    exact .send
  step h hstep := h.step hstep

end Consistent

/-- In every run: a response is what was delivered; no more redirects are followed than are allowed; and when
one is refused, that many have been followed, and the future fails. -/
theorem reassembles {redirectsToFollow : Int32} {r : UrlRequest}
    (h : (UrlRequest.system redirectsToFollow).Reachable r) :
    (∀ bytes, r.settableFuture = .response bytes → bytes = r.delivered) ∧
      r.followed ≤ redirectsToFollow.toInt.toNat ∧
      (r.refused = true → r.followed = redirectsToFollow.toInt.toNat ∧
        (r.settableFuture = .cancelled ∨ ∃ e, r.settableFuture = .exception e)) := by
  have hconsistent := (Consistent.inductive_system redirectsToFollow).reachable h
  refine ⟨fun bytes hresponse => (hconsistent.response bytes hresponse).2.2, ?_, fun hrefused => ?_⟩
  -- what was followed and what remains add up to the limit
  · have hredirects := hconsistent.redirects
    have hremaining := hconsistent.remaining
    omega
  · obtain ⟨-, -, hresponse, hfollowed⟩ := hconsistent.refusal (.inr hrefused)
    refine ⟨hfollowed, ?_⟩
    cases hfuture : r.settableFuture with
    | pending => exact absurd hfuture (hconsistent.refused hrefused)
    | response bytes => exact absurd hfuture (hresponse bytes)
    | exception e => exact .inr ⟨e, rfl⟩
    | cancelled => exact .inl rfl

/-- After one redirect, three bytes come in two parts. The header says that there are five. -/
theorem reassembles_three : ∃ r, (UrlRequest.system 1).Reachable r ∧ r.settableFuture = .response [7, 8, 9] ∧
    r.delivered = [7, 8, 9] ∧ r.followed ≤ (1 : Int32).toInt.toNat := by
  have hsend : (UrlRequest.system 1).Reachable (.send 1) := .init rfl
  have hfollow := hsend.step (.follow rfl (by decide))
  have hstarted := hfollow.step (.onResponseStarted ⟨200, some "5"⟩ rfl)
  have hread := hstarted.step (.onReadCompleted [7, 8] rfl rfl rfl)
  have hread' := hread.step (.onReadCompleted [9] rfl rfl rfl)
  have hsucceeded := hread'.step (.onSucceeded rfl)
  have hrun := hsucceeded.step (@UrlRequest.Step.run 1 _ [] [] .succeeded rfl)
  obtain ⟨hresponse, hfollowed, -⟩ := reassembles hrun
  exact ⟨_, hrun, rfl, (hresponse _ rfl).symm, hfollowed⟩

end HttpClientImpl

end GenC
