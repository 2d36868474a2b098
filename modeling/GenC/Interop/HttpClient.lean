import GenC.Lib.History
import GenC.Proto.Value

/-!
# The HTTP client

`interop/networking/http_client_interface.h` and `curl_based_http_client.cc`. libcurl is not part of the
repository. What is relied on is what its manual says: an option of an easy handle stays as it is until it
is set again, strings are copied except the one of `CURLOPT_POSTFIELDS`, and a header list has to stay
alive for as long as a transfer may use it.

**`independent_iff`**: the transfers of a client are as each call asks for exactly when no call without a
socket follows one with a socket and no GET follows a POST. Otherwise a transfer goes to a socket, or
reads a header list, that an earlier call left behind.
-/

namespace GenC

open Lib

/-- How a function ends that does not return. -/
inductive Abrupt where
  /-- libcurl reads memory that was freed. -/
  | undefinedBehavior
  /-- A `nlohmann::json::type_error` that nobody catches. -/
  | typeError
  deriving Repr, DecidableEq

/-- `ω` is what the transfers show of themselves, `σ` the state of the client. -/
structure HttpClientInterface (ω σ : Type) where
  getFromUrl (url : String) : Run ω Abrupt Status σ String
  postJsonToUrl (url jsonRequest : String) : Run ω Abrupt Status σ String
  getFromUrlAndSocket (url socketPath : String) : Run ω Abrupt Status σ String
  postJsonToUrlAndSocket (url socketPath jsonRequest : String) : Run ω Abrupt Status σ String

/-- The four methods as one type. -/
inductive HttpCall where
  | getFromUrl (url : String)
  | postJsonToUrl (url jsonRequest : String)
  | getFromUrlAndSocket (url socketPath : String)
  | postJsonToUrlAndSocket (url socketPath jsonRequest : String)
  deriving Repr, DecidableEq

def HttpClientInterface.call (client : HttpClientInterface ω σ) :
    HttpCall → Run ω Abrupt Status σ String
  | .getFromUrl url => client.getFromUrl url
  | .postJsonToUrl url jsonRequest => client.postJsonToUrl url jsonRequest
  | .getFromUrlAndSocket url socketPath => client.getFromUrlAndSocket url socketPath
  | .postJsonToUrlAndSocket url socketPath jsonRequest =>
      client.postJsonToUrlAndSocket url socketPath jsonRequest

/-! ## Borrowed memory -/

/-- `std::string::c_str()` as a C function reads it. -/
def cStr (text : String) : String := String.ofList (text.toList.takeWhile (· != Char.ofNat 0))

/-- Objects that are passed by pointer. A slot is empty once its object is gone. -/
abbrev Memory (α : Type) : Type := List (Option α)

/-- What is behind a pointer. -/
inductive Pointee (α : Type) where
  | null
  | live (a : α)
  | freed
  deriving Repr, DecidableEq

namespace Memory

variable {α : Type}

def read (memory : Memory α) : Option Nat → Pointee α
  | none => .null
  | some p =>
      match memory[p]? with
      | some (some a) => .live a
      | _ => .freed

def free (memory : Memory α) (p : Nat) : Memory α := memory.set p none

@[simp] theorem read_null (memory : Memory α) : memory.read none = .null := rfl

@[simp] theorem read_new (memory : Memory α) (a : α) :
    (memory ++ [some a]).read (some memory.length) = .live a := by
  simp [read]

@[simp] theorem read_free (memory : Memory α) (p : Nat) : (memory.free p).read (some p) = .freed := by
  simp only [read, free, List.getElem?_set_self']
  cases memory[p]? <;> rfl

end Memory

/-! ## libcurl -/

inductive HttpMethod where
  | get
  | post
  deriving Repr, DecidableEq

/-- What a transfer sends, and where to. -/
structure Transfer where
  method : HttpMethod
  url : String
  unixSocket : Option String
  headers : Pointee (List String)
  body : Pointee String
  deriving Repr, DecidableEq

/-- The options of an easy handle that the client sets. -/
structure CurlOptions where
  verbose : Bool := false
  /-- `CURLOPT_HEADER`: whether the headers of the answer go to the output. -/
  header : Bool := false
  /-- What `CURLOPT_HTTPGET` and `CURLOPT_POSTFIELDS` choose between. -/
  method : HttpMethod := .get
  url : String := ""
  unixSocketPath : Option String := none
  httpHeader : Option Nat := none
  postFields : Option Nat := none
  deriving Repr, DecidableEq

/-- The client with the memory its handle points into, and what it has sent so far. -/
structure CurlBasedHttpClient where
  curl : CurlOptions
  headerLists : Memory (List String)
  requests : Memory String
  sent : List Transfer
  deriving Repr, DecidableEq

/-- The answer to a transfer, or what `curl_easy_strerror` says. It may depend on all that was sent. -/
abbrev Network : Type := List Transfer → Transfer → Except String String

namespace CurlBasedHttpClient

/-- The transfer that the options stand for. A GET has no body. -/
def transfer (client : CurlBasedHttpClient) : Transfer where
  method := client.curl.method
  url := client.curl.url
  unixSocket := client.curl.unixSocketPath
  headers := client.headerLists.read client.curl.httpHeader
  body :=
    match client.curl.method with
    | .get => .null
    | .post => client.requests.read client.curl.postFields

/-- A computation on a client. -/
abbrev Curl (α : Type) : Type := Run Transfer Abrupt Status CurlBasedHttpClient α

def setopt (set : CurlOptions → CurlOptions) : Curl Unit :=
  Run.step fun client => (.ok (), { client with curl := set client.curl })

def performEasy (network : Network) : Curl (Except String String) := fun client =>
  let transfer := client.transfer
  if transfer.headers = .freed ∨ transfer.body = .freed then
    ([transfer], .crash .undefinedBehavior)
  else
    ([transfer], .ok (network client.sent transfer) { client with sent := client.sent ++ [transfer] })

/-- `curl_slist_append` to an empty list. -/
def slistAppend (header : String) : Curl Nat :=
  Run.step fun client =>
    (.ok client.headerLists.length, { client with headerLists := client.headerLists ++ [some [header]] })

def slistFreeAll (headers : Nat) : Curl Unit :=
  Run.step fun client => (.ok (), { client with headerLists := client.headerLists.free headers })

/-- The caller's string, lent for the time of a call. -/
def lend (text : String) : Curl Nat :=
  Run.step fun client =>
    (.ok client.requests.length, { client with requests := client.requests ++ [some (cStr text)] })

def giveBack (text : Nat) : Curl Unit :=
  Run.step fun client => (.ok (), { client with requests := client.requests.free text })

/-! ## The client -/

/-- A client around the handle that `curl_easy_init` returns. -/
def fresh (debug : Bool) : CurlBasedHttpClient := ⟨{ verbose := debug }, [], [], []⟩

def Create (curlEasyInit : Bool) (debug : Bool) : StatusOr CurlBasedHttpClient :=
  if curlEasyInit then .ok (fresh debug)
  else .error (.internal "Unable to init CURL.")

def callInternal (network : Network) (url : String) : Curl String := do
  setopt fun options => { options with url := cStr url }
  match ← performEasy network with
  | .ok response => pure response
  | .error code =>
      Run.throw (.internal ("Received an error from \"" ++ url ++ "\": \"" ++ code ++ "\"."))

def getFromUrl (network : Network) (url : String) : Curl String := do
  setopt fun options => { options with header := false }
  setopt fun options => { options with method := .get }
  callInternal network url

def postJsonToUrl (network : Network) (url jsonRequest : String) : Curl String := do
  let headers ← slistAppend "Content-Type: application/json"
  setopt fun options => { options with httpHeader := some headers }
  let fields ← lend jsonRequest
  setopt fun options => { options with postFields := some fields, method := .post }
  let result ← (callInternal network url).attempt
  slistFreeAll headers
  -- From here on the string is the caller's again, the pointer to it stays in the handle.
  giveBack fields
  Run.ofExcept result

def getFromUrlAndSocket (network : Network) (url socketPath : String) : Curl String := do
  setopt fun options => { options with unixSocketPath := some (cStr socketPath) }
  getFromUrl network url

def postJsonToUrlAndSocket (network : Network) (url socketPath jsonRequest : String) : Curl String := do
  setopt fun options => { options with unixSocketPath := some (cStr socketPath) }
  postJsonToUrl network url jsonRequest

def methods (network : Network) : HttpClientInterface Transfer CurlBasedHttpClient where
  getFromUrl := getFromUrl network
  postJsonToUrl := postJsonToUrl network
  getFromUrlAndSocket := getFromUrlAndSocket network
  postJsonToUrlAndSocket := postJsonToUrlAndSocket network

end CurlBasedHttpClient

/-! ## What a call asks for -/

namespace HttpCall

def socketPath : HttpCall → Option String
  | getFromUrl _ => none
  | postJsonToUrl _ _ => none
  | getFromUrlAndSocket _ socketPath => some socketPath
  | postJsonToUrlAndSocket _ socketPath _ => some socketPath

def isPost : HttpCall → Bool
  | getFromUrl _ => false
  | postJsonToUrl _ _ => true
  | getFromUrlAndSocket _ _ => false
  | postJsonToUrlAndSocket _ _ _ => true

/-- The transfer of a call that depends on its own arguments alone. -/
def transfer : HttpCall → Transfer
  | getFromUrl url => ⟨.get, cStr url, none, .null, .null⟩
  | postJsonToUrl url jsonRequest =>
      ⟨.post, cStr url, none, .live ["Content-Type: application/json"], .live (cStr jsonRequest)⟩
  | getFromUrlAndSocket url socketPath => ⟨.get, cStr url, some (cStr socketPath), .null, .null⟩
  | postJsonToUrlAndSocket url socketPath jsonRequest =>
      ⟨.post, cStr url, some (cStr socketPath), .live ["Content-Type: application/json"],
        .live (cStr jsonRequest)⟩

/-- Nothing that `earlier` sets is missing in `later`. -/
def Covers (earlier later : HttpCall) : Prop :=
  (earlier.socketPath.isSome → later.socketPath.isSome) ∧ (earlier.isPost → later.isPost)

instance (earlier later : HttpCall) : Decidable (earlier.Covers later) :=
  inferInstanceAs (Decidable (_ ∧ _))

end HttpCall

namespace CurlBasedHttpClient

/-- In a sequence of calls on one client, each going on whatever became of the one before, every transfer
is the one its own call asks for, and no freed memory is read. -/
def Independent (network : Network) (calls : List HttpCall) (client : CurlBasedHttpClient) : Prop :=
  ∀ t ∈ history (methods network).call client calls,
    t.events = [t.input.transfer] ∧ t.outcome.state.isSome

/-! ## What a call leaves behind -/

/-- The options after calls of which some had a socket (`socketed`) and some were POSTs (`posted`). -/
structure LeftBehind (socketed posted : Bool) (client : CurlBasedHttpClient) : Prop where
  socket : client.curl.unixSocketPath.isSome = socketed
  headers : if posted then client.headerLists.read client.curl.httpHeader = .freed
    else client.curl.httpHeader = none

theorem LeftBehind.fresh (debug : Bool) : LeftBehind false false (fresh debug) :=
  ⟨rfl, rfl⟩

/-- The next call sets again whatever was left behind. -/
def Resets (socketed posted : Bool) (call : HttpCall) : Prop :=
  (socketed → call.socketPath.isSome) ∧ (posted → call.isPost)

section Step

variable (network : Network) (client : CurlBasedHttpClient)

@[simp] theorem setopt_bind (set : CurlOptions → CurlOptions) (x : Curl α) :
    (setopt set >>= fun _ => x) client = x { client with curl := set client.curl } := rfl

theorem attempt_setopt_bind (set : CurlOptions → CurlOptions) (x : Curl α) :
    (setopt set >>= fun _ => x).attempt client = x.attempt { client with curl := set client.curl } :=
  rfl

/-- `CallInternal` with the options for `t`, where nothing that `t` refers to was freed. -/
theorem callInternal_attempt (url : String) (t : Transfer)
    (ht : ({ client with curl.url := cStr url } : CurlBasedHttpClient).transfer = t)
    (hheaders : t.headers ≠ .freed) (hbody : t.body ≠ .freed) :
    ∃ result, (callInternal network url).attempt client =
      ([t], .ok result { client with curl.url := cStr url, sent := client.sent ++ [t] }) := by
  have hperform : performEasy network { client with curl.url := cStr url } =
      ([t], .ok (network client.sent t)
        { client with curl.url := cStr url, sent := client.sent ++ [t] }) := by
    rw [performEasy, ht, if_neg (by simp [hheaders, hbody])]
  unfold callInternal
  rw [attempt_setopt_bind]
  cases hnetwork : network client.sent t with
  | ok response =>
      rw [hnetwork] at hperform
      exact ⟨.ok response, by rw [Run.attempt, Run.bind_ok hperform]; rfl⟩
  | error code =>
      rw [hnetwork] at hperform
      exact ⟨.error _, by rw [Run.attempt, Run.bind_ok hperform]; rfl⟩

/-- A GET sends no header as long as no header list was ever set. -/
theorem getFromUrl_attempt (url : String) (hheaders : client.curl.httpHeader = none) :
    ∃ result client', (getFromUrl network url).attempt client =
        ([⟨.get, cStr url, client.curl.unixSocketPath, .null, .null⟩], .ok result client') ∧
      client'.curl.unixSocketPath = client.curl.unixSocketPath ∧ client'.curl.httpHeader = none := by
  obtain ⟨result, hresult⟩ := callInternal_attempt network
    { client with curl.header := false, curl.method := .get } url
    ⟨.get, cStr url, client.curl.unixSocketPath, .null, .null⟩
    (by simp [transfer, hheaders]) (by simp) (by simp)
  exact ⟨result, _, hresult, rfl, hheaders⟩

/-- A GET after a POST refers to the list of that POST. -/
theorem getFromUrl_freed (url : String)
    (hheaders : client.headerLists.read client.curl.httpHeader = .freed) :
    getFromUrl network url client =
      ([⟨.get, cStr url, client.curl.unixSocketPath, .freed, .null⟩], .crash .undefinedBehavior) := by
  have hperform : performEasy network
      { client with curl.header := false, curl.method := .get, curl.url := cStr url } =
      ([⟨.get, cStr url, client.curl.unixSocketPath, .freed, .null⟩], .crash .undefinedBehavior) := by
    simp [performEasy, transfer, hheaders]
  show (performEasy network >>= _)
    { client with curl.header := false, curl.method := .get, curl.url := cStr url } = _
  rw [Run.bind_crash hperform]

/-- A POST sends its own header and body, and frees the header when it is done. -/
theorem postJsonToUrl_attempt (url jsonRequest : String) :
    ∃ result client', (postJsonToUrl network url jsonRequest).attempt client =
        ([⟨.post, cStr url, client.curl.unixSocketPath, .live ["Content-Type: application/json"],
          .live (cStr jsonRequest)⟩], .ok result client') ∧
      client'.curl.unixSocketPath = client.curl.unixSocketPath ∧
      client'.headerLists.read client'.curl.httpHeader = .freed := by
  obtain ⟨result, hresult⟩ := callInternal_attempt network
    { client with
      headerLists := client.headerLists ++ [some ["Content-Type: application/json"]]
      requests := client.requests ++ [some (cStr jsonRequest)]
      curl.httpHeader := some client.headerLists.length
      curl.postFields := some client.requests.length
      curl.method := .post } url
    ⟨.post, cStr url, client.curl.unixSocketPath, .live ["Content-Type: application/json"],
      .live (cStr jsonRequest)⟩
    (by simp [transfer]) (by simp) (by simp)
  refine ⟨result, { client with
      headerLists := (client.headerLists ++ [some ["Content-Type: application/json"]]).free
        client.headerLists.length
      requests := (client.requests ++ [some (cStr jsonRequest)]).free client.requests.length
      curl.httpHeader := some client.headerLists.length
      curl.postFields := some client.requests.length
      curl.method := .post
      curl.url := cStr url
      sent := client.sent ++ [⟨.post, cStr url, client.curl.unixSocketPath,
        .live ["Content-Type: application/json"], .live (cStr jsonRequest)⟩] }, ?_, rfl, ?_⟩
  -- whether the transfer succeeds or not, the list and the request are freed, but the handle keeps pointing
  -- to them
  · show Run.attempt ((callInternal network url).attempt >>= _) { client with
      headerLists := client.headerLists ++ [some ["Content-Type: application/json"]]
      requests := client.requests ++ [some (cStr jsonRequest)]
      curl.httpHeader := some client.headerLists.length
      curl.postFields := some client.requests.length
      curl.method := .post } = _
    rw [Run.attempt, Run.bind_ok hresult]
    cases result <;> rfl
  · exact Memory.read_free _ _

/-- A call that sets again what was left behind sends its own transfer. -/
theorem call_attempt {socketed posted : Bool} (left : LeftBehind socketed posted client)
    {call : HttpCall} (hcall : Resets socketed posted call) :
    ∃ result client', ((methods network).call call).attempt client =
        ([call.transfer], .ok result client') ∧
      LeftBehind (socketed || call.socketPath.isSome) (posted || call.isPost) client' := by
  cases call with
  | getFromUrl url =>
      -- a GET without a socket sets nothing again, so nothing may have been left behind
      obtain ⟨rfl, rfl⟩ : socketed = false ∧ posted = false := by
        simpa [Resets, HttpCall.socketPath, HttpCall.isPost] using hcall
      have hsocket : client.curl.unixSocketPath = none := by simpa using left.socket
      obtain ⟨result, client', hrun, hsocket', hheaders'⟩ :=
        getFromUrl_attempt network client url (by simpa using left.headers)
      rw [hsocket] at hrun hsocket'
      exact ⟨result, client', hrun, by simp [hsocket', HttpCall.socketPath], hheaders'⟩
  | postJsonToUrl url jsonRequest =>
      -- a POST sets its headers again, so only a socket may not have been left behind
      obtain rfl : socketed = false := by
        simpa [Resets, HttpCall.socketPath, HttpCall.isPost] using hcall
      have hsocket : client.curl.unixSocketPath = none := by simpa using left.socket
      obtain ⟨result, client', hrun, hsocket', hheaders'⟩ :=
        postJsonToUrl_attempt network client url jsonRequest
      rw [hsocket] at hrun hsocket'
      exact ⟨result, client', hrun, by simp [hsocket', HttpCall.socketPath],
        by simpa [HttpCall.isPost] using hheaders'⟩
  | getFromUrlAndSocket url socketPath =>
      -- a GET through a socket sets the socket again, so only the headers may not have been left behind
      obtain rfl : posted = false := by
        simpa [Resets, HttpCall.socketPath, HttpCall.isPost] using hcall
      obtain ⟨result, client', hrun, hsocket', hheaders'⟩ :=
        getFromUrl_attempt network { client with curl.unixSocketPath := some (cStr socketPath) } url
          (by simpa using left.headers)
      exact ⟨result, client', hrun, by simp [hsocket', HttpCall.socketPath], hheaders'⟩
  | postJsonToUrlAndSocket url socketPath jsonRequest =>
      obtain ⟨result, client', hrun, hsocket', hheaders'⟩ :=
        postJsonToUrl_attempt network { client with curl.unixSocketPath := some (cStr socketPath) } url
          jsonRequest
      exact ⟨result, client', hrun, by simp [hsocket', HttpCall.socketPath],
        by simpa [HttpCall.isPost] using hheaders'⟩

/-- A call that does not sends another one: to the socket of an earlier call, or with its header. -/
theorem call_attempt_ne {socketed posted : Bool} (left : LeftBehind socketed posted client)
    {call : HttpCall} (hcall : ¬ Resets socketed posted call) :
    ∃ t, ((methods network).call call client).1 = [t] ∧ t ≠ call.transfer := by
  cases call with
  | getFromUrl url =>
      cases posted with
      | true =>
          -- a POST before has freed the headers that this GET still sends
          have hrun := getFromUrl_freed network client url
            (by simpa using left.headers)
          exact ⟨_, congrArg Prod.fst hrun, by simp [HttpCall.transfer]⟩
      | false =>
          obtain rfl : socketed = true := by
            simpa [Resets, HttpCall.socketPath, HttpCall.isPost] using hcall
          obtain ⟨path, hpath⟩ := Option.isSome_iff_exists.mp left.socket
          obtain ⟨result, client', hrun, -, -⟩ :=
            getFromUrl_attempt network client url (by simpa using left.headers)
          exact ⟨_, (Run.state_of_attempt hrun).1, by simp [HttpCall.transfer, hpath]⟩
  | postJsonToUrl url jsonRequest =>
      obtain rfl : socketed = true := by
        simpa [Resets, HttpCall.socketPath, HttpCall.isPost] using hcall
      obtain ⟨path, hpath⟩ := Option.isSome_iff_exists.mp left.socket
      obtain ⟨result, client', hrun, -, -⟩ :=
        postJsonToUrl_attempt network client url jsonRequest
      exact ⟨_, (Run.state_of_attempt hrun).1, by simp [HttpCall.transfer, hpath]⟩
  | getFromUrlAndSocket url socketPath =>
      obtain rfl : posted = true := by
        simpa [Resets, HttpCall.socketPath, HttpCall.isPost] using hcall
      have hrun := getFromUrl_freed network
        { client with curl.unixSocketPath := some (cStr socketPath) } url
        (by simpa using left.headers)
      exact ⟨_, congrArg Prod.fst hrun, by simp [HttpCall.transfer]⟩
  | postJsonToUrlAndSocket url socketPath jsonRequest =>
      exact absurd ⟨fun _ => rfl, fun _ => rfl⟩ hcall

end Step

/-! ## Sequences of calls -/

/-- The transfers of a sequence, from any point of a run on. -/
theorem independent_iff_of_leftBehind (network : Network) {socketed posted : Bool}
    (calls : List HttpCall) {client : CurlBasedHttpClient} (left : LeftBehind socketed posted client) :
    Independent network calls client ↔
      (∀ call ∈ calls, Resets socketed posted call) ∧ calls.Pairwise HttpCall.Covers := by
  induction calls generalizing socketed posted client with
  | nil => simp [Independent, history]
  | cons call calls ih =>
      by_cases hcall : Resets socketed posted call
      · obtain ⟨result, client', hrun, left'⟩ := call_attempt network client left hcall
        obtain ⟨hevents, hstate⟩ := Run.state_of_attempt hrun
        have hhead : (turn (methods network).call client call).events = [call.transfer] ∧
            (turn (methods network).call client call).outcome.state.isSome :=
          ⟨hevents, by rw [turn, hstate]; rfl⟩
        -- a call that resets what was left behind is as it should be, and the rest starts from what it
        -- leaves
        have htail : Independent network (call :: calls) client ↔ Independent network calls client' :=
          (forall_history_cons hstate).trans (and_iff_right hhead)
        rw [htail, ih left', List.pairwise_cons, List.forall_mem_cons]
        have hresets (c : HttpCall) :
            Resets (socketed || call.socketPath.isSome) (posted || call.isPost) c ↔
              Resets socketed posted c ∧ call.Covers c := by
          unfold Resets HttpCall.Covers
          simp only [Bool.or_eq_true]
          tauto
        simp only [hresets, forall_and]
        tauto
      -- any other call already differs from what it would be on a fresh client
      · obtain ⟨t, hrun, ht⟩ := call_attempt_ne network client left hcall
        refine iff_of_false (fun h => ht ?_) fun h => hcall (h.1 call List.mem_cons_self)
        exact List.singleton_injective (hrun.symm.trans (head_of_forall_history h).1)

/-- **Independence of requests.** On a fresh client, whatever the network answers, every transfer is
the one that its own call asks for, and no freed memory is read, exactly if each call sets again what the
calls before it set. -/
theorem independent_iff (network : Network) (debug : Bool) (calls : List HttpCall) :
    Independent network calls (fresh debug) ↔ calls.Pairwise HttpCall.Covers := by
  rw [independent_iff_of_leftBehind network calls (.fresh debug)]
  exact and_iff_right fun call _ => ⟨by simp, by simp⟩

end CurlBasedHttpClient

end GenC
