import GenC.Runtime.InlineExecutor
import GenC.Runtime.RemoteExecutor

/-!
# The Oak channel

`interop/oak/client.cc` and `interop/oak/server.cc`: an executor service behind an encrypted unary
session. `OakClient` packs each of the six requests into one message, `OakService` routes it to the
method of the service, and the response comes back the same way.

The Oak libraries and the protobuf wire format are parameters. What is relied on is that a text that is
sealed on one side is opened on the other, and that a message that is sent parses to itself.

**`oak_faithful`**: a response comes back as it was, and of the kind that was asked for. An error comes
back as an INTERNAL one that quotes it, so its own code survives only in the text.
-/

namespace GenC

open Lib

/-! ## Kinds -/

/-- The cases of the two oneofs. -/
inductive MethodKind where
  | createValue | createCall | createStruct | createSelection | materialize | dispose
  deriving Repr, DecidableEq

def ExecutorRequest.kind : ExecutorRequest → MethodKind
  | .createValue _ => .createValue
  | .createCall _ => .createCall
  | .createStruct _ => .createStruct
  | .createSelection _ => .createSelection
  | .materialize _ => .materialize
  | .dispose _ => .dispose

def ExecutorResponse.kind : ExecutorResponse → MethodKind
  | .createValue _ => .createValue
  | .createCall _ => .createCall
  | .createStruct _ => .createStruct
  | .createSelection _ => .createSelection
  | .materialize _ => .materialize
  | .dispose _ => .dispose

/-! ## What is not part of the repository -/

/-- The Oak libraries: the server's encryptor, and the client's `Invoke` over a unary session with the
server. `σ` is the state of the server. -/
structure OakLibrary (Sealed σ : Type) where
  decrypt : Sealed → StatusOr String
  encrypt : String → StatusOr Sealed
  invoke : (Sealed → Exec σ (GrpcReply (Option Sealed))) → String → Exec σ String

/-- Each text has a sealed form that the other side can open, and an error of the server is passed on. -/
structure OakLibrary.Lossless (oak : OakLibrary Sealed σ) : Prop where
  encrypt : ∀ text, ∃ sealedText, oak.encrypt text = .ok sealedText
  request : ∀ text, ∃ sealedText, oak.decrypt sealedText = .ok text ∧
    ∀ (server : Sealed → Exec σ (GrpcReply (Option Sealed))) (s : σ) reply s',
      Run.Returns (server sealedText) s reply s' →
        (∀ response answer, reply = ⟨.OK, some response⟩ → oak.encrypt answer = .ok response →
          Run.Returns (oak.invoke server text) s answer s') ∧
        (∀ e, grpcToAbslStatus reply.status = .error e → Run.Fails (oak.invoke server text) s e s')

variable {Sealed σ : Type}

/-! ## The server -/

namespace OakService

/-- `GetExecutorResponse`. An unset oneof prints as nothing. -/
def getExecutorResponse (service : ExecutorServiceInterface σ) :
    Option ExecutorRequest → Exec σ ExecutorResponse
  | some request => do
      let reply ← service.serve request
      Run.ofExcept (grpcToAbslStatus reply.status)
      pure reply.response
  | none => Run.throw (.internal "Unsupported type of executor request: \"\".")

/-- How each step of `Invoke` reports that it failed. -/
def failure (what : String) (e : Status) : GrpcReply (Option Sealed) :=
  .error (.internal (what ++ ": \"" ++ e.toString ++ "\".")) none

def invoke (oak : OakLibrary Sealed σ) (requests : WireFormat (Option ExecutorRequest))
    (responses : WireFormat (Option ExecutorResponse)) (service : ExecutorServiceInterface σ)
    (encryptedRequest : Sealed) : Exec σ (GrpcReply (Option Sealed)) :=
  match oak.decrypt encryptedRequest with
  | .error e => pure (failure "Request decryption failed with an error status" e)
  | .ok serializedRequest =>
    match requests.parseFromString serializedRequest with
    | none => pure (.error (.internal
        ("Failed to parse the serialized request: \"" ++ serializedRequest ++ "\".")) none)
    | some executorRequest => do
      match ← (getExecutorResponse service executorRequest).attempt with
      | .error e => pure (failure "Failed to get the executor response" e)
      | .ok executorResponse =>
        match oak.encrypt (responses.serializeAsString (some executorResponse)) with
        | .error e => pure (failure "Response encryption failed with an error status" e)
        | .ok encryptedResponse => pure ⟨.OK, some encryptedResponse⟩

end OakService

/-! ## The client -/

namespace OakClient

variable (oak : OakLibrary Sealed σ) (requests : WireFormat (Option ExecutorRequest))
  (responses : WireFormat (Option ExecutorResponse)) (service : ExecutorServiceInterface σ)

def call (request : ExecutorRequest) : Exec σ (Option ExecutorResponse) := do
  let serializedResponse ←
    oak.invoke (OakService.invoke oak requests responses service)
      (requests.serializeAsString (some request))
  match responses.parseFromString serializedResponse with
  | none => Run.throw (.internal "Failed to parse the serialized response.")
  | some response => pure response

/-- The six methods differ in how the request is packed and in which response is expected. -/
def method (pack : ρ → ExecutorRequest) (unpack : ExecutorResponse → Option α) (unfilled : α)
    (request : ρ) : Exec σ (GrpcReply α) := do
  match ← (call oak requests responses service (pack request)).attempt with
  | .error e => pure (.error e unfilled)
  | .ok executorResponse =>
    match executorResponse.bind unpack with
    | none =>
        pure ⟨⟨StatusCode.internal.toInt, "Received a mismatching type of response."⟩, unfilled⟩
    | some response => pure ⟨.OK, response⟩

def createValue : CreateValueRequest → Exec σ (GrpcReply CreateValueResponse) :=
  method oak requests responses service .createValue
    (fun | .createValue response => some response | _ => none) {}

def createCall : CreateCallRequest → Exec σ (GrpcReply CreateCallResponse) :=
  method oak requests responses service .createCall
    (fun | .createCall response => some response | _ => none) {}

def createStruct : CreateStructRequest → Exec σ (GrpcReply CreateStructResponse) :=
  method oak requests responses service .createStruct
    (fun | .createStruct response => some response | _ => none) {}

def createSelection : CreateSelectionRequest → Exec σ (GrpcReply CreateSelectionResponse) :=
  method oak requests responses service .createSelection
    (fun | .createSelection response => some response | _ => none) {}

def materialize : MaterializeRequest → Exec σ (GrpcReply MaterializeResponse) :=
  method oak requests responses service .materialize
    (fun | .materialize response => some response | _ => none) {}

def dispose : DisposeRequest → Exec σ (GrpcReply DisposeResponse) :=
  method oak requests responses service .dispose
    (fun | .dispose response => some response | _ => none) {}

end OakClient

/-- The stub that a client of the service behind `OakService` gets. -/
def oakClient (oak : OakLibrary Sealed σ) (requests : WireFormat (Option ExecutorRequest))
    (responses : WireFormat (Option ExecutorResponse)) (service : ExecutorServiceInterface σ) :
    ExecutorServiceInterface σ where
  createValue := OakClient.createValue oak requests responses service
  createCall := OakClient.createCall oak requests responses service
  createStruct := OakClient.createStruct oak requests responses service
  createSelection := OakClient.createSelection oak requests responses service
  materialize := OakClient.materialize oak requests responses service
  dispose := OakClient.dispose oak requests responses service

/-! ## What comes back -/

/-- The error that the server makes of an error of the service. -/
def OakService.wrapped (e : Status) : Status :=
  .internal ("Failed to get the executor response: \"" ++ e.toString ++ "\".")

/-- A reply of the service, as the caller of the stub sees it. -/
def GrpcReply.throughOak (reply : GrpcReply α) (unfilled : α) : GrpcReply α :=
  match grpcToAbslStatus reply.status with
  | .ok () => ⟨.OK, reply.response⟩
  | .error e => .error (OakService.wrapped e) unfilled

section Faithful

variable {oak : OakLibrary Sealed σ} {requests : WireFormat (Option ExecutorRequest)}
  {responses : WireFormat (Option ExecutorResponse)} {service : ExecutorServiceInterface σ}
  {request : ExecutorRequest} {reply : GrpcReply ExecutorResponse} {s s' : σ}

theorem OakService.getExecutorResponse_ok (h : Run.Returns (service.serve request) s reply s')
    (hok : grpcToAbslStatus reply.status = .ok ()) :
    Run.Returns (getExecutorResponse service (some request)) s reply.response s' :=
  h.bind ((Run.Returns.ofExcept hok s').bind (.pure _ _))

theorem OakService.getExecutorResponse_error (h : Run.Returns (service.serve request) s reply s')
    {e : Status} (he : grpcToAbslStatus reply.status = .error e) :
    Run.Fails (getExecutorResponse service (some request)) s e s' := by
  refine Run.Fails.bind h ?_
  rw [he]
  exact (Run.Fails.throw e s').bind_left

variable (hoak : oak.Lossless) (hrequest : requests.Carries (some request))
  (hresponse : responses.Carries (some reply.response))
  (h : Run.Returns (service.serve request) s reply s')

include hoak hrequest h

/-- An error of the service is sent back wrapped. -/
theorem OakClient.call_error {e : Status} (he : grpcToAbslStatus reply.status = .error e) :
    Run.Fails (call oak requests responses service request) s (OakService.wrapped e) s' := by
  obtain ⟨sealedRequest, hdecrypt, hinvoke⟩ := hoak.request (requests.serializeAsString (some request))
  have hserver : Run.Returns (OakService.invoke oak requests responses service sealedRequest) s
      (.error (OakService.wrapped e) none) s' := by
    rw [OakService.invoke, hdecrypt]
    dsimp only
    rw [show requests.parseFromString _ = _ from hrequest]
    exact (OakService.getExecutorResponse_error h he).attempt.bind (.pure _ _)
  exact ((hinvoke _ _ _ _ hserver).2 _ (grpcToAbslStatus_abslToGrpcStatus _)).bind_left

include hresponse

/-- A response of the service is sent back as it is. -/
theorem OakClient.call_ok (hok : grpcToAbslStatus reply.status = .ok ()) :
    Run.Returns (call oak requests responses service request) s (some reply.response) s' := by
  obtain ⟨sealedRequest, hdecrypt, hinvoke⟩ := hoak.request (requests.serializeAsString (some request))
  obtain ⟨sealedResponse, hencrypt⟩ :=
    hoak.encrypt (responses.serializeAsString (some reply.response))
  have hserver : Run.Returns (OakService.invoke oak requests responses service sealedRequest) s
      ⟨.OK, some sealedResponse⟩ s' := by
    rw [OakService.invoke, hdecrypt]
    dsimp only
    rw [show requests.parseFromString _ = _ from hrequest]
    refine (OakService.getExecutorResponse_ok h hok).attempt.bind ?_
    dsimp only
    rw [hencrypt]
    exact .pure _ _
  refine ((hinvoke _ _ _ _ hserver).1 _ _ rfl hencrypt).bind ?_
  rw [show responses.parseFromString _ = _ from hresponse]
  exact .pure _ _

/-- One of the six methods, when the service answers in kind. -/
theorem OakClient.method_returns {pack : ρ → ExecutorRequest} {unpack : ExecutorResponse → Option α}
    {response : α} (unfilled : α) {packed : ρ} (hpack : pack packed = request)
    (hunpack : unpack reply.response = some response) :
    Run.Returns (method oak requests responses service pack unpack unfilled packed) s
      (GrpcReply.throughOak ⟨reply.status, response⟩ unfilled) s' := by
  rw [method, hpack, GrpcReply.throughOak]
  rcases hstatus : grpcToAbslStatus reply.status with e | ⟨⟩
  · exact (call_error hoak hrequest h hstatus).attempt.bind (.pure _ _)
  · refine (call_ok hoak hrequest hresponse h hstatus).attempt.bind ?_
    dsimp only [Option.bind_some]
    rw [hunpack]
    exact .pure _ _

/-- The same for the method as one of the oneof: the response is packed and unpacked with its kind. -/
theorem OakClient.serve_method {pack : ρ → ExecutorRequest} {unpack : ExecutorResponse → Option α}
    {unfilled : α} {packed : ρ} {toResponse : α → ExecutorResponse} {x : Exec σ (GrpcReply α)}
    (hpack : pack packed = request) (hunpack : ∀ response, unpack (toResponse response) = some response)
    (hkind : ∀ response, (toResponse response).kind = request.kind)
    (hx : Run.Returns (do return (← x).map toResponse) s reply s') :
    ∃ unfilled' : ExecutorResponse, unfilled'.kind = request.kind ∧
      reply.response.kind = request.kind ∧
      Run.Returns (do
        return (← method oak requests responses service pack unpack unfilled packed).map toResponse) s
        (reply.throughOak unfilled') s' := by
  obtain ⟨reply', s₁, -, hpure⟩ := Run.Returns.of_bind hx
  obtain ⟨rfl, rfl⟩ := hpure.unique (.pure _ _)
  have hmethod := method_returns hoak hrequest hresponse h unfilled hpack (hunpack reply'.response)
  -- packing the reply commutes with what the wrapping does to it
  have hmap : (GrpcReply.throughOak reply' unfilled).map toResponse =
      (reply'.map toResponse).throughOak (toResponse unfilled) := by
    rw [GrpcReply.throughOak, GrpcReply.throughOak, GrpcReply.map, GrpcReply.map]
    rcases grpcToAbslStatus reply'.status with e | ⟨⟩ <;> rfl
  exact ⟨toResponse unfilled, hkind _, hkind _, hmap ▸ hmethod.bind (.pure _ _)⟩

/-- The reply of the stub, for a request of any kind. -/
theorem oakClient_serve : ∃ unfilled : ExecutorResponse, unfilled.kind = request.kind ∧
    reply.response.kind = request.kind ∧
    Run.Returns ((oakClient oak requests responses service).serve request) s
      (reply.throughOak unfilled) s' := by
  cases request <;>
    exact OakClient.serve_method hoak hrequest hresponse h rfl (fun _ => rfl) (fun _ => rfl) h

end Faithful

/-- **The Oak channel.** What the service answers comes back in kind: a response as it was, with the status
OK; an error as an INTERNAL one that quotes it. So the code of the status is the one the service gave
just when that is OK or INTERNAL. -/
theorem oak_faithful {oak : OakLibrary Sealed σ} {requests : WireFormat (Option ExecutorRequest)}
    {responses : WireFormat (Option ExecutorResponse)} {service : ExecutorServiceInterface σ}
    {request : ExecutorRequest} {reply : GrpcReply ExecutorResponse} {s s' : σ} (hoak : oak.Lossless)
    (hrequest : requests.Carries (some request)) (hresponse : responses.Carries (some reply.response))
    (h : Run.Returns (service.serve request) s reply s') :
    ∃ reply', Run.Returns ((oakClient oak requests responses service).serve request) s reply' s' ∧
      reply'.response.kind = request.kind ∧
      (reply.status.ok = true → reply' = ⟨.OK, reply.response⟩) ∧
      (∀ e, grpcToAbslStatus reply.status = .error e →
        reply'.status = abslToGrpcStatus (.error (OakService.wrapped e))) ∧
      (reply'.status.errorCode = reply.status.errorCode ↔
        reply.status.ok = true ∨ reply.status.errorCode = StatusCode.internal.toInt) := by
  obtain ⟨unfilled, hkind, hkind', hserve⟩ := oakClient_serve hoak hrequest hresponse h
  refine ⟨_, hserve, ?_⟩
  rcases hstatus : grpcToAbslStatus reply.status with e | ⟨⟩
  -- an error arrives wrapped, so its code is kept if it was INTERNAL before
  · have hnot : reply.status.ok ≠ true := fun hok => by
      rw [grpcToAbslStatus, if_pos hok] at hstatus
      cases hstatus
    rw [GrpcReply.throughOak, hstatus]
    refine ⟨hkind, fun hok => (hnot hok).elim, fun e' he' => ?_, ?_⟩
    · cases he'
      rfl
    · show StatusCode.internal.toInt = reply.status.errorCode ↔ _
      exact ⟨fun hcode => .inr hcode.symm, fun hcode => (hcode.resolve_left hnot).symm⟩
  -- and a reply arrives as it was sent
  · have hok : reply.status.ok = true := by
      by_contra hnot
      rw [grpcToAbslStatus, if_neg hnot] at hstatus
      cases hstatus
    rw [GrpcReply.throughOak, hstatus]
    refine ⟨hkind', fun _ => rfl, fun e he => (by cases he), ?_⟩
    have hcode : reply.status.errorCode = 0 := beq_iff_eq.mp hok
    exact ⟨fun _ => .inl hok, fun _ => hcode.symm⟩

/-! ### Two messages -/

/-- A session that seals nothing. -/
def plainOak : OakLibrary String σ where
  decrypt := .ok
  encrypt := .ok
  invoke server text := do
    let reply ← server text
    Run.ofExcept (grpcToAbslStatus reply.status)
    pure (reply.response.getD "")

theorem plainOak_lossless : (plainOak : OakLibrary String σ).Lossless where
  encrypt text := ⟨text, rfl⟩
  request text := by
    refine ⟨text, rfl, fun server s reply s' h => ⟨?_, ?_⟩⟩
    · rintro response answer rfl hencrypt
      cases hencrypt
      exact h.bind ((Run.Returns.ofExcept rfl s').bind (.pure _ _))
    · intro e he
      refine Run.Fails.bind h ?_
      rw [he]
      exact (Run.Fails.throw e s').bind_left

/-- The wire format, as far as one message goes. -/
def WireFormat.only (message : α) (text : String) : WireFormat α := ⟨fun _ => text, fun _ => some message⟩

theorem WireFormat.only_carries (message : α) (text : String) : (only message text).Carries message := rfl

section

variable [ProtoText]

/-- A service over an inline executor without handlers. -/
def inlineService : ExecutorServiceInterface (BaseState (TrackedValues (StatusOr Value)) Unit) :=
  executorService (executorBase (InlineExecutor.impl []))

/-- The id of a value that is not there. -/
theorem inlineService_missing :
    Run.Returns (inlineService.serve (.materialize ⟨some (valueIdToRef 0)⟩)) ⟨TrackedValues.empty, ()⟩
      ⟨abslToGrpcStatus (.error (.notFound "InlineExecutor value not found: 0")),
        .materialize ⟨some .defaultInstance⟩⟩ ⟨TrackedValues.empty, ()⟩ := by
  let e : Status := .notFound "InlineExecutor value not found: 0"
  refine Run.Returns.bind (a := ⟨abslToGrpcStatus (.error e), ⟨some .defaultInstance⟩⟩) ?_ (.pure _ _)
  show Run.Returns (ExecutorService.materialize _ _) _ _ _
  rw [ExecutorService.materialize, Option.getD_some, refToValueId_valueIdToRef]
  exact ⟨[], rfl⟩

end

/-- A value is created, and one that is not there cannot be materialized. -/
theorem oak_faithful_createdAndMissing : let _ := ProtoText.silent
    let create : ExecutorRequest := .createValue ⟨some (.scalar { label := "name" } (.str "a"))⟩
    let created : ExecutorResponse := .createValue ⟨some (valueIdToRef 0)⟩
    let missing : ExecutorRequest := .materialize ⟨some (valueIdToRef 0)⟩
    let unfilled : ExecutorResponse := .materialize ⟨some .defaultInstance⟩
    (∃ reply s, Run.Returns ((oakClient plainOak (.only (some create) "\n\x0b\n\x09\n\x01a\x12\x04name")
        (.only (some created) "\n\x05\n\x03\n\x010") inlineService).serve create)
        ⟨TrackedValues.empty, ()⟩ reply s ∧ reply = ⟨.OK, created⟩) ∧
    ∃ reply, Run.Returns ((oakClient plainOak (.only (some missing) "*\x05\n\x03\n\x010")
        (.only (some unfilled) "*\x02\n\x00") inlineService).serve missing)
        ⟨TrackedValues.empty, ()⟩ reply ⟨TrackedValues.empty, ()⟩ ∧
      reply.response.kind = .materialize ∧ reply.status.errorCode = StatusCode.internal.toInt := by
  intro _ create created missing unfilled
  obtain ⟨s, hcreate⟩ : ∃ s, Run.Returns (inlineService.serve create) ⟨TrackedValues.empty, ()⟩
    ⟨.OK, created⟩ s := ⟨_, [], rfl⟩
  obtain ⟨reply, hreply, -, hok, -⟩ := oak_faithful plainOak_lossless
    (WireFormat.only_carries (some create) "\n\x0b\n\x09\n\x01a\x12\x04name")
    (WireFormat.only_carries (some created) "\n\x05\n\x03\n\x010") hcreate
  obtain ⟨reply', hreply', hkind, -, herror, -⟩ := oak_faithful plainOak_lossless
    (WireFormat.only_carries (some missing) "*\x05\n\x03\n\x010")
    (WireFormat.only_carries (some unfilled) "*\x02\n\x00") inlineService_missing
  refine ⟨⟨reply, s, hreply, hok rfl⟩, reply', hreply', hkind, ?_⟩
  rw [herror (.notFound "InlineExecutor value not found: 0") rfl]
  rfl

/-- A value that is not there is NOT_FOUND to the service, and INTERNAL to the client. -/
theorem oak_notFound : let _ := ProtoText.silent
    let request : ExecutorRequest := .materialize ⟨some (valueIdToRef 0)⟩
    let response : ExecutorResponse := .materialize ⟨some .defaultInstance⟩
    ∃ reply reply',
      Run.Returns (inlineService.serve request) ⟨TrackedValues.empty, ()⟩ reply
        ⟨TrackedValues.empty, ()⟩ ∧
      Run.Returns ((oakClient plainOak (.only (some request) "*\x05\n\x03\n\x010")
        (.only (some response) "*\x02\n\x00") inlineService).serve request)
        ⟨TrackedValues.empty, ()⟩ reply' ⟨TrackedValues.empty, ()⟩ ∧
      reply.status = ⟨StatusCode.notFound.toInt, "InlineExecutor value not found: 0"⟩ ∧
      reply'.status = ⟨StatusCode.internal.toInt, "Failed to get the executor response: " ++
        "\"NOT_FOUND: InlineExecutor value not found: 0\"."⟩ := by
  let _ := ProtoText.silent
  obtain ⟨unfilled, -, -, hoak⟩ := oakClient_serve plainOak_lossless
    (WireFormat.only_carries (some (ExecutorRequest.materialize ⟨some (valueIdToRef 0)⟩))
      "*\x05\n\x03\n\x010")
    (WireFormat.only_carries (some (ExecutorResponse.materialize ⟨some .defaultInstance⟩))
      "*\x02\n\x00") inlineService_missing
  exact ⟨_, _, inlineService_missing, hoak, rfl, rfl⟩

end GenC
