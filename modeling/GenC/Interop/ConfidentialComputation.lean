import GenC.Interop.Attestation
import GenC.Intrinsics.Inline
import GenC.Lib.Transition

/-!
# Confidential computation

Who can read the requests of `intrinsics/confidential_computation.cc`. The client has the evidence that it is
shown verified, and seals all that it sends to the key that the evidence names. The server's evidence comes from
`AttestationProvider`, with its public key as the nonce of a token.

The world around them is a transition system: virtual machines are booted, the attestation service issues tokens
for what they ask, and the network shows any token to any client. A sealed request is opened by whoever has the
private key, and the machines that run `OakService` keep theirs.

**`confidential_iff`**: nobody else opens the requests of a client, exactly if every machine that may be booted
with an image that the client accepts runs the service.
-/

namespace GenC

open Lib

/-! ## The client -/

/-- What `ExecuteCall` asks of the server: the digest of its image, if one is configured. -/
def workloadProvenance (config : List Value) : WorkloadProvenance where
  containerImageReference := ""
  containerImageDigest := configString "image_digest" config

section

variable {ω σ : Type} (lib : AttestationLibrary) (httpClient : HttpClientInterface ω σ)

/-- `interop::oak::CreateClient` for the evidence that the server sends: the key that everything is sealed to from
then on. The client of Oak is not part of the repository. -/
def createOakClient (provenance : WorkloadProvenance) (evidence : EndorsedEvidence) :
    Run ω Abrupt Status σ String := do
  let results ← verify lib httpClient provenance evidence.encryptionPublicKeyCertificate
  match results.status with
  | .success => pure results.encryptionPublicKey

/-- The token carries the payload. -/
def Decoded (token : String) (s : σ) (tokenJson : Json) (s' : σ) : Prop :=
  ∃ verifiedToken tokenJsonString,
    Run.Returns (decodeAttestationToken lib httpClient token kAudience kIssuer) s verifiedToken s' ∧
      lib.getJsonPayload verifiedToken = .ok tokenJsonString ∧ lib.jsonParse tokenJsonString = some tokenJson

end

section

variable {ω σ : Type} {lib : AttestationLibrary} {httpClient : HttpClientInterface ω σ}
  {provenance : WorkloadProvenance} {evidence : EndorsedEvidence} {s s' : σ} {key : String}

theorem Decoded.unique {token : String} {tokenJson tokenJson' : Json} {s₁ s₁' : σ}
    (h : Decoded lib httpClient token s tokenJson s₁) (h' : Decoded lib httpClient token s tokenJson' s₁') :
    tokenJson = tokenJson' := by
  obtain ⟨verifiedToken, tokenJsonString, hdecode, hpayload, hparse⟩ := h
  obtain ⟨verifiedToken', tokenJsonString', hdecode', hpayload', hparse'⟩ := h'
  obtain ⟨rfl, -⟩ := hdecode.unique hdecode'
  cases hpayload.symm.trans hpayload'
  exact Option.some.inj (hparse.symm.trans hparse')

/-- What `Verify` does with a token that was decoded. -/
theorem verify_returns_iff {tokenJson : Json} {s₁ : σ} {token : String}
    (h : Decoded lib httpClient token s tokenJson s₁) {results : AttestationResults} :
    Run.Returns (verify lib httpClient provenance token) s results s' ↔
      s' = s₁ ∧ provenance.Accepts lib tokenJson results.encryptionPublicKey := by
  obtain ⟨verifiedToken, tokenJsonString, hdecode, hpayload, hparse⟩ := h
  -- after decoding, only the payload decides
  have hverify : Run.Returns (verify lib httpClient provenance token) s results s' ↔
      Run.Returns (verifyPayload lib provenance tokenJson : Run ω Abrupt Status σ _) s₁ results s' := by
    rw [verify, hdecode.bind_iff, hpayload, Run.ofExcept_ok, pure_bind, hparse]
  rw [hverify]
  obtain ⟨⟨⟩, key⟩ := results
  rcases verifyPayload_cases (ω := ω) (σ := σ) lib provenance tokenJson with
    ⟨key', haccepts, hrun⟩ | ⟨hrefused, -, e, hrun⟩ | ⟨hstrings, hrun⟩ <;> rw [hrun]
  · constructor
    · intro h
      obtain ⟨heq, rfl⟩ := h.unique (.pure _ _)
      cases heq
      exact ⟨rfl, haccepts⟩
    · rintro ⟨rfl, haccepts'⟩
      exact haccepts.unique haccepts' ▸ .pure _ _
  · refine iff_of_false ?_ fun h => hrefused key h.2
    rintro ⟨l, hl⟩
    cases hl
  · refine iff_of_false ?_ fun h => hstrings h.2.stringsOnly
    rintro ⟨l, hl⟩
    cases hl

/-- A client is created for the key that it is to accept, and for no other. -/
theorem createOakClient_returns_iff : Run.Returns (createOakClient lib httpClient provenance evidence) s key s' ↔
    ∃ tokenJson, Decoded lib httpClient evidence.encryptionPublicKeyCertificate s tokenJson s' ∧
      provenance.Accepts lib tokenJson key := by
  constructor
  · intro h
    obtain ⟨results, s₁, hverify, h⟩ := h.of_bind
    obtain ⟨verifiedToken, s₂, hdecode, hpayload⟩ := Run.Returns.of_bind hverify
    -- every step before the comparison has succeeded, or the call would not have returned
    rcases hp : lib.getJsonPayload verifiedToken with e | tokenJsonString <;> rw [hp] at hpayload
    · obtain ⟨l, hl⟩ := hpayload
      cases hl
    rw [Run.ofExcept_ok, pure_bind] at hpayload
    rcases hparse : lib.jsonParse tokenJsonString with _ | tokenJson <;> simp only [hparse] at hpayload
    · obtain ⟨l, hl⟩ := hpayload
      cases hl
    have htoken : Decoded lib httpClient evidence.encryptionPublicKeyCertificate s tokenJson s₂ :=
      ⟨verifiedToken, tokenJsonString, hdecode, hp, hparse⟩
    obtain ⟨rfl, haccepts⟩ := (verify_returns_iff htoken).mp hverify
    obtain ⟨rfl, rfl⟩ := h.unique (.pure _ _)
    exact ⟨tokenJson, htoken, haccepts⟩
  · rintro ⟨tokenJson, htoken, haccepts⟩
    have hverify : Run.Returns (verify lib httpClient provenance evidence.encryptionPublicKeyCertificate) s
        ⟨.success, key⟩ s' := (verify_returns_iff htoken).mpr ⟨rfl, haccepts⟩
    exact hverify.bind (.pure _ _)

end

/-! ## The server -/

/-- What a launcher that gives no token is asked for. -/
def launcherProbe : HttpClientInterface (String × String × String) Unit where
  getFromUrl _ := Run.throw (.unavailable "")
  postJsonToUrl _ _ := Run.throw (.unavailable "")
  getFromUrlAndSocket _ _ := Run.throw (.unavailable "")
  postJsonToUrlAndSocket url socketPath jsonRequest := do
    Run.tell (url, socketPath, jsonRequest)
    Run.throw (.unavailable "")

/-- What `AttestationProvider` asks the launcher for. -/
def tokenRequests (lib : AttestationLibrary) (debug : Bool) (serializedPublicKey : String) : List String :=
  ((getEndorsedEvidence lib launcherProbe debug serializedPublicKey ()).1.filter fun posted =>
    posted.1 == kLocalhostTokenUrl && posted.2.1 == kLauncherSocketPath).map fun posted => posted.2.2

/-- A token for its public key, and nothing else. -/
theorem tokenRequests_eq (lib : AttestationLibrary) (debug : Bool) (serializedPublicKey : String) :
    tokenRequests lib debug serializedPublicKey =
      [attestationJsonRequest kAudience (lib.base64Escape serializedPublicKey)] := rfl

/-! ## The world -/

/-- A virtual machine with a container image. -/
structure Workload where
  imageReference : String
  imageDigest : String
  serializedPublicKey : String
  /-- It runs `OakService`, with the key pair that was generated for it. -/
  runsService : Prop

/-- A client, and the key that it seals its requests to. -/
structure OakSession where
  provenance : WorkloadProvenance
  encryptionPublicKey : String

structure AttestedWorld where
  workloads : List Workload := []
  /-- The tokens that were issued, with their payloads. -/
  tokens : List (String × Json) := []
  sessions : List OakSession := []
  /-- The requests that were sent. -/
  sent : List (OakSession × String) := []
  /-- Those that were opened by somebody who does not run the service. -/
  opened : List (OakSession × String) := []

/-- What the attestation service makes of a request: the claim about its nonces. -/
structure AttestationService (lib : AttestationLibrary) where
  nonceClaim : String → Option Json
  /-- It reads the nonce of a request that asks for one. -/
  reads : ∀ key, nonceClaim (attestationJsonRequest kAudience (lib.base64Escape key)) =
    some (.string (lib.base64Escape key))

/-- The payload says what is the case: a machine in a Confidential Space, its image, and the nonce that was
asked for. -/
structure AttestationService.Attests {lib : AttestationLibrary} (service : AttestationService lib)
    (w : Workload) (request : String) (tokenJson : Json) : Prop where
  osName : tokenJson.leaf [kOsAttributeName] = some (.string kOsAttributeValue)
  imageReference : tokenJson.leaf [kSubmodsAttributeName, kContainerAttributeName,
    kContainerImageReferenceAttributeName] = some (.string w.imageReference)
  imageDigest : tokenJson.leaf [kSubmodsAttributeName, kContainerAttributeName,
    kContainerImageDigestAttributeName] = some (.string w.imageDigest)
  nonce : tokenJson.leaf [kJwtNonceAttributeName] = service.nonceClaim request

section

variable {ω σ : Type} (lib : AttestationLibrary) (httpClient : HttpClientInterface ω σ)
  (service : AttestationService lib) (bootable : Workload → Prop)

/-- Nobody but the attestation service signs tokens: what the token decodes to was issued. -/
def AttestedWorld.Issued (world : AttestedWorld) (token : String) : Prop :=
  ∀ s tokenJson s', Decoded lib httpClient token s tokenJson s' → (token, tokenJson) ∈ world.tokens

/-- What can happen. -/
inductive AttestedStep : AttestedWorld → AttestedWorld → Prop where
  | boot {world : AttestedWorld} (w : Workload) (h : bootable w) :
      AttestedStep world { world with workloads := w :: world.workloads }
  /-- Software may ask for whatever it likes, but the service asks as it does. -/
  | attest {world : AttestedWorld} {w : Workload} {request token : String} {tokenJson : Json}
      (hw : w ∈ world.workloads)
      (hrequest : w.runsService → ∃ debug, request ∈ tokenRequests lib debug w.serializedPublicKey)
      (h : service.Attests w request tokenJson) :
      AttestedStep world { world with tokens := (token, tokenJson) :: world.tokens }
  /-- Other machines have tokens as well. -/
  | attestElsewhere {world : AttestedWorld} {token : String} {tokenJson : Json}
      (h : tokenJson.leaf [kOsAttributeName] ≠ some (.string kOsAttributeValue)) :
      AttestedStep world { world with tokens := (token, tokenJson) :: world.tokens }
  /-- The network shows a client any evidence. -/
  | connect {world : AttestedWorld} {provenance : WorkloadProvenance} {evidence : EndorsedEvidence} {s s' : σ}
      {key : String} (hissued : world.Issued lib httpClient evidence.encryptionPublicKeyCertificate)
      (h : Run.Returns (createOakClient lib httpClient provenance evidence) s key s') :
      AttestedStep world { world with sessions := ⟨provenance, key⟩ :: world.sessions }
  | send {world : AttestedWorld} {session : OakSession} (request : String) (h : session ∈ world.sessions) :
      AttestedStep world { world with sent := (session, request) :: world.sent }
  /-- Whoever has the private key opens a request. The service keeps its own. -/
  | open {world : AttestedWorld} {session : OakSession} {request : String} (h : (session, request) ∈ world.sent)
      (hkey : ∀ w ∈ world.workloads, w.runsService → w.serializedPublicKey ≠ session.encryptionPublicKey) :
      AttestedStep world { world with opened := (session, request) :: world.opened }

def attestedSystem : System AttestedWorld where
  init world := world = {}
  step := AttestedStep lib httpClient service bootable

end

/-- The client accepts the image. -/
def WorkloadProvenance.Matches (provenance : WorkloadProvenance) (w : Workload) : Prop :=
  (provenance.containerImageReference ≠ "" → w.imageReference = provenance.containerImageReference) ∧
    (provenance.containerImageDigest ≠ "" → w.imageDigest = provenance.containerImageDigest)

section

variable {ω σ : Type} {lib : AttestationLibrary} {httpClient : HttpClientInterface ω σ}
  {service : AttestationService lib} {bootable : Workload → Prop}

/-! ## The invariant -/

/-- The payload names the machine's image, and the machine's key if it runs the service. -/
structure Workload.NamedBy (lib : AttestationLibrary) (w : Workload) (tokenJson : Json) : Prop where
  imageReference : tokenJson.leaf [kSubmodsAttributeName, kContainerAttributeName,
    kContainerImageReferenceAttributeName] = some (.string w.imageReference)
  imageDigest : tokenJson.leaf [kSubmodsAttributeName, kContainerAttributeName,
    kContainerImageDigestAttributeName] = some (.string w.imageDigest)
  nonce : w.runsService →
    tokenJson.leaf [kJwtNonceAttributeName] = some (.string (lib.base64Escape w.serializedPublicKey))

/-- The session is with that machine, as far as the client can tell. -/
structure OakSession.With (lib : AttestationLibrary) (session : OakSession) (w : Workload) : Prop where
  matching : session.provenance.Matches w
  key : (∀ key, lib.base64Unescape (lib.base64Escape key) = some key) → w.runsService →
    session.encryptionPublicKey = w.serializedPublicKey

/-- What is known of every world: each token of a Confidential Space names a machine in it, each session is with a
machine, and what was opened was meant for a machine that does not run the service. -/
structure AttestedWorld.Sound (lib : AttestationLibrary) (bootable : Workload → Prop) (world : AttestedWorld) :
    Prop where
  workloads : ∀ w ∈ world.workloads, bootable w
  tokens : ∀ issued ∈ world.tokens, issued.2.leaf [kOsAttributeName] = some (.string kOsAttributeValue) →
    ∃ w ∈ world.workloads, w.NamedBy lib issued.2
  sessions : ∀ session ∈ world.sessions, ∃ w ∈ world.workloads, session.With lib w
  sent : ∀ sealedText ∈ world.sent, sealedText.1 ∈ world.sessions
  opened : (∀ key, lib.base64Unescape (lib.base64Escape key) = some key) → ∀ sealedText ∈ world.opened,
    ∃ w, bootable w ∧ sealedText.1.provenance.Matches w ∧ ¬ w.runsService

/-- A payload that is issued to a machine names it. -/
theorem AttestationService.Attests.namedBy {w : Workload} {request : String} {tokenJson : Json}
    (h : service.Attests w request tokenJson)
    (hrequest : w.runsService → ∃ debug, request ∈ tokenRequests lib debug w.serializedPublicKey) :
    w.NamedBy lib tokenJson where
  imageReference := h.imageReference
  imageDigest := h.imageDigest
  nonce hservice := by
    obtain ⟨debug, hrequest⟩ := hrequest hservice
    rw [tokenRequests_eq, List.mem_singleton] at hrequest
    rw [h.nonce, hrequest, service.reads]

theorem ImageMatches.eq_of_leaf {tokenJson : Json} {attributeName configured actual : String}
    (h : ImageMatches tokenJson attributeName configured)
    (hleaf : tokenJson.leaf [kSubmodsAttributeName, kContainerAttributeName, attributeName] =
      some (.string actual)) (hconfigured : configured ≠ "") : actual = configured := by
  have heq := hleaf.symm.trans (h hconfigured)
  simpa using heq

/-- A client that accepts a payload has a session with the machine that the payload names. -/
theorem WorkloadProvenance.Accepts.session {provenance : WorkloadProvenance} {w : Workload} {tokenJson : Json}
    {key : String} (h : provenance.Accepts lib tokenJson key) (hw : w.NamedBy lib tokenJson) :
    OakSession.With lib ⟨provenance, key⟩ w := by
  obtain ⟨-, hreference, hdigest, nonce, hnonce, hkey⟩ := h
  refine ⟨⟨hreference.eq_of_leaf hw.imageReference, hdigest.eq_of_leaf hw.imageDigest⟩, ?_⟩
  intro hbase64 hservice
  obtain rfl : nonce = lib.base64Escape w.serializedPublicKey := by
    simpa using hnonce.symm.trans (hw.nonce hservice)
  exact Option.some.inj (hkey.symm.trans (hbase64 _))

variable (lib httpClient service bootable) in
theorem sound_inductive :
    (attestedSystem lib httpClient service bootable).Inductive (AttestedWorld.Sound lib bootable) where
  init {world} h := by
    obtain rfl : world = {} := h
    constructor <;> simp
  step {world world'} hsound hstep := by
    cases hstep with
    | boot w hw =>
        refine ⟨?_, ?_, ?_, hsound.sent, hsound.opened⟩
        · exact List.forall_mem_cons.mpr ⟨hw, hsound.workloads⟩
        · intro issued hissued hos
          obtain ⟨w', hw', hnamed⟩ := hsound.tokens issued hissued hos
          exact ⟨w', List.mem_cons_of_mem _ hw', hnamed⟩
        · intro session hsession
          obtain ⟨w', hw', hwith⟩ := hsound.sessions session hsession
          exact ⟨w', List.mem_cons_of_mem _ hw', hwith⟩
    | @attest w request token tokenJson hw hrequest h =>
        refine ⟨hsound.workloads, ?_, hsound.sessions, hsound.sent, hsound.opened⟩
        exact List.forall_mem_cons.mpr ⟨fun _ => ⟨w, hw, h.namedBy hrequest⟩, hsound.tokens⟩
    -- a token from elsewhere names another operating system, which no client accepts
    | attestElsewhere h =>
        refine ⟨hsound.workloads, ?_, hsound.sessions, hsound.sent, hsound.opened⟩
        exact List.forall_mem_cons.mpr ⟨fun hos => absurd hos h, hsound.tokens⟩
    | @connect provenance evidence s s' key hissued h =>
        refine ⟨hsound.workloads, hsound.tokens, ?_, ?_, hsound.opened⟩
        -- the token that the client accepts was issued to a machine that is booted
        · obtain ⟨tokenJson, hdecoded, haccepts⟩ := createOakClient_returns_iff.mp h
          obtain ⟨w, hw, hnamed⟩ := hsound.tokens _ (hissued _ _ _ hdecoded) haccepts.1
          exact List.forall_mem_cons.mpr ⟨⟨w, hw, haccepts.session hnamed⟩, hsound.sessions⟩
        · exact fun sealedText hsent => List.mem_cons_of_mem _ (hsound.sent sealedText hsent)
    | send request h =>
        refine ⟨hsound.workloads, hsound.tokens, hsound.sessions, ?_, hsound.opened⟩
        exact List.forall_mem_cons.mpr ⟨h, hsound.sent⟩
    | @«open» session request h hkey =>
        refine ⟨hsound.workloads, hsound.tokens, hsound.sessions, hsound.sent, fun hbase64 => ?_⟩
        obtain ⟨w, hw, hwith⟩ := hsound.sessions session (hsound.sent _ h)
        -- if that machine ran the service, the key would be its own
        have hopened : ∃ w, bootable w ∧ session.provenance.Matches w ∧ ¬ w.runsService :=
          ⟨w, hsound.workloads w hw, hwith.matching, fun hservice =>
            hkey w hw hservice (hwith.key hbase64 hservice).symm⟩
        exact List.forall_mem_cons.mpr ⟨hopened, hsound.opened hbase64⟩

/-! ## The attack -/

/-- A machine's own token is accepted by a client that accepts its image. -/
theorem WorkloadProvenance.Matches.accepts {provenance : WorkloadProvenance} {w : Workload} {tokenJson : Json}
    (h : provenance.Matches w) (hattests : service.Attests w
      (attestationJsonRequest kAudience (lib.base64Escape w.serializedPublicKey)) tokenJson)
    (hbase64 : ∀ key, lib.base64Unescape (lib.base64Escape key) = some key) :
    provenance.Accepts lib tokenJson w.serializedPublicKey := by
  refine ⟨hattests.osName, fun hconfigured => ?_, fun hconfigured => ?_, _,
    hattests.nonce.trans (service.reads _), hbase64 _⟩
  · rw [hattests.imageReference, h.1 hconfigured]
  · rw [hattests.imageDigest, h.2 hconfigured]

/-- A machine that runs something else opens what a client sends that accepts its image. -/
theorem exists_opened {provenance : WorkloadProvenance} {w : Workload} {token : String} {tokenJson : Json} {s s' : σ}
    (hbase64 : ∀ key, lib.base64Unescape (lib.base64Escape key) = some key) (hbootable : bootable w)
    (hmatches : provenance.Matches w) (hservice : ¬ w.runsService)
    (hattests : service.Attests w
      (attestationJsonRequest kAudience (lib.base64Escape w.serializedPublicKey)) tokenJson)
    (hdecoded : Decoded lib httpClient token s tokenJson s')
    (hunique : ∀ s₁ tokenJson₁ s₁', Decoded lib httpClient token s₁ tokenJson₁ s₁' → tokenJson₁ = tokenJson)
    (request : String) :
    ∃ world, (attestedSystem lib httpClient service bootable).Reachable world ∧
      (⟨provenance, w.serializedPublicKey⟩, request) ∈ world.opened := by
  -- the attack: boot the machine, have it attested, show its token to the client, and open what the client
  -- sends
  have hboot : AttestedStep lib httpClient service bootable {} { workloads := [w] } := .boot w hbootable
  have hattest : AttestedStep lib httpClient service bootable { workloads := [w] }
      { workloads := [w], tokens := [(token, tokenJson)] } :=
    .attest (List.mem_singleton_self w) (fun h => absurd h hservice) hattests
  have hconnect : AttestedStep lib httpClient service bootable { workloads := [w], tokens := [(token, tokenJson)] }
      { workloads := [w], tokens := [(token, tokenJson)], sessions := [⟨provenance, w.serializedPublicKey⟩] } := by
    let evidence : EndorsedEvidence := ⟨token, token⟩
    refine @AttestedStep.connect _ _ lib httpClient service bootable _ provenance evidence s s' _
      (fun s₁ tokenJson₁ s₁' h => ?_)
      (createOakClient_returns_iff.mpr ⟨tokenJson, hdecoded, hmatches.accepts hattests hbase64⟩)
    -- the client cannot have been shown another payload
    rw [hunique _ _ _ h]
    exact List.mem_singleton_self _
  have hopen := (((System.Reachable.init (S := attestedSystem lib httpClient service bootable) rfl).step hboot).step
    hattest).step hconnect |>.step (.send request (List.mem_singleton_self _)) |>.step
      (.open (List.mem_singleton_self _) fun w' hw' hservice' => by
        rw [List.mem_singleton.mp hw'] at hservice'
        exact absurd hservice' hservice)
  exact ⟨_, hopen, List.mem_singleton_self _⟩

end

/-- **Confidentiality.** Whatever is booted, and whatever evidence the network shows: nobody but the service opens
what a client sends, exactly if each machine that may be booted with an image that the client accepts runs the
service. -/
theorem confidential_iff {ω σ : Type} (lib : AttestationLibrary) (httpClient : HttpClientInterface ω σ)
    (service : AttestationService lib) (bootable : Workload → Prop) (provenance : WorkloadProvenance)
    (hbase64 : ∀ key, lib.base64Unescape (lib.base64Escape key) = some key)
    (hissues : ∀ w, bootable w → ∃ token tokenJson s s', service.Attests w
      (attestationJsonRequest kAudience (lib.base64Escape w.serializedPublicKey)) tokenJson ∧
      Decoded lib httpClient token s tokenJson s' ∧
      ∀ s₁ tokenJson₁ s₁', Decoded lib httpClient token s₁ tokenJson₁ s₁' → tokenJson₁ = tokenJson) :
    (∀ world, (attestedSystem lib httpClient service bootable).Reachable world →
      ∀ sealedText ∈ world.opened, sealedText.1.provenance ≠ provenance) ↔
    ∀ w, bootable w → provenance.Matches w → w.runsService := by
  constructor
  · intro h w hbootable hmatches
    by_contra hservice
    -- a machine that matches without running the service mounts the attack
    obtain ⟨token, tokenJson, s, s', hattests, hdecoded, hunique⟩ := hissues w hbootable
    obtain ⟨world, hreachable, hopened⟩ :=
      exists_opened hbase64 hbootable hmatches hservice hattests hdecoded hunique ""
    exact h world hreachable _ hopened rfl
  · rintro h world hreachable sealedText hopened rfl
    -- whoever opens a request has the key that the client was shown, and so was accepted as attested
    have hsound := (sound_inductive lib httpClient service bootable).reachable hreachable
    obtain ⟨w, hbootable, hmatches, hservice⟩ := hsound.opened hbase64 sealedText hopened
    exact hservice (h w hbootable hmatches)

/-! ### One image -/

/-- A machine that runs the service, with the key `key`. -/
def genuineWorkload : Workload := ⟨"genc/server", "sha256:1", "key", True⟩

/-- The configuration of a client that wants this image. -/
def genuineConfig : List Value :=
  [.scalar { label := "server_address" } (.str "server:443"), .scalar { label := "image_digest" } (.str "sha256:1")]

def genuinePayload : String :=
  "\x7b\"swname\": \"CONFIDENTIAL_SPACE\", \"submods\": \x7b\"container\": " ++
    "\x7b\"image_reference\": \"genc/server\", \"image_digest\": \"sha256:1\"\x7d\x7d, " ++
    "\"eat_nonce\": \"a2V5\"\x7d"

def genuineJson : Json :=
  .object [("swname", .string "CONFIDENTIAL_SPACE"),
    ("submods", .object [("container",
      .object [("image_reference", .string "genc/server"), ("image_digest", .string "sha256:1")])]),
    ("eat_nonce", .string "a2V5")]

/-- Tink, the parser and Base64 on these texts. -/
def genuineLibrary : AttestationLibrary :=
  { sampleLibrary with
    VerifiedJwt := String
    verifyAndDecode := fun _ token _ => .ok token
    getJsonPayload := fun payload => .ok payload
    jsonParse := fun text =>
      [(wellKnownText, .object [("jwks_uri", .string "https://www.googleapis.com/keys")]),
        (genuinePayload, genuineJson)].lookup text
    base64Escape := fun key => if key = "key" then "a2V5" else if key = "a2V5" then "key" else key
    base64Unescape := fun nonce =>
      some (if nonce = "a2V5" then "key" else if nonce = "key" then "a2V5" else nonce) }

/-- A text without what comes first and last in it. -/
def textBetween (before after text : String) : String :=
  .ofList ((text.toList.drop before.length).take (text.length - before.length - after.length))

theorem textBetween_append (before text after : String) :
    textBetween before after (before ++ text ++ after) = text := by
  have hdrop : (before ++ text ++ after).toList.drop before.length = text.toList ++ after.toList := by
    rw [String.toList_append, String.toList_append, List.append_assoc, ← String.length_toList, List.drop_left]
  have hlength : (before ++ text ++ after).length - before.length - after.length = text.toList.length := by
    simp only [String.length_append, String.length_toList]
    omega
  rw [textBetween, hdrop, hlength, List.take_left, String.ofList_toList]

/-- It reads the nonce where the template has it. -/
def genuineService : AttestationService genuineLibrary where
  nonceClaim request := some (Json.string (textBetween
    ("\n\x7b\n  \"audience\": \"" ++ kAudience ++ "\",\n  \"token_type\": \"OIDC\",\n  \"nonces\": [\n    \"")
    "\"\n  ]\n\x7d" request))
  reads _ := congrArg (fun nonce => some (Json.string nonce)) (textBetween_append _ _ _)

theorem genuineLibrary_unescape (key : String) :
    genuineLibrary.base64Unescape (genuineLibrary.base64Escape key) = some key := by
  by_cases hkey : key = "key"
  · subst hkey
    rfl
  by_cases hescaped : key = "a2V5"
  · subst hescaped
    rfl
  · simp [genuineLibrary, hkey, hescaped]

/-- The one machine has its token. -/
theorem genuineWorkload_issued : genuineService.Attests genuineWorkload (attestationJsonRequest kAudience
    (genuineLibrary.base64Escape genuineWorkload.serializedPublicKey)) genuineJson where
  osName := rfl
  imageReference := rfl
  imageDigest := rfl
  nonce := (genuineService.reads "key").symm

theorem decoded_genuinePayload : Decoded genuineLibrary sampleClient genuinePayload () genuineJson () :=
  ⟨genuinePayload, genuinePayload, ⟨[], rfl⟩, rfl, rfl⟩

theorem confidential_iff_genuine :
    (∀ world, (attestedSystem genuineLibrary sampleClient genuineService (· = genuineWorkload)).Reachable world →
      ∀ sealedText ∈ world.opened, sealedText.1.provenance ≠ workloadProvenance genuineConfig) ↔
    ∀ w, w = genuineWorkload → (workloadProvenance genuineConfig).Matches w → w.runsService :=
  confidential_iff genuineLibrary sampleClient genuineService (· = genuineWorkload)
    (workloadProvenance genuineConfig) genuineLibrary_unescape fun w hw => by
      subst hw
      exact ⟨genuinePayload, genuineJson, (), (), genuineWorkload_issued, decoded_genuinePayload,
        fun s₁ tokenJson₁ s₁' h => h.unique decoded_genuinePayload⟩

end GenC
