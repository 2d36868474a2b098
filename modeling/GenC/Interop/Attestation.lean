import GenC.Base.GrpcStatus
import GenC.Base.Json
import GenC.Interop.HttpClient

/-!
# Attestation

`interop/confidential_computing/attestation.cc`: the token that a workload presents to a client, and the
decision of the client to trust it. Tink, the JSON parser and Base64 are parameters.

* **`verify_exact_iff`**: the verifier decides as its checks say, and reports every other payload as an
  error, exactly when no attribute that it gets to has a value that is not a string. Such a value leaves
  it as an exception.
* **`getEndorsedEvidence_debug`**: with `debug`, the provider asks the launcher for the keys that it
  means to ask the key server for.
-/

namespace GenC

open Lib

/-! ## JSON -/

namespace Json

/-- `get<std::string>()`. -/
def getString : Json → Run ω Abrupt Status σ String
  | string s => pure s
  | _ => Run.crash .typeError

/-- The value that a path of names leads to. -/
def leaf : Json → List String → Option Json
  | json, [] => some json
  | json, key :: path => (json.find key).bind (·.leaf path)

/-- There is no value there but, possibly, a string. -/
def StringAt (json : Json) (path : List String) : Prop :=
  ∀ value, json.leaf path = some value → ∃ s, value = .string s

end Json

/-- What the loop of `GetStringAttributeFromJson` does from one element of the path on. -/
def walkJson (json : Json) (key : String) (path : List String) : Run ω Abrupt Status σ String :=
  match json.find key with
  | none => Run.throw (.internal ("Missing attribute \"" ++ key ++ "\"."))
  | some value =>
      match path with
      | [] => value.getString
      | key' :: path' => walkJson value key' path'

def getStringAttributeFromJson (json : Json) : List String → Run ω Abrupt Status σ String
  | [] => Run.throw (.invalidArgument "Empty path.")
  | key :: path => walkJson json key path

/-! ## Tokens -/

/-- What is not part of the repository. An audience or an issuer that is `none` is ignored. -/
structure AttestationLibrary where
  KeysetHandle : Type
  JwtValidator : Type
  JwtPublicKeyVerify : Type
  VerifiedJwt : Type
  jwkSetToPublicKeysetHandle : String → StatusOr KeysetHandle
  buildJwtValidator (audience issuer : Option String) : StatusOr JwtValidator
  jwtSignatureRegister : StatusOr Unit
  getPrimitive : KeysetHandle → StatusOr JwtPublicKeyVerify
  verifyAndDecode : JwtPublicKeyVerify → String → JwtValidator → StatusOr VerifiedJwt
  getJsonPayload : VerifiedJwt → StatusOr String
  jsonParse : String → Option Json
  base64Escape : String → String
  base64Unescape : String → Option String

def kLocalhostTokenUrl : String := "http://localhost/v1/token"
def kLauncherSocketPath : String := "/run/container_launcher/teeserver.sock"
def kWellKnownFileURI : String :=
  "https://confidentialcomputing.googleapis.com/.well-known/openid-configuration"
def kJwksUriFieldName : String := "jwks_uri"
def kAudience : String := "GenC"
def kIssuer : String := "https://confidentialcomputing.googleapis.com"
def kJwtNonceAttributeName : String := "eat_nonce"
def kSubmodsAttributeName : String := "submods"
def kContainerAttributeName : String := "container"
def kContainerImageReferenceAttributeName : String := "image_reference"
def kContainerImageDigestAttributeName : String := "image_digest"
def kOsAttributeName : String := "swname"
def kOsAttributeValue : String := "CONFIDENTIAL_SPACE"

/-- `kAttestationJsonRequestTemplate` with its two places filled in. -/
def attestationJsonRequest (audience nonce : String) : String :=
  "\n\x7b\n  \"audience\": \"" ++ audience ++
    "\",\n  \"token_type\": \"OIDC\",\n  \"nonces\": [\n    \"" ++ nonce ++ "\"\n  ]\n\x7d"

section Functions

variable {ω σ : Type} (lib : AttestationLibrary) (httpClient : HttpClientInterface ω σ)

def getAttestationToken (audience nonce : String) : Run ω Abrupt Status σ String :=
  httpClient.postJsonToUrlAndSocket kLocalhostTokenUrl kLauncherSocketPath
    (attestationJsonRequest audience nonce)

def decodeAttestationToken (token audience issuer : String) :
    Run ω Abrupt Status σ lib.VerifiedJwt := do
  let wellKnownPayload ← httpClient.getFromUrl kWellKnownFileURI
  match lib.jsonParse wellKnownPayload with
  | none => Run.throw (.internal ("Couldn't parse the well-known payload: " ++ wellKnownPayload))
  | some wellKnownJson =>
      let jwksUri ← match wellKnownJson.find kJwksUriFieldName with
        | some value => value.getString
        | none => Run.crash .typeError
      let jwksPayload ← httpClient.getFromUrl jwksUri
      match lib.jwkSetToPublicKeysetHandle jwksPayload with
      | .error e =>
          Run.throw (.internal ("JwkSetToPublicKeysetHandle failed with errpr:\n" ++ e.toString ++
            "\non payload:\n" ++ jwksPayload ++ "\n"))
      | .ok keysetHandle =>
          let validator ← Run.ofExcept (lib.buildJwtValidator
            (if audience.isEmpty then none else some audience)
            (if issuer.isEmpty then none else some issuer))
          Run.ofExcept lib.jwtSignatureRegister
          let jwtVerifier ← Run.ofExcept (lib.getPrimitive keysetHandle)
          match lib.verifyAndDecode jwtVerifier token validator with
          | .error e =>
              Run.throw (.internal ("VerifyAndDecode failed with error:\n" ++ e.toString ++
                "\non token:\n" ++ token ++ "\n"))
          | .ok verifiedToken => pure verifiedToken

/-! ## The provider -/

/-- What the provider fills in of `EndorsedEvidence`. -/
structure EndorsedEvidence where
  remoteAttestationReport : String
  encryptionPublicKeyCertificate : String
  deriving Repr, DecidableEq

def getEndorsedEvidence (debug : Bool) (serializedPublicKey : String) :
    Run ω Abrupt Status σ EndorsedEvidence := do
  let nonce := lib.base64Escape serializedPublicKey
  match ← (getAttestationToken httpClient kAudience nonce).attempt with
  | .error e =>
      Run.throw (.internal ("AttestationProvider couldn't get attestation token for audience \"" ++
        kAudience ++ "\" and nonce \"" ++ nonce ++ "\": " ++ e.toString))
  | .ok token =>
      if debug then
        -- The outcome is only printed.
        let _verifiedToken ← (decodeAttestationToken lib httpClient token kAudience kIssuer).attempt
        pure ⟨token, token⟩
      else
        pure ⟨token, token⟩

/-! ## The verifier -/

structure WorkloadProvenance where
  containerImageReference : String
  containerImageDigest : String
  deriving Repr, DecidableEq

/-- The status that the verifier sets. -/
inductive AttestationStatus where
  | success
  deriving Repr, DecidableEq

structure AttestationResults where
  status : AttestationStatus
  encryptionPublicKey : String
  deriving Repr, DecidableEq

/-- The check of an image attribute, which is left out where nothing is configured. -/
def checkImageAttribute (tokenJson : Json) (attributeName configured : String) :
    Run ω Abrupt Status σ Unit :=
  if configured.isEmpty then pure ()
  else do
    let actual ← getStringAttributeFromJson tokenJson
      [kSubmodsAttributeName, kContainerAttributeName, attributeName]
    if actual != configured then
      Run.throw (.internal ("Container image digest mismatch: " ++ actual ++ " vs. " ++ configured))
    else pure ()

/-- What `Verify` does with the payload of the token. -/
def verifyPayload (provenance : WorkloadProvenance) (tokenJson : Json) :
    Run ω Abrupt Status σ AttestationResults := do
  let osName ← getStringAttributeFromJson tokenJson [kOsAttributeName]
  if osName != kOsAttributeValue then
    Run.throw (.internal ("OS name mismatch: " ++ osName ++ " vs. " ++ kOsAttributeValue))
  else do
    checkImageAttribute tokenJson kContainerImageReferenceAttributeName
      provenance.containerImageReference
    checkImageAttribute tokenJson kContainerImageDigestAttributeName provenance.containerImageDigest
    let eatNonce ← getStringAttributeFromJson tokenJson [kJwtNonceAttributeName]
    match lib.base64Unescape eatNonce with
    | none =>
        Run.throw (.internal ("Couldn't convert the nonce to a serialized public key: " ++ eatNonce))
    | some serializedPublicKey => pure ⟨.success, serializedPublicKey⟩

/-- `AttestationVerifierImpl::Verify`, of the evidence's `encryption_public_key_certificate`. -/
def verify (provenance : WorkloadProvenance) (token : String) :
    Run ω Abrupt Status σ AttestationResults := do
  let verifiedToken ← decodeAttestationToken lib httpClient token kAudience kIssuer
  let tokenJsonString ← Run.ofExcept (lib.getJsonPayload verifiedToken)
  match lib.jsonParse tokenJsonString with
  | none => Run.throw (.internal ("Couldn't parse the token JSON string: " ++ tokenJsonString))
  | some tokenJson => verifyPayload lib provenance tokenJson

end Functions

/-! ## The decision -/

/-- An image attribute is as configured, if it is configured. -/
def ImageMatches (tokenJson : Json) (attributeName configured : String) : Prop :=
  configured ≠ "" →
    tokenJson.leaf [kSubmodsAttributeName, kContainerAttributeName, attributeName] =
      some (.string configured)

/-- The payload is to be trusted, and names the key. -/
def WorkloadProvenance.Accepts (lib : AttestationLibrary) (provenance : WorkloadProvenance)
    (tokenJson : Json) (key : String) : Prop :=
  tokenJson.leaf [kOsAttributeName] = some (.string kOsAttributeValue) ∧
  ImageMatches tokenJson kContainerImageReferenceAttributeName provenance.containerImageReference ∧
  ImageMatches tokenJson kContainerImageDigestAttributeName provenance.containerImageDigest ∧
  ∃ nonce, tokenJson.leaf [kJwtNonceAttributeName] = some (.string nonce) ∧
    lib.base64Unescape nonce = some key

/-- The decision is the intended one: a key for a payload that is to be trusted, an error otherwise. -/
structure DecidesExactly (x : Run ω Abrupt Status σ AttestationResults) (s : σ)
    (accepts : String → Prop) : Prop where
  success : ∀ results, (∃ s', Run.Returns x s results s') ↔
    results.status = .success ∧ accepts results.encryptionPublicKey
  failure : (∀ key, ¬ accepts key) → ∃ e s', Run.Fails x s e s'

/-- Each attribute that the checks before it let the verifier get to is a string, if it is there. -/
structure WorkloadProvenance.StringsOnly (provenance : WorkloadProvenance) (tokenJson : Json) :
    Prop where
  osName : tokenJson.StringAt [kOsAttributeName]
  imageReference : tokenJson.leaf [kOsAttributeName] = some (.string kOsAttributeValue) →
    provenance.containerImageReference ≠ "" → tokenJson.StringAt
      [kSubmodsAttributeName, kContainerAttributeName, kContainerImageReferenceAttributeName]
  imageDigest : tokenJson.leaf [kOsAttributeName] = some (.string kOsAttributeValue) →
    ImageMatches tokenJson kContainerImageReferenceAttributeName provenance.containerImageReference →
    provenance.containerImageDigest ≠ "" → tokenJson.StringAt
      [kSubmodsAttributeName, kContainerAttributeName, kContainerImageDigestAttributeName]
  nonce : tokenJson.leaf [kOsAttributeName] = some (.string kOsAttributeValue) →
    ImageMatches tokenJson kContainerImageReferenceAttributeName provenance.containerImageReference →
    ImageMatches tokenJson kContainerImageDigestAttributeName provenance.containerImageDigest →
    tokenJson.StringAt [kJwtNonceAttributeName]

section Decision

variable {ω σ : Type} {lib : AttestationLibrary} {provenance : WorkloadProvenance} {tokenJson : Json}

theorem Json.StringAt.of_string {json : Json} {path : List String} {s : String}
    (h : json.leaf path = some (.string s)) : json.StringAt path := fun _ hvalue =>
  ⟨s, Option.some.inj (hvalue.symm.trans h)⟩

theorem Json.StringAt.of_none {json : Json} {path : List String} (h : json.leaf path = none) :
    json.StringAt path := fun _ hvalue => by simp [h] at hvalue

/-- The three ways a walk ends, by what the path leads to. -/
theorem walkJson_cases (json : Json) (key : String) (path : List String) :
    (∃ s, json.leaf (key :: path) = some (.string s) ∧
      (walkJson json key path : Run ω Abrupt Status σ String) = pure s) ∨
    (json.leaf (key :: path) = none ∧ ∃ missing ∈ key :: path,
      (walkJson json key path : Run ω Abrupt Status σ String) =
        Run.throw (.internal ("Missing attribute \"" ++ missing ++ "\"."))) ∨
    (¬ json.StringAt (key :: path) ∧
      (walkJson json key path : Run ω Abrupt Status σ String) = Run.crash .typeError) := by
  induction path generalizing json key with
  | nil =>
      unfold walkJson
      cases hfind : json.find key with
      | none =>
          exact .inr (.inl ⟨by simp [Json.leaf, hfind], key, List.mem_singleton_self key, rfl⟩)
      | some value =>
          have hleaf : json.leaf [key] = some value := by simp [Json.leaf, hfind]
          cases value with
          | string s => exact .inl ⟨s, hleaf, rfl⟩
          | _ => exact .inr (.inr ⟨fun h => by simpa using h _ hleaf, rfl⟩)
  | cons key' path ih =>
      unfold walkJson
      cases hfind : json.find key with
      | none =>
          exact .inr (.inl ⟨by simp [Json.leaf, hfind], key, List.mem_cons_self, rfl⟩)
      | some value =>
          -- the key is there, and the rest of the path starts from its value
          have hleaf : json.leaf (key :: key' :: path) = value.leaf (key' :: path) := by
            simp [Json.leaf, hfind]
          rw [Json.StringAt, hleaf]
          rcases ih value key' with h | ⟨hnone, missing, hmem, hrun⟩ | h
          · exact .inl h
          · exact .inr (.inl ⟨hnone, missing, List.mem_cons_of_mem _ hmem, hrun⟩)
          · exact .inr (.inr h)

/-- The check of an image passes, fails, or meets a value that is not a string. -/
theorem checkImageAttribute_cases (tokenJson : Json) (attributeName configured : String) :
    (ImageMatches tokenJson attributeName configured ∧
      (checkImageAttribute tokenJson attributeName configured : Run ω Abrupt Status σ Unit) = pure ()) ∨
    (¬ ImageMatches tokenJson attributeName configured ∧
      (configured ≠ "" → tokenJson.StringAt
        [kSubmodsAttributeName, kContainerAttributeName, attributeName]) ∧ ∃ e,
      (checkImageAttribute tokenJson attributeName configured : Run ω Abrupt Status σ Unit) =
        Run.throw e) ∨
    (configured ≠ "" ∧
      ¬ tokenJson.StringAt [kSubmodsAttributeName, kContainerAttributeName, attributeName] ∧
      (checkImageAttribute tokenJson attributeName configured : Run ω Abrupt Status σ Unit) =
        Run.crash .typeError) := by
  by_cases hempty : configured = ""
  · exact .inl ⟨fun h => absurd hempty h, by simp [checkImageAttribute, hempty]⟩
  -- an attribute that is configured is looked up and compared
  have hcheck : (checkImageAttribute tokenJson attributeName configured : Run ω Abrupt Status σ Unit) =
      (do
        let actual ← walkJson tokenJson kSubmodsAttributeName [kContainerAttributeName, attributeName]
        if actual != configured then
          Run.throw (.internal
            ("Container image digest mismatch: " ++ actual ++ " vs. " ++ configured))
        else pure ()) := by
    rw [checkImageAttribute, if_neg (by simpa using hempty)]
    rfl
  rw [hcheck]
  rcases walkJson_cases (ω := ω) (σ := σ) tokenJson kSubmodsAttributeName
      [kContainerAttributeName, attributeName] with ⟨s, hleaf, hrun⟩ | ⟨hleaf, _, -, hrun⟩ | ⟨hleaf, hrun⟩
  · by_cases hs : s = configured
    · subst hs
      exact .inl ⟨fun _ => hleaf, by rw [hrun, pure_bind]; simp⟩
    · refine .inr (.inl ⟨fun h => hs ?_, fun _ => .of_string hleaf,
        .internal ("Container image digest mismatch: " ++ s ++ " vs. " ++ configured), ?_⟩)
      · simpa using hleaf.symm.trans (h hempty)
      · rw [hrun, pure_bind, if_pos (by simpa using hs)]
  · refine .inr (.inl ⟨fun h => ?_, fun _ => .of_none hleaf, _, by rw [hrun]; rfl⟩)
    simpa using hleaf.symm.trans (h hempty)
  · exact .inr (.inr ⟨hempty, hleaf, by rw [hrun]; rfl⟩)

/-- What is to be trusted has a string wherever the verifier looks. -/
theorem WorkloadProvenance.Accepts.stringsOnly {key : String}
    (h : provenance.Accepts lib tokenJson key) : provenance.StringsOnly tokenJson := by
  obtain ⟨hos, href, hdigest, nonce, hnonce, -⟩ := h
  exact ⟨.of_string hos, fun _ hconfigured => .of_string (href hconfigured),
    fun _ _ hconfigured => .of_string (hdigest hconfigured), fun _ _ _ => .of_string hnonce⟩

/-- There is one key at most. -/
theorem WorkloadProvenance.Accepts.unique {key key' : String}
    (h : provenance.Accepts lib tokenJson key) (h' : provenance.Accepts lib tokenJson key') :
    key = key' := by
  obtain ⟨-, -, -, nonce, hnonce, hkey⟩ := h
  obtain ⟨-, -, -, nonce', hnonce', hkey'⟩ := h'
  obtain rfl : nonce = nonce' := by simpa using hnonce.symm.trans hnonce'
  exact Option.some.inj (hkey.symm.trans hkey')

variable (lib provenance tokenJson) in
/-- The payload is accepted, or refused, or has a value that is not a string. -/
theorem verifyPayload_cases :
    (∃ key, provenance.Accepts lib tokenJson key ∧
      (verifyPayload lib provenance tokenJson : Run ω Abrupt Status σ AttestationResults) =
        pure ⟨.success, key⟩) ∨
    ((∀ key, ¬ provenance.Accepts lib tokenJson key) ∧ provenance.StringsOnly tokenJson ∧ ∃ e,
      (verifyPayload lib provenance tokenJson : Run ω Abrupt Status σ AttestationResults) =
        Run.throw e) ∨
    (¬ provenance.StringsOnly tokenJson ∧
      (verifyPayload lib provenance tokenJson : Run ω Abrupt Status σ AttestationResults) =
        Run.crash .typeError) := by
  unfold verifyPayload
  rcases walkJson_cases (ω := ω) (σ := σ) tokenJson kOsAttributeName [] with
    ⟨os, hos, hrun⟩ | ⟨hos, missing, -, hrun⟩ | ⟨hos, hrun⟩
  case inr.inr => exact .inr (.inr ⟨fun h => hos h.osName, by rw [getStringAttributeFromJson, hrun]; rfl⟩)
  case inr.inl =>
    have hne : tokenJson.leaf [kOsAttributeName] ≠ some (.string kOsAttributeValue) := by simp [hos]
    exact .inr (.inl ⟨fun _ h => hne h.1, ⟨.of_none hos, fun h => absurd h hne, fun h => absurd h hne,
      fun h => absurd h hne⟩, _, by rw [getStringAttributeFromJson, hrun]; rfl⟩)
  rw [getStringAttributeFromJson, hrun, pure_bind]
  by_cases hvalue : os = kOsAttributeValue
  case neg =>
    have hne : tokenJson.leaf [kOsAttributeName] ≠ some (.string kOsAttributeValue) := by
      simpa [hos] using hvalue
    exact .inr (.inl ⟨fun _ h => hne h.1, ⟨.of_string hos, fun h => absurd h hne,
      fun h => absurd h hne, fun h => absurd h hne⟩,
      .internal ("OS name mismatch: " ++ os ++ " vs. " ++ kOsAttributeValue),
      if_pos (by simpa using hvalue)⟩)
  subst hvalue
  rw [if_neg (by simp)]
  -- Each check in turn: it passes, or the payload is settled.
  rcases checkImageAttribute_cases (ω := ω) (σ := σ) tokenJson
      kContainerImageReferenceAttributeName provenance.containerImageReference with
    ⟨href, hrun⟩ | ⟨href, hstring, e, hrun⟩ | ⟨hconfigured, href, hrun⟩
  case inr.inr =>
    exact .inr (.inr ⟨fun h => href (h.imageReference hos hconfigured), by rw [hrun]; rfl⟩)
  case inr.inl =>
    exact .inr (.inl ⟨fun _ h => href h.2.1, ⟨.of_string hos, fun _ => hstring,
      fun _ h => absurd h href, fun _ h => absurd h href⟩, e, by rw [hrun]; rfl⟩)
  rw [hrun, pure_bind]
  rcases checkImageAttribute_cases (ω := ω) (σ := σ) tokenJson
      kContainerImageDigestAttributeName provenance.containerImageDigest with
    ⟨hdigest, hrun⟩ | ⟨hdigest, hstring, e, hrun⟩ | ⟨hconfigured, hdigest, hrun⟩
  case inr.inr =>
    exact .inr (.inr ⟨fun h => hdigest (h.imageDigest hos href hconfigured), by rw [hrun]; rfl⟩)
  case inr.inl =>
    exact .inr (.inl ⟨fun _ h => hdigest h.2.2.1, ⟨.of_string hos,
      fun _ hconfigured => .of_string (href hconfigured), fun _ _ => hstring,
      fun _ _ h => absurd h hdigest⟩, e, by rw [hrun]; rfl⟩)
  rw [hrun, pure_bind]
  have hstrings (hnonce : tokenJson.StringAt [kJwtNonceAttributeName]) :
      provenance.StringsOnly tokenJson :=
    ⟨.of_string hos, fun _ hconfigured => .of_string (href hconfigured),
      fun _ _ hconfigured => .of_string (hdigest hconfigured), fun _ _ _ => hnonce⟩
  rcases walkJson_cases (ω := ω) (σ := σ) tokenJson kJwtNonceAttributeName [] with
    ⟨nonce, hnonce, hrun⟩ | ⟨hnonce, missing, -, hrun⟩ | ⟨hnonce, hrun⟩
  case inr.inr =>
    exact .inr (.inr ⟨fun h => hnonce (h.nonce hos href hdigest),
      by rw [getStringAttributeFromJson, hrun]; rfl⟩)
  case inr.inl =>
    refine .inr (.inl ⟨?_, hstrings (.of_none hnonce), _,
      by rw [getStringAttributeFromJson, hrun]; rfl⟩)
    rintro key ⟨-, -, -, nonce, h, -⟩
    simp [hnonce] at h
  rw [getStringAttributeFromJson, hrun, pure_bind]
  cases hkey : lib.base64Unescape nonce with
  | some key => exact .inl ⟨key, ⟨hos, href, hdigest, nonce, hnonce, hkey⟩, rfl⟩
  | none =>
      refine .inr (.inl ⟨?_, hstrings (.of_string hnonce), _, rfl⟩)
      rintro key ⟨-, -, -, nonce', h, hkey'⟩
      obtain rfl : nonce = nonce' := by simpa using hnonce.symm.trans h
      simp [hkey] at hkey'

end Decision

/-- **The decision of the verifier.** Once the token is decoded, `Verify` is exact and total on its
payload exactly if every attribute that it gets to is a string or missing. -/
theorem verify_exact_iff {ω σ : Type} (lib : AttestationLibrary) (httpClient : HttpClientInterface ω σ)
    (provenance : WorkloadProvenance) (token : String) (s s' : σ) (verifiedToken : lib.VerifiedJwt)
    (tokenJsonString : String) (tokenJson : Json)
    (hdecode : Run.Returns (decodeAttestationToken lib httpClient token kAudience kIssuer) s
      verifiedToken s')
    (hpayload : lib.getJsonPayload verifiedToken = .ok tokenJsonString)
    (hparse : lib.jsonParse tokenJsonString = some tokenJson) :
    DecidesExactly (verify lib httpClient provenance token) s (provenance.Accepts lib tokenJson) ↔
      provenance.StringsOnly tokenJson := by
  obtain ⟨l, hdecode⟩ := hdecode
  have hverify : verify lib httpClient provenance token s =
      let run : Run ω Abrupt Status σ AttestationResults := verifyPayload lib provenance tokenJson
      (l ++ (run s').1, (run s').2) := by
    rw [verify, Run.bind_ok hdecode, hpayload, Run.ofExcept_ok, pure_bind, hparse]
  -- accepted, refused with an error, or crashed on something that is no string
  rcases verifyPayload_cases (ω := ω) (σ := σ) lib provenance tokenJson with
    ⟨key, haccepts, hrun⟩ | ⟨hrefused, hstrings, e, hrun⟩ | ⟨hstrings, hrun⟩
  · rw [hrun] at hverify
    refine iff_of_true ⟨fun results => ⟨?_, ?_⟩, fun h => absurd haccepts (h key)⟩ haccepts.stringsOnly
    · rintro ⟨s'', hreturns⟩
      obtain ⟨rfl, -⟩ := hreturns.unique ⟨_, hverify⟩
      exact ⟨rfl, haccepts⟩
    · rintro ⟨hstatus, haccepts'⟩
      obtain rfl : results = ⟨.success, key⟩ := by
        rw [haccepts.unique haccepts', ← hstatus]
      exact ⟨s', _, hverify⟩
  · rw [hrun] at hverify
    refine iff_of_true ⟨fun results => ⟨?_, ?_⟩, fun _ => ⟨e, s', _, hverify⟩⟩ hstrings
    · rintro ⟨s'', l', hreturns⟩
      simp [hverify] at hreturns
    · exact fun h => absurd h.2 (hrefused _)
  · rw [hrun] at hverify
    refine iff_of_false (fun h => ?_) hstrings
    obtain ⟨e, s'', l', hfails⟩ := h.failure fun key haccepts => hstrings haccepts.stringsOnly
    simp [hverify] at hfails

/-! ### Two tokens -/

/-- A payload whose nonce is a key, and one that lists its nonces. -/
def keyPayload : String :=
  "\x7b\"swname\": \"CONFIDENTIAL_SPACE\", \"eat_nonce\": \"a2V5\"\x7d"
def keyListPayload : String :=
  "\x7b\"swname\": \"CONFIDENTIAL_SPACE\", \"eat_nonce\": [\"a2V5\"]\x7d"

def keyJson : Json :=
  .object [("swname", .string "CONFIDENTIAL_SPACE"), ("eat_nonce", .string "a2V5")]
def keyListJson : Json :=
  .object [("swname", .string "CONFIDENTIAL_SPACE"), ("eat_nonce", .array [.string "a2V5"])]

def wellKnownText : String := "\x7b\"jwks_uri\": \"https://www.googleapis.com/keys\"\x7d"

/-- Tink, the parser and Base64 on these texts. -/
def sampleLibrary : AttestationLibrary where
  KeysetHandle := Unit
  JwtValidator := Unit
  JwtPublicKeyVerify := Unit
  VerifiedJwt := String
  jwkSetToPublicKeysetHandle _ := .ok ()
  buildJwtValidator _ _ := .ok ()
  jwtSignatureRegister := .ok ()
  getPrimitive _ := .ok ()
  verifyAndDecode _ token _ := .ok token
  getJsonPayload payload := .ok payload
  jsonParse text :=
    [(wellKnownText, .object [("jwks_uri", .string "https://www.googleapis.com/keys")]),
      (keyPayload, keyJson), (keyListPayload, keyListJson)].lookup text
  base64Escape _ := "a2V5"
  base64Unescape nonce := if nonce = "a2V5" then some "key" else none

/-- A client whose GETs are all answered alike. -/
def sampleClient : HttpClientInterface Unit Unit where
  getFromUrl _ := pure wellKnownText
  postJsonToUrl _ _ := pure ""
  getFromUrlAndSocket _ _ := pure ""
  postJsonToUrlAndSocket _ _ _ := pure ""

theorem verify_exact_iff_key :
    DecidesExactly (verify sampleLibrary sampleClient ⟨"", ""⟩ keyPayload) ()
      (WorkloadProvenance.Accepts sampleLibrary ⟨"", ""⟩ keyJson) ↔
      WorkloadProvenance.StringsOnly ⟨"", ""⟩ keyJson :=
  verify_exact_iff sampleLibrary sampleClient ⟨"", ""⟩ keyPayload () () keyPayload keyPayload keyJson
    ⟨[], rfl⟩ rfl rfl

/-- A list of nonces leaves the verifier as an exception. -/
theorem verify_throws_on_nonce_list :
    Run.Returns (decodeAttestationToken sampleLibrary sampleClient keyListPayload kAudience kIssuer) ()
      keyListPayload () ∧
    sampleLibrary.jsonParse keyListPayload = some keyListJson ∧
    verify sampleLibrary sampleClient ⟨"", ""⟩ keyListPayload () = ([], .crash .typeError) ∧
    ¬ DecidesExactly (verify sampleLibrary sampleClient ⟨"", ""⟩ keyListPayload) ()
      (WorkloadProvenance.Accepts sampleLibrary ⟨"", ""⟩ keyListJson) := by
  have hcrash : verify sampleLibrary sampleClient ⟨"", ""⟩ keyListPayload () =
      ([], .crash .typeError) := rfl
  refine ⟨⟨[], rfl⟩, rfl, hcrash, fun h => ?_⟩
  have hrefused (key : String) :
      ¬ WorkloadProvenance.Accepts sampleLibrary ⟨"", ""⟩ keyListJson key := by
    rintro ⟨-, -, -, nonce, hnonce, -⟩
    simp [Json.leaf, Json.find, keyListJson, kJwtNonceAttributeName, List.lookup_cons] at hnonce
  obtain ⟨e, s', l, hfails⟩ := h.failure hrefused
  simp [hcrash] at hfails

/-! ## The debug path of the provider -/

open CurlBasedHttpClient in
/-- With `debug`, a provider that got its token goes on to the launcher with the request that is meant
for the key server, and refers to the header list of the token request. -/
theorem getEndorsedEvidence_debug (lib : AttestationLibrary) {network : Network}
    {serializedPublicKey token : String} {client client' : CurlBasedHttpClient}
    (htoken : Run.Returns (getAttestationToken (methods network) kAudience
      (lib.base64Escape serializedPublicKey)) client token client') :
    ∃ transfers, getEndorsedEvidence lib (methods network) true serializedPublicKey client =
      (transfers ++ [⟨.get, cStr kWellKnownFileURI, some (cStr kLauncherSocketPath), .freed, .null⟩],
        .crash .undefinedBehavior) := by
  obtain ⟨transfers, htoken⟩ := htoken
  have hattempt : (getAttestationToken (methods network) kAudience
      (lib.base64Escape serializedPublicKey)).attempt client = (transfers, .ok (.ok token) client') := by
    rw [Run.attempt, htoken]
  -- the request for the token leaves its list of headers freed and the socket set
  obtain ⟨result, client'', hpost, hsocket, hheaders⟩ := postJsonToUrl_attempt network
    { client with curl.unixSocketPath := some (cStr kLauncherSocketPath) }
    kLocalhostTokenUrl (attestationJsonRequest kAudience (lib.base64Escape serializedPublicKey))
  obtain ⟨rfl, hok⟩ := Prod.mk.inj (hattempt.symm.trans hpost)
  obtain ⟨rfl, rfl⟩ := Outcome.ok.inj hok
  -- and in debug mode the next request, for the well-known file, still uses both
  have hget := getFromUrl_freed network client' kWellKnownFileURI hheaders
  rw [hsocket] at hget
  have hdecode : (decodeAttestationToken lib (methods network) token kAudience kIssuer).attempt client' =
      ([⟨.get, cStr kWellKnownFileURI, some (cStr kLauncherSocketPath), .freed, .null⟩],
        .crash .undefinedBehavior) :=
    Run.attempt_crash (Run.bind_crash hget)
  unfold getEndorsedEvidence
  rw [Run.bind_ok hattempt]
  simp only [if_true]
  rw [Run.bind_crash hdecode]
  exact ⟨_, rfl⟩

open CurlBasedHttpClient in
/-- The transfers of the debug path with a network that answers everything. -/
theorem debug_path_not_independent :
    ¬ Independent (fun _ _ => .ok "token")
      [.postJsonToUrlAndSocket kLocalhostTokenUrl kLauncherSocketPath
        (attestationJsonRequest kAudience (sampleLibrary.base64Escape "key")),
        .getFromUrl kWellKnownFileURI] (fresh true) ∧
    (getEndorsedEvidence sampleLibrary (methods fun _ _ => .ok "token") true "key" (fresh true)).1 =
      [HttpCall.transfer (.postJsonToUrlAndSocket kLocalhostTokenUrl kLauncherSocketPath
        (attestationJsonRequest kAudience (sampleLibrary.base64Escape "key"))),
        ⟨.get, cStr kWellKnownFileURI, some (cStr kLauncherSocketPath), .freed, .null⟩] := by
  refine ⟨fun h => ?_, rfl⟩
  have hsecond := ((forall_history_cons rfl).mp h).2
  exact absurd (head_of_forall_history hsecond).2 nofun

end GenC
