import GenC.Base.Numbers
import GenC.Lib.History

/-!
# The llama.cpp client

`interop/backends/llamacpp.cc`. All intrinsics of a process share one client, which loads a model the
first time it is called. llama.cpp is a parameter; `CallLlamaCpp` holds a mutex throughout, so its calls
follow each other.

**`answers_with_asked_model`**: as long as every call of a client that has a model asks for that model and for
the limit it was loaded with, each call is answered as it is configured. A client that has a model does not
look at a configuration again (`callLlamaCpp_of_initialized`).
-/

namespace GenC

open Lib

/-! ## llama.cpp -/

/-- An entry of a `llama_batch`. -/
structure BatchEntry where
  token : Int32
  pos : Int
  logits : Bool
  deriving Repr, DecidableEq

/-- llama.cpp. The KV cache of a context is the list of batches decoded since it was cleared, and a logit
is kept as its bits. -/
structure LlamaLibrary where
  Model : Type
  Context : Type
  loadModelFromFile : String → Option Model
  newContextWithModel (model : Model) (seed nCtx : Nat) (nThreads : Int32) : Option Context
  tokenize : Model → String → List Int32
  nCtx : Context → Nat
  nVocab : Model → Nat
  /-- Whether the batch could be decoded. -/
  decode (context : Context) (cache : List (List BatchEntry)) (batch : List BatchEntry) : Bool
  logitsIth (context : Context) (cache : List (List BatchEntry)) (i : Nat) : List UInt32
  sampleTokenGreedy : Context → List (Int32 × UInt32) → Int32
  eos : Model → Int32
  tokenToPiece : Model → Int32 → String

/-- A model with the file it was loaded from. -/
structure LoadedModel (lib : LlamaLibrary) where
  modelPath : String
  model : lib.Model

/-- The client. A null pointer is `none`. -/
structure LlamaCpp (lib : LlamaLibrary) where
  model : Option (LoadedModel lib) := none
  context : Option lib.Context := none
  maxTokens : Int32 := 0

/-- What a response was generated with. -/
structure Generation where
  modelPath : String
  maxTokens : Int32
  deriving Repr, DecidableEq

namespace LlamaCpp

/-! ## The configuration -/

def getIntParam : Value → StatusOr Int32
  | .scalar _ (.int32 i) => .ok i
  | .scalar _ (.str s) =>
      match simpleAtoiInt s with
      | some temp => .ok temp
      | none => .error (.invalidArgument "Unable to parse param")
  | _ => .error (.invalidArgument "Invalid param type")

/-- What `InitModel` reads of a configuration. -/
structure Config where
  modelPath : String := ""
  numThreads : Int32 := 1
  maxTokens : Int32 := 32
  deriving Repr, DecidableEq

/-- One turn of its loop. A parameter that is not a number leaves the one before it. -/
def readParam (config : Config) (param : Value) : Config :=
  if param.label = "model_path" then { config with modelPath := param.str }
  else if param.label = "num_threads" then
    match getIntParam param with
    | .ok numThreads => { config with numThreads }
    | .error _ => config
  else if param.label = "max_tokens" then
    match getIntParam param with
    | .ok maxTokens => { config with maxTokens }
    | .error _ => config
  else config

def readConfig (config : Value) : Config := config.elements.foldl readParam {}

/-! ## The client -/

variable {lib : LlamaLibrary}

/-- A method of the client. It shows each generation that it makes a response of. -/
abbrev Method (lib : LlamaLibrary) (α : Type) : Type := Run Generation Empty Status (LlamaCpp lib) α

def isInitialized (client : LlamaCpp lib) : Bool := client.context.isSome && client.model.isSome

/-- A model that cannot be loaded leaves the null pointer behind. -/
def initModel (config : Config) : Method lib Unit :=
  Run.step fun client =>
    match lib.loadModelFromFile config.modelPath with
    | none => (.error (.invalidArgument ("LlamaCpp unable to load a model from file \"" ++
        config.modelPath ++ "\" with the default params.")), { client with model := none })
    | some model => (.ok (),
        { model := some ⟨config.modelPath, model⟩
          context := lib.newContextWithModel model 1234 1024 config.numThreads
          maxTokens := config.maxTokens })

/-- As many zeros as there are tokens come before the tokens themselves. -/
def candidates (model : lib.Model) (logits : List UInt32) : List (Int32 × UInt32) :=
  List.replicate (lib.nVocab model) (0, 0) ++
    (List.range (lib.nVocab model)).map fun id => (.ofNat id, logits.getD id 0)

/-- The prediction loop, at most `remaining` times: the pieces of the response. -/
def predict (model : lib.Model) (context : lib.Context) :
    Nat → Int → List (List BatchEntry) → List BatchEntry → StatusOr (List String)
  | 0, _, _, _ => .ok []
  | remaining + 1, nCurrent, cache, batch =>
      let newTokenId := lib.sampleTokenGreedy context
        (candidates model (lib.logitsIth context cache (batch.length - 1)))
      if newTokenId = lib.eos model then .ok []
      else
        let next := [⟨newTokenId, nCurrent, true⟩]
        if lib.decode context cache next then do
          let pieces ← predict model context remaining (nCurrent + 1) (cache ++ [next]) next
          pure (lib.tokenToPiece model newTokenId :: pieces)
        else .error (.internal "Failed to eval batch")

/-- The prompt as a batch. Its last token outputs logits. -/
def promptBatch (tokens : List Int32) : List BatchEntry :=
  tokens.zipIdx.map fun (token, i) => ⟨token, i, i + 1 == tokens.length⟩

/-- `LlamaCppCall` after its check. -/
def generate (model : lib.Model) (context : lib.Context) (maxTokens : Int32) (prompt : String) :
    StatusOr Value :=
  let tokenizedPrompt := lib.tokenize model prompt
  if lib.nCtx context < tokenizedPrompt.length then
    .error (.internal "Prompt length is too large for context")
  else
    let batch := promptBatch tokenizedPrompt
    if lib.decode context [] batch then do
      let pieces ← predict model context (maxTokens.toInt + 1 - batch.length).toNat batch.length
        [batch] batch
      pure (.ofStr (String.join pieces))
    else .error (.internal "llama_decode() of initial prompt failed")

def llamaCppCall (input : Value) : Method lib Value := fun client =>
  match client.context, client.model with
  | some context, some loaded =>
      match generate loaded.model context client.maxTokens input.str with
      | .ok response => ([⟨loaded.modelPath, client.maxTokens⟩], .ok response client)
      | .error e => ([], .error e client)
  | _, _ => ([], .error (.internal "LlamaCpp wasn't initialized.") client)

/-- `CallLlamaCpp`, of the client that is there once the first call has made it. -/
def callLlamaCpp (config arg : Value) : Method lib Value := do
  let initialized ← Run.step fun client => (.ok client.isInitialized, client)
  if !initialized then initModel (readConfig config)
  llamaCppCall arg

/-! ## What a call asks for -/

/-- A configuration and a prompt. -/
structure Call where
  config : Value
  arg : Value

def call (lib : LlamaLibrary) (input : Call) : Method lib Value := callLlamaCpp input.config input.arg

/-- The model and the limit of a client that has a model. -/
def serving (client : LlamaCpp lib) : Option Generation :=
  if client.isInitialized then client.model.map fun loaded => ⟨loaded.modelPath, client.maxTokens⟩
  else none

def Call.asked (input : Call) : Generation :=
  ⟨(readConfig input.config).modelPath, (readConfig input.config).maxTokens⟩

/-- A response was generated as the call asks for, and a model that does not load is an error after which
the client serves what it served before. -/
structure AnswersAsConfigured (t : Turn Call Generation Empty Status (LlamaCpp lib) Value) : Prop where
  response : ∀ value client', t.outcome = .ok value client' → t.events = [t.input.asked]
  failure : lib.loadModelFromFile t.input.asked.modelPath = none →
    ∃ e client', t.outcome = .error e client' ∧ client'.serving = t.before.serving

/-- A client that has a model was asked for it with the same limit before. -/
def AsksForServed (input : Call) (client : LlamaCpp lib) : Prop :=
  ∀ served, client.serving = some served → input.asked = served

/-- The model of a client is the one in its file, and there is no context without it. -/
structure Loaded (client : LlamaCpp lib) : Prop where
  model : ∀ loaded, client.model = some loaded →
    lib.loadModelFromFile loaded.modelPath = some loaded.model

theorem Loaded.empty : Loaded ({} : LlamaCpp lib) := ⟨nofun⟩

section Step

variable {client : LlamaCpp lib}

/-- `LlamaCppCall` changes nothing, and what it responds was generated with what the client serves. -/
theorem llamaCppCall_cases (client : LlamaCpp lib) (arg : Value) :
    (∃ value served, client.serving = some served ∧
      llamaCppCall arg client = ([served], .ok value client)) ∨
    ∃ e, llamaCppCall arg client = ([], .error e client) := by
  unfold llamaCppCall
  split
  · next context loaded hcontext hmodel =>
      split
      · next value hvalue =>
          refine .inl ⟨value, ⟨loaded.modelPath, client.maxTokens⟩, ?_, rfl⟩
          simp [serving, isInitialized, hcontext, hmodel]
      · next e he => exact .inr ⟨e, rfl⟩
  · exact .inr ⟨_, rfl⟩

theorem serving_of_not_initialized (h : client.isInitialized = false) : client.serving = none := by
  rw [serving, h]
  rfl

/-- A client that has a model does not look at the configuration. -/
theorem callLlamaCpp_of_initialized (hclient : client.isInitialized = true) (config arg : Value) :
    callLlamaCpp config arg client = llamaCppCall arg client := by
  unfold callLlamaCpp
  rw [Run.bind_ok (show Run.step _ client = ([], .ok true client) by rw [Run.step, hclient])]
  rfl

/-- Any other client loads the model of the configuration first. -/
theorem callLlamaCpp_of_not_initialized (hclient : client.isInitialized = false) (config arg : Value) :
    callLlamaCpp config arg client = (initModel (readConfig config) >>= fun _ => llamaCppCall arg) client := by
  unfold callLlamaCpp
  rw [Run.bind_ok (show Run.step _ client = ([], .ok false client) by rw [Run.step, hclient])]
  rfl

/-- One call: what it keeps, and what it answers with. -/
theorem call_step (input : Call) (client : LlamaCpp lib) (hclient : Loaded client)
    (hinput : AsksForServed input client) :
    AnswersAsConfigured (turn (call lib) client input) ∧
      ∀ client', (call lib input client).2.state = some client' → Loaded client' := by
  unfold turn call
  cases hinitialized : client.isInitialized with
  | true =>
      rw [callLlamaCpp_of_initialized hinitialized]
      obtain ⟨-, hmodel⟩ := Bool.and_eq_true_iff.mp hinitialized
      obtain ⟨loaded, hmodel⟩ := Option.isSome_iff_exists.mp hmodel
      -- an initialized client serves the model that it has loaded
      have hserving : client.serving = some ⟨loaded.modelPath, client.maxTokens⟩ := by
        rw [serving, if_pos hinitialized, hmodel, Option.map_some]
      have hasked := hinput _ hserving
      have hloads : lib.loadModelFromFile input.asked.modelPath = some loaded.model := by
        rw [hasked]
        exact hclient.model loaded hmodel
      rcases llamaCppCall_cases client input.arg with ⟨value, served, hserved, hrun⟩ | ⟨e, hrun⟩
      · obtain rfl := Option.some.inj (hserving.symm.trans hserved)
        rw [hrun]
        refine ⟨⟨fun _ _ _ => by rw [hasked], fun hfails => ?_⟩, ?_⟩
        · cases hfails.symm.trans hloads
        · rintro client' ⟨⟩
          exact hclient
      · rw [hrun]
        refine ⟨⟨fun _ _ h => (by cases h), fun _ => ⟨e, client, rfl, rfl⟩⟩, ?_⟩
        rintro client' ⟨⟩
        exact hclient
  | false =>
      rw [callLlamaCpp_of_not_initialized hinitialized]
      -- the first call loads the model of its own configuration
      cases hload : lib.loadModelFromFile (readConfig input.config).modelPath with
      | none =>
          have hinit : ∃ e, initModel (readConfig input.config) client =
              ([], .error e { client with model := none }) :=
            ⟨_, by rw [initModel, Run.step, hload]⟩
          obtain ⟨e, hinit⟩ := hinit
          rw [Run.bind_error hinit]
          refine ⟨⟨fun _ _ h => (by cases h), fun _ => ⟨e, _, rfl, ?_⟩⟩, ?_⟩
          · rw [serving_of_not_initialized hinitialized]
            exact serving_of_not_initialized (Bool.and_false _)
          · rintro client' ⟨⟩
            exact ⟨fun _ h => by cases h⟩
      | some model =>
          have hinit : initModel (readConfig input.config) client = ([], .ok ()
              { model := some ⟨(readConfig input.config).modelPath, model⟩
                context := lib.newContextWithModel model 1234 1024 (readConfig input.config).numThreads
                maxTokens := (readConfig input.config).maxTokens }) := by
            rw [initModel, Run.step, hload]
          rw [Run.bind_ok hinit, List.nil_append]
          set client' : LlamaCpp lib := ⟨some ⟨(readConfig input.config).modelPath, model⟩, _, _⟩
            with hclient'
          have hloaded : Loaded client' := by
            refine ⟨fun loaded hmodel => ?_⟩
            obtain rfl := Option.some.inj hmodel
            exact hload
          rcases llamaCppCall_cases client' input.arg with ⟨value, served, hserved, hrun⟩ | ⟨e, hrun⟩
          -- what is served was loaded by this very call
          · have hasked : served = input.asked := by
              rw [serving] at hserved
              split at hserved
              · exact (Option.some.inj hserved).symm
              · cases hserved
            rw [hrun, hasked]
            refine ⟨⟨fun _ _ _ => rfl, fun hfails => ?_⟩, ?_⟩
            · cases hfails.symm.trans hload
            · rintro _ ⟨⟩
              exact hloaded
          · rw [hrun]
            refine ⟨⟨fun _ _ h => (by cases h), fun hfails => ?_⟩, ?_⟩
            · cases hfails.symm.trans hload
            · rintro _ ⟨⟩
              exact hloaded

end Step

/-- The loop adds no more pieces than it may. -/
theorem length_predict_le (model : lib.Model) (context : lib.Context) {remaining : Nat} {nCurrent : Int}
    {cache : List (List BatchEntry)} {batch : List BatchEntry} {pieces : List String}
    (h : predict model context remaining nCurrent cache batch = .ok pieces) :
    pieces.length ≤ remaining := by
  induction remaining generalizing nCurrent cache batch pieces with
  | zero =>
      obtain rfl := Except.ok.inj h
      exact Nat.le_refl 0
  | succ remaining ih =>
      simp only [predict] at h
      split at h
      · obtain rfl := Except.ok.inj h
        exact Nat.zero_le _
      · split at h
        · cases hrest : predict model context remaining (nCurrent + 1) (cache ++ [_]) _ with
          | error e =>
              rw [hrest] at h
              cases h
          | ok rest =>
              rw [hrest] at h
              obtain rfl := Except.ok.inj h
              exact Nat.succ_le_succ (ih hrest)
        · cases h

/-- **The configured model.** In a history of a new client whose calls all ask for what it serves, if it
serves anything, each response is generated with the model and the limit of its own call, and a model that
does not load is an error that changes nothing for the others. -/
theorem answers_with_asked_model (lib : LlamaLibrary) (calls : List Call)
    (hcalls : ∀ t ∈ history (call lib) {} calls, AsksForServed t.input t.before) :
    ∀ t ∈ history (call lib) {} calls, AnswersAsConfigured t :=
  forall_history call_step .empty hcalls

/-! ### A history -/

/-- llama.cpp with a file that is missing. Every model ends its response at once. -/
def sampleLlama : LlamaLibrary where
  Model := String
  Context := String
  loadModelFromFile modelPath := if modelPath = "missing.gguf" then none else some modelPath
  newContextWithModel model _ _ _ := some model
  tokenize _ _ := [1]
  nCtx _ := 1024
  nVocab _ := 3
  decode _ _ _ := true
  logitsIth _ _ _ := [0, 0, 0x3f800000]
  sampleTokenGreedy _ _ := 2
  eos _ := 2
  tokenToPiece _ _ := ""

def sampleCall (modelPath : String) : Call where
  config := .ofStruct [.scalar { label := "model_path" } (.str modelPath)]
  arg := .ofStr "hello"

/-- One model does not load, another one does, and the next call finds what it asks for. -/
theorem answers_with_asked_model_again :
    (history (call sampleLlama) {} [sampleCall "missing.gguf", sampleCall "a.gguf", sampleCall "a.gguf"]).Forall
      AnswersAsConfigured := by
  refine List.forall_iff_forall_mem.mpr (answers_with_asked_model sampleLlama
    [sampleCall "missing.gguf", sampleCall "a.gguf", sampleCall "a.gguf"] ?_)
  have hmissing : (call sampleLlama (sampleCall "missing.gguf") {}).2.state = some {} := rfl
  have hloads : (call sampleLlama (sampleCall "a.gguf") {}).2.state =
      some ⟨some ⟨"a.gguf", "a.gguf"⟩, some "a.gguf", 32⟩ := rfl
  have hserves : (call sampleLlama (sampleCall "a.gguf") ⟨some ⟨"a.gguf", "a.gguf"⟩, some "a.gguf", 32⟩).2.state =
      some ⟨some ⟨"a.gguf", "a.gguf"⟩, some "a.gguf", 32⟩ := rfl
  have hfresh (input : Call) : AsksForServed input ({} : LlamaCpp sampleLlama) := by
    intro served h
    cases h
  rw [forall_history_cons hmissing, forall_history_cons hloads, forall_history_cons hserves]
  refine ⟨hfresh _, hfresh _, fun served h => ?_, by simp [history]⟩
  exact Option.some.inj h

/-- The first model answers the call for another one and the call for a file that is missing. -/
theorem answers_from_first_model :
    (history (call sampleLlama) {}
        [sampleCall "a.gguf", sampleCall "b.gguf", sampleCall "missing.gguf"]).map
      (fun t => (t.input.asked.modelPath, t.events)) =
      [("a.gguf", [⟨"a.gguf", 32⟩]), ("b.gguf", [⟨"a.gguf", 32⟩]),
        ("missing.gguf", [⟨"a.gguf", 32⟩])] ∧
    ¬ ∀ t ∈ history (call sampleLlama) {}
        [sampleCall "a.gguf", sampleCall "b.gguf", sampleCall "missing.gguf"],
      AnswersAsConfigured t := by
  refine ⟨rfl, fun h => ?_⟩
  have hlast := ((forall_history_cons rfl).mp ((forall_history_cons rfl).mp h).2).2
  obtain ⟨e, client', hfails, -⟩ := (head_of_forall_history hlast).failure rfl
  cases hfails

end LlamaCpp

end GenC
