import GenC.Lib.History
import GenC.Proto.Value

/-!
# The MediaPipe client

`LlmInferenceClient.java`. The client keeps the options and the inference of its last call, and makes a
new inference when the options change. MediaPipe is not part of the repository, and may throw in each of
its calls.

**`answers_as_configured`**: as long as no creation fails while an inference of other options is kept,
each answer comes from an inference of the options that its call asks for. After such a failure the
options are new and the inference is the old one (`stale_after_failure`).
-/

namespace GenC

open Lib

/-! ## MediaPipe -/

@[ext] structure LlmInferenceOptions where
  modelPath : String
  maxTokens : Int32
  maxTopK : Int32
  deriving Repr, DecidableEq

/-- The temperature is kept as its bits. -/
structure LlmInferenceSessionOptions where
  topK : Int32
  temperature : UInt32
  randomSeed : Int32
  deriving Repr, DecidableEq

/-- A `LlmInference` is what it was created from. -/
structure LlmInference where
  createdFrom : LlmInferenceOptions
  deriving Repr, DecidableEq

/-- What the builders start from. -/
structure MediaPipeDefaults where
  inference : LlmInferenceOptions
  session : LlmInferenceSessionOptions

/-- How MediaPipe behaves during one call, with the message of what it throws. -/
structure MediaPipe where
  createFromOptions : LlmInferenceOptions → Except String Unit
  createSession : LlmInference → LlmInferenceSessionOptions → Except String Unit
  addQueryChunk : String → Except String Unit
  generateResponse : LlmInference → LlmInferenceSessionOptions → String → Except String String

/-! ## The configuration -/

namespace LlmInferenceClient

/-- The `HashMap` of the elements by label: the last of a label counts. -/
def getConfigSettings (config : Value) (label : String) : Option Value :=
  config.elements.reverse.find? (·.label == label)

/-- The value of an element that may be absent. -/
def setting (settings : String → Option Value) (label : String) (get : Value → α) (default : α) : α :=
  ((settings label).map get).getD default

/-- `getFloat32()`, as bits. -/
def float32Bits : Value → UInt32
  | .scalar _ (.float32 bits) => bits
  | _ => 0

def createLlmInferenceOptions (defaults : MediaPipeDefaults) (settings : String → Option Value) :
    LlmInferenceOptions where
  modelPath := setting settings "model_path" Value.str defaults.inference.modelPath
  maxTokens := setting settings "max_tokens" Value.int32 defaults.inference.maxTokens
  maxTopK := setting settings "max_top_k" Value.int32 defaults.inference.maxTopK

def createLlmInferenceSessionOptions (defaults : MediaPipeDefaults)
    (settings : String → Option Value) : LlmInferenceSessionOptions where
  topK := setting settings "top_k" Value.int32 defaults.session.topK
  temperature := setting settings "temperature" float32Bits defaults.session.temperature
  randomSeed := setting settings "random_seed" Value.int32 defaults.session.randomSeed

def isValidConfigSettings (settings : String → Option Value) : Bool :=
  match settings "model_path" with
  | none => false
  | some modelPath => !modelPath.str.isEmpty

end LlmInferenceClient

/-! ## The client -/

structure LlmInferenceClient where
  llmInferenceOptions : Option LlmInferenceOptions := none
  llmInference : Option LlmInference := none
  deriving Repr, DecidableEq

/-- A call: the parsed intrinsic, if it parsed, the request, and what MediaPipe does. -/
structure LlmInferenceCall where
  modelInferenceWithConfig : Option Value
  request : String
  mediaPipe : MediaPipe

namespace LlmInferenceClient

/-- A method of the client. It shows each inference that generates a response, and throws messages. -/
abbrev Java (α : Type) : Type := Run LlmInference Empty String LlmInferenceClient α

def hasLlmInferenceOptionsChanged (llmInferenceOptions latestLlmInferenceOptions : LlmInferenceOptions) :
    Bool :=
  llmInferenceOptions.modelPath != latestLlmInferenceOptions.modelPath ||
    llmInferenceOptions.maxTokens != latestLlmInferenceOptions.maxTokens ||
    llmInferenceOptions.maxTopK != latestLlmInferenceOptions.maxTopK

/-- The options are set before the inference is created. -/
def createLlmInference (mediaPipe : MediaPipe) (latestLlmInferenceOptions : LlmInferenceOptions) :
    Java LlmInference :=
  Run.step fun client =>
    match mediaPipe.createFromOptions latestLlmInferenceOptions with
    | .ok () => (.ok ⟨latestLlmInferenceOptions⟩,
        ⟨some latestLlmInferenceOptions, some ⟨latestLlmInferenceOptions⟩⟩)
    | .error e => (.error e, { client with llmInferenceOptions := some latestLlmInferenceOptions })

def getLlmInference (mediaPipe : MediaPipe) (latestLlmInferenceOptions : LlmInferenceOptions) :
    Java LlmInference := fun client =>
  match client.llmInferenceOptions, client.llmInference with
  | some llmInferenceOptions, some llmInference =>
      if hasLlmInferenceOptionsChanged llmInferenceOptions latestLlmInferenceOptions then
        createLlmInference mediaPipe latestLlmInferenceOptions client
      else ([], .ok llmInference client)
  | _, _ => createLlmInference mediaPipe latestLlmInferenceOptions client

def setLlmInference (llmInference : LlmInference) : Java Unit :=
  Run.step fun client => (.ok (), { client with llmInference := some llmInference })

/-- The `try` block of `call`. -/
def infer (mediaPipe : MediaPipe) (options : LlmInferenceOptions)
    (sessionOptions : LlmInferenceSessionOptions) (request : String) : Java String := do
  let llmInference ← getLlmInference mediaPipe options
  setLlmInference llmInference
  Run.ofExcept (mediaPipe.createSession llmInference sessionOptions)
  Run.ofExcept (mediaPipe.addQueryChunk request)
  let response ← Run.ofExcept (mediaPipe.generateResponse llmInference sessionOptions request)
  Run.tell llmInference
  pure response

/-- `getIntrinsic().getStaticParameter().getStruct()`, as its elements. -/
def parameterElements : Value → List Value
  | .intrinsic _ _ staticParameter => (staticParameter.getD .defaultInstance).elements
  | _ => []

/-- An exception of the `try` block is logged, and the response stays empty. -/
def call (defaults : MediaPipeDefaults) (input : LlmInferenceCall) : Java String :=
  match input.modelInferenceWithConfig with
  | none => pure ""
  | some modelConfigProto =>
      match parameterElements modelConfigProto with
      | _modelUri :: config :: _ =>
          let configSettings := getConfigSettings config
          if !isValidConfigSettings configSettings then pure ""
          else do
            match ← (infer input.mediaPipe (createLlmInferenceOptions defaults configSettings)
                (createLlmInferenceSessionOptions defaults configSettings) input.request).attempt with
            | .ok response => pure response
            | .error _ => pure ""
      | _ => Run.throw "IndexOutOfBoundsException"

/-! ## What a call asks for -/

/-- The options that a valid configuration asks for. -/
def configured (defaults : MediaPipeDefaults) (input : LlmInferenceCall) :
    Option LlmInferenceOptions :=
  match input.modelInferenceWithConfig with
  | none => none
  | some modelConfigProto =>
      match parameterElements modelConfigProto with
      | _ :: config :: _ =>
          if isValidConfigSettings (getConfigSettings config) then
            some (createLlmInferenceOptions defaults (getConfigSettings config))
          else none
      | _ => none

/-- Each answer of the call comes from an inference of the options that the call asks for. -/
def AnswersAsConfigured (defaults : MediaPipeDefaults)
    (t : Turn LlmInferenceCall LlmInference Empty String LlmInferenceClient String) : Prop :=
  ∀ llmInference ∈ t.events, configured defaults t.input = some llmInference.createdFrom

/-- If the client keeps an inference of other options than the call asks for, creating one of these
options does not fail. -/
def CreatesOverOther (defaults : MediaPipeDefaults) (input : LlmInferenceCall)
    (client : LlmInferenceClient) : Prop :=
  ∀ options llmInference, configured defaults input = some options →
    client.llmInference = some llmInference → llmInference.createdFrom ≠ options →
      input.mediaPipe.createFromOptions options = .ok ()

/-- The kept inference is of the kept options. -/
def Coherent (client : LlmInferenceClient) : Prop :=
  ∀ llmInference, client.llmInference = some llmInference →
    client.llmInferenceOptions = some llmInference.createdFrom

section Step

variable {defaults : MediaPipeDefaults} {mediaPipe : MediaPipe} {client : LlmInferenceClient}
  {options : LlmInferenceOptions}

theorem hasLlmInferenceOptionsChanged_eq_false {a b : LlmInferenceOptions} :
    hasLlmInferenceOptionsChanged a b = false ↔ a = b := by
  simp only [hasLlmInferenceOptionsChanged, Bool.or_eq_false_iff, bne_eq_false_iff_eq]
  constructor
  · rintro ⟨⟨hpath, htokens⟩, htopK⟩
    exact LlmInferenceOptions.ext hpath htokens htopK
  · rintro rfl
    exact ⟨⟨rfl, rfl⟩, rfl⟩

/-- What is kept for the same options is taken. -/
theorem getLlmInference_kept {llmInference : LlmInference}
    (hoptions : client.llmInferenceOptions = some options)
    (hinference : client.llmInference = some llmInference) :
    getLlmInference mediaPipe options client = ([], .ok llmInference client) := by
  simp [getLlmInference, hoptions, hinference, hasLlmInferenceOptionsChanged_eq_false.mpr rfl]

/-- The client has the inference that was asked for, or a creation failed. -/
theorem getLlmInference_cases (mediaPipe : MediaPipe) (options : LlmInferenceOptions)
    (client : LlmInferenceClient) :
    (client.llmInferenceOptions = some options ∧ ∃ llmInference,
      client.llmInference = some llmInference ∧
        getLlmInference mediaPipe options client = ([], .ok llmInference client)) ∨
    (mediaPipe.createFromOptions options = .ok () ∧
      getLlmInference mediaPipe options client =
        ([], .ok ⟨options⟩ ⟨some options, some ⟨options⟩⟩)) ∨
    (∃ e, mediaPipe.createFromOptions options = .error e ∧
      getLlmInference mediaPipe options client =
        ([], .error e { client with llmInferenceOptions := some options })) := by
  -- the creation stores the options first, so that they stay when it fails
  have hcreate : (mediaPipe.createFromOptions options = .ok () ∧
      createLlmInference mediaPipe options client =
        ([], .ok ⟨options⟩ ⟨some options, some ⟨options⟩⟩)) ∨
    (∃ e, mediaPipe.createFromOptions options = .error e ∧
      createLlmInference mediaPipe options client =
        ([], .error e { client with llmInferenceOptions := some options })) := by
    cases h : mediaPipe.createFromOptions options with
    | ok u => exact .inl ⟨rfl, by simp [createLlmInference, Run.step, h]⟩
    | error e => exact .inr ⟨e, rfl, by simp [createLlmInference, Run.step, h]⟩
  unfold getLlmInference
  split
  · next kept llmInference hoptions hinference =>
      split
      · exact .inr hcreate
      · next hchanged =>
          -- nothing is created while the stored options are the same
          obtain rfl := hasLlmInferenceOptionsChanged_eq_false.mp (Bool.not_eq_true _ ▸ hchanged)
          exact .inl ⟨hoptions, llmInference, hinference, rfl⟩
  · exact .inr hcreate

/-- After the inference is there, the client does not change any more. -/
theorem infer_of_getLlmInference (sessionOptions : LlmInferenceSessionOptions) (request : String)
    {llmInference : LlmInference} {client' : LlmInferenceClient}
    (h : getLlmInference mediaPipe options client = ([], .ok llmInference client'))
    (hclient : client'.llmInference = some llmInference) :
    (∀ shown ∈ (infer mediaPipe options sessionOptions request client).1, shown = llmInference) ∧
      (infer mediaPipe options sessionOptions request client).2.state = some client' := by
  have hset : { client' with llmInference := some llmInference } = client' := by rw [← hclient]
  unfold infer
  rw [Run.bind_ok h, Run.bind_ok (show setLlmInference llmInference client' = ([], .ok () client') by
    rw [← hset]; rfl)]
  -- whatever fails from here on, the client stays as it is, and only the response shows an inference
  cases mediaPipe.createSession llmInference sessionOptions with
  | error e => exact ⟨nofun, rfl⟩
  | ok =>
      cases mediaPipe.addQueryChunk request with
      | error e => exact ⟨nofun, rfl⟩
      | ok =>
          cases mediaPipe.generateResponse llmInference sessionOptions request with
          | error e => exact ⟨nofun, rfl⟩
          | ok response => exact ⟨fun shown => List.mem_singleton.mp, rfl⟩

/-- A call without a valid configuration does nothing. -/
theorem call_of_configured_none (client : LlmInferenceClient) {input : LlmInferenceCall}
    (h : configured defaults input = none) :
    (call defaults input client).1 = [] ∧ (call defaults input client).2.state = some client := by
  obtain ⟨_ | proto, request, mediaPipe⟩ := input
  · exact ⟨rfl, rfl⟩
  unfold configured at h
  unfold call
  rcases hparameter : parameterElements proto with _ | ⟨modelUri, _ | ⟨config, rest⟩⟩
  · simp [hparameter, Outcome.state]
  · simp [hparameter, Outcome.state]
  · simp only [hparameter, ite_eq_right_iff, reduceCtorEq, imp_false, Bool.not_eq_true] at h ⊢
    simp [h, Outcome.state]

/-- Any other call shows what its `try` block shows, and leaves the state that this block leaves. -/
theorem call_of_configured (client : LlmInferenceClient) {input : LlmInferenceCall}
    (h : configured defaults input = some options) :
    ∃ sessionOptions,
      (call defaults input client).1 =
        (infer input.mediaPipe options sessionOptions input.request client).1 ∧
      (call defaults input client).2.state =
        (infer input.mediaPipe options sessionOptions input.request client).2.state := by
  unfold configured at h
  split at h
  · cases h
  · next proto hproto =>
      split at h
      · next modelUri config rest hparameter =>
          split at h
          · next hvalid =>
              obtain rfl := Option.some.inj h
              refine ⟨createLlmInferenceSessionOptions defaults (getConfigSettings config), ?_⟩
              unfold call
              simp only [hproto, hparameter, hvalid, Bool.not_true, Bool.false_eq_true, if_false]
              rw [Run.bind_apply, Run.attempt]
              rcases infer _ _ _ _ client with ⟨l, a | e | k | _⟩ <;> simp [Outcome.state]
          · cases h
      · cases h

/-- One call: what it keeps, and what it answers with. -/
theorem call_step {input : LlmInferenceCall} (hclient : Coherent client)
    (hinput : CreatesOverOther defaults input client) :
    AnswersAsConfigured defaults (turn (call defaults) client input) ∧
      ∀ client', (call defaults input client).2.state = some client' → Coherent client' := by
  unfold AnswersAsConfigured turn
  cases hconfigured : configured defaults input with
  | none =>
      obtain ⟨hevents, hstate⟩ := call_of_configured_none client hconfigured
      rw [hevents, hstate]
      exact ⟨nofun, fun client' h => Option.some.inj h ▸ hclient⟩
  | some options =>
      obtain ⟨sessionOptions, hevents, hstate⟩ := call_of_configured client hconfigured
      rw [hevents, hstate]
      rcases getLlmInference_cases input.mediaPipe options client with
        ⟨hoptions, llmInference, hinference, hget⟩ | ⟨-, hget⟩ | ⟨e, hfails, hget⟩
      · obtain ⟨hshown, hafter⟩ := infer_of_getLlmInference sessionOptions
          input.request hget hinference
        have hcreated : options = llmInference.createdFrom :=
          Option.some.inj (hoptions.symm.trans (hclient llmInference hinference))
        refine ⟨fun shown hmem => ?_, fun client' h => Option.some.inj (hafter.symm.trans h) ▸ hclient⟩
        rw [hshown shown hmem, hcreated]
      · obtain ⟨hshown, hafter⟩ := infer_of_getLlmInference sessionOptions
          input.request hget rfl
        refine ⟨fun shown hmem => ?_, fun client' h => ?_⟩
        · rw [hshown shown hmem]
        · rw [← Option.some.inj (hafter.symm.trans h)]
          rintro _ ⟨⟩
          rfl
      · have hinfer : infer input.mediaPipe options sessionOptions input.request client =
            ([], .error e { client with llmInferenceOptions := some options }) :=
          Run.bind_error hget
        rw [hinfer]
        refine ⟨nofun, ?_⟩
        rintro client' ⟨⟩ llmInference hinference
        -- The creation failed, so the kept inference is of these options already.
        by_contra hne
        have hok := hinput options llmInference hconfigured hinference fun h => hne (by rw [h])
        rw [hok] at hfails
        cases hfails

end Step

/-- **The configured model.** In a history from a new client in which no creation fails over an inference
of other options, every response comes from an inference that was created from the options of the call it
answers. -/
theorem answers_as_configured (defaults : MediaPipeDefaults) (calls : List LlmInferenceCall)
    (hcalls : ∀ t ∈ history (call defaults) {} calls, CreatesOverOther defaults t.input t.before) :
    ∀ t ∈ history (call defaults) {} calls, AnswersAsConfigured defaults t := by
  have hnew : Coherent {} := fun _ h => by cases h
  exact forall_history (fun _ _ => call_step) hnew hcalls

/-! ### A history -/

/-- MediaPipe with one model that it cannot load. -/
def sampleMediaPipe (broken : String) : MediaPipe where
  createFromOptions options :=
    if options.modelPath = broken then .error "Failed to initialize engine" else .ok ()
  createSession _ _ := .ok ()
  addQueryChunk _ := .ok ()
  generateResponse _ _ request := .ok request

def sampleDefaults : MediaPipeDefaults := ⟨⟨"", 512, 40⟩, ⟨10, 0x3f4ccccd, 0⟩⟩

/-- A call with a model path, while MediaPipe cannot load `broken`. -/
def sampleCall (modelPath broken : String) : LlmInferenceCall where
  modelInferenceWithConfig := some (.intrinsic {} "model_inference_with_config"
    (some (.ofStruct [.ofStr "/device/llm",
      .struct { label := "model_config" }
        [.scalar { label := "model_path" } (.str modelPath)]])))
  request := "hello"
  mediaPipe := sampleMediaPipe broken

/-- A creation fails while nothing is kept, the next one is made, another one is made over it, and the last call
finds what it asks for, though it could not be created any more. -/
theorem answers_as_configured_changing :
    (history (call sampleDefaults) {}
        [sampleCall "b.bin" "b.bin", sampleCall "a.bin" "b.bin", sampleCall "c.bin" "b.bin",
          sampleCall "c.bin" "c.bin"]).Forall
      (AnswersAsConfigured sampleDefaults) := by
  refine List.forall_iff_forall_mem.mpr (answers_as_configured sampleDefaults
    [sampleCall "b.bin" "b.bin", sampleCall "a.bin" "b.bin", sampleCall "c.bin" "b.bin", sampleCall "c.bin" "c.bin"] ?_)
  have hfails : (call sampleDefaults (sampleCall "b.bin" "b.bin") {}).2.state =
      some ⟨some ⟨"b.bin", 512, 40⟩, none⟩ := rfl
  have hcreates : (call sampleDefaults (sampleCall "a.bin" "b.bin") ⟨some ⟨"b.bin", 512, 40⟩, none⟩).2.state =
      some ⟨some ⟨"a.bin", 512, 40⟩, some ⟨⟨"a.bin", 512, 40⟩⟩⟩ := rfl
  have hchanges : (call sampleDefaults (sampleCall "c.bin" "b.bin")
      ⟨some ⟨"a.bin", 512, 40⟩, some ⟨⟨"a.bin", 512, 40⟩⟩⟩).2.state =
        some ⟨some ⟨"c.bin", 512, 40⟩, some ⟨⟨"c.bin", 512, 40⟩⟩⟩ := rfl
  have hkeeps : (call sampleDefaults (sampleCall "c.bin" "c.bin")
      ⟨some ⟨"c.bin", 512, 40⟩, some ⟨⟨"c.bin", 512, 40⟩⟩⟩).2.state =
        some ⟨some ⟨"c.bin", 512, 40⟩, some ⟨⟨"c.bin", 512, 40⟩⟩⟩ := rfl
  have hnone (input : LlmInferenceCall) (options : Option LlmInferenceOptions) :
      CreatesOverOther sampleDefaults input ⟨options, none⟩ := by
    rintro _ _ - h
    cases h
  rw [forall_history_cons hfails, forall_history_cons hcreates, forall_history_cons hchanges,
    forall_history_cons hkeeps]
  refine ⟨hnone _ none, hnone _ _, ?_, ?_, by simp [history]⟩
  · -- the model that is asked for loads
    rintro options llmInference hasked - -
    obtain rfl : ⟨"c.bin", 512, 40⟩ = options := Option.some.inj hasked
    rfl
  · -- the kept inference is the one that is asked for
    rintro options llmInference hasked hkept hne
    obtain rfl : ⟨"c.bin", 512, 40⟩ = options := Option.some.inj hasked
    obtain rfl : ⟨⟨"c.bin", 512, 40⟩⟩ = llmInference := Option.some.inj hkept
    exact absurd rfl hne

/-- One model answers, another one fails to load, and the next call for that one is answered by the
first. -/
theorem answers_from_other_model :
    (history (call sampleDefaults) {}
        [sampleCall "a.bin" "b.bin", sampleCall "b.bin" "b.bin", sampleCall "b.bin" ""]).map
      (fun t => (configured sampleDefaults t.input, t.events)) =
      [(some ⟨"a.bin", 512, 40⟩, [⟨⟨"a.bin", 512, 40⟩⟩]), (some ⟨"b.bin", 512, 40⟩, []),
        (some ⟨"b.bin", 512, 40⟩, [⟨⟨"a.bin", 512, 40⟩⟩])] ∧
    ¬ ∀ t ∈ history (call sampleDefaults) {}
        [sampleCall "a.bin" "b.bin", sampleCall "b.bin" "b.bin", sampleCall "b.bin" ""],
      AnswersAsConfigured sampleDefaults t := by
  refine ⟨rfl, fun h => ?_⟩
  have hlast := ((forall_history_cons rfl).mp ((forall_history_cons rfl).mp h).2).2
  have hanswer := head_of_forall_history hlast ⟨⟨"a.bin", 512, 40⟩⟩ (List.mem_singleton_self _)
  have hasked : configured sampleDefaults (sampleCall "b.bin" "") = some ⟨"b.bin", 512, 40⟩ := rfl
  exact absurd (hasked.symm.trans hanswer) (by simp)

/-- What goes wrong otherwise: the call that failed, made again, is answered by the kept inference. -/
theorem stale_after_failure {defaults : MediaPipeDefaults} {client : LlmInferenceClient}
    (hclient : Coherent client) {input : LlmInferenceCall}
    (hinput : ¬ CreatesOverOther defaults input client) :
    ∃ client' llmInference, (call defaults input client).2.state = some client' ∧
      client.llmInference = some llmInference ∧ configured defaults input ≠ some llmInference.createdFrom ∧
      ∀ again, configured defaults again = configured defaults input →
        ∀ shown ∈ (call defaults again client').1, shown = llmInference := by
  simp only [CreatesOverOther, not_forall] at hinput
  obtain ⟨options, llmInference, hconfigured, hinference, hne, hfails⟩ := hinput
  obtain ⟨sessionOptions, -, hstate⟩ := call_of_configured client hconfigured
  rcases getLlmInference_cases input.mediaPipe options client with
    ⟨hoptions, -, -, -⟩ | ⟨hok, -⟩ | ⟨e, -, hget⟩
  · exact absurd (Option.some.inj ((hclient llmInference hinference).symm.trans hoptions)) hne
  · exact absurd hok hfails
  -- the failed creation has left the old inference under the new options
  have hinfer : infer input.mediaPipe options sessionOptions input.request client =
      ([], .error e { client with llmInferenceOptions := some options }) :=
    Run.bind_error hget
  refine ⟨_, llmInference, by rw [hstate, hinfer]; rfl, hinference, ?_, ?_⟩
  · rw [hconfigured]
    exact fun h => hne (Option.some.inj h).symm
  · intro again hagain shown hmem
    obtain ⟨sessionOptions', hevents, -⟩ := call_of_configured
      { client with llmInferenceOptions := some options } (hagain.trans hconfigured)
    rw [hevents] at hmem
    -- a repetition finds its options there, and takes the inference for theirs
    have hkept : getLlmInference again.mediaPipe options
        { client with llmInferenceOptions := some options } = ([], .ok llmInference _) :=
      getLlmInference_kept rfl hinference
    exact (infer_of_getLlmInference sessionOptions' again.request hkept hinference).1 shown hmem

end LlmInferenceClient

end GenC
