import GenC.Agents.React
import GenC.Authoring.SmartChain
import GenC.Authoring.ToFromValueProto
import GenC.Intrinsics.Templates
import GenC.Retrieval.LocalCache
import GenC.Runtime.StatefulChains

/-!
# Agents

`create_computation_from_agent` of the interoperability with LangChain. An agent asks a model, and a tool, in
turn; what was said is kept in the local cache, and read from there for every question to the model.

* `CustomAgent.createComputation` — the chain that is built.
* `Conversation` — what the agent is for: who is asked what, round after round.
* `textStep` — what is said of an operation: the text at hand, and the minutes of what was said, after it.
* `Conversation.Conversing` — the invariant of the loop.

**`agent_converses`**: a run of the chain is a conversation, whatever the cache held before.
-/

namespace GenC

open Lib StatefulChains

/-! ## The code -/

/-- An `LLM` of LangChain. -/
inductive Llm where
  | customModel (uri : String) (config : List (String × PyArg))
  | modelCascade (models : List Llm)
  /-- Any other class. -/
  | other

namespace Llm

mutual

/-- `create_computation_from_llm` -/
def createComputation : Llm → Except String Value
  | .customModel uri config =>
      if uri = "" then .error "Model URI is required."
      else if config.isEmpty then .ok (createModel uri)
      else do return createModelWithConfig uri (← (PyArg.dict config).toValueProto)
  | .modelCascade models => do return createFallback (← createComputations models)
  | .other => .error "Unrecognized type of model."

def createComputations : List Llm → Except String (List Value)
  | [] => .ok []
  | llm :: llms => do return (← llm.createComputation) :: (← createComputations llms)

end

end Llm

/-- An `LLMChain` of LangChain. -/
structure LLMChain where
  llm : Llm
  /-- `prompt.template` -/
  promptTemplate : String

structure CustomChain where
  chainedOps : List ChainedOp
  numIteration : Int32

/-- `create_computation_from_custom_chain` -/
def CustomChain.createComputation (chain : CustomChain) : Value :=
  (ChainedOp.customChain chain.chainedOps chain.numIteration).createComputation

structure CustomTool where
  computation : CustomChain

structure CustomAgent where
  llmChain : LLMChain
  toolsList : List CustomTool
  maxIterations : Int32
  returnIntermediateSteps : Bool := false

namespace CustomAgent

def printResult : Value := createLogger
def stopWhenFinish : Value := createRegexPartialMatch "Finish"
def parseThoughtAction : Value := createCustomFunction "/react/parse_thought_action"
def formatObservation : Value := createCustomFunction "/react/format_observation"
def readContext : Value := createCustomFunction "/local_cache/read"
def addToContext : Value := createCustomFunction "/local_cache/write"
def evictContext : Value := createCustomFunction "/local_cache/remove"

def reactLoop (agent : CustomAgent) (modelCall toolComputation : Value) : Value :=
  createRepeatedConditionalChain agent.maxIterations
    [readContext, modelCall, parseThoughtAction, printResult, addToContext, stopWhenFinish, toolComputation,
      formatObservation, printResult, addToContext]

/-- The steps before the transcript is read. -/
def reagentSteps (agent : CustomAgent) (modelCall toolComputation : Value) : List Value :=
  -- the previous context is removed before a new request is processed
  [evictContext, createPromptTemplate agent.llmChain.promptTemplate, addToContext, printResult,
    agent.reactLoop modelCall toolComputation]

def chain (agent : CustomAgent) (modelCall toolComputation : Value) : Value :=
  let reagentSteps := agent.reagentSteps modelCall toolComputation
  createSerialChain (if agent.returnIntermediateSteps then reagentSteps ++ [readContext] else reagentSteps)

/-- `create_computation_from_agent` -/
def createComputation (agent : CustomAgent) : Except String Value := do
  let modelCall ← agent.llmChain.llm.createComputation
  match agent.toolsList with
  | [] => .error "list index out of range"
  | tool :: _ => return agent.chain modelCall tool.computation.createComputation

end CustomAgent

/-! ### Functions of the cache -/

/-- Undefined behaviour. -/
def LocalCache.orUndefined {κ α : Type} (x : Except Undefined α) : Exec κ α :=
  match x with
  | .ok a => pure a
  | .error _ => Run.crash .missingElement

/-- The functions of `SetCustomFunctionsForLocalValueCache`. -/
abbrev LocalValueCache : Type := LocalCache String Value

namespace LocalValueCache

variable (defaultDelimiter defaultKey : String)

def readFunction : SharedFunction LocalValueCache := fun _ => do
  let messages ← LocalCache.orUndefined ((← Run.step fun cache => (.ok cache, cache)).get defaultKey none)
  pure (.ofStr (messages.foldl (fun strStream v => strStream ++ v.str ++ defaultDelimiter) ""))

def writeFunction : SharedFunction LocalValueCache := fun arg => do
  let cache ← LocalCache.orUndefined ((← Run.step fun cache => (.ok cache, cache)).put defaultKey arg)
  Run.step fun _ => (.ok arg, cache)

def removeFunction : SharedFunction LocalValueCache := fun arg =>
  Run.step fun cache => (.ok arg, cache.remove defaultKey)

end LocalValueCache

/-- What an agent works on, and what its model and its tool were given. -/
structure AgentWorld where
  cache : LocalValueCache
  prompts : List String
  toolInputs : List String

/-- A function of the cache. -/
def onCache (fn : SharedFunction LocalValueCache) : SharedFunction AgentWorld :=
  fun arg => (fn arg).zoom (·.cache) fun cache w => { w with cache }

/-- `SetCustomFunctionsForLocalValueCache` -/
def setCustomFunctionsForLocalValueCache (fnMap : String → Option (SharedFunction AgentWorld))
    (defaultDelimiter defaultKey : String) : String → Option (SharedFunction AgentWorld) := fun uri =>
  if uri = "/local_cache/read" then some (onCache (LocalValueCache.readFunction defaultDelimiter defaultKey))
  else if uri = "/local_cache/write" then some (onCache (LocalValueCache.writeFunction defaultKey))
  else if uri = "/local_cache/remove" then some (onCache (LocalValueCache.removeFunction defaultKey))
  else fnMap uri

/-- The functions that agents use are in the map, next to any others. -/
structure SharedConfig.SupportsAgents (config : SharedConfig AgentWorld)
    (defaultDelimiter defaultKey : String) : Prop where
  read : config.customFunctionMap "/local_cache/read" =
    some (onCache (LocalValueCache.readFunction defaultDelimiter defaultKey))
  write : config.customFunctionMap "/local_cache/write" =
    some (onCache (LocalValueCache.writeFunction defaultKey))
  remove : config.customFunctionMap "/local_cache/remove" =
    some (onCache (LocalValueCache.removeFunction defaultKey))
  parseThoughtAction : config.customFunctionMap "/react/parse_thought_action" =
    some fun arg => Run.ofExcept (ReAct.parseThoughtAction arg)
  formatObservation : config.customFunctionMap "/react/format_observation" =
    some fun arg => Run.ofExcept (ReAct.formatObservation arg)

theorem SharedConfig.supportsAgents {config : SharedConfig AgentWorld}
    {fnMap : String → Option (SharedFunction AgentWorld)} {delimiter key : String}
    (hmap : config.customFunctionMap = setCustomFunctionsForLocalValueCache fnMap delimiter key)
    (hparse : fnMap "/react/parse_thought_action" = some fun arg => Run.ofExcept (ReAct.parseThoughtAction arg))
    (hformat : fnMap "/react/format_observation" = some fun arg => Run.ofExcept (ReAct.formatObservation arg)) :
    config.SupportsAgents delimiter key where
  read := by rw [hmap]; rfl
  write := by rw [hmap]; rfl
  remove := by rw [hmap]; rfl
  parseThoughtAction := by rw [hmap, ← hparse]; rfl
  formatObservation := by rw [hmap, ← hformat]; rfl

/-! ## Conversations -/

/-- A text that ends the conversation. -/
def Finishes (text : String) : Prop := "Finish".toList <:+: text.toList

instance (text : String) : Decidable (Finishes text) := by
  unfold Finishes
  infer_instance

/-- What was said, each of it followed by the delimiter. -/
def transcriptOf (delimiter : String) (said : List String) : String :=
  said.foldl (fun text message => text ++ message ++ delimiter) ""

/-- Who takes part in a conversation, and what it begins with. -/
structure Conversation where
  model : String → String
  tool : String → String
  instruction : String
  delimiter : String

namespace Conversation

variable (c : Conversation)

def transcript (said : List String) : String := transcriptOf c.delimiter said

/-- The thought and the action that the model answers with. -/
def thoughtActionAfter (said : List String) : String :=
  .ofList (ReAct.parseThoughtActionText (c.model (c.transcript said)).toList)

/-- What the tool makes of them. -/
def observationAfter (said : List String) : String :=
  "Observation: " ++ c.tool (c.thoughtActionAfter said) ++ "\n"

/-- What was said before round `k`, if nothing ended the conversation. -/
def saidBefore : Nat → List String
  | 0 => [c.instruction]
  | k + 1 => saidBefore k ++ [c.thoughtActionAfter (saidBefore k), c.observationAfter (saidBefore k)]

def prompt (k : Nat) : String := c.transcript (c.saidBefore k)

def thoughtAction (k : Nat) : String := c.thoughtActionAfter (c.saidBefore k)

def observation (k : Nat) : String := c.observationAfter (c.saidBefore k)

/-- Of `n` rounds at most, `m` are completed, and the one after them finishes. -/
structure Completes (n m : Nat) : Prop where
  le : m ≤ n
  goesOn : ∀ k < m, ¬Finishes (c.thoughtAction k)
  finishes : m < n → Finishes (c.thoughtAction m)

/-- What the loop ends with: the text that finishes, or else the last observation. -/
def lastSaid (n m : Nat) : String := if m < n then c.thoughtAction m else c.observation (n - 1)

/-- All that was said in the end. -/
def allSaid (n m : Nat) : List String :=
  c.saidBefore m ++ if m < n then [c.thoughtAction m] else []

theorem length_saidBefore (k : Nat) : (c.saidBefore k).length = 2 * k + 1 := by
  induction k with
  | zero => rfl
  | succ k ih => simp [saidBefore, ih]; omega

end Conversation

/-! ## Steps -/

/-- A deterministic function from texts to texts, and what it leaves of each text that it is given. -/
def answering {κ : Type} (answer : String → String) (note : String → κ → κ) : Transformer Value κ :=
  fun Q d w => d.hasStr = true ∧ ∀ r, r.hasStr = true → r.str = answer d.str → Q r (note d.str w)

def AgentWorld.notePrompt (prompt : String) (w : AgentWorld) : AgentWorld :=
  { w with prompts := w.prompts ++ [prompt] }

def AgentWorld.noteToolInput (text : String) (w : AgentWorld) : AgentWorld :=
  { w with toolInputs := w.toolInputs ++ [text] }

/-- What is known of the world of an agent: the texts in the cache, and who was given what. -/
structure Minutes where
  said : List String
  prompts : List String
  toolInputs : List String

/-- The cache, which holds so many messages of each key, has the texts under the key. -/
structure AgentWorld.Keeps (key : String) (capacity : Nat) (w : AgentWorld) (minutes : Minutes) : Prop where
  said : (w.cache.messages key).map Value.str = minutes.said
  prompts : w.prompts = minutes.prompts
  toolInputs : w.toolInputs = minutes.toolInputs
  capacity : w.cache.maxMessagesPerKey.toNat = capacity

/-- The text `t` is at hand, and the minutes are as said. -/
structure At (key : String) (capacity : Nat) (t : String) (minutes : Minutes) (d : Value) (w : AgentWorld) :
    Prop where
  hasStr : d.hasStr = true
  str : d.str = t
  keeps : w.Keeps key capacity minutes

/-- A step from texts to texts, where it is defined. -/
def textStep (key : String) (capacity : Nat) (step : String → Minutes → Option (String × Minutes)) :
    Transformer Value AgentWorld :=
  fun Q d w => ∃ t minutes t' minutes', At key capacity t minutes d w ∧ step t minutes = some (t', minutes') ∧
    ∀ r w', At key capacity t' minutes' r w' → Q r w'

/-- The step that decides whether the conversation is finished. -/
def finishStep : Transformer Value AgentWorld :=
  fun Q d w => d.hasStr = true ∧ Q (.ofBool (decide (Finishes d.str))) w

section

variable {key : String} {capacity : Nat} {t t' : String} {minutes minutes' : Minutes} {d : Value}
  {w : AgentWorld}
  {step : String → Minutes → Option (String × Minutes)} {Ts : List (Transformer Value AgentWorld)}

theorem boolean?_of_hasStr (h : d.hasStr = true) : d.boolean? = none := by
  unfold Value.hasStr at h
  split at h
  · rfl
  · cases h

theorem AgentWorld.Keeps.length (h : w.Keeps key capacity minutes) :
    (w.cache.messages key).length = minutes.said.length := by
  rw [← h.said, List.length_map]

theorem serial_textStep {Q : Value → AgentWorld → Prop} (hat : At key capacity t minutes d w)
    (hstep : step t minutes = some (t', minutes'))
    (hrest : ∀ r w', At key capacity t' minutes' r w' → Transformer.serial Ts Q r w') :
    Transformer.serial (textStep key capacity step :: Ts) Q d w :=
  ⟨t, minutes, t', minutes', hat, hstep, hrest⟩

/-- A text is not a decision. -/
theorem round_textStep {Q : Value → Bool → AgentWorld → Prop} (hat : At key capacity t minutes d w)
    (hstep : step t minutes = some (t', minutes'))
    (hrest : ∀ r w', At key capacity t' minutes' r w' → Transformer.round Value.boolean? Ts Q r w') :
    Transformer.round Value.boolean? (textStep key capacity step :: Ts) Q d w := by
  refine ⟨t, minutes, t', minutes', hat, hstep, fun r w' hat' => ?_⟩
  simp only [boolean?_of_hasStr hat'.hasStr]
  exact hrest r w' hat'

theorem round_finishStep {Q : Value → Bool → AgentWorld → Prop} (hat : At key capacity t minutes d w)
    (hfinishes : Finishes t → Q d true w)
    (hgoesOn : ¬Finishes t → Transformer.round Value.boolean? Ts Q d w) :
    Transformer.round Value.boolean? (finishStep :: Ts) Q d w := by
  refine ⟨hat.hasStr, ?_⟩
  rw [hat.str]
  by_cases h : Finishes t
  · rw [decide_eq_true h]
    exact hfinishes h
  · rw [decide_eq_false h]
    exact hgoesOn h

end

/-! ### The steps of an agent -/

namespace Steps

variable (delimiter : String) (capacity : Nat)

def evict : String → Minutes → Option (String × Minutes) :=
    fun t minutes => some (t, { minutes with said := [] })

def fill (template : String) : String → Minutes → Option (String × Minutes) := fun t minutes =>
  some (fillTemplate (fun _ => t) template, minutes)

def write : String → Minutes → Option (String × Minutes) := fun t minutes =>
  if minutes.said.length < capacity then some (t, { minutes with said := minutes.said ++ [t] }) else none

def print : String → Minutes → Option (String × Minutes) := fun t minutes => some (t, minutes)

def read : String → Minutes → Option (String × Minutes) := fun _ minutes =>
  some (transcriptOf delimiter minutes.said, minutes)

def ask (model : String → String) : String → Minutes → Option (String × Minutes) := fun t minutes =>
  some (model t, { minutes with prompts := minutes.prompts ++ [t] })

def parse : String → Minutes → Option (String × Minutes) := fun t minutes =>
  some (.ofList (ReAct.parseThoughtActionText t.toList), minutes)

def use (tool : String → String) : String → Minutes → Option (String × Minutes) := fun t minutes =>
  some (tool t, { minutes with toolInputs := minutes.toolInputs ++ [t] })

def format : String → Minutes → Option (String × Minutes) := fun t minutes =>
  some ("Observation: " ++ t ++ "\n", minutes)

end Steps

theorem exists_of_hasStr {d : Value} (h : d.hasStr = true) : ∃ m t, d = .scalar m (.str t) := by
  unfold Value.hasStr at h
  split at h
  · exact ⟨_, _, rfl⟩
  · cases h

section

variable [ProtoText] {config : SharedConfig AgentWorld} {libraries : InlineLibraries} {w₀ : AgentWorld}
  {delimiter key : String} {capacity : Nat}

/-- A custom function does what is in the map. -/
theorem realizes_customFunction {uri : String} {fn : SharedFunction AgentWorld}
    {T : Transformer Value AgentWorld} (hfn : config.customFunctionMap uri = some fn)
    (hT : ∀ Q d w, T Q d w → ∃ m c w', Run.Returns (fn d) w (.scalar m c) w' ∧ Q (.scalar m c) w') :
    Realizes (config.completeHandlerSet libraries) w₀ (createCustomFunction uri) T := by
  have hexecute : ∀ d, config.customFunction.executeCall ⟨"custom_function", some (.ofStr uri)⟩ d = fn d := by
    intro d
    simp only [SharedConfig.customFunction, Intrinsic.parameter, Option.getD_some, Value.ofStr, Value.str, hfn]
  have hinline : Realizes (config.completeHandlerSet libraries) w₀ (createCustomFunction uri)
      (config.customFunction.transformer ⟨"custom_function", some (.ofStr uri)⟩) := realizes_inline rfl rfl
  refine hinline.weaken fun Q d w h => ?_
  simp only [SharedHandler.transformer, hexecute]
  exact hT Q d w h

/-- Such a function of texts, that leaves a note. -/
theorem realizes_textFunction {uri : String} {fn : SharedFunction AgentWorld} {step}
    (hfn : config.customFunctionMap uri = some fn)
    (hstep : ∀ m t w minutes t' minutes', step t minutes = some (t', minutes') → w.Keeps key capacity minutes →
      ∃ m' w', Run.Returns (fn (.scalar m (.str t))) w (.scalar m' (.str t')) w' ∧
        w'.Keeps key capacity minutes') :
    Realizes (config.completeHandlerSet libraries) w₀ (createCustomFunction uri)
      (textStep key capacity step) := by
  refine realizes_customFunction hfn fun Q d w h => ?_
  obtain ⟨t, minutes, t', minutes', hat, ht', hq⟩ := h
  obtain ⟨m, t, rfl⟩ := exists_of_hasStr hat.hasStr
  obtain rfl : t = _ := hat.str
  obtain ⟨m', w', hreturns, hkeeps⟩ := hstep m t w minutes t' minutes' ht' hat.keeps
  exact ⟨m', .str t', w', hreturns, hq _ _ ⟨rfl, rfl, hkeeps⟩⟩

variable (hsupports : config.SupportsAgents delimiter key)

include hsupports

theorem realizes_evictContext : Realizes (config.completeHandlerSet libraries) w₀ CustomAgent.evictContext
    (textStep key capacity Steps.evict) := by
  refine realizes_textFunction hsupports.remove fun m t w minutes t' minutes' hstep hkeeps => ?_
  cases hstep
  refine ⟨m, { w with cache := w.cache.remove key }, Run.Returns.zoom (.step rfl), ?_⟩
  exact ⟨by simp, hkeeps.prompts, hkeeps.toolInputs, hkeeps.capacity⟩

theorem realizes_addToContext : Realizes (config.completeHandlerSet libraries) w₀ CustomAgent.addToContext
    (textStep key capacity (Steps.write capacity)) := by
  refine realizes_textFunction hsupports.write fun m t w minutes t' minutes' hstep hkeeps => ?_
  unfold Steps.write at hstep
  split at hstep
  case isFalse => cases hstep
  case isTrue hroom =>
    cases hstep
    -- the specification counts what was said, the cache its messages
    have hroom' : (w.cache.messages key).length < w.cache.maxMessagesPerKey.toNat := by
      rwa [hkeeps.length, hkeeps.capacity]
    obtain ⟨cache, hput, hmessages, hcapacity⟩ := LocalCache.put_of_room (.scalar m (.str t)) hroom'
    refine ⟨m, { w with cache }, ?_, ?_⟩
    · refine Run.Returns.zoom (Run.Returns.bind (.step rfl) ?_)
      rw [hput]
      exact Run.Returns.bind (.pure cache _) (.step rfl)
    · refine ⟨?_, hkeeps.prompts, hkeeps.toolInputs, ?_⟩
      · rw [hmessages, List.map_append, hkeeps.said]
        rfl
      · rw [hcapacity, hkeeps.capacity]

theorem realizes_readContext : Realizes (config.completeHandlerSet libraries) w₀ CustomAgent.readContext
    (textStep key capacity (Steps.read delimiter)) := by
  refine realizes_textFunction hsupports.read fun m t w minutes t' minutes' hstep hkeeps => ?_
  cases hstep
  refine ⟨{}, w, ?_, hkeeps⟩
  have hread : (w.cache.messages key).foldl (fun strStream v => strStream ++ v.str ++ delimiter) "" =
      transcriptOf delimiter minutes.said := by
    rw [← hkeeps.said, transcriptOf, List.foldl_map]
  rw [← hread]
  refine Run.Returns.zoom (Run.Returns.bind (.step rfl) ?_)
  rw [LocalCache.get_none]
  exact Run.Returns.bind (.pure _ _) (.pure _ _)

theorem realizes_parseThoughtAction : Realizes (config.completeHandlerSet libraries) w₀
    CustomAgent.parseThoughtAction (textStep key capacity Steps.parse) := by
  refine realizes_textFunction hsupports.parseThoughtAction fun m t w minutes t' minutes' hstep hkeeps => ?_
  cases hstep
  exact ⟨{}, w, .ofExcept rfl w, hkeeps⟩

theorem realizes_formatObservation : Realizes (config.completeHandlerSet libraries) w₀
    CustomAgent.formatObservation (textStep key capacity Steps.format) := by
  refine realizes_textFunction hsupports.formatObservation fun m t w minutes t' minutes' hstep hkeeps => ?_
  cases hstep
  exact ⟨{}, w, .ofExcept rfl w, hkeeps⟩

omit hsupports

/-- An inline handler without a state. -/
theorem realizes_inlineHandler {handler : InlineHandler} {uri : String} {staticParameter : Option Value}
    {T : Transformer Value AgentWorld}
    (hlookup : (config.completeHandlerSet libraries).inlineHandlers.lookup uri = some handler.shared)
    (hwf : handler.checkWellFormed ⟨uri, staticParameter⟩ = .ok ())
    (hT : ∀ Q d w, T Q d w → ∃ m c, handler.executeCall ⟨uri, staticParameter⟩ d = .ok (.scalar m c) ∧
      Q (.scalar m c) w) :
    Realizes (config.completeHandlerSet libraries) w₀ (.intrinsic {} uri staticParameter) T := by
  have hinline : Realizes (config.completeHandlerSet libraries) w₀ (.intrinsic {} uri staticParameter)
      (handler.shared.transformer ⟨uri, staticParameter⟩) := realizes_inline hlookup hwf
  refine hinline.weaken fun Q d w h => ?_
  obtain ⟨m, c, hexecute, hq⟩ := hT Q d w h
  refine ⟨m, c, w, ?_, hq⟩
  show Run.Returns (handler.executeCall ⟨uri, staticParameter⟩ d).run w (.scalar m c) w
  rw [hexecute]
  exact .ofExcept rfl w

theorem realizes_printResult : Realizes (config.completeHandlerSet libraries) w₀ CustomAgent.printResult
    (textStep key capacity Steps.print) := by
  refine realizes_inlineHandler rfl rfl fun Q d w h => ?_
  obtain ⟨t, minutes, t', minutes', hat, ht', hq⟩ := h
  cases ht'
  obtain ⟨m, t, rfl⟩ := exists_of_hasStr hat.hasStr
  exact ⟨m, .str t, rfl, hq _ _ hat⟩

theorem realizes_stopWhenFinish
    (hfinish : ∀ text, libraries.partialMatch text "Finish" = decide (Finishes text)) :
    Realizes (config.completeHandlerSet libraries) w₀ CustomAgent.stopWhenFinish finishStep := by
  refine realizes_inlineHandler rfl rfl fun Q d w h => ?_
  obtain ⟨hstr, hq⟩ := h
  obtain ⟨m, t, rfl⟩ := exists_of_hasStr hstr
  refine ⟨{}, .boolean (decide (Finishes t)), ?_, hq⟩
  rw [← hfinish]
  rfl

theorem realizes_promptTemplate (htextual : libraries.Textual) {template : String}
    (hone : Univariate template) :
    Realizes (config.completeHandlerSet libraries) w₀ (createPromptTemplate template)
      (textStep key capacity (Steps.fill template)) := by
  have hparameter : (⟨"prompt_template", some (.ofStr template)⟩ : Intrinsic).parameter.str = template := rfl
  have hwf : (promptTemplate libraries).checkWellFormed ⟨"prompt_template", some (.ofStr template)⟩ = .ok () :=
    rfl
  have hlookup : (config.completeHandlerSet libraries).inlineHandlers.lookup "prompt_template" =
      some (promptTemplate libraries).shared := rfl
  refine realizes_inlineHandler hlookup hwf fun Q d w h => ?_
  obtain ⟨t, minutes, t', minutes', hat, ht', hq⟩ := h
  cases ht'
  refine ⟨{}, .str (fillTemplate (fun _ => t) template), ?_, hq _ _ ⟨rfl, rfl, hat.keeps⟩⟩
  rw [← hparameter] at hone
  exact promptTemplate_univariate_fill htextual hone hat.hasStr fun _ _ => hat.str.symm

/-- A model or a tool. -/
theorem realizes_textStep {handlers : SharedHandlerSet AgentWorld} {fn : Value} {answer : String → String}
    {note : String → AgentWorld → AgentWorld} {step : String → Minutes → Option (String × Minutes)}
    (h : Realizes handlers w₀ fn (answering answer note))
    (hstep : ∀ t w minutes t' minutes', step t minutes = some (t', minutes') → w.Keeps key capacity minutes →
      t' = answer t ∧ (note t w).Keeps key capacity minutes') :
    Realizes handlers w₀ fn (textStep key capacity step) := by
  refine h.weaken fun Q d w hT => ?_
  obtain ⟨t, minutes, t', minutes', hat, ht', hq⟩ := hT
  obtain ⟨rfl, hkeeps⟩ := hstep t w minutes t' minutes' ht' hat.keeps
  refine ⟨hat.hasStr, fun r hr hanswer => hq r _ ⟨hr, ?_, ?_⟩⟩
  · rw [hanswer, hat.str]
  · rwa [hat.str]

end

/-! ## The loop -/

namespace Conversation

variable (c : Conversation)

/-- What the loop works on when round `k` begins. -/
def atHand : Nat → String
  | 0 => c.instruction
  | k + 1 => c.observation k

def minutesBefore (start : Minutes) (k : Nat) : Minutes where
  said := c.saidBefore k
  prompts := start.prompts ++ (List.range k).map c.prompt
  toolInputs := start.toolInputs ++ (List.range k).map c.thoughtAction

def minutesAfter (start : Minutes) (n m : Nat) : Minutes where
  said := c.allSaid n m
  prompts := start.prompts ++ (List.range (min (m + 1) n)).map c.prompt
  toolInputs := start.toolInputs ++ (List.range m).map c.thoughtAction

/-- The invariant of the loop. -/
structure Conversing (key : String) (capacity : Nat) (start : Minutes) (k : Nat) (d : Value) (w : AgentWorld) :
    Prop where
  goesOn : ∀ j < k, ¬Finishes (c.thoughtAction j)
  minutes : At key capacity (c.atHand k) (c.minutesBefore start k) d w

/-- What it comes to. -/
def Conversed (key : String) (capacity : Nat) (start : Minutes) (n : Nat) (d : Value) (w : AgentWorld) : Prop :=
  ∃ m, c.Completes n m ∧ At key capacity (c.lastSaid n m) (c.minutesAfter start n m) d w

theorem map_range_succ (f : Nat → String) (said : List String) (k : Nat) :
    said ++ (List.range k).map f ++ [f k] = said ++ (List.range (k + 1)).map f := by
  rw [List.range_succ, List.map_append, List.append_assoc]
  rfl

end Conversation

/-- The steps of the loop. -/
def loopSteps (key : String) (capacity : Nat) (c : Conversation) : List (Transformer Value AgentWorld) :=
  [textStep key capacity (Steps.read c.delimiter), textStep key capacity (Steps.ask c.model),
    textStep key capacity Steps.parse, textStep key capacity Steps.print,
    textStep key capacity (Steps.write capacity), finishStep, textStep key capacity (Steps.use c.tool),
    textStep key capacity Steps.format, textStep key capacity Steps.print,
    textStep key capacity (Steps.write capacity)]

section

variable {key : String} {capacity : Nat} {c : Conversation} {start : Minutes} {n k : Nat} {d : Value}
  {w : AgentWorld}

/-- A round either finishes or gets to the next one. -/
theorem round_loopSteps {R : Value → Bool → AgentWorld → Prop} (hcapacity : 2 * n + 1 ≤ capacity) (hk : k < n)
    (h : c.Conversing key capacity start k d w)
    (hfinishes : ∀ r w', c.Conversed key capacity start n r w' → R r true w')
    (hgoesOn : ∀ r w', c.Conversing key capacity start (k + 1) r w' → R r false w') :
    Transformer.round Value.boolean? (loopSteps key capacity c) R d w := by
  have hlength := c.length_saidBefore k
  -- The minutes after the model has been asked, after its answer is in the cache, and after the tool has been used.
  let asked : Minutes :=
    ⟨c.saidBefore k, start.prompts ++ (List.range (k + 1)).map c.prompt,
      start.toolInputs ++ (List.range k).map c.thoughtAction⟩
  let answered : Minutes := { asked with said := c.saidBefore k ++ [c.thoughtAction k] }
  let used : Minutes :=
    { answered with toolInputs := start.toolInputs ++ (List.range (k + 1)).map c.thoughtAction }
  have hread : Steps.read c.delimiter (c.atHand k) (c.minutesBefore start k) =
      some (c.prompt k, c.minutesBefore start k) := rfl
  have hask : Steps.ask c.model (c.prompt k) (c.minutesBefore start k) =
    some (c.model (c.prompt k), asked) := by
    rw [Steps.ask, Conversation.minutesBefore, Conversation.map_range_succ]
  have hparse : Steps.parse (c.model (c.prompt k)) asked = some (c.thoughtAction k, asked) := rfl
  have hwrite : Steps.write capacity (c.thoughtAction k) asked = some (c.thoughtAction k, answered) := by
    refine if_pos ?_
    show (c.saidBefore k).length < capacity
    omega
  have huse : Steps.use c.tool (c.thoughtAction k) answered = some (c.tool (c.thoughtAction k), used) := by
    rw [Steps.use, Conversation.map_range_succ]
  have hformat : Steps.format (c.tool (c.thoughtAction k)) used = some (c.observation k, used) := rfl
  have hwrite' : Steps.write capacity (c.observation k) used =
      some (c.observation k, c.minutesBefore start (k + 1)) := by
    have hroom : used.said.length < capacity := by
      show (c.saidBefore k ++ [c.thoughtAction k]).length < capacity
      rw [List.length_append, List.length_singleton]
      omega
    rw [Steps.write, if_pos hroom]
    show some (_, ({ used with said := c.saidBefore k ++ [_] ++ [_] } : Minutes)) = _
    rw [List.append_assoc]
    rfl
  -- one step of the round after the other, up to the one that may finish
  refine round_textStep h.minutes hread fun _ _ h₁ => ?_
  refine round_textStep h₁ hask fun _ _ h₂ => ?_
  refine round_textStep h₂ hparse fun _ _ h₃ => ?_
  refine round_textStep h₃ rfl fun _ _ h₄ => ?_
  refine round_textStep h₄ hwrite fun _ _ h₅ => ?_
  refine round_finishStep h₅ (fun hfinish => hfinishes _ _ ?_) fun hgo => ?_
  · refine ⟨k, ⟨hk.le, h.goesOn, fun _ => hfinish⟩, ?_⟩
    -- the agent finishes in this round, so neither the tool nor an observation follows
    have hmin : min (k + 1) n = k + 1 := by omega
    have hafter : c.minutesAfter start n k = answered := by
      rw [Conversation.minutesAfter, Conversation.allSaid, if_pos hk, hmin]
    rwa [hafter, Conversation.lastSaid, if_pos hk]
  · refine round_textStep h₅ huse fun _ _ h₆ => ?_
    refine round_textStep h₆ hformat fun _ _ h₇ => ?_
    refine round_textStep h₇ rfl fun _ _ h₈ => ?_
    refine round_textStep h₈ hwrite' fun _ _ h₉ => hgoesOn _ _ ⟨fun j hj => ?_, h₉⟩
    rcases Nat.lt_succ_iff_lt_or_eq.mp hj with hj | rfl
    · exact h.goesOn j hj
    · exact hgo

/-- The rounds are a conversation. -/
theorem rounds_loopSteps {Q : Value → AgentWorld → Prop} (hn : 0 < n) (hcapacity : 2 * n + 1 ≤ capacity)
    (hat : At key capacity c.instruction { start with said := [c.instruction] } d w)
    (hrest : ∀ r w', c.Conversed key capacity start n r w' → Q r w') :
    Transformer.rounds Value.boolean? (loopSteps key capacity c) n Q d w := by
  -- each round keeps the conversation at its number of steps
  have hround : ∀ k < n, ∀ d w, c.Conversing key capacity start k d w → ∀ R : Value → Bool → AgentWorld → Prop,
      (∀ r w', Q r w' → R r true w') → (∀ r w', c.Conversing key capacity start (k + 1) r w' → R r false w') →
      Transformer.round Value.boolean? (loopSteps key capacity c) R d w := by
    intro k hk d w h R hended hgoesOn
    exact round_loopSteps hcapacity hk h (fun r w' h => hended r w' (hrest r w' h)) hgoesOn
  -- after the last round nothing more is asked
  have hend : ∀ d w, c.Conversing key capacity start n d w → Q d w := by
    intro d w h
    refine hrest d w ⟨n, ⟨le_rfl, h.goesOn, fun hlt => absurd hlt (lt_irrefl n)⟩, ?_⟩
    have hlast : c.lastSaid n n = c.atHand n := by
      obtain ⟨k, rfl⟩ := Nat.exists_eq_succ_of_ne_zero hn.ne'
      exact if_neg (lt_irrefl _)
    have hafter : c.minutesAfter start n n = c.minutesBefore start n := by
      rw [Conversation.minutesAfter, Conversation.allSaid, if_neg (lt_irrefl n),
        Nat.min_eq_right (Nat.le_succ n),
        List.append_nil]
      rfl
    rw [hlast, hafter]
    exact h.minutes
  have hbefore : c.minutesBefore start 0 = { start with said := [c.instruction] } := by
    simp [Conversation.minutesBefore, Conversation.saidBefore]
  have hstart : c.Conversing key capacity start 0 d w :=
    ⟨fun _ hj => absurd hj (Nat.not_lt_zero _), by rwa [hbefore]⟩
  exact Transformer.rounds_of_invariant hround hend hstart

end

/-! ### The whole agent -/

/-- The steps of an agent. -/
def agentSteps (key : String) (capacity : Nat) (c : Conversation) (template : String) (n : Nat)
    (returnIntermediateSteps : Bool) : List (Transformer Value AgentWorld) :=
  let steps := [textStep key capacity Steps.evict, textStep key capacity (Steps.fill template),
    textStep key capacity (Steps.write capacity), textStep key capacity Steps.print,
    Transformer.rounds Value.boolean? (loopSteps key capacity c) n]
  if returnIntermediateSteps then steps ++ [textStep key capacity (Steps.read c.delimiter)] else steps

/-- What an agent answers when `m` of `n` rounds were completed. -/
def Conversation.answer (c : Conversation) (returnIntermediateSteps : Bool) (n m : Nat) : String :=
  if returnIntermediateSteps then c.transcript (c.allSaid n m) else c.lastSaid n m

theorem serial_agentSteps {key : String} {capacity : Nat} {c : Conversation} {template : String} {n : Nat}
    {returnIntermediateSteps : Bool} {t : String} {start : Minutes} {d : Value} {w : AgentWorld} (hn : 0 < n)
    (hcapacity : 2 * n + 1 ≤ capacity) (hinstruction : fillTemplate (fun _ => t) template = c.instruction)
    (hat : At key capacity t start d w) :
    Transformer.serial (agentSteps key capacity c template n returnIntermediateSteps)
      (fun r w' => ∃ m, c.Completes n m ∧
        At key capacity (c.answer returnIntermediateSteps n m) (c.minutesAfter start n m) r w') d w := by
  -- a new question forgets what was said before
  let evicted : Minutes := { start with said := [] }
  have hfill : Steps.fill template t evicted = some (c.instruction, evicted) := by
    rw [Steps.fill, hinstruction]
  have hwrite : Steps.write capacity c.instruction evicted =
      some (c.instruction, { start with said := [c.instruction] }) := if_pos (by show 0 < capacity; omega)
  have hbegin : ∀ Ts (Q : Value → AgentWorld → Prop),
      (∀ r w', c.Conversed key capacity start n r w' → Transformer.serial Ts Q r w') →
      Transformer.serial (textStep key capacity Steps.evict :: textStep key capacity (Steps.fill template) ::
        textStep key capacity (Steps.write capacity) :: textStep key capacity Steps.print ::
        Transformer.rounds Value.boolean? (loopSteps key capacity c) n :: Ts) Q d w := by
    intro Ts Q hrest
    refine serial_textStep hat rfl fun _ _ h₁ => ?_
    refine serial_textStep h₁ hfill fun _ _ h₂ => ?_
    refine serial_textStep h₂ hwrite fun _ _ h₃ => ?_
    refine serial_textStep h₃ rfl fun _ _ h₄ => ?_
    exact rounds_loopSteps hn hcapacity h₄ hrest
  cases returnIntermediateSteps with
  | false => exact hbegin [] _ fun r w' h => h
  | true =>
      refine hbegin [textStep key capacity (Steps.read c.delimiter)] _ fun r w' h => ?_
      obtain ⟨m, hm, hat'⟩ := h
      exact serial_textStep hat' rfl fun _ _ hread => ⟨m, hm, hread⟩

/-! ## Agents converse -/

section

variable [ProtoText] {config : SharedConfig AgentWorld} {libraries : InlineLibraries} {w₀ : AgentWorld}
  {delimiter key : String} {capacity : Nat} {agent : CustomAgent} {modelCall toolComputation : Value}
  {c : Conversation}

theorem realizes_reactLoop (hsupports : config.SupportsAgents c.delimiter key)
    (hfinish : ∀ text, libraries.partialMatch text "Finish" = decide (Finishes text))
    (hmodel : Realizes (config.completeHandlerSet libraries) w₀ modelCall
    (answering c.model AgentWorld.notePrompt))
    (htool : Realizes (config.completeHandlerSet libraries) w₀ toolComputation
      (answering c.tool AgentWorld.noteToolInput)) :
    Realizes (config.completeHandlerSet libraries) w₀ (agent.reactLoop modelCall toolComputation)
      (Transformer.rounds Value.boolean? (loopSteps key capacity c) agent.maxIterations.toInt.toNat) := by
  -- the model and the tool keep what the other steps have recorded
  have hask : Realizes (config.completeHandlerSet libraries) w₀ modelCall
      (textStep key capacity (Steps.ask c.model)) := by
    refine realizes_textStep hmodel fun t w minutes t' minutes' hstep hkeeps => ?_
    cases hstep
    exact ⟨rfl, hkeeps.said, congrArg (· ++ [t]) hkeeps.prompts, hkeeps.toolInputs, hkeeps.capacity⟩
  have huse : Realizes (config.completeHandlerSet libraries) w₀ toolComputation
      (textStep key capacity (Steps.use c.tool)) := by
    refine realizes_textStep htool fun t w minutes t' minutes' hstep hkeeps => ?_
    cases hstep
    exact ⟨rfl, hkeeps.said, hkeeps.prompts, congrArg (· ++ [t]) hkeeps.toolInputs, hkeeps.capacity⟩
  refine realizes_createRepeatedConditionalChain rfl (List.cons_ne_nil _ _) ?_
  exact .cons (realizes_readContext hsupports) <| .cons hask <|
    .cons (realizes_parseThoughtAction hsupports) <| .cons realizes_printResult <|
    .cons (realizes_addToContext hsupports) <| .cons (realizes_stopWhenFinish hfinish) <| .cons huse <|
    .cons (realizes_formatObservation hsupports) <| .cons realizes_printResult <|
    .cons (realizes_addToContext hsupports) .nil

/-- The steps of the chain that is built. -/
theorem realizes_agent (hsupports : config.SupportsAgents c.delimiter key) (htextual : libraries.Textual)
    (hone : Univariate agent.llmChain.promptTemplate)
    (hfinish : ∀ text, libraries.partialMatch text "Finish" = decide (Finishes text))
    (hmodel : Realizes (config.completeHandlerSet libraries) w₀ modelCall
    (answering c.model AgentWorld.notePrompt))
    (htool : Realizes (config.completeHandlerSet libraries) w₀ toolComputation
      (answering c.tool AgentWorld.noteToolInput)) :
    Realizes (config.completeHandlerSet libraries) w₀ (agent.chain modelCall toolComputation)
      (Transformer.serial (agentSteps key capacity c agent.llmChain.promptTemplate
        agent.maxIterations.toInt.toNat agent.returnIntermediateSteps)) := by
  have hloop : Realizes (config.completeHandlerSet libraries) w₀ (agent.reactLoop modelCall toolComputation)
      (Transformer.rounds Value.boolean? (loopSteps key capacity c) agent.maxIterations.toInt.toNat) :=
    realizes_reactLoop hsupports hfinish hmodel htool
  have hread : Realizes (config.completeHandlerSet libraries) w₀ CustomAgent.readContext
      (textStep key capacity (Steps.read c.delimiter)) := realizes_readContext hsupports
  unfold CustomAgent.chain agentSteps
  cases agent.returnIntermediateSteps
  all_goals
    refine realizes_createSerialChain rfl (List.cons_ne_nil _ _) ?_
    refine .cons (realizes_evictContext hsupports) <| .cons (realizes_promptTemplate htextual hone) <|
      .cons (realizes_addToContext hsupports) <| .cons realizes_printResult <| .cons hloop ?_
  · exact .nil
  · exact .cons hread .nil

/-- **An agent converses.** Its model and its tool are deterministic functions from texts to texts, and its
template has one placeholder. Whatever the cache holds, with room for `2 * n + 1` messages of the key, a run on
a question is a conversation that begins with the filled template and takes `n` rounds at most: in round `k` the
model is given the transcript of what was said before the round, and the tool is given what the model's answer
is parsed to, unless that finishes the conversation. The text that finishes it is returned, or else the last
observation; or, where the intermediate steps are asked for, the transcript of all that was said. -/
theorem agent_converses {model tool : String → String} {tool₀ : CustomTool} {tools : List CustomTool}
    {s : ControlFlowState (SharedState AgentWorld)}
    (hmodelCall : agent.llmChain.llm.createComputation = .ok modelCall)
    (htools : agent.toolsList = tool₀ :: tools)
    (hone : Univariate agent.llmChain.promptTemplate) (hiterations : 0 < agent.maxIterations.toInt)
    (htextual : libraries.Textual)
    (hfinish : ∀ text, libraries.partialMatch text "Finish" = decide (Finishes text))
    (hsupports : config.SupportsAgents delimiter key)
    (hmodel : Realizes (config.completeHandlerSet libraries) w₀ modelCall
    (answering model AgentWorld.notePrompt))
    (htool : Realizes (config.completeHandlerSet libraries) w₀ tool₀.computation.createComputation
      (answering tool AgentWorld.noteToolInput))
    (hcapacity : 2 * agent.maxIterations.toInt.toNat + 1 ≤ s.impl.impl.cache.maxMessagesPerKey.toNat)
    (label : Meta) (question : String) :
    let n := agent.maxIterations.toInt.toNat
    let c : Conversation :=
      { model, tool, delimiter, instruction := fillTemplate (fun _ => question) agent.llmChain.promptTemplate }
    ∃ computation m r s', agent.createComputation = .ok computation ∧
      Run.Finally (fun fuel => Runner.run ⟨some computation,
        controlFlowExecutor (sharedLocalExecutor (config.completeHandlerSet libraries) w₀) fuel⟩
        (.scalar label (.str question))) s r s' ∧
      c.Completes n m ∧
      s'.impl.impl.prompts = s.impl.impl.prompts ++ (List.range (min (m + 1) n)).map c.prompt ∧
      s'.impl.impl.toolInputs = s.impl.impl.toolInputs ++ (List.range m).map c.thoughtAction ∧
      r.hasStr = true ∧ r.str = c.answer agent.returnIntermediateSteps n m := by
  intro n c
  have hcomputation : agent.createComputation =
      .ok (agent.chain modelCall tool₀.computation.createComputation) := by
    rw [CustomAgent.createComputation, hmodelCall, htools]
    rfl
  have hn : 0 < n := by omega
  -- what the cache and the records hold when the agent is called
  let start : Minutes :=
    ⟨(s.impl.impl.cache.messages key).map Value.str, s.impl.impl.prompts, s.impl.impl.toolInputs⟩
  have hat : At key s.impl.impl.cache.maxMessagesPerKey.toNat question start (.scalar label (.str question))
      s.impl.impl := ⟨rfl, rfl, rfl, rfl, rfl, rfl⟩
  have hagent : Realizes (config.completeHandlerSet libraries) w₀
      (agent.chain modelCall tool₀.computation.createComputation)
      (Transformer.serial (agentSteps key s.impl.impl.cache.maxMessagesPerKey.toNat c
        agent.llmChain.promptTemplate n agent.returnIntermediateSteps)) :=
    realizes_agent hsupports htextual hone hfinish hmodel htool
  obtain ⟨r, s', hrun, m, hm, hanswer⟩ := run_returns rfl (hagent "") (serial_agentSteps hn hcapacity rfl hat)
  exact ⟨_, m, r, s', hcomputation, hrun, hm, hanswer.keeps.prompts, hanswer.keeps.toolInputs, hanswer.hasStr,
    hanswer.str⟩

end

/-! ### An agent that is answered the same -/

/-- A deterministic function from texts to texts. -/
def SharedFunction.ofText {κ : Type} (answer : String → String) (note : String → κ → κ) : SharedFunction κ :=
  fun arg => Run.step fun w => (.ok (.ofStr (answer arg.str)), note arg.str w)

section

variable [ProtoText] {config : SharedConfig AgentWorld} {libraries : InlineLibraries} {w₀ : AgentWorld}
  {uri : String} {answer : String → String} {note : String → AgentWorld → AgentWorld}

theorem realizes_customFunction_ofText (hfn : config.customFunctionMap uri = some (.ofText answer note)) :
    Realizes (config.completeHandlerSet libraries) w₀ (createCustomFunction uri) (answering answer note) := by
  refine realizes_customFunction hfn fun Q d w h => ?_
  exact ⟨{}, .str (answer d.str), note d.str w, .step rfl, h.2 _ rfl rfl⟩

theorem realizes_createModel_ofText (huri : uri ≠ "test_model")
    (hfn : config.modelInferenceMap uri = some (.ofText answer note)) :
    Realizes (config.completeHandlerSet libraries) w₀ (createModel uri) (answering answer note) := by
  have hinline : Realizes (config.completeHandlerSet libraries) w₀ (createModel uri)
      (config.modelInference.transformer ⟨"model_inference", some (.ofStr uri)⟩) := realizes_inline rfl rfl
  refine hinline.weaken fun Q d w h => ⟨{}, .str (answer d.str), note d.str w, ?_, h.2 _ rfl rfl⟩
  simp only [SharedConfig.modelInference, Intrinsic.parameter, Option.getD_some, Value.ofStr, Value.str, hfn]
  rw [if_neg huri]
  exact .step rfl

end

def echo : CustomTool := ⟨[.computation (createCustomFunction "/tool")], 0⟩

def thinker : CustomAgent where
  llmChain := { llm := .customModel "/test/model" [], promptTemplate := "Q: \x7bquestion\x7d" }
  toolsList := [echo]
  maxIterations := 2

def thinkerFunctions : String → Option (SharedFunction AgentWorld) := fun uri =>
  if uri = "/tool" then some (.ofText (fun text => text) AgentWorld.noteToolInput)
  else if uri = "/react/parse_thought_action" then some fun arg => Run.ofExcept (ReAct.parseThoughtAction arg)
  else if uri = "/react/format_observation" then some fun arg => Run.ofExcept (ReAct.formatObservation arg)
  else none

def thinkerConfig : SharedConfig AgentWorld where
  delegateMap _ := none
  modelInferenceMap uri :=
    if uri = "/test/model" then some
      (.ofText (fun _ => "Thought: t\nAction: a\n") AgentWorld.notePrompt) else none
  modelInferenceWithConfigMap _ := none
  customFunctionMap := setCustomFunctionsForLocalValueCache thinkerFunctions "\n" "key"

def thinkerLibraries : InlineLibraries :=
  { InlineLibraries.texts with partialMatch := fun text pattern => decide (pattern.toList <:+: text.toList) }

/-- The text of an earlier run is in the cache. -/
def thinkerWorld : AgentWorld := ⟨⟨Finmap.singleton "key" [.ofStr "earlier"], 5⟩, [], []⟩

theorem thinker_converses :
    let _ := ProtoText.silent
    let c : Conversation :=
      { model := fun _ => "Thought: t\nAction: a\n", tool := fun text => text, delimiter := "\n",
        instruction := fillTemplate (fun _ => "why") "Q: \x7bquestion\x7d" }
    ∃ computation m r s', thinker.createComputation = .ok computation ∧
      Run.Finally (fun fuel => Runner.run ⟨some computation, controlFlowExecutor
        (sharedLocalExecutor (thinkerConfig.completeHandlerSet thinkerLibraries) thinkerWorld) fuel⟩
        (.scalar {} (.str "why"))) ⟨.empty, ⟨.empty, thinkerWorld⟩⟩ r s' ∧
      c.Completes 2 m ∧
      s'.impl.impl.prompts = [] ++ (List.range (min (m + 1) 2)).map c.prompt ∧
      s'.impl.impl.toolInputs = [] ++ (List.range m).map c.thoughtAction ∧
      r.hasStr = true ∧ r.str = c.answer false 2 m := by
  intro _ c
  have htextual : thinkerLibraries.Textual :=
    ⟨InlineLibraries.texts_textual.findParameters, InlineLibraries.texts_textual.strReplaceAll⟩
  have hsupports : thinkerConfig.SupportsAgents "\n" "key" := SharedConfig.supportsAgents rfl rfl rfl
  have hmodel : Realizes (thinkerConfig.completeHandlerSet thinkerLibraries) thinkerWorld
      (createModel "/test/model") (answering c.model AgentWorld.notePrompt) :=
    realizes_createModel_ofText (by decide) rfl
  have htool : Realizes (thinkerConfig.completeHandlerSet thinkerLibraries) thinkerWorld
      echo.computation.createComputation (answering c.tool AgentWorld.noteToolInput) :=
    realizes_createSerialChain rfl (List.cons_ne_nil _ []) (.cons (realizes_customFunction_ofText rfl) .nil)
  have hone : Univariate thinker.llmChain.promptTemplate := by decide +kernel
  exact agent_converses rfl rfl hone (by decide) htextual (fun _ => rfl) hsupports hmodel htool (by decide)
    {} "why"

end GenC
