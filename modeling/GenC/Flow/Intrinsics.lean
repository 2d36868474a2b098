import GenC.Flow.Meaning
import GenC.Intrinsics.Inline

/-!
# The intrinsics of the complete handler set

Flows over `CreateCompleteHandlerSet`: the control-flow intrinsics are there unless the configuration replaces
them, and so are the inline ones, which make data of data if the functions of the configuration do.
-/

namespace GenC

open Lib

variable {config : HandlerSetConfig} {libraries : InlineLibraries}

/-! ## Data from data -/

/-- The functions of the configuration make data of data. -/
structure HandlerSetConfig.KeepsData (config : HandlerSetConfig) : Prop where
  modelInference : ∀ {uri fn arg result}, config.modelInferenceMap uri = some fn → arg.Materialized →
    fn arg = .ok result → result.Materialized
  modelInferenceWithConfig : ∀ {uri fn intr arg result}, config.modelInferenceWithConfigMap uri = some fn →
    arg.Materialized → fn intr arg = .ok result → result.Materialized
  customFunction : ∀ {uri fn arg result}, config.customFunctionMap uri = some fn → arg.Materialized →
    fn arg = .ok result → result.Materialized

/-- Whatever the computation gives, `P` holds of it. -/
def Checked.Gives {α : Type} (P : α → Prop) (c : Checked α) : Prop := ∀ a, c = some (.ok a) → P a

namespace Checked.Gives

variable {α : Type} {P : α → Prop}

theorem ok {a : α} (h : P a) : Gives P (.ok a) := fun _ h' => by cases h'; exact h

theorem error (e : Status) : Gives P (.error e) := fun _ h => by cases h

theorem absent : Gives P none := fun _ h => by cases h

theorem withElement {es : List Value} {i : Nat} {k : Value → Checked α} (h : ∀ v, Gives P (k v)) :
    Gives P (.withElement es i k) := by
  unfold Checked.withElement
  split
  · exact h _
  · exact absent

theorem mapStr (r : StatusOr String) : Gives Value.Materialized (some (r.map Value.ofStr)) := by
  cases r with
  | ok text => exact ok .scalar
  | error e => exact error e

end Checked.Gives

/-! ### Handler by handler -/

section

variable {intr : Intrinsic}

/-- What a handler gives, is what it makes of materialized data. -/
theorem InlineHandler.KeepsData.of_gives {handler : InlineHandler} (h : ∀ arg : Value, arg.Materialized →
    Checked.Gives Value.Materialized (handler.executeCall intr arg)) : handler.KeepsData intr :=
  fun harg hr => h _ harg _ hr

open InlineHandler.KeepsData Checked.Gives

theorem logger_keepsData : logger.KeepsData intr := of_gives fun _ harg => ok harg

theorem logicalNot_keepsData : logicalNot.KeepsData intr := by
  refine of_gives fun arg _ => ?_
  unfold logicalNot
  simp only
  split
  · exact error _
  · exact ok .scalar

theorem injaTemplate_keepsData [ProtoText] : (injaTemplate libraries).KeepsData intr := by
  refine of_gives fun arg _ => ?_
  unfold injaTemplate
  simp only
  split
  · exact error _
  · split
    · exact ok .scalar
    · exact error _

theorem regexPartialMatch_keepsData [ProtoText] : (regexPartialMatch libraries).KeepsData intr := by
  refine of_gives fun arg _ => ?_
  unfold regexPartialMatch
  simp only
  split
  · exact error _
  · exact ok .scalar

theorem promptTemplate_keepsData : (promptTemplate libraries).KeepsData intr := by
  refine of_gives fun arg _ => ?_
  unfold promptTemplate
  simp only
  split
  · split
    · exact error _
    · exact ok .scalar
  · exact ok .scalar

theorem promptTemplateWithParameters_keepsData [ProtoText] :
    (promptTemplateWithParameters libraries).KeepsData intr := by
  refine of_gives fun arg _ => withElement fun templatePb => ?_
  split
  · exact error _
  split
  · exact error _
  refine withElement fun params => ?_
  split
  · exact error _
  split
  · exact ok .scalar
  · exact error _
  · exact absent

theorem restCall_keepsData : (restCall libraries).KeepsData intr := by
  refine of_gives fun arg _ => withElement fun method => withElement fun url => ?_
  split
  · exact mapStr _
  split
  · exact withElement fun apiKey => mapStr _
  · exact error _

theorem confidentialComputation_keepsData (hremote : ∀ {address digest comp arg result}, arg.Materialized →
    libraries.runConfidentially address digest comp arg = .ok result → result.Materialized) :
    (confidentialComputation libraries).KeepsData intr := by
  refine of_gives fun arg harg => ?_
  unfold confidentialComputation
  simp only
  split
  · exact error _
  refine withElement fun comp => withElement fun options => ?_
  split
  · exact error _
  · exact fun result hr => hremote harg (Option.some.inj hr)

variable (hconfig : config.KeepsData)

include hconfig

/-! ### What the configuration registers -/

theorem modelInference_keepsData : (modelInference config).KeepsData intr := by
  refine of_gives fun arg harg => ?_
  unfold modelInference
  simp only
  split
  · exact ok .scalar
  split
  · next hmap => exact fun result hr => hconfig.modelInference hmap harg (Option.some.inj hr)
  · exact error _

theorem modelInferenceWithConfig_keepsData : (modelInferenceWithConfig config).KeepsData intr := by
  refine of_gives fun arg harg => withElement fun modelUriPb => ?_
  simp only
  split
  · exact ok .scalar
  split
  · next hmap => exact fun result hr => hconfig.modelInferenceWithConfig hmap harg (Option.some.inj hr)
  · exact error _

/-- A custom function that is not configured gives nothing that is set. -/
theorem customFunction_keepsData {fn : Value → StatusOr Value}
    (hfn : config.customFunctionMap intr.parameter.str = some fn) : (customFunction config).KeepsData intr := by
  refine of_gives fun arg harg => ?_
  unfold customFunction
  simp only [hfn]
  exact fun result hr => hconfig.customFunction hfn harg (Option.some.inj hr)

end

/-! ## The handler set -/

variable [ProtoText]

/-- Custom intrinsics are in front of the others. -/
theorem getHandler_completeHandlerSet {uri : String}
    (h : ∀ handler ∈ config.customIntrinsicsList, handler.uri ≠ uri) :
    (completeHandlerSet config libraries).getHandler uri = (builtinHandlers config libraries).getHandler uri := by
  unfold completeHandlerSet
  generalize builtinHandlers config libraries = set
  generalize config.customIntrinsicsList = custom at h
  induction custom generalizing set with
  | nil => rfl
  | cons handler custom ih =>
      rw [List.foldl_cons, ih _ fun h' hh' => h h' (List.mem_cons_of_mem _ hh')]
      have hne : (handler.uri == uri) = false := beq_false_of_ne (h handler List.mem_cons_self)
      rw [IntrinsicHandlerSet.getHandler, IntrinsicHandlerSet.addHandler, List.find?_cons, hne]
      rfl

/-- The URIs of the built-in inline handlers. -/
def inlineUris : List String :=
  ["confidential_computation", "logger", "inja_template", "custom_function", "model_inference",
    "model_inference_with_config", "logical_not", "prompt_template", "prompt_template_with_parameters",
    "regex_partial_match", "rest_call"]

/-- Custom intrinsics replace no built-in ones. -/
structure HandlerSetConfig.Extends (config : HandlerSetConfig) : Prop where
  controlFlow : ∀ handler ∈ config.customIntrinsicsList, ∀ builtin : ControlFlowHandler, handler.uri ≠ builtin.uri
  inline : ∀ handler ∈ config.customIntrinsicsList, handler.uri ∉ inlineUris

theorem completeHandlerSet_standard (h : config.Extends) : (completeHandlerSet config libraries).Standard where
  controlFlow handler hne := by
    rw [getHandler_completeHandlerSet fun custom hcustom => h.controlFlow custom hcustom handler]
    cases handler with
    | delegate runnerMap => exact (hne runnerMap rfl).elim
    | _ => rfl

/-! ## Inline intrinsics -/

/-- The intrinsics that flows over the complete handler set may use: those of the built-in inline handlers, with
custom functions that are configured. -/
theorem completeHandlerSet_inline (hextends : config.Extends) (hconfig : config.KeepsData)
    (intr : Intrinsic) (hbuiltin : intr.uri ∈ inlineUris)
    (hcustom : intr.uri = "custom_function" → ∃ fn, config.customFunctionMap intr.parameter.str = some fn)
    (hremote : intr.uri = "confidential_computation" → ∀ {address digest comp arg result}, arg.Materialized →
      libraries.runConfidentially address digest comp arg = .ok result → result.Materialized) :
    (completeHandlerSet config libraries).Inline intr := by
  -- no custom intrinsic stands before the built-in ones of its name
  have hfront : ∀ handler ∈ config.customIntrinsicsList, handler.uri ≠ intr.uri :=
    fun handler hmem heq => hextends.inline handler hmem (heq ▸ hbuiltin)
  intro handler hget
  rw [getHandler_completeHandlerSet hfront] at hget
  obtain ⟨uri, staticParameter⟩ := intr
  simp only [inlineUris, List.mem_cons, List.not_mem_nil, or_false] at hbuiltin
  obtain rfl | rfl | rfl | rfl | rfl | rfl | rfl | rfl | rfl | rfl | rfl := hbuiltin <;> cases hget
  · exact ⟨_, rfl, confidentialComputation_keepsData (hremote rfl)⟩
  · exact ⟨_, rfl, logger_keepsData⟩
  · exact ⟨_, rfl, injaTemplate_keepsData⟩
  · obtain ⟨fn, hfn⟩ := hcustom rfl
    exact ⟨_, rfl, customFunction_keepsData hconfig hfn⟩
  · exact ⟨_, rfl, modelInference_keepsData hconfig⟩
  · exact ⟨_, rfl, modelInferenceWithConfig_keepsData hconfig⟩
  · exact ⟨_, rfl, logicalNot_keepsData⟩
  · exact ⟨_, rfl, promptTemplate_keepsData⟩
  · exact ⟨_, rfl, promptTemplateWithParameters_keepsData⟩
  · exact ⟨_, rfl, regexPartialMatch_keepsData⟩
  · exact ⟨_, rfl, restCall_keepsData⟩

end GenC
