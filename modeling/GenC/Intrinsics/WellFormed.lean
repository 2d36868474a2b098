import GenC.Intrinsics.Conduct
import GenC.Intrinsics.Inline

/-!
# What `CheckWellFormed` is good for

A handler may rely on its `CheckWellFormed` to have seen the elements that its `ExecuteCall` reads.
**`guardsCall_iff`** says exactly when that works out in the handlers of the complete set: always, but for
`Delegate` and `ModelInferenceWithConfig`, whose checks themselves read an element that need not be
there, and for `Delegate` and `RestCall`, which read one more element than their checks ask for.
-/

namespace GenC

open Lib

/-! ## Guarded handlers -/

theorem Checked.withElement_of_lt {α : Type} {es : List Value} {i : Nat} (h : i < es.length)
    (k : Value → Checked α) : Checked.withElement es i k = k es[i] := by
  rw [withElement, List.getElem?_eq_getElem h]

/-- An operation that never reads a missing element. -/
def NeverMissing {σ α : Type} (x : Exec σ α) : Prop := ∀ s, (x s).2 ≠ .crash .missingElement

/-- A context that never reads a missing element. -/
structure Context.NeverMissing {σ V : Type} (ctx : Context σ V) : Prop where
  createValue : ∀ v, GenC.NeverMissing (ctx.createValue v)
  createCall : ∀ f a, GenC.NeverMissing (ctx.createCall f a)
  createStruct : ∀ vs, GenC.NeverMissing (ctx.createStruct vs)
  createSelection : ∀ v i, GenC.NeverMissing (ctx.createSelection v i)
  materialize : ∀ v pb, GenC.NeverMissing (ctx.materialize v pb)

variable [ProtoText]

/-- The check reads only elements that are there, and once it has passed so does every call, whatever
the argument. -/
def InlineHandler.GuardsCall (handler : InlineHandler) (intr : Intrinsic) : Prop :=
  handler.checkWellFormed intr ≠ none ∧
    (handler.checkWellFormed intr = some (.ok ()) → ∀ arg, handler.executeCall intr arg ≠ none)

/-- The same for a handler that drives an executor, which may do whatever it likes short of reading a
missing element itself. -/
def ControlFlowHandler.GuardsCall (handler : ControlFlowHandler) (intr : Intrinsic) : Prop :=
  handler.checkWellFormed intr ≠ none ∧
    (handler.checkWellFormed intr = some (.ok ()) → ∀ {σ V : Type} (ctx : Context σ V),
      ctx.NeverMissing → ∀ fuel arg, NeverMissing (handler.executeCall ctx fuel intr arg))

def IntrinsicHandler.GuardsCall (handler : IntrinsicHandler) (intr : Intrinsic) : Prop :=
  match handler.interface with
  | .inline h => h.GuardsCall intr
  | .controlFlow h => h.GuardsCall intr

/-! ## Handlers that drive an executor -/

omit [ProtoText] in
/-- A context that never reads a missing element conducts itself, if nothing else is asked of it: where
all states are alike and all values are good. -/
theorem Context.NeverMissing.yields {σ V : Type} {ctx : Context σ V} (h : ctx.NeverMissing) (s₀ : σ) :
    let _ := Run.anyOrder σ
    ctx.Yields (· ≠ .missingElement) (fun _ _ => True) s₀ := by
  intro _
  have hyields : ∀ {α : Type} {x : Exec σ α}, GenC.NeverMissing x → ∀ s,
      Run.Yields (· ≠ Crash.missingElement) s x fun _ _ => True := by
    intro α x hx s t _
    have ht := hx t
    rcases hxt : x t with ⟨l, a | e | k | _⟩ <;> rw [hxt] at ht
    · exact ⟨trivial, trivial⟩
    · trivial
    · exact fun hk => ht (congrArg _ hk)
    · trivial
  exact
    { keeps := fun _ _ => trivial
      createValue := fun v => hyields (h.createValue v) _
      createCall := fun _ _ _ => hyields (h.createCall _ _) _
      createStruct := fun _ _ => hyields (h.createStruct _) _
      materialize := fun pb _ _ => hyields (h.materialize _ pb) _ }

namespace ControlFlowHandler

/-- What is left to show of a handler: that its check finds the elements to be there. -/
theorem guardsCall_of_hasElements {handler : ControlFlowHandler} {intr : Intrinsic}
    (hcheck : handler.checkWellFormed intr ≠ none)
    (h : handler.checkWellFormed intr = some (.ok ()) → handler.HasElements intr) :
    handler.GuardsCall intr := by
  refine ⟨hcheck, fun hwf σ V ctx hctx fuel arg s => ?_⟩
  let _ := Run.anyOrder σ
  have hyields := executeCall_yields (hctx.yields s) fuel handler (fun _ (_ : _ ∈ arg) => trivial)
    (by decide) (.inr (h hwf))
  have hs := hyields s trivial
  intro hcrash
  rw [hcrash] at hs
  exact hs rfl

omit [ProtoText] in
theorem checkStruct_ne_none (lengthOk : Nat → Bool) (message : String) (intr : Intrinsic) :
    checkStruct lengthOk message intr ≠ none := by
  unfold checkStruct
  split <;> exact Option.some_ne_none _

/-- A context whose operations do nothing. -/
def idleContext : Context Unit Unit where
  createValue _ := pure ()
  createCall _ _ := pure ()
  createStruct _ := pure ()
  createSelection _ _ := pure ()
  materialize _ pb := pure ⟨.ok (), pb⟩

omit [ProtoText] in
theorem idleContext_neverMissing : idleContext.NeverMissing where
  createValue _ _ h := by cases h
  createCall _ _ _ h := by cases h
  createStruct _ _ h := by cases h
  createSelection _ _ _ h := by cases h
  materialize _ _ _ h := by cases h

omit [ProtoText] in
/-- `Delegate` checks what it is given as `ModelInferenceWithConfig` does. -/
theorem delegateWellFormed_eq (intr : Intrinsic) : delegateWellFormed intr =
    checkFirstStr "Expect a struct." "Expected an environment name string." intr := rfl

end ControlFlowHandler

section

variable {structMessage strMessage : String} {intr : Intrinsic}

omit [ProtoText] in
theorem checkFirstStr_ne_none_iff : checkFirstStr structMessage strMessage intr ≠ none ↔
    (intr.parameter.hasStruct = true → intr.parameter.elements ≠ []) := by
  unfold checkFirstStr
  cases hstruct : intr.parameter.hasStruct with
  | false => simp [Checked.error]
  | true =>
      rcases hes : intr.parameter.elements with _ | ⟨first, es⟩
      · simp [Checked.withElement]
      · cases hfirst : first.hasStr <;> simp [Checked.withElement, Checked.error, Checked.ok, hfirst]

omit [ProtoText] in
theorem checkFirstStr_eq_ok_iff : checkFirstStr structMessage strMessage intr = some (.ok ()) ↔
    intr.parameter.hasStruct = true ∧
      ∃ first es, intr.parameter.elements = first :: es ∧ first.hasStr = true := by
  unfold checkFirstStr
  cases hstruct : intr.parameter.hasStruct with
  | false => simp [Checked.error]
  | true =>
      rcases hes : intr.parameter.elements with _ | ⟨first, es⟩
      · simp [Checked.withElement]
      · cases hfirst : first.hasStr <;> simp [Checked.withElement, Checked.error, Checked.ok, hfirst]

end

namespace ControlFlowHandler

/-- A struct is not empty; and where its first element names an environment that has a runner, there is
a second one. -/
def DelegateSuffices (runnerMap : RunnerMap) (intr : Intrinsic) : Prop :=
  intr.parameter.hasStruct = true → intr.parameter.elements ≠ [] ∧
    ∀ name, intr.parameter.elements = [name] → name.hasStr = true → runnerMap name.str = none

/-- Neither half of `Delegate` looks at the length. -/
theorem delegate_guardsCall_iff (runnerMap : RunnerMap) (intr : Intrinsic) :
    (delegate runnerMap).GuardsCall intr ↔ DelegateSuffices runnerMap intr := by
  have hcheck : (delegate runnerMap).checkWellFormed intr = checkFirstStr _ _ intr :=
    delegateWellFormed_eq intr
  constructor
  · rintro ⟨hne, hcall⟩ hstruct
    rw [hcheck] at hne hcall
    refine ⟨checkFirstStr_ne_none_iff.mp hne hstruct, fun name hes hname => ?_⟩
    cases hrunner : runnerMap name.str with
    | none => rfl
    | some runnerFn =>
        -- one element passes the check, and a call of a registered environment reads a second one
        have hok : checkFirstStr "Expect a struct." "Expected an environment name string." intr =
            some (.ok ()) := checkFirstStr_eq_ok_iff.mpr ⟨hstruct, name, [], hes, hname⟩
        refine absurd ?_ (hcall hok idleContext idleContext_neverMissing 0 none ())
        simp [executeCall, delegateExecuteCall, elementAt, hes, hrunner, Run.bind_apply]
  · intro h
    refine guardsCall_of_hasElements ?_ fun hwf => ?_
    · rw [hcheck]
      exact checkFirstStr_ne_none_iff.mpr fun hstruct => (h hstruct).1
    · rw [hcheck] at hwf
      obtain ⟨hstruct, name, es, hes, hname⟩ := checkFirstStr_eq_ok_iff.mp hwf
      refine ⟨by simp [hes], fun hsome => ?_⟩
      rw [environmentName, hes] at hsome
      cases es with
      | nil => simp [(h hstruct).2 name hes hname] at hsome
      | cons func es => simp [hes]

/-- The other handlers ask for what they read. -/
theorem guardsCall {handler : ControlFlowHandler} (h : ∀ runnerMap, handler ≠ .delegate runnerMap)
    (intr : Intrinsic) : handler.GuardsCall intr := by
  -- most checks ask for a number of elements, which is what the calls read
  have hstruct : ∀ (lengthOk : Nat → Bool) (message : String),
      handler.checkWellFormed intr = checkStruct lengthOk message intr →
      (lengthOk intr.parameter.elements.length = true → handler.HasElements intr) →
      handler.GuardsCall intr := by
    intro lengthOk message heq hlen
    refine guardsCall_of_hasElements ?_ fun hwf => hlen (checkStruct_ok (heq.symm.trans hwf))
    rw [heq]
    exact checkStruct_ne_none _ _ _
  cases handler with
  | breakableChain => exact hstruct (1 ≤ ·) _ rfl fun _ => trivial
  | serialChain => exact hstruct (1 ≤ ·) _ rfl fun _ => trivial
  | conditional => exact hstruct (· = 2) _ rfl fun hlen => (of_decide_eq_true hlen).ge
  | delegate runnerMap => exact absurd rfl (h runnerMap)
  | fallback => exact guardsCall_of_hasElements (Option.some_ne_none _) fun _ => trivial
  | parallelMap =>
      refine guardsCall_of_hasElements ?_ fun _ => trivial
      show parallelMapWellFormed intr ≠ none
      unfold parallelMapWellFormed
      split <;> exact Option.some_ne_none _
  | «repeat» => exact hstruct (· = 2) _ rfl fun hlen => (of_decide_eq_true hlen).ge
  | «while» =>
      refine guardsCall_of_hasElements ?_ fun hwf => ?_
      · show whileWellFormed intr ≠ none
        unfold whileWellFormed
        split <;> exact Option.some_ne_none _
      · have hwf : whileWellFormed intr = some (.ok ()) := hwf
        unfold whileWellFormed at hwf
        split at hwf
        · cases hwf
        · next hlen => exact (not_not.mp hlen).ge
  | repeatedConditionalChain =>
      exact hstruct (2 ≤ ·) _ rfl fun hlen => Nat.le_of_succ_le (of_decide_eq_true hlen)

end ControlFlowHandler

/-! ## Inline handlers -/

namespace InlineHandler

omit [ProtoText] in
/-- A handler whose parts never read a missing element, whatever they are given. -/
theorem guardsCall_of_total {handler : InlineHandler} {intr : Intrinsic}
    (hcheck : handler.checkWellFormed intr ≠ none) (h : ∀ arg, handler.executeCall intr arg ≠ none) :
    handler.GuardsCall intr :=
  ⟨hcheck, fun _ => h⟩

omit [ProtoText] in
theorem guardsCall_of_str {handler : InlineHandler} {message : Intrinsic → String} {intr : Intrinsic}
    (hcheck : handler.checkWellFormed = checkStr message)
    (h : ∀ arg, handler.executeCall intr arg ≠ none) : handler.GuardsCall intr := by
  refine guardsCall_of_total ?_ h
  rw [hcheck, checkStr]
  split <;> exact Option.some_ne_none _

omit [ProtoText] in
theorem logger_guardsCall (intr : Intrinsic) : logger.GuardsCall intr :=
  guardsCall_of_total (Option.some_ne_none _) fun _ => Option.some_ne_none _

omit [ProtoText] in
theorem logicalNot_guardsCall (intr : Intrinsic) : logicalNot.GuardsCall intr := by
  refine guardsCall_of_total (Option.some_ne_none _) fun arg => ?_
  simp only [logicalNot]
  split <;> exact Option.some_ne_none _

omit [ProtoText] in
theorem customFunction_guardsCall (config : HandlerSetConfig) (intr : Intrinsic) :
    (customFunction config).GuardsCall intr := by
  refine guardsCall_of_str rfl fun arg => ?_
  simp only [customFunction]
  split <;> exact Option.some_ne_none _

omit [ProtoText] in
theorem modelInference_guardsCall (config : HandlerSetConfig) (intr : Intrinsic) :
    (modelInference config).GuardsCall intr := by
  refine guardsCall_of_str rfl fun arg => ?_
  simp only [modelInference]
  split
  · exact Option.some_ne_none _
  · split <;> exact Option.some_ne_none _

omit [ProtoText] in
theorem promptTemplate_guardsCall (libraries : InlineLibraries) (intr : Intrinsic) :
    (promptTemplate libraries).GuardsCall intr := by
  refine guardsCall_of_str rfl fun arg => ?_
  simp only [promptTemplate]
  split_ifs <;> exact Option.some_ne_none _

theorem injaTemplate_guardsCall (libraries : InlineLibraries) (intr : Intrinsic) :
    (injaTemplate libraries).GuardsCall intr := by
  refine guardsCall_of_str rfl fun arg => ?_
  simp only [injaTemplate]
  split
  · exact Option.some_ne_none _
  · split <;> exact Option.some_ne_none _

theorem regexPartialMatch_guardsCall (libraries : InlineLibraries) (intr : Intrinsic) :
    (regexPartialMatch libraries).GuardsCall intr := by
  refine guardsCall_of_str rfl fun arg => ?_
  simp only [regexPartialMatch]
  split_ifs <;> exact Option.some_ne_none _

/-- The argument is as long as the list of parameters. -/
theorem parameterReplacements_ne_none {elements : List Value} : ∀ (params : List Value) (index : Nat),
    index + params.length ≤ elements.length → parameterReplacements elements index params ≠ none
  | [], _, _ => Option.some_ne_none _
  | param :: params, index, h => by
      rw [List.length_cons] at h
      have hle : index + 1 + params.length ≤ elements.length := by omega
      have ih := parameterReplacements_ne_none params (index + 1) hle
      rw [parameterReplacements, Checked.withElement_of_lt (by omega)]
      split
      · exact Option.some_ne_none _
      · split
        · exact Option.some_ne_none _
        · split
          · exact Option.some_ne_none _
          · exact ih

theorem promptTemplateWithParameters_guardsCall (libraries : InlineLibraries) (intr : Intrinsic) :
    (promptTemplateWithParameters libraries).GuardsCall intr := by
  by_cases hlen : intr.parameter.elements.length = 2
  · refine guardsCall_of_total ?_ fun arg => ?_
    · simp only [promptTemplateWithParameters]
      rw [Checked.withElement_of_lt (by omega), Checked.withElement_of_lt (by omega)]
      split_ifs <;> exact Option.some_ne_none _
    · simp only [promptTemplateWithParameters]
      rw [Checked.withElement_of_lt (by omega), Checked.withElement_of_lt (by omega)]
      split_ifs with htemplate hstruct hargs
      · exact Option.some_ne_none _
      · exact Option.some_ne_none _
      · exact Option.some_ne_none _
      · have hne := parameterReplacements_ne_none intr.parameter.elements[1].elements 0
          (show 0 + _ ≤ arg.elements.length by omega)
        split
        · exact Option.some_ne_none _
        · exact Option.some_ne_none _
        · next hnone => exact absurd hnone hne
  · have hcheck : ∃ e, (promptTemplateWithParameters libraries).checkWellFormed intr =
        some (.error e) := by
      simp only [promptTemplateWithParameters, Checked.error]
      split_ifs <;> exact ⟨_, rfl⟩
    obtain ⟨e, he⟩ := hcheck
    refine ⟨by rw [he]; exact Option.some_ne_none _, fun hwf => ?_⟩
    cases he.symm.trans hwf

omit [ProtoText] in
theorem confidentialComputation_guardsCall (libraries : InlineLibraries) (intr : Intrinsic) :
    (confidentialComputation libraries).GuardsCall intr := by
  by_cases hlen : intr.parameter.elements.length = 2
  · refine guardsCall_of_total ?_ fun arg => ?_
    · simp only [confidentialComputation]
      rw [Checked.withElement_of_lt (by omega)]
      split_ifs <;> exact Option.some_ne_none _
    · simp only [confidentialComputation]
      rw [Checked.withElement_of_lt (by omega), Checked.withElement_of_lt (by omega)]
      split
      · exact Option.some_ne_none _
      · split_ifs <;> exact Option.some_ne_none _
  · have hcheck : ∃ e, (confidentialComputation libraries).checkWellFormed intr =
        some (.error e) := by
      simp only [confidentialComputation, Checked.error]
      split_ifs <;> exact ⟨_, rfl⟩
    obtain ⟨e, he⟩ := hcheck
    refine ⟨by rw [he]; exact Option.some_ne_none _, fun hwf => ?_⟩
    cases he.symm.trans hwf

omit [ProtoText] in
theorem modelInferenceWithConfig_guardsCall_iff (config : HandlerSetConfig) (intr : Intrinsic) :
    (modelInferenceWithConfig config).GuardsCall intr ↔
      (intr.parameter.hasStruct = true → intr.parameter.elements ≠ []) := by
  constructor
  · intro h
    exact checkFirstStr_ne_none_iff.mp h.1
  · intro h
    refine ⟨checkFirstStr_ne_none_iff.mpr h, fun hwf arg => ?_⟩
    obtain ⟨-, first, es, hes, -⟩ := checkFirstStr_eq_ok_iff.mp hwf
    show Checked.withElement _ 0 _ ≠ none
    rw [Checked.withElement_of_lt (by simp [hes])]
    dsimp only
    split
    · exact Option.some_ne_none _
    · split <;> exact Option.some_ne_none _

omit [ProtoText] in
/-- A POST reads the key, which comes third. -/
theorem restCall_eq_none (libraries : InlineLibraries) {intr : Intrinsic} {method url : Value}
    (hes : intr.parameter.elements = [method, url]) (hpost : method.str = "POST") (arg : Value) :
    (restCall libraries).executeCall intr arg = none := by
  show Checked.withElement intr.parameter.elements 0 _ = none
  rw [hes]
  show (if method.str = "GET" then _ else if method.str = "POST" then _ else _) = none
  rw [if_neg (by rw [hpost]; decide), if_pos hpost]
  rfl

omit [ProtoText] in
theorem restCall_guardsCall_iff (libraries : InlineLibraries) (intr : Intrinsic) :
    (restCall libraries).GuardsCall intr ↔
      ∀ method url, intr.parameter.elements = [method, url] → method.str ≠ "POST" := by
  have hcheck : (restCall libraries).checkWellFormed intr = some (.ok ()) ↔
      2 ≤ intr.parameter.elements.length := by
    simp only [restCall, Checked.error, Checked.ok]
    split_ifs with hlen
    · simp [hlen]
    · simp only [true_iff]
      omega
  constructor
  · rintro ⟨-, hcall⟩ method url hes hpost
    exact hcall (hcheck.mpr (by simp [hes])) default (restCall_eq_none libraries hes hpost default)
  · intro h
    refine ⟨?_, fun hwf arg => ?_⟩
    · simp only [restCall]
      split_ifs <;> exact Option.some_ne_none _
    · have hlen := hcheck.mp hwf
      simp only [restCall]
      rw [Checked.withElement_of_lt (by omega), Checked.withElement_of_lt (by omega)]
      split_ifs with hget hpost
      · exact Option.some_ne_none _
      -- a POST reads a third element, which is there unless there are just two
      · have hthree : 2 < intr.parameter.elements.length := by
          refine lt_of_le_of_ne hlen fun htwo => ?_
          obtain ⟨method, url, hes⟩ := List.length_eq_two.mp htwo.symm
          exact h method url hes (by simpa only [hes, List.getElem_cons_zero] using hpost)
        rw [Checked.withElement_of_lt hthree]
        exact Option.some_ne_none _
      · exact Option.some_ne_none _

end InlineHandler

/-! ## The complete handler set -/

/-- What the static parameter of three of the handlers must be like, beyond what their checks ask for. -/
structure ElementsSuffice (config : HandlerSetConfig) (uri : String) (intr : Intrinsic) : Prop where
  delegate : uri = "delegate" → ControlFlowHandler.DelegateSuffices config.delegateMap intr
  modelInferenceWithConfig : uri = "model_inference_with_config" →
    intr.parameter.hasStruct = true → intr.parameter.elements ≠ []
  restCall : uri = "rest_call" →
    ∀ method url, intr.parameter.elements = [method, url] → method.str ≠ "POST"

namespace ElementsSuffice

variable (config : HandlerSetConfig) {intr : Intrinsic}

omit [ProtoText] in
theorem of_ne {uri : String} (hdelegate : uri ≠ "delegate")
    (hmodel : uri ≠ "model_inference_with_config") (hrest : uri ≠ "rest_call") :
    ElementsSuffice config uri intr :=
  ⟨fun h => absurd h hdelegate, fun h => absurd h hmodel, fun h => absurd h hrest⟩

omit [ProtoText] in
theorem delegate_iff : ElementsSuffice config "delegate" intr ↔
    ControlFlowHandler.DelegateSuffices config.delegateMap intr :=
  ⟨fun h => h.delegate rfl,
    fun h => ⟨fun _ => h, fun h => absurd h (by decide), fun h => absurd h (by decide)⟩⟩

omit [ProtoText] in
theorem modelInferenceWithConfig_iff : ElementsSuffice config "model_inference_with_config" intr ↔
    (intr.parameter.hasStruct = true → intr.parameter.elements ≠ []) :=
  ⟨fun h => h.modelInferenceWithConfig rfl,
    fun h => ⟨fun h => absurd h (by decide), fun _ => h, fun h => absurd h (by decide)⟩⟩

omit [ProtoText] in
theorem restCall_iff : ElementsSuffice config "rest_call" intr ↔
    ∀ method url, intr.parameter.elements = [method, url] → method.str ≠ "POST" :=
  ⟨fun h => h.restCall rfl,
    fun h => ⟨fun h => absurd h (by decide), fun h => absurd h (by decide), fun _ => h⟩⟩

end ElementsSuffice

theorem ControlFlowHandler.guardsCall_iff_suffice (config : HandlerSetConfig) (intr : Intrinsic) :
    ∀ handler ∈ ([.breakableChain, .serialChain, .conditional, .delegate config.delegateMap, .fallback,
        .parallelMap, .repeat, .while, .repeatedConditionalChain] : List ControlFlowHandler),
      handler.GuardsCall intr ↔ ElementsSuffice config handler.uri intr := by
  have hother : ∀ {handler : ControlFlowHandler}, handler.uri ≠ "delegate" →
      handler.uri ≠ "model_inference_with_config" → handler.uri ≠ "rest_call" →
      (handler.GuardsCall intr ↔ ElementsSuffice config handler.uri intr) :=
    fun hdelegate hmodel hrest => iff_of_true
      (guardsCall (fun runnerMap h => hdelegate (congrArg uri h)) intr)
      (.of_ne config hdelegate hmodel hrest)
  have hdelegate : (delegate config.delegateMap).GuardsCall intr ↔
      ElementsSuffice config "delegate" intr :=
    (delegate_guardsCall_iff config.delegateMap intr).trans (ElementsSuffice.delegate_iff config).symm
  simp only [List.forall_mem_cons, List.not_mem_nil, false_implies, implies_true, and_true]
  refine ⟨hother ?_ ?_ ?_, hother ?_ ?_ ?_, hother ?_ ?_ ?_, hdelegate, hother ?_ ?_ ?_,
    hother ?_ ?_ ?_, hother ?_ ?_ ?_, hother ?_ ?_ ?_, hother ?_ ?_ ?_⟩ <;> decide

theorem InlineHandler.guardsCall_iff_suffice (config : HandlerSetConfig) (libraries : InlineLibraries)
    (intr : Intrinsic) : ∀ p ∈ builtinInlineHandlers config libraries,
      p.2.GuardsCall intr ↔ ElementsSuffice config p.1 intr := by
  have hother : ∀ {uri : String} {h : InlineHandler}, uri ≠ "delegate" →
      uri ≠ "model_inference_with_config" → uri ≠ "rest_call" → h.GuardsCall intr →
      (h.GuardsCall intr ↔ ElementsSuffice config uri intr) :=
    fun hdelegate hmodel hrest hguards => iff_of_true hguards (.of_ne config hdelegate hmodel hrest)
  have hmodel := (modelInferenceWithConfig_guardsCall_iff config intr).trans
    (ElementsSuffice.modelInferenceWithConfig_iff config).symm
  have hrest := (restCall_guardsCall_iff libraries intr).trans (ElementsSuffice.restCall_iff config).symm
  simp only [builtinInlineHandlers, List.forall_mem_cons, List.not_mem_nil, false_implies,
    implies_true, and_true]
  refine ⟨hother ?_ ?_ ?_ (confidentialComputation_guardsCall libraries intr),
    hother ?_ ?_ ?_ (logger_guardsCall intr), hother ?_ ?_ ?_ (injaTemplate_guardsCall libraries intr),
    hother ?_ ?_ ?_ (customFunction_guardsCall config intr),
    hother ?_ ?_ ?_ (modelInference_guardsCall config intr), hmodel,
    hother ?_ ?_ ?_ (logicalNot_guardsCall intr), hother ?_ ?_ ?_ (promptTemplate_guardsCall libraries intr),
    hother ?_ ?_ ?_ (promptTemplateWithParameters_guardsCall libraries intr),
    hother ?_ ?_ ?_ (regexPartialMatch_guardsCall libraries intr), hrest⟩ <;> decide

/-- **When `CheckWellFormed` guards `ExecuteCall`**: exactly when the static parameter has the elements
that three of the handlers read without asking. -/
theorem guardsCall_iff (config : HandlerSetConfig) (libraries : InlineLibraries) :
    ∀ handler ∈ builtinHandlers config libraries, ∀ intr,
      handler.GuardsCall intr ↔ ElementsSuffice config handler.uri intr := by
  intro handler hmem intr
  rcases List.mem_append.mp hmem with hinline | hcontrol
  · obtain ⟨p, hp, rfl⟩ := List.mem_map.mp hinline
    exact InlineHandler.guardsCall_iff_suffice config libraries intr p hp
  · obtain ⟨h, hh, rfl⟩ := List.mem_map.mp hcontrol
    exact ControlFlowHandler.guardsCall_iff_suffice config intr h hh

/-! ### Too few elements -/

/-- A set without runners, models or custom functions. -/
def HandlerSetConfig.empty : HandlerSetConfig :=
    ⟨fun _ => none, fun _ => none, fun _ => none, fun _ => none, []⟩

/-- A request to post, without the key. -/
def postWithoutKey : Intrinsic := ⟨"rest_call", some (.ofStruct [.ofStr "POST", .ofStr "localhost"])⟩

omit [ProtoText] in
theorem guardsCall_iff_postWithoutKey :
    let _ := ProtoText.silent
    ¬(IntrinsicHandler.mk "rest_call" (.inline (restCall .offline))).GuardsCall postWithoutKey := by
  intro _ h
  have hmem : IntrinsicHandler.mk "rest_call" (.inline (restCall .offline)) ∈
      builtinHandlers .empty .offline := by
    simp [builtinHandlers, createCompleteHandlerSet, builtinInlineHandlers]
  have hsuffice := (guardsCall_iff .empty .offline _ hmem postWithoutKey).mp h
  exact hsuffice.restCall rfl _ _ rfl rfl

/-- A delegation to nowhere. -/
def emptyDelegation : Intrinsic := ⟨"delegate", some (.ofStruct [])⟩

omit [ProtoText] in
/-- Its check reads the first of no elements. -/
theorem delegate_emptyDelegation :
    let _ := ProtoText.silent
    ¬∀ config libraries, ∀ handler ∈ builtinHandlers config libraries, ∀ intr,
      handler.GuardsCall intr := by
  intro _ h
  have hmem : IntrinsicHandler.mk "delegate" (.controlFlow (.delegate fun _ => none)) ∈
      builtinHandlers .empty .offline := by
    simp [builtinHandlers, createCompleteHandlerSet, ControlFlowHandler.uri, HandlerSetConfig.empty]
  exact (h _ _ _ hmem emptyDelegation).1 rfl

end GenC
