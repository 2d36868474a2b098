import GenC.Proto.Value

/-!
# Constructors

`authoring/constructor.cc`.
-/

namespace GenC

def createReference (argName : String) : Value := .reference {} argName

def createStruct (valueList : List Value) : Value := .struct {} valueList

def createSelection (source : Value) (index : Int32) : Value := .selection {} source index

def createCall (fn arg : Value) : Value := .call {} fn (some arg)

def createLambda (argName : String) (body : Value) : Value := .lambda {} argName body

/-- `set_label`. -/
def Value.setLabel (label : String) : Value → Value
  | .notSet m => .notSet { m with label }
  | .scalar m s => .scalar { m with label } s
  | .call m function argument => .call { m with label } function argument
  | .lambda m parameterName result => .lambda { m with label } parameterName result
  | .reference m name => .reference { m with label } name
  | .struct m element => .struct { m with label } element
  | .selection m source index => .selection { m with label } source index
  | .block m locals result => .block { m with label } locals result
  | .intrinsic m uri staticParameter => .intrinsic { m with label } uri staticParameter

def createLabeledValue (label : String) (value : Value) : Value := value.setLabel label

/-- `CreateModelInference`. -/
def createModel (modelUri : String) : Value := .intrinsic {} "model_inference" (some (.ofStr modelUri))

/-- `CreateModelInferenceWithConfig`. Of a configuration that is neither a struct nor a string, nothing is
left. -/
def createModelWithConfig (modelUri : String) (modelConfig : Value) : Value :=
  let modelConfigPb : Value :=
    match modelConfig with
    | .struct _ es => .struct {} es
    | .scalar _ (.str s) => .ofStr s
    | _ => .notSet {}
  .intrinsic {} "model_inference_with_config" (some (.struct {}
    [createLabeledValue "model_uri" (.ofStr modelUri), createLabeledValue "model_config" modelConfigPb]))

def createCustomFunction (fnUri : String) : Value := .intrinsic {} "custom_function" (some (.ofStr fnUri))

def createPromptTemplate (templateStr : String) : Value :=
  .intrinsic {} "prompt_template" (some (.ofStr templateStr))

def createRegexPartialMatch (patternStr : String) : Value :=
  .intrinsic {} "regex_partial_match" (some (.ofStr patternStr))

def createLogger : Value := .intrinsic {} "logger" none

def createFallback (functionList : List Value) : Value :=
  .intrinsic {} "fallback" (some (.struct {} (functionList.map (createLabeledValue "candidate_fn"))))

def createConditional (condition positiveBranch negativeBranch : Value) : Value :=
  createCall (.intrinsic {} "conditional" (some (.struct {}
    [createLabeledValue "then" positiveBranch, createLabeledValue "else" negativeBranch]))) condition

/-- The functions of a chain, labelled `fn_0`, `fn_1` and so on. -/
def labelledFns (fns : List Value) : List Value :=
  fns.zipIdx.map fun (fn, i) => createLabeledValue ("fn_" ++ toString i) fn

theorem labelledFns_eq_nil_iff {fns : List Value} : labelledFns fns = [] ↔ fns = [] := by
  rw [labelledFns, List.map_eq_nil_iff, List.zipIdx_eq_nil_iff]

theorem length_labelledFns (fns : List Value) : (labelledFns fns).length = fns.length := by
  rw [labelledFns, List.length_map, List.length_zipIdx]

def createSerialChain (functionList : List Value) : Value :=
  .intrinsic {} "serial_chain" (some (.struct {} (labelledFns functionList)))

def createRepeatedConditionalChain (numSteps : Int32) (bodyFns : List Value) : Value :=
  .intrinsic {} "repeated_conditional_chain" (some (.struct {}
    (createLabeledValue "num_steps" (.ofInt32 numSteps) :: labelledFns bodyFns)))

def createBreakableChain (fnsList : List Value) : Value :=
  .intrinsic {} "breakable_chain" (some (.struct {} (labelledFns fnsList)))

def createRepeat (numSteps : Int32) (bodyFn : Value) : Value :=
  .intrinsic {} "repeat" (some (.struct {}
    [createLabeledValue "num_steps" (.ofInt32 numSteps), createLabeledValue "body_fn" bodyFn]))

def createWhile (conditionFn bodyFn : Value) : Value :=
  .intrinsic {} "while" (some (.struct {}
    [createLabeledValue "condition_fn" conditionFn, createLabeledValue "body_fn" bodyFn]))

def createParallelMap (mapFn : Value) : Value := .intrinsic {} "parallel_map" (some mapFn)

/-- The branches are applied to the parameter of the lambda. -/
def createLambdaForConditional (condition positiveBranch negativeBranch : Value) : Value :=
  createLambda "arg" (createConditional
    (createCall condition (createReference "arg"))
    (createCall positiveBranch (createReference "arg"))
    (createCall negativeBranch (createReference "arg")))

end GenC
