import GenC.Runtime.IntrinsicHandler

/-!
# The inline intrinsics

The INLINE handlers of the complete handler set (`intrinsics/*.cc`), each a function from data to data,
and the configuration that the set is made from. What a handler takes from other libraries (regular
expressions, string replacement, templates, HTTP) enters as `InlineLibraries`.

`LogicalNot` is in `Runtime/IntrinsicHandler.lean`.
-/

namespace GenC

/-- What the inline handlers use of libraries outside of the repository. -/
structure InlineLibraries where
  /-- `Struct::DebugString()`. -/
  structDebugString : List Value → String
  /-- `RE2::PartialMatch(text, pattern)`. -/
  partialMatch : String → String → Bool
  /-- The successive matches of `\{[a-zA-Z0-9_]*\}` that `RE2::FindAndConsume` finds. -/
  findParameters : String → List String
  /-- `absl::StrReplaceAll`. -/
  strReplaceAll : String → List (String × String) → String
  /-- `nlohmann::json::parse`, and `inja` rendering a template with what was parsed. -/
  parseJson : String → Option (String → StatusOr String)
  /-- What `CurlClient::Get(endpoint)` receives. -/
  curlGet : String → StatusOr String
  /-- What `CurlClient::Post(api_key, endpoint, json_request)` receives. -/
  curlPost : String → String → String → StatusOr String
  /-- `absl::Status::ToString()`. -/
  statusString : Status → String
  /-- The HTTP client that `ConfidentialComputation` was passed or made. -/
  httpClient : StatusOr Unit
  /-- A computation and its argument, run on the server at an address whose container image may be
  required to have a digest. -/
  runConfidentially : String → Option String → Value → Value → StatusOr Value

/-- Libraries that find and receive nothing. -/
def InlineLibraries.offline : InlineLibraries where
  structDebugString _ := ""
  partialMatch _ _ := false
  findParameters _ := []
  strReplaceAll text _ := text
  parseJson _ := none
  curlGet _ := .error (.internal "Unable to init CURL")
  curlPost _ _ _ := .error (.internal "Unable to init CURL")
  statusString e := e.message
  httpClient := .ok ()
  runConfidentially _ _ _ _ := .error (.unavailable "")

/-- `HandlerSetConfig`. -/
structure HandlerSetConfig where
  delegateMap : RunnerMap
  modelInferenceMap : String → Option (Value → StatusOr Value)
  modelInferenceWithConfigMap : String → Option (Intrinsic → Value → StatusOr Value)
  customFunctionMap : String → Option (Value → StatusOr Value)
  customIntrinsicsList : List IntrinsicHandler

/-- The check of the handlers whose static parameter is a string. -/
def checkStr (message : Intrinsic → String) (intr : Intrinsic) : Checked Unit :=
  if intr.parameter.hasStr then .ok () else .error (.invalidArgument (message intr))

/-- The check of the handlers whose static parameter is a struct that begins with a string. It reads
`element(0)` without asking for the length. -/
def checkFirstStr (structMessage strMessage : String) (intr : Intrinsic) : Checked Unit :=
  if !intr.parameter.hasStruct then .error (.invalidArgument structMessage)
  else
    .withElement intr.parameter.elements 0 fun first =>
      if !first.hasStr then .error (.invalidArgument strMessage) else .ok ()

variable (config : HandlerSetConfig) (libraries : InlineLibraries)

/-! ## Models -/

/-- The output of the model that is built in for tests. -/
def testModelOutput (arg : Value) : Value :=
  .ofStr ("This is an output from a test model in response to \"" ++ arg.str ++ "\".")

def unsupportedModel (modelUri : String) : Status :=
  .unimplemented ("Unsupported model: " ++ modelUri)

def modelInference : InlineHandler where
  checkWellFormed := checkStr fun _ => "Expect model_uri as str, got none."
  executeCall intr arg :=
    let modelUri := intr.parameter.str
    if modelUri = "test_model" then .ok (testModelOutput arg)
    else
      match config.modelInferenceMap modelUri with
      | some inferenceFn => some (inferenceFn arg)
      | none => .error (unsupportedModel modelUri)

def modelInferenceWithConfig : InlineHandler where
  checkWellFormed := checkFirstStr "Expected struct_ to be set, got none."
    "Expected model_uri to be set, got none."
  executeCall intr arg :=
    .withElement intr.parameter.elements 0 fun modelUriPb =>
      let modelUri := modelUriPb.str
      if modelUri = "test_model" then .ok (testModelOutput arg)
      else
        match config.modelInferenceWithConfigMap modelUri with
        | some inferenceFn => some (inferenceFn intr arg)
        | none => .error (unsupportedModel modelUri)

/-- A function that is not in the map is no error: the result stays as it was. -/
def customFunction : InlineHandler where
  checkWellFormed := checkStr fun _ => "Expect fn_uri as str, got none."
  executeCall intr arg :=
    match config.customFunctionMap intr.parameter.str with
    | some fn => some (fn arg)
    | none => .ok Value.defaultInstance

/-! ## Templates and text -/

/-- The placeholder of a parameter. -/
def placeholder (parameter : String) : String := "\x7b" ++ parameter ++ "\x7d"

def promptTemplate : InlineHandler where
  checkWellFormed := checkStr fun _ => "Expect prompt_template as str, got none."
  executeCall intr arg :=
    let templateString := intr.parameter.str
    let parameters := libraries.findParameters templateString
    if parameters.eraseDups.length = 1 then
      if !arg.hasStr then
        .error (.invalidArgument "Expect input to PromptTemplate to have str value, got none.")
      else
        .ok (.ofStr (libraries.strReplaceAll templateString
          [(parameters.getLastD "", arg.str)]))
    else
      .ok (.ofStr (libraries.strReplaceAll templateString
        (arg.elements.map fun arg => (placeholder arg.label, arg.str))))

/-- The loop of `PromptTemplateWithParameters` over its parameters, with the argument at the same
index. -/
def parameterReplacements [ProtoText] (elements : List Value) : Nat → List Value →
    Checked (List (String × String))
  | _, [] => .ok []
  | index, param :: params =>
      .withElement elements index fun argElement =>
        if !argElement.hasStr then
          .error (.invalidArgument
            ("Expected strings in the argument, got " ++ debugString argElement))
        else if !param.hasStr then .error (.internal "Non-string parameter name.")
        else
          match parameterReplacements elements (index + 1) params with
          | some (.ok rest) => .ok ((placeholder param.str, argElement.str) :: rest)
          | r => r

def promptTemplateWithParameters [ProtoText] : InlineHandler where
  checkWellFormed intr :=
    if !intr.parameter.hasStruct then
      .error (.invalidArgument "Expect prompt_template as struct.")
    else if intr.parameter.elements.length ≠ 2 then
      .error (.invalidArgument "Expect prompt_template as struct with two elements.")
    else
      .withElement intr.parameter.elements 0 fun templatePb =>
        if !templatePb.hasStr then
          .error (.invalidArgument
            "Expect prompt_template as struct with str as the first element.")
        else
          .withElement intr.parameter.elements 1 fun params =>
            if !params.hasStruct then
              .error (.invalidArgument
                "Expect prompt_template as struct with struct as the second element.")
            else if params.elements.length < 2 then
              .error (.invalidArgument ("Expect prompt_template as struct with a 2-or-more-element "
                ++ "struct as the second element."))
            else if !params.elements.all Value.hasStr then
              .error (.invalidArgument "Expected strings in the parameter list.")
            else .ok ()
  executeCall intr arg :=
    .withElement intr.parameter.elements 0 fun templatePb =>
      if templatePb.str = "" then .error (.invalidArgument "The template string is empty.")
      else if !arg.hasStruct then
        .error (.invalidArgument ("The argument is not a struct: " ++ debugString arg))
      else
        .withElement intr.parameter.elements 1 fun params =>
          if params.elements.length ≠ arg.elements.length then
            .error (.invalidArgument ("Mismatching the number of elements in the argument: " ++
              toString arg.elements.length ++ " as compated to " ++
              toString params.elements.length ++ " in the template: " ++
              libraries.structDebugString intr.parameter.elements))
          else
            match parameterReplacements arg.elements 0 params.elements with
            | some (.ok replacements) =>
                .ok (.ofStr (libraries.strReplaceAll templatePb.str replacements))
            | some (.error e) => .error e
            | none => none

def injaTemplate [ProtoText] : InlineHandler where
  checkWellFormed := checkStr fun _ => "Expect template as str, got none."
  executeCall intr arg :=
    match libraries.parseJson arg.str with
    | none => .error (.internal ("Failed parsing json input to InjaTemplate: " ++ debugString arg))
    | some render =>
        match render intr.parameter.str with
        | .ok result => .ok (.ofStr result)
        | .error e => .error e

def regexPartialMatch [ProtoText] : InlineHandler where
  checkWellFormed :=
    checkStr fun intr => "Static parameter is not a string:" ++ debugString intr.parameter
  executeCall intr arg :=
    if !arg.hasStr then .error (.invalidArgument ("Argument is not a string: " ++ debugString arg))
    else .ok (.ofBool (libraries.partialMatch arg.str intr.parameter.str))

/-- What it prints is not part of its result. -/
def logger : InlineHandler where
  checkWellFormed _ := .ok ()
  executeCall _ arg := .ok arg

/-! ## Network -/

/-- The check asks for two elements; a POST reads a third. -/
def restCall : InlineHandler where
  checkWellFormed intr :=
    if intr.parameter.elements.length < 2 then
      .error (.invalidArgument ("Expect RestCall contians URL (required) and API key (optional), "
        ++ "method (default to POST when not set), missing parameters."))
    else .ok ()
  executeCall intr arg :=
    .withElement intr.parameter.elements 0 fun method =>
    .withElement intr.parameter.elements 1 fun url =>
      if method.str = "GET" then some ((libraries.curlGet url.str).map Value.ofStr)
      else if method.str = "POST" then
        .withElement intr.parameter.elements 2 fun apiKey =>
          some ((libraries.curlPost apiKey.str url.str arg.str).map Value.ofStr)
      else .error (.invalidArgument ("Unsupported RestCall method: " ++ method.str))

/-- One element of the configuration of `ConfidentialComputation`. -/
def checkConfigElement (element : Value) : StatusOr Unit :=
  if !element.hasStr then
    .error (.invalidArgument "Expected a string as an element of the static parameter.")
  else if element.str = "" then
    .error (.invalidArgument "Expected a non-empty string as an element of the static parameter.")
  else if element.label = "" then
    .error (.invalidArgument "Expected all elements in the static parameter to have labels.")
  else if element.label ≠ "server_address" ∧ element.label ≠ "image_digest" then
    .error (.invalidArgument
      ("Unrecognized label in the static parameter: \"" ++ element.label ++ "\"."))
  else .ok ()

/-- The last element with the label, or nothing. -/
def configString (label : String) (config : List Value) : String :=
  config.foldl (fun found element => if element.label = label then element.str else found) ""

def confidentialComputation : InlineHandler where
  checkWellFormed intr :=
    if !intr.parameter.hasStruct then
      .error (.invalidArgument "Expected a struct as a static parameter.")
    else if intr.parameter.elements.length ≠ 2 then
      .error (.invalidArgument "Expected 2 elements in the static parameter struct.")
    else
      .withElement intr.parameter.elements 1 fun config =>
        if !config.hasStruct then
          .error (.invalidArgument
            "Expected a struct as the second element in the static parameter.")
        else some (config.elements.forM checkConfigElement)
  executeCall intr arg :=
    match libraries.httpClient with
    | .error e =>
      .error (.internal ("Failed to initialize HTTP client: " ++ libraries.statusString e))
    | .ok () =>
      .withElement intr.parameter.elements 0 fun comp =>
      .withElement intr.parameter.elements 1 fun config =>
        let serverAddress := configString "server_address" config.elements
        let imageDigest := configString "image_digest" config.elements
        if serverAddress = "" then
          .error (.invalidArgument "Expected a non-empty server address.")
        else
          some (libraries.runConfidentially serverAddress
            (if imageDigest = "" then none else some imageDigest) comp arg)

/-! ## The complete handler set -/

/-- The inline handlers of `CreateCompleteHandlerSet`, under the URIs of `intrinsic_uris.h`. -/
def builtinInlineHandlers [ProtoText] : List (String × InlineHandler) :=
  [("confidential_computation", confidentialComputation libraries),
    ("logger", logger),
    ("inja_template", injaTemplate libraries),
    ("custom_function", customFunction config),
    ("model_inference", modelInference config),
    ("model_inference_with_config", modelInferenceWithConfig config),
    ("logical_not", logicalNot),
    ("prompt_template", promptTemplate libraries),
    ("prompt_template_with_parameters", promptTemplateWithParameters libraries),
    ("regex_partial_match", regexPartialMatch libraries),
    ("rest_call", restCall libraries)]

/-- The handlers of `CreateCompleteHandlerSet` that the repository implements. -/
def builtinHandlers [ProtoText] : IntrinsicHandlerSet :=
  createCompleteHandlerSet config.delegateMap (builtinInlineHandlers config libraries)

/-- `CreateCompleteHandlerSet`: the custom intrinsics of the configuration are added last. -/
def completeHandlerSet [ProtoText] : IntrinsicHandlerSet :=
  config.customIntrinsicsList.foldl (fun set handler => set.addHandler handler)
    (builtinHandlers config libraries)

end GenC
