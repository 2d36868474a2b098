import GenC.Lib.Uri

/-!
# The URL of a request of the Java client

The query parameters of a request are added to the query of the URL that its options give, which is read
decoded. What is added is encoded as in a form, and then the constructor of the URI quotes the percent signs
of that encoding, and of it alone what was already escaped in the base.
-/

namespace GenC.JavaHttpClientImpl

open Lib

structure QueryParam where
  param : List Char
  value : List Char

structure HttpRequest where
  queryParams : List QueryParam

structure HttpOptions where
  url : List Char

/-! ## The code -/

/-- One turn of the loop over the query parameters. -/
def addQueryParam (queryString : Option (List Char)) (queryParam : QueryParam) : Option (List Char) :=
  let key := formEncode queryParam.param
  let value := formEncode queryParam.value
  match queryString with
  | none => some (key ++ '=' :: value)
  | some queryString => some (queryString ++ '&' :: (key ++ '=' :: value))

variable (decoder : Utf8Decoder) (isServer : List Char → Bool)

/-- There is no result where a `URISyntaxException` is thrown. -/
def createHttpRequestUrl (httpRequest : HttpRequest) (httpOptions : HttpOptions) : Option (List Char) := do
  let uri ← Uri.parse isServer httpOptions.url
  let queryString := httpRequest.queryParams.foldl addQueryParam (uri.getQuery decoder)
  Uri.construct isServer
    ⟨uri.scheme, uri.getAuthority decoder, uri.getPath decoder, queryString, uri.getFragment decoder⟩

/-! ## What is to survive -/

/-- The parameters of a URI, as a form has them. -/
def parameters (uri : Uri) : List (List Char × List Char) := formDecode decoder (uri.query.getD [])

def QueryParam.pair (queryParam : QueryParam) : List Char × List Char := (queryParam.param, queryParam.value)

/-- The URL has the parameters of its base and then those of the request, and in all else it is its base. -/
def Survives (httpRequest : HttpRequest) (httpOptions : HttpOptions) (base : Uri) : Prop :=
  ∃ url built, createHttpRequestUrl decoder isServer httpRequest httpOptions = some url ∧
    Uri.parse isServer url = some built ∧ built.SameButQuery base ∧
    parameters decoder built = parameters decoder base ++ httpRequest.queryParams.map QueryParam.pair

/-- Nothing in the request is escaped by the encoding for forms, and nothing in the base by the constructor,
which escapes in its own way and does not know what a separator is. -/
structure Survivable (httpRequest : HttpRequest) (base : Uri) : Prop where
  kept : base.Kept isServer
  plain : ∀ pair ∈ parameters decoder base, IsPlain pair
  safe : ∀ queryParam ∈ httpRequest.queryParams, ∀ c ∈ queryParam.param ++ queryParam.value,
    formSafe c = true ∨ c = ' '

/-! ## The query -/

/-- What is read of a parameter, when its encoding is not undone. -/
def QueryParam.encodedPair (queryParam : QueryParam) : List Char × List Char :=
  (plusToSpace (formEncode queryParam.param), plusToSpace (formEncode queryParam.value))

theorem plainPairs_addQueryParam (queryString : Option (List Char)) (queryParam : QueryParam) :
    plainPairs ((addQueryParam queryString queryParam).getD []) =
      plainPairs (queryString.getD []) ++ [queryParam.encodedPair] := by
  have hpair := plainPairs_pair queryParam.param queryParam.value
  cases queryString with
  | none => exact hpair
  | some queryString =>
      have happend := formPairs_append plusToSpace queryString
        (formEncode queryParam.param ++ '=' :: formEncode queryParam.value)
      exact happend.trans (congrArg (plainPairs queryString ++ ·) hpair)

theorem plainPairs_foldl_addQueryParam (queryParams : List QueryParam) (queryString : Option (List Char)) :
    plainPairs ((queryParams.foldl addQueryParam queryString).getD []) =
      plainPairs (queryString.getD []) ++ queryParams.map QueryParam.encodedPair := by
  induction queryParams generalizing queryString with
  | nil => exact (List.append_nil _).symm
  | cons queryParam queryParams ih =>
      rw [List.foldl_cons, ih, plainPairs_addQueryParam, List.append_assoc]
      rfl

theorem encodedPair_eq_pair_iff {queryParam : QueryParam} :
    queryParam.encodedPair = queryParam.pair ↔
      ∀ c ∈ queryParam.param ++ queryParam.value, formSafe c = true ∨ c = ' ' := by
  rw [List.forall_mem_append, ← plusToSpace_formEncode_iff, ← plusToSpace_formEncode_iff]
  exact iff_of_eq (Prod.mk.injEq ..)

theorem formDecode_quote_getD (queryString : Option (List Char)) :
    formDecode decoder ((queryString.map (quote isUriChar)).getD []) = plainPairs (queryString.getD []) := by
  cases queryString with
  | none => rfl
  | some queryString =>
      exact formDecode_quote decoder (by decide) (by decide) (by decide) (by decide) queryString

/-- The condition on the query, and on what is added to it. -/
theorem parameters_built_iff (httpRequest : HttpRequest) (base : Uri) :
    formDecode decoder (((httpRequest.queryParams.foldl addQueryParam (base.getQuery decoder)).map
        (quote isUriChar)).getD []) =
        parameters decoder base ++ httpRequest.queryParams.map QueryParam.pair ↔
      (∀ pair ∈ parameters decoder base, IsPlain pair) ∧
        ∀ queryParam ∈ httpRequest.queryParams, ∀ c ∈ queryParam.param ++ queryParam.value,
          formSafe c = true ∨ c = ' ' := by
  have hgetD : (base.getQuery decoder).getD [] = unescape decoder (base.query.getD []) := by
    unfold Uri.getQuery
    cases base.query with
    | none => exact (unescape_nil decoder).symm
    | some query => rfl
  -- the query that is decoded is the list of the plain pairs, first those of the base, then those that were
  -- added
  rw [formDecode_quote_getD, plainPairs_foldl_addQueryParam, hgetD]
  constructor
  · intro h
    obtain ⟨hbase, hparams⟩ := List.append_inj' h (by rw [List.length_map, List.length_map])
    refine ⟨(plainPairs_unescape_iff decoder _).mp hbase, ?_⟩
    intro queryParam hmem
    exact encodedPair_eq_pair_iff.mp (List.map_inj_left.mp hparams queryParam hmem)
  · rintro ⟨hplain, hsafe⟩
    have hparams := List.map_congr_left
      fun queryParam hmem => encodedPair_eq_pair_iff.mpr (hsafe queryParam hmem)
    rw [(plainPairs_unescape_iff decoder _).mpr hplain, hparams]
    rfl

variable {decoder isServer} {httpRequest : HttpRequest} {httpOptions : HttpOptions} {base : Uri}

theorem createHttpRequestUrl_eq (hbase : Uri.parse isServer httpOptions.url = some base) :
    createHttpRequestUrl decoder isServer httpRequest httpOptions =
      Uri.construct isServer ⟨base.scheme, base.getAuthority decoder, base.getPath decoder,
        httpRequest.queryParams.foldl addQueryParam (base.getQuery decoder), base.getFragment decoder⟩ := by
  rw [createHttpRequestUrl, hbase]
  rfl

/-- Parameters that are added to an opaque URI get lost, and without any there is no URL. -/
theorem not_survives_of_path_eq_none (hbase : Uri.parse isServer httpOptions.url = some base)
    (hpath : base.path = none) :
    ¬Survives decoder isServer httpRequest httpOptions base := by
  rintro ⟨url, built, hurl, hbuilt, hsame, hparameters⟩
  rw [createHttpRequestUrl_eq hbase] at hurl
  have hquery := Uri.construct_of_path_eq_none hbase hpath hurl hbuilt
  obtain ⟨scheme, fragment, rfl, -⟩ := Uri.parse_of_path_eq_none hbase hpath
  obtain ⟨scheme', fragment', rfl, -⟩ := Uri.parse_of_path_eq_none hbuilt (hsame.path.trans hpath)
  have hnil : httpRequest.queryParams.map QueryParam.pair = [] := hparameters.symm
  rw [List.map_eq_nil_iff.mp hnil] at hquery
  exact hquery rfl

theorem survives_iff_of_path_eq_some {path : List Char} (hbase : Uri.parse isServer httpOptions.url = some base)
    (hpath : base.path = some path) :
    Survives decoder isServer httpRequest httpOptions base ↔ Survivable decoder isServer httpRequest base := by
  unfold Survives
  rw [createHttpRequestUrl_eq hbase]
  refine (Uri.construct_iff hbase hpath _ fun query => formDecode decoder (query.getD []) = _).trans ?_
  rw [parameters_built_iff]
  constructor
  · rintro ⟨hkept, hplain, hsafe⟩
    exact ⟨hkept, hplain, hsafe⟩
  · rintro ⟨hkept, hplain, hsafe⟩
    exact ⟨hkept, hplain, hsafe⟩

theorem survives_iff (hbase : Uri.parse isServer httpOptions.url = some base) :
    Survives decoder isServer httpRequest httpOptions base ↔ Survivable decoder isServer httpRequest base := by
  match hpath : base.path with
  | none =>
      refine iff_of_false (not_survives_of_path_eq_none hbase hpath) ?_
      intro h
      have hsome := h.kept.hierarchical
      rw [hpath] at hsome
      cases hsome
  | some path => exact survives_iff_of_path_eq_some hbase hpath

/-- Some of the authorities that are server-based. -/
def isHostname (authority : List Char) : Bool := authority ≠ [] && authority.all Char.isAlphanum

theorem survives_iff_space :
    Survives lossy isHostname ⟨[⟨"q".toList, "x y".toList⟩]⟩ ⟨"http://h/p?a=1#f".toList⟩
      ⟨some "http".toList, some "h".toList, some "/p".toList, some "a=1".toList, some "f".toList⟩ := by
  refine (survives_iff (by decide)).mpr ⟨⟨rfl, ?_, ?_, ?_, nofun⟩, ?_, ?_⟩
  · rintro authority ⟨⟩
    exact ⟨by decide, "h".toList, by decide⟩
  · rintro path ⟨⟩
    exact ⟨"/p".toList, by decide⟩
  · rintro fragment ⟨⟩
    exact ⟨"f".toList, by decide⟩
  · have hparameters : parameters lossy
        ⟨some "http".toList, some "h".toList, some "/p".toList, some "a=1".toList, some "f".toList⟩ =
        [("a".toList, "1".toList)] := by decide
    rw [hparameters, List.forall_mem_singleton]
    exact ⟨by decide, by decide, by decide, by decide, by decide⟩
  · rw [List.forall_mem_singleton, ← encodedPair_eq_pair_iff]
    decide

/-- The percent sign is escaped twice. -/
theorem not_survives :
    createHttpRequestUrl lossy isHostname ⟨[⟨"q".toList, "50%".toList⟩]⟩ ⟨"http://h/p".toList⟩ =
        some "http://h/p?q=50%2525".toList ∧
      ¬∀ base, Uri.parse isHostname "http://h/p".toList = some base →
        Survives lossy isHostname ⟨[⟨"q".toList, "50%".toList⟩]⟩ ⟨"http://h/p".toList⟩ base := by
  refine ⟨by decide, ?_⟩
  intro h
  have hbase : Uri.parse isHostname "http://h/p".toList =
      some ⟨some "http".toList, some "h".toList, some "/p".toList, none, none⟩ := by decide
  have hsurvivable := (survives_iff_of_path_eq_some hbase rfl).mp (h _ hbase)
  exact absurd (hsurvivable.safe _ List.mem_cons_self '%' (by decide)) (by decide)

end GenC.JavaHttpClientImpl
