import GenC.Lib.PercentEncoding

/-!
# URIs

The parts of a URI, in the grammar of RFC 2396 and with the deviations that `java.net.URI` documents: characters
that are not ASCII are allowed, and an authority may be empty when something follows it. A URI that is put
together has every illegal character of its parts quoted, and every percent sign. That is the documented
rule; the class itself leaves an IPv6 literal in its brackets as it is. The two differ on a literal with a
scope id (`[fe80::1%eth0]`), whose percent sign is quoted here.

`Uri.parse` is the forward map. Its reverse is not unique, since an empty authority leaves no trace in the
parts; `Uri.Separated` names the parts that come out of a text as they were put in.

* `Uri.parse_text` — separated parts are parsed again.
* `Uri.exists_of_parse` — what is parsed was separated, up to an empty authority.
-/

namespace GenC.Lib

/-! ## Characters -/

def isUnreserved (c : Char) : Bool := c.isAlphanum || c ∈ ['_', '-', '!', '.', '~', '\x27', '(', ')', '*']

def isPunct (c : Char) : Bool := c ∈ [',', ';', ':', '$', '&', '+', '=']

/-- Not ASCII. Such a character is a space when it separates words, lines or paragraphs. -/
def isSpaceChar (c : Char) : Bool :=
  c.toNat ∈ [0xA0, 0x1680, 0x2028, 0x2029, 0x202F, 0x205F, 0x3000] || (0x2000 ≤ c.toNat && c.toNat ≤ 0x200A)

/-- Not ASCII, not a control character and not a space. -/
def isOther (c : Char) : Bool := 0x9F < c.toNat && !isSpaceChar c

def isAuthorityChar (c : Char) : Bool := isUnreserved c || isPunct c || c ∈ ['@', '[', ']'] || isOther c

def isPathChar (c : Char) : Bool := isUnreserved c || isPunct c || c ∈ ['/', '@'] || isOther c

/-- Of a query, of a fragment, and of what comes after the scheme of an opaque URI. -/
def isUriChar (c : Char) : Bool := isUnreserved c || isPunct c || c ∈ ['?', '/', '[', ']', '@'] || isOther c

def isScheme : List Char → Bool
  | [] => false
  | c :: rest => c.isAlpha && rest.all fun c => c.isAlphanum || c ∈ ['+', '-', '.']

/-! ## Parts -/

/-- The parts as they stand in the text. Of an opaque URI there is no path. -/
structure Uri where
  scheme : Option (List Char)
  authority : Option (List Char)
  path : Option (List Char)
  query : Option (List Char)
  fragment : Option (List Char)
deriving DecidableEq, Repr

namespace Uri

def place (authority : Option (List Char)) (path : List Char) : List Char :=
  match authority with
  | none => path
  | some authority => '/' :: '/' :: authority ++ path

def schemed (scheme : Option (List Char)) (rest : List Char) : List Char :=
  match scheme with
  | none => rest
  | some scheme => scheme ++ ':' :: rest

def text (uri : Uri) : List Char :=
  schemed uri.scheme (place uri.authority (uri.path.getD []) ++ led '?' uri.query) ++ led '#' uri.fragment

/-- The scheme is what comes before a colon, when nothing in it ends the place. -/
def cutScheme (front : List Char) : Option (List Char) × List Char :=
  match cut ':' front with
  | (scheme, some rest) => if '/' ∈ scheme ∨ '?' ∈ scheme then (none, front) else (some scheme, rest)
  | (_, none) => (none, front)

def cutAuthority : List Char → Option (List Char) × List Char
  | '/' :: '/' :: rest => (some (cut '/' rest).1, led '/' (cut '/' rest).2)
  | path => (none, path)

/-- `isServer` tells whether an authority is server-based. One that is not is based on a registry, and an
empty one is there only with something after it. -/
def isAccepted (isServer : List Char → Bool) (uri : Uri) : Bool :=
  uri.scheme.all isScheme &&
    uri.authority.all (fun authority => authority.isEmpty || isServer authority ||
      isLegal (fun c => isUnreserved c || isPunct c || c == '@' || isOther c) authority) &&
    uri.path.all (isLegal isPathChar) && uri.query.all (isLegal isUriChar) &&
    uri.fragment.all (isLegal isUriChar) &&
    (uri.authority != some [] || uri.path != some [] || uri.query.isSome || uri.fragment.isSome)

/-- An empty authority is none. -/
def normal (uri : Uri) : Uri := { uri with authority := uri.authority.filter (· ≠ []) }

def parse (isServer : List Char → Bool) (text : List Char) : Option Uri :=
  let (front, fragment) := cut '#' text
  let (scheme, rest) := cutScheme front
  if scheme.isSome ∧ rest.head? ≠ some '/' then
    -- nothing but the scheme and the fragment of an opaque URI is taken apart
    let uri : Uri := ⟨scheme, none, none, none, fragment⟩
    if rest ≠ [] ∧ isLegal isUriChar rest ∧ uri.isAccepted isServer then some uri else none
  else
    let (place, query) := cut '?' rest
    let (authority, path) := cutAuthority place
    let uri : Uri := ⟨scheme, authority, some path, query, fragment⟩
    if uri.isAccepted isServer then some uri.normal else none

/-! ## Parts that come out as they were put in -/

/-- No colon of the path comes before a slash. -/
def Schemeless (path : List Char) : Prop := ∀ before after, path = before ++ ':' :: after → '/' ∈ before

/-- No part has in it what would end it. -/
structure Delimited (uri : Uri) (path : List Char) : Prop where
  path_eq : uri.path = some path
  scheme_free : ∀ scheme ∈ uri.scheme, ':' ∉ scheme ∧ '/' ∉ scheme ∧ '?' ∉ scheme ∧ '#' ∉ scheme
  authority_free : ∀ authority ∈ uri.authority, '/' ∉ authority ∧ '?' ∉ authority ∧ '#' ∉ authority
  path_free : '?' ∉ path ∧ '#' ∉ path
  query_free : ∀ query ∈ uri.query, '#' ∉ query

/-- What precedes the path does not change how it is read. -/
structure Separated (uri : Uri) (path : List Char) : Prop extends uri.Delimited path where
  rooted : uri.authority ≠ none → ∃ after, path = led '/' after
  bare : uri.authority = none → ¬['/', '/'] <+: path
  absolute : uri.authority = none → uri.scheme ≠ none → path.head? = some '/'
  relative : uri.authority = none → uri.scheme = none → Schemeless path

theorem cutAuthority_place {authority : Option (List Char)} {path : List Char}
    (hfree : ∀ authority' ∈ authority, '/' ∉ authority')
    (hrooted : authority ≠ none → ∃ after, path = led '/' after)
    (hbare : authority = none → ¬['/', '/'] <+: path) :
    cutAuthority (place authority path) = (authority, path) := by
  cases authority with
  | none =>
      change cutAuthority path = (none, path)
      unfold cutAuthority
      split
      · next rest => exact absurd ⟨rest, rfl⟩ (hbare rfl)
      · rfl
  | some authority =>
      obtain ⟨after, rfl⟩ := hrooted nofun
      change (some (cut '/' (authority ++ led '/' after)).1,
        led '/' (cut '/' (authority ++ led '/' after)).2) = _
      rw [cut_append (hfree authority rfl)]

theorem place_of_cutAuthority {text path : List Char} {authority : Option (List Char)}
    (h : cutAuthority text = (authority, path)) :
    place authority path = text ∧ (∀ authority' ∈ authority, '/' ∉ authority') ∧
      (authority ≠ none → ∃ after, path = led '/' after) ∧ (authority = none → ¬['/', '/'] <+: path) := by
  unfold cutAuthority at h
  split at h
  · next rest =>
      cases h
      refine ⟨congrArg ('/' :: '/' :: ·) (cut_led '/' rest), ?_, fun _ => ⟨_, rfl⟩, nofun⟩
      rintro authority ⟨⟩
      exact not_mem_cut '/' rest
  · next hne =>
      cases h
      refine ⟨rfl, nofun, fun h => absurd rfl h, ?_⟩
      rintro - ⟨rest, rfl⟩
      exact hne rest rfl

theorem cutScheme_schemed {scheme : List Char} (h : ':' ∉ scheme ∧ '/' ∉ scheme ∧ '?' ∉ scheme)
    (rest : List Char) :
    cutScheme (schemed (some scheme) rest) = (some scheme, rest) := by
  have hcut : cut ':' (schemed (some scheme) rest) = (scheme, some rest) := cut_append h.1 (some rest)
  rw [cutScheme, hcut]
  exact if_neg (not_or.mpr h.2)

theorem cutScheme_eq_none {front : List Char}
    (h : ∀ before after, front = before ++ ':' :: after → '/' ∈ before ∨ '?' ∈ before) :
    cutScheme front = (none, front) := by
  unfold cutScheme
  split
  · next scheme rest hcut => exact if_pos (h scheme rest (cut_eq_iff.mp hcut).2.symm)
  · rfl

theorem schemed_of_cutScheme {front rest : List Char} {scheme : Option (List Char)}
    (h : cutScheme front = (scheme, rest)) :
    schemed scheme rest = front ∧ (∀ scheme' ∈ scheme, ':' ∉ scheme' ∧ '/' ∉ scheme' ∧ '?' ∉ scheme') ∧
      (scheme = none → ∀ before after, front = before ++ ':' :: after → '/' ∈ before ∨ '?' ∈ before) := by
  unfold cutScheme at h
  split at h
  · next name after hcut =>
      obtain ⟨hnot, hfront⟩ := cut_eq_iff.mp hcut
      split at h
      · next hmem =>
          cases h
          refine ⟨rfl, nofun, ?_⟩
          rintro - before after' rfl
          -- the first colon comes after a slash or a question mark, and any other colon comes later
          have hprefix := cut_prefix ':' before after'
          rw [hcut] at hprefix
          exact hmem.imp (fun h => hprefix.subset h) (fun h => hprefix.subset h)
      · next hmem =>
          cases h
          refine ⟨hfront, ?_, nofun⟩
          rintro name ⟨⟩
          exact ⟨hnot, not_or.mp hmem⟩
  · next name hcut =>
      cases h
      refine ⟨rfl, nofun, ?_⟩
      rintro - before after rfl
      obtain ⟨hnot, hfront⟩ := cut_eq_iff.mp hcut
      rw [led, List.append_nil] at hfront
      exact absurd (hfront ▸ List.mem_append_right _ List.mem_cons_self) hnot

variable {isServer : List Char → Bool} {uri : Uri} {path : List Char}

/-- The first character of what a separator leads is the separator. -/
theorem mem_of_led {d c : Char} {part : Option (List Char)} {before after : List Char} (hne : c ≠ d)
    (h : led d part = before ++ c :: after) : d ∈ before := by
  cases part with
  | none => exact absurd h.symm (List.append_ne_nil_of_right_ne_nil _ (List.cons_ne_nil _ _))
  | some part =>
      cases before with
      | nil => exact absurd (List.cons.inj h).1.symm hne
      | cons d' before =>
          rw [(List.cons.inj h).1]
          exact List.mem_cons_self

theorem Separated.cutScheme (h : uri.Separated path) :
    Uri.cutScheme (schemed uri.scheme (place uri.authority path ++ led '?' uri.query)) =
      (uri.scheme, place uri.authority path ++ led '?' uri.query) := by
  match hscheme : uri.scheme with
  | some scheme =>
      obtain ⟨hcolon, hslash, hquery, -⟩ := h.scheme_free scheme hscheme
      exact cutScheme_schemed ⟨hcolon, hslash, hquery⟩ _
  | none =>
      refine cutScheme_eq_none ?_
      intro before after heq
      match hauthority : uri.authority with
      | some authority =>
          rw [hauthority] at heq
          cases before with
          | nil => cases heq
          | cons c before =>
              rw [← (List.cons.inj heq).1]
              exact .inl List.mem_cons_self
      | none =>
          rw [hauthority, place] at heq
          rcases List.append_eq_append_iff.mp heq with ⟨before', rfl, hled⟩ | ⟨after', rfl, hled⟩
          · exact .inr (List.mem_append_right _ (mem_of_led (by decide) hled))
          · cases after' with
            | nil => exact absurd (mem_of_led (by decide) (List.nil_append _ ▸ hled.symm)) List.not_mem_nil
            | cons c after' =>
                cases (List.cons.inj hled).1
                exact .inl (h.relative hauthority hscheme before after' rfl)

theorem not_mem_place {c : Char} {authority : Option (List Char)} (hne : c ≠ '/')
    (hauthority : ∀ authority' ∈ authority, c ∉ authority') (hpath : c ∉ path) : c ∉ place authority path := by
  cases authority with
  | none => exact hpath
  | some authority =>
      have h := hauthority authority rfl
      simp only [place, List.cons_append, List.mem_cons, List.mem_append]
      tauto

theorem not_mem_led {c d : Char} {part : Option (List Char)} (hne : c ≠ d) (h : ∀ part' ∈ part, c ∉ part') :
    c ∉ led d part := by
  cases part with
  | none => exact List.not_mem_nil
  | some part => exact List.not_mem_cons_of_ne_of_not_mem hne (h part rfl)

theorem Delimited.not_mem_place (h : uri.Delimited path) :
    '?' ∉ place uri.authority path ∧ '#' ∉ place uri.authority path :=
  ⟨Uri.not_mem_place (by decide) (fun authority hmem => (h.authority_free authority hmem).2.1) h.path_free.1,
    Uri.not_mem_place (by decide) (fun authority hmem => (h.authority_free authority hmem).2.2) h.path_free.2⟩

theorem Delimited.not_mem_front (h : uri.Delimited path) :
    '#' ∉ schemed uri.scheme (place uri.authority path ++ led '?' uri.query) := by
  have hrest : '#' ∉ place uri.authority path ++ led '?' uri.query := by
    rw [List.mem_append, not_or]
    exact ⟨h.not_mem_place.2, not_mem_led (by decide) h.query_free⟩
  match hscheme : uri.scheme with
  | none => exact hrest
  | some scheme =>
      rw [schemed, List.mem_append, not_or]
      exact ⟨(h.scheme_free scheme hscheme).2.2.2, List.not_mem_cons_of_ne_of_not_mem (by decide) hrest⟩

theorem Separated.head_rest (h : uri.Separated path) :
    ¬(uri.scheme.isSome ∧ (place uri.authority path ++ led '?' uri.query).head? ≠ some '/') := by
  rintro ⟨hscheme, hhead⟩
  refine hhead ?_
  match hauthority : uri.authority with
  | some authority => rfl
  | none =>
      rw [place, List.head?_append, h.absolute hauthority (Option.isSome_iff_ne_none.mp hscheme)]
      rfl

theorem Delimited.cut_text (h : uri.Delimited path) :
    cut '#' uri.text = (schemed uri.scheme (place uri.authority path ++ led '?' uri.query), uri.fragment) := by
  have hgetD : uri.path.getD [] = path := by
    rw [h.path_eq]
    rfl
  rw [text, hgetD, cut_append h.not_mem_front]

theorem parse_text (h : uri.Separated path) (haccepted : uri.isAccepted isServer = true) :
    parse isServer uri.text = some uri.normal := by
  have huri : uri = ⟨uri.scheme, uri.authority, some path, uri.query, uri.fragment⟩ := by
    rw [← h.path_eq]
  rw [parse, h.cut_text]
  dsimp only
  rw [h.cutScheme]
  dsimp only
  rw [if_neg h.head_rest, cut_append h.not_mem_place.1]
  dsimp only
  rw [cutAuthority_place (fun authority hmem => (h.authority_free authority hmem).1) h.rooted h.bare]
  dsimp only
  rw [← huri, if_pos haccepted]

theorem of_not_mem_place {c : Char} {authority : Option (List Char)} (h : c ∉ place authority path) :
    (∀ authority' ∈ authority, c ∉ authority') ∧ c ∉ path := by
  cases authority with
  | none => exact ⟨nofun, h⟩
  | some authority =>
      simp only [place, List.cons_append, List.mem_cons, List.mem_append, not_or] at h
      refine ⟨?_, h.2.2.2⟩
      rintro authority' ⟨⟩
      exact h.2.2.1

theorem of_not_mem_schemed {c : Char} {scheme : Option (List Char)} {rest : List Char}
    (h : c ∉ schemed scheme rest) :
    (∀ scheme' ∈ scheme, c ∉ scheme') ∧ c ∉ rest := by
  cases scheme with
  | none => exact ⟨nofun, h⟩
  | some scheme =>
      simp only [schemed, List.mem_cons, List.mem_append, not_or] at h
      refine ⟨?_, h.2.2⟩
      rintro scheme' ⟨⟩
      exact h.1

theorem of_not_mem_led {c d : Char} {part : Option (List Char)} (h : c ∉ led d part) :
    ∀ part' ∈ part, c ∉ part' := by
  rintro part' ⟨⟩
  exact fun hmem => h (List.mem_cons_of_mem _ hmem)

theorem exists_of_parse {text : List Char} (h : parse isServer text = some uri) (hpath : uri.path = some path) :
    ∃ uri' : Uri, uri'.Separated path ∧ uri'.isAccepted isServer = true ∧ uri'.text = text ∧
      uri'.normal = uri := by
  rcases hcut : cut '#' text with ⟨front, fragment⟩
  rcases hscheme : Uri.cutScheme front with ⟨scheme, rest⟩
  rcases hcut' : cut '?' rest with ⟨place, query⟩
  rcases hauthority : cutAuthority place with ⟨authority, path'⟩
  simp only [parse, hcut, hscheme, hcut', hauthority] at h
  split at h
  · split at h
    · cases h
      cases hpath
    · cases h
  next hhead =>
  split at h
  next haccepted =>
    cases h
    cases hpath
    obtain ⟨hfront, rfl⟩ := cut_eq_iff.mp hcut
    obtain ⟨rfl, hfree, hrelative⟩ := schemed_of_cutScheme hscheme
    obtain ⟨hplace, rfl⟩ := cut_eq_iff.mp hcut'
    obtain ⟨rfl, hslash, hrooted, hbare⟩ := place_of_cutAuthority hauthority
    refine ⟨⟨scheme, authority, some path, query, fragment⟩, ?_, haccepted, rfl, rfl⟩
    obtain ⟨hscheme', hrest⟩ := of_not_mem_schemed hfront
    rw [List.mem_append, not_or] at hrest
    have hplace' := of_not_mem_place hplace
    have hfront' := of_not_mem_place hrest.1
    -- each part is free of the separators that end it
    exact {
      path_eq := rfl
      scheme_free := fun scheme hmem =>
        have ⟨hcolon, hslash, hquery⟩ := hfree scheme hmem
        ⟨hcolon, hslash, hquery, hscheme' scheme hmem⟩
      authority_free := fun authority hmem =>
        ⟨hslash authority hmem, hplace'.1 authority hmem, hfront'.1 authority hmem⟩
      path_free := ⟨hplace'.2, hfront'.2⟩
      query_free := of_not_mem_led hrest.2
      rooted := hrooted
      bare := hbare
      -- otherwise the URI is opaque, and has no path
      absolute := by
        rintro rfl hsome
        by_contra hne
        refine hhead ⟨Option.isSome_iff_ne_none.mpr hsome, fun h => hne ?_⟩
        cases path with
        | nil => cases query <;> cases h
        | cons c path => exact h
      -- a colon in the first segment would have ended a scheme
      relative := by
        rintro rfl rfl before after rfl
        have hmem := hrelative rfl before (after ++ led '?' query) (List.append_assoc ..)
        exact hmem.resolve_right fun h => hplace'.2 (List.mem_append_left _ h) }
  · cases h

/-- Of an opaque URI. -/
theorem parse_of_path_eq_none {text : List Char} (h : parse isServer text = some uri)
    (hpath : uri.path = none) :
    ∃ scheme fragment, uri = ⟨some scheme, none, none, none, fragment⟩ ∧
      ':' ∉ scheme ∧ '/' ∉ scheme ∧ '?' ∉ scheme ∧ '#' ∉ scheme := by
  rcases hcut : cut '#' text with ⟨front, fragment⟩
  rcases hscheme : Uri.cutScheme front with ⟨scheme, rest⟩
  simp only [parse, hcut, hscheme] at h
  -- only an opaque URI has no path
  split at h
  next hopaque =>
    split at h
    · cases h
      obtain ⟨scheme, rfl⟩ := Option.isSome_iff_exists.mp hopaque.1
      obtain ⟨hfront, -⟩ := cut_eq_iff.mp hcut
      obtain ⟨rfl, hfree, -⟩ := schemed_of_cutScheme hscheme
      obtain ⟨hcolon, hslash, hquery⟩ := hfree scheme rfl
      exact ⟨scheme, fragment, rfl, hcolon, hslash, hquery, (of_not_mem_schemed hfront).1 scheme rfl⟩
    · cases h
  · split at h
    · cases h
      cases hpath
    · cases h

theorem parse_scheme_alone {scheme : List Char} (hcolon : ':' ∉ scheme) (hslash : '/' ∉ scheme)
    (hquery : '?' ∉ scheme) (hhash : '#' ∉ scheme) (fragment : Option (List Char)) :
    parse isServer (schemed (some scheme) [] ++ led '#' fragment) = none := by
  have hfront : '#' ∉ schemed (some scheme) [] := by
    rw [schemed, List.mem_append, not_or]
    exact ⟨hhash, List.not_mem_cons_of_ne_of_not_mem (by decide) List.not_mem_nil⟩
  simp only [parse, cut_append hfront, cutScheme_schemed ⟨hcolon, hslash, hquery⟩]
  rfl

/-! ## The constructor -/

def getAuthority (decoder : Utf8Decoder) (uri : Uri) : Option (List Char) :=
  uri.authority.map (unescape decoder)

def getPath (decoder : Utf8Decoder) (uri : Uri) : Option (List Char) := uri.path.map (unescape decoder)

def getQuery (decoder : Utf8Decoder) (uri : Uri) : Option (List Char) := uri.query.map (unescape decoder)

def getFragment (decoder : Utf8Decoder) (uri : Uri) : Option (List Char) :=
  uri.fragment.map (unescape decoder)

/-- The parts with everything escaped in them that is not legal, and the percent sign always, also that of
an IPv6 literal. -/
def quoted (uri : Uri) : Uri where
  scheme := uri.scheme
  authority := uri.authority.map (quote isAuthorityChar)
  path := uri.path.map (quote isPathChar)
  query := uri.query.map (quote isUriChar)
  fragment := uri.fragment.map (quote isUriChar)

/-- The text of the URI with these parts. It has to be accepted in its turn, with an authority that is
server-based. -/
def construct (isServer : List Char → Bool) (parts : Uri) : Option (List Char) :=
  if parts.scheme.isSome ∧ parts.path.any (fun path => path ≠ [] ∧ path.head? ≠ some '/') then none
  else
    match parse isServer parts.quoted.text with
    | some uri => if uri.authority.all isServer then some parts.quoted.text else none
    | none => none

variable {decoder : Utf8Decoder}

/-- The parts that are got and the query, put together again. -/
def requoted (decoder : Utf8Decoder) (uri : Uri) (query : Option (List Char)) : Uri :=
  quoted ⟨uri.scheme, uri.getAuthority decoder, uri.getPath decoder, query, uri.getFragment decoder⟩

theorem not_mem_map_quote {legal : Char → Bool} {c : Char} (hlegal : legal c = false) (hne : c ≠ '%')
    (halnum : c.isAlphanum = false) (part : Option (List Char)) :
    ∀ part' ∈ part.map (quote legal), c ∉ part' := by
  intro part' hmem
  obtain ⟨part, -, rfl⟩ := Option.map_eq_some_iff.mp hmem
  exact not_mem_quote_of_not_legal hlegal hne halnum part

theorem Delimited.requoted (h : uri.Delimited path) (query : Option (List Char)) :
    (uri.requoted decoder query).Delimited (quote isPathChar (unescape decoder path)) where
  path_eq := by
    change ((uri.path.map (unescape decoder)).map (quote isPathChar)) = _
    rw [h.path_eq]
    rfl
  scheme_free := h.scheme_free
  authority_free authority hmem :=
    ⟨not_mem_map_quote (by decide) (by decide) (by decide) _ authority hmem,
      not_mem_map_quote (by decide) (by decide) (by decide) _ authority hmem,
      not_mem_map_quote (by decide) (by decide) (by decide) _ authority hmem⟩
  path_free := ⟨not_mem_quote_of_not_legal (by decide) (by decide) (by decide) _,
    not_mem_quote_of_not_legal (by decide) (by decide) (by decide) _⟩
  query_free := not_mem_map_quote (by decide) (by decide) (by decide) query

theorem schemed_inj {scheme : Option (List Char)} {rest rest' : List Char}
    (h : schemed scheme rest = schemed scheme rest') : rest = rest' := by
  cases scheme with
  | none => exact h
  | some scheme => exact (List.cons.inj (List.append_cancel_left h)).2

/-- Delimiters tell the parts of a text apart, but for the authority and the path. -/
theorem Delimited.text_inj {uri' : Uri} {path' : List Char} (h : uri.Delimited path) (h' : uri'.Delimited path')
    (hscheme : uri.scheme = uri'.scheme) (htext : uri.text = uri'.text) :
    place uri.authority path = place uri'.authority path' ∧ uri.query = uri'.query ∧
      uri.fragment = uri'.fragment := by
  have hcut := h.cut_text
  have hcut' := h'.cut_text
  rw [htext, hcut'] at hcut
  obtain ⟨hfront, hfragment⟩ := Prod.mk.inj hcut
  rw [hscheme] at hfront
  have hrest := cut_append h.not_mem_place.1 uri.query
  rw [← schemed_inj hfront, cut_append h'.not_mem_place.1] at hrest
  obtain ⟨hplace, hquery⟩ := Prod.mk.inj hrest
  exact ⟨hplace.symm, hquery.symm, hfragment.symm⟩

theorem isSeparator_slash : IsSeparator '/' := ⟨by decide, by decide, by decide⟩

theorem unescape_slash (rest : List Char) : unescape decoder ('/' :: rest) = '/' :: unescape decoder rest := by
  have h := unescape_append_separator decoder isSeparator_slash [] rest
  rwa [List.nil_append, unescape_nil] at h

theorem unescape_led (after : Option (List Char)) :
    unescape decoder (led '/' after) = led '/' (after.map (unescape decoder)) := by
  cases after with
  | none => exact unescape_nil decoder
  | some after => exact unescape_slash after

theorem quote_led (after : Option (List Char)) :
    quote isPathChar (led '/' after) = led '/' (after.map (quote isPathChar)) := by
  cases after with
  | none => rfl
  | some after => exact quote_append_legal (by decide) [] after

/-- A path does not gain slashes. -/
theorem quote_unescape_ne_slashes (path : List Char) :
    quote isPathChar (unescape decoder path) ≠ '/' :: '/' :: path := by
  intro h
  have hlength := congrArg (fun text => (unescape decoder text).length) h
  rw [unescape_quote decoder (by decide), unescape_slash, unescape_slash, List.length_cons,
    List.length_cons] at hlength
  omega

/-- The parts that are the same after they are got and put together again. -/
structure Kept (isServer : List Char → Bool) (uri : Uri) : Prop where
  hierarchical : uri.path.isSome = true
  authority : ∀ authority ∈ uri.authority, isServer authority = true ∧
    ∃ plain, quote isAuthorityChar plain = authority
  path : ∀ path ∈ uri.path, ∃ plain, quote isPathChar plain = path
  fragment : ∀ fragment ∈ uri.fragment, ∃ plain, quote isUriChar plain = fragment
  bare : uri.authority = none → ∀ path ∈ uri.path, ¬['/', '/'] <+: path ∧ (uri.scheme ≠ none → path ≠ [])

structure SameButQuery (uri uri' : Uri) : Prop where
  scheme : uri.scheme = uri'.scheme
  authority : uri.authority = uri'.authority
  path : uri.path = uri'.path
  fragment : uri.fragment = uri'.fragment

theorem normal_authority_eq_none {uri : Uri} (h : uri.normal.authority = none) :
    uri.authority = none ∨ uri.authority = some [] := by
  match hauthority : uri.authority with
  | none => exact .inl rfl
  | some [] => exact .inr rfl
  | some (c :: rest) =>
      rw [normal, hauthority] at h
      cases h

theorem normal_authority_eq_some {uri : Uri} {authority : List Char}
    (h : uri.normal.authority = some authority) :
    uri.authority = some authority := (Option.filter_eq_some_iff.mp h).1

theorem requote_of_place {authority authority' : Option (List Char)}
    (hplace : place authority' path =
      place ((authority.map (unescape decoder)).map (quote isAuthorityChar))
        (quote isPathChar (unescape decoder path)))
    (hnormal : authority'.filter (· ≠ []) = authority) (hfree : ∀ part ∈ authority', '/' ∉ part)
    (hrooted : authority' ≠ none → ∃ after, path = led '/' after) :
    (authority = none → authority' = none) ∧
      (∀ part ∈ authority, quote isAuthorityChar (unescape decoder part) = part) ∧
      quote isPathChar (unescape decoder path) = path := by
  cases authority' with
  | none =>
      cases hnormal
      exact ⟨fun _ => rfl, nofun, hplace.symm⟩
  | some part =>
      by_cases hnil : part = []
      · subst hnil
        cases hnormal
        exact absurd hplace.symm (quote_unescape_ne_slashes path)
      · rw [Option.filter_some, if_pos (by simpa using hnil)] at hnormal
        subst hnormal
        -- the first slash ends the authority on both sides, so authority and path are compared one by one
        obtain ⟨after, rfl⟩ := hrooted nofun
        have hplace' := (List.cons.inj (List.cons.inj hplace).2).2
        rw [unescape_led, quote_led] at hplace' ⊢
        have hcut := cut_append (hfree part rfl) after
        have hfree' : '/' ∉ quote isAuthorityChar (unescape decoder part) :=
          not_mem_quote_of_not_legal (by decide) (by decide) (by decide) _
        change part ++ led '/' after = quote isAuthorityChar (unescape decoder part) ++ _ at hplace'
        rw [hplace', cut_append hfree'] at hcut
        obtain ⟨hpart, hafter⟩ := Prod.mk.inj hcut
        refine ⟨nofun, ?_, congrArg (led '/') hafter⟩
        rintro part' ⟨⟩
        exact hpart

theorem Delimited.normal (h : uri.Delimited path) : uri.normal.Delimited path where
  path_eq := h.path_eq
  scheme_free := h.scheme_free
  authority_free authority hmem := h.authority_free authority (normal_authority_eq_some hmem)
  path_free := h.path_free
  query_free := h.query_free

theorem kept_of_same {base : List Char} {built : Uri} {query : Option (List Char)}
    (hbase : parse isServer base = some uri) (hpath : uri.path = some path)
    (hbuilt : parse isServer (uri.requoted decoder query).text = some built)
    (hserver : built.authority.all isServer = true) (hsame : built.SameButQuery uri) :
    uri.Kept isServer ∧ built.query = (uri.requoted decoder query).query := by
  obtain ⟨base', hbase', -, -, rfl⟩ := exists_of_parse hbase hpath
  obtain ⟨built', hbuilt', -, htext, rfl⟩ := exists_of_parse hbuilt (hsame.path.trans hpath)
  -- equal texts with equal schemes have equal parts
  obtain ⟨hplace, hquery, hfragment⟩ :=
    hbuilt'.toDelimited.text_inj (hbase'.toDelimited.normal.requoted query) hsame.scheme htext
  obtain ⟨hnone, hauthority, hpath'⟩ := requote_of_place hplace hsame.authority
    (fun part hmem => (hbuilt'.authority_free part hmem).1) hbuilt'.rooted
  refine ⟨?_, hquery⟩
  exact {
    hierarchical := by
      rw [hpath]
      rfl
    authority := by
      intro authority hmem
      refine ⟨?_, _, hauthority authority hmem⟩
      rw [hsame.authority, hmem] at hserver
      exact hserver
    path := by
      intro path' hmem
      cases hpath.symm.trans hmem
      exact ⟨_, hpath'⟩
    fragment := by
      intro fragment hmem
      have heq : base'.normal.fragment = (base'.normal.fragment.map (unescape decoder)).map (quote isUriChar) :=
        hsame.fragment.symm.trans hfragment
      rw [hmem] at heq
      exact ⟨_, (Option.some.inj heq).symm⟩
    bare := by
      intro hauthority path' hmem
      cases hpath.symm.trans hmem
      refine ⟨hbuilt'.bare (hnone hauthority), ?_⟩
      rintro hscheme rfl
      cases hbuilt'.absolute (hnone hauthority) (fun h => hscheme (hsame.scheme.symm.trans h)) }

theorem map_quote_unescape {legal : Char → Bool} (hlegal : legal '%' = false) {part : Option (List Char)}
    (h : ∀ part' ∈ part, ∃ plain, quote legal plain = part') :
    (part.map (unescape decoder)).map (quote legal) = part := by
  cases part with
  | none => rfl
  | some part => exact congrArg some ((quote_unescape_iff decoder hlegal).mpr (h part rfl))

theorem Kept.requoted (h : uri.Kept isServer) (query : Option (List Char)) :
    uri.requoted decoder query = { uri with query := query.map (quote isUriChar) } := by
  unfold Uri.requoted quoted getAuthority getPath getFragment
  rw [map_quote_unescape (by decide) fun part hmem => (h.authority part hmem).2,
    map_quote_unescape (by decide) h.path, map_quote_unescape (by decide) h.fragment]

theorem Schemeless.of_led (after : Option (List Char)) : Schemeless (led '/' after) := by
  intro before rest heq
  exact mem_of_led (by decide) heq

/-- Of a URI whose parts are kept, the query may change. -/
theorem Kept.separated {base : List Char} (h : uri.Kept isServer) (hbase : parse isServer base = some uri)
    (hpath : uri.path = some path) (query : Option (List Char)) :
    ({ uri with query := query.map (quote isUriChar) } : Uri).Separated path := by
  obtain ⟨base', hbase', -, -, rfl⟩ := exists_of_parse hbase hpath
  exact {
    path_eq := hpath
    scheme_free := hbase'.scheme_free
    authority_free := hbase'.toDelimited.normal.authority_free
    path_free := hbase'.path_free
    query_free := not_mem_map_quote (by decide) (by decide) (by decide) query
    rooted := by
      intro hsome
      obtain ⟨authority, hauthority⟩ := Option.ne_none_iff_exists'.mp hsome
      exact hbase'.rooted (by rw [normal_authority_eq_some hauthority]; exact Option.some_ne_none _)
    bare := fun hnone => (h.bare hnone path hpath).1
    absolute := by
      intro hnone hscheme
      rcases normal_authority_eq_none hnone with hnone' | hempty
      · exact hbase'.absolute hnone' hscheme
      · obtain ⟨after, rfl⟩ := hbase'.rooted (by rw [hempty]; exact Option.some_ne_none _)
        cases after with
        | none => exact absurd rfl ((h.bare hnone _ hpath).2 hscheme)
        | some after => rfl
    relative := by
      intro hnone hscheme
      rcases normal_authority_eq_none hnone with hnone' | hempty
      · exact hbase'.relative hnone' hscheme
      · obtain ⟨after, rfl⟩ := hbase'.rooted (by rw [hempty]; exact Option.some_ne_none _)
        exact Schemeless.of_led after }

theorem normal_normal (uri : Uri) : uri.normal.normal = uri.normal := by
  unfold normal
  simp only [Option.filter_filter, Bool.and_self]

theorem Kept.isAccepted {base : List Char} (h : uri.Kept isServer) (hbase : parse isServer base = some uri)
    (hpath : uri.path = some path) (query : Option (List Char)) :
    ({ uri with query := query.map (quote isUriChar) } : Uri).isAccepted isServer = true := by
  obtain ⟨base', -, haccepted, -, rfl⟩ := exists_of_parse hbase hpath
  simp only [Uri.isAccepted, Bool.and_eq_true] at haccepted ⊢
  obtain ⟨⟨⟨⟨⟨hscheme, -⟩, hpath'⟩, -⟩, hfragment⟩, -⟩ := haccepted
  refine ⟨⟨⟨⟨⟨hscheme, ?_⟩, hpath'⟩, ?_⟩, hfragment⟩, ?_⟩
  · rw [Option.all_eq_true]
    intro authority hmem
    rw [(h.authority authority hmem).1, Bool.or_true, Bool.true_or]
  · cases query with
    | none => rfl
    | some query => exact isLegal_quote (by decide) query
  · have hne : base'.normal.authority ≠ some [] := by
      intro hempty
      exact of_decide_eq_true (Option.filter_eq_some_iff.mp hempty).2 rfl
    rw [bne_iff_ne.mpr hne]
    rfl

theorem construct_of_kept {base : List Char} (h : uri.Kept isServer) (hbase : parse isServer base = some uri)
    (query : Option (List Char)) :
    ∃ text, construct isServer
        ⟨uri.scheme, uri.getAuthority decoder, uri.getPath decoder, query, uri.getFragment decoder⟩ =
          some text ∧
      parse isServer text = some { uri with query := query.map (quote isUriChar) } := by
  obtain ⟨path, hpath⟩ := Option.isSome_iff_exists.mp h.hierarchical
  have hseparated := h.separated hbase hpath query
  -- the base was normalized when it was parsed
  have hnormal : ({ uri with query := query.map (quote isUriChar) } : Uri).normal =
      { uri with query := query.map (quote isUriChar) } := by
    obtain ⟨base', -, -, -, rfl⟩ := exists_of_parse hbase hpath
    exact congrArg (fun uri => { uri with query := query.map (quote isUriChar) }) base'.normal_normal
  have hparse := parse_text hseparated (h.isAccepted hbase hpath query)
  rw [hnormal] at hparse
  refine ⟨_, ?_, hparse⟩
  have hquoted : quoted
    ⟨uri.scheme, uri.getAuthority decoder, uri.getPath decoder, query, uri.getFragment decoder⟩ =
      { uri with query := query.map (quote isUriChar) } := h.requoted query
  rw [construct, if_neg, hquoted, hparse]
  · refine if_pos (Option.all_eq_true _ _ |>.mpr ?_)
    intro authority hmem
    exact (h.authority authority hmem).1
  · rintro ⟨hscheme, hrelative⟩
    -- with a scheme, the path is not relative
    obtain ⟨after, rfl⟩ : ∃ after, path = led '/' after := by
      by_cases hnone : uri.authority = none
      · obtain ⟨rest, hrest⟩ := List.head?_eq_some_iff.mp
          (hseparated.absolute hnone (Option.isSome_iff_ne_none.mp hscheme))
        exact ⟨some rest, hrest⟩
      · exact hseparated.rooted hnone
    rw [getPath, hpath, Option.map_some, unescape_led] at hrelative
    cases after with
    | none => simp [led] at hrelative
    | some after => simp [led] at hrelative

theorem construct_eq_some {parts : Uri} {text : List Char} (h : construct isServer parts = some text) :
    text = parts.quoted.text ∧
      ∀ built, parse isServer text = some built → built.authority.all isServer = true := by
  unfold construct at h
  split at h
  · cases h
  · split at h
    next built hbuilt =>
      split at h
      next hserver =>
        cases h
        refine ⟨rfl, ?_⟩
        intro built' hbuilt'
        cases hbuilt.symm.trans hbuilt'
        exact hserver
      · cases h
    · cases h

/-- The text that is built from the parts of another has the same parts, exactly when all of these are kept. -/
theorem construct_iff {base : List Char} (hbase : parse isServer base = some uri) (hpath : uri.path = some path)
    (query : Option (List Char)) (P : Option (List Char) → Prop) :
    (∃ text built, construct isServer
        ⟨uri.scheme, uri.getAuthority decoder, uri.getPath decoder, query, uri.getFragment decoder⟩ =
          some text ∧
        parse isServer text = some built ∧ built.SameButQuery uri ∧ P built.query) ↔
      uri.Kept isServer ∧ P (query.map (quote isUriChar)) := by
  constructor
  · rintro ⟨text, built, hconstruct, hbuilt, hsame, hquery⟩
    obtain ⟨rfl, hserver⟩ := construct_eq_some hconstruct
    -- what was built has the same parts, so they survive being decoded and quoted
    obtain ⟨hkept, heq⟩ := kept_of_same hbase hpath hbuilt (hserver built hbuilt) hsame
    rw [heq] at hquery
    exact ⟨hkept, hquery⟩
  · rintro ⟨hkept, hquery⟩
    obtain ⟨text, hconstruct, hbuilt⟩ := construct_of_kept hkept hbase query
    exact ⟨text, _, hconstruct, hbuilt, ⟨rfl, rfl, rfl, rfl⟩, hquery⟩

/-- A query makes of an opaque URI another one. Without a query nothing is left after the scheme. -/
theorem construct_of_path_eq_none {base text : List Char} {built : Uri} {query : Option (List Char)}
    (hbase : parse isServer base = some uri) (hpath : uri.path = none)
    (h : construct isServer
      ⟨uri.scheme, uri.getAuthority decoder, uri.getPath decoder, query, uri.getFragment decoder⟩ = some text)
    (hbuilt : parse isServer text = some built) : query ≠ none := by
  obtain ⟨scheme, fragment, rfl, hcolon, hslash, hquestion, hhash⟩ := parse_of_path_eq_none hbase hpath
  obtain ⟨rfl, -⟩ := construct_eq_some h
  rintro rfl
  have hnone := @parse_scheme_alone isServer scheme hcolon hslash hquestion hhash
    ((fragment.map (unescape decoder)).map (quote isUriChar))
  cases hnone.symm.trans hbuilt

end Uri

end GenC.Lib
