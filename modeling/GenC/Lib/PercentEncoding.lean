import GenC.Lib.Octets

/-!
# Percent-encoding and forms

Texts in which an octet may be escaped, and the pairs of an `application/x-www-form-urlencoded` text.

* `unescape_quote` — what is quoted is unescaped again, whatever is legal as it is.
* `formDecode_quote` — a form in a quoted text has the pairs of the text as it stands.
* `plainPairs_unescape_iff` — a form keeps its pairs when it is unescaped as a whole, exactly when no pair has a
  separator in it.
* `plusToSpace_formEncode_iff` — what is encoded for a form is read as it stands, exactly when nothing was
  escaped.
-/

namespace GenC.Lib

/-! ## Escapes -/

def escapeOctet (octet : UInt8) : List Char :=
  ['%', upperHex (octet.toNat / 16), upperHex (octet.toNat % 16)]

def unhex (high low : Char) : Option UInt8 :=
  (hexValue high).bind fun high' => (hexValue low).map fun low' => UInt8.ofNat (16 * high' + low')

/-- The octets of a text: one for each escape, and those of UTF-8 for any other character. -/
def octets : List Char → List UInt8
  | '%' :: high :: low :: rest =>
      match unhex high low with
      | some octet => octet :: octets rest
      | none => String.utf8EncodeChar '%' ++ octets (high :: low :: rest)
  | c :: rest => String.utf8EncodeChar c ++ octets rest
  | [] => []

def unescape (decoder : Utf8Decoder) (text : List Char) : List Char := decoder.decode (octets text)

/-- Every character that is not legal is escaped. -/
def quoteChar (legal : Char → Bool) (c : Char) : List Char :=
  if legal c then [c] else (String.utf8EncodeChar c).flatMap escapeOctet

def quote (legal : Char → Bool) (text : List Char) : List Char := text.flatMap (quoteChar legal)

theorem octets_cons {c : Char} (rest : List Char) (h : c ≠ '%') :
    octets (c :: rest) = String.utf8EncodeChar c ++ octets rest := by
  rw [octets]
  intro high low rest' heq
  exact absurd heq h

theorem octets_percent (text : List Char)
    (h : ∀ high low rest, text = high :: low :: rest → unhex high low = none) :
    octets ('%' :: text) = String.utf8EncodeChar '%' ++ octets text := by
  match text with
  | [] => rfl
  | [c] =>
      rw [octets]
      nofun
  | high :: low :: rest => rw [octets, h high low rest rfl]

theorem unhex_escapeOctet (octet : UInt8) :
    unhex (upperHex (octet.toNat / 16)) (upperHex (octet.toNat % 16)) = some octet := by
  have hlt := octet.toNat_lt
  rw [unhex, hexValue_upperHex _ (by omega), hexValue_upperHex _ (by omega)]
  change some (UInt8.ofNat (16 * (octet.toNat / 16) + octet.toNat % 16)) = some octet
  rw [Nat.div_add_mod, UInt8.ofNat_toNat]

theorem octets_escapeOctet (octet : UInt8) (rest : List Char) :
    octets (escapeOctet octet ++ rest) = octet :: octets rest := by
  change octets ('%' :: upperHex (octet.toNat / 16) :: upperHex (octet.toNat % 16) :: rest) = _
  rw [octets, unhex_escapeOctet]

theorem octets_escapes (read : List UInt8) (rest : List Char) :
    octets (read.flatMap escapeOctet ++ rest) = read ++ octets rest := by
  induction read with
  | nil => rfl
  | cons octet read ih =>
      rw [List.flatMap_cons, List.append_assoc, octets_escapeOctet, ih]
      rfl

variable {legal : Char → Bool}

theorem octets_quoteChar (hlegal : legal '%' = false) (c : Char) (rest : List Char) :
    octets (quoteChar legal c ++ rest) = String.utf8EncodeChar c ++ octets rest := by
  unfold quoteChar
  split
  · next hc =>
      refine octets_cons rest ?_
      rintro rfl
      rw [hlegal] at hc
      cases hc
  · exact octets_escapes _ rest

theorem octets_quote (hlegal : legal '%' = false) (text : List Char) :
    octets (quote legal text) = utf8 text := by
  induction text with
  | nil => rfl
  | cons c text ih =>
      change octets (quoteChar legal c ++ quote legal text) = String.utf8EncodeChar c ++ utf8 text
      rw [octets_quoteChar hlegal, ih]

/-- A character of a quoted text is legal, and in the text, or part of an escape. -/
theorem mem_quote {text : List Char} {c : Char} (h : c ∈ quote legal text) :
    (c ∈ text ∧ legal c = true) ∨ c = '%' ∨ c.isAlphanum = true := by
  obtain ⟨c', hc', h⟩ := List.mem_flatMap.mp h
  unfold quoteChar at h
  split at h
  · next hlegal =>
      cases List.mem_singleton.mp h
      exact .inl ⟨hc', hlegal⟩
  · obtain ⟨octet, -, h⟩ := List.mem_flatMap.mp h
    have hlt := octet.toNat_lt
    simp only [escapeOctet, List.mem_cons, List.not_mem_nil, or_false] at h
    rcases h with rfl | rfl | rfl
    · exact .inr (.inl rfl)
    · exact .inr (.inr (isAlphanum_upperHex _ (by omega)))
    · exact .inr (.inr (isAlphanum_upperHex _ (by omega)))

theorem not_mem_quote {text : List Char} {c : Char} (h : c ∉ text) (hne : c ≠ '%')
    (halnum : c.isAlphanum = false) :
    c ∉ quote legal text := by
  intro hmem
  rcases mem_quote hmem with ⟨hmem, -⟩ | heq | heq
  · exact h hmem
  · exact hne heq
  · rw [halnum] at heq
    cases heq

theorem not_mem_quote_of_not_legal {c : Char} (hlegal : legal c = false) (hne : c ≠ '%')
    (halnum : c.isAlphanum = false) (text : List Char) : c ∉ quote legal text := by
  intro hmem
  rcases mem_quote hmem with ⟨-, heq⟩ | heq | heq
  · exact absurd (hlegal.symm.trans heq) Bool.false_ne_true
  · exact hne heq
  · exact absurd (halnum.symm.trans heq) Bool.false_ne_true

theorem quote_append_legal {d : Char} (h : legal d = true) (before after : List Char) :
    quote legal (before ++ d :: after) = quote legal before ++ d :: quote legal after := by
  rw [quote, List.flatMap_append, List.flatMap_cons, quoteChar, if_pos h]
  rfl

theorem quoteChar_ne_nil (c : Char) : quoteChar legal c ≠ [] := by
  unfold quoteChar
  split
  · exact List.cons_ne_nil _ _
  · intro hnil
    obtain ⟨octet, rest, heq⟩ := List.exists_cons_of_ne_nil (@String.utf8EncodeChar_ne_nil c)
    rw [heq, List.flatMap_cons] at hnil
    cases hnil

theorem quote_eq_nil_iff {text : List Char} : quote legal text = [] ↔ text = [] := by
  cases text with
  | nil => exact Iff.rfl
  | cons c text => exact iff_of_false (fun h => quoteChar_ne_nil c (List.append_eq_nil_iff.mp h).1) nofun

/-! ## Separators -/

/-- A character that no escape takes part in. -/
structure IsSeparator (c : Char) : Prop where
  ascii : IsAscii c
  ne_percent : c ≠ '%'
  hexValue : hexValue c = none

theorem unhex_separator_left {d : Char} (hd : IsSeparator d) (low : Char) : unhex d low = none := by
  rw [unhex, hd.hexValue]
  rfl

theorem unhex_separator_right {d : Char} (hd : IsSeparator d) (high : Char) : unhex high d = none := by
  rw [unhex, hd.hexValue]
  cases GenC.Lib.hexValue high <;> rfl

theorem octets_append_separator {d : Char} (hd : IsSeparator d) (before after : List Char) :
    octets (before ++ d :: after) = octets before ++ d.val.toUInt8 :: octets after := by
  fun_induction octets before with
  | case1 high low rest octet hoctet ih =>
      change octets ('%' :: high :: low :: (rest ++ d :: after)) = _
      rw [octets, hoctet]
      exact congrArg (octet :: ·) ih
  | case2 high low rest hnone ih =>
      change octets ('%' :: high :: low :: (rest ++ d :: after)) = _
      rw [octets, hnone]
      exact (congrArg (String.utf8EncodeChar '%' ++ ·) ih).trans (List.append_assoc ..).symm
  | case3 c rest hother ih =>
      rw [List.append_assoc, ← ih]
      by_cases hc : c = '%'
      · subst hc
        refine octets_percent (rest ++ d :: after) ?_
        -- `hother` leaves at most one character before the separator
        match rest with
        | [] =>
            intro high low rest' heq
            cases heq
            exact unhex_separator_left hd low
        | [high] =>
            intro high low rest' heq
            cases heq
            exact unhex_separator_right hd high
        | high :: low :: rest => exact (hother high low rest rfl rfl).elim
      · exact octets_cons _ hc
  | case4 =>
      rw [List.nil_append, octets_cons after hd.ne_percent, utf8EncodeChar_of_isAscii hd.ascii]
      rfl

/-- Each character is legal, or part of an escape. -/
def isLegal (legal : Char → Bool) : List Char → Bool
  | '%' :: high :: low :: rest => (unhex high low).isSome && isLegal legal rest
  | c :: rest => legal c && isLegal legal rest
  | [] => true

theorem isLegal_escapes (read : List UInt8) (rest : List Char) :
    isLegal legal (read.flatMap escapeOctet ++ rest) = isLegal legal rest := by
  induction read with
  | nil => rfl
  | cons octet read ih =>
      rw [List.flatMap_cons, List.append_assoc]
      change ((unhex (upperHex (octet.toNat / 16)) (upperHex (octet.toNat % 16))).isSome && _) = _
      rw [unhex_escapeOctet]
      exact ih

theorem isLegal_quote (hlegal : legal '%' = false) (text : List Char) :
    isLegal legal (quote legal text) = true := by
  induction text with
  | nil => rfl
  | cons c text ih =>
      rw [quote, List.flatMap_cons, quoteChar]
      split
      · next hc =>
          have hne : c ≠ '%' := by
            rintro rfl
            rw [hlegal] at hc
            cases hc
          change isLegal legal (c :: quote legal text) = true
          rw [isLegal, hc, ih]
          · rfl
          · intro high low rest heq
            exact absurd heq hne
      · rw [isLegal_escapes]
        exact ih

variable (decoder : Utf8Decoder)

theorem unescape_quote (hlegal : legal '%' = false) (text : List Char) :
    unescape decoder (quote legal text) = text := by
  rw [unescape, octets_quote hlegal, decoder.decode_utf8]

theorem unescape_append_separator {d : Char} (hd : IsSeparator d) (before after : List Char) :
    unescape decoder (before ++ d :: after) = unescape decoder before ++ d :: unescape decoder after := by
  rw [unescape, octets_append_separator hd, decoder.decode_ascii _ _ _ hd.ascii]
  rfl

theorem quote_unescape_iff (hlegal : legal '%' = false) {text : List Char} :
    quote legal (unescape decoder text) = text ↔ ∃ plain, quote legal plain = text := by
  constructor
  · intro h
    exact ⟨_, h⟩
  · rintro ⟨plain, rfl⟩
    rw [unescape_quote decoder hlegal]

theorem unescape_nil : unescape decoder [] = [] := decoder.decode_utf8 []

theorem octets_ne_nil {text : List Char} (h : text ≠ []) : octets text ≠ [] := by
  fun_cases octets text with
  | case1 => exact List.cons_ne_nil _ _
  | case2 => exact List.append_ne_nil_of_left_ne_nil String.utf8EncodeChar_ne_nil _
  | case3 => exact List.append_ne_nil_of_left_ne_nil String.utf8EncodeChar_ne_nil _
  | case4 => exact absurd rfl h

theorem unescape_eq_nil_iff {text : List Char} : unescape decoder text = [] ↔ text = [] := by
  constructor
  · intro h
    by_contra hne
    exact decoder.decode_ne_nil _ (octets_ne_nil hne) h
  · rintro rfl
    exact unescape_nil decoder

/-! ## The first separator -/

/-- What comes before the first `d`, and what comes after it. -/
def cut (d : Char) : List Char → List Char × Option (List Char)
  | [] => ([], none)
  | c :: text => if c = d then ([], some text) else ((cut d text).map (c :: ·) id)

/-- A part, after the separator that says it is there. -/
def led (d : Char) : Option (List Char) → List Char
  | none => []
  | some part => d :: part

theorem cut_append {d : Char} {before : List Char} (h : d ∉ before) (after : Option (List Char)) :
    cut d (before ++ led d after) = (before, after) := by
  induction before with
  | nil =>
      cases after with
      | none => rfl
      | some after => exact if_pos rfl
  | cons c before ih =>
      obtain ⟨hne, hnot⟩ := List.ne_and_not_mem_of_not_mem_cons h
      rw [List.cons_append, cut, if_neg (Ne.symm hne), ih hnot]
      rfl

theorem not_mem_cut (d : Char) (text : List Char) : d ∉ (cut d text).1 := by
  fun_induction cut d text with
  | case1 => exact List.not_mem_nil
  | case2 => exact List.not_mem_nil
  | case3 c text hne ih => exact List.not_mem_cons_of_ne_of_not_mem (Ne.symm hne) ih

theorem cut_led (d : Char) (text : List Char) : (cut d text).1 ++ led d (cut d text).2 = text := by
  fun_induction cut d text with
  | case1 => rfl
  | case2 => rfl
  | case3 c text hne ih => exact congrArg (c :: ·) ih

theorem cut_eq_iff {d : Char} {text before : List Char} {after : Option (List Char)} :
    cut d text = (before, after) ↔ d ∉ before ∧ before ++ led d after = text := by
  constructor
  · intro h
    have hnot := not_mem_cut d text
    have hled := cut_led d text
    rw [h] at hnot hled
    exact ⟨hnot, hled⟩
  · rintro ⟨hnot, rfl⟩
    exact cut_append hnot after

theorem cut_prefix (d : Char) (before after : List Char) : (cut d (before ++ d :: after)).1 <+: before := by
  induction before with
  | nil =>
      have hcut : cut d (d :: after) = ([], some after) := if_pos rfl
      change (cut d (d :: after)).1 <+: []
      exact hcut.symm ▸ List.nil_prefix
  | cons c before ih =>
      rw [List.cons_append, cut]
      split
      · exact List.nil_prefix
      · exact List.cons_prefix_cons.mpr ⟨rfl, ih⟩

/-- A text is free of `d`, or begins with a part that is. -/
@[elab_as_elim]
theorem separatorInduction (d : Char) {motive : List Char → Prop} (free : ∀ text, d ∉ text → motive text)
    (separated : ∀ before after, motive before → motive after → motive (before ++ d :: after))
    (text : List Char) :
    motive text := by
  match hcut : cut d text with
  | (before, none) =>
      obtain ⟨hnot, rfl⟩ := cut_eq_iff.mp hcut
      exact free _ (by rwa [led, List.append_nil])
  | (before, some after) =>
      obtain ⟨hnot, htext⟩ := cut_eq_iff.mp hcut
      have hlt : after.length < text.length := by
        rw [← htext, led, List.length_append, List.length_cons]
        omega
      exact htext ▸ separated before after (free before hnot) (separatorInduction d free separated after)
termination_by text.length

/-! ## Forms -/

def plusToSpace (text : List Char) : List Char := text.map fun c => if c = '+' then ' ' else c

/-- The pairs of a form: their names and values as `read` has them. A pair without a value has the empty one. -/
def formPairs (read : List Char → List Char) (text : List Char) : List (List Char × List Char) :=
  ((text.splitOn '&').filter (· ≠ [])).map fun pair =>
    (read (cut '=' pair).1, read ((cut '=' pair).2.getD []))

/-- The parameters of a query. -/
def formDecode (text : List Char) : List (List Char × List Char) :=
  formPairs (fun part => unescape decoder (plusToSpace part)) text

/-- What `formDecode` reads when nothing in the text is an escape. -/
def plainPairs (text : List Char) : List (List Char × List Char) := formPairs plusToSpace text

theorem formPairs_free {text : List Char} (read : List Char → List Char) (h : '&' ∉ text) (hne : text ≠ []) :
    formPairs read text = [(read (cut '=' text).1, read ((cut '=' text).2.getD []))] := by
  rw [formPairs, List.splitOn_eq_singleton h]
  simp [hne]

theorem formPairs_append (read : List Char → List Char) (before after : List Char) :
    formPairs read (before ++ '&' :: after) = formPairs read before ++ formPairs read after := by
  rw [formPairs, List.splitOn_append_cons_self, List.filter_append, List.map_append]
  rfl

theorem formPairs_eq_map (read : List Char → List Char) (text : List Char) :
    formPairs read text = (formPairs id text).map (Prod.map read read) := by
  rw [formPairs, formPairs, List.map_map]
  rfl

theorem exists_of_mem_formPairs {read : List Char → List Char} {text : List Char} {pair : List Char × List Char}
    (h : pair ∈ formPairs read text) :
    ∃ name value, pair = (read name, read value) ∧ '&' ∉ name ∧ '=' ∉ name ∧ '&' ∉ value := by
  -- the text is a single pair, or two texts with a separator between them
  induction text using separatorInduction '&' with
  | free text hnot =>
      by_cases hne : text = []
      · subst hne
        cases h
      · rw [formPairs_free read hnot hne, List.mem_singleton] at h
        rw [← cut_led '=' text, List.mem_append, not_or] at hnot
        refine ⟨_, _, h, hnot.1, not_mem_cut '=' text, ?_⟩
        cases hvalue : (cut '=' text).2 with
        | none => exact List.not_mem_nil
        | some value =>
            rw [hvalue] at hnot
            exact fun hmem => hnot.2 (List.mem_cons_of_mem _ hmem)
  | separated before after ihbefore ihafter =>
      rw [formPairs_append, List.mem_append] at h
      exact h.elim ihbefore ihafter

/-- `f` goes through a form when it goes through its separators, and puts none in a name or a value. -/
theorem formPairs_comp {f read read' : List Char → List Char} (hnil : ∀ text, f text = [] ↔ text = [])
    (hamp : ∀ before after, f (before ++ '&' :: after) = f before ++ '&' :: f after)
    (heq : ∀ before after, f (before ++ '=' :: after) = f before ++ '=' :: f after) (text : List Char)
    (h : ∀ pair ∈ formPairs id text, ('&' ∉ f pair.1 ∧ '=' ∉ f pair.1 ∧ read' (f pair.1) = read pair.1) ∧
      '&' ∉ f pair.2 ∧ read' (f pair.2) = read pair.2) :
    formPairs read' (f text) = formPairs read text := by
  induction text using separatorInduction '&' with
  | free text hnot =>
      by_cases hne : text = []
      · rw [hne, (hnil []).mpr rfl]
        rfl
      have hne' : f text ≠ [] := fun h => hne ((hnil text).mp h)
      rw [formPairs_free _ hnot hne, List.forall_mem_singleton] at h
      match hcut : cut '=' text with
      | (name, value) =>
          rw [hcut] at h
          dsimp only [id] at h
          obtain ⟨⟨hname, hname', hread⟩, hvalue, hread'⟩ := h
          obtain ⟨hfree, rfl⟩ := cut_eq_iff.mp hcut
          -- within a pair `f` acts on the name and on the value
          have hf : f (name ++ led '=' value) = f name ++ led '=' (value.map f) := by
            cases value with
            | none => rw [Option.map_none, led, List.append_nil, List.append_nil]
            | some value => exact heq name value
          have hgetD : (value.map f).getD [] = f (value.getD []) := by
            cases value with
            | none => exact ((hnil []).mpr rfl).symm
            | some value => rfl
          have hfree' : '&' ∉ f (name ++ led '=' value) := by
            rw [hf, List.mem_append, not_or]
            refine ⟨hname, ?_⟩
            cases value with
            | none => exact List.not_mem_nil
            | some value => exact List.not_mem_cons_of_ne_of_not_mem (by decide) hvalue
          rw [formPairs_free _ hfree' hne', formPairs_free _ hnot hne, hcut, hf, cut_append hname', hgetD]
          exact congrArg₂ (fun name value => [(name, value)]) hread hread'
  | separated before after ihbefore ihafter =>
      rw [formPairs_append, List.forall_mem_append] at h
      rw [hamp, formPairs_append, formPairs_append, ihbefore h.1, ihafter h.2]

theorem isSeparator_amp : IsSeparator '&' := ⟨by decide, by decide, by decide⟩

theorem isSeparator_eq : IsSeparator '=' := ⟨by decide, by decide, by decide⟩

theorem isSeparator_plus : IsSeparator '+' := ⟨by decide, by decide, by decide⟩

theorem isSeparator_space : IsSeparator ' ' := ⟨by decide, by decide, by decide⟩

theorem plusToSpace_append (before after : List Char) :
    plusToSpace (before ++ after) = plusToSpace before ++ plusToSpace after := List.map_append

theorem plusToSpace_of_not_mem {text : List Char} (h : '+' ∉ text) : plusToSpace text = text := by
  refine (List.map_congr_left fun c hc => if_neg ?_).trans (List.map_id' text)
  rintro rfl
  exact h hc

theorem not_mem_plusToSpace (text : List Char) : '+' ∉ plusToSpace text := by
  intro h
  obtain ⟨c, -, hc⟩ := List.mem_map.mp h
  split at hc
  · cases hc
  · next hne => exact hne hc

theorem mem_plusToSpace {c : Char} {text : List Char} (h : c ∈ text) (hne : c ≠ '+') : c ∈ plusToSpace text :=
  List.mem_map.mpr ⟨c, h, if_neg hne⟩

theorem not_mem_plusToSpace_of_not_mem {c : Char} {text : List Char} (h : c ∉ text) (hne : c ≠ ' ') :
    c ∉ plusToSpace text := by
  intro hmem
  obtain ⟨c', hc', heq⟩ := List.mem_map.mp hmem
  split at heq
  · exact hne heq.symm
  · exact h (heq ▸ hc')

theorem plusToSpace_unescape (text : List Char) :
    plusToSpace (unescape decoder text) = plusToSpace (unescape decoder (plusToSpace text)) := by
  induction text using separatorInduction '+' with
  | free text hnot => rw [plusToSpace_of_not_mem hnot]
  | separated before after ihbefore ihafter =>
      have hcons : plusToSpace (before ++ '+' :: after) = plusToSpace before ++ ' ' :: plusToSpace after :=
        plusToSpace_append before _
      rw [hcons, unescape_append_separator decoder isSeparator_plus,
        unescape_append_separator decoder isSeparator_space, plusToSpace_append, plusToSpace_append, ihbefore]
      exact congrArg (_ ++ ' ' :: ·) ihafter

theorem unescape_plusToSpace_quote (hlegal : legal '%' = false) (hplus : legal '+' = true) (text : List Char) :
    unescape decoder (plusToSpace (quote legal text)) = plusToSpace text := by
  induction text using separatorInduction '+' with
  | free text hnot =>
      rw [plusToSpace_of_not_mem (not_mem_quote hnot (by decide) (by decide)), unescape_quote decoder hlegal,
        plusToSpace_of_not_mem hnot]
  | separated before after ihbefore ihafter =>
      rw [quote_append_legal hplus, plusToSpace_append, plusToSpace_append]
      change unescape decoder (_ ++ ' ' :: plusToSpace (quote legal after)) = _ ++ ' ' :: plusToSpace after
      rw [unescape_append_separator decoder isSeparator_space, ihbefore, ihafter]

theorem formDecode_quote (hlegal : legal '%' = false) (hplus : legal '+' = true) (hamp : legal '&' = true)
    (heq : legal '=' = true) (text : List Char) : formDecode decoder (quote legal text) = plainPairs text := by
  refine formPairs_comp (fun text => quote_eq_nil_iff) (quote_append_legal hamp)
    (quote_append_legal heq) text ?_
  intro pair hpair
  obtain ⟨name, value, rfl, hname, hname', hvalue⟩ := exists_of_mem_formPairs hpair
  exact ⟨⟨not_mem_quote hname (by decide) (by decide), not_mem_quote hname' (by decide) (by decide),
      unescape_plusToSpace_quote decoder hlegal hplus name⟩,
    not_mem_quote hvalue (by decide) (by decide), unescape_plusToSpace_quote decoder hlegal hplus value⟩

/-- A pair with nothing in it that a form would have to escape, were escapes not read. -/
structure IsPlain (pair : List Char × List Char) : Prop where
  name_amp : '&' ∉ pair.1
  name_eq : '=' ∉ pair.1
  name_plus : '+' ∉ pair.1
  value_amp : '&' ∉ pair.2
  value_plus : '+' ∉ pair.2

theorem isPlain_of_mem_plainPairs {text : List Char} {pair : List Char × List Char}
    (h : pair ∈ plainPairs text) :
    IsPlain pair := by
  obtain ⟨name, value, rfl, hname, hname', hvalue⟩ := exists_of_mem_formPairs h
  exact ⟨not_mem_plusToSpace_of_not_mem hname (by decide), not_mem_plusToSpace_of_not_mem hname' (by decide),
    not_mem_plusToSpace name, not_mem_plusToSpace_of_not_mem hvalue (by decide), not_mem_plusToSpace value⟩

theorem plusToSpace_unescape_of_not_mem {part : List Char} (h : '+' ∉ unescape decoder (plusToSpace part)) :
    plusToSpace (unescape decoder part) = unescape decoder (plusToSpace part) := by
  rw [plusToSpace_unescape, plusToSpace_of_not_mem h]

theorem not_mem_unescape {part : List Char} {c : Char} (h : c ∉ unescape decoder (plusToSpace part))
    (hplus : '+' ∉ unescape decoder (plusToSpace part)) (hne : c ≠ '+') : c ∉ unescape decoder part := by
  intro hmem
  rw [← plusToSpace_unescape_of_not_mem decoder hplus] at h
  exact h (mem_plusToSpace hmem hne)

theorem plainPairs_unescape_iff (text : List Char) :
    plainPairs (unescape decoder text) = formDecode decoder text ↔
      ∀ pair ∈ formDecode decoder text, IsPlain pair := by
  constructor
  · intro h pair hpair
    rw [← h] at hpair
    exact isPlain_of_mem_plainPairs hpair
  · intro h
    refine formPairs_comp (fun text => unescape_eq_nil_iff decoder)
      (unescape_append_separator decoder isSeparator_amp)
        (unescape_append_separator decoder isSeparator_eq) text ?_
    rw [formDecode, formPairs_eq_map, List.forall_mem_map] at h
    intro pair hpair
    obtain ⟨hname, hname', hplus, hvalue, hplus'⟩ := h pair hpair
    exact ⟨⟨not_mem_unescape decoder hname hplus (by decide), not_mem_unescape decoder hname' hplus (by decide),
        plusToSpace_unescape_of_not_mem decoder hplus⟩,
      not_mem_unescape decoder hvalue hplus' (by decide), plusToSpace_unescape_of_not_mem decoder hplus'⟩

/-! ### Encoding for a form -/

/-- What stands for itself. -/
def formSafe (c : Char) : Bool := c.isAlphanum || c ∈ ['.', '*', '_', '-']

def formEncode (text : List Char) : List Char :=
  text.flatMap fun c => if c = ' ' then ['+'] else quoteChar formSafe c

theorem formEncode_cons_space (text : List Char) : formEncode (' ' :: text) = '+' :: formEncode text := rfl

theorem formEncode_cons {c : Char} (hne : c ≠ ' ') (text : List Char) :
    formEncode (c :: text) = quoteChar formSafe c ++ formEncode text := by
  rw [formEncode, List.flatMap_cons, if_neg hne]
  rfl

theorem not_mem_formEncode {c : Char} (hsafe : formSafe c = false) (hplus : c ≠ '+') (hpercent : c ≠ '%')
    (text : List Char) : c ∉ formEncode text := by
  intro h
  obtain ⟨c', -, h⟩ := List.mem_flatMap.mp h
  split at h
  · exact hplus (List.mem_singleton.mp h)
  · refine not_mem_quote_of_not_legal hsafe hpercent (Bool.or_eq_false_iff.mp hsafe).1 [c'] ?_
    rwa [quote, List.flatMap_singleton]

theorem plainPairs_pair (name value : List Char) :
    plainPairs (formEncode name ++ '=' :: formEncode value) =
      [(plusToSpace (formEncode name), plusToSpace (formEncode value))] := by
  have hamp : '&' ∉ formEncode name ++ '=' :: formEncode value := by
    rw [List.mem_append, not_or]
    exact ⟨not_mem_formEncode (by decide) (by decide) (by decide) name,
      List.not_mem_cons_of_ne_of_not_mem (by decide)
        (not_mem_formEncode (by decide) (by decide) (by decide) value)⟩
  have hcut : cut '=' (formEncode name ++ '=' :: formEncode value) =
    (formEncode name, some (formEncode value)) :=
    cut_append (not_mem_formEncode (by decide) (by decide) (by decide) name) (some (formEncode value))
  rw [plainPairs, formPairs_free _ hamp (List.append_ne_nil_of_right_ne_nil _ (List.cons_ne_nil _ _)), hcut]
  rfl

theorem length_le_formEncode (text : List Char) : text.length ≤ (formEncode text).length := by
  induction text with
  | nil => exact Nat.le_refl 0
  | cons c text ih =>
      by_cases hc : c = ' '
      · subst hc
        exact Nat.succ_le_succ ih
      · have hpos := List.length_pos_iff.mpr (@quoteChar_ne_nil formSafe c)
        rw [formEncode_cons hc, List.length_append, List.length_cons]
        omega

theorem one_lt_length_quoteChar {c : Char} (h : legal c = false) : 1 < (quoteChar legal c).length := by
  obtain ⟨octet, rest, heq⟩ := List.exists_cons_of_ne_nil (@String.utf8EncodeChar_ne_nil c)
  rw [quoteChar, if_neg (Bool.eq_false_iff.mp h), heq, List.flatMap_cons, List.length_append]
  change 1 < 3 + _
  omega

/-- An escape makes the text longer. -/
theorem plusToSpace_formEncode_iff {text : List Char} :
    plusToSpace (formEncode text) = text ↔ ∀ c ∈ text, formSafe c = true ∨ c = ' ' := by
  induction text with
  | nil => exact iff_of_true rfl (List.forall_mem_nil _)
  | cons c text ih =>
      rw [List.forall_mem_cons, ← ih]
      by_cases hc : c = ' '
      · subst hc
        rw [formEncode_cons_space]
        constructor
        · intro h
          exact ⟨.inr rfl, (List.cons.inj h).2⟩
        · rintro ⟨-, h⟩
          exact congrArg (' ' :: ·) h
      · cases hsafe : formSafe c with
        | true =>
            have hplus : c ≠ '+' := by
              rintro rfl
              cases hsafe
            rw [formEncode_cons hc, quoteChar, if_pos hsafe, plusToSpace_append]
            constructor
            · intro h
              exact ⟨.inl rfl, (List.cons.inj h).2⟩
            · rintro ⟨-, h⟩
              rw [h]
              exact congrArg (· :: text) (if_neg hplus)
        | false =>
            refine iff_of_false ?_ (fun h => h.1.elim Bool.false_ne_true hc)
            intro h
            -- an escape is longer than the character it stands for, and no character gets lost
            have hlength := congrArg List.length h
            have hlt := one_lt_length_quoteChar hsafe
            have hle := length_le_formEncode text
            rw [plusToSpace, List.length_map, formEncode_cons hc, List.length_append,
              List.length_cons] at hlength
            omega

end GenC.Lib
