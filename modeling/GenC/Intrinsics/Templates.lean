import Mathlib.Data.List.TakeWhile
import GenC.Intrinsics.Inline
import GenC.Lib.Lists
import GenC.Lib.Scan

/-!
# Prompt templates

`intrinsics/prompt_template.cc`: a loop of `RE2::FindAndConsume` finds the placeholders of a template, and
`absl::StrReplaceAll` puts strings in place of keys that are made from the labels of the argument or from the
listed parameters. Both libraries go over the text once: `InlineLibraries.Textual` says what each of them does.

* `parameterAt` — the regular expression, at one place of the template.
* `fillTemplate` — what a template is filled to: the placeholders, and nothing else, replaced.

**`templates_fill`**: with a string for each placeholder, both handlers fill the template.
**`promptTemplate_leavesNone_iff`**, …: when no placeholder is left, or else an error returned.
-/

namespace GenC

open Lib

/-! ## Placeholders -/

/-- `[a-zA-Z0-9_]`. -/
def isWordChar (c : Char) : Bool := c.isAlphanum || c == '_'

/-- The regular expression `kParameterRe` at the head of a text. The token is the name between the braces. -/
def parameterAt : Recognizer Char (List Char)
  | '\x7b' :: text =>
      match text.dropWhile isWordChar with
      | '\x7d' :: _ => some (text.takeWhile isWordChar, (text.takeWhile isWordChar).length + 1)
      | _ => none
  | _ => none

/-- The template in placeholders and other characters. -/
def segments (template : String) : List (Char ⊕ List Char) := scan parameterAt 0 template.toList

/-- The names of the placeholders, in order. -/
def parameterNames (template : String) : List String := (tokens (segments template)).map String.ofList

/-- The successive matches of `kParameterRe`. -/
def findParameters (template : String) : List String := (parameterNames template).map placeholder

/-- The template with every placeholder replaced by the value of its name. -/
def fillTemplate (value : String → String) (template : String) : String :=
  .ofList (fill (fun name => (value (.ofList name)).toList) (segments template))

/-- All of its characters may stand between the braces. -/
def IsParameter (name : String) : Prop := ∀ c ∈ name.toList, isWordChar c = true

theorem toList_placeholder (name : String) :
    (placeholder name).toList = '\x7b' :: name.toList ++ ['\x7d'] := by
  simp [placeholder]

/-- What the expression matches: a name in braces. -/
theorem parameterAt_eq_some_iff {text name : List Char} {length : Nat} :
    parameterAt text = some (name, length) ↔
      (∃ rest, text = '\x7b' :: (name ++ '\x7d' :: rest)) ∧ (∀ c ∈ name, isWordChar c = true) ∧
        length = name.length + 1 := by
  constructor
  · intro h
    unfold parameterAt at h
    split at h
    · next text =>
        split at h
        · next rest hrest =>
            obtain ⟨rfl, rfl⟩ := Prod.mk.inj (Option.some.inj h)
            refine ⟨⟨rest, ?_⟩, fun c => List.mem_takeWhile_imp, rfl⟩
            rw [← hrest, List.takeWhile_append_dropWhile]
        · cases h
    · cases h
  · rintro ⟨⟨rest, rfl⟩, hname, rfl⟩
    have hbrace : isWordChar '\x7d' = false := by decide
    rw [parameterAt, List.dropWhile_append_of_pos hname, List.takeWhile_append_of_pos hname,
      List.dropWhile_cons_of_neg (by simp [hbrace]), List.takeWhile_cons_of_neg (by simp [hbrace])]
    simp

theorem parameterAt_placeholder {name : String} (hname : IsParameter name) (rest : List Char) :
    parameterAt ((placeholder name).toList ++ rest) =
      some (name.toList, (placeholder name).toList.length - 1) := by
  rw [toList_placeholder]
  refine parameterAt_eq_some_iff.mpr ⟨⟨rest, by simp⟩, hname, by simp⟩

/-- The names hold no brace, so no placeholder begins inside another one. -/
theorem apart_parameterAt : Apart parameterAt := by
  intro a text name length h k hk
  obtain ⟨⟨rest, htext⟩, hname, rfl⟩ := parameterAt_eq_some_iff.mp h
  obtain ⟨rfl, rfl⟩ := List.cons.inj htext
  by_contra hsome
  obtain ⟨⟨name', length'⟩, hmatch⟩ := Option.ne_none_iff_exists'.mp hsome
  obtain ⟨⟨rest', hdrop⟩, -, -⟩ := parameterAt_eq_some_iff.mp hmatch
  have hhead : (name ++ '\x7d' :: rest)[k]? = some '\x7b' := by
    rw [← List.head?_drop, hdrop, List.head?_cons]
  rcases Nat.lt_succ_iff_lt_or_eq.mp hk with hlt | rfl
  · rw [List.getElem?_append_left hlt] at hhead
    have hword := hname _ (List.mem_of_getElem? hhead)
    revert hword
    decide
  · rw [List.getElem?_append_right (Nat.le_refl _), Nat.sub_self, List.getElem?_cons_zero] at hhead
    revert hhead
    decide

/-- A placeholder somewhere in the template is found. -/
theorem mem_parameterNames {template : String} {rest name : List Char} {length : Nat}
    (hsuffix : rest <:+ template.toList) (h : parameterAt rest = some (name, length)) :
    String.ofList name ∈ parameterNames template := by
  have hne : rest ≠ [] := by
    rintro rfl
    cases h
  exact List.mem_map_of_mem (apart_parameterAt.mem_tokens hsuffix hne h)

/-- Each name that is found can stand between the braces. -/
theorem isParameter_of_mem {template name : String} (h : name ∈ parameterNames template) :
    IsParameter name := by
  obtain ⟨chars, hchars, rfl⟩ := List.mem_map.mp h
  obtain ⟨rest, length, hmatch⟩ := exists_of_mem_tokens hchars
  intro c hc
  rw [String.toList_ofList] at hc
  exact (parameterAt_eq_some_iff.mp hmatch).2.1 c hc

/-- A placeholder begins where its name is found. -/
theorem begins_placeholder {rest name : List Char} {length : Nat} (h : parameterAt rest = some (name, length)) :
    Begins (placeholder (.ofList name)).toList rest := by
  obtain ⟨⟨rest, rfl⟩, -, -⟩ := parameterAt_eq_some_iff.mp h
  rw [toList_placeholder]
  exact ⟨List.cons_ne_nil _ _, rest, by simp⟩

/-! ## The libraries -/

/-- `absl::StrReplaceAll`. -/
def strReplaceAll (text : String) (replacements : List (String × String)) : String :=
  .ofList (replaceAll (replacements.map fun p => (p.1.toList, p.2.toList)) text.toList)

/-- The libraries do what they are documented to: `RE2::FindAndConsume` finds the leftmost match each time, and
`absl::StrReplaceAll` replaces in one pass, taking the longest key. -/
structure InlineLibraries.Textual (libraries : InlineLibraries) : Prop where
  findParameters : ∀ text, libraries.findParameters text = GenC.findParameters text
  strReplaceAll : ∀ text replacements,
    Replaces (replacements.map fun p => (p.1.toList, p.2.toList)) text.toList
      (libraries.strReplaceAll text replacements).toList

/-- Libraries that work on texts. -/
def InlineLibraries.texts : InlineLibraries :=
  { InlineLibraries.offline with
    findParameters := GenC.findParameters
    strReplaceAll := GenC.strReplaceAll }

theorem InlineLibraries.texts_textual : InlineLibraries.texts.Textual where
  findParameters _ := rfl
  strReplaceAll text replacements := by
    have h := replaces_replaceAll (replacements.map fun p => (p.1.toList, p.2.toList)) text.toList
    rw [← String.toList_ofList (l := replaceAll _ _)] at h
    exact h

section

variable {libraries : InlineLibraries}

/-- Replacing placeholders by the values of their names, all names that are found among them. -/
theorem InlineLibraries.Textual.strReplaceAll_eq (h : libraries.Textual) {template : String}
    {value : String → String} {replacements : List (String × String)}
    (hkeys : ∀ p ∈ replacements, ∃ name, IsParameter name ∧ p = (placeholder name, value name))
    (hall : ∀ name ∈ parameterNames template, (placeholder name, value name) ∈ replacements) :
    libraries.strReplaceAll template replacements = fillTemplate value template := by
  have hfills : Fills (fun name v => v = (value (.ofList name)).toList) (segments template)
      (libraries.strReplaceAll template replacements).toList := by
    apply (h.strReplaceAll template replacements).fills
    · intro p hp rest
      obtain ⟨q, hq, rfl⟩ := List.mem_map.mp hp
      obtain ⟨name, hname, rfl⟩ := hkeys q hq
      exact ⟨name.toList, parameterAt_placeholder hname rest, by rw [String.ofList_toList]⟩
    · intro name hname rest length hrest
      have hmem := hall _ (List.mem_map_of_mem hname)
      exact ⟨_, List.mem_map_of_mem hmem, begins_placeholder hrest⟩
  rw [fillTemplate, ← hfills.eq_fill, String.ofList_toList]

/-- With a key for every name that is found, no placeholder is passed over. -/
theorem InlineLibraries.Textual.strReplaceAll_each (h : libraries.Textual) {template : String}
    {replacements : List (String × String)}
    (hall : ∀ name ∈ parameterNames template, placeholder name ∈ replacements.map Prod.fst) :
    Replaces.Each parameterAt (replacements.map fun p => (p.1.toList, p.2.toList)) template.toList
      (libraries.strReplaceAll template replacements).toList := by
  apply (h.strReplaceAll template replacements).each
  intro rest hsuffix _ hsome
  obtain ⟨⟨name, length⟩, hmatch⟩ := Option.ne_none_iff_exists'.mp hsome
  obtain ⟨q, hq, hkey⟩ := List.mem_map.mp (hall _ (mem_parameterNames hsuffix hmatch))
  refine ⟨_, List.mem_map_of_mem hq, ?_⟩
  show Begins q.1.toList rest
  rw [hkey]
  exact begins_placeholder hmatch

end

/-! ## The handlers -/

/-- All placeholders of the template are one. -/
def Univariate (template : String) : Prop := (findParameters template).eraseDups.length = 1

instance (template : String) : Decidable (Univariate template) := by
  unfold Univariate
  infer_instance

theorem placeholder_injective : Function.Injective placeholder := by
  intro name name' h
  have htext := congrArg String.toList h
  rw [toList_placeholder, toList_placeholder] at htext
  exact String.toList_inj.mp (List.append_cancel_right (List.cons.inj htext).2)

/-- The match that the loop ends with is then all of them. -/
theorem Univariate.getLastD_eq {template : String} (h : Univariate template) :
    (findParameters template).getLastD "" = placeholder ((parameterNames template).getLastD "") ∧
      (∀ name ∈ parameterNames template, name = (parameterNames template).getLastD "") ∧
      (parameterNames template).getLastD "" ∈ parameterNames template := by
  obtain ⟨first, hfirst⟩ := List.length_eq_one_iff.mp h
  -- all placeholders are the same
  have honly : ∀ p ∈ findParameters template, p = first := by
    intro p hp
    rw [← List.mem_eraseDups, hfirst] at hp
    exact List.mem_singleton.mp hp
  have hne : parameterNames template ≠ [] := by
    intro hnil
    rw [findParameters, hnil] at hfirst
    cases hfirst
  have hlast : (findParameters template).getLastD "" = placeholder ((parameterNames template).getLastD "") := by
    rw [findParameters, List.getLastD_eq_getLast?, List.getLastD_eq_getLast?, List.getLast?_map,
      List.getLast?_eq_some_getLast hne]
    rfl
  have hmem : (parameterNames template).getLastD "" ∈ parameterNames template := by
    rw [List.getLastD_eq_getLast?, List.getLast?_eq_some_getLast hne]
    exact List.getLast_mem hne
  refine ⟨hlast, fun name hname => placeholder_injective ?_, hmem⟩
  rw [honly _ (List.mem_map_of_mem hname), honly _ (List.mem_map_of_mem hmem)]

section

variable {libraries : InlineLibraries}

theorem promptTemplate_univariate (h : libraries.Textual) {intr : Intrinsic} {arg : Value}
    (hone : Univariate intr.parameter.str) (hstr : arg.hasStr = true) :
    (promptTemplate libraries).executeCall intr arg =
      .ok (.ofStr (libraries.strReplaceAll intr.parameter.str
        [((findParameters intr.parameter.str).getLastD "", arg.str)])) := by
  unfold Univariate at hone
  simp only [promptTemplate, h.findParameters]
  rw [if_pos hone, if_neg (by simp [hstr])]

/-- The one string is put in place of every placeholder. -/
theorem promptTemplate_univariate_fill (h : libraries.Textual) {value : String → String} {intr : Intrinsic}
    {arg : Value} (hone : Univariate intr.parameter.str) (hstr : arg.hasStr = true)
    (hvalue : ∀ name ∈ parameterNames intr.parameter.str, value name = arg.str) :
    (promptTemplate libraries).executeCall intr arg =
      .ok (.ofStr (fillTemplate value intr.parameter.str)) := by
  obtain ⟨hlast, hsame, hmem⟩ := hone.getLastD_eq
  rw [promptTemplate_univariate h hone hstr, hlast, h.strReplaceAll_eq]
  · intro p hp
    rw [List.mem_singleton.mp hp]
    exact ⟨_, isParameter_of_mem hmem, by rw [hvalue _ hmem]⟩
  · intro name hname
    rw [hsame name hname, hvalue _ hmem]
    exact List.mem_singleton_self _

theorem promptTemplate_multivariate (h : libraries.Textual) {intr : Intrinsic} (arg : Value)
    (hmany : ¬Univariate intr.parameter.str) :
    (promptTemplate libraries).executeCall intr arg =
      .ok (.ofStr (libraries.strReplaceAll intr.parameter.str
        (arg.elements.map fun e => (placeholder e.label, e.str)))) := by
  unfold Univariate at hmany
  simp only [promptTemplate, h.findParameters]
  rw [if_neg hmany]

variable [ProtoText]

/-- The loop over the parameters pairs them with the elements from `index` on. -/
theorem parameterReplacements_eq {elements : List Value} : ∀ {params rest : List Value} {index : Nat},
    elements.drop index = rest →
    List.Forall₂ (fun param e => param.hasStr = true ∧ e.hasStr = true) params rest →
      parameterReplacements elements index params =
        .ok ((params.zip rest).map fun p => (placeholder p.1.str, p.2.str))
  | [], _, _, _, .nil => rfl
  | param :: params, e :: rest, index, hdrop, .cons ⟨hparam, he⟩ h => by
      have hget : elements[index]? = some e := by
        rw [← List.head?_drop, hdrop, List.head?_cons]
      have hnext : elements.drop (index + 1) = rest := by
        rw [← List.drop_drop, hdrop, List.drop_one, List.tail_cons]
      rw [parameterReplacements, Checked.withElement, hget]
      dsimp only
      rw [if_neg (by simp [he]), if_neg (by simp [hparam]), parameterReplacements_eq hnext h]
      rfl

/-- It stops at an element that is not a string. -/
theorem parameterReplacements_error {elements : List Value} : ∀ {params rest : List Value} {index : Nat},
    elements.drop index = rest → params.length = rest.length →
      (¬∀ e ∈ rest, e.hasStr = true) → (∀ param ∈ params, param.hasStr = true) →
      ∃ status, parameterReplacements elements index params = .error status
  | [], [], _, _, _, hrest, _ => (hrest fun _ h => (nomatch h)).elim
  | param :: params, e :: rest, index, hdrop, hlength, hrest, hparams => by
      have hget : elements[index]? = some e := by
        rw [← List.head?_drop, hdrop, List.head?_cons]
      have hnext : elements.drop (index + 1) = rest := by
        rw [← List.drop_drop, hdrop, List.drop_one, List.tail_cons]
      obtain ⟨hparam, hparams⟩ := List.forall_mem_cons.mp hparams
      rw [parameterReplacements, Checked.withElement, hget]
      dsimp only
      by_cases he : e.hasStr = true
      · have htail : ¬∀ e ∈ rest, e.hasStr = true := fun hall =>
          hrest (List.forall_mem_cons.mpr ⟨he, hall⟩)
        obtain ⟨status, hstatus⟩ := parameterReplacements_error hnext (Nat.succ.inj hlength) htail hparams
        rw [if_neg (by simp [he]), if_neg (by simp [hparam]), hstatus]
        exact ⟨status, rfl⟩
      · rw [if_pos (by simpa using he)]
        exact ⟨_, rfl⟩

theorem promptTemplateWithParameters_eq {intr : Intrinsic} {arg templatePb paramsPb : Value}
    (hparameter : intr.parameter.elements = [templatePb, paramsPb]) (hne : templatePb.str ≠ "")
    (hstruct : arg.hasStruct = true)
    (h : List.Forall₂ (fun param e => param.hasStr = true ∧ e.hasStr = true) paramsPb.elements arg.elements) :
    (promptTemplateWithParameters libraries).executeCall intr arg =
      .ok (.ofStr (libraries.strReplaceAll templatePb.str
        ((paramsPb.elements.zip arg.elements).map fun p => (placeholder p.1.str, p.2.str)))) := by
  have hreplacements := parameterReplacements_eq (List.drop_zero (l := arg.elements)) h
  have hlength := h.length_eq
  simp only [promptTemplateWithParameters, hparameter, Checked.withElement, List.getElem?_cons_zero,
    List.getElem?_cons_succ]
  rw [if_neg hne, if_neg (by simp [hstruct]), if_neg (by simp [hlength]), hreplacements]
  rfl

/-- An element gives a string for a name. -/
def Supplies (value : String → String) (name : String) (e : Value) : Prop :=
  IsParameter name ∧ e.hasStr = true ∧ e.str = value name

instance (name : String) : Decidable (IsParameter name) :=
  List.decidableBAll (fun c => isWordChar c = true) name.toList

instance (value : String → String) (name : String) (e : Value) : Decidable (Supplies value name e) := by
  unfold Supplies
  infer_instance

/-- **Filling a template.** `value` says which string each name stands for. The argument gives it for every
placeholder of the template, by the labels of its elements, or as the one string that a template with one
placeholder takes, or by the positions of the listed parameters, whatever their order. Then both handlers
return the template with each placeholder replaced by its string, and nothing else: what is put in is not
looked at again. An empty template is refused where the parameters are listed. -/
theorem templates_fill (h : libraries.Textual) (value : String → String) (intr : Intrinsic) (arg : Value) :
    (¬Univariate intr.parameter.str → (∀ e ∈ arg.elements, Supplies value e.label e) →
      (∀ name ∈ parameterNames intr.parameter.str, ∃ e ∈ arg.elements, e.label = name) →
      (promptTemplate libraries).executeCall intr arg = .ok (.ofStr (fillTemplate value intr.parameter.str))) ∧
    (Univariate intr.parameter.str → arg.hasStr = true →
      (∀ name ∈ parameterNames intr.parameter.str, value name = arg.str) →
      (promptTemplate libraries).executeCall intr arg = .ok (.ofStr (fillTemplate value intr.parameter.str))) ∧
    (∀ templatePb paramsPb, intr.parameter.elements = [templatePb, paramsPb] → templatePb.str ≠ "" →
      arg.hasStruct = true →
      List.Forall₂ (fun param e => param.hasStr = true ∧ Supplies value param.str e)
        paramsPb.elements arg.elements →
      (∀ name ∈ parameterNames templatePb.str, ∃ param ∈ paramsPb.elements, param.str = name) →
      (promptTemplateWithParameters libraries).executeCall intr arg =
        .ok (.ofStr (fillTemplate value templatePb.str))) := by
  refine ⟨fun hmany hsupplies hall => ?_, fun hone hstr hvalue => ?_,
    fun templatePb paramsPb hparameter hne hstruct hsupplies hall => ?_⟩
  -- several parameters are filled by the labels of the elements
  · rw [promptTemplate_multivariate h arg hmany, h.strReplaceAll_eq]
    · intro p hp
      obtain ⟨e, he, rfl⟩ := List.mem_map.mp hp
      obtain ⟨hname, -, hvalue⟩ := hsupplies e he
      exact ⟨e.label, hname, by rw [hvalue]⟩
    · intro name hname
      obtain ⟨e, he, rfl⟩ := hall name hname
      rw [← (hsupplies e he).2.2]
      exact List.mem_map_of_mem he
  · exact promptTemplate_univariate_fill h hone hstr hvalue
  -- a list of parameters is filled by the positions of the elements
  · rw [promptTemplateWithParameters_eq hparameter hne hstruct
      (hsupplies.imp fun _ _ hsupply => ⟨hsupply.1, hsupply.2.2.1⟩), h.strReplaceAll_eq]
    · intro p hp
      obtain ⟨⟨param, e⟩, hmem, rfl⟩ := List.mem_map.mp hp
      obtain ⟨-, hname, -, hvalue⟩ := (List.forall₂_iff_zip.mp hsupplies).2 hmem
      exact ⟨param.str, hname, by rw [hvalue]⟩
    · intro name hname
      obtain ⟨param, hparam, rfl⟩ := hall name hname
      obtain ⟨e, hzip⟩ := exists_mem_zip hsupplies.length_eq.le hparam
      obtain ⟨-, -, -, hvalue⟩ := (List.forall₂_iff_zip.mp hsupplies).2 hzip
      rw [← hvalue]
      exact List.mem_map_of_mem hzip

/-! ## Placeholders that are left -/

/-- What the argument gives for a name, if anything, is strings. -/
def GivesString (entries : List (String × Value)) (name : String) : Prop :=
  (∃ e, (name, e) ∈ entries) ∧ ∀ e, (name, e) ∈ entries → e.hasStr = true

/-- A call does not leave a placeholder: it returns an error, or else every name was given a string, and in the
text that it returns something stands in place of each placeholder. -/
def LeavesNone (template : String) (entries : List (String × Value)) (outcome : Checked Value) : Prop :=
  (∃ e, outcome = .error e) ∨
    ∃ result, outcome = .ok (.ofStr result) ∧
      (∀ name ∈ parameterNames template, GivesString entries name) ∧
      Replaces.Each parameterAt (entries.map fun p => ((placeholder p.1).toList, p.2.str.toList))
        template.toList result.toList

/-- What the argument of `PromptTemplate` gives: itself, for the one placeholder of the template, or its
elements, for their labels. -/
def promptEntries (template : String) (arg : Value) : List (String × Value) :=
  if Univariate template then [((parameterNames template).getLastD "", arg)]
  else arg.elements.map fun e => (e.label, e)

omit [ProtoText] in
/-- With a string for each name, what `absl::StrReplaceAll` makes of the template leaves none. -/
theorem InlineLibraries.Textual.leavesNone (h : libraries.Textual) {template : String}
    {entries : List (String × Value)} {replacements : List (String × String)}
    (hreplacements : replacements = entries.map fun p => (placeholder p.1, p.2.str))
    (hgiven : ∀ name ∈ parameterNames template, GivesString entries name) :
    LeavesNone template entries (.ok (.ofStr (libraries.strReplaceAll template replacements))) := by
  have hall : ∀ name ∈ parameterNames template, placeholder name ∈ replacements.map Prod.fst := by
    intro name hname
    obtain ⟨⟨e, he⟩, -⟩ := hgiven name hname
    rw [hreplacements, List.map_map]
    exact List.mem_map_of_mem (f := Prod.fst ∘ fun p => (placeholder p.1, p.2.str)) he
  have heach := h.strReplaceAll_each hall
  rw [hreplacements, List.map_map] at heach
  rw [← hreplacements] at heach
  exact .inr ⟨_, rfl, hgiven, heach⟩

omit [ProtoText] in
theorem promptTemplate_leavesNone_iff (h : libraries.Textual) (intr : Intrinsic) (arg : Value) :
    LeavesNone intr.parameter.str (promptEntries intr.parameter.str arg)
        ((promptTemplate libraries).executeCall intr arg) ↔
      Univariate intr.parameter.str ∨
        ∀ name ∈ parameterNames intr.parameter.str,
          GivesString (arg.elements.map fun e => (e.label, e)) name := by
  by_cases hone : Univariate intr.parameter.str
  · refine ⟨fun _ => .inl hone, fun _ => ?_⟩
    rw [promptEntries, if_pos hone]
    by_cases hstr : arg.hasStr = true
    -- one placeholder, however often it occurs, is filled with the string itself
    · obtain ⟨hlast, hsame, -⟩ := hone.getLastD_eq
      rw [promptTemplate_univariate h hone hstr]
      refine h.leavesNone (by rw [hlast]; rfl) fun name hname => ?_
      rw [hsame name hname]
      refine ⟨⟨arg, List.mem_singleton_self _⟩, fun e he => ?_⟩
      rw [(Prod.mk.inj (List.mem_singleton.mp he)).2]
      exact hstr
    · have hone' := hone
      unfold Univariate at hone'
      left
      simp only [promptTemplate, h.findParameters]
      rw [if_pos hone', if_pos (by simpa using hstr)]
      exact ⟨_, rfl⟩
  · rw [promptTemplate_multivariate h arg hone, promptEntries, if_neg hone]
    constructor
    · rintro (⟨e, herror⟩ | ⟨result, -, hgiven, -⟩)
      · cases herror
      · exact .inr hgiven
    · intro hor
      exact h.leavesNone (by rw [List.map_map]; rfl) (hor.resolve_left hone)

/-- What the elements of the argument of `PromptTemplateWithParameters` give, by their positions. -/
def parameterEntries (params elements : List Value) : List (String × Value) :=
  (params.zip elements).map fun p => (p.1.str, p.2)

theorem promptTemplateWithParameters_wellFormed {intr : Intrinsic}
    (h : (promptTemplateWithParameters libraries).checkWellFormed intr = .ok ()) :
    ∃ templatePb paramsPb, intr.parameter.elements = [templatePb, paramsPb] ∧
      ∀ param ∈ paramsPb.elements, param.hasStr = true := by
  simp only [promptTemplateWithParameters] at h
  split at h
  · cases h
  split at h
  · cases h
  next hlength =>
  obtain ⟨templatePb, paramsPb, hparameter⟩ := List.length_eq_two.mp (not_not.mp hlength)
  refine ⟨templatePb, paramsPb, hparameter, ?_⟩
  rw [hparameter] at h
  simp only [Checked.withElement, List.getElem?_cons_zero, List.getElem?_cons_succ] at h
  repeat' split at h
  all_goals cases h
  next hall => simpa using hall

/-- What a call of `PromptTemplateWithParameters` asks of its argument. -/
def Fits (params : List Value) (arg : Value) : Prop :=
  arg.hasStruct = true ∧ params.length = arg.elements.length ∧ ∀ e ∈ arg.elements, e.hasStr = true

theorem promptTemplateWithParameters_error {intr : Intrinsic} {arg templatePb paramsPb : Value}
    (hparameter : intr.parameter.elements = [templatePb, paramsPb])
    (hparams : ∀ param ∈ paramsPb.elements, param.hasStr = true)
    (h : templatePb.str = "" ∨ ¬Fits paramsPb.elements arg) :
    ∃ status, (promptTemplateWithParameters libraries).executeCall intr arg = .error status := by
  simp only [promptTemplateWithParameters, hparameter, Checked.withElement, List.getElem?_cons_zero,
    List.getElem?_cons_succ]
  split
  · exact ⟨_, rfl⟩
  next hne =>
  split
  · exact ⟨_, rfl⟩
  next hstruct =>
  split
  · exact ⟨_, rfl⟩
  next hlength =>
  -- the template is there and the counts agree, so some element is no string
  have hstrings : ¬∀ e ∈ arg.elements, e.hasStr = true := by
    intro hall
    exact (h.resolve_left hne) ⟨by simpa using hstruct, not_not.mp hlength, hall⟩
  obtain ⟨status, hstatus⟩ := parameterReplacements_error (List.drop_zero (l := arg.elements))
    (not_not.mp hlength) hstrings hparams
  rw [hstatus]
  exact ⟨status, rfl⟩

theorem promptTemplateWithParameters_leavesNone_iff (h : libraries.Textual) {intr : Intrinsic}
    {arg templatePb paramsPb : Value} (hparameter : intr.parameter.elements = [templatePb, paramsPb])
    (hparams : ∀ param ∈ paramsPb.elements, param.hasStr = true) :
    LeavesNone templatePb.str (parameterEntries paramsPb.elements arg.elements)
        ((promptTemplateWithParameters libraries).executeCall intr arg) ↔
      ¬Fits paramsPb.elements arg ∨
        ∀ name ∈ parameterNames templatePb.str, ∃ param ∈ paramsPb.elements, param.str = name := by
  by_cases herror : templatePb.str = "" ∨ ¬Fits paramsPb.elements arg
  · refine ⟨fun _ => ?_, fun _ => .inl (promptTemplateWithParameters_error hparameter hparams herror)⟩
    rcases herror with hempty | hunfit
    · right
      rw [hempty]
      exact fun _ h => (nomatch h)
    · exact .inl hunfit
  · obtain ⟨hne, hfits⟩ := not_or.mp herror
    have hfits' := not_not.mp hfits
    obtain ⟨hstruct, hlength, hstrings⟩ := hfits'
    -- each parameter has its value, so the call fills the template
    have hall : List.Forall₂ (fun param e => param.hasStr = true ∧ e.hasStr = true) paramsPb.elements
        arg.elements :=
      List.forall₂_iff_zip.mpr ⟨hlength, fun hmem =>
        ⟨hparams _ (List.of_mem_zip hmem).1, hstrings _ (List.of_mem_zip hmem).2⟩⟩
    rw [promptTemplateWithParameters_eq hparameter hne hstruct hall]
    constructor
    · rintro (⟨e, herror⟩ | ⟨result, -, hgiven, -⟩)
      · cases herror
      · right
        intro name hname
        obtain ⟨⟨e, he⟩, -⟩ := hgiven name hname
        obtain ⟨⟨param, e'⟩, hmem, heq⟩ := List.mem_map.mp he
        exact ⟨param, (List.of_mem_zip hmem).1, (Prod.mk.inj heq).1⟩
    · intro hor
      refine h.leavesNone (by rw [parameterEntries, List.map_map]; rfl) fun name hname => ?_
      obtain ⟨param, hparam, rfl⟩ := (hor.resolve_left hfits) name hname
      obtain ⟨e, hzip⟩ := exists_mem_zip hlength.le hparam
      refine ⟨⟨e, List.mem_map_of_mem hzip⟩, fun e' he' => ?_⟩
      obtain ⟨⟨param', e''⟩, hmem, heq⟩ := List.mem_map.mp he'
      rw [← (Prod.mk.inj heq).2]
      exact hstrings _ (List.of_mem_zip hmem).2

/-- **When a prompt leaves with its placeholders filled.** `PromptTemplate` refuses an argument only for a
template with one placeholder; else each placeholder must be the label of an element, and all elements with
the label be strings. `PromptTemplateWithParameters` refuses an argument that does not fit its parameters;
else each placeholder must be among them, which it does not check. -/
theorem prompts_leaveNone_iff (h : libraries.Textual) (intr : Intrinsic) (arg : Value) :
    ((promptTemplate libraries).checkWellFormed intr = .ok () →
      (LeavesNone intr.parameter.str (promptEntries intr.parameter.str arg)
          ((promptTemplate libraries).executeCall intr arg) ↔
        Univariate intr.parameter.str ∨
          ∀ name ∈ parameterNames intr.parameter.str,
            GivesString (arg.elements.map fun e => (e.label, e)) name)) ∧
    ((promptTemplateWithParameters libraries).checkWellFormed intr = .ok () →
      ∃ templatePb paramsPb, intr.parameter.elements = [templatePb, paramsPb] ∧
        (LeavesNone templatePb.str (parameterEntries paramsPb.elements arg.elements)
            ((promptTemplateWithParameters libraries).executeCall intr arg) ↔
          ¬Fits paramsPb.elements arg ∨
            ∀ name ∈ parameterNames templatePb.str, ∃ param ∈ paramsPb.elements, param.str = name)) := by
  refine ⟨fun _ => promptTemplate_leavesNone_iff h intr arg, fun hwf => ?_⟩
  obtain ⟨templatePb, paramsPb, hparameter, hparams⟩ := promptTemplateWithParameters_wellFormed hwf
  exact ⟨templatePb, paramsPb, hparameter,
    promptTemplateWithParameters_leavesNone_iff h hparameter hparams⟩

end

/-! ## Examples -/

/-- A string with a label. -/
def labelled (label s : String) : Value := .scalar { label := label } (.str s)

def promptOf (template : String) : Intrinsic := ⟨"prompt_template", some (.ofStr template)⟩

def promptWith (template : String) (names : List String) : Intrinsic :=
  ⟨"prompt_template_with_parameters", some (.ofStruct [.ofStr template, .ofStruct (names.map .ofStr)])⟩

/-- Values that look like placeholders. -/
def swapped (name : String) : String := if name = "a" then placeholder "b" else placeholder "a"

/-- The placeholders in the values stay. -/
theorem templates_fill_swapped :
    let _ := ProtoText.silent
    let template := placeholder "a" ++ "-" ++ placeholder "b"
    let filled : Checked Value := .ok (.ofStr (placeholder "b" ++ "-" ++ placeholder "a"))
    (promptTemplate .texts).executeCall (promptOf template)
        (.ofStruct [labelled "b" (placeholder "a"), labelled "a" (placeholder "b")]) = filled ∧
    (promptTemplate .texts).executeCall (promptOf (placeholder "a")) (.ofStr (placeholder "b")) =
      .ok (.ofStr (placeholder "b")) ∧
    (promptTemplateWithParameters .texts).executeCall (promptWith template ["b", "a"])
        (.ofStruct [.ofStr (placeholder "a"), .ofStr (placeholder "b")]) = filled := by
  intro _ template filled
  have hlaws := InlineLibraries.texts_textual
  have hfilled : fillTemplate swapped template = placeholder "b" ++ "-" ++ placeholder "a" := by decide +kernel
  have hone : fillTemplate swapped (placeholder "a") = placeholder "b" := by decide +kernel
  refine ⟨?_, ?_, ?_⟩
  · rw [(templates_fill hlaws swapped (promptOf template) _).1 (by decide +kernel) (by decide +kernel)
      (by decide +kernel)]
    exact congrArg (fun text => Checked.ok (Value.ofStr text)) hfilled
  · rw [(templates_fill hlaws swapped (promptOf (placeholder "a")) (.ofStr (placeholder "b"))).2.1
      (by decide +kernel) rfl (by decide +kernel)]
    exact congrArg (fun text => Checked.ok (Value.ofStr text)) hone
  · rw [(templates_fill hlaws swapped (promptWith template ["b", "a"]) _).2.2 (.ofStr template)
      (.ofStruct [.ofStr "b", .ofStr "a"]) rfl (by decide +kernel) rfl
      (.cons (by decide +kernel) (.cons (by decide +kernel) .nil)) (by decide +kernel)]
    exact congrArg (fun text => Checked.ok (Value.ofStr text)) hfilled

/-- The empty template has no placeholder that could lack a string; one handler fills it, the other does not. -/
theorem empty_template_refused :
    let _ := ProtoText.silent
    parameterNames "" = [] ∧
    (promptTemplate .texts).executeCall (promptOf "") (.ofStruct [labelled "a" "1", labelled "b" "2"]) =
      .ok (.ofStr "") ∧
    (promptTemplateWithParameters .texts).checkWellFormed (promptWith "" ["a", "b"]) = .ok () ∧
    (promptTemplateWithParameters .texts).executeCall (promptWith "" ["a", "b"])
        (.ofStruct [.ofStr "1", .ofStr "2"]) =
      .error (.invalidArgument "The template string is empty.") := by
  intro _
  exact ⟨rfl, rfl, rfl, rfl⟩

/-- Both checks are passed, and both prompts leave with a placeholder that nothing was given for. -/
theorem placeholder_left :
    let _ := ProtoText.silent
    let missing := placeholder "a" ++ placeholder "b"
    let one : Value := .ofStruct [labelled "a" "1"]
    let misspelt := placeholder "a" ++ placeholder "c"
    let two : Value := .ofStruct [.ofStr "1", .ofStr "2"]
    ((promptTemplate .texts).checkWellFormed (promptOf missing) = .ok () ∧
      (promptTemplate .texts).executeCall (promptOf missing) one = .ok (.ofStr ("1" ++ placeholder "b")) ∧
      ¬LeavesNone missing (promptEntries missing one)
        ((promptTemplate .texts).executeCall (promptOf missing) one)) ∧
    (promptTemplateWithParameters .texts).checkWellFormed (promptWith misspelt ["a", "b"]) = .ok () ∧
      (promptTemplateWithParameters .texts).executeCall (promptWith misspelt ["a", "b"]) two =
        .ok (.ofStr ("1" ++ placeholder "c")) ∧
      ¬LeavesNone misspelt (parameterEntries [.ofStr "a", .ofStr "b"] [.ofStr "1", .ofStr "2"])
        ((promptTemplateWithParameters .texts).executeCall (promptWith misspelt ["a", "b"]) two) := by
  intro _ missing one misspelt two
  have hlaws := InlineLibraries.texts_textual
  have hparameter : (promptWith misspelt ["a", "b"]).parameter.elements =
      [.ofStr misspelt, .ofStruct [.ofStr "a", .ofStr "b"]] := rfl
  refine ⟨⟨rfl, ?_, ?_⟩, rfl, ?_, ?_⟩
  · have hmany : ¬Univariate (promptOf missing).parameter.str := by decide +kernel
    have htext : strReplaceAll missing [(placeholder "a", "1")] = "1" ++ placeholder "b" := by decide +kernel
    rw [promptTemplate_multivariate hlaws one hmany]
    exact congrArg (fun text => Checked.ok (Value.ofStr text)) htext
  · intro hleaves
    rcases (promptTemplate_leavesNone_iff hlaws (promptOf missing) one).mp hleaves with hone | hall
    · revert hone
      decide +kernel
    -- the argument has no element for the second placeholder
    · obtain ⟨⟨e, he⟩, -⟩ := hall "b" (by decide +kernel)
      simp [one, Value.ofStruct, labelled, Value.label] at he
  · have htext : strReplaceAll misspelt [(placeholder "a", "1"), (placeholder "b", "2")] =
        "1" ++ placeholder "c" := by decide +kernel
    rw [promptTemplateWithParameters_eq hparameter (by decide +kernel) rfl
      (.cons ⟨rfl, rfl⟩ (.cons ⟨rfl, rfl⟩ .nil))]
    exact congrArg (fun text => Checked.ok (Value.ofStr text)) htext
  · intro hleaves
    have hparams : ∀ param ∈ (Value.ofStruct [.ofStr "a", .ofStr "b"]).elements, param.hasStr = true := by
      decide +kernel
    rcases (promptTemplateWithParameters_leavesNone_iff hlaws hparameter hparams).mp hleaves with hunfit | hall
    · exact hunfit ⟨rfl, rfl, by decide +kernel⟩
    · exact absurd (hall "c" (by decide +kernel)) (by decide +kernel)

/-- A label for each placeholder; then the parameters, listed. -/
theorem prompts_leaveNone_iff_given :
    let _ := ProtoText.silent
    let template := placeholder "a" ++ placeholder "b"
    let arg : Value := .ofStruct [labelled "a" "1", labelled "b" "2"]
    LeavesNone template (promptEntries template arg)
        ((promptTemplate .texts).executeCall (promptOf template) arg) ∧
      LeavesNone template (parameterEntries [.ofStr "a", .ofStr "b"] arg.elements)
        ((promptTemplateWithParameters .texts).executeCall (promptWith template ["a", "b"]) arg) := by
  intro _ template arg
  have hlaws := InlineLibraries.texts_textual
  constructor
  · have hnames : parameterNames template = ["a", "b"] := by decide +kernel
    refine ((prompts_leaveNone_iff hlaws (promptOf template) arg).1 rfl).mpr (.inr ?_)
    show ∀ name ∈ parameterNames template, GivesString [("a", labelled "a" "1"), ("b", labelled "b" "2")] name
    rw [hnames]
    intro name hname
    have hcases : name = "a" ∨ name = "b" := by simpa using hname
    rcases hcases with rfl | rfl <;> simp [GivesString, labelled, Value.hasStr]
  · obtain ⟨templatePb, paramsPb, hparameter, hiff⟩ :=
      (prompts_leaveNone_iff hlaws (promptWith template ["a", "b"]) arg).2 rfl
    obtain ⟨rfl, rfl⟩ : Value.ofStr template = templatePb ∧
        Value.ofStruct [.ofStr "a", .ofStr "b"] = paramsPb := by
      simpa [promptWith, Intrinsic.parameter, Value.ofStruct, Value.elements] using hparameter
    exact hiff.mpr (.inr (by decide +kernel))

end GenC
