import GenC.Lib.Regex
import GenC.Proto.Value

/-!
# ReAct

`modules/agents/react.cc`: what is made of the output of a model. A thought and an action are searched for
before the first observation, which the model may have made up.

**`cutsOff`**: a thought line and an action line come out, both of them from before the first observation, which
is all that the output depends on.

**`idempotent_iff`**: parsing what came out gives the same again, exactly when there were a thought and an
action, and the thought does not have another action in it.
-/

namespace GenC

open Lib

namespace ReAct

/-! ## RE2 -/

/-- `\s` -/
def isSpace (c : Char) : Bool := c ∈ ['\t', '\n', '\x0c', '\r', ' ']

/-- `.`, and `[^\n]` -/
def isNotNewline (c : Char) : Bool := c != '\n'

def isNewline (c : Char) : Bool := c == '\n'

/-- `RE2::PartialMatch`, with what the group took. -/
def partialMatch (pattern : Regex) (text : List Char) : Option (List Char) :=
  (pattern.found text).map (·.getD [])

/-- `Thought:\s*(?:\n)?(.*?)\n` -/
def thoughtPattern : Regex :=
  .concat (.literal "Thought:".toList) (.concat (.star isSpace) (.concat (.optional (.char isNewline))
    (.concat (.group (.lazyStar isNotNewline)) (.char isNewline))))

/-- `Action:\s*(?:\n)?([^\n]+)` -/
def actionPattern : Regex :=
  .concat (.literal "Action:".toList) (.concat (.star isSpace) (.concat (.optional (.char isNewline))
    (.group (.concat (.char isNotNewline) (.star isNotNewline)))))

/-- `(Finish\[.*?\])` -/
def finishPattern : Regex :=
  .group (.concat (.literal "Finish[".toList) (.concat (.lazyStar isNotNewline) (.char (· == ']'))))

/-! ## The code -/

/-- `std::string::find`. `none` is `npos`. -/
def find (s : List Char) : List Char → Option Nat
  | [] => if s = [] then some 0 else none
  | c :: text => if s <+: c :: text then some 0 else (find s text).map (· + 1)

def beforeFirstObservationOrOriginalText (text : List Char) : List Char :=
  match find "Observation".toList text with
  | some pos => text.take pos
  | none => text

def extractFinish (text : List Char) : List Char := (partialMatch finishPattern text).getD []

/-- `Thought: %s\nAction: %s\n` -/
def thoughtAction (thought action : List Char) : List Char :=
  "Thought: ".toList ++ thought ++ "\nAction: ".toList ++ action ++ "\n".toList

def thoughtOf (sanitizedInput : List Char) : List Char := (partialMatch thoughtPattern sanitizedInput).getD []

def actionOf (sanitizedInput : List Char) : List Char :=
  match partialMatch actionPattern sanitizedInput with
  | some action => action
  | none => extractFinish sanitizedInput

def parseThoughtActionText (text : List Char) : List Char :=
  let sanitizedInput := beforeFirstObservationOrOriginalText text
  thoughtAction (thoughtOf sanitizedInput) (actionOf sanitizedInput)

def parseThoughtAction (input : Value) : StatusOr Value :=
  .ok (.ofStr (String.ofList (parseThoughtActionText input.str.toList)))

/-- `Observation: %s\n` -/
def formatObservation (input : Value) : StatusOr Value := .ok (.ofStr ("Observation: " ++ input.str ++ "\n"))

/-! ## The first observation -/

/-- What comes before the first `marker`, or everything. -/
structure IsBefore (marker text part : List Char) : Prop where
  free : ¬marker <:+: part
  text_eq : text = part ∨ ∃ rest, text = part ++ (marker ++ rest)

theorem find_eq_none {s text : List Char} (h : ¬s <:+: text) : find s text = none := by
  induction text with
  | nil =>
      refine if_neg ?_
      rintro rfl
      exact h List.nil_infix
  | cons c text ih =>
      rw [find, if_neg fun hprefix => h hprefix.isInfix,
        ih fun hoccurs => h (hoccurs.trans (List.suffix_cons c text).isInfix)]
      rfl

theorem find_append {head : Char} {tail before : List Char} (hhead : head ∉ tail)
    (h : ¬head :: tail <:+: before) (rest : List Char) :
    find (head :: tail) (before ++ (head :: tail ++ rest)) = some before.length := by
  induction before with
  | nil => exact if_pos (List.prefix_append _ _)
  | cons c before ih =>
      have hnot := @not_prefix_append before rest tail c head hhead h
      rw [List.cons_append] at hnot
      rw [List.cons_append, find, if_neg hnot,
        ih fun hoccurs => h (hoccurs.trans (List.suffix_cons c before).isInfix)]
      rfl

theorem observation_eq : "Observation".toList = 'O' :: "bservation".toList := by decide

theorem before_eq_iff {text part : List Char} :
    beforeFirstObservationOrOriginalText text = part ↔ IsBefore "Observation".toList text part := by
  -- the text is cut at the first marker, if there is one
  have hnone {text : List Char} (h : ¬"Observation".toList <:+: text) :
      beforeFirstObservationOrOriginalText text = text := by
    rw [beforeFirstObservationOrOriginalText, find_eq_none h]
  have hsome {before : List Char} (h : ¬"Observation".toList <:+: before) (rest : List Char) :
      beforeFirstObservationOrOriginalText (before ++ ("Observation".toList ++ rest)) = before := by
    rw [observation_eq] at h ⊢
    rw [beforeFirstObservationOrOriginalText, observation_eq, find_append (by decide) h]
    exact List.take_left
  constructor
  · rintro rfl
    by_cases h : "Observation".toList <:+: text
    · obtain ⟨before, after, rfl, hfree⟩ := exists_first h (by decide)
      rw [hsome hfree]
      exact ⟨hfree, .inr ⟨after, rfl⟩⟩
    · rw [hnone h]
      exact ⟨h, .inl rfl⟩
  · rintro ⟨hfree, rfl | ⟨rest, rfl⟩⟩
    · exact hnone hfree
    · exact hsome hfree rest

/-! ## The output -/

variable {text part : List Char}

theorem not_newline_of_isNotNewline (c : Char) (h : isNotNewline c = true) : c ≠ '\n' := bne_iff_ne.mp h

theorem capturesOver_thoughtPattern : thoughtPattern.CapturesOver (· ≠ '\n') :=
  ⟨trivial, trivial, trivial, not_newline_of_isNotNewline, trivial⟩

theorem capturesOver_actionPattern : actionPattern.CapturesOver (· ≠ '\n') :=
  ⟨trivial, trivial, trivial, not_newline_of_isNotNewline, not_newline_of_isNotNewline⟩

theorem capturesOver_finishPattern : finishPattern.CapturesOver (· ≠ '\n') := by
  refine ⟨?_, not_newline_of_isNotNewline, ?_⟩
  · have hliteral : '\n' ∉ "Finish[".toList := by decide
    rintro c hc rfl
    exact hliteral hc
  · intro c h
    rw [beq_iff_eq.mp h]
    decide

theorem of_partialMatch {pattern : Regex} (hpattern : pattern.CapturesOver (· ≠ '\n'))
    (h : partialMatch pattern text = some part) : part <:+: text ∧ '\n' ∉ part := by
  obtain ⟨captured, hfound, rfl⟩ := Option.map_eq_some_iff.mp h
  obtain ⟨m, hm, rfl⟩ := Option.map_eq_some_iff.mp hfound
  cases hcaptured : m.captured with
  | none => exact ⟨List.nil_infix, List.not_mem_nil⟩
  | some part =>
      obtain ⟨hoccurs, hpart⟩ := hpattern.search hm hcaptured
      exact ⟨hoccurs, fun hmem => hpart '\n' hmem rfl⟩

theorem of_partialMatch_getD {pattern : Regex} (hpattern : pattern.CapturesOver (· ≠ '\n')) (text : List Char) :
    (partialMatch pattern text).getD [] <:+: text ∧ '\n' ∉ (partialMatch pattern text).getD [] := by
  cases h : partialMatch pattern text with
  | none => exact ⟨List.nil_infix, List.not_mem_nil⟩
  | some part => exact of_partialMatch hpattern h

theorem thoughtOf_spec (text : List Char) : thoughtOf text <:+: text ∧ '\n' ∉ thoughtOf text :=
  of_partialMatch_getD capturesOver_thoughtPattern text

theorem actionOf_spec (text : List Char) : actionOf text <:+: text ∧ '\n' ∉ actionOf text := by
  unfold actionOf
  split
  · next action h => exact of_partialMatch capturesOver_actionPattern h
  · exact of_partialMatch_getD capturesOver_finishPattern text

theorem thoughtAction_eq (thought action : List Char) : thoughtAction thought action =
    "Thought:".toList ++ ' ' :: (thought ++ '\n' :: ("Action:".toList ++ ' ' :: (action ++ '\n' :: []))) := by
  have hthought : "Thought: ".toList = "Thought:".toList ++ [' '] := by decide
  have haction : "\nAction: ".toList = '\n' :: ("Action:".toList ++ [' ']) := by decide
  have hnewline : "\n".toList = ['\n'] := by decide
  unfold thoughtAction
  rw [hthought, haction, hnewline]
  simp only [List.append_assoc, List.cons_append, List.nil_append]

/-- A marker without spaces or line ends is in the output only as part of the thought or of the action. -/
theorem infix_thoughtAction {marker thought action : List Char} (hspace : ' ' ∉ marker)
    (hnewline : '\n' ∉ marker)
    (h : marker <:+: thoughtAction thought action) :
    marker <:+: "Thought:".toList ∨ marker <:+: thought ∨
      marker <:+: "Action:".toList ∨ marker <:+: action := by
  rw [thoughtAction_eq] at h
  rcases infix_append_cons hspace h with h | h
  · exact .inl h
  rcases infix_append_cons hnewline h with h | h
  · exact .inr (.inl h)
  rcases infix_append_cons hspace h with h | h
  · exact .inr (.inr (.inl h))
  rcases infix_append_cons hnewline h with h | h
  · exact .inr (.inr (.inr h))
  · exact .inl (h.trans List.nil_infix)

/-- The texts agree up to the first observation, if there is one. -/
def AgreeBeforeObservation (text text' : List Char) : Prop :=
  ∃ part, IsBefore "Observation".toList text part ∧ IsBefore "Observation".toList text' part

theorem isBefore_before (text : List Char) :
    IsBefore "Observation".toList text (beforeFirstObservationOrOriginalText text) := before_eq_iff.mp rfl

theorem not_observation (text : List Char) : ¬"Observation".toList <:+: parseThoughtActionText text := by
  intro h
  have hfree := (isBefore_before text).free
  rcases infix_thoughtAction (by decide) (by decide) h with h | h | h | h
  · exact absurd h (by decide)
  · exact hfree (h.trans (thoughtOf_spec _).1)
  · exact absurd h (by decide)
  · exact hfree (h.trans (actionOf_spec _).1)

/-- **Observations are cut off.** -/
theorem cutsOff :
    (∀ input : Value, ∃ part output thought action, IsBefore "Observation".toList input.str.toList part ∧
      parseThoughtAction input = .ok (.ofStr output) ∧ output.toList = thoughtAction thought action ∧
      '\n' ∉ thought ∧ '\n' ∉ action ∧ thought <:+: part ∧ action <:+: part ∧
      ¬"Observation".toList <:+: output.toList) ∧
    ∀ input input' : Value, AgreeBeforeObservation input.str.toList input'.str.toList →
      parseThoughtAction input = parseThoughtAction input' := by
  constructor
  · intro input
    let part := beforeFirstObservationOrOriginalText input.str.toList
    obtain ⟨hthought, hthought'⟩ := thoughtOf_spec part
    obtain ⟨haction, haction'⟩ := actionOf_spec part
    have houtput := @String.toList_ofList (parseThoughtActionText input.str.toList)
    refine ⟨part, String.ofList (parseThoughtActionText input.str.toList), thoughtOf part, actionOf part,
      isBefore_before _, rfl, houtput, hthought', haction', hthought, haction, ?_⟩
    rw [houtput]
    exact not_observation _
  · rintro input input' ⟨part, hpart, hpart'⟩
    rw [← before_eq_iff] at hpart hpart'
    unfold parseThoughtAction parseThoughtActionText
    rw [hpart, hpart']

theorem cutsOff_made_up : parseThoughtAction (.ofStr "Thought: t\nAction: a\nObservation: b") =
    parseThoughtAction (.ofStr "Thought: t\nAction: a\nObservation: c") := by
  refine cutsOff.2 _ _ ⟨"Thought: t\nAction: a\n".toList, ?_, ?_⟩
  · exact ⟨by decide, .inr ⟨": b".toList, by decide⟩⟩
  · exact ⟨by decide, .inr ⟨": c".toList, by decide⟩⟩

/-! ## After a marker -/

/-- `(.*?)\n` -/
abbrev line : Regex := .concat (.group (.lazyStar isNotNewline)) (.char isNewline)

/-- `([^\n]+)` -/
abbrev characters : Regex := .group (.concat (.char isNotNewline) (.star isNotNewline))

/-- `(?:\n)?` and what follows. -/
abbrev maybeOnNextLine (content : Regex) : Regex := .concat (.optional (.char isNewline)) content

/-- `\s*(?:\n)?` and what follows. -/
abbrev afterSpace (content : Regex) : Regex := .concat (.star isSpace) (maybeOnNextLine content)

section AfterMarker

variable {c : Char} {rest : List Char} {result : Option (List Char)}

theorem isNotNewline_of_not_isSpace (h : isSpace c = false) : isNotNewline c = true := by
  rw [isNotNewline, bne_iff_ne]
  rintro rfl
  cases h

theorem takeWhile_isNotNewline (h : '\n' ∉ part) (rest : List Char) :
    (part ++ '\n' :: rest).takeWhile isNotNewline = part := by
  have hpart : ∀ c ∈ part, isNotNewline c = true := by
    intro c hc
    rw [isNotNewline, bne_iff_ne]
    rintro rfl
    exact h hc
  rw [List.takeWhile_append_of_pos hpart, List.takeWhile_cons_of_neg (by decide), List.append_nil]

theorem line_captured (h : '\n' ∉ part) (rest : List Char) :
    line.captured (part ++ '\n' :: rest) = some (some part) := by
  refine Regex.captured_lazyGroup ?_ (by decide) rest
  intro c hc
  have hne : c ≠ '\n' := by
    rintro rfl
    exact h hc
  exact ⟨bne_iff_ne.mpr hne, beq_eq_false_iff_ne.mpr hne⟩

theorem line_captured_eq_none (h : '\n' ∉ text) : line.captured text = none := by
  refine Regex.captured_lazyGroup_eq_none ?_
  intro c hc
  rw [isNewline, beq_eq_false_iff_ne]
  rintro rfl
  exact h hc

theorem maybeOnNextLine_of_ne (content : Regex) (h : c ≠ '\n') (rest : List Char) :
    (maybeOnNextLine content).captured (c :: rest) = content.captured (c :: rest) := by
  have hc : isNewline c = false := beq_eq_false_iff_ne.mpr h
  rw [Regex.captured_optional, Regex.captured_char_eq_none hc, Option.none_or]

theorem maybeOnNextLine_newline (content : Regex) (rest : List Char) :
    (maybeOnNextLine content).captured ('\n' :: rest) =
      (content.captured rest).or (content.captured ('\n' :: rest)) := by
  rw [Regex.captured_optional, Regex.captured_char (by decide)]

theorem afterSpace_nil (content : Regex) : (afterSpace content).captured [] = content.captured [] := by
  rw [Regex.captured_star_nil, Regex.captured_optional, Regex.captured_char_nil, Option.none_or]

theorem afterSpace_of_not_isSpace (content : Regex) (h : isSpace c = false) (rest : List Char) :
    (afterSpace content).captured (c :: rest) = content.captured (c :: rest) := by
  have hne : c ≠ '\n' := bne_iff_ne.mp (isNotNewline_of_not_isSpace h)
  rw [Regex.captured_star_of_not h, maybeOnNextLine_of_ne content hne]

/-- White space is skipped when there is something to capture behind it. -/
theorem afterSpace_of_isSpace {content : Regex} (h : isSpace c = true)
    (hrest : (afterSpace content).captured rest = some result) :
    (afterSpace content).captured (c :: rest) = some result := by
  rw [Regex.captured_star h, hrest, Option.some_or]

theorem afterSpace_back {content : Regex} (h : isSpace c = true)
    (hrest : (afterSpace content).captured rest = none) :
    (afterSpace content).captured (c :: rest) = (maybeOnNextLine content).captured (c :: rest) := by
  rw [Regex.captured_star h, hrest, Option.none_or]

/-! ### Thoughts -/

theorem exists_line (h : '\n' ∈ text) :
    ∃ part rest, text = part ++ '\n' :: rest ∧ '\n' ∉ part ∧ line.captured text = some (some part) := by
  obtain ⟨part, rest, rfl, hfree⟩ := List.eq_append_cons_of_mem h
  exact ⟨part, rest, rfl, hfree, line_captured hfree rest⟩

theorem line_afterSpace_ne_none (h : '\n' ∈ text) : (afterSpace line).captured text ≠ none := by
  induction text with
  | nil => cases h
  | cons c text ih =>
      cases hc : isSpace c with
      | true =>
          intro hnone
          -- the star may take this space or stop in front of it
          have hrest : (afterSpace line).captured text = none := by
            rw [Regex.captured_star hc] at hnone
            exact (Option.or_eq_none_iff.mp hnone).1
          rcases List.mem_cons.mp h with rfl | hmem
          · rw [afterSpace_back hc hrest, maybeOnNextLine_newline] at hnone
            cases (Option.or_eq_none_iff.mp hnone).2.symm.trans (@line_captured [] List.not_mem_nil text)
          · exact ih hmem hrest
      | false =>
          obtain ⟨part, -, -, -, hline⟩ := exists_line h
          rw [afterSpace_of_not_isSpace line hc, hline]
          exact Option.some_ne_none _

/-- A thought is empty, or begins with something that is not white space. -/
theorem of_line_afterSpace (h : (afterSpace line).captured text = some result) :
    ∃ thought, result = some thought ∧ ∀ c ∈ thought.head?, isSpace c = false := by
  induction text with
  | nil =>
      rw [afterSpace_nil, line_captured_eq_none List.not_mem_nil] at h
      cases h
  | cons c text ih =>
      cases hc : isSpace c with
      | true =>
          cases hrest : (afterSpace line).captured text with
          | some result' =>
              rw [afterSpace_of_isSpace hc hrest] at h
              exact ih (hrest.trans h)
          | none =>
              have hnot : '\n' ∉ text := fun hmem => line_afterSpace_ne_none hmem hrest
              rw [afterSpace_back hc hrest] at h
              by_cases hnewline : c = '\n'
              · -- the line end that the white space began with is the end of an empty line
                subst hnewline
                have hempty : line.captured ('\n' :: text) = some (some []) :=
                  line_captured List.not_mem_nil text
                rw [maybeOnNextLine_newline, line_captured_eq_none hnot, Option.none_or, hempty] at h
                cases h
                exact ⟨[], rfl, nofun⟩
              · have hnot' : '\n' ∉ c :: text := List.not_mem_cons_of_ne_of_not_mem (Ne.symm hnewline) hnot
                rw [maybeOnNextLine_of_ne line hnewline, line_captured_eq_none hnot'] at h
                cases h
      | false =>
          rw [afterSpace_of_not_isSpace line hc] at h
          by_cases hmem : '\n' ∈ c :: text
          · obtain ⟨part, rest, heq, -, hline⟩ := exists_line hmem
            cases hline.symm.trans h
            refine ⟨part, rfl, ?_⟩
            intro c' hc'
            cases part with
            | nil => cases hc'
            | cons d part =>
                cases hc'
                rw [← (List.cons.inj heq).1]
                exact hc
          · rw [line_captured_eq_none hmem] at h
            cases h

/-! ### Actions -/

theorem characters_captured (h : isNotNewline c = true) (rest : List Char) :
    characters.captured (c :: rest) = some (some (c :: rest.takeWhile isNotNewline)) :=
  Regex.captured_plusGroup h rest

theorem characters_newline (rest : List Char) : characters.captured ('\n' :: rest) = none := by
  refine Regex.captured_plusGroup_eq_none ?_
  rintro c ⟨⟩
  rfl

theorem characters_nil : characters.captured [] = none := rfl

/-- Behind the white space, or else the last of it that is not a line end. -/
theorem characters_afterSpace_ne_none (h : c ≠ '\n') : (afterSpace characters).captured (c :: rest) ≠ none := by
  have hcaptured := characters_captured (bne_iff_ne.mpr h) rest
  cases hc : isSpace c with
  | true =>
      rw [Regex.captured_star hc, maybeOnNextLine_of_ne characters h, hcaptured]
      intro hnone
      cases (Option.or_eq_none_iff.mp hnone).2
  | false =>
      rw [afterSpace_of_not_isSpace characters hc, hcaptured]
      exact Option.some_ne_none _

/-- An action begins with something that is not white space, or is one character. -/
theorem of_characters_afterSpace (h : (afterSpace characters).captured text = some result) :
    ∃ c action, result = some (c :: action) ∧ (isSpace c = true → c ≠ '\n' ∧ action = []) := by
  induction text with
  | nil =>
      rw [afterSpace_nil, characters_nil] at h
      cases h
  | cons c text ih =>
      cases hc : isSpace c with
      | true =>
          cases hrest : (afterSpace characters).captured text with
          | some result' =>
              rw [afterSpace_of_isSpace hc hrest] at h
              exact ih (hrest.trans h)
          | none =>
              -- nothing but a line end can come next
              have htext : text.takeWhile isNotNewline = [] ∧ characters.captured text = none := by
                cases text with
                | nil => exact ⟨rfl, rfl⟩
                | cons d text =>
                    by_cases hd : d = '\n'
                    · subst hd
                      exact ⟨rfl, characters_newline text⟩
                    · exact absurd hrest (characters_afterSpace_ne_none hd)
              rw [afterSpace_back hc hrest] at h
              by_cases hnewline : c = '\n'
              · subst hnewline
                rw [maybeOnNextLine_newline, htext.2, characters_newline] at h
                cases h
              · rw [maybeOnNextLine_of_ne characters hnewline, characters_captured (bne_iff_ne.mpr hnewline),
                  htext.1] at h
                cases h
                exact ⟨c, [], rfl, fun _ => ⟨hnewline, rfl⟩⟩
      | false =>
          rw [afterSpace_of_not_isSpace characters hc,
            characters_captured (isNotNewline_of_not_isSpace hc)] at h
          cases h
          exact ⟨c, _, rfl, fun hspace => absurd (hc.symm.trans hspace) Bool.false_ne_true⟩

/-! ### What was parsed -/

theorem exists_afterMarker {marker : List Char} {content : Regex}
    (h : (Regex.concat (.literal marker) content).found text = some result) :
    ∃ rest, content.captured rest = some result := by
  obtain ⟨before, after, -, hcaptured⟩ := Regex.exists_of_found h
  by_cases hprefix : marker <+: after
  · obtain ⟨rest, rfl⟩ := hprefix
    rw [Regex.captured_literal] at hcaptured
    exact ⟨rest, hcaptured⟩
  · rw [Regex.captured_literal_eq_none hprefix] at hcaptured
    cases hcaptured

theorem head_thoughtOf (text : List Char) : ∀ c ∈ (thoughtOf text).head?, isSpace c = false := by
  intro c hc
  rw [thoughtOf, partialMatch] at hc
  cases hfound : thoughtPattern.found text with
  | none =>
      rw [hfound] at hc
      cases hc
  | some result =>
      obtain ⟨rest, hcaptured⟩ := exists_afterMarker hfound
      obtain ⟨thought, rfl, hthought⟩ := of_line_afterSpace hcaptured
      rw [hfound] at hc
      exact hthought c hc

/-- What an action of more than one character begins with. -/
theorem head_actionOf (text : List Char) : ∀ c rest, actionOf text = c :: rest →
    isSpace c = true → c ≠ '\n' ∧ rest = [] := by
  intro c rest haction hspace
  unfold actionOf at haction
  split at haction
  · next action hmatch =>
      obtain ⟨result, hfound, rfl⟩ := Option.map_eq_some_iff.mp hmatch
      -- an action starts after the spaces, unless it is one space
      obtain ⟨after, hcaptured⟩ := exists_afterMarker hfound
      obtain ⟨c', action, rfl, hone⟩ := of_characters_afterSpace hcaptured
      cases haction
      exact hone hspace
  -- otherwise it starts with the word Finish
  · have hfinish : "Finish[".toList <+: c :: rest := by
      rw [extractFinish, partialMatch] at haction
      cases hfound : finishPattern.found text with
      | none =>
          rw [hfound] at haction
          cases haction
      | some result =>
          rw [hfound] at haction
          obtain ⟨before, after, -, hcaptured⟩ := Regex.exists_of_found hfound
          cases result with
          | none => cases haction
          | some part =>
              rw [← haction]
              exact Regex.literal_prefix_of_captured hcaptured
    have hfirst : "Finish[".toList = 'F' :: "inish[".toList := by decide
    rw [hfirst] at hfinish
    rw [← (List.cons_prefix_cons.mp hfinish).1] at hspace
    cases hspace

end AfterMarker

/-! ## Parsing the output again -/

variable {thought action rest : List Char}

theorem thoughtOf_append (h : (afterSpace line).captured rest = some (some thought)) :
    thoughtOf ("Thought:".toList ++ rest) = thought := by
  have hcaptured : thoughtPattern.captured ("Thought:".toList ++ rest) = some (some thought) :=
    (Regex.captured_literal _ _).trans h
  rw [thoughtOf, partialMatch, Regex.found_of_captured hcaptured]
  rfl

/-- The first action is the one that is found. -/
theorem actionOf_append {before : List Char} (hfree : ¬"Action:".toList <:+: before)
    (h : (afterSpace characters).captured rest = some (some action)) :
    actionOf (before ++ ("Action:".toList ++ rest)) = action := by
  have hmarker : "Action:".toList = 'A' :: "ction:".toList := by decide
  have hcaptured : actionPattern.captured ("Action:".toList ++ rest) = some (some action) :=
    (Regex.captured_literal _ _).trans h
  have hfound : actionPattern.found (before ++ ("Action:".toList ++ rest)) = some (some action) := by
    rw [← Regex.found_of_captured hcaptured]
    unfold actionPattern
    rw [hmarker] at hfree ⊢
    exact Regex.found_append (by decide) hfree rest
  rw [actionOf, partialMatch, hfound]
  rfl

theorem afterSpace_space {content : Regex} {result : Option (List Char)}
    (h : (afterSpace content).captured rest = some result) :
    (afterSpace content).captured (' ' :: rest) = some result := afterSpace_of_isSpace (by decide) h

theorem thoughtOf_thoughtAction (hthought : '\n' ∉ thought) (hhead : ∀ c ∈ thought.head?, isSpace c = false)
    (hne : thought ≠ []) (action : List Char) : thoughtOf (thoughtAction thought action) = thought := by
  rw [thoughtAction_eq]
  refine thoughtOf_append (afterSpace_space ?_)
  cases thought with
  | nil => exact absurd rfl hne
  | cons c thought =>
      rw [List.cons_append, afterSpace_of_not_isSpace line (hhead c rfl)]
      exact line_captured hthought _

/-- Where there is no thought, the line of the action is taken for one. -/
theorem thoughtOf_thoughtAction_nil (haction : '\n' ∉ action) :
    thoughtOf (thoughtAction [] action) = "Action:".toList ++ ' ' :: action := by
  have hmarker : "Action:".toList = 'A' :: "ction:".toList := by decide
  rw [thoughtAction_eq]
  refine thoughtOf_append (afterSpace_space ?_)
  rw [List.nil_append]
  refine afterSpace_of_isSpace (by decide) ?_
  have hline : "Action:".toList ++ ' ' :: (action ++ ['\n']) =
      ("Action:".toList ++ ' ' :: action) ++ '\n' :: [] := by
    rw [List.append_assoc, List.cons_append]
  have hfree : '\n' ∉ "Action:".toList ++ ' ' :: action := by
    rw [List.mem_append, not_or]
    exact ⟨by decide, List.not_mem_cons_of_ne_of_not_mem (by decide) haction⟩
  have hcaptured := line_captured hfree []
  rw [hline]
  rw [hmarker] at hcaptured ⊢
  exact (afterSpace_of_not_isSpace line (by decide) _).trans hcaptured

theorem not_infix_thought (h : ¬"Action:".toList <:+: thought) :
    ¬"Action:".toList <:+: "Thought:".toList ++ ' ' :: (thought ++ ['\n']) := by
  intro hoccurs
  rcases infix_append_cons (by decide) hoccurs with hoccurs | hoccurs
  · exact absurd hoccurs (by decide)
  rcases infix_append_cons (by decide) hoccurs with hoccurs | hoccurs
  · exact h hoccurs
  · exact h (hoccurs.trans List.nil_infix)

theorem actionOf_thoughtAction (hfree : ¬"Action:".toList <:+: thought)
    (h : (afterSpace characters).captured (' ' :: (action ++ ['\n'])) = some (some part)) :
    actionOf (thoughtAction thought action) = part := by
  have heq : thoughtAction thought action = ("Thought:".toList ++ ' ' :: (thought ++ ['\n'])) ++
      ("Action:".toList ++ ' ' :: (action ++ ['\n'])) := by
    rw [thoughtAction_eq]
    simp only [List.append_assoc, List.cons_append, List.nil_append]
  rw [heq]
  exact actionOf_append (not_infix_thought hfree) h

theorem afterSpace_newline : (afterSpace characters).captured ['\n'] = none := by decide

theorem captured_action (haction : '\n' ∉ action) (hne : action ≠ [])
    (hhead : ∀ c rest, action = c :: rest → isSpace c = true → c ≠ '\n' ∧ rest = []) :
    (afterSpace characters).captured (' ' :: (action ++ ['\n'])) = some (some action) := by
  cases action with
  | nil => exact absurd rfl hne
  | cons c action =>
      obtain ⟨hc', haction'⟩ := List.ne_and_not_mem_of_not_mem_cons haction
      have hc : isNotNewline c = true := bne_iff_ne.mpr (Ne.symm hc')
      refine afterSpace_space ?_
      rw [List.cons_append]
      cases hspace : isSpace c with
      | true =>
          -- an action that is one space is what the star gives back
          obtain ⟨hnewline, rfl⟩ := hhead c action rfl hspace
          rw [List.nil_append, afterSpace_back hspace afterSpace_newline,
            maybeOnNextLine_of_ne characters hnewline, characters_captured hc]
          rfl
      | false =>
          rw [afterSpace_of_not_isSpace characters hspace, characters_captured hc,
            takeWhile_isNotNewline haction']

theorem captured_action_nil : (afterSpace characters).captured (' ' :: ([] ++ ['\n'])) = some (some [' ']) := by
  decide

/-- The action in the thought is what comes after its marker, or else the line of the other action. -/
theorem captured_inThought (hrest : '\n' ∉ rest) (haction : '\n' ∉ action) :
    (afterSpace characters).captured
        (rest ++ '\n' :: ("Action:".toList ++ ' ' :: (action ++ ['\n']))) =
      some (some (if rest.dropWhile isSpace = [] then "Action:".toList ++ ' ' :: action
        else rest.dropWhile isSpace)) := by
  induction rest with
  | nil =>
      have hmarker : "Action:".toList = 'A' :: "ction:".toList := by decide
      -- all spaces are taken, the end of the line with them, and the marker itself is captured
      have hline : '\n' ∉ "ction:".toList ++ ' ' :: action := by
        rw [List.mem_append, not_or]
        exact ⟨by decide, List.not_mem_cons_of_ne_of_not_mem (by decide) haction⟩
      have htakeWhile := takeWhile_isNotNewline hline []
      rw [List.append_assoc] at htakeWhile
      rw [List.dropWhile_nil, if_pos rfl, List.nil_append, hmarker]
      refine afterSpace_of_isSpace (by decide) ?_
      rw [List.cons_append, afterSpace_of_not_isSpace characters (by decide), characters_captured (by decide)]
      exact congrArg (fun line => some (some ('A' :: line))) htakeWhile
  | cons c rest ih =>
      obtain ⟨hc', hrest'⟩ := List.ne_and_not_mem_of_not_mem_cons hrest
      cases hspace : isSpace c with
      | true =>
          rw [List.dropWhile_cons_of_pos hspace]
          exact afterSpace_of_isSpace hspace (ih hrest')
      | false =>
          rw [List.dropWhile_cons_of_neg (by rw [hspace]; exact Bool.false_ne_true),
            if_neg (List.cons_ne_nil _ _),
            List.cons_append, afterSpace_of_not_isSpace characters hspace,
            characters_captured (bne_iff_ne.mpr (Ne.symm hc')), takeWhile_isNotNewline hrest']

theorem actionOf_inThought {before : List Char} (hfree : ¬"Action:".toList <:+: before) (hrest : '\n' ∉ rest)
    (haction : '\n' ∉ action) :
    actionOf (thoughtAction (before ++ ("Action:".toList ++ rest)) action) =
      if rest.dropWhile isSpace = [] then "Action:".toList ++ ' ' :: action else rest.dropWhile isSpace := by
  have heq : thoughtAction (before ++ ("Action:".toList ++ rest)) action =
      ("Thought:".toList ++ ' ' :: before) ++
        ("Action:".toList ++ (rest ++ '\n' :: ("Action:".toList ++ ' ' :: (action ++ ['\n'])))) := by
    rw [thoughtAction_eq]
    simp only [List.append_assoc, List.cons_append]
  have hfree' : ¬"Action:".toList <:+: "Thought:".toList ++ ' ' :: before := by
    intro hoccurs
    rcases infix_append_cons (by decide) hoccurs with hoccurs | hoccurs
    · exact absurd hoccurs (by decide)
    · exact hfree hoccurs
  rw [heq]
  exact actionOf_append hfree' (captured_inThought hrest haction)

theorem thoughtAction_inj {thought' action' : List Char} (hthought : '\n' ∉ thought)
    (hthought' : '\n' ∉ thought')
    (h : thoughtAction thought action = thoughtAction thought' action') :
    thought = thought' ∧ action = action' := by
  rw [thoughtAction_eq, thoughtAction_eq] at h
  have hrest := (List.cons.inj (List.append_cancel_left h)).2
  have hlines := congrArg (List.takeWhile isNotNewline) hrest
  rw [takeWhile_isNotNewline hthought, takeWhile_isNotNewline hthought'] at hlines
  subst hlines
  have haction := (List.cons.inj (List.append_cancel_left (List.cons.inj (List.append_cancel_left hrest)).2)).2
  exact ⟨rfl, List.append_cancel_right haction⟩

/-- There are a thought and an action, and where the thought has the marker of an action in it, what comes after
that is the action. -/
structure IsCanonical (thought action : List Char) : Prop where
  thought_ne_nil : thought ≠ []
  action_ne_nil : action ≠ []
  inThought : ∀ before rest, thought = before ++ ("Action:".toList ++ rest) → ¬"Action:".toList <:+: before →
    rest.dropWhile isSpace = action

theorem parse_parse (text : List Char) : parseThoughtActionText (parseThoughtActionText text) =
    thoughtAction (thoughtOf (parseThoughtActionText text)) (actionOf (parseThoughtActionText text)) := by
  have hbefore : beforeFirstObservationOrOriginalText (parseThoughtActionText text) =
      parseThoughtActionText text :=
    before_eq_iff.mpr ⟨not_observation text, .inl rfl⟩
  conv_lhs => rw [parseThoughtActionText, hbefore]

/-- A thought and an action with this form that are found again. -/
theorem isCanonical_iff (hthought : '\n' ∉ thought) (hhead : ∀ c ∈ thought.head?, isSpace c = false)
    (haction : '\n' ∉ action)
    (hhead' : ∀ c rest, action = c :: rest → isSpace c = true → c ≠ '\n' ∧ rest = []) :
    thoughtOf (thoughtAction thought action) = thought ∧ actionOf (thoughtAction thought action) = action ↔
      IsCanonical thought action := by
  have hinThought {before rest : List Char} (heq : thought = before ++ ("Action:".toList ++ rest))
      (hfree : ¬"Action:".toList <:+: before) := by
    have hrest : '\n' ∉ rest := by
      rw [heq, List.mem_append, List.mem_append, not_or, not_or] at hthought
      exact hthought.2.2
    exact heq ▸ @actionOf_inThought action rest before hfree hrest haction
  constructor
  · rintro ⟨hthoughtOf, hactionOf⟩
    refine ⟨?_, ?_, ?_⟩
    · rintro rfl
      rw [thoughtOf_thoughtAction_nil haction] at hthoughtOf
      cases hthoughtOf
    · rintro rfl
      by_cases hmarker : "Action:".toList <:+: thought
      · obtain ⟨before, rest, heq, hfree⟩ := exists_first hmarker (by decide)
        rw [hinThought heq hfree] at hactionOf
        split at hactionOf
        · cases hactionOf
        · next hne => exact hne hactionOf
      · rw [actionOf_thoughtAction hmarker captured_action_nil] at hactionOf
        cases hactionOf
    · intro before rest heq hfree
      rw [hinThought heq hfree] at hactionOf
      split at hactionOf
      · -- the line of the action is longer than the action
        have hlength := congrArg List.length hactionOf
        rw [List.length_append, List.length_cons] at hlength
        omega
      · exact hactionOf
  · rintro ⟨hne, hne', hcanonical⟩
    refine ⟨thoughtOf_thoughtAction hthought hhead hne action, ?_⟩
    by_cases hmarker : "Action:".toList <:+: thought
    · obtain ⟨before, rest, heq, hfree⟩ := exists_first hmarker (by decide)
      rw [hinThought heq hfree, hcanonical before rest heq hfree, if_neg hne']
    · exact actionOf_thoughtAction hmarker (captured_action haction hne' hhead')

theorem ofStr_inj {s t : String} (h : Value.ofStr s = Value.ofStr t) : s = t := by
  unfold Value.ofStr at h
  injection h with _ hstr
  injection hstr

theorem parse_twice_iff (input : Value) :
    (parseThoughtAction input).bind parseThoughtAction = parseThoughtAction input ↔
      parseThoughtActionText (parseThoughtActionText input.str.toList) =
        parseThoughtActionText input.str.toList := by
  have htwice : (parseThoughtAction input).bind parseThoughtAction =
      .ok (.ofStr (String.ofList (parseThoughtActionText (parseThoughtActionText input.str.toList)))) := by
    have htext := @String.toList_ofList (parseThoughtActionText input.str.toList)
    exact congrArg (fun text => Except.ok (Value.ofStr (String.ofList (parseThoughtActionText text)))) htext
  rw [htwice]
  constructor
  · intro h
    exact String.ofList_injective (ofStr_inj (Except.ok.inj h))
  · intro h
    rw [h]
    rfl

/-- **Parsing again.** -/
theorem idempotent_iff (input : Value) :
    (parseThoughtAction input).bind parseThoughtAction = parseThoughtAction input ↔
      IsCanonical (thoughtOf (beforeFirstObservationOrOriginalText input.str.toList))
        (actionOf (beforeFirstObservationOrOriginalText input.str.toList)) := by
  obtain ⟨-, hthought⟩ := thoughtOf_spec (beforeFirstObservationOrOriginalText input.str.toList)
  obtain ⟨-, haction⟩ := actionOf_spec (beforeFirstObservationOrOriginalText input.str.toList)
  rw [parse_twice_iff, parse_parse, ← isCanonical_iff hthought (head_thoughtOf _) haction (head_actionOf _)]
  constructor
  · intro h
    exact thoughtAction_inj (thoughtOf_spec _).2 hthought h
  · rintro ⟨hthoughtOf, hactionOf⟩
    exact congrArg₂ thoughtAction hthoughtOf hactionOf

/-- Without a thought, the second time the action is in its place. -/
theorem not_idempotent : (parseThoughtAction (.ofStr "Action: Math[1]")).bind parseThoughtAction ≠
    parseThoughtAction (.ofStr "Action: Math[1]") := by
  rw [Ne, parse_twice_iff]
  decide

end ReAct

end GenC
