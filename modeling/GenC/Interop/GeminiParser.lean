import GenC.Base.Json
import GenC.Proto.Value

/-!
# Wrapping text as a Gemini request

`WrapTextAsInputJson` of `modules/parsers/gemini_parser.cc` puts the text into the request as it is, without
the escapes of a JSON string.

* **`wraps_iff`**: the request parses to the one whose text it is, exactly when each character of the text
  stands for itself in a JSON string.
-/

namespace GenC

open Json

namespace GeminiParser

/-- What the format has before `$0`. -/
def requestBefore : String :=
  "\n        \x7b\n          \"contents\":\n          [ \x7b\n            \"parts\":\n            [ \x7b \"text\": \""

/-- What the format has after `$0`. -/
def requestAfter : String := "\" \x7d]\n          \x7d]\n        \x7d\n      "

def wrapTextAsInputJson (input : Value) : StatusOr Value :=
  .ok (.ofStr (requestBefore ++ input.str ++ requestAfter))

/-- The request that has these texts as its parts. -/
def request (texts : List String) : Json :=
  .object [("contents",
    .array [.object [("parts", .array (texts.map fun text => .object [("text", .string text)]))]])]

/-- The wrapped text parses to the request that has it as its one part. -/
def Wraps (input : Value) : Prop :=
  ∃ output, wrapTextAsInputJson input = .ok (.ofStr output) ∧ Parses output (request [input.str])

/-- A character that a JSON string has as it is. -/
def Plain (c : Char) : Prop := c ≠ '"' ∧ c ≠ '\\' ∧ ¬ c < ' '

theorem hasString_request (text : String) : HasString text (request [text]) :=
  .object (.head _) (.array (.head _) (.object (.head _) (.array (.head _) (.object (.head _) .string))))

/-- The quotes around the text are the last ones of the format. -/
theorem toList_wrapped (text : String) :
    (requestBefore ++ text ++ requestAfter).toList =
      requestBefore.toList.dropLast ++ '"' :: (text.toList ++ '"' :: requestAfter.toList.tail) := by
  have hbefore : requestBefore.toList = requestBefore.toList.dropLast ++ ['"'] := by decide
  have hafter : requestAfter.toList = '"' :: requestAfter.toList.tail := by decide
  rw [String.toList_append, String.toList_append, hbefore, hafter]
  simp

/-- The names that the format has. -/
theorem readString_name :
    (∀ rest, readString ("contents\"".toList ++ rest) = some ("contents", rest)) ∧
    (∀ rest, readString ("parts\"".toList ++ rest) = some ("parts", rest)) ∧
    ∀ rest, readString ("text\"".toList ++ rest) = some ("text", rest) :=
  ⟨fun _ => rfl, fun _ => rfl, fun _ => rfl⟩

/-- The format around a string is the request of the string. -/
theorem readValue_wrapped {text : String} {input : List Char}
    (h : readString input = some (text, requestAfter.toList.tail)) :
    ∃ rest, readValue 11 (requestBefore.toList.dropLast ++ '"' :: input) = some (request [text], rest) ∧
      skipWhitespace rest = [] := by
  have hnames := readString_name
  simp only [String.reduceToList, List.cons_append, List.nil_append] at hnames
  simp [requestBefore, requestAfter, readValue, readMembers, readElements, skipWhitespace, isWhitespace,
    hnames, h, ofMembers, insertMember, request]

theorem wraps_of_plain {input : Value} (h : ∀ c ∈ input.str.toList, Plain c) : Wraps input := by
  have hread := readString_of_plain requestAfter.toList.tail h
  rw [String.ofList_toList] at hread
  obtain ⟨rest, hrequest, hrest⟩ := readValue_wrapped hread
  refine ⟨_, rfl, 11, rest, ?_, hrest⟩
  rw [toList_wrapped]
  exact hrequest

theorem plain_of_wraps {input : Value} (h : Wraps input) : ∀ c ∈ input.str.toList, Plain c := by
  obtain ⟨output, houtput, hparses⟩ := h
  cases houtput
  have hwritten := hparses.written (hasString_request input.str)
  rw [toList_wrapped] at hwritten
  exact plain_of_written (by decide) (by decide) rfl hwritten

/-- The text is wrapped as the one part of the request exactly when it has no quote, no backslash and no control
character. -/
theorem wraps_iff (input : Value) : Wraps input ↔ ∀ c ∈ input.str.toList, Plain c :=
  ⟨plain_of_wraps, wraps_of_plain⟩

/-- A text with quotes adds a part. -/
theorem not_wraps :
    ¬Wraps (.ofStr "hi\" \x7d, \x7b \"text\": \"bye") ∧
    ∃ output, wrapTextAsInputJson (.ofStr "hi\" \x7d, \x7b \"text\": \"bye") = .ok (.ofStr output) ∧
      Parses output (request ["hi", "bye"]) := by
  constructor
  · intro h
    exact (plain_of_wraps h '"' (by decide)).1 rfl
  · have hnames := readString_name
    have hhi (rest : List Char) : readString ("hi\"".toList ++ rest) = some ("hi", rest) := rfl
    have hbye (rest : List Char) : readString ("bye\"".toList ++ rest) = some ("bye", rest) := rfl
    simp only [String.reduceToList, List.cons_append, List.nil_append] at hnames hhi hbye
    refine ⟨_, rfl, 12, "\n      ".toList, ?_, by decide⟩
    rw [toList_wrapped]
    simp [requestBefore, requestAfter, Value.ofStr, Value.str, readValue, readMembers, readElements,
      skipWhitespace,
      isWhitespace, hnames, hhi, hbye, ofMembers, insertMember, request]

end GeminiParser

end GenC
