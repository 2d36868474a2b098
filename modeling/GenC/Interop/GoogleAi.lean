import GenC.Base.JsonText
import GenC.Interop.HttpClient
import GenC.Proto.Value

/-!
# The request template

`updateJsonRequest` of `interop/backends/google_ai.cc`, and its counterpart in `GoogleAiClient.java`: the
request becomes the text of the last part of the last content of a template. The JSON libraries are parameters.

* **`updates_iff`**: the C++ function refuses the template or edits that text and nothing else, as its
  counterpart does, exactly when the last part is an object or null. Otherwise it throws.
-/

namespace GenC

open Json Lib

/-! ## The libraries -/

/-- `nlohmann::json`. A number is its text as the library writes it. -/
structure JsonLibrary where
  /-- Without exceptions: a text that is not JSON is `none`. -/
  parse : String → Option Json
  dump : Json → String
  IsNumber : String → Prop

/-- The values of the library, each object a `std::map`, are read again from what is written. -/
structure JsonLibrary.Lawful (lib : JsonLibrary) : Prop where
  parse_wellFormed {text : String} {json : Json} (h : lib.parse text = some json) :
    json.WellFormed lib.IsNumber Sorted
  parse_dump {json : Json} (h : json.WellFormed lib.IsNumber Sorted) : lib.parse (lib.dump json) = some json

/-- Gson. An object keeps its members in the order in which they came, and a number its text. -/
structure GsonLibrary where
  /-- `none` is a `JsonSyntaxException`. -/
  parseString : String → Option Json
  toString : Json → String

/-- An element that `nlohmann::json` can read, where it reads the number of a text as `readNumber` says. -/
def GsonElement (lib : JsonLibrary) (readNumber : String → String) (element : Json) : Prop :=
  element.WellFormed (fun number => lib.IsNumber (readNumber number)) List.Nodup

/-- Both libraries read the same value from a text, and the one reads what the other writes. -/
structure GsonLibrary.Agrees (gson : GsonLibrary) (lib : JsonLibrary)
  (readNumber : String → String) : Prop where
  parseString {text : String} {json element : Json} (h : lib.parse text = some json)
    (h' : gson.parseString text = some element) :
    GsonElement lib readNumber element ∧ json = element.sorted readNumber
  parse_toString {element : Json} (h : GsonElement lib readNumber element) :
    lib.parse (gson.toString element) = some (element.sorted readNumber)

/-! ## The function in C++ -/

namespace GoogleAi

/-- What `back()` refers to, if the value is not `empty()`. In an object it is the member of the greatest name,
and a value that has no elements is its own last one. -/
def back : Json → Option Json
  | .null => none
  | .array elements => elements.getLast?
  | .object members => members.getLast?.map Prod.snd
  | json => some json

/-- The value with another in the place that `back()` refers to. -/
def setBack (json value : Json) : Json :=
  match json with
  | .array elements => .array (elements.dropLast ++ [value])
  | .object members =>
      .object (members.dropLast ++ members.getLast?.toList.map fun member => (member.1, value))
  | _ => value

/-- The value under the key, and what its `back()` refers to, if it is there and not `empty()`. -/
def backOf (key : String) (json : Json) : Option (Json × Json) := do
  let value ← json.find key
  return (value, ← back value)

/-- `json[key] = value`. A null becomes an object. -/
def assign (key : String) (value : Json) : Json → Except Abrupt Json
  | .null => .ok (.object [(key, value)])
  | .object members => .ok (.object (insertMember key value members))
  | _ => .error .typeError

/-- The object with another value under a key that it has. -/
def setMember (key : String) (value : Json) : Json → Json
  | .object members => .object (insertMember key value members)
  | json => json

def updateJsonRequest (lib : JsonLibrary) (jsonRequestTemplate requestStr : String) :
    Except Abrupt (StatusOr String) :=
  match lib.parse jsonRequestTemplate with
  | some (.object members) =>
      match backOf "contents" (.object members) with
      | none =>
          .ok (.error (.invalidArgument
            ("Invalid json request template, 'contents' not found: " ++ jsonRequestTemplate)))
      | some (contents, lastContent) =>
          match backOf "parts" lastContent with
          | none =>
              .ok (.error (.invalidArgument
                ("Invalid json request template, 'parts' not found: " ++ jsonRequestTemplate)))
          | some (parts, lastPart) => do
              let lastPart ← assign "text" (.string requestStr) lastPart
              -- what the references into the template have changed
              let lastContent := setMember "parts" (setBack parts lastPart) lastContent
              let requestTemplate := setMember "contents" (setBack contents lastContent) (.object members)
              return .ok (lib.dump requestTemplate)
  | _ => .ok (.error (.invalidArgument ("Failed to parse json request template: " ++ jsonRequestTemplate)))

/-- The last part of the last content, if there is one. -/
def lastPart (requestTemplate : Json) : Option Json := do
  let (_, lastContent) ← backOf "contents" requestTemplate
  let (_, lastPart) ← backOf "parts" lastContent
  return lastPart

/-- A value that can have a text. -/
def isObjectOrNull : Json → Bool
  | .object _ | .null => true
  | _ => false

end GoogleAi

/-! ## The function in Java -/

namespace GoogleAiClient

inductive JavaException where
  | jsonSyntax
  | illegalState
  | classCast
  | nullPointer
  deriving Repr, DecidableEq

def orThrow {α : Type} (e : JavaException) : Option α → Except JavaException α
  | none => .error e
  | some a => .ok a

def getAsJsonObject : Json → Except JavaException (List (String × Json))
  | .object members => .ok members
  | _ => .error .illegalState

/-- `null` where there is no such member. -/
def getAsJsonArray (key : String) (members : List (String × Json)) :
    Except JavaException (Option (List Json)) :=
  match members.lookup key with
  | none => .ok none
  | some (.array elements) => .ok (some elements)
  | some _ => .error .classCast

/-- A member keeps its place when its value is replaced. -/
def add (key : String) (value : Json) (members : List (String × Json)) : List (String × Json) :=
  if key ∈ members.map Prod.fst then
    members.map fun member => if member.1 = key then (key, value) else member
  else members ++ [(key, value)]

/-- The array with another last element. -/
def setLast (elements : List Json) (value : Json) : Json := .array (elements.dropLast ++ [value])

def updateJsonRequest (gson : GsonLibrary) (jsonRequestTemplate requestStr : String) :
    Except JavaException String := do
  let jsonObject ← getAsJsonObject (← orThrow .jsonSyntax (gson.parseString jsonRequestTemplate))
  let contentsArray ← orThrow .nullPointer (← getAsJsonArray "contents" jsonObject)
  match contentsArray.getLast? with
  | none => return ""
  | some last => do
      let item ← getAsJsonObject last
      match ← getAsJsonArray "parts" item with
      | none => return ""
      | some partsArray =>
          match partsArray.getLast? with
          | none => return ""
          | some last => do
              let lastPartObject ← getAsJsonObject last
              -- the objects are changed where they are
              let lastPartObject := add "text" (.string requestStr) lastPartObject
              let item := add "parts" (setLast partsArray (.object lastPartObject)) item
              let jsonObject := add "contents" (setLast contentsArray (.object item)) jsonObject
              return gson.toString (.object jsonObject)

end GoogleAiClient

/-! ## One text is changed -/

/-- The object has the text. It replaces another, or is a new member. -/
inductive TextSet (text : String) : Json → Json → Prop where
  | null : TextSet text .null (.object [("text", .string text)])
  | replaced (before after : List (String × Json)) (old : Json) :
      TextSet text (.object (before ++ ("text", old) :: after))
        (.object (before ++ ("text", .string text) :: after))
  | added (before after : List (String × Json)) (h : "text" ∉ (before ++ after).map Prod.fst) :
      TextSet text (.object (before ++ after)) (.object (before ++ ("text", .string text) :: after))

/-- The values differ in the last element alone, and there as `R` says. -/
inductive LastChanged (R : Json → Json → Prop) : Json → Json → Prop where
  | array (before : List Json) {last last' : Json} (h : R last last') :
      LastChanged R (.array (before ++ [last])) (.array (before ++ [last']))
  | object (before : List (String × Json)) (key : String) {last last' : Json} (h : R last last') :
      LastChanged R (.object (before ++ [(key, last)])) (.object (before ++ [(key, last')]))

/-- The objects differ in the value of the key alone, and there as `R` says. -/
inductive MemberChanged (key : String) (R : Json → Json → Prop) : Json → Json → Prop where
  | intro (before after : List (String × Json)) {value value' : Json} (h : R value value') :
      MemberChanged key R (.object (before ++ (key, value) :: after))
        (.object (before ++ (key, value') :: after))

/-- The two values differ in the text of the last part of the last content alone. -/
def Edited (text : String) : Json → Json → Prop :=
  MemberChanged "contents" (LastChanged (MemberChanged "parts" (LastChanged (TextSet text))))

/-- The function refuses the template, or edits the text. -/
def Edits (lib : JsonLibrary) (jsonRequestTemplate requestStr : String) : Prop :=
  (∃ e, GoogleAi.updateJsonRequest lib jsonRequestTemplate requestStr = .ok (.error e) ∧
    e.code = .invalidArgument) ∨
  ∃ text json edited, GoogleAi.updateJsonRequest lib jsonRequestTemplate requestStr = .ok (.ok text) ∧
    lib.parse jsonRequestTemplate = some json ∧ lib.parse text = some edited ∧ Edited requestStr json edited

/-- Where both functions make a request, it is one value. -/
def SameRequest (lib : JsonLibrary) (gson : GsonLibrary) (jsonRequestTemplate requestStr : String) : Prop :=
  ∀ text text', GoogleAi.updateJsonRequest lib jsonRequestTemplate requestStr = .ok (.ok text) →
    GoogleAiClient.updateJsonRequest gson jsonRequestTemplate requestStr = .ok text' → text' ≠ "" →
    ∃ json, lib.parse text = some json ∧ lib.parse text' = some json

/-! ### The steps of the function in C++ -/

namespace GoogleAi

theorem find_eq_some {key : String} {json value : Json} (h : json.find key = some value) :
    ∃ before after, json = .object (before ++ (key, value) :: after) := by
  cases json with
  | object members =>
      obtain ⟨before, after, rfl, -⟩ := List.lookup_eq_some_iff.mp h
      exact ⟨before, after, rfl⟩
  | _ => cases h

theorem backOf_eq_some {key : String} {json value last : Json} (h : backOf key json = some (value, last)) :
    json.find key = some value ∧ back value = some last := by
  obtain ⟨value', hvalue, h⟩ := Option.bind_eq_some_iff.mp h
  obtain ⟨last', hlast, h⟩ := Option.bind_eq_some_iff.mp h
  cases h
  exact ⟨hvalue, hlast⟩

theorem lastChanged_setBack {R : Json → Json → Prop} {json last last' : Json} (h : back json = some last)
    (hlast : isObjectOrNull last = true) (hR : R last last') : LastChanged R json (setBack json last') := by
  cases json with
  | null => cases h
  | array elements =>
      obtain ⟨before, rfl⟩ := List.getLast?_eq_some_iff.mp h
      rw [setBack, List.dropLast_concat]
      exact .array before hR
  | object members =>
      obtain ⟨member, hmember, rfl⟩ := Option.map_eq_some_iff.mp h
      obtain ⟨before, rfl⟩ := List.getLast?_eq_some_iff.mp hmember
      simp only [setBack, List.dropLast_concat, hmember, Option.toList_some, List.map_cons, List.map_nil]
      exact .object before member.1 hR
  | boolean => cases h; cases hlast
  | number => cases h; cases hlast
  | string => cases h; cases hlast

theorem lt_of_sorted {before after : List (String × Json)} {key : String} {value : Json}
    (h : Sorted ((before ++ (key, value) :: after).map Prod.fst)) :
    ∀ key' ∈ before.map Prod.fst, key' < key := by
  intro key' hkey'
  rw [List.map_append] at h
  exact (List.pairwise_append.mp h).2.2 key' hkey' key List.mem_cons_self

theorem memberChanged_setMember {R : Json → Json → Prop} {P : String → Prop} {key : String}
    {json value value' : Json} (hwf : json.WellFormed P Sorted) (h : json.find key = some value)
    (hR : R value value') : MemberChanged key R json (setMember key value' json) := by
  obtain ⟨before, after, rfl⟩ := find_eq_some h
  cases hwf with
  | object hsorted _ =>
      rw [setMember, insertMember_middle (lt_of_sorted hsorted)]
      exact .intro before after hR

/-- A text can be assigned to an object or null, and to nothing else. -/
theorem assign_text {P : String → Prop} {json : Json} (text : String) (hwf : json.WellFormed P Sorted)
    (h : isObjectOrNull json = true) :
    ∃ json', assign "text" (.string text) json = .ok json' ∧ TextSet text json json' := by
  cases json with
  | null => exact ⟨_, rfl, .null⟩
  | object members =>
      refine ⟨_, rfl, ?_⟩
      cases hwf with
      | object hsorted _ =>
          by_cases hmem : "text" ∈ members.map Prod.fst
          · obtain ⟨old, hold⟩ := Option.isSome_iff_exists.mp (lookup_isSome_iff.mpr hmem)
            obtain ⟨before, after, rfl, -⟩ := List.lookup_eq_some_iff.mp hold
            rw [insertMember_middle (lt_of_sorted hsorted)]
            exact .replaced before after old
          · obtain ⟨before, after, rfl, hinsert⟩ := insertMember_new (.string text) hmem
            rw [hinsert]
            exact .added before after hmem
  | _ => cases h

theorem assign_typeError {json : Json} (key : String) (value : Json) (h : isObjectOrNull json ≠ true) :
    assign key value json = .error .typeError := by
  cases json with
  | null => exact absurd rfl h
  | object => exact absurd rfl h
  | _ => rfl

theorem wellFormed_insertMember {P : String → Prop} {key : String} {value : Json}
    {members : List (String × Json)} (hmembers : (object members).WellFormed P Sorted)
    (hvalue : value.WellFormed P Sorted) : (object (insertMember key value members)).WellFormed P Sorted := by
  cases hmembers with
  | object hsorted hmembers =>
      refine .object (sorted_insertMember hsorted) fun member hmem => ?_
      rcases mem_of_mem_insertMember hmem with rfl | hmem
      · exact hvalue
      · exact hmembers member hmem

theorem wellFormed_setMember {P : String → Prop} {key : String} {json value : Json}
    (hjson : json.WellFormed P Sorted) (hvalue : value.WellFormed P Sorted) :
    (setMember key value json).WellFormed P Sorted := by
  cases json with
  | object members => exact wellFormed_insertMember hjson hvalue
  | _ => exact hjson

theorem wellFormed_assign {P : String → Prop} {key : String} {json json' value : Json}
    (hjson : json.WellFormed P Sorted) (hvalue : value.WellFormed P Sorted)
    (h : assign key value json = .ok json') : json'.WellFormed P Sorted := by
  cases json with
  | null =>
      cases h
      exact .object (List.pairwise_singleton _ _) (List.forall_mem_singleton.mpr hvalue)
  | object members =>
      cases h
      exact wellFormed_insertMember hjson hvalue
  | _ => cases h

theorem wellFormed_setBack {P : String → Prop} {json value : Json} (hjson : json.WellFormed P Sorted)
    (hvalue : value.WellFormed P Sorted) : (setBack json value).WellFormed P Sorted := by
  cases hjson with
  | null => exact hvalue
  | boolean => exact hvalue
  | number _ => exact hvalue
  | string => exact hvalue
  | array helements =>
      refine .array fun element hmem => ?_
      rcases List.mem_append.mp hmem with hmem | hmem
      · exact helements element (List.dropLast_subset _ hmem)
      · exact List.mem_singleton.mp hmem ▸ hvalue
  | @object members hsorted hmembers =>
      rw [setBack]
      cases hlast : members.getLast? with
      | none =>
          rw [List.getLast?_eq_none_iff] at hlast
          subst hlast
          exact .object List.Pairwise.nil (List.forall_mem_nil _)
      | some member =>
          -- the key of the last member stays, and so does the order of the keys
          obtain ⟨before, rfl⟩ := List.getLast?_eq_some_iff.mp hlast
          rw [List.dropLast_concat]
          refine .object ?_ fun member' hmem => ?_
          · simpa using hsorted
          · rcases List.mem_append.mp hmem with hmem | hmem
            · exact hmembers member' (List.mem_append_left _ hmem)
            · rw [List.mem_singleton.mp hmem]
              exact hvalue

theorem wellFormed_find {P : String → Prop} {key : String} {json value : Json}
    (hjson : json.WellFormed P Sorted) (h : json.find key = some value) : value.WellFormed P Sorted := by
  obtain ⟨before, after, rfl⟩ := find_eq_some h
  cases hjson with
  | object _ hmembers => exact hmembers (key, value) (List.mem_append_right _ List.mem_cons_self)

theorem wellFormed_back {P : String → Prop} {json last : Json} (hjson : json.WellFormed P Sorted)
    (h : back json = some last) : last.WellFormed P Sorted := by
  cases hjson with
  | null => cases h
  | boolean => cases h; exact .boolean
  | number hnumber => cases h; exact .number hnumber
  | string => cases h; exact .string
  | array helements => exact helements last (List.mem_of_getLast? h)
  | object _ hmembers =>
      obtain ⟨member, hmember, rfl⟩ := Option.map_eq_some_iff.mp h
      exact hmembers member (List.mem_of_getLast? hmember)

/-! ### The function in C++ -/

theorem updateJsonRequest_of_none {lib : JsonLibrary} {jsonRequestTemplate : String} (requestStr : String)
    (h : ∀ json, lib.parse jsonRequestTemplate = some json → lastPart json = none) :
    ∃ e, updateJsonRequest lib jsonRequestTemplate requestStr = .ok (.error e) ∧ e.code = .invalidArgument := by
  unfold updateJsonRequest
  split
  · next members hparse =>
      have hnone := h _ hparse
      split
      · exact ⟨_, rfl, rfl⟩
      · next hcontents =>
          split
          · exact ⟨_, rfl, rfl⟩
          · next hparts =>
              rw [lastPart, hcontents] at hnone
              simp [hparts] at hnone
  · exact ⟨_, rfl, rfl⟩

/-- What is made of a template that has a last part. -/
theorem updateJsonRequest_of_some {lib : JsonLibrary} {jsonRequestTemplate : String} {json part : Json}
    (requestStr : String) (hparse : lib.parse jsonRequestTemplate = some json) (h : lastPart json = some part) :
    ∃ contents lastContent parts, backOf "contents" json = some (contents, lastContent) ∧
      backOf "parts" lastContent = some (parts, part) ∧
      updateJsonRequest lib jsonRequestTemplate requestStr =
        (assign "text" (.string requestStr) part).map fun part' =>
          .ok (lib.dump (setMember "contents" (setBack contents
            (setMember "parts" (setBack parts part') lastContent)) json)) := by
  obtain ⟨⟨contents, lastContent⟩, hcontents, h⟩ := Option.bind_eq_some_iff.mp h
  obtain ⟨⟨parts, part'⟩, hparts, h⟩ := Option.bind_eq_some_iff.mp h
  cases h
  refine ⟨contents, lastContent, parts, hcontents, hparts, ?_⟩
  obtain ⟨before, after, rfl⟩ := find_eq_some (backOf_eq_some hcontents).1
  -- the three lookups of the code are those of `lastPart`
  rw [updateJsonRequest, hparse]
  dsimp only
  rw [hcontents]
  dsimp only
  rw [hparts]
  dsimp only
  cases assign "text" (.string requestStr) part with
  | ok part' => rfl
  | error e => rfl

/-- The edited template is well formed, and differs from the template in the text alone. -/
theorem edited_of_some {P : String → Prop} {requestStr : String}
    {json contents lastContent parts part part' : Json} (hwf : json.WellFormed P Sorted)
    (hcontents : backOf "contents" json = some (contents, lastContent))
    (hparts : backOf "parts" lastContent = some (parts, part)) (hpart : isObjectOrNull part = true)
    (hassign : assign "text" (.string requestStr) part = .ok part') (hset : TextSet requestStr part part') :
    Edited requestStr json
        (setMember "contents" (setBack contents (setMember "parts" (setBack parts part') lastContent)) json) ∧
      (setMember "contents" (setBack contents
        (setMember "parts" (setBack parts part') lastContent)) json).WellFormed P Sorted := by
  obtain ⟨hfind, hback⟩ := backOf_eq_some hcontents
  obtain ⟨hfind', hback'⟩ := backOf_eq_some hparts
  have hwfContents := wellFormed_find hwf hfind
  have hwfContent := wellFormed_back hwfContents hback
  have hwfParts := wellFormed_find hwfContent hfind'
  -- a value with a member is an object
  have hobject : isObjectOrNull lastContent = true := by
    obtain ⟨before, after, rfl⟩ := find_eq_some hfind'
    rfl
  constructor
  · exact memberChanged_setMember hwf hfind (lastChanged_setBack hback hobject
      (memberChanged_setMember hwfContent hfind' (lastChanged_setBack hback' hpart hset)))
  · have hwfPart := wellFormed_assign (wellFormed_back hwfParts hback') .string hassign
    exact wellFormed_setMember hwf (wellFormed_setBack hwfContents
      (wellFormed_setMember hwfContent (wellFormed_setBack hwfParts hwfPart)))

/-- The template has no last part to which a text cannot be assigned. -/
def PartFits (lib : JsonLibrary) (jsonRequestTemplate : String) : Prop :=
  ∀ json part, lib.parse jsonRequestTemplate = some json → lastPart json = some part →
    isObjectOrNull part = true

theorem edits_of_partFits {lib : JsonLibrary} (hlib : lib.Lawful) {jsonRequestTemplate : String}
    (requestStr : String)
    (h : PartFits lib jsonRequestTemplate) : Edits lib jsonRequestTemplate requestStr := by
  by_cases hnone : ∀ json, lib.parse jsonRequestTemplate = some json → lastPart json = none
  · exact .inl (updateJsonRequest_of_none requestStr hnone)
  · push Not at hnone
    obtain ⟨json, hparse, hpart⟩ := hnone
    obtain ⟨part, hpart⟩ := Option.ne_none_iff_exists'.mp hpart
    have hwf := hlib.parse_wellFormed hparse
    obtain ⟨contents, lastContent, parts, hcontents, hparts, hupdate⟩ :=
      updateJsonRequest_of_some requestStr hparse hpart
    have hfits := h json part hparse hpart
    have hwfPart := wellFormed_back (wellFormed_find (wellFormed_back (wellFormed_find hwf
      (backOf_eq_some hcontents).1) (backOf_eq_some hcontents).2) (backOf_eq_some hparts).1)
      (backOf_eq_some hparts).2
    obtain ⟨part', hassign, hset⟩ := assign_text requestStr hwfPart hfits
    obtain ⟨hedited, hwf'⟩ := edited_of_some hwf hcontents hparts hfits hassign hset
    rw [hassign] at hupdate
    exact .inr ⟨_, json, _, hupdate, hparse, hlib.parse_dump hwf', hedited⟩

theorem partFits_of_edits {lib : JsonLibrary} {jsonRequestTemplate requestStr : String}
    (h : Edits lib jsonRequestTemplate requestStr) : PartFits lib jsonRequestTemplate := by
  intro json part hparse hpart
  by_contra hfits
  obtain ⟨contents, lastContent, parts, -, -, hupdate⟩ := updateJsonRequest_of_some requestStr hparse hpart
  rw [assign_typeError _ _ hfits] at hupdate
  rcases h with ⟨e, hupdate', -⟩ | ⟨text, json', edited, hupdate', -⟩
  · rw [hupdate] at hupdate'
    cases hupdate'
  · rw [hupdate] at hupdate'
    cases hupdate'

end GoogleAi

/-! ### The function in Java -/

namespace GoogleAiClient

open GoogleAi

theorem map_fst_add (key : String) (value : Json) (members : List (String × Json)) :
    (add key value members).map Prod.fst =
      if key ∈ members.map Prod.fst then members.map Prod.fst else members.map Prod.fst ++ [key] := by
  rw [add]
  split
  · rw [List.map_map]
    refine List.map_congr_left fun member _ => ?_
    dsimp only [Function.comp_apply]
    split
    · next heq => exact heq.symm
    · rfl
  · rw [List.map_append]
    rfl

theorem nodup_add {key : String} (value : Json) {members : List (String × Json)}
    (h : (members.map Prod.fst).Nodup) : ((add key value members).map Prod.fst).Nodup := by
  rw [map_fst_add]
  split
  · exact h
  · next hmem =>
      refine List.nodup_append.mpr ⟨h, List.pairwise_singleton _ _, fun key' hmem' key'' hmem'' heq => ?_⟩
      rw [List.mem_singleton.mp hmem''] at heq
      exact hmem (heq ▸ hmem')

theorem lookup_replace (key key' : String) (value : Json) (members : List (String × Json)) :
    (members.map fun member => if member.1 = key then (key, value) else member).lookup key' =
      if key' = key then (members.lookup key).map fun _ => value else members.lookup key' := by
  induction members with
  | nil => simp
  | cons member members ih =>
      rw [List.map_cons, lookup_member_cons, ih, lookup_member_cons, lookup_member_cons]
      by_cases hkey' : key' = key
      · rw [if_pos hkey', if_pos hkey', hkey']
        by_cases hkey : member.1 = key
        · rw [if_pos hkey, if_pos rfl, if_pos hkey.symm]
          rfl
        · rw [if_neg hkey, if_neg (Ne.symm hkey), if_neg (Ne.symm hkey)]
      · rw [if_neg hkey', if_neg hkey']
        by_cases hkey : member.1 = key
        · rw [if_pos hkey, if_neg hkey', if_neg (hkey ▸ hkey')]
        · rw [if_neg hkey]

theorem lookup_add (key key' : String) (value : Json) (members : List (String × Json)) :
    (add key value members).lookup key' = if key' = key then some value else members.lookup key' := by
  rw [add]
  split
  · next hmem =>
      obtain ⟨old, hold⟩ := Option.isSome_iff_exists.mp (lookup_isSome_iff.mpr hmem)
      rw [lookup_replace, hold]
      rfl
  · next hmem =>
      rw [List.lookup_append, lookup_member_cons]
      by_cases h : key' = key
      · rw [if_pos h, if_pos h, lookup_eq_none (h ▸ hmem)]
        rfl
      · rw [if_neg h, if_neg h]
        exact Option.or_none

/-- The map of an object to which a member is added is the map of the object, with the member in it. -/
theorem sorted_add {readNumber : String → String} {members : List (String × Json)}
    (h : (members.map Prod.fst).Nodup) (key : String) (value : Json) :
    (object (add key value members)).sorted readNumber =
      setMember key (value.sorted readNumber) ((object members).sorted readNumber) := by
  have hsorted (members : List (String × Json)) :
      Sorted ((members.foldl (fun acc member => insertMember member.1 member.2 acc) []).map Prod.fst) :=
    sorted_foldl_insertMember List.Pairwise.nil
  refine congrArg object (eq_of_lookup_eq (hsorted _) (sorted_insertMember (hsorted _)) fun key' => ?_)
  rw [lookup_insertMember, lookup_foldl_insertMember (by rw [map_fst_sortedMembers]; exact nodup_add value h),
    lookup_foldl_insertMember (by rwa [map_fst_sortedMembers]), lookup_sortedMembers, lookup_sortedMembers,
    lookup_add]
  split
  · rfl
  · rfl

theorem sorted_setLast (readNumber : String → String) (elements : List Json) (value : Json) :
    (setLast elements value).sorted readNumber =
      setBack ((array elements).sorted readNumber) (value.sorted readNumber) := by
  simp only [setLast, sorted, sortedElements_eq, setBack, List.map_append, List.map_dropLast, List.map_cons,
    List.map_nil]

theorem gsonElement_add {lib : JsonLibrary} {readNumber : String → String} {value : Json}
    {members : List (String × Json)} (key : String) (hmembers : GsonElement lib readNumber (.object members))
    (hvalue : GsonElement lib readNumber value) :
    GsonElement lib readNumber (.object (add key value members)) := by
  cases hmembers with
  | object hnodup hmembers =>
      refine .object (nodup_add value hnodup) fun member hmem => ?_
      rw [add] at hmem
      split at hmem
      · obtain ⟨member', hmem', rfl⟩ := List.mem_map.mp hmem
        split
        · exact hvalue
        · exact hmembers member' hmem'
      · rcases List.mem_append.mp hmem with hmem | hmem
        · exact hmembers member hmem
        · rw [List.mem_singleton.mp hmem]
          exact hvalue

theorem gsonElement_setLast {lib : JsonLibrary} {readNumber : String → String} {elements : List Json}
    {value : Json} (helements : GsonElement lib readNumber (.array elements))
    (hvalue : GsonElement lib readNumber value) : GsonElement lib readNumber (setLast elements value) := by
  cases helements with
  | array helements =>
      refine .array fun element hmem => ?_
      rcases List.mem_append.mp hmem with hmem | hmem
      · exact helements element (List.dropLast_subset _ hmem)
      · exact List.mem_singleton.mp hmem ▸ hvalue

theorem getAsJsonObject_eq_ok {json : Json} {members : List (String × Json)}
    (h : getAsJsonObject json = .ok members) : json = .object members := by
  cases json with
  | object => cases h; rfl
  | _ => cases h

theorem getAsJsonArray_eq_ok {key : String} {members : List (String × Json)} {elements : List Json}
    (h : getAsJsonArray key members = .ok (some elements)) : members.lookup key = some (.array elements) := by
  unfold getAsJsonArray at h
  split at h
  · cases h
  · next heq =>
      cases h
      exact heq
  · cases h

theorem orThrow_eq_ok {α : Type} {e : JavaException} {o : Option α} {a : α} (h : orThrow e o = .ok a) :
    o = some a := by
  cases o with
  | none => cases h
  | some => cases h; rfl

/-- What is made of a template that is accepted. -/
theorem updateJsonRequest_eq_ok {gson : GsonLibrary} {jsonRequestTemplate requestStr text : String}
    (h : updateJsonRequest gson jsonRequestTemplate requestStr = .ok text) (hne : text ≠ "") :
    ∃ members contents item parts part,
      gson.parseString jsonRequestTemplate = some (.object members) ∧
      members.lookup "contents" = some (.array contents) ∧ contents.getLast? = some (.object item) ∧
      item.lookup "parts" = some (.array parts) ∧ parts.getLast? = some (.object part) ∧
      text = gson.toString (.object (add "contents" (setLast contents (.object (add "parts" (setLast parts
        (.object (add "text" (.string requestStr) part))) item))) members)) := by
  unfold updateJsonRequest at h
  obtain ⟨element, hparse, h₁⟩ := ok_of_bind h
  obtain ⟨members, hobject, h₂⟩ := ok_of_bind h₁
  obtain ⟨array, harray, h₃⟩ := ok_of_bind h₂
  obtain ⟨contents, hcontents, h₄⟩ := ok_of_bind h₃
  cases getAsJsonObject_eq_ok hobject
  cases orThrow_eq_ok hcontents
  -- each empty array, and each element that is no object, leads to the empty string or a throw
  split at h₄
  · cases h₄
    exact absurd rfl hne
  · next last hlast =>
      obtain ⟨item, hitem, h₅⟩ := ok_of_bind h₄
      obtain ⟨parts, hparts, h₆⟩ := ok_of_bind h₅
      cases getAsJsonObject_eq_ok hitem
      split at h₆
      · cases h₆
        exact absurd rfl hne
      · next parts =>
          split at h₆
          · cases h₆
            exact absurd rfl hne
          · next last' hlast' =>
              obtain ⟨part, hpart, h₇⟩ := ok_of_bind h₆
              cases getAsJsonObject_eq_ok hpart
              cases h₇
              exact ⟨members, contents, item, parts, part, orThrow_eq_ok hparse, getAsJsonArray_eq_ok harray,
                hlast, getAsJsonArray_eq_ok hparts, hlast', rfl⟩

theorem backOf_sorted {readNumber : String → String} {members : List (String × Json)} {key : String}
    {elements : List Json} {last : Json} (hnodup : (members.map Prod.fst).Nodup)
    (h : members.lookup key = some (.array elements)) (hlast : elements.getLast? = some last) :
    backOf key ((object members).sorted readNumber) =
      some ((array elements).sorted readNumber, last.sorted readNumber) := by
  have hfind := @find_sorted readNumber _ hnodup key
  have hback : back ((array elements).sorted readNumber) = some (last.sorted readNumber) := by
    rw [sorted, back, sortedElements_eq, List.getLast?_map, hlast]
    rfl
  rw [h] at hfind
  rw [backOf, hfind]
  simp only [Option.map_some, Option.bind_eq_bind, Option.bind_some, hback]
  rfl

theorem gsonElement_lookup {lib : JsonLibrary} {readNumber : String → String} {members : List (String × Json)}
    {key : String} {value : Json} (h : GsonElement lib readNumber (.object members))
    (hlookup : members.lookup key = some value) : GsonElement lib readNumber value := by
  obtain ⟨before, after, rfl, -⟩ := List.lookup_eq_some_iff.mp hlookup
  cases h with
  | object _ hmembers => exact hmembers (key, value) (List.mem_append_right _ List.mem_cons_self)

theorem gsonElement_last {lib : JsonLibrary} {readNumber : String → String} {elements : List Json} {last : Json}
    (h : GsonElement lib readNumber (.array elements)) (hlast : elements.getLast? = some last) :
    GsonElement lib readNumber last := by
  cases h with
  | array helements => exact helements last (List.mem_of_getLast? hlast)

theorem nodup_of_gsonElement {lib : JsonLibrary} {readNumber : String → String} {members : List (String × Json)}
    (h : GsonElement lib readNumber (.object members)) : (members.map Prod.fst).Nodup := by
  cases h with
  | object hnodup _ => exact hnodup

/-- What both functions make of a template is one value. -/
theorem sameRequest {lib : JsonLibrary} {gson : GsonLibrary} {readNumber : String → String} (hlib : lib.Lawful)
    (hgson : gson.Agrees lib readNumber) (jsonRequestTemplate requestStr : String) :
    SameRequest lib gson jsonRequestTemplate requestStr := by
  intro text text' hrequest hrequest' hne
  obtain ⟨members, contents, item, parts, part, hparse', hcontents, hitem, hparts, hpart, rfl⟩ :=
    updateJsonRequest_eq_ok hrequest' hne
  obtain ⟨json, hparse⟩ : ∃ json, lib.parse jsonRequestTemplate = some json := by
    cases hparse : lib.parse jsonRequestTemplate with
    | some json => exact ⟨json, rfl⟩
    | none =>
        rw [GoogleAi.updateJsonRequest, hparse] at hrequest
        cases hrequest
  obtain ⟨hmembers, rfl⟩ := hgson.parseString hparse hparse'
  -- the same path through the template, as Gson walks it
  have hcontents' := gsonElement_lookup hmembers hcontents
  have hitem' := gsonElement_last hcontents' hitem
  have hparts' := gsonElement_lookup hitem' hparts
  have hpart' := gsonElement_last hparts' hpart
  have hbackContents := @backOf_sorted readNumber _ _ _ _ (nodup_of_gsonElement hmembers) hcontents hitem
  have hbackParts := @backOf_sorted readNumber _ _ _ _ (nodup_of_gsonElement hitem') hparts hpart
  have hlastPart : lastPart ((object members).sorted readNumber) = some ((object part).sorted readNumber) := by
    rw [lastPart, hbackContents]
    simp only [Option.bind_eq_bind, Option.bind_some, hbackParts]
    rfl
  obtain ⟨contents₁, lastContent₁, parts₁, h₁, h₂, hupdate⟩ :=
    updateJsonRequest_of_some requestStr hparse hlastPart
  cases hbackContents.symm.trans h₁
  cases hbackParts.symm.trans h₂
  have hassign : assign "text" (.string requestStr) ((object part).sorted readNumber) =
      .ok ((object (add "text" (.string requestStr) part)).sorted readNumber) := by
    rw [sorted_add (nodup_of_gsonElement hpart')]
    rfl
  rw [hassign] at hupdate
  dsimp only [Except.map] at hupdate
  -- sorting the members commutes with each of the updates on the way back up
  rw [← sorted_setLast, ← sorted_add (nodup_of_gsonElement hitem'), ← sorted_setLast,
    ← sorted_add (nodup_of_gsonElement hmembers)] at hupdate
  have htext : GsonElement lib readNumber (.string requestStr) := .string
  have hnewPart := gsonElement_add "text" hpart' htext
  have hnewItem := gsonElement_add "parts" hitem' (gsonElement_setLast hparts' hnewPart)
  have hread := hgson.parse_toString
    (gsonElement_add "contents" hmembers (gsonElement_setLast hcontents' hnewItem))
  rw [hupdate] at hrequest
  cases hrequest
  exact ⟨_, hlib.parse_dump (hlib.parse_wellFormed hread), hread⟩

end GoogleAiClient

/-! ## The exact condition -/

/-- The C++ function edits the text or refuses the template, and makes the request of its counterpart,
exactly when the last part, if there is one, is an object or null. -/
theorem updates_iff {lib : JsonLibrary} {gson : GsonLibrary} {readNumber : String → String} (hlib : lib.Lawful)
    (hgson : gson.Agrees lib readNumber) (jsonRequestTemplate requestStr : String) :
    Edits lib jsonRequestTemplate requestStr ∧ SameRequest lib gson jsonRequestTemplate requestStr ↔
      GoogleAi.PartFits lib jsonRequestTemplate :=
  ⟨fun h => GoogleAi.partFits_of_edits h.1,
    fun h => ⟨GoogleAi.edits_of_partFits hlib requestStr h,
      GoogleAiClient.sameRequest hlib hgson jsonRequestTemplate requestStr⟩⟩

/-! ## Libraries that keep each number as it is written -/

def verbatimJson : JsonLibrary where
  parse := Json.parse
  dump := Json.dump
  IsNumber := Json.IsNumber

def verbatimGson : GsonLibrary where
  parseString := Json.parse
  toString := Json.dump

theorem verbatimJson_lawful : verbatimJson.Lawful where
  parse_wellFormed := wellFormed_of_parse
  parse_dump h := (Json.parse_dump h).trans (congrArg some (sorted_of_wellFormed h))

theorem nodup_of_sorted {P : String → Prop} {json : Json} (h : json.WellFormed P Sorted) :
    json.WellFormed P List.Nodup := by
  induction h with
  | null => exact .null
  | boolean => exact .boolean
  | number h => exact .number h
  | string => exact .string
  | array _ ih => exact .array ih
  | object hsorted _ ih => exact .object (hsorted.imp ne_of_lt) ih

theorem verbatimGson_agrees : verbatimGson.Agrees verbatimJson id where
  parseString h h' := by
    cases h.symm.trans h'
    have hwf := wellFormed_of_parse h
    exact ⟨nodup_of_sorted hwf, (sorted_of_wellFormed hwf).symm⟩
  parse_toString h := Json.parse_dump h

/-- A template with one part. -/
def onePart (part : Json) : Json :=
  .object [("contents", .array [.object [("parts", .array [part])]])]

theorem parse_onePart {part : Json} (h : part.WellFormed IsNumber Sorted) :
    verbatimJson.parse (verbatimJson.dump (onePart part)) = some (onePart part) := by
  refine verbatimJson_lawful.parse_dump
    (.object (List.pairwise_singleton _ _) (List.forall_mem_singleton.mpr ?_))
  refine .array (List.forall_mem_singleton.mpr ?_)
  refine .object (List.pairwise_singleton _ _) (List.forall_mem_singleton.mpr ?_)
  exact .array (List.forall_mem_singleton.mpr h)

theorem partFits_onePart {part : Json} (h : part.WellFormed IsNumber Sorted) :
    GoogleAi.PartFits verbatimJson (verbatimJson.dump (onePart part)) ↔
      GoogleAi.isObjectOrNull part = true := by
  have hlast : GoogleAi.lastPart (onePart part) = some part := by
    cases part <;> rfl
  constructor
  · intro hfits
    exact hfits _ part (parse_onePart h) hlast
  · intro hpart json part' hparse hpart'
    rw [parse_onePart h] at hparse
    obtain rfl := Option.some.inj hparse
    rw [hlast] at hpart'
    exact Option.some.inj hpart' ▸ hpart

theorem updates_iff_onePart :
    Edits verbatimJson (verbatimJson.dump (onePart (.object [("text", .string "")]))) "hi" ∧
      SameRequest verbatimJson verbatimGson
        (verbatimJson.dump (onePart (.object [("text", .string "")]))) "hi" := by
  have hwf : (object [("text", string "")]).WellFormed IsNumber Sorted :=
    .object (List.pairwise_singleton _ _) (List.forall_mem_singleton.mpr .string)
  exact (updates_iff verbatimJson_lawful verbatimGson_agrees _ _).mpr ((partFits_onePart hwf).mpr rfl)

/-- A part that is a text throws. -/
theorem not_updates :
    ¬(Edits verbatimJson (verbatimJson.dump (onePart (.string "hello"))) "hi" ∧
      SameRequest verbatimJson verbatimGson (verbatimJson.dump (onePart (.string "hello"))) "hi") := by
  intro h
  have hfits := (partFits_onePart .string).mp (GoogleAi.partFits_of_edits h.1)
  exact Bool.false_ne_true hfits

end GenC
