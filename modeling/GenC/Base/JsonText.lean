import GenC.Base.Json
import Mathlib.Data.String.Basic

/-!
# JSON, written

`parse` and `dump` of a library that keeps the members of an object in the order of their names.

The reader needs no more fuel than the text has characters (`parse_eq_some_iff`), what it reads is well formed
(`wellFormed_of_parse`), and what is written is read again, with the members sorted (`parse_dump`).
-/

namespace GenC

namespace Json

/-! ## Enough fuel -/

/-- The value of a whole text: nothing but blanks follows it. -/
def complete : Json × List Char → Option Json
  | (json, rest) => if (skipWhitespace rest).isEmpty then some json else none

def parse (text : String) : Option Json :=
  (readValue text.toList.length text.toList).bind complete

theorem length_lt_of_skipWhitespace {c : Char} {input rest : List Char}
    (h : skipWhitespace input = c :: rest) : rest.length < input.length := by
  have hle := (cons_suffix_of_skipWhitespace h).length_le
  rw [List.length_cons] at hle
  exact hle

theorem length_lt_of_append {input read read' rest : List Char} (h : skipWhitespace input = read)
    (hread : read = read' ++ rest) (hne : read' ≠ []) : rest.length < input.length := by
  have hle := (skipWhitespace_suffix input).length_le
  have hlt := List.length_pos_iff.mpr hne
  rw [h, hread, List.length_append] at hle
  omega

/-- Something is read of a value. -/
theorem length_lt_of_readValue {fuel : Nat} {input rest : List Char} {json : Json}
    (h : readValue fuel input = some (json, rest)) : rest.length < input.length := by
  cases fuel with
  | zero => cases h
  | succ fuel =>
      cases readValue_iff.mp h with
      | emptyObject hopen hclose =>
          exact (length_lt_of_skipWhitespace hclose).trans (length_lt_of_skipWhitespace hopen)
      | object hopen _ hread =>
          exact ((read_written fuel).2.1 hread).1.length_le.trans_lt (length_lt_of_skipWhitespace hopen)
      | emptyArray hopen hclose =>
          exact (length_lt_of_skipWhitespace hclose).trans (length_lt_of_skipWhitespace hopen)
      | array hopen _ hread =>
          exact ((read_written fuel).2.2 hread).1.length_le.trans_lt (length_lt_of_skipWhitespace hopen)
      | string hopen hread =>
          exact (readString_suffix hread).1.length_le.trans_lt (length_lt_of_skipWhitespace hopen)
      | true hopen hread => exact length_lt_of_append hopen (readWord_iff.mp hread).2 (by decide)
      | false hopen hread => exact length_lt_of_append hopen (readWord_iff.mp hread).2 (by decide)
      | null hopen hread => exact length_lt_of_append hopen (readWord_iff.mp hread).2 (by decide)
      | number _ hread =>
          obtain ⟨text, -, hinput, ⟨c, cs, rfl, -⟩, -⟩ := readNumber_spec hread
          exact length_lt_of_append hinput rfl (by simp)

/-- The fuel that is used is no more than the characters that are read. -/
theorem read_enough (fuel : Nat) :
    (∀ {input json rest}, readValue fuel input = some (json, rest) →
      ∀ n, input.length ≤ n + rest.length → readValue n input = some (json, rest)) ∧
    (∀ {input members rest}, readMembers fuel input = some (members, rest) →
      ∀ n, input.length ≤ n + rest.length → readMembers n input = some (members, rest)) ∧
    ∀ {input elements rest}, readElements fuel input = some (elements, rest) →
      ∀ n, input.length ≤ n + rest.length → readElements n input = some (elements, rest) := by
  induction fuel with
  | zero => exact ⟨nofun, nofun, nofun⟩
  | succ fuel ih =>
      obtain ⟨hvalue, hmembers, helements⟩ := ih
      -- what a reader leaves is never longer than its input
      have hvalue' {input json rest} (h : readValue fuel input = some (json, rest)) :=
        ((read_written fuel).1 h).1.length_le
      have hmembers' {input members rest} (h : readMembers fuel input = some (members, rest)) :=
        ((read_written fuel).2.1 h).1.length_le
      have helements' {input elements rest} (h : readElements fuel input = some (elements, rest)) :=
        ((read_written fuel).2.2 h).1.length_le
      refine ⟨fun h n hn => ?_, fun h n hn => ?_, fun h n hn => ?_⟩
      -- a value takes at least one character, which pays for this round
      · have hlt := length_lt_of_readValue h
        obtain ⟨n, rfl⟩ : ∃ m, n = m + 1 := ⟨n - 1, by omega⟩
        refine readValue_iff.mpr ?_
        cases readValue_iff.mp h with
        | emptyObject hopen hclose => exact .emptyObject hopen hclose
        | object hopen hclose hread =>
            have hopen' := length_lt_of_skipWhitespace hopen
            exact .object hopen hclose (hmembers hread n (by omega))
        | emptyArray hopen hclose => exact .emptyArray hopen hclose
        | array hopen hclose hread =>
            have hopen' := length_lt_of_skipWhitespace hopen
            exact .array hopen hclose (helements hread n (by omega))
        | string hopen hread => exact .string hopen hread
        | true hopen hread => exact .true hopen hread
        | false hopen hread => exact .false hopen hread
        | null hopen hread => exact .null hopen hread
        | number hopen hread => exact .number hopen hread
      · cases readMembers_iff.mp h with
        | last hopen hkey hcolon hread hclose =>
            have hopen' := length_lt_of_skipWhitespace hopen
            have hkey' := (readString_suffix hkey).1.length_le
            have hcolon' := length_lt_of_skipWhitespace hcolon
            have hclose' := length_lt_of_skipWhitespace hclose
            have hread' := hvalue' hread
            obtain ⟨n, rfl⟩ : ∃ m, n = m + 1 := ⟨n - 1, by omega⟩
            exact readMembers_iff.mpr (.last hopen hkey hcolon (hvalue hread n (by omega)) hclose)
        | more hopen hkey hcolon hread hcomma hmore =>
            have hopen' := length_lt_of_skipWhitespace hopen
            have hkey' := (readString_suffix hkey).1.length_le
            have hcolon' := length_lt_of_skipWhitespace hcolon
            have hcomma' := length_lt_of_skipWhitespace hcomma
            have hread' := hvalue' hread
            have hmore' := hmembers' hmore
            obtain ⟨n, rfl⟩ : ∃ m, n = m + 1 := ⟨n - 1, by omega⟩
            exact readMembers_iff.mpr (.more hopen hkey hcolon (hvalue hread n (by omega)) hcomma
              (hmembers hmore n (by omega)))
      · cases readElements_iff.mp h with
        | last hread hclose =>
            have hclose' := length_lt_of_skipWhitespace hclose
            have hread' := hvalue' hread
            obtain ⟨n, rfl⟩ : ∃ m, n = m + 1 := ⟨n - 1, by omega⟩
            exact readElements_iff.mpr (.last (hvalue hread n (by omega)) hclose)
        | more hread hcomma hmore =>
            have hcomma' := length_lt_of_skipWhitespace hcomma
            have hread' := hvalue' hread
            have hmore' := helements' hmore
            obtain ⟨n, rfl⟩ : ∃ m, n = m + 1 := ⟨n - 1, by omega⟩
            exact readElements_iff.mpr (.more (hvalue hread n (by omega)) hcomma (helements hmore n (by omega)))

theorem parse_eq_some_iff {text : String} {json : Json} : parse text = some json ↔ Parses text json := by
  rw [parse, Option.bind_eq_some_iff]
  constructor
  · rintro ⟨⟨json', rest⟩, hread, hcomplete⟩
    rw [complete] at hcomplete
    split at hcomplete
    · next hrest =>
        cases hcomplete
        exact ⟨_, rest, hread, List.isEmpty_iff.mp hrest⟩
    · cases hcomplete
  · rintro ⟨fuel, rest, hread, hrest⟩
    refine ⟨(json, rest), (read_enough fuel).1 hread _ (Nat.le_add_right _ _), ?_⟩
    rw [complete, hrest]
    rfl

/-! ## Well-formed values -/

/-- The numbers, and the names of each object, are as they have to be. -/
inductive WellFormed (IsNumber : String → Prop) (Names : List String → Prop) : Json → Prop where
  | null : WellFormed IsNumber Names .null
  | boolean {b : Bool} : WellFormed IsNumber Names (.boolean b)
  | number {text : String} (h : IsNumber text) : WellFormed IsNumber Names (.number text)
  | string {s : String} : WellFormed IsNumber Names (.string s)
  | array {elements : List Json} (h : ∀ element ∈ elements, WellFormed IsNumber Names element) :
      WellFormed IsNumber Names (.array elements)
  | object {members : List (String × Json)} (hnames : Names (members.map Prod.fst))
      (h : ∀ member ∈ members, WellFormed IsNumber Names member.2) : WellFormed IsNumber Names (.object members)

/-- The names of a `std::map`. -/
def Sorted (names : List String) : Prop := names.Pairwise (· < ·)

/-- The text is one number. -/
def IsNumber (text : String) : Prop := readNumber text.toList = some (.number text, [])

mutual

/-- The value with the members of its objects in a `std::map`, and its numbers as they are read. -/
def sorted (readNumber : String → String) : Json → Json
  | .null => .null
  | .boolean b => .boolean b
  | .number text => .number (readNumber text)
  | .string s => .string s
  | .array elements => .array (sortedElements readNumber elements)
  | .object members => ofMembers (sortedMembers readNumber members)

def sortedElements (readNumber : String → String) : List Json → List Json
  | [] => []
  | element :: elements => element.sorted readNumber :: sortedElements readNumber elements

def sortedMembers (readNumber : String → String) : List (String × Json) → List (String × Json)
  | [] => []
  | (key, value) :: members => (key, value.sorted readNumber) :: sortedMembers readNumber members

end

theorem sortedElements_eq (readNumber : String → String) (elements : List Json) :
    sortedElements readNumber elements = elements.map (·.sorted readNumber) := by
  induction elements with
  | nil => rfl
  | cons element elements ih => rw [sortedElements, ih, List.map_cons]

theorem sortedMembers_eq (readNumber : String → String) (members : List (String × Json)) :
    sortedMembers readNumber members = members.map fun member => (member.1, member.2.sorted readNumber) := by
  induction members with
  | nil => rfl
  | cons member members ih => rw [sortedMembers, ih, List.map_cons]

theorem sorted_insertMember {key : String} {value : Json} {members : List (String × Json)}
    (h : Sorted (members.map Prod.fst)) : Sorted ((insertMember key value members).map Prod.fst) := by
  induction members with
  | nil => exact List.pairwise_singleton _ _
  | cons member members ih =>
      obtain ⟨key', value'⟩ := member
      obtain ⟨hkey', hmembers⟩ := List.pairwise_cons.mp h
      rw [insertMember]
      split
      · next heq =>
          subst heq
          exact List.pairwise_cons.mpr ⟨hkey', hmembers⟩
      · next hne =>
          split
          · next hlt =>
              refine List.pairwise_cons.mpr ⟨fun key'' hmem => ?_, h⟩
              rcases List.mem_cons.mp hmem with rfl | hmem
              · exact hlt
              -- the new key is less than the first, so less than all
              · exact hlt.trans (hkey' _ hmem)
          · next hge =>
              refine List.pairwise_cons.mpr ⟨fun key'' hmem => ?_, ih hmembers⟩
              obtain ⟨member, hmember, rfl⟩ := List.mem_map.mp hmem
              rcases mem_of_mem_insertMember hmember with rfl | hmember
              · exact lt_of_le_of_ne (not_lt.mp hge) (Ne.symm hne)
              · exact hkey' _ (List.mem_map_of_mem hmember)

theorem sorted_foldl_insertMember {members acc : List (String × Json)} (h : Sorted (acc.map Prod.fst)) :
    Sorted ((members.foldl (fun acc member => insertMember member.1 member.2 acc) acc).map Prod.fst) := by
  induction members generalizing acc with
  | nil => exact h
  | cons member members ih => exact ih (sorted_insertMember h)

theorem wellFormed_ofMembers {P : String → Prop} {members : List (String × Json)}
    (h : ∀ member ∈ members, WellFormed P Sorted member.2) : WellFormed P Sorted (ofMembers members) := by
  refine .object (sorted_foldl_insertMember List.Pairwise.nil) fun member hmem => ?_
  rcases mem_of_mem_foldl_insertMember hmem with hmem | hmem
  · exact h member hmem
  · cases hmem

/-- What is read is well formed. -/
theorem read_wellFormed (fuel : Nat) :
    (∀ {input json rest}, readValue fuel input = some (json, rest) → json.WellFormed IsNumber Sorted) ∧
    (∀ {input members rest}, readMembers fuel input = some (members, rest) →
      ∀ member ∈ members, member.2.WellFormed IsNumber Sorted) ∧
    ∀ {input elements rest}, readElements fuel input = some (elements, rest) →
      ∀ element ∈ elements, element.WellFormed IsNumber Sorted := by
  induction fuel with
  | zero => exact ⟨nofun, nofun, nofun⟩
  | succ fuel ih =>
      obtain ⟨hvalue, hmembers, helements⟩ := ih
      refine ⟨fun h => ?_, fun h => ?_, fun h => ?_⟩
      · cases readValue_iff.mp h with
        | emptyObject _ _ => exact .object List.Pairwise.nil (List.forall_mem_nil _)
        | object _ _ hread => exact wellFormed_ofMembers (hmembers hread)
        | emptyArray _ _ => exact .array (List.forall_mem_nil _)
        | array _ _ hread => exact .array (helements hread)
        | string _ _ => exact .string
        | true _ _ => exact .boolean
        | false _ _ => exact .boolean
        | null _ _ => exact .null
        | number _ hread =>
            obtain ⟨text, heq, -, -, hread⟩ := readNumber_spec hread
            cases heq
            -- the text of the number is a number by itself
            have hnumber := hread [] stops_nil
            rw [List.append_nil] at hnumber
            exact .number (by rw [IsNumber, String.toList_ofList]; exact hnumber)
      · cases readMembers_iff.mp h with
        | last _ _ _ hread _ => exact List.forall_mem_singleton.mpr (hvalue hread)
        | more _ _ _ hread _ hmore => exact List.forall_mem_cons.mpr ⟨hvalue hread, hmembers hmore⟩
      · cases readElements_iff.mp h with
        | last hread _ => exact List.forall_mem_singleton.mpr (hvalue hread)
        | more hread _ hmore => exact List.forall_mem_cons.mpr ⟨hvalue hread, helements hmore⟩

theorem wellFormed_of_parse {text : String} {json : Json} (h : parse text = some json) :
    json.WellFormed IsNumber Sorted := by
  obtain ⟨fuel, rest, hread, -⟩ := parse_eq_some_iff.mp h
  exact (read_wellFormed fuel).1 hread

/-- A member after all others stands after them. -/
theorem insertMember_of_lt {key : String} {value : Json} {members : List (String × Json)}
    (h : ∀ key' ∈ members.map Prod.fst, key' < key) :
    insertMember key value members = members ++ [(key, value)] := by
  induction members with
  | nil => rfl
  | cons member members ih =>
      obtain ⟨hlt, hmembers⟩ := List.forall_mem_cons.mp h
      rw [insertMember, if_neg hlt.ne', if_neg hlt.not_gt, ih hmembers]
      rfl

theorem foldl_insertMember_of_sorted {members acc : List (String × Json)}
    (h : Sorted ((acc ++ members).map Prod.fst)) :
    members.foldl (fun acc member => insertMember member.1 member.2 acc) acc = acc ++ members := by
  induction members generalizing acc with
  | nil => exact (List.append_nil acc).symm
  | cons member members ih =>
      rw [List.foldl_cons, insertMember_of_lt]
      · rw [ih (by rwa [List.append_assoc]), List.append_assoc]
        rfl
      · intro key hkey
        rw [List.map_append] at h
        exact (List.pairwise_append.mp h).2.2 key hkey _ List.mem_cons_self

/-- A value that is sorted stays as it is. -/
theorem sorted_of_wellFormed {P : String → Prop} {json : Json} (h : json.WellFormed P Sorted) :
    json.sorted id = json := by
  induction h with
  | null => rfl
  | boolean => rfl
  | number _ => rfl
  | string => rfl
  | array _ ih =>
      rw [sorted, sortedElements_eq]
      exact congrArg _ ((List.map_congr_left ih).trans (List.map_id _))
  | @object members hnames _ ih =>
      have hmap : sortedMembers id members = members := by
        rw [sortedMembers_eq]
        refine (List.map_congr_left fun member hmem => ?_).trans (List.map_id _)
        rw [ih member hmem]
        rfl
      rw [sorted, hmap, ofMembers, @foldl_insertMember_of_sorted members [] hnames]
      rfl

/-! ### Members -/

theorem lookup_member_cons (member : String × Json) (members : List (String × Json)) (key : String) :
    (member :: members).lookup key = if key = member.1 then some member.2 else members.lookup key := by
  rw [List.lookup_cons]
  by_cases h : key = member.1
  · rw [if_pos h, beq_iff_eq.mpr h]
  · rw [if_neg h, beq_false_of_ne h]

theorem lookup_insertMember (key key' : String) (value : Json) (members : List (String × Json)) :
    (insertMember key value members).lookup key' = if key' = key then some value else members.lookup key' := by
  induction members with
  | nil => rw [insertMember, lookup_member_cons]
  | cons member members ih =>
      obtain ⟨key'', value''⟩ := member
      rw [insertMember]
      split
      · next heq =>
          subst heq
          rw [lookup_member_cons, lookup_member_cons]
          split <;> rfl
      · next hne =>
          split
          · rw [lookup_member_cons]
          · rw [lookup_member_cons, lookup_member_cons, ih]
            by_cases h : key' = key''
            · rw [if_pos h, if_pos h, if_neg (h ▸ Ne.symm hne)]
            · rw [if_neg h, if_neg h]

theorem lookup_isSome_iff {members : List (String × Json)} {key : String} :
    (members.lookup key).isSome ↔ key ∈ members.map Prod.fst := by
  induction members with
  | nil => simp
  | cons member members ih =>
      rw [lookup_member_cons, List.map_cons, List.mem_cons]
      by_cases h : key = member.1
      · simp [h]
      · rw [if_neg h, ih]
        simp [h]

theorem lookup_eq_none {members : List (String × Json)} {key : String} (h : key ∉ members.map Prod.fst) :
    members.lookup key = none := by
  rw [← Option.not_isSome_iff_eq_none, lookup_isSome_iff]
  exact h

theorem lookup_foldl_insertMember {members acc : List (String × Json)} (hnodup : (members.map Prod.fst).Nodup)
    (key : String) :
    (members.foldl (fun acc member => insertMember member.1 member.2 acc) acc).lookup key =
      (members.lookup key).or (acc.lookup key) := by
  induction members generalizing acc with
  | nil => rfl
  | cons member members ih =>
      obtain ⟨hmem, hnodup⟩ := List.nodup_cons.mp hnodup
      rw [List.foldl_cons, ih hnodup, lookup_insertMember, lookup_member_cons]
      by_cases h : key = member.1
      · rw [if_pos h, if_pos h, lookup_eq_none (h ▸ hmem)]
        rfl
      · rw [if_neg h, if_neg h]

/-- A map is what it finds. -/
theorem eq_of_lookup_eq {members members' : List (String × Json)} (h : Sorted (members.map Prod.fst))
    (h' : Sorted (members'.map Prod.fst)) (heq : ∀ key, members.lookup key = members'.lookup key) :
    members = members' := by
  induction members generalizing members' with
  | nil =>
      cases members' with
      | nil => rfl
      | cons member' members' =>
          have hfind := heq member'.1
          rw [lookup_member_cons, if_pos rfl] at hfind
          cases hfind
  | cons member members ih =>
      cases members' with
      | nil =>
          have hfind := heq member.1
          rw [lookup_member_cons, if_pos rfl] at hfind
          cases hfind
      | cons member' members' =>
          obtain ⟨hlt, hmembers⟩ := List.pairwise_cons.mp h
          obtain ⟨hlt', hmembers'⟩ := List.pairwise_cons.mp h'
          -- each first name is in both, and so it is the least in both
          have hmem : member.1 ∈ (member' :: members').map Prod.fst := by
            rw [← lookup_isSome_iff, ← heq, lookup_isSome_iff]
            exact List.mem_cons_self
          have hmem' : member'.1 ∈ (member :: members).map Prod.fst := by
            rw [← lookup_isSome_iff, heq, lookup_isSome_iff]
            exact List.mem_cons_self
          have hname : member.1 = member'.1 := by
            rcases List.mem_cons.mp hmem with hname | hmem
            · exact hname
            · rcases List.mem_cons.mp hmem' with hname | hmem'
              · exact hname.symm
              · exact absurd ((hlt _ hmem').trans (hlt' _ hmem)) (lt_irrefl _)
          have hvalue : member.2 = member'.2 := by
            have hfind := heq member.1
            rw [lookup_member_cons, lookup_member_cons, if_pos rfl, if_pos hname] at hfind
            exact Option.some.inj hfind
          have hrest : members = members' := by
            refine ih hmembers hmembers' fun key => ?_
            by_cases hkey : key = member.1
            · rw [lookup_eq_none, lookup_eq_none]
              · exact fun hmem => lt_irrefl _ (hlt' _ (hname ▸ hkey ▸ hmem))
              · exact fun hmem => lt_irrefl _ (hlt _ (hkey ▸ hmem))
            · have hfind := heq key
              rw [lookup_member_cons, lookup_member_cons, if_neg hkey, if_neg (hname ▸ hkey)] at hfind
              exact hfind
          rw [hrest, Prod.ext hname hvalue]

/-- The value of a name that is there is replaced. -/
theorem insertMember_middle {key : String} {value old : Json} {before after : List (String × Json)}
    (h : ∀ key' ∈ before.map Prod.fst, key' < key) :
    insertMember key value (before ++ (key, old) :: after) = before ++ (key, value) :: after := by
  induction before with
  | nil => exact if_pos rfl
  | cons member before ih =>
      obtain ⟨hlt, hbefore⟩ := List.forall_mem_cons.mp h
      rw [List.cons_append, insertMember, if_neg hlt.ne', if_neg hlt.not_gt, ih hbefore]
      rfl

/-- A new name is put among the others. -/
theorem insertMember_new {key : String} {members : List (String × Json)} (value : Json)
    (h : key ∉ members.map Prod.fst) :
    ∃ before after, members = before ++ after ∧
      insertMember key value members = before ++ (key, value) :: after := by
  induction members with
  | nil => exact ⟨[], [], rfl, rfl⟩
  | cons member members ih =>
      rw [List.map_cons, List.mem_cons, not_or] at h
      rw [insertMember, if_neg h.1]
      split
      · exact ⟨[], member :: members, rfl, rfl⟩
      · obtain ⟨before, after, hmembers, hinsert⟩ := ih h.2
        exact ⟨member :: before, after, by rw [hmembers]; rfl, by rw [hinsert]; rfl⟩

theorem map_fst_sortedMembers (readNumber : String → String) (members : List (String × Json)) :
    (sortedMembers readNumber members).map Prod.fst = members.map Prod.fst := by
  rw [sortedMembers_eq, List.map_map]
  rfl

theorem lookup_sortedMembers (readNumber : String → String) (members : List (String × Json)) (key : String) :
    (sortedMembers readNumber members).lookup key = (members.lookup key).map (·.sorted readNumber) := by
  induction members with
  | nil => rfl
  | cons member members ih =>
      rw [sortedMembers, lookup_member_cons, lookup_member_cons, ih]
      split <;> rfl

/-- A member of an object is found in its map. -/
theorem find_sorted {readNumber : String → String} {members : List (String × Json)}
    (hnodup : (members.map Prod.fst).Nodup) (key : String) :
    ((object members).sorted readNumber).find key = (members.lookup key).map (·.sorted readNumber) := by
  rw [sorted, ofMembers, find, lookup_foldl_insertMember (by rwa [map_fst_sortedMembers]),
    lookup_sortedMembers]
  exact Option.or_none

/-! ## Writing -/

/-- What is written in the place of a character. -/
def escaped (c : Char) : List Char :=
  match c with
  | '"' => ['\\', '"']
  | '\\' => ['\\', '\\']
  | '\x08' => ['\\', 'b']
  | '\x0c' => ['\\', 'f']
  | '\n' => ['\\', 'n']
  | '\r' => ['\\', 'r']
  | '\t' => ['\\', 't']
  | c => if c < ' ' then ['\\', 'u', '0', '0'] ++ [(c.toNat / 16).digitChar, (c.toNat % 16).digitChar] else [c]

/-- A string, after its opening quote. -/
def stringText (s : String) : List Char := s.toList.flatMap escaped ++ ['"']

mutual

def text : Json → List Char
  | .null => "null".toList
  | .boolean true => "true".toList
  | .boolean false => "false".toList
  | .number text => text.toList
  | .string s => '"' :: stringText s
  | .array elements => '[' :: elementsText elements
  | .object members => '{' :: membersText members

/-- The elements, up to the bracket. -/
def elementsText : List Json → List Char
  | [] => [']']
  | [element] => element.text ++ [']']
  | element :: elements => element.text ++ ',' :: elementsText elements

/-- The members, up to the brace. -/
def membersText : List (String × Json) → List Char
  | [] => ['}']
  | [(key, value)] => '"' :: stringText key ++ ':' :: value.text ++ ['}']
  | (key, value) :: members => '"' :: stringText key ++ ':' :: value.text ++ ',' :: membersText members

end

def dump (json : Json) : String := .ofList json.text

/-! ### Strings -/

/-- A control character is its two digits. -/
theorem codeUnit_of_control : ∀ n < 32,
    codeUnit '0' '0' (n / 16).digitChar (n % 16).digitChar = some n ∧
      (n / 16).digitChar ≠ '"' ∧ (n / 16).digitChar ≠ '\\' ∧
      (n % 16).digitChar ≠ '"' ∧ (n % 16).digitChar ≠ '\\' := by
  decide

theorem toNat_lt_of_control {c : Char} (h : c < ' ') : c.toNat < 32 := h

theorem unescape_escaped (c : Char) (raw : List Char) :
    unescape (escaped c ++ raw) = (unescape raw).map (c :: ·) := by
  unfold escaped
  split
  case _ => rfl
  case _ => rfl
  case _ => rfl
  case _ => rfl
  case _ => rfl
  case _ => rfl
  case _ => rfl
  case _ hquote hbackslash _ _ _ _ _ =>
    split
    · next hcontrol =>
        -- a control character is written with four hexadecimal digits
        obtain ⟨hunit, -⟩ := codeUnit_of_control c.toNat (toNat_lt_of_control hcontrol)
        have hlt := toNat_lt_of_control hcontrol
        simp only [List.cons_append, List.nil_append]
        rw [unescape, hunit]
        dsimp only
        rw [if_pos (.inl (by omega)), Char.ofNat_toNat]
    · next hcontrol =>
        rw [List.singleton_append, unescape, if_neg hcontrol]
        · exact fun _ _ _ _ _ hc => absurd hc hbackslash
        · exact fun _ _ hc => absurd hc hbackslash
        · exact fun hc => absurd hc hbackslash

theorem rawString_cons {c : Char} {input : List Char} (hquote : c ≠ '"') (hbackslash : c ≠ '\\') :
    rawString (c :: input) = (rawString input).map fun (raw, rest) => (c :: raw, rest) := by
  rw [rawString]
  · exact hquote
  · exact fun _ _ hc => absurd hc hbackslash

theorem rawString_escaped (c : Char) (input : List Char) :
    rawString (escaped c ++ input) = (rawString input).map fun (raw, rest) => (escaped c ++ raw, rest) := by
  unfold escaped
  split
  case _ => rfl
  case _ => rfl
  case _ => rfl
  case _ => rfl
  case _ => rfl
  case _ => rfl
  case _ => rfl
  case _ hquote hbackslash _ _ _ _ _ =>
    split
    · next hcontrol =>
        obtain ⟨-, h₁, h₂, h₃, h₄⟩ := codeUnit_of_control c.toNat (toNat_lt_of_control hcontrol)
        simp only [List.cons_append, List.nil_append]
        rw [rawString, rawString_cons (by decide) (by decide), rawString_cons (by decide) (by decide),
          rawString_cons h₁ h₂, rawString_cons h₃ h₄]
        simp only [Option.map_map]
        rfl
    · next hcontrol =>
        exact rawString_cons hquote hbackslash

theorem readString_text (s : String)
    (rest : List Char) : readString (stringText s ++ rest) = some (s, rest) := by
  have hraw : rawString (s.toList.flatMap escaped ++ '"' :: rest) = some (s.toList.flatMap escaped, rest) := by
    induction s.toList with
    | nil => rfl
    | cons c cs ih =>
        rw [List.flatMap_cons, List.append_assoc, rawString_escaped, ih]
        rfl
  have hunescape : unescape (s.toList.flatMap escaped) = some s.toList := by
    induction s.toList with
    | nil => rfl
    | cons c cs ih =>
        rw [List.flatMap_cons, unescape_escaped, ih]
        rfl
  rw [stringText, List.append_assoc, List.singleton_append, readString, hraw]
  simp only [Option.bind_eq_bind, Option.bind_some, hunescape, String.ofList_toList]
  rfl

/-! ### Values -/

theorem readMembers_mono {fuel fuel' : Nat} {input rest : List Char} {members : List (String × Json)}
    (hle : fuel ≤ fuel') (h : readMembers fuel input = some (members, rest)) :
    readMembers fuel' input = some (members, rest) := by
  induction hle with
  | refl => exact h
  | step _ ih => exact (read_mono _).2.1 ih

theorem readElements_mono {fuel fuel' : Nat} {input rest : List Char} {elements : List Json}
    (hle : fuel ≤ fuel') (h : readElements fuel input = some (elements, rest)) :
    readElements fuel' input = some (elements, rest) := by
  induction hle with
  | refl => exact h
  | step _ ih => exact (read_mono _).2.2 ih

/-- The value is read from its text, whatever follows, if it does not go on with a number. -/
def ReadsBack (json : Json) : Prop :=
  ∃ fuel, ∀ rest, Stops Continues rest → readValue fuel (json.text ++ rest) = some (json.sorted id, rest)

/-- What a number begins with, nothing else does. -/
theorem number_head {c : Char} (h : c = '-' ∨ c.isDigit = true) :
    isWhitespace c = false ∧ c ∉ [']', '{', '[', '"', 't', 'f', 'n'] := by
  have hne (c' : Char) (hc' : ¬(c' = '-' ∨ c'.isDigit = true)) : c ≠ c' := fun heq => hc' (heq ▸ h)
  constructor
  · simp [isWhitespace, hne ' ' (by decide), hne '\t' (by decide), hne '\n' (by decide), hne '\r' (by decide)]
  · simp [hne ']' (by decide), hne '{' (by decide), hne '[' (by decide), hne '"' (by decide),
      hne 't' (by decide), hne 'f' (by decide), hne 'n' (by decide)]

theorem skipWhitespace_cons {c : Char} (cs : List Char) (h : isWhitespace c = false) :
    skipWhitespace (c :: cs) = c :: cs := by
  rw [skipWhitespace, List.dropWhile_cons, if_neg (by rw [h]; exact Bool.false_ne_true)]

/-- A text does not begin with a blank or a closing bracket. -/
theorem head_text {Names : List String → Prop} {json : Json} (h : json.WellFormed IsNumber Names) :
    ∃ c cs, json.text = c :: cs ∧ isWhitespace c = false ∧ c ≠ ']' := by
  cases h with
  | null => exact ⟨'n', _, rfl, rfl, by decide⟩
  | @boolean b =>
      cases b with
      | true => exact ⟨'t', _, rfl, rfl, by decide⟩
      | false => exact ⟨'f', _, rfl, rfl, by decide⟩
  | @number text hnumber =>
      obtain ⟨cs, heq, -, ⟨c, cs', rfl, hc⟩, -⟩ := readNumber_spec hnumber
      cases heq
      obtain ⟨hblank, hother⟩ := number_head hc
      exact ⟨c, cs', String.toList_ofList, hblank, fun heq => hother (heq ▸ List.mem_cons_self)⟩
  | string => exact ⟨'"', _, rfl, rfl, by decide⟩
  | array _ => exact ⟨'[', _, rfl, rfl, by decide⟩
  | object _ _ => exact ⟨'{', _, rfl, rfl, by decide⟩

theorem readElements_text {elements : List Json} (hne : elements ≠ [])
    (h : ∀ element ∈ elements, element.ReadsBack) :
    ∃ fuel, ∀ rest, readElements fuel (elementsText elements ++ rest) =
      some (sortedElements id elements, rest) := by
  induction elements with
  | nil => exact absurd rfl hne
  | cons element elements ih =>
      obtain ⟨⟨fuel, hread⟩, helements⟩ := List.forall_mem_cons.mp h
      cases elements with
      | nil =>
          refine ⟨fuel + 1, fun rest => readElements_iff.mpr ?_⟩
          rw [elementsText, List.append_assoc]
          exact .last (hread _ (stops_cons _ (by decide))) (skipWhitespace_cons _ rfl)
      | cons element' elements =>
          obtain ⟨fuel', hmore⟩ := ih (List.cons_ne_nil _ _) helements
          refine ⟨max fuel fuel' + 1, fun rest => readElements_iff.mpr ?_⟩
          rw [elementsText, List.append_assoc]
          -- with the larger fuel, the first element and the rest are both read
          · exact .more (readValue_mono (Nat.le_max_left _ _) (hread _ (stops_cons _ (by decide))))
              (skipWhitespace_cons _ rfl) (readElements_mono (Nat.le_max_right _ _) (hmore rest))
          · exact List.cons_ne_nil _ _

theorem readMembers_text {members : List (String × Json)} (hne : members ≠ [])
    (h : ∀ member ∈ members, member.2.ReadsBack) :
    ∃ fuel, ∀ rest, readMembers fuel (membersText members ++ rest) = some (sortedMembers id members, rest) := by
  induction members with
  | nil => exact absurd rfl hne
  | cons member members ih =>
      obtain ⟨key, value⟩ := member
      obtain ⟨⟨fuel, hread⟩, hmembers⟩ := List.forall_mem_cons.mp h
      cases members with
      | nil =>
          refine ⟨fuel + 1, fun rest => readMembers_iff.mpr ?_⟩
          simp only [membersText, List.cons_append, List.append_assoc]
          exact .last (skipWhitespace_cons _ rfl) (readString_text _ _) (skipWhitespace_cons _ rfl)
            (hread _ (stops_cons _ (by decide))) (skipWhitespace_cons _ rfl)
      | cons member' members =>
          obtain ⟨fuel', hmore⟩ := ih (List.cons_ne_nil _ _) hmembers
          refine ⟨max fuel fuel' + 1, fun rest => readMembers_iff.mpr ?_⟩
          rw [membersText]
          · simp only [List.cons_append, List.append_assoc]
            exact .more (skipWhitespace_cons _ rfl) (readString_text _ _) (skipWhitespace_cons _ rfl)
              (readValue_mono (Nat.le_max_left _ _) (hread _ (stops_cons _ (by decide))))
              (skipWhitespace_cons _ rfl) (readMembers_mono (Nat.le_max_right _ _) (hmore rest))
          · exact List.cons_ne_nil _ _

theorem elementsText_cons (element : Json) (elements : List Json) :
    ∃ tail, elementsText (element :: elements) = element.text ++ tail := by
  cases elements with
  | nil => exact ⟨_, rfl⟩
  | cons element' elements => exact ⟨_, rfl⟩

theorem membersText_cons (member : String × Json) (members : List (String × Json)) :
    ∃ tail, membersText (member :: members) = '"' :: tail := by
  cases members with
  | nil => exact ⟨_, rfl⟩
  | cons member' members => exact ⟨_, rfl⟩

/-- A value is read from its text as it is, with its members sorted. -/
theorem readsBack {Names : List String → Prop} {json : Json} (h : json.WellFormed IsNumber Names) :
    json.ReadsBack := by
  induction h with
  | null => exact ⟨1, fun rest _ => readValue_iff.mpr (.null (skipWhitespace_cons _ rfl) rfl)⟩
  | @boolean b =>
      cases b with
      | true => exact ⟨1, fun rest _ => readValue_iff.mpr (.true (skipWhitespace_cons _ rfl) rfl)⟩
      | false => exact ⟨1, fun rest _ => readValue_iff.mpr (.false (skipWhitespace_cons _ rfl) rfl)⟩
  | @number text hnumber =>
      refine ⟨1, fun rest hrest => readValue_iff.mpr ?_⟩
      obtain ⟨cs, heq, -, ⟨c, cs', rfl, hc⟩, hread⟩ := readNumber_spec hnumber
      cases heq
      obtain ⟨hblank, hother⟩ := number_head hc
      have htext : (number (.ofList (c :: cs'))).text = c :: cs' := String.toList_ofList
      rw [htext, List.cons_append, sorted]
      refine .number (fun c' hc' r heq => ?_) ?_
      -- the first character of a number starts nothing else
      · rw [skipWhitespace_cons _ hblank] at heq
        cases heq
        exact hother (.tail _ hc')
      · rw [skipWhitespace_cons _ hblank]
        exact hread rest hrest
  | string =>
      exact ⟨1, fun rest _ => readValue_iff.mpr (.string (skipWhitespace_cons _ rfl) (readString_text _ _))⟩
  | @array elements h ih =>
      by_cases hne : elements = []
      · subst hne
        exact ⟨1, fun rest _ => readValue_iff.mpr
          (.emptyArray (skipWhitespace_cons _ rfl) (skipWhitespace_cons _ rfl))⟩
      · obtain ⟨fuel, hread⟩ := readElements_text hne ih
        refine ⟨fuel + 1, fun rest _ => readValue_iff.mpr
          (.array (skipWhitespace_cons _ rfl) (fun r => ?_) (hread rest))⟩
        -- the first element does not start with the bracket that would close the array
        obtain ⟨element, elements, rfl⟩ := List.exists_cons_of_ne_nil hne
        obtain ⟨tail, htail⟩ := elementsText_cons element elements
        obtain ⟨c, cs, htext, hblank, hbracket⟩ := head_text (h element List.mem_cons_self)
        change skipWhitespace (elementsText (element :: elements) ++ rest) ≠ _
        rw [htail, htext, List.cons_append, List.cons_append, skipWhitespace_cons _ hblank]
        exact fun heq => hbracket (List.cons.inj heq).1
  | @object members _ h ih =>
      by_cases hne : members = []
      · subst hne
        exact ⟨1, fun rest _ => readValue_iff.mpr
          (.emptyObject (skipWhitespace_cons _ rfl) (skipWhitespace_cons _ rfl))⟩
      · obtain ⟨fuel, hread⟩ := readMembers_text hne ih
        refine ⟨fuel + 1, fun rest _ => readValue_iff.mpr
          (.object (skipWhitespace_cons _ rfl) (fun r => ?_) (hread rest))⟩
        -- nor does the first member start with the closing brace
        obtain ⟨member, members, rfl⟩ := List.exists_cons_of_ne_nil hne
        obtain ⟨tail, htail⟩ := membersText_cons member members
        change skipWhitespace (membersText (member :: members) ++ rest) ≠ _
        rw [htail, List.cons_append, skipWhitespace_cons _ rfl]
        exact fun heq => absurd (List.cons.inj heq).1 (by decide)

theorem parse_dump {Names : List String → Prop} {json : Json} (h : json.WellFormed IsNumber Names) :
    parse json.dump = some (json.sorted id) := by
  obtain ⟨fuel, hread⟩ := readsBack h
  have hread := hread [] stops_nil
  rw [List.append_nil] at hread
  refine parse_eq_some_iff.mpr ⟨fuel, [], ?_, rfl⟩
  rw [dump, String.toList_ofList]
  exact hread

end Json

end GenC
