import Mathlib.Data.List.Infix

/-!
# JSON

`nlohmann::json` as the code uses it: a value, with the members of an object under their names, and the
grammar by which a text is read.

The reader is given fuel for the depth of its calls. `Json.Parses` is reading with any fuel that is enough,
and there is one value at most that a text parses to (`Json.Parses.unique`). A number is kept as its text.
-/

namespace GenC

/-- `nlohmann::json`. The first member of a name is the one that counts. -/
inductive Json where
  | null
  | boolean (b : Bool)
  | number (text : String)
  | string (s : String)
  | array (elements : List Json)
  | object (members : List (String × Json))
  deriving Repr

namespace Json

/-- `find(key)`. In a value that is not an object it ends at `end()`. -/
def find (key : String) : Json → Option Json
  | object members => members.lookup key
  | _ => none

/-- The members of a `std::map` with one more, in the order of their names. It takes the place of the one that
has its name. -/
def insertMember (key : String) (value : Json) : List (String × Json) → List (String × Json)
  | [] => [(key, value)]
  | (key', value') :: members =>
      if key = key' then (key, value) :: members
      else if key < key' then (key, value) :: (key', value') :: members
      else (key', value') :: insertMember key value members

/-- The object of members as they are written. -/
def ofMembers (members : List (String × Json)) : Json :=
  object (members.foldl (fun members member => insertMember member.1 member.2 members) [])

/-! ## The grammar -/

def isWhitespace (c : Char) : Bool := c == ' ' || c == '\t' || c == '\n' || c == '\r'

def skipWhitespace (input : List Char) : List Char := input.dropWhile isWhitespace

/-- What is written up to the closing quote, and what comes after it. -/
def rawString : List Char → Option (List Char × List Char)
  | [] => none
  | '"' :: rest => some ([], rest)
  | '\\' :: c :: rest => (rawString rest).map fun (raw, rest) => ('\\' :: c :: raw, rest)
  | c :: rest => (rawString rest).map fun (raw, rest) => (c :: raw, rest)

def hexDigit (c : Char) : Option Nat :=
  if '0' ≤ c ∧ c ≤ '9' then some (c.toNat - '0'.toNat)
  else if 'a' ≤ c ∧ c ≤ 'f' then some (c.toNat - 'a'.toNat + 10)
  else if 'A' ≤ c ∧ c ≤ 'F' then some (c.toNat - 'A'.toNat + 10)
  else none

/-- A code unit of UTF-16. -/
def codeUnit (a b c d : Char) : Option Nat := do
  return (((← hexDigit a) * 16 + (← hexDigit b)) * 16 + (← hexDigit c)) * 16 + (← hexDigit d)

/-- The character after a backslash. -/
def escape : Char → Option Char
  | '"' => some '"'
  | '\\' => some '\\'
  | '/' => some '/'
  | 'b' => some '\x08'
  | 'f' => some '\x0c'
  | 'n' => some '\n'
  | 'r' => some '\r'
  | 't' => some '\t'
  | _ => none

/-- The characters that are written. A surrogate stands in a pair, and a control character is escaped. -/
def unescape : List Char → Option (List Char)
  | [] => some []
  | '\\' :: 'u' :: a :: b :: c :: d :: rest =>
      match codeUnit a b c d with
      | none => none
      | some unit =>
          if unit < 0xD800 ∨ 0xE000 ≤ unit then (unescape rest).map (.ofNat unit :: ·)
          else if 0xDC00 ≤ unit then none
          else
            match rest with
            | '\\' :: 'u' :: e :: f :: g :: h :: rest =>
                match codeUnit e f g h with
                | none => none
                | some low =>
                    if 0xDC00 ≤ low ∧ low < 0xE000 then
                      (unescape rest).map (.ofNat (0x10000 + (unit - 0xD800) * 0x400 + (low - 0xDC00)) :: ·)
                    else none
            | _ => none
  | '\\' :: c :: rest =>
      match escape c with
      | none => none
      | some c => (unescape rest).map (c :: ·)
  | ['\\'] => none
  | c :: rest => if c < ' ' then none else (unescape rest).map (c :: ·)

/-- A string, after its opening quote. -/
def readString (input : List Char) : Option (String × List Char) := do
  let (raw, rest) ← rawString input
  return (.ofList (← unescape raw), rest)

/-- One digit or more. -/
def readDigits (input : List Char) : Option (List Char × List Char) :=
  let digits := input.takeWhile Char.isDigit
  if digits.isEmpty then none else some (digits, input.dropWhile Char.isDigit)

def readMinus : List Char → List Char × List Char
  | '-' :: rest => (['-'], rest)
  | rest => ([], rest)

def readInteger : List Char → Option (List Char × List Char)
  | '0' :: rest => some (['0'], rest)
  | rest => readDigits rest

def readFraction : List Char → Option (List Char × List Char)
  | '.' :: rest => (readDigits rest).map fun (digits, rest) => ('.' :: digits, rest)
  | rest => some ([], rest)

def readSign : List Char → List Char × List Char
  | '+' :: rest => (['+'], rest)
  | '-' :: rest => (['-'], rest)
  | rest => ([], rest)

def readExponent : List Char → Option (List Char × List Char)
  | [] => some ([], [])
  | e :: rest =>
      if e = 'e' ∨ e = 'E' then
        let (sign, rest) := readSign rest
        (readDigits rest).map fun (digits, rest) => (e :: sign ++ digits, rest)
      else some ([], e :: rest)

def readNumber (input : List Char) : Option (Json × List Char) := do
  let (minus, rest) := readMinus input
  let (integer, rest) ← readInteger rest
  let (fraction, rest) ← readFraction rest
  let (exponent, rest) ← readExponent rest
  return (number (.ofList (minus ++ integer ++ fraction ++ exponent)), rest)

def readWord (word : String) (value : Json) (input : List Char) : Option (Json × List Char) :=
  if word.toList.isPrefixOf input then some (value, input.drop word.toList.length) else none

mutual

/-- A value, and what comes after it. -/
def readValue : Nat → List Char → Option (Json × List Char)
  | 0, _ => none
  | fuel + 1, input =>
      match skipWhitespace input with
      | '{' :: rest =>
          match skipWhitespace rest with
          | '}' :: rest => some (object [], rest)
          | _ => (readMembers fuel rest).map fun (members, rest) => (ofMembers members, rest)
      | '[' :: rest =>
          match skipWhitespace rest with
          | ']' :: rest => some (array [], rest)
          | _ => (readElements fuel rest).map fun (elements, rest) => (array elements, rest)
      | '"' :: rest => (readString rest).map fun (s, rest) => (string s, rest)
      | 't' :: rest => readWord "true" (boolean true) ('t' :: rest)
      | 'f' :: rest => readWord "false" (boolean false) ('f' :: rest)
      | 'n' :: rest => readWord "null" null ('n' :: rest)
      | rest => readNumber rest

/-- The members of an object, up to its brace. -/
def readMembers : Nat → List Char → Option (List (String × Json) × List Char)
  | 0, _ => none
  | fuel + 1, input =>
      match skipWhitespace input with
      | '"' :: rest => do
          let (key, rest) ← readString rest
          match skipWhitespace rest with
          | ':' :: rest =>
              let (value, rest) ← readValue fuel rest
              match skipWhitespace rest with
              | ',' :: rest =>
                  let (members, rest) ← readMembers fuel rest
                  some ((key, value) :: members, rest)
              | '}' :: rest => some ([(key, value)], rest)
              | _ => none
          | _ => none
      | _ => none

/-- The elements of an array, up to its bracket. -/
def readElements : Nat → List Char → Option (List Json × List Char)
  | 0, _ => none
  | fuel + 1, input => do
      let (value, rest) ← readValue fuel input
      match skipWhitespace rest with
      | ',' :: rest =>
          let (elements, rest) ← readElements fuel rest
          some (value :: elements, rest)
      | ']' :: rest => some ([value], rest)
      | _ => none

end

/-- With enough fuel, the text is the value, and blanks around it. -/
def Parses (text : String) (json : Json) : Prop :=
  ∃ fuel rest, readValue fuel text.toList = some (json, rest) ∧ skipWhitespace rest = []

/-! ## One call of the reader -/

/-- How `readValue` comes to a result. -/
inductive ValueRead (fuel : Nat) (input : List Char) : Json → List Char → Prop where
  | emptyObject {rest₁ rest : List Char} (hopen : skipWhitespace input = '{' :: rest₁)
      (hclose : skipWhitespace rest₁ = '}' :: rest) : ValueRead fuel input (.object []) rest
  | object {rest₁ rest : List Char} {members : List (String × Json)}
      (hopen : skipWhitespace input = '{' :: rest₁) (hclose : ∀ r, skipWhitespace rest₁ ≠ '}' :: r)
      (hread : readMembers fuel rest₁ = some (members, rest)) : ValueRead fuel input (ofMembers members) rest
  | emptyArray {rest₁ rest : List Char} (hopen : skipWhitespace input = '[' :: rest₁)
      (hclose : skipWhitespace rest₁ = ']' :: rest) : ValueRead fuel input (.array []) rest
  | array {rest₁ rest : List Char} {elements : List Json} (hopen : skipWhitespace input = '[' :: rest₁)
      (hclose : ∀ r, skipWhitespace rest₁ ≠ ']' :: r)
      (hread : readElements fuel rest₁ = some (elements, rest)) : ValueRead fuel input (.array elements) rest
  | string {rest₁ rest : List Char} {s : String} (hopen : skipWhitespace input = '"' :: rest₁)
      (hread : readString rest₁ = some (s, rest)) : ValueRead fuel input (.string s) rest
  | true {rest₁ rest : List Char} (hopen : skipWhitespace input = 't' :: rest₁)
      (hread : readWord "true" (.boolean true) ('t' :: rest₁) = some (.boolean true, rest)) :
      ValueRead fuel input (.boolean true) rest
  | false {rest₁ rest : List Char} (hopen : skipWhitespace input = 'f' :: rest₁)
      (hread : readWord "false" (.boolean false) ('f' :: rest₁) = some (.boolean false, rest)) :
      ValueRead fuel input (.boolean false) rest
  | null {rest₁ rest : List Char} (hopen : skipWhitespace input = 'n' :: rest₁)
      (hread : readWord "null" .null ('n' :: rest₁) = some (.null, rest)) : ValueRead fuel input .null rest
  | number {rest : List Char} {text : String}
      (hopen : ∀ c ∈ ['{', '[', '"', 't', 'f', 'n'], ∀ r, skipWhitespace input ≠ c :: r)
      (hread : readNumber (skipWhitespace input) = some (.number text, rest)) :
      ValueRead fuel input (.number text) rest

/-- How `readMembers` comes to a result. -/
inductive MembersRead (fuel : Nat) (input : List Char) : List (String × Json) → List Char → Prop where
  | last {rest₁ rest₂ rest₃ rest₄ rest : List Char} {key : String} {value : Json}
      (hopen : skipWhitespace input = '"' :: rest₁) (hkey : readString rest₁ = some (key, rest₂))
      (hcolon : skipWhitespace rest₂ = ':' :: rest₃) (hvalue : readValue fuel rest₃ = some (value, rest₄))
      (hclose : skipWhitespace rest₄ = '}' :: rest) : MembersRead fuel input [(key, value)] rest
  | more {rest₁ rest₂ rest₃ rest₄ rest₅ rest : List Char} {key : String} {value : Json}
      {members : List (String × Json)}
      (hopen : skipWhitespace input = '"' :: rest₁) (hkey : readString rest₁ = some (key, rest₂))
      (hcolon : skipWhitespace rest₂ = ':' :: rest₃) (hvalue : readValue fuel rest₃ = some (value, rest₄))
      (hcomma : skipWhitespace rest₄ = ',' :: rest₅) (hmore : readMembers fuel rest₅ = some (members, rest)) :
      MembersRead fuel input ((key, value) :: members) rest

/-- How `readElements` comes to a result. -/
inductive ElementsRead (fuel : Nat) (input : List Char) : List Json → List Char → Prop where
  | last {rest₁ rest : List Char} {value : Json} (hvalue : readValue fuel input = some (value, rest₁))
      (hclose : skipWhitespace rest₁ = ']' :: rest) : ElementsRead fuel input [value] rest
  | more {rest₁ rest₂ rest : List Char} {value : Json} {elements : List Json}
      (hvalue : readValue fuel input = some (value, rest₁)) (hcomma : skipWhitespace rest₁ = ',' :: rest₂)
      (hmore : readElements fuel rest₂ = some (elements, rest)) :
      ElementsRead fuel input (value :: elements) rest

theorem readNumber_eq {input rest : List Char} {json : Json} (h : readNumber input = some (json, rest)) :
    ∃ text, json = .number text := by
  unfold readNumber at h
  generalize readMinus input = m at h
  obtain ⟨_, _, h⟩ := Option.bind_eq_some_iff.mp h
  obtain ⟨_, _, h⟩ := Option.bind_eq_some_iff.mp h
  obtain ⟨_, _, h⟩ := Option.bind_eq_some_iff.mp h
  cases h
  exact ⟨_, rfl⟩

theorem readWord_iff {word : String} {value json : Json} {input rest : List Char} :
    readWord word value input = some (json, rest) ↔ json = value ∧ input = word.toList ++ rest := by
  unfold readWord
  constructor
  · intro h
    split at h
    · next hprefix =>
        cases h
        obtain ⟨rest, rfl⟩ := List.isPrefixOf_iff_prefix.mp hprefix
        exact ⟨rfl, by rw [List.drop_left]⟩
    · cases h
  · rintro ⟨rfl, rfl⟩
    rw [if_pos (List.isPrefixOf_iff_prefix.mpr (List.prefix_append _ _)), List.drop_left]

theorem readValue_iff {fuel : Nat} {input rest : List Char} {json : Json} :
    readValue (fuel + 1) input = some (json, rest) ↔ ValueRead fuel input json rest := by
  rw [readValue]
  constructor
  · intro h
    split at h
    · next rest₁ hopen =>
        split at h
        · next hclose =>
            cases h
            exact .emptyObject hopen hclose
        · next hclose =>
            obtain ⟨⟨members, rest'⟩, hread, heq⟩ := Option.map_eq_some_iff.mp h
            cases heq
            exact .object hopen hclose hread
    · next rest₁ hopen =>
        split at h
        · next hclose =>
            cases h
            exact .emptyArray hopen hclose
        · next hclose =>
            obtain ⟨⟨elements, rest'⟩, hread, heq⟩ := Option.map_eq_some_iff.mp h
            cases heq
            exact .array hopen hclose hread
    · next hopen =>
        obtain ⟨⟨s, rest'⟩, hread, heq⟩ := Option.map_eq_some_iff.mp h
        cases heq
        exact .string hopen hread
    · next hopen =>
        cases (readWord_iff.mp h).1
        exact .true hopen h
    · next hopen =>
        cases (readWord_iff.mp h).1
        exact .false hopen h
    · next hopen =>
        cases (readWord_iff.mp h).1
        exact .null hopen h
    -- what starts like nothing else is read as a number
    · next h₁ h₂ h₃ h₄ h₅ h₆ =>
        obtain ⟨text, rfl⟩ := readNumber_eq h
        refine .number ?_ h
        simp only [List.forall_mem_cons]
        exact ⟨h₁, h₂, h₃, h₄, h₅, h₆, List.forall_mem_nil _⟩
  · intro h
    cases h with
    | emptyObject hopen hclose => simp only [hopen, hclose]
    | object hopen hclose hread =>
        simp only [hopen]
        rw [hread]
        rfl
    | emptyArray hopen hclose => simp only [hopen, hclose]
    | array hopen hclose hread =>
        simp only [hopen]
        rw [hread]
        rfl
    | string hopen hread =>
        simp only [hopen]
        rw [hread]
        rfl
    | true hopen hread => simp only [hopen, hread]
    | false hopen hread => simp only [hopen, hread]
    | null hopen hread => simp only [hopen, hread]
    | number hopen hread =>
        simp only [List.forall_mem_cons] at hopen
        obtain ⟨h₁, h₂, h₃, h₄, h₅, h₆, -⟩ := hopen
        -- the first character is none of those above
        split
        · next heq => exact absurd heq (h₁ _)
        · next heq => exact absurd heq (h₂ _)
        · next heq => exact absurd heq (h₃ _)
        · next heq => exact absurd heq (h₄ _)
        · next heq => exact absurd heq (h₅ _)
        · next heq => exact absurd heq (h₆ _)
        · exact hread

theorem readMembers_iff {fuel : Nat} {input rest : List Char} {members : List (String × Json)} :
    readMembers (fuel + 1) input = some (members, rest) ↔ MembersRead fuel input members rest := by
  rw [readMembers]
  constructor
  · intro h
    split at h
    · next hopen =>
        obtain ⟨⟨key, rest₂⟩, hkey, h⟩ := Option.bind_eq_some_iff.mp h
        dsimp only at h
        split at h
        · next hcolon =>
            obtain ⟨⟨value, rest₄⟩, hvalue, h⟩ := Option.bind_eq_some_iff.mp h
            dsimp only at h
            split at h
            · next hcomma =>
                obtain ⟨⟨members, rest'⟩, hmore, h⟩ := Option.bind_eq_some_iff.mp h
                cases h
                exact .more hopen hkey hcolon hvalue hcomma hmore
            · next hclose =>
                cases h
                exact .last hopen hkey hcolon hvalue hclose
            · cases h
        · cases h
    · cases h
  · intro h
    cases h with
    | last hopen hkey hcolon hvalue hclose => simp [hopen, hkey, hcolon, hvalue, hclose]
    | more hopen hkey hcolon hvalue hcomma hmore => simp [hopen, hkey, hcolon, hvalue, hcomma, hmore]

theorem readElements_iff {fuel : Nat} {input rest : List Char} {elements : List Json} :
    readElements (fuel + 1) input = some (elements, rest) ↔ ElementsRead fuel input elements rest := by
  rw [readElements]
  constructor
  · intro h
    obtain ⟨⟨value, rest₁⟩, hvalue, h⟩ := Option.bind_eq_some_iff.mp h
    dsimp only at h
    split at h
    · next hcomma =>
        obtain ⟨⟨elements, rest'⟩, hmore, h⟩ := Option.bind_eq_some_iff.mp h
        cases h
        exact .more hvalue hcomma hmore
    · next hclose =>
        cases h
        exact .last hvalue hclose
    · cases h
  · intro h
    cases h with
    | last hvalue hclose => simp [hvalue, hclose]
    | more hvalue hcomma hmore => simp [hvalue, hcomma, hmore]

/-! ## One value -/

/-- More fuel reads the same. -/
theorem read_mono (fuel : Nat) :
    (∀ {input json rest}, readValue fuel input = some (json, rest) →
      readValue (fuel + 1) input = some (json, rest)) ∧
    (∀ {input members rest}, readMembers fuel input = some (members, rest) →
      readMembers (fuel + 1) input = some (members, rest)) ∧
    ∀ {input elements rest}, readElements fuel input = some (elements, rest) →
      readElements (fuel + 1) input = some (elements, rest) := by
  induction fuel with
  | zero => exact ⟨nofun, nofun, nofun⟩
  | succ fuel ih =>
      obtain ⟨hvalue, hmembers, helements⟩ := ih
      refine ⟨fun h => ?_, fun h => ?_, fun h => ?_⟩
      · rw [readValue_iff] at h ⊢
        cases h with
        | emptyObject hopen hclose => exact .emptyObject hopen hclose
        | object hopen hclose hread => exact .object hopen hclose (hmembers hread)
        | emptyArray hopen hclose => exact .emptyArray hopen hclose
        | array hopen hclose hread => exact .array hopen hclose (helements hread)
        | string hopen hread => exact .string hopen hread
        | true hopen hread => exact .true hopen hread
        | false hopen hread => exact .false hopen hread
        | null hopen hread => exact .null hopen hread
        | number hopen hread => exact .number hopen hread
      · rw [readMembers_iff] at h ⊢
        cases h with
        | last hopen hkey hcolon hread hclose => exact .last hopen hkey hcolon (hvalue hread) hclose
        | more hopen hkey hcolon hread hcomma hmore =>
            exact .more hopen hkey hcolon (hvalue hread) hcomma (hmembers hmore)
      · rw [readElements_iff] at h ⊢
        cases h with
        | last hread hclose => exact .last (hvalue hread) hclose
        | more hread hcomma hmore => exact .more (hvalue hread) hcomma (helements hmore)

theorem readValue_mono {fuel fuel' : Nat} {input rest : List Char} {json : Json} (hle : fuel ≤ fuel')
    (h : readValue fuel input = some (json, rest)) : readValue fuel' input = some (json, rest) := by
  induction hle with
  | refl => exact h
  | step _ ih => exact (read_mono _).1 ih

/-- A text parses to one value. -/
theorem Parses.unique {text : String} {json json' : Json} (h : Parses text json) (h' : Parses text json') :
    json = json' := by
  obtain ⟨fuel, rest, hread, -⟩ := h
  obtain ⟨fuel', rest', hread', -⟩ := h'
  have hread := readValue_mono (Nat.le_max_left fuel fuel') hread
  rw [readValue_mono (Nat.le_max_right fuel fuel') hread'] at hread
  cases hread
  rfl

/-! ## Strings -/

theorem rawString_append {input raw rest : List Char} (h : rawString input = some (raw, rest)) :
    input = raw ++ '"' :: rest := by
  fun_induction rawString input generalizing raw with
  | case1 => cases h
  | case2 => cases h; rfl
  | case3 c rest' ih =>
      obtain ⟨⟨raw', rest''⟩, hread, heq⟩ := Option.map_eq_some_iff.mp h
      cases heq
      rw [ih hread]
      rfl
  | case4 c rest' _ _ ih =>
      obtain ⟨⟨raw', rest''⟩, hread, heq⟩ := Option.map_eq_some_iff.mp h
      cases heq
      rw [ih hread]
      rfl

/-- Without a backslash in it, nothing before the closing quote is a quote. -/
theorem quote_not_mem_of_rawString {input raw rest : List Char} (h : rawString input = some (raw, rest))
    (hraw : '\\' ∉ raw) : '"' ∉ raw := by
  fun_induction rawString input generalizing raw with
  | case1 => cases h
  | case2 =>
      cases h
      exact List.not_mem_nil
  | case3 c rest' ih =>
      obtain ⟨⟨raw', rest''⟩, hread, heq⟩ := Option.map_eq_some_iff.mp h
      cases heq
      exact absurd List.mem_cons_self hraw
  | case4 c rest' hquote _ ih =>
      obtain ⟨⟨raw', rest''⟩, hread, heq⟩ := Option.map_eq_some_iff.mp h
      cases heq
      rw [List.mem_cons, not_or] at hraw ⊢
      exact ⟨fun hc => hquote hc.symm, ih hread hraw.2⟩

theorem rawString_of_plain {t : List Char} (rest : List Char) (h : ∀ c ∈ t, c ≠ '"' ∧ c ≠ '\\') :
    rawString (t ++ '"' :: rest) = some (t, rest) := by
  induction t with
  | nil => rfl
  | cons c t ih =>
      obtain ⟨⟨hquote, hbackslash⟩, ht⟩ := List.forall_mem_cons.mp h
      rw [List.cons_append, rawString, ih ht]
      · rfl
      · exact hquote
      · intro c' rest' hc
        exact absurd hc hbackslash

/-- An escape stands for less than it is. -/
theorem length_of_unescape {raw cs : List Char} (h : unescape raw = some cs) :
    cs.length ≤ raw.length ∧ ('\\' ∈ raw → cs.length < raw.length) := by
  fun_induction unescape raw generalizing cs with
  | case1 =>
      cases h
      simp
  | case2 => cases h
  | case3 a b c d rest unit hunit hrange ih =>
      obtain ⟨cs, hcs, rfl⟩ := Option.map_eq_some_iff.mp h
      have hle := (ih hcs).1
      simp only [List.length_cons]
      omega
  | case4 => cases h
  | case5 => cases h
  | case6 a b c d unit hunit hrange hhigh e f g h' rest low hlow hpair ih =>
      obtain ⟨cs, hcs, rfl⟩ := Option.map_eq_some_iff.mp h
      have hle := (ih hcs).1
      simp only [List.length_cons]
      omega
  | case7 => cases h
  | case8 => cases h
  | case9 => cases h
  | case10 c rest hu c' hescape ih =>
      obtain ⟨cs, hcs, rfl⟩ := Option.map_eq_some_iff.mp h
      have hle := (ih hcs).1
      simp only [List.length_cons]
      omega
  | case11 => cases h
  | case12 => cases h
  | case13 c rest hu hpair hlast hcontrol ih =>
      obtain ⟨cs, hcs, rfl⟩ := Option.map_eq_some_iff.mp h
      obtain ⟨hle, hlt⟩ := ih hcs
      refine ⟨Nat.succ_le_succ hle, fun hmem => ?_⟩
      rcases List.mem_cons.mp hmem with rfl | hmem
      · -- a backslash is followed by something
        cases rest with
        | nil => exact absurd rfl (hlast rfl)
        | cons c rest => exact absurd rfl (hpair c rest rfl)
      · exact Nat.succ_lt_succ (hlt hmem)

/-- Without a backslash, the characters are as they are written, and none is a control character. -/
theorem eq_of_unescape {raw cs : List Char} (h : unescape raw = some cs) (hraw : '\\' ∉ raw) :
    cs = raw ∧ ∀ c ∈ raw, ¬ c < ' ' := by
  induction raw generalizing cs with
  | nil =>
      cases h
      exact ⟨rfl, List.forall_mem_nil _⟩
  | cons c raw ih =>
      rw [List.mem_cons, not_or] at hraw
      rw [unescape] at h
      · split at h
        · cases h
        · next hcontrol =>
          obtain ⟨cs, hcs, rfl⟩ := Option.map_eq_some_iff.mp h
          obtain ⟨rfl, hcontrols⟩ := ih hcs hraw.2
          exact ⟨rfl, List.forall_mem_cons.mpr ⟨hcontrol, hcontrols⟩⟩
      -- there is no escape, as there is no backslash
      · exact fun _ _ _ _ _ hc => absurd hc.symm hraw.1
      · exact fun _ _ hc => absurd hc.symm hraw.1
      · exact fun hc => absurd hc.symm hraw.1

theorem unescape_of_plain {raw : List Char} (h : ∀ c ∈ raw, c ≠ '\\' ∧ ¬ c < ' ') :
    unescape raw = some raw := by
  induction raw with
  | nil => rfl
  | cons c raw ih =>
      obtain ⟨⟨hbackslash, hcontrol⟩, hraw⟩ := List.forall_mem_cons.mp h
      rw [unescape, if_neg hcontrol, ih hraw]
      · rfl
      · exact fun _ _ _ _ _ hc => absurd hc hbackslash
      · exact fun _ _ hc => absurd hc hbackslash
      · exact fun hc => absurd hc hbackslash

/-- A string is read as it is written, where each character stands for itself. -/
theorem readString_of_plain {t : List Char} (rest : List Char)
    (h : ∀ c ∈ t, c ≠ '"' ∧ c ≠ '\\' ∧ ¬ c < ' ') : readString (t ++ '"' :: rest) = some (.ofList t, rest) := by
  rw [readString, rawString_of_plain rest fun c hc => ⟨(h c hc).1, (h c hc).2.1⟩]
  simp [unescape_of_plain fun c hc => (h c hc).2]

/-! ## Numbers

Each part of a number is a beginning of what it is read from, and is read again from itself, whatever follows
it that does not go on with it. -/

/-- It does not begin with such a character. -/
def Stops (p : Char → Prop) (rest : List Char) : Prop := ∀ c ∈ rest.head?, ¬p c

theorem Stops.mono {p q : Char → Prop} {rest : List Char} (h : Stops q rest) (hpq : ∀ c, p c → q c) :
    Stops p rest := fun c hc hp => h c hc (hpq c hp)

theorem stops_cons {p : Char → Prop} {c : Char} (rest : List Char) (h : ¬p c) : Stops p (c :: rest) := by
  intro c' hc'
  cases Option.mem_some.mp hc'
  exact h

theorem stops_nil {p : Char → Prop} : Stops p [] := nofun

/-- A number goes on with it. -/
def Continues (c : Char) : Prop := c.isDigit = true ∨ c = '.' ∨ c = 'e' ∨ c = 'E'

instance : DecidablePred Continues := fun c =>
  inferInstanceAs (Decidable (c.isDigit = true ∨ c = '.' ∨ c = 'e' ∨ c = 'E'))

theorem readDigits_spec {input digits rest : List Char} (h : readDigits input = some (digits, rest)) :
    input = digits ++ rest ∧ (∃ d ds, digits = d :: ds ∧ d.isDigit = true) ∧
      ∀ rest', Stops (·.isDigit = true) rest' → readDigits (digits ++ rest') = some (digits, rest') := by
  unfold readDigits at h
  dsimp only at h
  split at h
  · cases h
  · next hne =>
      cases h
      have hdigits : ∀ d ∈ input.takeWhile Char.isDigit, d.isDigit = true :=
        List.all_eq_true.mp List.all_takeWhile
      refine ⟨(List.takeWhile_append_dropWhile).symm, ?_, fun rest' hrest' => ?_⟩
      · cases hcases : input.takeWhile Char.isDigit with
        | nil => exact absurd (by rw [hcases]; rfl) hne
        | cons d ds => exact ⟨d, ds, rfl, hdigits d (hcases ▸ List.mem_cons_self)⟩
      -- what follows does not go on with a digit
      · have hstop : rest'.takeWhile Char.isDigit = [] ∧ rest'.dropWhile Char.isDigit = rest' := by
          cases rest' with
          | nil => exact ⟨rfl, rfl⟩
          | cons c rest' =>
              have hc := hrest' c rfl
              simp [hc]
        unfold readDigits
        rw [List.takeWhile_append_of_pos hdigits, List.dropWhile_append_of_pos hdigits, hstop.1, hstop.2,
          List.append_nil]
        exact if_neg hne

theorem readMinus_spec (input : List Char) :
    input = (readMinus input).1 ++ (readMinus input).2 ∧
      ((readMinus input).1 = [] ∨ (readMinus input).1 = ['-']) ∧
      ∀ rest', Stops (· = '-') rest' →
        readMinus ((readMinus input).1 ++ rest') = ((readMinus input).1, rest') := by
  unfold readMinus
  split
  · exact ⟨rfl, .inr rfl, fun rest' _ => rfl⟩
  · refine ⟨rfl, .inl rfl, fun rest' hrest' => ?_⟩
    dsimp only [List.nil_append]
    split
    · exact absurd rfl (hrest' _ rfl)
    · rfl

theorem readInteger_spec {input integer rest : List Char} (h : readInteger input = some (integer, rest)) :
    input = integer ++ rest ∧ (∃ d ds, integer = d :: ds ∧ d.isDigit = true) ∧
      ∀ rest', Stops (·.isDigit = true) rest' → readInteger (integer ++ rest') = some (integer, rest') := by
  unfold readInteger at h
  split at h
  · cases h
    exact ⟨rfl, ⟨_, _, rfl, by decide⟩, fun rest' _ => rfl⟩
  · next hzero =>
      obtain ⟨hinput, ⟨d, ds, hcons, hd⟩, hread⟩ := readDigits_spec h
      refine ⟨hinput, ⟨d, ds, hcons, hd⟩, fun rest' hrest' => ?_⟩
      unfold readInteger
      split
      · next rest'' heq =>
          -- a leading zero would have been read alone
          rw [hcons] at heq
          obtain ⟨rfl, -⟩ := List.cons.inj heq
          rw [hcons] at hinput
          exact absurd hinput (hzero _)
      · exact hread rest' hrest'

theorem readFraction_spec {input fraction rest : List Char} (h : readFraction input = some (fraction, rest)) :
    input = fraction ++ rest ∧ (fraction = [] ∨ ∃ ds, fraction = '.' :: ds) ∧
      ∀ rest', Stops (fun c => c.isDigit = true ∨ c = '.') rest' →
        readFraction (fraction ++ rest') = some (fraction, rest') := by
  unfold readFraction at h
  split at h
  · obtain ⟨⟨digits, rest''⟩, hdigits, heq⟩ := Option.map_eq_some_iff.mp h
    cases heq
    obtain ⟨hinput, -, hread⟩ := readDigits_spec hdigits
    refine ⟨congrArg _ hinput, .inr ⟨_, rfl⟩, fun rest' hrest' => ?_⟩
    rw [List.cons_append, readFraction, hread rest' (hrest'.mono fun c => .inl)]
    rfl
  · cases h
    refine ⟨rfl, .inl rfl, fun rest' hrest' => ?_⟩
    rw [List.nil_append]
    unfold readFraction
    split
    · exact absurd (.inr rfl) (hrest' _ rfl)
    · rfl

theorem readSign_spec (input : List Char) :
    input = (readSign input).1 ++ (readSign input).2 ∧
      ∀ rest', Stops (fun c => c = '+' ∨ c = '-') rest' →
        readSign ((readSign input).1 ++ rest') = ((readSign input).1, rest') := by
  unfold readSign
  split
  · exact ⟨rfl, fun rest' _ => rfl⟩
  · exact ⟨rfl, fun rest' _ => rfl⟩
  · refine ⟨rfl, fun rest' hrest' => ?_⟩
    dsimp only [List.nil_append]
    split
    · exact absurd (.inl rfl) (hrest' _ rfl)
    · exact absurd (.inr rfl) (hrest' _ rfl)
    · rfl

theorem readExponent_spec {input exponent rest : List Char} (h : readExponent input = some (exponent, rest)) :
    input = exponent ++ rest ∧ (exponent = [] ∨ ∃ e ds, exponent = e :: ds ∧ (e = 'e' ∨ e = 'E')) ∧
      ∀ rest', Stops Continues rest' → readExponent (exponent ++ rest') = some (exponent, rest') := by
  -- without an e there is no exponent
  have hnone (rest' : List Char) (hrest' : Stops Continues rest') : readExponent ([] ++ rest') =
    some ([], rest') := by
    cases rest' with
    | nil => rfl
    | cons c rest' => exact if_neg fun hc => hrest' c rfl (.inr (.inr hc))
  unfold readExponent at h
  split at h
  · cases h
    exact ⟨rfl, .inl rfl, hnone⟩
  · next e rest₁ =>
      split at h
      · next he =>
          obtain ⟨hrest₁, hsign⟩ := readSign_spec rest₁
          generalize readSign rest₁ = s at h hrest₁ hsign
          obtain ⟨⟨digits, rest''⟩, hdigits, heq⟩ := Option.map_eq_some_iff.mp h
          cases heq
          obtain ⟨hinput, ⟨d, ds, hcons, hd⟩, hread⟩ := readDigits_spec hdigits
          refine ⟨?_, .inr ⟨e, _, rfl, he⟩, fun rest' hrest' => ?_⟩
          · rw [List.cons_append, List.cons_append, List.append_assoc, ← hinput, ← hrest₁]
          -- digits follow the sign, so the sign is not read twice
          · have hstop : Stops (fun c => c = '+' ∨ c = '-') (digits ++ rest') := by
              rw [hcons]
              refine stops_cons _ ?_
              rintro (rfl | rfl) <;> exact absurd hd (by decide)
            rw [List.cons_append, List.cons_append, List.append_assoc, readExponent, if_pos he, hsign _ hstop]
            dsimp only
            rw [hread rest' (hrest'.mono fun c => .inl)]
            rfl
      · cases h
        exact ⟨rfl, .inl rfl, hnone⟩

theorem readNumber_spec {input rest : List Char} {json : Json} (h : readNumber input = some (json, rest)) :
    ∃ text, json = .number (.ofList text) ∧ input = text ++ rest ∧
      (∃ c cs, text = c :: cs ∧ (c = '-' ∨ c.isDigit = true)) ∧
      ∀ rest', Stops Continues rest' → readNumber (text ++ rest') = some (json, rest') := by
  unfold readNumber at h
  obtain ⟨hinput, hminus, hreadMinus⟩ := readMinus_spec input
  generalize readMinus input = m at h hinput hminus hreadMinus
  obtain ⟨minus, rest₀⟩ := m
  obtain ⟨⟨integer, rest₁⟩, hinteger, h⟩ := Option.bind_eq_some_iff.mp h
  obtain ⟨⟨fraction, rest₂⟩, hfraction, h⟩ := Option.bind_eq_some_iff.mp h
  obtain ⟨⟨exponent, rest₃⟩, hexponent, h⟩ := Option.bind_eq_some_iff.mp h
  cases h
  obtain ⟨hrest₀, ⟨d, ds, hd, hdigit⟩, hreadInteger⟩ := readInteger_spec hinteger
  obtain ⟨hrest₁, hpoint, hreadFraction⟩ := readFraction_spec hfraction
  obtain ⟨hrest₂, he, hreadExponent⟩ := readExponent_spec hexponent
  dsimp only at hinput hminus hreadMinus hrest₀ hrest₁ hrest₂
  refine ⟨_, rfl, ?_, ?_, fun rest' hrest' => ?_⟩
  · rw [hinput, hrest₀, hrest₁, hrest₂]
    simp only [List.append_assoc]
  · rcases hminus with rfl | rfl
    · exact ⟨d, ds ++ fraction ++ exponent, by rw [hd]; rfl, .inr hdigit⟩
    · exact ⟨'-', integer ++ fraction ++ exponent, rfl, .inl rfl⟩
  · -- what follows each part does not go on with it
    have hstop₂ : Stops (fun c => c.isDigit = true ∨ c = '.') (exponent ++ rest') := by
      rcases he with rfl | ⟨e, es, rfl, he⟩
      · exact hrest'.mono fun c hc => hc.imp_right .inl
      · refine stops_cons _ ?_
        rcases he with rfl | rfl <;> decide
    have hstop₁ : Stops (·.isDigit = true) (fraction ++ (exponent ++ rest')) := by
      rcases hpoint with rfl | ⟨ps, rfl⟩
      · exact hstop₂.mono fun c => .inl
      · exact stops_cons _ (by decide)
    have hstop₀ : Stops (· = '-') (integer ++ (fraction ++ (exponent ++ rest'))) := by
      rw [hd]
      refine stops_cons _ ?_
      rintro rfl
      exact absurd hdigit (by decide)
    simp only [List.append_assoc]
    unfold readNumber
    rw [hreadMinus _ hstop₀]
    dsimp only
    rw [hreadInteger _ hstop₁]
    simp only [Option.bind_eq_bind, Option.bind_some]
    rw [hreadFraction _ hstop₂]
    simp only [Option.bind_some]
    rw [hreadExponent _ hrest']
    simp only [Option.bind_some, List.append_assoc]
    rfl

/-! ## Where a string comes from -/

/-- The string is somewhere in the value, as a value. -/
inductive HasString (s : String) : Json → Prop where
  | string : HasString s (.string s)
  | array {elements : List Json} {element : Json} (hmem : element ∈ elements) (h : HasString s element) :
      HasString s (.array elements)
  | object {members : List (String × Json)} {member : String × Json} (hmem : member ∈ members)
      (h : HasString s member.2) : HasString s (.object members)

/-- The string is written somewhere in the text, after a quote. -/
def Written (s : String) (input : List Char) : Prop :=
  ∃ tail raw rest, '"' :: tail <:+ input ∧ rawString tail = some (raw, rest) ∧ unescape raw = some s.toList

theorem Written.mono {s : String} {input rest : List Char} (h : Written s rest) (hrest : rest <:+ input) :
    Written s input := by
  obtain ⟨tail, raw, rest', hsuffix, hraw⟩ := h
  exact ⟨tail, raw, rest', hsuffix.trans hrest, hraw⟩

theorem skipWhitespace_suffix (input : List Char) : skipWhitespace input <:+ input :=
  List.dropWhile_suffix _

theorem cons_suffix_of_skipWhitespace {c : Char} {input rest : List Char}
    (h : skipWhitespace input = c :: rest) : c :: rest <:+ input := h ▸ skipWhitespace_suffix input

theorem suffix_of_skipWhitespace {c : Char} {input rest : List Char}
    (h : skipWhitespace input = c :: rest) : rest <:+ input :=
  (List.suffix_cons c rest).trans (cons_suffix_of_skipWhitespace h)

theorem readString_suffix {input rest : List Char} {s : String} (h : readString input = some (s, rest)) :
    rest <:+ input ∧ ∃ raw, rawString input = some (raw, rest) ∧ unescape raw = some s.toList := by
  obtain ⟨⟨raw, rest'⟩, hraw, h⟩ := Option.bind_eq_some_iff.mp h
  obtain ⟨cs, hcs, h⟩ := Option.bind_eq_some_iff.mp h
  cases h
  refine ⟨?_, raw, hraw, by rw [String.toList_ofList]; exact hcs⟩
  rw [rawString_append hraw]
  exact (List.suffix_cons _ _).trans (List.suffix_append _ _)

theorem readWord_suffix {word : String} {value json : Json} {input rest : List Char}
    (h : readWord word value input = some (json, rest)) : rest <:+ input := by
  rw [(readWord_iff.mp h).2]
  exact List.suffix_append _ _

theorem mem_of_mem_insertMember {key : String} {value : Json} {members : List (String × Json)}
    {member : String × Json} (h : member ∈ insertMember key value members) :
    member = (key, value) ∨ member ∈ members := by
  induction members with
  | nil => exact .inl (List.mem_singleton.mp h)
  | cons first members ih =>
      obtain ⟨key', value'⟩ := first
      rw [insertMember] at h
      split at h
      · rcases List.mem_cons.mp h with h | h
        · exact .inl h
        · exact .inr (.tail _ h)
      · split at h
        · exact (List.mem_cons.mp h).imp_right id
        · rcases List.mem_cons.mp h with h | h
          · exact .inr (h ▸ .head _)
          · exact (ih h).imp_right (.tail _)

theorem mem_of_mem_foldl_insertMember {members acc : List (String × Json)} {member : String × Json}
    (h : member ∈ members.foldl (fun acc member => insertMember member.1 member.2 acc) acc) :
    member ∈ members ∨ member ∈ acc := by
  induction members generalizing acc with
  | nil => exact .inr h
  | cons first members ih =>
      rcases ih h with h | h
      · exact .inl (.tail _ h)
      · rcases mem_of_mem_insertMember h with rfl | h
        · exact .inl (.head _)
        · exact .inr h

/-- The strings of an object are those of the members that it is made of. -/
theorem HasString.of_ofMembers {s : String} {members : List (String × Json)}
    (h : HasString s (ofMembers members)) : ∃ member ∈ members, HasString s member.2 := by
  cases h with
  | object hmem h =>
      rcases mem_of_mem_foldl_insertMember hmem with hmem | hmem
      · exact ⟨_, hmem, h⟩
      · cases hmem

/-- What is read is followed by an end of the text, and each of its strings is written before. -/
theorem read_written (fuel : Nat) :
    (∀ {input json rest}, readValue fuel input = some (json, rest) →
      rest <:+ input ∧ ∀ s, HasString s json → Written s input) ∧
    (∀ {input members rest}, readMembers fuel input = some (members, rest) →
      rest <:+ input ∧ ∀ member ∈ members, ∀ s, HasString s member.2 → Written s input) ∧
    ∀ {input elements rest}, readElements fuel input = some (elements, rest) →
      rest <:+ input ∧ ∀ element ∈ elements, ∀ s, HasString s element → Written s input := by
  induction fuel with
  | zero => exact ⟨nofun, nofun, nofun⟩
  | succ fuel ih =>
      obtain ⟨hvalue, hmembers, helements⟩ := ih
      refine ⟨fun {input json rest} h => ?_, fun h => ?_, fun h => ?_⟩
      -- Each reader leaves a suffix of what it was given, so what is written there is written in the whole.
      · cases readValue_iff.mp h with
        | emptyObject hopen hclose =>
            exact ⟨(suffix_of_skipWhitespace hclose).trans (suffix_of_skipWhitespace hopen), nofun⟩
        | object hopen _ hread =>
            obtain ⟨hrest, hwritten⟩ := hmembers hread
            have hsuffix := suffix_of_skipWhitespace hopen
            refine ⟨hrest.trans hsuffix, fun s hs => ?_⟩
            -- a string of the object is one of a member that was read
            obtain ⟨member, hmem, hs⟩ := hs.of_ofMembers
            exact (hwritten member hmem s hs).mono hsuffix
        | emptyArray hopen hclose =>
            exact ⟨(suffix_of_skipWhitespace hclose).trans (suffix_of_skipWhitespace hopen), nofun⟩
        | array hopen _ hread =>
            obtain ⟨hrest, hwritten⟩ := helements hread
            have hsuffix := suffix_of_skipWhitespace hopen
            refine ⟨hrest.trans hsuffix, fun s hs => ?_⟩
            cases hs with
            | array hmem hs => exact (hwritten _ hmem s hs).mono hsuffix
        | string hopen hread =>
            obtain ⟨hrest, raw, hraw, hs⟩ := readString_suffix hread
            refine ⟨hrest.trans (suffix_of_skipWhitespace hopen), fun s' hs' => ?_⟩
            cases hs'
            exact ⟨_, raw, _, cons_suffix_of_skipWhitespace hopen, hraw, hs⟩
        | true hopen hread => exact ⟨(readWord_suffix hread).trans (cons_suffix_of_skipWhitespace hopen), nofun⟩
        | false hopen hread =>
            exact ⟨(readWord_suffix hread).trans (cons_suffix_of_skipWhitespace hopen), nofun⟩
        | null hopen hread => exact ⟨(readWord_suffix hread).trans (cons_suffix_of_skipWhitespace hopen), nofun⟩
        | number _ hread =>
            obtain ⟨text, -, hinput, -⟩ := readNumber_spec hread
            exact ⟨(hinput ▸ List.suffix_append _ _ : rest <:+ skipWhitespace input).trans
              (skipWhitespace_suffix input), nofun⟩
      · cases readMembers_iff.mp h with
        | last hopen hkey hcolon hread hclose =>
            obtain ⟨hrest, hwritten⟩ := hvalue hread
            have hsuffix := (suffix_of_skipWhitespace hcolon).trans
              ((readString_suffix hkey).1.trans (suffix_of_skipWhitespace hopen))
            refine ⟨(suffix_of_skipWhitespace hclose).trans (hrest.trans hsuffix), fun member hmem s hs => ?_⟩
            cases List.mem_singleton.mp hmem
            exact (hwritten s hs).mono hsuffix
        | more hopen hkey hcolon hread hcomma hmore =>
            obtain ⟨hrest, hwritten⟩ := hvalue hread
            obtain ⟨hrest', hwritten'⟩ := hmembers hmore
            have hsuffix := (suffix_of_skipWhitespace hcolon).trans
              ((readString_suffix hkey).1.trans (suffix_of_skipWhitespace hopen))
            have hsuffix' := (suffix_of_skipWhitespace hcomma).trans (hrest.trans hsuffix)
            refine ⟨hrest'.trans hsuffix', List.forall_mem_cons.mpr ⟨?_, ?_⟩⟩
            · exact fun s hs => (hwritten s hs).mono hsuffix
            · exact fun member hmem s hs => (hwritten' member hmem s hs).mono hsuffix'
      · cases readElements_iff.mp h with
        | last hread hclose =>
            obtain ⟨hrest, hwritten⟩ := hvalue hread
            refine ⟨(suffix_of_skipWhitespace hclose).trans hrest, fun element hmem s hs => ?_⟩
            cases List.mem_singleton.mp hmem
            exact hwritten s hs
        | more hread hcomma hmore =>
            obtain ⟨hrest, hwritten⟩ := hvalue hread
            obtain ⟨hrest', hwritten'⟩ := helements hmore
            have hsuffix := (suffix_of_skipWhitespace hcomma).trans hrest
            refine ⟨hrest'.trans hsuffix, List.forall_mem_cons.mpr ⟨hwritten, ?_⟩⟩
            exact fun element hmem s hs => (hwritten' element hmem s hs).mono hsuffix

/-- Each string of the value that a text parses to is written in the text. -/
theorem Parses.written {text s : String} {json : Json} (h : Parses text json) (hs : HasString s json) :
    Written s text.toList := by
  obtain ⟨fuel, rest, hread, -⟩ := h
  exact ((read_written fuel).1 hread).2 s hs

/-! ## A text between quotes -/

/-- A quote that no backslash precedes ends the string. -/
theorem mem_of_rawString_append {before rest raw rest' : List Char}
    (h : rawString (before ++ rest) = some (raw, rest')) (hquote : '"' ∈ before) (hbackslash : '\\' ∉ before) :
    '\\' ∉ raw := by
  induction before generalizing raw with
  | nil => cases hquote
  | cons c before ih =>
      rw [List.mem_cons, not_or] at hbackslash
      rw [List.cons_append] at h
      by_cases hc : c = '"'
      · subst hc
        cases h
        exact List.not_mem_nil
      · rw [rawString] at h
        · obtain ⟨⟨raw', rest''⟩, hread, heq⟩ := Option.map_eq_some_iff.mp h
          cases heq
          have hquote : '"' ∈ before := (List.mem_cons.mp hquote).resolve_left fun heq => hc heq.symm
          rw [List.mem_cons, not_or]
          exact ⟨hbackslash.1, ih hread hquote hbackslash.2⟩
        · exact hc
        · exact fun _ _ heq => absurd heq.symm hbackslash.1

theorem length_le_of_suffix {raw rest t after : List Char} (hafter : '"' ∉ after)
    (h : raw ++ '"' :: rest <:+ t ++ '"' :: after) : raw.length ≤ t.length := by
  have hrest : after.length ≤ rest.length := by
    by_contra hlt
    have h₁ : '"' :: rest <:+ t ++ '"' :: after := (List.suffix_append _ _).trans h
    have h₂ : after <:+ t ++ '"' :: after := (List.suffix_cons _ _).trans (List.suffix_append _ _)
    have hsuffix : '"' :: rest <:+ after :=
      List.suffix_of_suffix_length_le h₁ h₂ (by rw [List.length_cons]; omega)
    exact hafter (hsuffix.subset List.mem_cons_self)
  have hle := h.length_le
  simp only [List.length_append, List.length_cons] at hle
  omega

/-- Where a text is put between quotes as it is, and no string of what is around it has a backslash, it is a
string of the whole only if all of its characters stand for themselves. -/
theorem plain_of_written {before t after : List Char} {s : String} (hbefore : '\\' ∉ before)
    (hafter : '"' ∉ after) (hs : s.toList = t) (h : Written s (before ++ '"' :: (t ++ '"' :: after))) :
    ∀ c ∈ t, c ≠ '"' ∧ c ≠ '\\' ∧ ¬ c < ' ' := by
  obtain ⟨tail, raw, rest, hsuffix, hraw, hunescape⟩ := h
  rw [hs] at hunescape
  have hbackslash : '\\' ∉ raw := by
    intro hmem
    have hlt := (length_of_unescape hunescape).2 hmem
    obtain ⟨p, hp⟩ := hsuffix
    rcases List.append_eq_append_iff.mp hp with ⟨q, hq, htail⟩ | ⟨q, hq, htail⟩
    · cases q with
      | nil =>
          -- the quote before the text
          injection htail with _ htail
          rw [rawString_append hraw] at htail
          have hle := length_le_of_suffix hafter ⟨[], htail⟩
          omega
      | cons c q =>
          -- a quote that is earlier, so that the string ends before the text
          rw [List.cons_append] at htail
          injection htail with _ htail
          rw [htail, List.append_cons q] at hraw
          refine mem_of_rawString_append hraw ?_ ?_ hmem
          · exact List.mem_append_right _ List.mem_cons_self
          · rw [hq] at hbefore
            simp only [List.mem_append, List.mem_cons, not_or] at hbefore ⊢
            simp [hbefore.2.2]
    · cases q with
      | nil =>
          injection htail with _ htail
          rw [rawString_append hraw] at htail
          have hle := length_le_of_suffix hafter ⟨[], htail.symm⟩
          omega
      | cons c q =>
          -- a quote in the text, or after it
          injection htail with _ htail
          rw [rawString_append hraw] at htail
          have hsuffix : raw ++ '"' :: rest <:+ t ++ '"' :: after := by
            rw [htail]
            exact (List.suffix_cons _ _).trans (List.suffix_append _ _)
          have hle := length_le_of_suffix hafter hsuffix
          omega
  obtain ⟨rfl, hcontrol⟩ := eq_of_unescape hunescape hbackslash
  have hquote := quote_not_mem_of_rawString hraw hbackslash
  intro c hc
  refine ⟨?_, ?_, hcontrol c hc⟩
  · rintro rfl
    exact hquote hc
  · rintro rfl
    exact hbackslash hc

end Json

end GenC
