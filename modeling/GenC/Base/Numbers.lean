import Mathlib.Algebra.Group.Nat.Defs
import GenC.Proto.Value

/-!
# Numbers in texts

`absl::SimpleAtoi`, for the two types that the code reads.
-/

namespace GenC

/-- `absl::ascii_isspace`. -/
def isSpace (c : Char) : Bool :=
  c == ' ' || c == '\t' || c == '\n' || c == '\x0b' || c == '\x0c' || c == '\r'

/-- Without the blanks on both sides. -/
def stripSpace (text : List Char) : List Char :=
  ((text.dropWhile isSpace).reverse.dropWhile isSpace).reverse

/-- Without the plus sign, if there is one. -/
def stripPlus : List Char → List Char
  | '+' :: digits => digits
  | digits => digits

/-- `absl::SimpleAtoi` into a `uint64_t`: blanks on both sides, perhaps a plus sign, and decimal digits
that do not overflow. -/
def simpleAtoi (text : String) : Option UInt64 :=
  let digits := stripPlus (stripSpace text.toList)
  if digits ≠ [] ∧ digits.all Char.isDigit ∧ Nat.ofDigitChars 10 digits 0 < 2 ^ 64 then
    some (.ofNat (Nat.ofDigitChars 10 digits 0))
  else
    none

/-- The sign, and what comes after it. -/
def splitSign : List Char → Bool × List Char
  | '-' :: digits => (true, digits)
  | '+' :: digits => (false, digits)
  | digits => (false, digits)

/-- `absl::SimpleAtoi` into an `int`: blanks on both sides, perhaps a sign, and decimal digits that do not
overflow. -/
def simpleAtoiInt (text : String) : Option Int32 :=
  let (negative, digits) := splitSign (stripSpace text.toList)
  let magnitude := Nat.ofDigitChars 10 digits 0
  if digits = [] ∨ !digits.all Char.isDigit then none
  else if negative then
    if magnitude ≤ 2 ^ 31 then some (.ofInt (-magnitude)) else none
  else if magnitude < 2 ^ 31 then some (.ofInt magnitude) else none

end GenC
