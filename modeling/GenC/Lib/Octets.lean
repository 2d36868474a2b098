import Mathlib.Data.List.Basic

/-!
# Octets

Hexadecimal digits, and UTF-8.

`Utf8Decoder` is what any decoder does, whatever it puts in the place of octets that are malformed: an ASCII
character is never part of those.
-/

namespace GenC.Lib

/-! ## Hexadecimal digits -/

def hexValue (c : Char) : Option Nat :=
  if '0' ≤ c ∧ c ≤ '9' then some (c.toNat - '0'.toNat)
  else if 'a' ≤ c ∧ c ≤ 'f' then some (c.toNat - 'a'.toNat + 10)
  else if 'A' ≤ c ∧ c ≤ 'F' then some (c.toNat - 'A'.toNat + 10)
  else none

/-- Of a number less than 16. -/
def upperHex (n : Nat) : Char := n.digitChar.toUpper

theorem hexValue_upperHex : ∀ n < 16, hexValue (upperHex n) = some n := by decide

theorem isAlphanum_upperHex : ∀ n < 16, (upperHex n).isAlphanum = true := by decide

/-! ## UTF-8 -/

def utf8 (cs : List Char) : List UInt8 := cs.flatMap String.utf8EncodeChar

def IsAscii (c : Char) : Prop := c.val ≤ 127

instance : DecidablePred IsAscii := fun c => inferInstanceAs (Decidable (c.val ≤ 127))

theorem utf8EncodeChar_of_isAscii {c : Char} (h : IsAscii c) : String.utf8EncodeChar c = [c.val.toUInt8] :=
  String.utf8EncodeChar_eq_singleton (Char.utf8Size_eq_one_iff.mpr h)

/-- A decoder of UTF-8 that puts replacement characters in the place of what is malformed. -/
structure Utf8Decoder where
  decode : List UInt8 → List Char
  decode_utf8 : ∀ cs, decode (utf8 cs) = cs
  decode_ascii : ∀ before c after, IsAscii c →
    decode (before ++ c.val.toUInt8 :: after) = decode before ++ c :: decode after
  decode_ne_nil : ∀ octets, octets ≠ [] → decode octets ≠ []

/-! ### A decoder

Between two ASCII characters, it takes all octets or none. -/

namespace Lossy

def flush (run : List UInt8) : List Char :=
  match run.toByteArray.utf8Decode? with
  | some cs => cs.toList
  | none => List.replicate run.length '\uFFFD'

def decode (run : List UInt8) : List UInt8 → List Char
  | [] => flush run
  | octet :: octets =>
      if octet ≤ 127 then flush run ++ Char.ofNat octet.toNat :: decode [] octets
      else decode (run ++ [octet]) octets

theorem flush_utf8 (cs : List Char) : flush (utf8 cs) = cs := by
  have h : (utf8 cs).toByteArray.utf8Decode? = some cs.toArray := List.utf8Decode?_utf8Encode
  rw [flush, h]

theorem flush_ne_nil {run : List UInt8} (h : run ≠ []) : flush run ≠ [] := by
  intro hnil
  unfold flush at hnil
  split at hnil
  · next cs heq =>
      have hsome : run.toByteArray.utf8Decode?.isSome = true := by
        rw [heq]
        rfl
      -- a decoding encodes back to the run, so it is not empty either
      have hencode := @ByteArray.utf8Encode_get_utf8Decode? run.toByteArray hsome
      simp only [heq, Option.get_some, hnil, List.utf8Encode_nil] at hencode
      have hsize := congrArg ByteArray.size hencode
      rw [List.size_toByteArray] at hsize
      exact h (List.length_eq_zero_iff.mp hsize.symm)
  · have hlength := congrArg List.length hnil
    rw [List.length_replicate] at hlength
    exact h (List.length_eq_zero_iff.mp hlength)

theorem toNat_of_isAscii {c : Char} (h : IsAscii c) : c.val.toUInt8.toNat = c.toNat ∧ c.toNat ≤ 127 := by
  have hle : c.toNat ≤ 127 := UInt32.le_iff_toNat_le.mp h
  rw [UInt32.toNat_toUInt8]
  exact ⟨Nat.mod_eq_of_lt (by change c.toNat < 256; omega), hle⟩

theorem toUInt8_le_of_isAscii {c : Char} (h : IsAscii c) : c.val.toUInt8 ≤ 127 := by
  obtain ⟨heq, hle⟩ := toNat_of_isAscii h
  rw [UInt8.le_iff_toNat_le, heq]
  exact hle

theorem ofNat_of_isAscii {c : Char} (h : IsAscii c) : Char.ofNat c.val.toUInt8.toNat = c := by
  rw [(toNat_of_isAscii h).1, Char.ofNat_toNat]

theorem decode_ascii {c : Char} (h : IsAscii c) (run before after : List UInt8) :
    decode run (before ++ c.val.toUInt8 :: after) = decode run before ++ c :: decode [] after := by
  induction before generalizing run with
  | nil =>
      change decode run (c.val.toUInt8 :: after) = flush run ++ c :: decode [] after
      rw [decode, if_pos (toUInt8_le_of_isAscii h), ofNat_of_isAscii h]
  | cons octet before ih =>
      rw [List.cons_append, decode, decode]
      split
      · rw [ih, List.append_assoc, List.cons_append]
      · rw [ih]

theorem not_or_le {octet mark : UInt8} (h : ¬mark ≤ 127) : ¬octet ||| mark ≤ 127 := by
  rw [UInt8.le_iff_toNat_le, UInt8.toNat_or] at *
  exact fun hle => h (Nat.le_trans Nat.right_le_or hle)

/-- No octet of another character is ASCII. -/
theorem not_le_of_mem {c : Char} (h : ¬IsAscii c) : ∀ octet ∈ String.utf8EncodeChar c, ¬octet ≤ 127 := by
  rcases c.utf8Size_eq with hsize | hsize | hsize | hsize
  · exact absurd (Char.utf8Size_eq_one_iff.mp hsize) h
  · rw [String.utf8EncodeChar_eq_cons_cons hsize]
    simp only [List.forall_mem_cons]
    exact ⟨not_or_le (by decide), not_or_le (by decide), List.forall_mem_nil _⟩
  · rw [String.utf8EncodeChar_eq_cons_cons_cons hsize]
    simp only [List.forall_mem_cons]
    exact ⟨not_or_le (by decide), not_or_le (by decide), not_or_le (by decide), List.forall_mem_nil _⟩
  · rw [String.utf8EncodeChar_eq_cons_cons_cons_cons hsize]
    simp only [List.forall_mem_cons]
    exact ⟨not_or_le (by decide), not_or_le (by decide), not_or_le (by decide), not_or_le (by decide),
      List.forall_mem_nil _⟩

theorem decode_append {octets : List UInt8} (h : ∀ octet ∈ octets, ¬octet ≤ 127) (run after : List UInt8) :
    decode run (octets ++ after) = decode (run ++ octets) after := by
  induction octets generalizing run with
  | nil => rw [List.nil_append, List.append_nil]
  | cons octet octets ih =>
      obtain ⟨hoctet, hoctets⟩ := List.forall_mem_cons.mp h
      rw [List.cons_append, decode, if_neg hoctet, ih hoctets, List.append_assoc]
      rfl

theorem decode_utf8 (pre cs : List Char) : decode (utf8 pre) (utf8 cs) = pre ++ cs := by
  induction cs generalizing pre with
  | nil =>
      rw [List.append_nil]
      exact flush_utf8 pre
  | cons c cs ih =>
      have hcons : utf8 (c :: cs) = String.utf8EncodeChar c ++ utf8 cs := rfl
      rw [hcons]
      by_cases h : IsAscii c
      -- an ASCII character ends the run of octets before it
      · have hnil : decode [] (utf8 cs) = cs := ih []
        rw [utf8EncodeChar_of_isAscii h, List.singleton_append, decode, if_pos (toUInt8_le_of_isAscii h),
          ofNat_of_isAscii h, flush_utf8, hnil]
      -- any other one is added to the run
      · have hpre : utf8 pre ++ String.utf8EncodeChar c = utf8 (pre ++ [c]) := by
          simp [utf8]
        rw [decode_append (not_le_of_mem h), hpre, ih, List.append_assoc]
        rfl

theorem decode_ne_nil {run octets : List UInt8} (h : run ++ octets ≠ []) : decode run octets ≠ [] := by
  induction octets generalizing run with
  | nil => exact flush_ne_nil (by rwa [List.append_nil] at h)
  | cons octet octets ih =>
      rw [decode]
      split
      · exact List.append_ne_nil_of_right_ne_nil _ (List.cons_ne_nil _ _)
      · exact ih (by simp)

end Lossy

def lossy : Utf8Decoder where
  decode := Lossy.decode []
  decode_utf8 cs := Lossy.decode_utf8 [] cs
  decode_ascii before _ after h := Lossy.decode_ascii h [] before after
  decode_ne_nil _ h := Lossy.decode_ne_nil h

end GenC.Lib
