import Mathlib.Data.List.Basic

/-!
# Byte buffers

`java.nio.ByteBuffer`: bytes with a position and a limit. `ByteBuffer.written` is what stands before the
position, `ByteBuffer.rest` what stands between the position and the limit; `flip` makes the one the other.
-/

namespace GenC.Lib

structure ByteBuffer where
  bytes : List UInt8
  position : Nat
  limit : Nat
  position_le : position ≤ limit
  limit_le : limit ≤ bytes.length

namespace ByteBuffer

def remaining (b : ByteBuffer) : Nat := b.limit - b.position

def hasRemaining (b : ByteBuffer) : Bool := b.position < b.limit

/-- What was put since the buffer was cleared. -/
def written (b : ByteBuffer) : List UInt8 := b.bytes.take b.position

/-- What is to be got. -/
def rest (b : ByteBuffer) : List UInt8 := (b.bytes.take b.limit).drop b.position

/-- `allocate` and `allocateDirect`. -/
def allocate (capacity : Nat) : ByteBuffer where
  bytes := List.replicate capacity 0
  position := 0
  limit := capacity
  position_le := Nat.zero_le _
  limit_le := Nat.le_of_eq (List.length_replicate ..).symm

def flip (b : ByteBuffer) : ByteBuffer where
  bytes := b.bytes
  position := 0
  limit := b.position
  position_le := Nat.zero_le _
  limit_le := Nat.le_trans b.position_le b.limit_le

/-- `position(0)`. -/
def rewind (b : ByteBuffer) : ByteBuffer where
  bytes := b.bytes
  position := 0
  limit := b.limit
  position_le := Nat.zero_le _
  limit_le := b.limit_le

/-- `put`, unless there is a `BufferOverflowException`. -/
def put (src : List UInt8) (b : ByteBuffer) : Option ByteBuffer :=
  if h : src.length ≤ b.remaining then
    some
      { bytes := b.bytes.take b.position ++ src ++ b.bytes.drop (b.position + src.length)
        position := b.position + src.length
        limit := b.limit
        position_le := by
          have hle := b.position_le
          rw [remaining] at h
          omega
        limit_le := by
          have hle := b.position_le
          have hle' := b.limit_le
          rw [remaining] at h
          simp only [List.length_append, List.length_take, List.length_drop]
          omega }
  else none

/-- `put(src, offset, length)`, unless an index is out of bounds. -/
def putRange (src : List UInt8) (offset length : Int) (b : ByteBuffer) : Option ByteBuffer :=
  if 0 ≤ offset ∧ 0 ≤ length ∧ offset + length ≤ src.length then
    b.put ((src.drop offset.toNat).take length.toNat)
  else none

/-! ## What is in a buffer -/

@[simp] theorem written_allocate (capacity : Nat) : (allocate capacity).written = [] := rfl

@[simp] theorem rest_flip (b : ByteBuffer) : b.flip.rest = b.written := rfl

@[simp] theorem rest_rewind_flip (b : ByteBuffer) : b.flip.rewind.rest = b.written := rfl

/-- In a full buffer everything was put. -/
theorem rest_rewind_of_full {b : ByteBuffer} (h : b.hasRemaining = false) :
    b.rewind.rest = b.written := by
  have hle := b.position_le
  have hge : b.limit ≤ b.position := Nat.not_lt.mp (of_decide_eq_false h)
  have heq : b.position = b.limit := Nat.le_antisymm hle hge
  show (b.bytes.take b.limit).drop 0 = b.bytes.take b.position
  rw [heq, List.drop_zero]

variable {b b' : ByteBuffer} {src : List UInt8}

/-- What is put comes after what was put before. -/
theorem written_put (h : b.put src = some b') : b'.written = b.written ++ src := by
  unfold put at h
  split at h
  · next hle =>
      cases h
      have hlength : (b.bytes.take b.position ++ src).length = b.position + src.length := by
        have hle := b.position_le
        have hle' := b.limit_le
        simp only [List.length_append, List.length_take]
        omega
      show (b.bytes.take b.position ++ src ++ b.bytes.drop (b.position + src.length)).take
        (b.position + src.length) = b.bytes.take b.position ++ src
      rw [← hlength, List.take_left]
  · cases h

theorem length_written (b : ByteBuffer) : b.written.length = b.position := by
  have hle := b.position_le
  have hle' := b.limit_le
  rw [written, List.length_take]
  omega

/-- What was put is what is written beyond the position. -/
theorem drop_written_put (h : b.put src = some b') : b'.written.drop b.position = src := by
  rw [written_put h, ← b.length_written, List.drop_left]

theorem exists_put (h : src.length ≤ b.remaining) : ∃ b', b.put src = some b' := by
  unfold put
  rw [dif_pos h]
  exact ⟨_, rfl⟩

/-- A range that is longer than the buffer has room for, or than what there is, is cut off. -/
theorem putRange_min {offset : Nat} (h : offset ≤ src.length) :
    b.putRange src offset (min (b.remaining : Int) (src.length - offset)) =
      b.put ((src.drop offset).take b.remaining) := by
  have hlength : (min (b.remaining : Int) (src.length - offset)).toNat =
    min b.remaining (src.drop offset).length := by
    rw [List.length_drop]
    omega
  rw [putRange, if_pos (by omega), hlength, Int.toNat_natCast, ← List.take_eq_take_min]

/-- A buffer that takes the rests of others has them in order. -/
theorem written_putAll {buffers : List ByteBuffer}
    (h : buffers.foldlM (fun b buffer => b.put buffer.rest) b = some b') :
    b'.written = b.written ++ (buffers.map rest).flatten := by
  induction buffers generalizing b with
  | nil =>
      cases h
      simp
  | cons buffer buffers ih =>
      obtain ⟨b₁, hput, h⟩ := Option.bind_eq_some_iff.mp h
      rw [ih h, written_put hput, List.map_cons, List.flatten_cons, List.append_assoc]

end ByteBuffer

end GenC.Lib
