import GenC.Lib.ByteBuffer

/-!
# The upload of a post body

`HttpClientUploadDataProvider` of `interop/network/HttpClientImpl.java`. Cronet calls `read` with a buffer of
any capacity, and `rewind` whenever it has to send the body once more, in any order.

**`replays`**: since the last `rewind`, the body was delivered up to the capacity that was offered, and no
further than its end. Each call answers its sink once.
-/

namespace GenC

open Lib

/-! ## The provider -/

/-- What an `UploadDataSink` is told. -/
inductive UploadDataSink where
  | onReadSucceeded (finalChunk : Bool)
  | onRewindSucceeded
  deriving Repr, DecidableEq

structure HttpClientUploadDataProvider where
  bytes : List UInt8
  position : Int := 0

namespace HttpClientUploadDataProvider

def getBytes (p : HttpClientUploadDataProvider) : List UInt8 := p.bytes

def getLength (p : HttpClientUploadDataProvider) : Int := p.bytes.length

/-- The provider and the buffer after the call, and what the sink was told. -/
def read (uploadByteBuffer : ByteBuffer) (p : HttpClientUploadDataProvider) :
    Option (HttpClientUploadDataProvider × ByteBuffer × List UploadDataSink) := do
  let readLength : Int := min (uploadByteBuffer.remaining : Int) (p.bytes.length - p.position)
  let uploadByteBuffer ← uploadByteBuffer.putRange p.bytes p.position readLength
  -- the upload is not chunked
  return ({ p with position := p.position + readLength }, uploadByteBuffer, [.onReadSucceeded false])

def rewind (p : HttpClientUploadDataProvider) : HttpClientUploadDataProvider × List UploadDataSink :=
  ({ p with position := 0 }, [.onRewindSucceeded])

/-! ## What Cronet sees of it -/

inductive Call where
  | read (uploadByteBuffer : ByteBuffer)
  | rewind

/-- The one answer to a call. -/
def Call.answer : Call → UploadDataSink
  | .read _ => .onReadSucceeded false
  | .rewind => .onRewindSucceeded

structure Upload where
  provider : HttpClientUploadDataProvider
  /-- What was read since the last `rewind`. -/
  delivered : List UInt8
  /-- How much room there was for it. -/
  offered : Nat
  /-- What the sinks were told. -/
  answers : List UploadDataSink

namespace Upload

def start (bytes : List UInt8) : Upload := ⟨⟨bytes, 0⟩, [], 0, []⟩

/-- What was put is what the buffer has beyond what it had. -/
def call (u : Upload) : Call → Option Upload
  | .read uploadByteBuffer => do
      let (provider, filled, told) ← u.provider.read uploadByteBuffer
      return { provider := provider
               delivered := u.delivered ++ filled.written.drop uploadByteBuffer.position
               offered := u.offered + uploadByteBuffer.remaining
               answers := u.answers ++ told }
  | .rewind =>
      let (provider, told) := u.provider.rewind
      some ⟨provider, [], 0, u.answers ++ told⟩

/-- The position is where the body that was delivered ends. -/
structure Consistent (bytes : List UInt8) (u : Upload) : Prop where
  bytes_eq : u.provider.bytes = bytes
  position_eq : u.provider.position = (min u.offered bytes.length : Nat)
  delivered_eq : u.delivered = bytes.take u.offered

end Upload

theorem read_eq {p : HttpClientUploadDataProvider} {position : Nat} (hposition : p.position = position)
    (hle : position ≤ p.bytes.length) (b : ByteBuffer) :
    ∃ b', b.put ((p.bytes.drop position).take b.remaining) = some b' ∧
      p.read b = some (⟨p.bytes, (min (position + b.remaining) p.bytes.length : Nat)⟩, b',
        [.onReadSucceeded false]) := by
  have hlength : ((p.bytes.drop position).take b.remaining).length ≤ b.remaining := List.length_take_le _ _
  obtain ⟨b', hput⟩ := ByteBuffer.exists_put hlength
  refine ⟨b', hput, ?_⟩
  have hnext : (position : Int) + min (b.remaining : Int) (p.bytes.length - position) =
      (min (position + b.remaining) p.bytes.length : Nat) := by omega
  simp only [read, hposition, ByteBuffer.putRange_min hle, hput, hnext]
  rfl

namespace Upload

variable {bytes : List UInt8} {u : Upload}

theorem Consistent.start (bytes : List UInt8) : (start bytes).Consistent bytes where
  bytes_eq := rfl
  position_eq := by simp [Upload.start]
  delivered_eq := rfl

theorem Consistent.call (h : u.Consistent bytes) (call : Call) :
    ∃ u', u.call call = some u' ∧ u'.Consistent bytes ∧ u'.answers = u.answers ++ [call.answer] := by
  cases call with
  | read b =>
      have hle : min u.offered bytes.length ≤ u.provider.bytes.length := by
        rw [h.bytes_eq]
        exact Nat.min_le_right _ _
      obtain ⟨b', hput, hread⟩ := read_eq h.position_eq hle b
      rw [h.bytes_eq] at hput hread
      have hcall : u.call (.read b) = some
          { provider := ⟨bytes, (min (min u.offered bytes.length + b.remaining) bytes.length : Nat)⟩
            delivered := u.delivered ++ b'.written.drop b.position
            offered := u.offered + b.remaining
            answers := u.answers ++ [.onReadSucceeded false] } := by
        rw [Upload.call, hread]
        rfl
      refine ⟨_, hcall, ?_, rfl⟩
      exact {
        bytes_eq := rfl
        position_eq := by
          dsimp only
          omega
        delivered_eq := by
          dsimp only
          rw [h.delivered_eq, ByteBuffer.drop_written_put hput, List.take_add]
          -- beyond the end there is nothing to read
          rcases Nat.le_total u.offered bytes.length with hoffered | hoffered
          · rw [Nat.min_eq_left hoffered]
          · rw [Nat.min_eq_right hoffered, List.drop_length, List.drop_eq_nil_of_le hoffered] }
  | rewind =>
      refine ⟨_, rfl, ?_, rfl⟩
      exact { bytes_eq := h.bytes_eq, position_eq := by simp, delivered_eq := rfl }

/-- By induction on the calls. -/
theorem Consistent.calls (h : u.Consistent bytes) (calls : List Call) :
    ∃ u', calls.foldlM Upload.call u = some u' ∧ u'.Consistent bytes ∧
      u'.answers = u.answers ++ calls.map Call.answer := by
  induction calls generalizing u with
  | nil => exact ⟨u, rfl, h, (List.append_nil _).symm⟩
  | cons call calls ih =>
      obtain ⟨u₁, hcall, h₁, hanswer⟩ := h.call call
      obtain ⟨u₂, hcalls, h₂, hanswers⟩ := ih h₁
      refine ⟨u₂, ?_, h₂, ?_⟩
      · rw [List.foldlM_cons, hcall]
        exact hcalls
      · rw [hanswers, hanswer, List.append_assoc]
        rfl

end Upload

/-- **The body is replayed.** No call fails, and each is answered once. -/
theorem replays (bytes : List UInt8) (calls : List Call) :
    ∃ u, calls.foldlM Upload.call (Upload.start bytes) = some u ∧
      u.answers = calls.map Call.answer ∧
      0 ≤ u.provider.position ∧ u.provider.position ≤ u.provider.getLength ∧
      -- what was delivered
      u.delivered = bytes.take u.provider.position.toNat ∧ u.delivered = bytes.take u.offered ∧
      (u.delivered.length = u.provider.getLength → u.delivered = bytes) ∧
      -- the next read
      ∀ b : ByteBuffer, ∃ b',
        b.put ((bytes.drop u.provider.position.toNat).take
          (min b.remaining (bytes.length - u.provider.position.toNat))) = some b' ∧
        u.provider.read b = some (⟨bytes, u.provider.position +
            (min b.remaining (bytes.length - u.provider.position.toNat) : Nat)⟩, b',
          [.onReadSucceeded false]) := by
  obtain ⟨u, hcalls, h, hanswers⟩ := (Upload.Consistent.start bytes).calls calls
  have hposition := h.position_eq
  have htoNat : u.provider.position.toNat = min u.offered bytes.length := by omega
  have hlength : u.provider.getLength = bytes.length := by rw [getLength, h.bytes_eq]
  refine ⟨u, hcalls, hanswers, ?_, ?_, ?_, h.delivered_eq, ?_, ?_⟩
  · omega
  · omega
  · rw [h.delivered_eq, htoNat, ← List.take_eq_take_min]
  · intro hdelivered
    rw [h.delivered_eq, hlength, List.length_take] at hdelivered
    rw [h.delivered_eq]
    exact List.take_of_length_le (by omega)
  · intro b
    have hle : u.provider.position.toNat ≤ u.provider.bytes.length := by
      rw [h.bytes_eq]
      omega
    obtain ⟨b', hput, hread⟩ := read_eq (by omega) hle b
    rw [h.bytes_eq] at hput hread
    refine ⟨b', ?_, ?_⟩
    · rw [← List.length_drop, ← List.take_eq_take_min]
      exact hput
    · rw [hread]
      have hnext : ((min (u.provider.position.toNat + b.remaining) bytes.length : Nat) : Int) =
          u.provider.position + (min b.remaining (bytes.length - u.provider.position.toNat) : Nat) := by omega
      rw [hnext]

end HttpClientUploadDataProvider

end GenC
