import Mathlib.Data.List.Basic

/-!
# The IR: `v0::Value` and `absl::Status`

The messages of `proto/v0/computation.proto` as the runtime reads them.

* A submessage that is absent reads as the default instance, so a required submessage is an
  ordinary field here and `Value.notSet` is its default. Only where the code asks whether the
  field is present (`has_argument`, `has_static_parameter`, `has_type`) is it an `Option`.
* Every node carries its own metadata (`type`, `label`, `mimetype`).
* `absl::StatusOr<T>` is `Except Status T`, so a `Status` is never OK.
-/

namespace GenC

/-! ## Status -/

/-- The error codes of `absl::StatusCode`, in numeric order from 1. -/
inductive StatusCode where
  | cancelled
  | unknown
  | invalidArgument
  | deadlineExceeded
  | notFound
  | alreadyExists
  | permissionDenied
  | resourceExhausted
  | failedPrecondition
  | aborted
  | outOfRange
  | unimplemented
  | internal
  | unavailable
  | dataLoss
  | unauthenticated
  deriving Repr, DecidableEq

structure Status where
  code : StatusCode
  message : String
  deriving Repr, DecidableEq

abbrev StatusOr (α : Type) : Type := Except Status α

namespace Status

def invalidArgument (message : String) : Status := ⟨.invalidArgument, message⟩
def notFound (message : String) : Status := ⟨.notFound, message⟩
def outOfRange (message : String) : Status := ⟨.outOfRange, message⟩
def unimplemented (message : String) : Status := ⟨.unimplemented, message⟩
def internal (message : String) : Status := ⟨.internal, message⟩
def unavailable (message : String) : Status := ⟨.unavailable, message⟩

/-- `GENC_TRY(expr, suffix)` appends a space and the suffix to the message it passes on. -/
def withSuffix (e : Status) (suffix : String) : Status :=
  { e with message := e.message ++ " " ++ suffix }

@[simp] theorem withSuffix_code (e : Status) (suffix : String) :
    (e.withSuffix suffix).code = e.code := rfl

end Status

/-! ## Types and metadata -/

/-- `v0::ScalarType`. The enumeration is open: a number without a name is kept. -/
inductive ScalarType where
  | invalid | float | double | int32 | uint8 | int16 | int8 | string | complex64 | int64 | bool
  | qint8 | quint8 | qint32 | bfloat16 | qint16 | quint16 | uint16 | complex128 | half
  | uint32 | uint64
  | unrecognized (number : Int32)
  deriving Repr, DecidableEq

/-- `v0::Type`. -/
inductive TypePb where
  | notSet
  | function (parameter result : Option TypePb)
  | struct (element : List TypePb)
  | sequence (element : Option TypePb)
  | scalar (scalar : ScalarType)
  | tensor (scalar : ScalarType) (dims : List Int) (unknownRank : Bool)
  deriving Repr

/-- What a `Value` node carries besides its `oneof`. -/
structure Meta where
  type : Option TypePb := none
  label : String := ""
  mimetype : String := ""
  deriving Repr

/-! ## Values -/

/-- `google.protobuf.Any`. -/
structure AnyPb where
  typeUrl : String
  value : List UInt8
  deriving Repr, DecidableEq

/-- The atomic materialized payloads. A float is kept as its bits: nothing computes with it. -/
inductive Scalar where
  | str (s : String)
  | boolean (b : Bool)
  | int32 (i : Int32)
  | float32 (bits : UInt32)
  | media (bytes : List UInt8)
  | tensor (any : AnyPb)
  | customValue (any : AnyPb)
  deriving Repr, DecidableEq

inductive Value where
  | notSet (m : Meta)
  | scalar (m : Meta) (s : Scalar)
  | call (m : Meta) (function : Value) (argument : Option Value)
  | lambda (m : Meta) (parameterName : String) (result : Value)
  | reference (m : Meta) (name : String)
  | struct (m : Meta) (element : List Value)
  | selection (m : Meta) (source : Value) (index : Int32)
  | block (m : Meta) (locals : List (String × Value)) (result : Value)
  | intrinsic (m : Meta) (uri : String) (staticParameter : Option Value)

instance : Inhabited Value := ⟨.notSet {}⟩

/-- `v0::Lambda`. -/
structure Lambda where
  parameterName : String
  result : Value

/-- `v0::Intrinsic`, as handed to a handler. -/
structure Intrinsic where
  uri : String
  staticParameter : Option Value

namespace Value

/-- The default instance: what an absent submessage reads as. -/
def defaultInstance : Value := .notSet {}

def ofStr (s : String) : Value := .scalar {} (.str s)
def ofBool (b : Bool) : Value := .scalar {} (.boolean b)
def ofInt32 (i : Int32) : Value := .scalar {} (.int32 i)
def ofStruct (element : List Value) : Value := .struct {} element

/-- `label()`. -/
def label : Value → String
  | .notSet m | .scalar m _ | .call m _ _ | .lambda m _ _ | .reference m _ | .struct m _
  | .selection m _ _ | .block m _ _ | .intrinsic m _ _ => m.label

def hasStr : Value → Bool
  | .scalar _ (.str _) => true
  | _ => false

/-- `str()`: the payload, or the empty string. -/
def str : Value → String
  | .scalar _ (.str s) => s
  | _ => ""

/-- `int_32()`: the payload, or zero. -/
def int32 : Value → Int32
  | .scalar _ (.int32 i) => i
  | _ => 0

/-- `has_boolean()` and `boolean()` in one. -/
def boolean? : Value → Option Bool
  | .scalar _ (.boolean b) => some b
  | _ => none

def hasStruct : Value → Bool
  | .struct _ _ => true
  | _ => false

/-- `struct_().element()`: the elements, or none of them. -/
def elements : Value → List Value
  | .struct _ es => es
  | _ => []

@[simp] theorem elements_struct (m : Meta) (es : List Value) : (struct m es).elements = es := rfl

@[simp] theorem hasStruct_struct (m : Meta) (es : List Value) : (struct m es).hasStruct = true := rfl

end Value

/-- A selection index that is not negative is the same number unsigned. -/
theorem toUInt32_toNat_of_nonneg {i : Int32} (h : 0 ≤ i.toInt) : i.toUInt32.toNat = i.toInt.toNat := by
  have hInt : i.toInt = i.toBitVec.toInt := rfl
  have hNat : i.toUInt32.toNat = i.toBitVec.toNat := rfl
  rw [hInt, BitVec.toInt_eq_toNat_cond] at h ⊢
  rw [hNat]
  have hlt := i.toBitVec.isLt
  split <;> split at h <;> omega

namespace Intrinsic

/-- `static_parameter()`. -/
def parameter (intr : Intrinsic) : Value := intr.staticParameter.getD Value.defaultInstance

def toValue (intr : Intrinsic) : Value := .intrinsic {} intr.uri intr.staticParameter

end Intrinsic

/-! ## The wire format

It is not part of the repository, and a parameter wherever it is used. -/

/-- `SerializeAsString` and `ParseFromString` of a message. -/
structure WireFormat (α : Type) where
  serializeAsString : α → String
  parseFromString : String → Option α

/-- The message arrives as it was sent. -/
def WireFormat.Carries {α : Type} (format : WireFormat α) (message : α) : Prop :=
  format.parseFromString (format.serializeAsString message) = some message

end GenC
