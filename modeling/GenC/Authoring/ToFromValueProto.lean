import GenC.Authoring.TracingContext
import Mathlib.Data.List.Forall2

/-!
# Values between Python and IR

`python/base/to_from_value_proto.py`. An exception is `Except.error` with its message. `to_value_proto` asks
for the class of its argument, one class after another: a boolean is an integer too, so the order matters
(`PyArg.branch`).

**`round_trips`**: nested lists of strings, booleans and integers come back as they were, with their classes,
and so does IR of these without metadata.
-/

namespace GenC

open Lib

/-! ## Python objects -/

/-- A Python object. A message is what `Any.Pack` makes of it, and `other` is one of any other class. -/
inductive PyArg where
  | none
  | value (ir : Value)
  | computation (portableIr : Value)
  | str (s : String)
  | bool (b : Bool)
  | int (i : Int)
  | float (f : Float)
  | list (xs : List PyArg)
  | dict (items : List (String × PyArg))
  | message (packed : AnyPb)
  | other (type : String)
  deriving Inhabited

/-- A class that `to_value_proto` asks for. -/
inductive PyClass where
  | value | computation | str | bool | int | float | list | dict | message
  deriving Repr, DecidableEq

namespace PyArg

/-- `isinstance`. A `bool` is an `int` as well, and a `pb.Value` a message. -/
def isinstance : PyArg → PyClass → Bool
  | .value _, c => c = .value || c = .message
  | .computation _, c => c = .computation
  | .str _, c => c = .str
  | .bool _, c => c = .bool || c = .int
  | .int _, c => c = .int
  | .float _, c => c = .float
  | .list _, c => c = .list
  | .dict _, c => c = .dict
  | .message _, c => c = .message
  | .none, _ => false
  | .other _, _ => false

/-- The first class of those asked for that the argument is of. -/
def branch (arg : PyArg) : Option PyClass :=
  [.value, .computation, .str, .bool, .int, .float, .list, .dict, .message].find? arg.isinstance

/-- `type(arg)`, as it is shown. -/
def typeName : PyArg → String
  | .none => "<class 'NoneType'>"
  | .other type => type
  | _ => ""

/-- The assignment to an `int_32` field. -/
def intField (i : Int) : Except String Value :=
  if -2 ^ 31 ≤ i ∧ i < 2 ^ 31 then .ok (.ofInt32 (Int32.ofInt i))
  else .error ("Value out of range: " ++ toString i)

mutual

def toValueProto (arg : PyArg) : Except String Value :=
  match arg.branch, arg with
  | some .value, .value ir => .ok ir
  | some .computation, .computation portableIr => .ok portableIr
  | some .str, .str s => .ok (.ofStr s)
  | some .bool, .bool b => .ok (.ofBool b)
  | some .int, .int i => intField i
  | some .int, .bool b => intField b.toInt
  | some .float, .float f => .ok (.scalar {} (.float32 f.toFloat32.toBits))
  | some .list, .list xs => do return .ofStruct (← toValueProtoAll xs)
  | some .dict, .dict items => do return .ofStruct (← toValueProtoItems items)
  | some .message, .message packed => .ok (.scalar {} (.customValue packed))
  | _, _ => .error ("Unsupported Python argument type " ++ arg.typeName ++ ".")

/-- The elements of a list. -/
def toValueProtoAll : List PyArg → Except String (List Value)
  | [] => .ok []
  | x :: xs => do return (← toValueProto x) :: (← toValueProtoAll xs)

/-- The items of a dictionary: each is labelled with its key. -/
def toValueProtoItems : List (String × PyArg) → Except String (List Value)
  | [] => .ok []
  | (key, x) :: items => do return (← toValueProto x).setLabel key :: (← toValueProtoItems items)

end

end PyArg

/-- `WhichOneof('value')`. -/
def Value.whichOneof : Value → Option String
  | .notSet _ => none
  | .scalar _ (.str _) => some "str"
  | .scalar _ (.boolean _) => some "boolean"
  | .scalar _ (.int32 _) => some "int_32"
  | .scalar _ (.float32 _) => some "float_32"
  | .scalar _ (.media _) => some "media"
  | .scalar _ (.tensor _) => some "tensor"
  | .scalar _ (.customValue _) => some "custom_value"
  | .call _ _ _ => some "call"
  | .lambda _ _ _ => some "lambda"
  | .reference _ _ => some "reference"
  | .struct _ _ => some "struct"
  | .selection _ _ _ => some "selection"
  | .block _ _ _ => some "block"
  | .intrinsic _ _ _ => some "intrinsic"

mutual

/-- `from_value_proto`. A custom value comes back as the `Any` that it is; `pack` says what `Any.Pack` makes
of one. -/
def Value.fromValueProto (pack : AnyPb → AnyPb) : Value → Except String PyArg
  | .notSet _ => .ok .none
  | .scalar _ (.str s) => .ok (.str s)
  | .scalar _ (.boolean b) => .ok (.bool b)
  | .scalar _ (.int32 i) => .ok (.int i.toInt)
  | .scalar _ (.float32 bits) => .ok (.float (Float32.ofBits bits).toFloat)
  | .scalar _ (.customValue any) => .ok (.message (pack any))
  | .struct _ element => do return .list (← fromValueProtoAll pack element)
  | resultPb => .error ("Unsupported value proto type " ++ resultPb.whichOneof.getD "" ++ ".")

/-- The elements of a struct. -/
def Value.fromValueProtoAll (pack : AnyPb → AnyPb) : List Value → Except String (List PyArg)
  | [] => .ok []
  | x :: xs => do return (← fromValueProto pack x) :: (← fromValueProtoAll pack xs)

end

/-! ## Round trips -/

/-- Nested lists of strings, booleans and integers that fit. -/
inductive PyArg.IsNested : PyArg → Prop where
  | str {s : String} : IsNested (.str s)
  | bool {b : Bool} : IsNested (.bool b)
  | int {i : Int} (hlower : -2 ^ 31 ≤ i) (hupper : i < 2 ^ 31) : IsNested (.int i)
  | list {xs : List PyArg} (h : ∀ x ∈ xs, IsNested x) : IsNested (.list xs)

/-- Nested structs of strings, booleans and integers, without metadata. -/
inductive Value.IsPlain : Value → Prop where
  | str {s : String} : IsPlain (.ofStr s)
  | boolean {b : Bool} : IsPlain (.ofBool b)
  | int32 {i : Int32} : IsPlain (.ofInt32 i)
  | struct {element : List Value} (h : ∀ x ∈ element, IsPlain x) : IsPlain (.ofStruct element)

section

variable {pack : AnyPb → AnyPb}

/-- The two lists are converted into each other, element by element. -/
theorem converts_all {xs : List PyArg} {vs : List Value}
    (h : List.Forall₂ (fun x v => x.toValueProto = .ok v ∧ v.fromValueProto pack = .ok x) xs vs) :
    PyArg.toValueProtoAll xs = .ok vs ∧ Value.fromValueProtoAll pack vs = .ok xs := by
  induction h with
  | nil => exact ⟨rfl, rfl⟩
  | @cons x v xs vs hx _ ih =>
      constructor
      · rw [PyArg.toValueProtoAll, hx.1, ok_bind, ih.1]
        rfl
      · rw [Value.fromValueProtoAll, hx.2, ok_bind, ih.2]
        rfl

theorem converts_list {xs : List PyArg} {vs : List Value}
    (h : List.Forall₂ (fun x v => x.toValueProto = .ok v ∧ v.fromValueProto pack = .ok x) xs vs) :
    (PyArg.list xs).toValueProto = .ok (.ofStruct vs) ∧
      (Value.ofStruct vs).fromValueProto pack = .ok (.list xs) := by
  obtain ⟨hto, hfrom⟩ := converts_all h
  constructor
  · show (PyArg.toValueProtoAll xs >>= _) = _
    rw [hto]
    rfl
  · show (Value.fromValueProtoAll pack vs >>= _) = _
    rw [hfrom]
    rfl

/-- Each nested list has the IR that it is converted to and from. -/
theorem PyArg.IsNested.converts {x : PyArg} (h : x.IsNested) :
    ∃ v, x.toValueProto = .ok v ∧ v.fromValueProto pack = .ok x := by
  induction h with
  | str => exact ⟨_, rfl, rfl⟩
  | bool => exact ⟨_, rfl, rfl⟩
  | @int i hlower hupper =>
      refine ⟨.ofInt32 (Int32.ofInt i), if_pos ⟨hlower, hupper⟩, ?_⟩
      show Except.ok (PyArg.int (Int32.ofInt i).toInt) = _
      rw [Int32.toInt_ofInt_of_le hlower hupper]
  | @list xs _ ih =>
      choose! v hv using ih
      have hall : List.Forall₂ (fun x v => x.toValueProto = .ok v ∧ v.fromValueProto pack = .ok x)
          xs (xs.map v) := List.forall₂_map_right_iff.mpr (List.forall₂_same.mpr hv)
      exact ⟨_, converts_list hall⟩

/-- Each plain value has the object that it is converted to and from. -/
theorem Value.IsPlain.converts {v : Value} (h : v.IsPlain) :
    ∃ x : PyArg, x.toValueProto = .ok v ∧ v.fromValueProto pack = .ok x := by
  induction h with
  | str => exact ⟨.str _, rfl, rfl⟩
  | boolean => exact ⟨.bool _, rfl, rfl⟩
  | @int32 i =>
      refine ⟨.int i.toInt, ?_, rfl⟩
      show PyArg.intField i.toInt = _
      rw [PyArg.intField, if_pos ⟨i.le_toInt, i.toInt_lt⟩, Int32.ofInt_toInt]
  | @struct element _ ih =>
      choose! x hx using ih
      have hall : List.Forall₂ (fun x v => x.toValueProto = .ok v ∧ v.fromValueProto pack = .ok x)
          (element.map x) element := List.forall₂_map_left_iff.mpr (List.forall₂_same.mpr hx)
      exact ⟨_, converts_list hall⟩

end

/-- **Round trips**, from Python and back and from IR and back. -/
theorem round_trips (pack : AnyPb → AnyPb) :
    (∀ x : PyArg, x.IsNested → (x.toValueProto >>= Value.fromValueProto pack) = .ok x) ∧
    ∀ v : Value, v.IsPlain → (v.fromValueProto pack >>= PyArg.toValueProto) = .ok v := by
  constructor
  · intro x hx
    obtain ⟨v, hto, hfrom⟩ := hx.converts
    rw [hto]
    exact hfrom
  · intro v hv
    obtain ⟨x, hto, hfrom⟩ := hv.converts
    rw [hfrom]
    exact hto

theorem round_trips_list :
    ((PyArg.list [.str "foo", .int 99, .list [], .bool true]).toValueProto >>= Value.fromValueProto id) =
      .ok (.list [.str "foo", .int 99, .list [], .bool true]) ∧
    ((Value.ofStruct [.ofStr "foo", .ofInt32 99, .ofStruct [], .ofBool false]).fromValueProto id >>=
      PyArg.toValueProto) = .ok (.ofStruct [.ofStr "foo", .ofInt32 99, .ofStruct [], .ofBool false]) := by
  constructor
  · refine (round_trips id).1 _ (.list ?_)
    simp only [List.forall_mem_cons]
    exact ⟨.str, .int (by decide) (by decide), .list (List.forall_mem_nil _), .bool, List.forall_mem_nil _⟩
  · refine (round_trips id).2 _ (.struct ?_)
    simp only [List.forall_mem_cons]
    exact ⟨.str, .int32, .struct (List.forall_mem_nil _), .boolean, List.forall_mem_nil _⟩

end GenC
