import Mathlib.Data.List.Forall2
import GenC.Types.Checking

/-!
# Type inference

`types/inference.cc`: `InferTypes` annotates a value and its parts with their types, in place, and checks
the annotations it finds. What it writes stays there when it fails.

`Typed` is the typing relation it decides, which looks at no annotation.
-/

namespace GenC

namespace Value

def metadata : Value → Meta
  | notSet m | scalar m _ | call m _ _ | lambda m _ _ | reference m _ | struct m _ | selection m _ _
  | block m _ _ | intrinsic m _ _ => m

/-- `type()`. -/
def typePb (v : Value) : TypePb := v.metadata.type.getD .notSet

end Value

/-! ## `InferTypes` -/

section

variable [TypeText]

/-- `SetScalarType`, of a value with the metadata `m` and the payload `s`. -/
def setScalarType (m : Meta) (s : Scalar) (scalarType : ScalarType) : StatusOr Unit × Value :=
  match m.type with
  | none => (.ok (), .scalar { m with type := some (.scalar scalarType) } s)
  | some type => (checkEqual type (.scalar scalarType), .scalar m s)

/-- What `InferTypes` makes of a selection once its source is inferred. -/
def inferSelection (m : Meta) (source : Value) (index : Int32) : StatusOr Unit × Value :=
  match source.typePb with
  | .struct element =>
      if index.toInt < 0 then
        (.error (.invalidArgument "Negative selection index."), .selection m source index)
      else match element[index.toInt.toNat]? with
        | none => (.error (.invalidArgument
            ("Selection index " ++ toString index ++ " out of range for a struct of size " ++
              toString element.length ++ ".")), .selection m source index)
        | some selectedType =>
            match m.type with
            | none => (.ok (), .selection { m with type := some selectedType } source index)
            | some type => (checkEqual type selectedType, .selection m source index)
  | type => (.error (.invalidArgument ("Selecting from a non-struct type " ++ typeDebugString type)),
      .selection m source index)

mutual

/-- `InferTypes`, of a value that is there: the status, and the value afterwards. -/
def inferTypes : Value → StatusOr Unit × Value
  | .scalar m (.str s) => setScalarType m (.str s) .string
  | .scalar m (.int32 i) => setScalarType m (.int32 i) .int32
  | .scalar m (.boolean b) => setScalarType m (.boolean b) .bool
  | .struct m element =>
      let (status, element', types) := createStructType element
      match m.type with
      | none => (status, .struct { m with type := some (.struct types) } element')
      | some type => (status >>= fun _ => checkEqual type (.struct types), .struct m element')
  | .selection m source index =>
      match inferTypes source with
      | (.error e, source') => (.error e, .selection m source' index)
      | (.ok (), source') => inferSelection m source' index
  | v => (.error (.unimplemented "Not implemented."), v)

/-- `CreateStructType`: the status, the elements afterwards, and their types. The type of an element is
added before the element is inferred, so one that fails leaves a type that is not set. -/
def createStructType : List Value → StatusOr Unit × List Value × List TypePb
  | [] => (.ok (), [], [])
  | v :: vs =>
      match inferTypes v with
      | (.error e, v') => (.error e, v' :: vs, [.notSet])
      | (.ok (), v') =>
          let (status, vs', types) := createStructType vs
          (status, v' :: vs', v'.typePb :: types)

end

/-- `InferTypes`, of a pointer. -/
def inferTypesOrNull (valuePb : Option Value) : StatusOr Unit × Option Value :=
  match valuePb with
  | none => (.error (.invalidArgument "Null value."), none)
  | some v => ((inferTypes v).1, some (inferTypes v).2)

end

/-! ## The typing relation -/

/-- `v` is data of type `t`, whatever it and its parts are annotated with. -/
inductive Value.Typed : Value → TypePb → Prop where
  | str {m : Meta} {s : String} : Typed (.scalar m (.str s)) (.scalar .string)
  | int32 {m : Meta} {i : Int32} : Typed (.scalar m (.int32 i)) (.scalar .int32)
  | boolean {m : Meta} {b : Bool} : Typed (.scalar m (.boolean b)) (.scalar .bool)
  | struct {m : Meta} {element : List Value} {types : List TypePb}
      (h : List.Forall₂ Typed element types) : Typed (.struct m element) (.struct types)
  | selection {m : Meta} {source : Value} {index : Int32} {types : List TypePb} {t : TypePb}
      (hsource : Typed source (.struct types)) (hindex : 0 ≤ index.toInt)
      (ht : types[index.toInt.toNat]? = some t) : Typed (.selection m source index) t

end GenC
