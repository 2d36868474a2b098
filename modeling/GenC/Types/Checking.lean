import GenC.Proto.Value

/-!
# Type checking

`types/checking.cc`: whether two types are the same, with an error that says where they part.
`CheckEqual` has no case for sequences and tensors, nor for a type that is not set, so it accepts a type
as equal to itself only if none of these is in it (**`checkEqual_eq_ok_iff`**).
-/

namespace GenC

/-- `v0::ScalarType_Name`. -/
def ScalarType.name : ScalarType → String
  | invalid => "SCALAR_TYPE_INVALID"
  | float => "SCALAR_TYPE_FLOAT"
  | double => "SCALAR_TYPE_DOUBLE"
  | int32 => "SCALAR_TYPE_INT32"
  | uint8 => "SCALAR_TYPE_UINT8"
  | int16 => "SCALAR_TYPE_INT16"
  | int8 => "SCALAR_TYPE_INT8"
  | string => "SCALAR_TYPE_STRING"
  | complex64 => "SCALAR_TYPE_COMPLEX64"
  | int64 => "SCALAR_TYPE_INT64"
  | bool => "SCALAR_TYPE_BOOL"
  | qint8 => "SCALAR_TYPE_QINT8"
  | quint8 => "SCALAR_TYPE_QUINT8"
  | qint32 => "SCALAR_TYPE_QINT32"
  | bfloat16 => "SCALAR_TYPE_BFLOAT16"
  | qint16 => "SCALAR_TYPE_QINT16"
  | quint16 => "SCALAR_TYPE_QUINT16"
  | uint16 => "SCALAR_TYPE_UINT16"
  | complex128 => "SCALAR_TYPE_COMPLEX128"
  | half => "SCALAR_TYPE_HALF"
  | uint32 => "SCALAR_TYPE_UINT32"
  | uint64 => "SCALAR_TYPE_UINT64"
  | unrecognized _ => ""

/-- `DebugString` of a type, which the protobuf runtime writes. -/
class TypeText where
  typeDebugString : TypePb → String

export TypeText (typeDebugString)

/-! ## `CheckEqual` -/

def checkScalarEqual (x y : ScalarType) : StatusOr Unit :=
  if x = y then .ok ()
  else .error (.invalidArgument
    ("Scalar " ++ x.name ++ " vs. a different scalar " ++ y.name ++ "."))

section

variable [TypeText]

mutual

def checkEqual (x y : TypePb) : StatusOr Unit :=
  match x with
  | .scalar scalar =>
      match y with
      | .scalar scalar' => checkScalarEqual scalar scalar'
      | _ => .error (.invalidArgument
          ("Scalar " ++ scalar.name ++ " vs. non-scalar " ++ typeDebugString y ++ "."))
  | .struct element =>
      match y with
      | .struct element' =>
          if element.length = element'.length then checkElementsEqual 0 element element'
          else .error (.invalidArgument
            ("Inequal number of struct elements " ++ toString element.length ++ " vs. " ++
              toString element'.length ++ "."))
      | _ => .error (.invalidArgument
          ("Struct " ++ typeDebugString x ++ " vs. non-struct " ++ typeDebugString y ++ "."))
  | .function parameter result =>
      match y with
      | .function parameter' result' => do
          (checkFieldEqual parameter parameter').mapError fun e =>
            .invalidArgument ("Function parameter type mismatch: " ++ e.message)
          (checkFieldEqual result result').mapError fun e =>
            .invalidArgument ("Function result type mismatch: " ++ e.message)
      | _ => .error (.invalidArgument
          ("Function " ++ typeDebugString x ++ " vs. non-function " ++ typeDebugString y ++ "."))
  | .notSet | .sequence _ | .tensor _ _ _ => .error (.unimplemented "Not implemented.")

/-- `CheckEqual` of two fields. One that is absent reads as a type that is not set. -/
def checkFieldEqual : Option TypePb → Option TypePb → StatusOr Unit
  | some x, y => checkEqual x (y.getD .notSet)
  | none, _ => .error (.unimplemented "Not implemented.")

/-- The loop of `CheckStructEqual`, over as many elements on either side, from the `i`-th on. -/
def checkElementsEqual (i : Nat) : List TypePb → List TypePb → StatusOr Unit
  | x :: xs, y :: ys => do
      (checkEqual x y).mapError fun e => .invalidArgument
        ("Type mismatch at struct element " ++ toString i ++ ": " ++ e.message)
      checkElementsEqual (i + 1) xs ys
  | _, _ => .ok ()

end

/-! ## What it accepts -/

/-- A type of which every part has a case in `CheckEqual`. -/
inductive TypePb.Checkable : TypePb → Prop where
  | scalar {scalar : ScalarType} : Checkable (.scalar scalar)
  | struct {element : List TypePb} (h : ∀ t ∈ element, Checkable t) : Checkable (.struct element)
  | function {parameter result : TypePb} (hp : Checkable parameter) (hr : Checkable result) :
      Checkable (.function (some parameter) (some result))

omit [TypeText] in
/-- A check is passed just when each of its steps is. -/
theorem mapError_bind_eq_ok_iff {x y : StatusOr Unit} {f : Status → Status} :
    ((x.mapError f) >>= fun _ => y) = .ok () ↔ x = .ok () ∧ y = .ok () := by
  cases x with
  | error e => exact ⟨fun h => (nomatch h), fun h => (nomatch h.1)⟩
  | ok => exact ⟨fun h => ⟨rfl, h⟩, And.right⟩

omit [TypeText] in
theorem mapError_eq_ok_iff {x : StatusOr Unit} {f : Status → Status} :
    x.mapError f = .ok () ↔ x = .ok () := by
  cases x with
  | error e => exact ⟨fun h => (nomatch h), fun h => (nomatch h)⟩
  | ok => exact ⟨fun _ => rfl, fun _ => rfl⟩

omit [TypeText] in
theorem TypePb.not_checkable_notSet : ¬TypePb.Checkable .notSet := nofun

mutual

theorem checkEqual_eq_ok : ∀ {x y : TypePb}, checkEqual x y = .ok () → x = y ∧ x.Checkable
  | .scalar scalar, y, h => by
      cases y with
      | scalar scalar' =>
          rw [checkEqual, checkScalarEqual] at h
          split at h
          · next heq => exact ⟨congrArg TypePb.scalar heq, .scalar⟩
          · cases h
      | _ => cases h
  | .struct element, y, h => by
      cases y with
      | struct element' =>
          rw [checkEqual] at h
          split at h
          · next hlength =>
              obtain ⟨rfl, helement⟩ := checkElementsEqual_eq_ok hlength h
              exact ⟨rfl, .struct helement⟩
          · cases h
      | _ => cases h
  | .function parameter result, y, h => by
      cases y with
      | function parameter' result' =>
          rw [checkEqual] at h
          obtain ⟨hparameter, hresult⟩ := mapError_bind_eq_ok_iff.mp h
          obtain ⟨p, rfl, rfl, hp⟩ := checkFieldEqual_eq_ok hparameter
          obtain ⟨r, rfl, rfl, hr⟩ := checkFieldEqual_eq_ok (mapError_eq_ok_iff.mp hresult)
          exact ⟨rfl, .function hp hr⟩
      | _ => cases h
  | .notSet, _, h => by cases h
  | .sequence _, _, h => by cases h
  | .tensor _ _ _, _, h => by cases h

theorem checkFieldEqual_eq_ok : ∀ {x y : Option TypePb}, checkFieldEqual x y = .ok () →
    ∃ t, x = some t ∧ y = some t ∧ t.Checkable
  | some t, some t', h => by
      obtain ⟨rfl, ht⟩ := checkEqual_eq_ok h
      exact ⟨t, rfl, rfl, ht⟩
  | some t, none, h => by
      obtain ⟨rfl, ht⟩ := checkEqual_eq_ok h
      exact (TypePb.not_checkable_notSet ht).elim
  | none, _, h => by cases h

theorem checkElementsEqual_eq_ok : ∀ {i : Nat} {xs ys : List TypePb}, xs.length = ys.length →
    checkElementsEqual i xs ys = .ok () → xs = ys ∧ ∀ t ∈ xs, t.Checkable
  | _, [], [], _, _ => ⟨rfl, fun _ h => (nomatch h)⟩
  | i, x :: xs, y :: ys, hlength, h => by
      rw [checkElementsEqual] at h
      obtain ⟨hx, hxs⟩ := mapError_bind_eq_ok_iff.mp h
      obtain ⟨rfl, hcheckable⟩ := checkEqual_eq_ok hx
      obtain ⟨rfl, hall⟩ := checkElementsEqual_eq_ok (Nat.succ.inj hlength) hxs
      exact ⟨rfl, List.forall_mem_cons.mpr ⟨hcheckable, hall⟩⟩

end

theorem checkElementsEqual_self {ts : List TypePb} (h : ∀ t ∈ ts, checkEqual t t = .ok ()) :
    ∀ i, checkElementsEqual i ts ts = .ok () := by
  induction ts with
  | nil => exact fun _ => rfl
  | cons t ts ih =>
      intro i
      obtain ⟨ht, hts⟩ := List.forall_mem_cons.mp h
      rw [checkElementsEqual]
      exact mapError_bind_eq_ok_iff.mpr ⟨ht, ih hts (i + 1)⟩

theorem TypePb.Checkable.checkEqual_self {t : TypePb} (h : t.Checkable) :
    checkEqual t t = .ok () := by
  induction h with
  | scalar => rw [checkEqual, checkScalarEqual, if_pos rfl]
  | struct _ ih => rw [checkEqual, if_pos rfl, checkElementsEqual_self ih]
  | function _ _ ihp ihr =>
      rw [checkEqual]
      exact mapError_bind_eq_ok_iff.mpr ⟨ihp, mapError_eq_ok_iff.mpr ihr⟩

/-- `CheckEqual` accepts a type and itself, if it can take the type apart, and nothing else. -/
theorem checkEqual_eq_ok_iff {x y : TypePb} : checkEqual x y = .ok () ↔ x = y ∧ x.Checkable := by
  constructor
  · exact checkEqual_eq_ok
  · rintro ⟨rfl, h⟩
    exact h.checkEqual_self

/-! ## What it reports

The status of a part is wrapped: whatever it was, what the whole reports is `InvalidArgument`. So
`Unimplemented` is the answer of the outermost type only. -/

omit [TypeText] in
theorem mapError_code {x : StatusOr Unit} {f : Status → Status} {e : Status} {c : StatusCode}
    (hf : ∀ e, (f e).code = c) (h : x.mapError f = .error e) : e.code = c := by
  cases x with
  | error e' =>
      obtain rfl : f e' = e := Except.error.inj h
      exact hf e'
  | ok => cases h

omit [TypeText] in
theorem mapError_bind_code {x y : StatusOr Unit} {f : Status → Status} {e : Status} {c : StatusCode}
    (hf : ∀ e, (f e).code = c) (hy : ∀ e, y = .error e → e.code = c)
    (h : ((x.mapError f) >>= fun _ => y) = .error e) : e.code = c := by
  cases x with
  | error e' => exact mapError_code (x := .error e') hf h
  | ok => exact hy e h

theorem checkElementsEqual_code : ∀ {i : Nat} {xs ys : List TypePb} {e : Status},
    checkElementsEqual i xs ys = .error e → e.code = .invalidArgument
  | i, x :: xs, y :: ys, e, h => by
      rw [checkElementsEqual] at h
      exact mapError_bind_code (fun _ => rfl) (fun _ => checkElementsEqual_code) h
  | _, [], _, _, h => by cases h
  | _, _ :: _, [], _, h => by cases h

/-- A type for which `CheckEqual` has a case. -/
inductive TypePb.Supported : TypePb → Prop where
  | scalar {scalar : ScalarType} : Supported (.scalar scalar)
  | struct {element : List TypePb} : Supported (.struct element)
  | function {parameter result : Option TypePb} : Supported (.function parameter result)

theorem checkEqual_code {x y : TypePb} {e : Status} (hx : x.Supported) (h : checkEqual x y = .error e) :
    e.code = .invalidArgument := by
  cases hx with
  | scalar =>
      cases y with
      | scalar scalar' =>
          rw [checkEqual, checkScalarEqual] at h
          split at h
          · cases h
          · obtain rfl := Except.error.inj h
            rfl
      -- types of different kinds
      | _ =>
          obtain rfl := Except.error.inj h
          rfl
  | struct =>
      cases y with
      | struct element' =>
          rw [checkEqual] at h
          split at h
          · exact checkElementsEqual_code h
          · obtain rfl := Except.error.inj h
            rfl
      | _ =>
          obtain rfl := Except.error.inj h
          rfl
  | function =>
      cases y with
      | function parameter' result' =>
          rw [checkEqual] at h
          exact mapError_bind_code (fun _ => rfl) (fun _ => mapError_code fun _ => rfl) h
      | _ =>
          obtain rfl := Except.error.inj h
          rfl

omit [TypeText] in
theorem TypePb.Checkable.supported {t : TypePb} (h : t.Checkable) : t.Supported := by
  cases h with
  | scalar => exact .scalar
  | struct => exact .struct
  | function => exact .function

theorem checkEqual_of_not_supported {x y : TypePb} (hx : ¬x.Supported) :
    checkEqual x y = .error (.unimplemented "Not implemented.") := by
  cases x with
  | scalar => exact (hx .scalar).elim
  | struct => exact (hx .struct).elim
  | function => exact (hx .function).elim
  | notSet => rw [checkEqual]
  | sequence => rw [checkEqual]
  | tensor => rw [checkEqual]

/-- The types made of scalars, structures and functions. A function may declare no parameter. -/
inductive TypePb.Functional : TypePb → Prop where
  | scalar {scalar : ScalarType} : Functional (.scalar scalar)
  | struct {element : List TypePb} (h : ∀ t ∈ element, Functional t) : Functional (.struct element)
  | function {parameter result : TypePb} (hp : Functional parameter) (hr : Functional result) :
      Functional (.function (some parameter) (some result))
  | noParameter {result : TypePb} (hr : Functional result) : Functional (.function none (some result))

omit [TypeText] in
theorem TypePb.Functional.supported {t : TypePb} (h : t.Functional) : t.Supported := by
  cases h with
  | scalar => exact .scalar
  | struct => exact .struct
  | function | noParameter => exact .function

/-- `CheckEqual` tells `x` from `y` by its answer: it accepts only what is the same, in either order and
always in the functional fragment, and says `InvalidArgument` only of what differs. A type that it cannot
compare with itself is reported `Unimplemented`. -/
structure Discerns (x y : TypePb) : Prop where
  same : checkEqual x y = .ok () → x = y
  differ : ∀ e, checkEqual x y = .error e → e.code = .invalidArgument → x ≠ y
  unimplemented : ∀ e, checkEqual x y = .error e → x = y → e.code = .unimplemented
  symm : checkEqual x y = .ok () ↔ checkEqual y x = .ok ()
  functional : x = y → x.Functional → checkEqual x y = .ok ()

/-- **When the answer of `CheckEqual` can be trusted**: the two types differ, or every part of them has a
case, or already the outermost type has none. A type with a case, around a part without one, is reported
to mismatch with itself; so is a function type without a parameter. -/
theorem discerns_iff {x y : TypePb} : Discerns x y ↔ x ≠ y ∨ x.Checkable ∨ ¬x.Supported := by
  constructor
  · intro h
    by_cases hne : x = y
    · subst hne
      right
      by_cases hx : x.Supported
      · cases hcheck : checkEqual x x with
        | ok => exact .inl (checkEqual_eq_ok hcheck).2
        | error e => exact (h.differ e hcheck (checkEqual_code hx hcheck) rfl).elim
      · exact .inr hx
    · exact .inl hne
  · intro h
    -- the check passes for equal checkable types only, which does not depend on the order
    have hsymm : checkEqual x y = .ok () ↔ checkEqual y x = .ok () := by
      rw [checkEqual_eq_ok_iff, checkEqual_eq_ok_iff]
      constructor <;> rintro ⟨rfl, ht⟩ <;> exact ⟨rfl, ht⟩
    rcases h with hne | hcheckable | hunsupported
    · exact
        { same := fun hok => (checkEqual_eq_ok hok).1
          differ := fun _ _ _ => hne
          unimplemented := fun _ _ heq => (hne heq).elim
          symm := hsymm
          functional := fun heq => (hne heq).elim }
    · have hself := hcheckable.checkEqual_self
      exact
        { same := fun hok => (checkEqual_eq_ok hok).1
          differ := by
            rintro e herror - rfl
            rw [hself] at herror
            cases herror
          unimplemented := by
            rintro e herror rfl
            rw [hself] at herror
            cases herror
          symm := hsymm
          functional := by
            rintro rfl -
            exact hself }
    -- an unsupported type is told apart by its own error, whatever it is compared with
    · have hfails := fun y => checkEqual_of_not_supported (y := y) hunsupported
      exact
        { same := fun hok => (checkEqual_eq_ok hok).1
          differ := by
            intro e herror hcode
            rw [hfails y] at herror
            obtain rfl := Except.error.inj herror
            cases hcode
          unimplemented := by
            intro e herror _
            rw [hfails y] at herror
            obtain rfl := Except.error.inj herror
            rfl
          symm := hsymm
          functional := fun _ hx => (hunsupported hx.supported).elim }

end

/-- A structure of one tensor, and a function that takes nothing, each do not match themselves. -/
theorem not_discerns_self :
    let _ : TypeText := ⟨fun _ => ""⟩
    let tensors : TypePb := .struct [.tensor .float [] false]
    let thunk : TypePb := .function none (some (.scalar .string))
    ¬Discerns tensors tensors ∧ ¬Discerns thunk thunk := by
  intro _ tensors thunk
  constructor
  · intro h
    exact h.differ _ (by rfl) rfl rfl
  · intro h
    exact h.differ _ (by rfl) rfl rfl

end GenC
