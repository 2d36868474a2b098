import GenC.Proto.Value

/-!
# Status conversion

`base/to_from_grpc_status.cc`. Both conversions cast one enumeration to the other, so what they do is
decided by the numbers of the codes.
-/

namespace GenC

/-! ## The codes of `absl::Status` -/

namespace StatusCode

/-- The number of a code. -/
def toInt : StatusCode → Int
  | cancelled => 1
  | unknown => 2
  | invalidArgument => 3
  | deadlineExceeded => 4
  | notFound => 5
  | alreadyExists => 6
  | permissionDenied => 7
  | resourceExhausted => 8
  | failedPrecondition => 9
  | aborted => 10
  | outOfRange => 11
  | unimplemented => 12
  | internal => 13
  | unavailable => 14
  | dataLoss => 15
  | unauthenticated => 16

/-- The code that `absl::Status::code()` reports for a number other than 0. -/
def ofInt : Int → StatusCode
  | 1 => cancelled
  | 3 => invalidArgument
  | 4 => deadlineExceeded
  | 5 => notFound
  | 6 => alreadyExists
  | 7 => permissionDenied
  | 8 => resourceExhausted
  | 9 => failedPrecondition
  | 10 => aborted
  | 11 => outOfRange
  | 12 => unimplemented
  | 13 => internal
  | 14 => unavailable
  | 15 => dataLoss
  | 16 => unauthenticated
  | _ => unknown

/-- `absl::StatusCodeToString`. -/
def name : StatusCode → String
  | cancelled => "CANCELLED"
  | unknown => "UNKNOWN"
  | invalidArgument => "INVALID_ARGUMENT"
  | deadlineExceeded => "DEADLINE_EXCEEDED"
  | notFound => "NOT_FOUND"
  | alreadyExists => "ALREADY_EXISTS"
  | permissionDenied => "PERMISSION_DENIED"
  | resourceExhausted => "RESOURCE_EXHAUSTED"
  | failedPrecondition => "FAILED_PRECONDITION"
  | aborted => "ABORTED"
  | outOfRange => "OUT_OF_RANGE"
  | unimplemented => "UNIMPLEMENTED"
  | internal => "INTERNAL"
  | unavailable => "UNAVAILABLE"
  | dataLoss => "DATA_LOSS"
  | unauthenticated => "UNAUTHENTICATED"

@[simp] theorem ofInt_toInt (c : StatusCode) : ofInt c.toInt = c := by cases c <;> rfl

theorem toInt_ne_zero (c : StatusCode) : c.toInt ≠ 0 := by cases c <;> decide

end StatusCode

/-- `absl::Status::ToString()` of an error. -/
def Status.toString (e : Status) : String := e.code.name ++ ": " ++ e.message

/-! ## `grpc::Status` -/

/-- A `grpc::StatusCode` is kept as its number. -/
structure GrpcStatus where
  errorCode : Int
  errorMessage : String
  deriving Repr, DecidableEq

namespace GrpcStatus

/-- `grpc::Status::OK`. -/
def OK : GrpcStatus := ⟨0, ""⟩

def ok (status : GrpcStatus) : Bool := status.errorCode == 0

@[simp] theorem ok_OK : OK.ok = true := rfl

end GrpcStatus

def abslToGrpcStatus (status : StatusOr Unit) : GrpcStatus :=
  match status with
  | .ok () => .OK
  | .error e => ⟨e.code.toInt, e.message⟩

def grpcToAbslStatus (status : GrpcStatus) : StatusOr Unit :=
  if status.ok then .ok ()
  else .error ⟨.ofInt status.errorCode, status.errorMessage⟩

/-- A status that is sent comes back as it was. -/
@[simp] theorem grpcToAbslStatus_abslToGrpcStatus (status : StatusOr Unit) :
    grpcToAbslStatus (abslToGrpcStatus status) = status := by
  cases status with
  | ok => rfl
  | error e =>
      have hok : (abslToGrpcStatus (.error e)).ok = false := beq_false_of_ne e.code.toInt_ne_zero
      rw [grpcToAbslStatus, hok]
      exact congrArg (fun c => Except.error (Status.mk c e.message)) e.code.ofInt_toInt

@[simp] theorem ok_abslToGrpcStatus_error (e : Status) : (abslToGrpcStatus (.error e)).ok = false :=
  beq_false_of_ne e.code.toInt_ne_zero

end GenC
