import GenC.Runtime.Concurrency
import GenC.Runtime.ExecutorService

/-!
# The remote executor

`runtime/remote_executor.cc`, over the tasks of `Runtime/Concurrency.lean`. A value is the future of a
reference that the server handed out; a task waits for the references it needs and makes one call of
the stub.

What the destructor of a reference does is not here: as long as a client keeps its handles no reference
is dropped. It is the subject of `Runtime/RemoteLifetime.lean`.
-/

namespace GenC

open Lib

/-! ## The channel -/

/-- What a client gets to see: a response that comes with an error is not delivered. -/
def GrpcReply.received (reply : GrpcReply α) (unfilled : α) : GrpcReply α :=
  if reply.status.ok then reply else ⟨reply.status, unfilled⟩

/-- A lossless channel to a service: the stub of the other side. -/
def channel {σ : Type} (service : ExecutorServiceInterface σ) : ExecutorServiceInterface σ where
  createValue request := do return (← service.createValue request).received {}
  createCall request := do return (← service.createCall request).received {}
  createStruct request := do return (← service.createStruct request).received {}
  createSelection request := do return (← service.createSelection request).received {}
  materialize request := do return (← service.materialize request).received {}
  dispose request := do return (← service.dispose request).received {}

/-! ## The executor -/

namespace RemoteExecutor

open FuturePool

variable {σ : Type} (stub : ExecutorServiceInterface σ)

/-- The common ending of the task bodies. -/
def receive (reply : GrpcReply α) (ref : α → Option ValueRef) : Exec σ ValueRef := do
  Run.ofExcept (grpcToAbslStatus reply.status)
  pure ((ref reply.response).getD {})

def createValueTask (valPb : Value) : Exec σ ValueRef := do
  receive (← stub.createValue { value := some valPb }) (·.valueRef)

def createCallTask (func : ValueRef) (arg : Option ValueRef) : Exec σ ValueRef := do
  receive (← stub.createCall { functionRef := some func, argumentRef := arg }) (·.resultRef)

def createStructTask (elements : List ValueRef) : Exec σ ValueRef := do
  receive (← stub.createStruct { elementRef := elements }) (·.structRef)

def createSelectionTask (source : ValueRef) (index : UInt32) : Exec σ ValueRef := do
  receive (← stub.createSelection { sourceRef := some source, index := index.toInt32 })
    (·.selectionRef)

def valueJob (valPb : Value) : Job σ Status ValueRef :=
  ⟨[], fun _ => ending (createValueTask stub valPb)⟩

/-- It waits for the function, then for the argument if there is one. -/
def callJob (funcFuture : Nat) (argFuture : Option Nat) : Job σ Status ValueRef :=
  ⟨funcFuture :: argFuture.toList, fun got s =>
    match got with
    | func :: arg => ending (createCallTask stub func arg.head?) s
    | [] => none⟩

def structJob (memberFutures : List Nat) : Job σ Status ValueRef :=
  ⟨memberFutures, fun got => ending (createStructTask stub got)⟩

def selectionJob (valueFuture : Nat) (index : UInt32) : Job σ Status ValueRef :=
  ⟨[valueFuture], fun got s =>
    match got with
    | [source] => ending (createSelectionTask stub source index) s
    | _ => none⟩

theorem callJob_work (funcFuture : Nat) (argFuture : Option Nat) (func : ValueRef)
    (arg : List ValueRef) (s : σ) :
    (callJob stub funcFuture argFuture).work (func :: arg) s =
      ending (createCallTask stub func arg.head?) s := rfl

theorem selectionJob_work (valueFuture : Nat) (index : UInt32) (source : ValueRef) (s : σ) :
    (selectionJob stub valueFuture index).work [source] s =
      ending (createSelectionTask stub source index) s := rfl

/-- The response is moved into the caller's output whatever the status is. -/
def materialize (valueFuture : Nat) (valPb : Option Value) :
    Exec (FuturePool σ ValueRef) MaterializeResult := do
  match ← (wait valueFuture).attempt with
  | .error e => pure ⟨.error e, valPb⟩
  | .ok ref => do
      let reply ← onShared (stub.materialize { valueRef := some ref })
      match valPb with
      | none => Run.crash .nullOutput
      | some _ =>
          pure ⟨grpcToAbslStatus reply.status, some (reply.response.value.getD Value.defaultInstance)⟩

def impl : ExecutorImpl (FuturePool σ ValueRef) Nat where
  executorName := "RemoteExecutor"
  createExecutorValue val := runAsync (valueJob stub val)
  createCall funcFuture argFuture := runAsync (callJob stub funcFuture argFuture)
  createStruct memberFutures := runAsync (structJob stub memberFutures)
  createSelection valueFuture index := runAsync (selectionJob stub valueFuture index)
  materialize := materialize stub

/-! ### One task after the other

The executor with every future replaced by what it ends with: a task body runs when it is scheduled. A
stack that embeds values while it materializes them is run over this one. -/

namespace InTurn

def createCall (func : StatusOr ValueRef) (arg : Option (StatusOr ValueRef)) :
    Exec σ (StatusOr ValueRef) :=
  Run.attempt do
    let func ← Run.ofExcept func
    match arg with
    | some arg => do
        let arg ← Run.ofExcept arg
        createCallTask stub func (some arg)
    | none => createCallTask stub func none

/-- The loop of `CreateStruct` over the futures of its members. -/
def waitAll : List (StatusOr ValueRef) → Exec σ (List ValueRef)
  | [] => pure []
  | member :: members => do
      let element ← Run.ofExcept member
      let elements ← waitAll members
      pure (element :: elements)

def createStruct (members : List (StatusOr ValueRef)) : Exec σ (StatusOr ValueRef) :=
  Run.attempt do createStructTask stub (← waitAll members)

def createSelection (source : StatusOr ValueRef) (index : UInt32) : Exec σ (StatusOr ValueRef) :=
  Run.attempt do createSelectionTask stub (← Run.ofExcept source) index

def materialize (value : StatusOr ValueRef) (valPb : Option Value) : Exec σ MaterializeResult := do
  match ← (Run.ofExcept value : Exec σ ValueRef).attempt with
  | .error e => pure ⟨.error e, valPb⟩
  | .ok ref => do
      let reply ← stub.materialize { valueRef := some ref }
      match valPb with
      | none => Run.crash .nullOutput
      | some _ =>
          pure ⟨grpcToAbslStatus reply.status, some (reply.response.value.getD Value.defaultInstance)⟩

def impl : ExecutorImpl σ (StatusOr ValueRef) where
  executorName := "RemoteExecutor"
  createExecutorValue val := (createValueTask stub val).attempt
  createCall := createCall stub
  createStruct := createStruct stub
  createSelection := createSelection stub
  materialize := materialize stub

end InTurn

end RemoteExecutor

end GenC
