import GenC.Runtime.Adequacy
import GenC.Runtime.Materialization
import GenC.Runtime.Runner

/-!
# Delegation

`Delegate` is meant to run its computation elsewhere: it hands the computation and the materialized
argument to the runner of a named environment. Calling it should make no difference to the result
(`LocationTransparent`).

It never gets as far as the runner. The argument is moved into an optional that is disengaged, which
is undefined behaviour, so every call with a data argument and a known environment ends the process
there (`delegate_converges`). To show that the runner was not called on the way, the evaluation and
the materialization of data are shown to be silent.
-/

namespace GenC

open Lib

/-! ## Data is silent -/

section Silent

variable [ProtoText] (handlers : IntrinsicHandlerSet)

theorem createChildValue_silent (v : Value) :
    Run.Silent ((localExecutor handlers).createChildValue v) :=
  (createValue_silent handlers v).bind fun _ => .pure _

mutual

theorem evaluate_silent : ∀ (v : Value) {d : Data Scalar}, v.toData = some d →
    ∀ (n : Nat) (scope : Scope), Run.Silent ((localExecutor handlers).evaluate n v scope)
  | _, _, _, 0, _ => .outOfFuel
  | .scalar _ _, _, _, _ + 1, _ => createChildValue_silent handlers _
  | .struct _ es, d, hd, n + 1, scope => by
      obtain ⟨ds, hds, -⟩ := Option.map_eq_some_iff.mp hd
      exact (evaluateElements_silent es hds n scope).bind fun _ => .pure _

theorem evaluateElements_silent : ∀ (es : List Value) {ds : List (Data Scalar)},
    Value.toData.toDataAll es = some ds → ∀ (n : Nat) (scope : Scope), Run.Silent
      (ControlFlowExecutor.evaluateElements ((localExecutor handlers).knot n) es scope)
  | [], _, _, _, _ => .pure _
  | e :: es, ds, hds, n, scope => by
      rw [Value.toData.toDataAll] at hds
      split at hds
      · next hd hds' =>
          exact (evaluate_silent e hd n scope).bind fun _ =>
            (evaluateElements_silent es hds' n scope).bind fun _ => .pure _
      · cases hds

end

end Silent

/-! ## Data evaluates to itself -/

mutual

theorem toTerm_of_toData (handlers : IntrinsicHandlerSet) : ∀ {v : Value} {d : Data Scalar},
    v.toData = some d → v.toTerm handlers = some (Term.ofData d)
  | .scalar _ _, _, h => by cases h; rfl
  | .struct _ es, _, h => by
      obtain ⟨ds, hds, rfl⟩ := Option.map_eq_some_iff.mp h
      rw [Value.toTerm, toTermAll_of_toDataAll handlers hds]
      rfl

theorem toTermAll_of_toDataAll (handlers : IntrinsicHandlerSet) : ∀ {es : List Value}
    {ds : List (Data Scalar)}, Value.toData.toDataAll es = some ds →
      Value.toTerm.toTermAll handlers es = some (Term.ofDataAll ds)
  | [], _, h => by cases h; rfl
  | e :: es, ds, h => by
      rw [Value.toData.toDataAll] at h
      split at h
      · next hd hds =>
          cases h
          rw [Value.toTerm.toTermAll, toTerm_of_toData handlers hd,
            toTermAll_of_toDataAll handlers hds]
          rfl
      · cases h

end

/-- A piece of data is represented after it is evaluated. -/
theorem data_evaluates [ProtoText] (handlers : IntrinsicHandlerSet) {x : Value} {d : Data Scalar}
    (hx : x.toData = some d) (s : InlineState) : ∃ r s',
      (localExecutor handlers).Evaluates x [] s r s' ∧ Rep handlers s' (Term.ofData d) r := by
  have hclosed := Term.closed_ofData (P := Intrinsic) d
  have hscope : RepScope handlers s (fun _ => none) [] := fun x t ht => by cases ht
  have hδ : Interprets handlers fun _ _ => none := fun _ _ _ h => by cases h
  obtain ⟨r, s', hr, -, hrep⟩ := eval_simulates hδ (Term.Eval.ofData d) hclosed x
    (toTerm_of_toData handlers hx) (hclosed.close_eq _) hscope
  exact ⟨r, s', hr, hrep⟩

/-! ## The call -/

/-- `Delegate` with static parameter `struct(e, f)`. -/
def delegateIntrinsic (e : String) (f : Value) : Intrinsic :=
  ⟨"delegate", some (.ofStruct [.ofStr e, f])⟩

/-- `Call(Delegate(e, f), x)`. -/
def delegateCall (e : String) (f x : Value) : Value :=
  .call {} (delegateIntrinsic e f).toValue (some x)

section Call

variable [ProtoText] {handlers : IntrinsicHandlerSet} {runnerMap : RunnerMap} {e : String}
  {x : Value} {d : Data Scalar}

/-- The handler that the name "delegate" stands for. -/
def delegateHandler (runnerMap : RunnerMap) : IntrinsicHandler :=
  ⟨"delegate", .controlFlow (.delegate runnerMap)⟩

/-- What is seen of the call: the evaluator looks at the intrinsic twice and calls the handler. -/
def delegateEvents (runnerMap : RunnerMap) (e : String) (f : Value) : List Event :=
  [.checkWellFormed (delegateHandler runnerMap) (delegateIntrinsic e f),
    .checkWellFormed (delegateHandler runnerMap) (delegateIntrinsic e f),
    .controlFlowCall (.delegate runnerMap) (delegateIntrinsic e f) true]

/-- The handler dies on the argument, having called nobody. -/
theorem delegateExecuteCall_crashes {s : InlineState} {r : ExecutorValue} (f : Value) (k : Knot InlineState)
    (hr : (runnerMap e).isSome) (hrep : Rep handlers s (Term.ofData d) r) :
    ControlFlowHandler.delegateExecuteCall ((localExecutor handlers).context k []) runnerMap
      (delegateIntrinsic e f) (some r) s = ([], .crash .absentOptional) := by
  obtain ⟨runnerFn, hrunner⟩ := Option.isSome_iff_exists.mp hr
  obtain ⟨w, s', hmat, -⟩ := constMaterialize_returns hrep .defaultInstance
  have hmat' := (constMaterialize_silent handlers r _).eq_of_returns hmat
  -- the argument is materialized, and then the optional is read that nothing was put into
  have hargument : ControlFlowHandler.delegateArgument ((localExecutor handlers).context k [])
      (some r) s = ([], .crash .absentOptional) := by
    have hvalue : ((localExecutor handlers).context k []).materializeValue r s =
        ([], .ok w s') := Run.bind_ok hmat'
    exact Run.bind_ok hvalue
  have hname : elementAt (delegateIntrinsic e f).parameter.elements 0 s =
      ([], .ok (.ofStr e) s) := rfl
  have hfunc : elementAt (delegateIntrinsic e f).parameter.elements 1 s = ([], .ok f s) := rfl
  rw [ControlFlowHandler.delegateExecuteCall, Run.bind_ok hname]
  have hrunner' : runnerMap (Value.ofStr e).str = some runnerFn := hrunner
  simp only [hrunner']
  rw [Run.bind_ok hfunc, Run.bind_crash hargument]
  rfl

variable (hdelegate : handlers.getHandler "delegate" = .ok (delegateHandler runnerMap))
  (hr : (runnerMap e).isSome) (hx : x.toData = some d)
include hdelegate

/-- The intrinsic is well formed, so it evaluates to itself. -/
theorem evaluate_delegateIntrinsic (n : Nat) (f : Value) (s : InlineState) :
    (localExecutor handlers).evaluate (n + 1) (delegateIntrinsic e f).toValue [] s =
      ([.checkWellFormed (delegateHandler runnerMap) (delegateIntrinsic e f),
        .checkWellFormed (delegateHandler runnerMap) (delegateIntrinsic e f)],
        .ok (.intrinsic (delegateIntrinsic e f) (delegateHandler runnerMap) []) s) := by
  have hget : (Run.ofExcept (handlers.getHandler "delegate") : Exec InlineState _) s =
      ([], .ok (delegateHandler runnerMap) s) := by rw [hdelegate]; rfl
  exact Run.bind_ok hget

include hr hx

theorem evaluate_delegateCall (f : Value) (s : InlineState) : ∃ fuel, ∀ n ≥ fuel,
    (localExecutor handlers).evaluate n (delegateCall e f x) [] s =
      (delegateEvents runnerMap e f, .crash .absentOptional) := by
  obtain ⟨r, s', ⟨fuel, hret⟩, hrep⟩ := data_evaluates handlers hx s
  refine ⟨fuel + 3, fun n hn => ?_⟩
  obtain ⟨n, rfl⟩ : ∃ k, n = k + 3 := ⟨n - 3, by omega⟩
  have harg := (evaluate_silent handlers x hx (n + 2) []).eq_of_returns
    (hret.mono ((localExecutor handlers).evaluate_le (by omega) x []))
  have hfun := evaluate_delegateIntrinsic hdelegate (e := e) (n + 1) f s
  -- the handler is reached with the argument, and crashes in its scope
  have hcall : (localExecutor handlers).constCreateCall (n + 2)
      (.intrinsic (delegateIntrinsic e f) (delegateHandler runnerMap) []) (some r) s' =
        ([.controlFlowCall (.delegate runnerMap) (delegateIntrinsic e f) true],
          .crash .absentOptional) := by
    have hinterface : (Run.ofExcept (delegateHandler runnerMap).getControlFlowInterface :
        Exec InlineState _) s' = ([], .ok (.delegate runnerMap) s') := rfl
    refine (Run.bind_ok hinterface).trans ?_
    rw [Run.bind_ok (Run.tell_apply _ s')]
    have hcrash := delegateExecuteCall_crashes f ((localExecutor handlers).knot (n + 1)) hr hrep
    rw [ControlFlowHandler.executeCall, hcrash]
    rfl
  show ((localExecutor handlers).evaluate (n + 2) (delegateIntrinsic e f).toValue [] >>= fun fv =>
    (localExecutor handlers).evaluate (n + 2) x [] >>= fun av =>
      (localExecutor handlers).constCreateCall (n + 2) fv (some av)) s = _
  rw [Run.bind_ok hfun, Run.bind_ok harg, hcall]
  rfl

end Call

/-! ## Location transparency -/

section Transparency

variable [ProtoText] (handlers : IntrinsicHandlerSet)

/-- What a client of a local stack gets by creating `v` and materializing it. -/
def Yields (v : Value) (s : ControlFlowState InlineState) (d : Data Scalar) : Prop :=
  ∃ fuel id s₁ w s₂,
    Run.Returns ((controlFlowExecutor (localExecutor handlers) fuel).createValue v) s id s₁ ∧
    Run.Returns ((controlFlowExecutor (localExecutor handlers) fuel).materialize id
      (some .defaultInstance)) s₁ ⟨.ok (), some w⟩ s₂ ∧ w.toData = some d

/-- Delegating `f` to `e` on `x` is the same as calling it: it yields the same data, and the
runner of `e` is called with the argument. -/
structure LocationTransparent (e : String) (f x : Value) (s : ControlFlowState InlineState) :
    Prop where
  same_data : ∀ d, Yields handlers (delegateCall e f x) s d ↔
    Yields handlers (.call {} f (some x)) s d
  runner_called : ∃ l o w, Run.Converges
    (fun n => (controlFlowExecutor (localExecutor handlers) n).createValue (delegateCall e f x)) s l o ∧
    Event.runnerCall e f (some w) ∈ l ∧ w.toData = x.toData

variable {handlers} {runnerMap : RunnerMap} {e : String} {x : Value} {d : Data Scalar}

/-- With enough fuel, the call ends the process. -/
theorem createValue_delegateCall
    (hdelegate : handlers.getHandler "delegate" = .ok (delegateHandler runnerMap))
    (hr : (runnerMap e).isSome) (hx : x.toData = some d) (f : Value)
    (s : ControlFlowState InlineState) : ∃ fuel, ∀ n ≥ fuel,
      (controlFlowExecutor (localExecutor handlers) n).createValue (delegateCall e f x) s =
        (delegateEvents runnerMap e f, .crash .absentOptional) := by
  obtain ⟨fuel, h⟩ := evaluate_delegateCall hdelegate hr hx f s.impl
  refine ⟨fuel, fun n hn => ?_⟩
  have himpl : ExecutorBase.onImpl (((localExecutor handlers).impl n).createExecutorValue
      (delegateCall e f x)) s = (delegateEvents runnerMap e f, .crash .absentOptional) := by
    show (Run.zoom _ _ ((localExecutor handlers).evaluate n (delegateCall e f x) [])) s = _
    rw [Run.zoom, h n hn]
  exact Run.bind_crash himpl

/-- **Delegation is never location transparent**: whatever the function, the data argument, the
environment and its runner. -/
theorem not_locationTransparent
    (hdelegate : handlers.getHandler "delegate" = .ok (delegateHandler runnerMap))
    (hr : (runnerMap e).isSome) (hx : x.toData = some d) (f : Value)
    (s : ControlFlowState InlineState) : ¬LocationTransparent handlers e f x s := by
  intro h
  obtain ⟨fuel, hcrash⟩ := createValue_delegateCall hdelegate hr hx f s
  obtain ⟨l, o, w, ⟨ho, n, hn⟩, hmem, -⟩ := h.runner_called
  beta_reduce at hn
  have hle : Run.Le _ _ := (localExecutor handlers).createValue_le
    (Nat.le_max_left n fuel) (delegateCall e f x)
  have hmax := hle.eq_of_ne (s := s) (by rw [hn]; exact ho)
  rw [hn, hcrash _ (Nat.le_max_right n fuel)] at hmax
  cases hmax
  simp [delegateEvents] at hmem

end Transparency

/-! ### Delegating the identity -/

section Example

local instance : ProtoText := ProtoText.silent

/-- A runner that runs a function, with or without an argument, on a local stack of its own and
materializes the result. -/
def stackRunner (handlers : IntrinsicHandlerSet) (fuel : Nat) : RunnerFn := fun func arg =>
  let exec := controlFlowExecutor (localExecutor handlers) fuel
  let run : Exec (ControlFlowState InlineState) Value := do
    let f ← exec.createValue func
    let a ← match arg with
      | some arg => some <$> exec.createValue arg
      | none => pure none
    let result ← exec.createCall f a
    (← exec.materialize result (some .defaultInstance)).get
  match (run localInitial).2 with
  | .ok v _ => .ok v
  | .error e _ => .error e
  | .crash _ | .outOfFuel => .error (.internal "The runner did not return.")

/-- Handlers with one environment to delegate to, which is like this one. -/
def remoteHandlers : IntrinsicHandlerSet :=
  createCompleteHandlerSet
    (fun e => if e = "remote" then some (stackRunner (createCompleteHandlerSet (fun _ => none) []) 9)
      else none) []

def identity : Value := .lambda {} "x" (.reference {} "x")

theorem not_locationTransparent_identity :
    ¬LocationTransparent remoteHandlers "remote" identity (.ofStr "a") localInitial :=
  not_locationTransparent rfl rfl rfl identity localInitial

/-- The runner would return the argument, the local call does return it, the delegated call ends
the process. -/
theorem delegate_identity_crashes :
    stackRunner (createCompleteHandlerSet (fun _ => none) []) 9 identity (some (.ofStr "a")) =
      .ok (.ofStr "a") ∧
    (∃ s, ((controlFlowExecutor (localExecutor remoteHandlers) 9).performAll
      [.createValue (.call {} identity (some (.ofStr "a"))), .materialize 0 (some .defaultInstance)]
      localInitial).2 =
        .ok [.created (.ok 0), .materialized (.ok ⟨.ok (), some (.ofStr "a")⟩)] s) ∧
    ((controlFlowExecutor (localExecutor remoteHandlers) 9).createValue
      (delegateCall "remote" identity (.ofStr "a")) localInitial).2 = .crash .absentOptional :=
  ⟨rfl, ⟨_, rfl⟩, rfl⟩

end Example

end GenC
