import GenC.Runtime.Evaluation

/-!
# Blocks are nested applications

`Value.block` is documented as functionally redundant. `EvaluateBlock` extends a scope in a loop;
the nested form makes a closure for each local and applies it. The two agree on everything but the
text of an error, to which `EvaluateBlock` appends the name of the local being evaluated, so errors
are compared by `Status.codeOnly`.

The nested form needs two more units of fuel for each local, so neither evaluation lies below the
other at the same fuel, but each lies below the other at some fuel.
-/

namespace GenC

open Lib

/-- Forget the message. -/
def Status.codeOnly (e : Status) : Status := { e with message := "" }

/-- `Call(Lambda(x1, Call(Lambda(x2, ... r ...), e2)), e1)`. -/
def Value.nestedCalls : List (String × Value) → Value → Value
  | [], result => result
  | (name, localPb) :: locals, result =>
      .call {} (.lambda {} name (nestedCalls locals result)) (some localPb)

namespace ControlFlowExecutor

variable [ProtoText] {σ : Type} (exec : ControlFlowExecutor σ)

/-- The body of `EvaluateBlock`, at given fuel and with given text for its errors. -/
def blockRun (n : Nat) (names : String) (locals : List (String × Value)) (result : Value)
    (scope : Scope) : Exec σ ExecutorValue :=
  evaluateLocals (exec.knot n) names locals scope >>= exec.evaluate n result

/-- Applying a closure that was just made. -/
theorem evaluate_call_lambda (n : Nat) (name : String) (body arg : Value) (scope : Scope) :
    exec.evaluate (n + 2) (.call {} (.lambda {} name body) (some arg)) scope =
      exec.evaluate (n + 1) arg scope >>= fun value =>
        exec.evaluate n body ((name, value) :: scope) := rfl

theorem blockRun_nil (n : Nat) (names : String) (result : Value) (scope : Scope) :
    exec.blockRun n names [] result scope = exec.evaluate n result scope :=
  pure_bind _ _

theorem blockRun_cons (n : Nat) (names name : String) (localPb : Value)
    (locals : List (String × Value)) (result : Value) (scope : Scope) :
    (exec.blockRun n names ((name, localPb) :: locals) result scope).mapError Status.codeOnly =
      (exec.evaluate n localPb scope).mapError Status.codeOnly >>= fun value =>
        (exec.blockRun n names locals result ((name, value) :: scope)).mapError
          Status.codeOnly := by
  unfold blockRun
  rw [evaluateLocals, bind_assoc, Run.mapError_bind, Run.mapError_mapError]
  rfl

theorem blockRun_le {n m : Nat} (h : n ≤ m) (names : String) (locals : List (String × Value))
    (result : Value) (scope : Scope) :
    Run.Le (exec.blockRun n names locals result scope) (exec.blockRun m names locals result scope) :=
  (evaluateLocals_le (exec.knot_le h) names locals scope).bind (exec.evaluate_le h result)

theorem nestedCalls_le_blockRun (names : String) (result : Value) :
    ∀ (locals : List (String × Value)) (n : Nat) (scope : Scope),
      Run.Le ((exec.evaluate n (.nestedCalls locals result) scope).mapError Status.codeOnly)
        ((exec.blockRun n names locals result scope).mapError Status.codeOnly)
  | [], n, scope => by
      rw [blockRun_nil]
      exact .refl _
  | _ :: _, 0, _ => .outOfFuel_le _
  -- with one unit the function is reached but not evaluated
  | _ :: _, 1, _ => .outOfFuel_le _
  | (name, localPb) :: locals, n + 2, scope => by
      rw [Value.nestedCalls, evaluate_call_lambda, Run.mapError_bind, blockRun_cons]
      refine .bind ((exec.evaluate_le (Nat.le_succ _) localPb scope).mapError _) fun value => ?_
      have ih := nestedCalls_le_blockRun names result locals n ((name, value) :: scope)
      exact ih.trans ((exec.blockRun_le (Nat.le_add_right n 2) names locals result _).mapError _)

theorem blockRun_le_nestedCalls (names : String) (result : Value) (n : Nat) :
    ∀ (locals : List (String × Value)) (scope : Scope),
      Run.Le ((exec.blockRun n names locals result scope).mapError Status.codeOnly)
        ((exec.evaluate (n + 2 * locals.length) (.nestedCalls locals result) scope).mapError
          Status.codeOnly)
  | [], scope => by
      rw [blockRun_nil]
      exact .refl _
  | (name, localPb) :: locals, scope => by
      have hlen : n + 2 * ((name, localPb) :: locals).length = (n + 2 * locals.length) + 2 := by
        simp only [List.length_cons]
        omega
      rw [hlen, Value.nestedCalls, evaluate_call_lambda, Run.mapError_bind, blockRun_cons]
      refine .bind ((exec.evaluate_le (by omega) localPb scope).mapError _) fun value => ?_
      exact blockRun_le_nestedCalls names result n locals ((name, value) :: scope)

/-- **A block is sugar for nested application.** In every scope and from every state of the child,
a block and its nested form end alike: with the same value and the same state of the child, or with
the same status code, or with the same crash, or not at all; and they make the same handler calls. -/
theorem block_converges_iff (m : Meta) (locals : List (String × Value)) (result : Value)
    (scope : Scope) (s : σ) (l : List Event) (o : Outcome Crash Status σ ExecutorValue) :
    Run.Converges (fun n =>
        (exec.evaluate n (.block m locals result) scope).mapError Status.codeOnly) s l o ↔
      Run.Converges (fun n =>
        (exec.evaluate n (.nestedCalls locals result) scope).mapError Status.codeOnly) s l o := by
  refine Run.Converges.congr (fun n => ?_) (fun n => ?_) s l o
  · cases n with
    | zero => exact ⟨0, .outOfFuel_le _⟩
    | succ n => exact ⟨_, exec.blockRun_le_nestedCalls _ result n locals scope⟩
  · exact ⟨n + 1, exec.nestedCalls_le_blockRun _ result locals n scope⟩

end ControlFlowExecutor

end GenC
