import GenC.Lib.Naming
import GenC.Runtime.Selection

/-!
# Locals, one after another

The locals of a block are definitions that are elaborated in the scopes before them.
-/

namespace GenC

open Lib

theorem Scope.resolve_eq_ok_iff {x : String} {v : ExecutorValue} : ∀ {scope : Scope},
    scope.resolve x = .ok v ↔ List.lookup x scope = some v
  | [] => ⟨fun h => (nomatch h), fun h => (nomatch h)⟩
  | (bound, value) :: parent => by
      rw [Scope.resolve, List.lookup_cons]
      by_cases h : bound = x
      · subst h
        rw [if_pos rfl, beq_self_eq_true, Except.ok.injEq, Option.some.injEq]
      · rw [if_neg h, beq_false_of_ne (Ne.symm h)]
        exact resolve_eq_ok_iff

section

variable [ProtoText] (handlers : IntrinsicHandlerSet)

/-- Evaluation, to a value that is alive. -/
def Evaluated (v : Value) (scope : Scope) (s : InlineState) (value : ExecutorValue)
    (s' : InlineState) : Prop :=
  (localExecutor handlers).Evaluates v scope s value s' ∧ s ≤ s' ∧ value.Alive s'

variable {handlers}

theorem evaluation : Evaluation (Evaluated handlers) where
  unique h h' := h.1.unique h'.1
  grows h := h.2.1

theorem Evaluated.of_evaluates {v : Value} {scope : Scope} {s s' : InlineState} {value : ExecutorValue}
    (h : (localExecutor handlers).Evaluates v scope s value s') (hscope : scope.Alive s) :
    Evaluated handlers v scope s value s' :=
  ⟨h, h.yields hscope⟩

theorem elaborates_alive {locals : List (String × Value)} {scope scope' : Scope} {s s' : InlineState}
    (h : Elaborates (Evaluated handlers) locals scope s scope' s') (hscope : scope.Alive s) :
    scope'.Alive s' := by
  induction h with
  | nil => exact hscope
  | cons he _ ih => exact ih ((hscope.of_le he.2.1).cons he.2.2)

/-- A block evaluates its result where its locals lead to. -/
theorem evaluates_block {m : Meta} {locals : List (String × Value)} {result : Value}
    {scope scope' : Scope} {s s' s'' : InlineState} {value : ExecutorValue}
    (h : Elaborates (Evaluated handlers) locals scope s scope' s')
    (hresult : (localExecutor handlers).Evaluates result scope' s' value s'') :
    (localExecutor handlers).Evaluates (.block m locals result) scope s value s'' := by
  induction h with
  | nil => exact .block_nil hresult
  | cons he _ ih => exact he.1.block_cons (ih hresult)

/-- And only there. -/
theorem elaborates_of_block {m : Meta} {result : Value} {value : ExecutorValue} {s'' : InlineState} :
    ∀ {locals : List (String × Value)} {scope : Scope} {s : InlineState}, scope.Alive s →
      (localExecutor handlers).Evaluates (.block m locals result) scope s value s'' →
      ∃ scope' s', Elaborates (Evaluated handlers) locals scope s scope' s' ∧
        (localExecutor handlers).Evaluates result scope' s' value s''
  | [], scope, s, _, h => ⟨scope, s, .nil, h.block_nil_inv⟩
  | (name, localPb) :: locals, scope, s, hscope, h => by
      obtain ⟨v, s₁, hv, h⟩ := h.block_cons_inv
      have hevaluated := Evaluated.of_evaluates hv hscope
      obtain ⟨scope', s', hlocals, hresult⟩ :=
        elaborates_of_block ((hscope.of_le hevaluated.2.1).cons hevaluated.2.2) h
      exact ⟨scope', s', .cons hevaluated hlocals, hresult⟩

end

end GenC
