import GenC.Intrinsics.Parametricity
import GenC.Runtime.ControlFlowExecutor
import GenC.Runtime.RunnerCalls

/-!
# The child of a control-flow executor

A control-flow executor knows its child by the interface only, and is parametric in it: over two children that
answer every call alike, with the same ids, it evaluates and calls alike (`ControlFlowExecutor.Related.knot`).
What alike means, is up to the relator.

As with the handlers, there is one lemma for each function of the executor.
-/

namespace GenC

open Lib

variable {σ τ : Type}

variable (𝓡 : Relator Event Crash Status σ τ)

/-- The two executors answer every call alike, with the same ids. -/
structure Executor.Related (exec : Executor ValueId σ) (exec' : Executor ValueId τ) : Prop where
  createValue : ∀ {w} val, 𝓡.Rel w (fun _ => Eq) (exec.createValue val) (exec'.createValue val)
  createCall : ∀ {w} function argument, 𝓡.Rel w (fun _ => Eq) (exec.createCall function argument)
    (exec'.createCall function argument)
  createStruct : ∀ {w} members, 𝓡.Rel w (fun _ => Eq) (exec.createStruct members) (exec'.createStruct members)
  createSelection : ∀ {w} source index, 𝓡.Rel w (fun _ => Eq) (exec.createSelection source index)
    (exec'.createSelection source index)
  materialize : ∀ {w} id output, 𝓡.Rel w (fun _ => Eq) (exec.materialize id output) (exec'.materialize id output)
  dispose : ∀ {w} id, 𝓡.Rel w (fun _ => Eq) (exec.dispose id) (exec'.dispose id)

namespace Executor.Related

variable {𝓡} {exec : Executor ValueId σ} {exec' : Executor ValueId τ} (h : exec.Related 𝓡 exec') {w : 𝓡.World}
  {α : Type} {x : Exec σ α} {y : Exec τ α}

include h

theorem releaseAll (ids : List ValueId) : 𝓡.Rel w (fun _ => Eq) (exec.releaseAll ids) (exec'.releaseAll ids) := by
  induction ids generalizing w with
  | nil => exact 𝓡.same ()
  | cons id ids ih => exact 𝓡.bind (𝓡.attempt (h.dispose id)) fun _ _ _ _ _ => ih

theorem releasing (ids : List ValueId) (hxy : 𝓡.Rel w (fun _ => Eq) x y) :
    𝓡.Rel w (fun _ => Eq) (exec.releasing ids x) (exec'.releasing ids y) := by
  refine 𝓡.bind (𝓡.attempt hxy) fun w' _ r r' hr => ?_
  cases r <;> cases r'
  · exact 𝓡.bind_same (h.releaseAll ids) fun _ _ _ => 𝓡.throw hr
  · exact hr.elim
  · exact hr.elim
  · obtain rfl : _ = _ := hr
    exact 𝓡.bind_same (h.releaseAll ids) fun _ _ _ => 𝓡.same _

end Executor.Related

/-- The same handlers, over children that answer alike. -/
structure ControlFlowExecutor.Related (exec : ControlFlowExecutor σ) (exec' : ControlFlowExecutor τ) : Prop where
  error_eq : ∀ {e e'}, 𝓡.Error e e' → e = e'
  handlers : exec.intrinsicHandlers = exec'.intrinsicHandlers
  child : exec.childExecutor.Related 𝓡 exec'.childExecutor

/-- Two ways to go on with an evaluation, which are alike. -/
structure Knot.Related (knot : Knot σ) (knot' : Knot τ) : Prop where
  evaluate : ∀ {w} v scope, 𝓡.Rel w (fun _ => Eq) (knot.evaluate v scope) (knot'.evaluate v scope)
  createCall : ∀ {w} f a, 𝓡.Rel w (fun _ => Eq) (knot.createCall f a) (knot'.createCall f a)

namespace ControlFlowExecutor.Related

variable {𝓡} {exec : ControlFlowExecutor σ} {exec' : ControlFlowExecutor τ} (h : exec.Related 𝓡 exec')
  {w : 𝓡.World} {self : Knot σ} {self' : Knot τ} (hself : self.Related 𝓡 self') {fuel : Nat}

section

include h

/-! ## Embedding -/

mutual

theorem embed : ∀ (v : ExecutorValue) {w : 𝓡.World}, 𝓡.Rel w (fun _ => Eq) (exec.embed v) (exec'.embed v)
  | .embedded id, _ => 𝓡.same (id, none)
  | .struct fields, w => by
      rw [ControlFlowExecutor.embed, ControlFlowExecutor.embed]
      refine 𝓡.bind_same (embedFields fields [] []) fun w₁ _ slots => ?_
      exact 𝓡.bind_same (h.child.releasing _ (h.child.createStruct _)) fun _ _ id => 𝓡.same _
  | .lambda lambdaPb _, w => by
      rw [ControlFlowExecutor.embed, ControlFlowExecutor.embed]
      exact 𝓡.bind_same (h.child.createValue _) fun _ _ id => 𝓡.same _
  | .intrinsic _ _ _, w => by
      rw [ControlFlowExecutor.embed, ControlFlowExecutor.embed]
      exact 𝓡.throw (𝓡.error_refl _)

theorem embedFields : ∀ (fields : List ExecutorValue) (ids slots : List ValueId) {w : 𝓡.World},
    𝓡.Rel w (fun _ => Eq) (exec.embedFields fields ids slots) (exec'.embedFields fields ids slots)
  | [], ids, slots, w => by
      rw [ControlFlowExecutor.embedFields, ControlFlowExecutor.embedFields]
      exact 𝓡.same _
  | field :: fields, ids, slots, w => by
      rw [ControlFlowExecutor.embedFields, ControlFlowExecutor.embedFields]
      refine 𝓡.bind (𝓡.attempt (embed field)) fun w₁ _ r r' hr => ?_
      cases r <;> cases r'
      · exact 𝓡.bind_same (h.child.releaseAll slots) fun _ _ _ => 𝓡.throw hr
      · exact hr.elim
      · exact hr.elim
      · obtain rfl : _ = _ := hr
        exact embedFields fields _ _

end

theorem constMaterialize (v : ExecutorValue) (output : Option Value) :
    𝓡.Rel w (fun _ => Eq) (exec.constMaterialize v output) (exec'.constMaterialize v output) := by
  refine 𝓡.bind (𝓡.attempt (h.embed v)) fun w₁ _ r r' hr => ?_
  cases r <;> cases r'
  · obtain rfl := h.error_eq hr
    exact 𝓡.same _
  · exact hr.elim
  · exact hr.elim
  · obtain rfl : _ = _ := hr
    exact h.child.releasing _ (h.child.materialize _ output)

theorem createSelectionInternal (source : ExecutorValue) (index : UInt32) : 𝓡.Rel w (fun _ => Eq)
    (exec.createSelectionInternal source index) (exec'.createSelectionInternal source index) := by
  cases source with
  | embedded id => exact 𝓡.bind_same (h.child.createSelection id index) fun _ _ _ => 𝓡.same _
  | struct elements =>
      simp only [ControlFlowExecutor.createSelectionInternal]
      split
      · exact 𝓡.same _
      · exact 𝓡.throw (𝓡.error_refl _)
  | lambda => exact 𝓡.throw (𝓡.error_refl _)
  | intrinsic => exact 𝓡.throw (𝓡.error_refl _)

theorem callEmbedded (function : ValueId) (argument : Option ExecutorValue) : 𝓡.Rel w (fun _ => Eq)
    (exec.callEmbedded function argument) (exec'.callEmbedded function argument) := by
  cases argument with
  | none => exact 𝓡.bind_same (h.child.createCall function none) fun _ _ _ => 𝓡.same _
  | some argument =>
      refine 𝓡.bind_same (h.embed argument) fun w₁ _ p => ?_
      exact 𝓡.bind_same (h.child.releasing _ (h.child.createCall function _)) fun _ _ _ => 𝓡.same _

theorem createChildValue (v : Value) :
    𝓡.Rel w (fun _ => Eq) (exec.createChildValue v) (exec'.createChildValue v) :=
  𝓡.bind_same (h.child.createValue v) fun _ _ _ => 𝓡.same _

/-! ## Evaluation -/

variable [ProtoText]

theorem evaluateIntrinsic (v : Value) (intr : Intrinsic) (scope : Scope) : 𝓡.Rel w (fun _ => Eq)
    (exec.evaluateIntrinsic v intr scope) (exec'.evaluateIntrinsic v intr scope) := by
  have hcheck {w : 𝓡.World} (handler : IntrinsicHandler) := runCheckWellFormed_related 𝓡 (w := w) handler intr
  rw [ControlFlowExecutor.evaluateIntrinsic, ControlFlowExecutor.evaluateIntrinsic, h.handlers]
  refine 𝓡.bind_same (𝓡.ofExcept_same _) fun w₁ _ handler => 𝓡.bind_same (hcheck handler) fun w₂ _ _ => ?_
  cases handler.interface with
  | controlFlow => exact 𝓡.bind_same (hcheck handler) fun _ _ _ => 𝓡.same _
  | inline => exact h.createChildValue v

include hself

omit [ProtoText] in
theorem constCreateExecutorValue (v : Value) : 𝓡.Rel w (fun _ => Eq)
    (exec.constCreateExecutorValue self v) (exec'.constCreateExecutorValue self' v) := by
  cases v with
  | scalar => exact h.createChildValue _
  | notSet => exact 𝓡.throw (𝓡.error_refl _)
  | _ => exact hself.evaluate _ []

omit [ProtoText] in
/-- Handlers get contexts that are alike. -/
theorem context (scope : Scope) : (exec.context self scope).Related 𝓡 True (fun _ => True) (fun _ => Eq) w
    (exec'.context self' scope) where
  keeps _ h := h
  -- IR with a computation in it is evaluated, and anything else goes to the child
  createValue {w v} _ _ := by
    show 𝓡.Rel w _ (if hasComputation v then _ else _) (if hasComputation v then _ else _)
    split
    · exact hself.evaluate v scope
    · exact h.constCreateExecutorValue hself v
  createCall _ hf ha _ := by
    subst hf
    cases ha with
    | none => exact hself.createCall _ none
    | some ha => exact ha ▸ hself.createCall _ _
  createStruct _ hvs := by
    obtain rfl := List.forall₂_eq_eq_eq ▸ hvs
    exact 𝓡.same _
  materialize output _ hv _ := by
    subst hv
    exact 𝓡.of_same (h.constMaterialize _ output) fun _ _ => ⟨rfl, fun _ _ => trivial⟩

theorem callIntrinsic (intr : Intrinsic) (handler : IntrinsicHandler) (scope : Scope) (arg : Option ExecutorValue) :
    𝓡.Rel w (fun _ => Eq) (exec.callIntrinsic fuel self intr handler scope arg)
      (exec'.callIntrinsic fuel self' intr handler scope arg) := by
  refine 𝓡.bind_same (𝓡.ofExcept_same _) fun w₁ _ interface => 𝓡.bind (𝓡.tell _) fun w₂ _ _ _ _ => ?_
  have hgood : Value.Inherited fun _ => True := ⟨trivial, fun _ _ _ => trivial⟩
  have hkeeps : interface.Keeps fun _ => True := by
    cases interface <;> first | trivial | exact fun _ _ _ _ _ _ _ _ _ => trivial
  refine ControlFlowHandler.executeCall_related (h.context hself scope) hgood fuel hkeeps trivial ?_ fun _ => trivial
  cases arg with
  | none => exact .none
  | some arg => exact .some rfl

theorem constCreateCallStep (f : ExecutorValue) (arg : Option ExecutorValue) : 𝓡.Rel w (fun _ => Eq)
    (exec.constCreateCallStep fuel self f arg) (exec'.constCreateCallStep fuel self' f arg) := by
  cases f with
  | embedded id => exact h.callEmbedded id arg
  | struct => exact 𝓡.throw (𝓡.error_refl _)
  | lambda lambdaPb scope =>
      cases arg with
      | none => exact hself.evaluate _ _
      | some arg => exact hself.evaluate _ _
  | intrinsic intr handler scope => exact h.callIntrinsic hself intr handler scope arg

theorem evaluateStep (v : Value) (scope : Scope) :
    𝓡.Rel w (fun _ => Eq) (exec.evaluateStep self v scope) (exec'.evaluateStep self' v scope) := by
  cases v with
  | block m locals result =>
      refine 𝓡.bind_same ?_ fun _ _ scope => hself.evaluate result scope
      generalize ",".intercalate (locals.map Prod.fst) = names
      -- the locals are evaluated one after the other, in a scope that grows
      induction locals generalizing w scope with
      | nil => exact 𝓡.same scope
      | cons localPb locals ih =>
          refine 𝓡.bind_same (𝓡.mapError_same (fun e e' he => ?_) (hself.evaluate _ _)) fun _ _ v => ih _
          obtain rfl := h.error_eq he
          exact 𝓡.error_refl _
  | reference m name =>
      refine 𝓡.mapError_same (fun e e' he => ?_) (𝓡.ofExcept_same _)
      obtain rfl := h.error_eq he
      exact 𝓡.error_refl _
  | call m function argument =>
      refine 𝓡.bind_same (hself.evaluate function scope) fun _ _ f => ?_
      cases argument with
      | none => exact hself.createCall f none
      | some argument => exact 𝓡.bind_same (hself.evaluate argument scope) fun _ _ a => hself.createCall f _
  | selection m source index =>
      exact 𝓡.bind_same (hself.evaluate source scope) fun _ _ v => h.createSelectionInternal v _
  | struct m elements =>
      refine 𝓡.bind_same ?_ fun _ _ vs => 𝓡.same _
      induction elements generalizing w with
      | nil => exact 𝓡.same []
      | cons element elements ih =>
          exact 𝓡.bind_same (hself.evaluate element scope) fun _ _ v => 𝓡.bind_same ih fun _ _ vs => 𝓡.same _
  | lambda => exact 𝓡.same _
  | intrinsic m uri staticParameter => exact h.evaluateIntrinsic _ _ scope
  | scalar => exact h.createChildValue _
  | notSet => exact h.createChildValue _

/-! ### The knot, and runs -/

omit hself in
/-- With any fuel. -/
theorem knot (fuel : Nat) : (exec.knot fuel).Related 𝓡 (exec'.knot fuel) := by
  induction fuel with
  | zero => exact ⟨fun _ _ => 𝓡.outOfFuel, fun _ _ => 𝓡.outOfFuel⟩
  | succ fuel ih => exact ⟨h.evaluateStep ih, h.constCreateCallStep ih⟩

omit hself in
/-- **Over children that answer alike, programs run alike.** -/
theorem impl_run (fuel : Nat) (computation arg : Value) : 𝓡.Rel w (fun _ => Eq)
    ((exec.impl fuel).run computation arg) ((exec'.impl fuel).run computation arg) := by
  have hknot := h.knot fuel
  refine 𝓡.bind_same (h.constCreateExecutorValue hknot computation) fun _ _ compVal => ?_
  refine 𝓡.bind_same (h.constCreateExecutorValue hknot arg) fun _ _ argVal => ?_
  refine 𝓡.bind_same (hknot.createCall compVal (some argVal)) fun _ _ resultVal => ?_
  refine 𝓡.bind_same (h.constMaterialize resultVal _) fun _ _ result => ?_
  rw [MaterializeResult.get, MaterializeResult.get]
  rcases result.status with e | _
  · exact 𝓡.throw (𝓡.error_refl e)
  · exact 𝓡.same _

omit hself in
theorem impl_runAll (fuel : Nat) (requests : List (Value × Value)) : 𝓡.Rel w (fun _ => Eq)
    ((exec.impl fuel).runAll requests) ((exec'.impl fuel).runAll requests) := by
  induction requests generalizing w with
  | nil => exact 𝓡.same []
  | cons request requests ih =>
      refine 𝓡.bind (𝓡.attempt (h.impl_run fuel request.1 request.2)) fun _ _ r r' hr => ?_
      obtain rfl : r = r' := by
        cases r <;> cases r'
        · exact congrArg Except.error (h.error_eq hr)
        · exact hr.elim
        · exact hr.elim
        · exact congrArg Except.ok hr
      exact 𝓡.bind_same ih fun _ _ results => 𝓡.same _

end

end ControlFlowExecutor.Related

end GenC
