import GenC.Intrinsics.Monotone
import GenC.Runtime.ControlFlowExecutor

/-!
# Fuel of the control-flow executor

More fuel never changes what an evaluation ends with (`ControlFlowExecutor.evaluate_le`). The proof
follows the open recursion: each handler is monotone in its context, each evaluator function is
monotone in the knot, and the knot is then monotone in its fuel by one induction.
-/

namespace GenC

open Lib

variable {σ V : Type}

/-! ## The evaluator is monotone in the knot -/

structure Knot.Le (k k' : Knot σ) : Prop where
  evaluate : ∀ v scope, Run.Le (k.evaluate v scope) (k'.evaluate v scope)
  createCall : ∀ f a, Run.Le (k.createCall f a) (k'.createCall f a)

namespace ControlFlowExecutor

variable (exec : ControlFlowExecutor σ) {k k' : Knot σ}

theorem constCreateExecutorValue_le (h : k.Le k') (v : Value) :
    Run.Le (exec.constCreateExecutorValue k v) (exec.constCreateExecutorValue k' v) := by
  unfold constCreateExecutorValue
  split
  · exact .refl _
  · exact .refl _
  · exact h.evaluate _ _

theorem context_le (h : k.Le k') (scope : Scope) :
    (exec.context k scope).Le (exec.context k' scope) where
  createValue v := by
    show Run.Le (if hasComputation v then _ else _) (if hasComputation v then _ else _)
    split
    · exact h.evaluate v scope
    · exact exec.constCreateExecutorValue_le h v
  createCall := h.createCall
  createStruct _ := .refl _
  createSelection _ _ := .refl _
  materialize _ _ := .refl _

theorem evaluateLocals_le (h : k.Le k') (names : String) :
    ∀ (locals : List (String × Value)) (scope : Scope),
      Run.Le (evaluateLocals k names locals scope) (evaluateLocals k' names locals scope)
  | [], _ => .refl _
  | (_, localPb) :: locals, scope =>
      ((h.evaluate localPb scope).mapError _).bind fun _ => evaluateLocals_le h names locals _

theorem evaluateElements_le (h : k.Le k') : ∀ (elements : List Value) (scope : Scope),
    Run.Le (evaluateElements k elements scope) (evaluateElements k' elements scope)
  | [], _ => .refl _
  | e :: es, scope => (h.evaluate e scope).bind fun _ =>
      (evaluateElements_le h es scope).bind fun _ => .refl _

variable [ProtoText]

theorem constCreateCallStep_le (h : k.Le k') {n m : Nat} (hnm : n ≤ m) (function : ExecutorValue)
    (argument : Option ExecutorValue) :
    Run.Le (exec.constCreateCallStep n k function argument)
      (exec.constCreateCallStep m k' function argument) := by
  cases function with
  | embedded => exact .refl _
  | struct => exact .refl _
  | lambda lambdaPb scope =>
      cases argument with
      | none => exact h.evaluate _ _
      | some arg => exact h.evaluate _ _
  | intrinsic intrinsicPb handler scope =>
      exact .bind (.refl _) fun interface => .bind (.refl _) fun _ =>
        ControlFlowHandler.executeCall_le (exec.context_le h scope) hnm interface _ _

theorem evaluateStep_le (h : k.Le k') (v : Value) (scope : Scope) :
    Run.Le (exec.evaluateStep k v scope) (exec.evaluateStep k' v scope) := by
  cases v with
  | notSet | scalar | lambda | reference | intrinsic => exact .refl _
  | call m function argument =>
      refine (h.evaluate function scope).bind fun functionVal => ?_
      cases argument with
      | none => exact h.createCall _ _
      | some argument => exact (h.evaluate argument scope).bind fun _ => h.createCall _ _
  | struct m elements => exact (evaluateElements_le h elements scope).bind fun _ => .refl _
  | selection m source index => exact (h.evaluate source scope).bind fun _ => .refl _
  | block m locals result =>
      exact (evaluateLocals_le h _ locals scope).bind fun _ => h.evaluate result _

/-! ## Fuel -/

theorem knot_le_succ : ∀ n : Nat, (exec.knot n).Le (exec.knot (n + 1))
  | 0 => ⟨fun _ _ => .outOfFuel_le _, fun _ _ => .outOfFuel_le _⟩
  | n + 1 => ⟨exec.evaluateStep_le (knot_le_succ n),
      exec.constCreateCallStep_le (knot_le_succ n) (Nat.le_succ n)⟩

theorem knot_le {n m : Nat} (h : n ≤ m) : (exec.knot n).Le (exec.knot m) := by
  induction h with
  | refl => exact ⟨fun _ _ => .refl _, fun _ _ => .refl _⟩
  | @step m _ ih =>
      have hs := exec.knot_le_succ m
      exact ⟨fun v scope => (ih.evaluate v scope).trans (hs.evaluate v scope),
        fun f a => (ih.createCall f a).trans (hs.createCall f a)⟩

/-- **More fuel does not change what an evaluation ends with.** -/
theorem evaluate_le {n m : Nat} (h : n ≤ m) (v : Value) (scope : Scope) :
    Run.Le (exec.evaluate n v scope) (exec.evaluate m v scope) :=
  (exec.knot_le h).evaluate v scope

theorem constCreateCall_le {n m : Nat} (h : n ≤ m) (function : ExecutorValue)
    (argument : Option ExecutorValue) :
    Run.Le (exec.constCreateCall n function argument) (exec.constCreateCall m function argument) :=
  (exec.knot_le h).createCall function argument

/-- The same for a client. -/
theorem createValue_le {n m : Nat} (h : n ≤ m) (v : Value) :
    Run.Le ((controlFlowExecutor exec n).createValue v) ((controlFlowExecutor exec m).createValue v) :=
  (exec.constCreateExecutorValue_le (exec.knot_le h) v).zoom.bind fun _ => .refl _

/-! ## Successful evaluations

With fuel out of the way, evaluation follows the IR: one rule for each of its nodes. -/

/-- With enough fuel, `v` evaluates to `value` in `scope`, taking the child from `s` to `s'`. -/
def Evaluates (v : Value) (scope : Scope) (s : σ) (value : ExecutorValue) (s' : σ) : Prop :=
  ∃ fuel, Run.Returns (exec.evaluate fuel v scope) s value s'

/-- With enough fuel, calling `function` on `argument` gives `value`. -/
def Calls (function argument : ExecutorValue) (s : σ) (value : ExecutorValue) (s' : σ) : Prop :=
  ∃ fuel, Run.Returns (exec.constCreateCall fuel function (some argument)) s value s'

variable {exec} {scope : Scope} {s s₁ s₂ s₃ : σ}

/-- Evaluation has one result. -/
theorem Evaluates.unique {v : Value} {a b : ExecutorValue} (ha : exec.Evaluates v scope s a s₁)
    (hb : exec.Evaluates v scope s b s₂) : a = b ∧ s₁ = s₂ := by
  obtain ⟨n, ha⟩ := ha
  obtain ⟨m, hb⟩ := hb
  have ha' := ha.mono (exec.evaluate_le (le_max_left n m) v scope)
  exact ha'.unique (hb.mono (exec.evaluate_le (le_max_right n m) v scope))

theorem Calls.unique {f arg a b : ExecutorValue} (ha : exec.Calls f arg s a s₁)
    (hb : exec.Calls f arg s b s₂) : a = b ∧ s₁ = s₂ := by
  obtain ⟨n, ha⟩ := ha
  obtain ⟨m, hb⟩ := hb
  have ha' := ha.mono (exec.constCreateCall_le (le_max_left n m) f (some arg))
  exact ha'.unique (hb.mono (exec.constCreateCall_le (le_max_right n m) f (some arg)))

/-! ### Introduction and inversion -/

theorem Evaluates.child {v : Value} {id : ValueId} (hv : hasComputation v = false)
    (h : Run.Returns (exec.childExecutor.createValue v) s id s₁) :
    exec.Evaluates v scope s (.embedded id) s₁ := by
  refine ⟨1, ?_⟩
  cases v with
  | scalar m c => exact h.bind (.pure _ _)
  | notSet m => exact h.bind (.pure _ _)
  | _ => cases hv

theorem Evaluates.inline {m : Meta} {uri : String} {staticParameter : Option Value} {id : ValueId}
    {handler : IntrinsicHandler} {interface : InlineHandler}
    (hget : exec.intrinsicHandlers.getHandler uri = .ok handler)
    (hinterface : handler.interface = .inline interface)
    (hwf : handler.checkWellFormed ⟨uri, staticParameter⟩ = some (.ok ()))
    (h : Run.Returns (exec.childExecutor.createValue (.intrinsic m uri staticParameter)) s id s₁) :
    exec.Evaluates (.intrinsic m uri staticParameter) scope s (.embedded id) s₁ := by
  refine ⟨1, (Run.Returns.ofExcept hget s).bind ?_⟩
  refine Run.Returns.bind (a := ()) (t := s) ?_ ?_
  · refine (Run.Returns.tell _ s).bind ?_
    rw [hwf]
    exact .ofExcept rfl s
  · rw [hinterface]
    exact h.bind (.pure _ _)

theorem Evaluates.controlFlow {m : Meta} {uri : String} {staticParameter : Option Value}
    {handler : IntrinsicHandler} {interface : ControlFlowHandler}
    (hget : exec.intrinsicHandlers.getHandler uri = .ok handler)
    (hinterface : handler.interface = .controlFlow interface)
    (hwf : handler.checkWellFormed ⟨uri, staticParameter⟩ = some (.ok ())) :
    exec.Evaluates (.intrinsic m uri staticParameter) scope s
      (.intrinsic ⟨uri, staticParameter⟩ handler scope) s := by
  have hcheck : Run.Returns (handler.runCheckWellFormed ⟨uri, staticParameter⟩ : Exec σ Unit) s () s := by
    refine (Run.Returns.tell _ s).bind ?_
    rw [hwf]
    exact .ofExcept rfl s
  refine ⟨1, (Run.Returns.ofExcept hget s).bind (hcheck.bind ?_)⟩
  rw [hinterface]
  exact hcheck.bind (.pure _ s)

theorem Evaluates.reference {m : Meta} {name : String} {value : ExecutorValue}
    (h : scope.resolve name = .ok value) : exec.Evaluates (.reference m name) scope s value s :=
  ⟨1, (Run.Returns.ofExcept h s).mapError _⟩

theorem Evaluates.reference_inv {m : Meta} {name : String} {value : ExecutorValue}
    (h : exec.Evaluates (.reference m name) scope s value s₁) : scope.resolve name = .ok value ∧ s₁ = s := by
  obtain ⟨_ | n, h⟩ := h
  · obtain ⟨l, hl⟩ := h
    cases hl
  have h : Run.Returns (Run.ofExcept (scope.resolve name) : Exec σ ExecutorValue) s value s₁ :=
    Run.Returns.of_mapError h
  rcases hr : scope.resolve name with e | v <;> rw [hr] at h
  · obtain ⟨l, hl⟩ := h
    cases hl
  · obtain ⟨rfl, rfl⟩ := (Run.Returns.pure v s).unique h
    exact ⟨rfl, rfl⟩

theorem Evaluates.lambda {m : Meta} {parameterName : String} {result : Value} :
    exec.Evaluates (.lambda m parameterName result) scope s
      (.lambda ⟨parameterName, result⟩ scope) s :=
  ⟨1, .pure _ _⟩

theorem Evaluates.call {m : Meta} {function argument : Value} {f a r : ExecutorValue}
    (hf : exec.Evaluates function scope s f s₁) (ha : exec.Evaluates argument scope s₁ a s₂)
    (hr : exec.Calls f a s₂ r s₃) : exec.Evaluates (.call m function (some argument)) scope s r s₃ := by
  obtain ⟨nf, hf⟩ := hf
  obtain ⟨na, ha⟩ := ha
  obtain ⟨nr, hr⟩ := hr
  refine ⟨max nf (max na nr) + 1, ?_⟩
  refine (hf.mono (exec.evaluate_le (by omega) function scope)).bind ?_
  refine (ha.mono (exec.evaluate_le (by omega) argument scope)).bind ?_
  exact hr.mono (exec.constCreateCall_le (by omega) f (some a))

theorem Evaluates.call_inv {m : Meta} {function argument : Value} {r : ExecutorValue}
    (h : exec.Evaluates (.call m function (some argument)) scope s r s₃) :
    ∃ f s₁ a s₂, exec.Evaluates function scope s f s₁ ∧ exec.Evaluates argument scope s₁ a s₂ ∧
      exec.Calls f a s₂ r s₃ := by
  obtain ⟨_ | n, h⟩ := h
  · obtain ⟨l, hl⟩ := h
    cases hl
  obtain ⟨f, s₁, hf, h⟩ := Run.Returns.of_bind h
  obtain ⟨a, s₂, ha, hr⟩ := Run.Returns.of_bind h
  exact ⟨f, s₁, a, s₂, ⟨n, hf⟩, ⟨n, ha⟩, n, hr⟩

theorem Evaluates.struct_nil {m : Meta} : exec.Evaluates (.struct m []) scope s (.struct []) s :=
  ⟨1, (Run.Returns.pure _ _).bind (.pure _ _)⟩

theorem Evaluates.struct_inv {m : Meta} {es : List Value} {v : ExecutorValue}
    (h : exec.Evaluates (.struct m es) scope s v s₁) : ∃ vs, v = .struct vs := by
  obtain ⟨_ | n, h⟩ := h
  · obtain ⟨l, hl⟩ := h
    cases hl
  obtain ⟨vs, s', _, l, hl⟩ := h.of_bind
  cases hl
  exact ⟨vs, rfl⟩

theorem Evaluates.struct_cons {m : Meta} {e : Value} {es : List Value} {v : ExecutorValue}
    {vs : List ExecutorValue} (he : exec.Evaluates e scope s v s₁)
    (hes : exec.Evaluates (.struct m es) scope s₁ (.struct vs) s₂) :
    exec.Evaluates (.struct m (e :: es)) scope s (.struct (v :: vs)) s₂ := by
  obtain ⟨ne, he⟩ := he
  -- the rest was evaluated by the same loop, under a struct of its own
  obtain ⟨_ | nes, hes⟩ := hes
  · obtain ⟨l, hl⟩ := hes
    cases hl
  obtain ⟨vs', s', hes, l, hl⟩ := hes.of_bind
  cases hl
  refine ⟨max ne nes + 1, Run.Returns.bind (a := v :: vs) (t := s₂) ?_ (.pure _ _)⟩
  refine (he.mono (exec.evaluate_le (by omega) e scope)).bind ?_
  exact (hes.mono (evaluateElements_le (exec.knot_le (by omega)) es scope)).bind (.pure _ _)

theorem Evaluates.selection {m : Meta} {source : Value} {index : Int32} {v r : ExecutorValue}
    (hv : exec.Evaluates source scope s v s₁)
    (hr : Run.Returns (exec.createSelectionInternal v index.toUInt32) s₁ r s₂) :
    exec.Evaluates (.selection m source index) scope s r s₂ := by
  obtain ⟨n, hv⟩ := hv
  exact ⟨n + 1, hv.bind hr⟩

theorem Evaluates.block_nil {m : Meta} {result : Value} {r : ExecutorValue}
    (h : exec.Evaluates result scope s r s₁) : exec.Evaluates (.block m [] result) scope s r s₁ := by
  obtain ⟨n, h⟩ := h
  exact ⟨n + 1, (Run.Returns.pure _ _).bind h⟩

omit [ProtoText] in
/-- The names only appear in errors. -/
theorem evaluateLocals_names {k : Knot σ} {names names' : String} :
    ∀ {locals : List (String × Value)} {scope scope' : Scope} {s s' : σ},
      Run.Returns (evaluateLocals k names locals scope) s scope' s' →
        Run.Returns (evaluateLocals k names' locals scope) s scope' s'
  | [], _, _, _, _, h => h
  | (_, localPb) :: locals, scope, scope', s, s', h => by
      obtain ⟨v, s₁, hv, hrest⟩ := h.of_bind
      exact (hv.of_mapError.mapError _).bind (evaluateLocals_names hrest)

theorem Evaluates.block_cons {m : Meta} {name : String} {localPb result : Value}
    {locals : List (String × Value)} {v r : ExecutorValue}
    (hv : exec.Evaluates localPb scope s v s₁)
    (hr : exec.Evaluates (.block m locals result) ((name, v) :: scope) s₁ r s₂) :
    exec.Evaluates (.block m ((name, localPb) :: locals) result) scope s r s₂ := by
  obtain ⟨nv, hv⟩ := hv
  obtain ⟨_ | nr, hr⟩ := hr
  · obtain ⟨l, hl⟩ := hr
    cases hl
  obtain ⟨scope', s', hlocals, hresult⟩ := hr.of_bind
  refine ⟨max nv nr + 1, Run.Returns.bind (a := scope') (t := s') ?_ ?_⟩
  · refine ((hv.mono (exec.evaluate_le (by omega) localPb scope)).mapError _).bind ?_
    exact (evaluateLocals_names hlocals).mono
      (evaluateLocals_le (exec.knot_le (by omega)) _ locals _)
  · exact hresult.mono (exec.evaluate_le (by omega) result scope')

theorem Evaluates.block_nil_inv {m : Meta} {result : Value} {r : ExecutorValue}
    (h : exec.Evaluates (.block m [] result) scope s r s₁) : exec.Evaluates result scope s r s₁ := by
  obtain ⟨_ | n, h⟩ := h
  · obtain ⟨l, hl⟩ := h
    cases hl
  exact ⟨n, (Run.Returns.pure scope s).bind_iff.mp h⟩

theorem Evaluates.block_cons_inv {m : Meta} {name : String} {localPb result : Value}
    {locals : List (String × Value)} {r : ExecutorValue}
    (h : exec.Evaluates (.block m ((name, localPb) :: locals) result) scope s r s₂) :
    ∃ v s₁, exec.Evaluates localPb scope s v s₁ ∧
      exec.Evaluates (.block m locals result) ((name, v) :: scope) s₁ r s₂ := by
  obtain ⟨_ | n, h⟩ := h
  · obtain ⟨l, hl⟩ := h
    cases hl
  obtain ⟨scope', s', hlocals, hresult⟩ := Run.Returns.of_bind h
  obtain ⟨v, s₁, hv, hrest⟩ := Run.Returns.of_bind hlocals
  exact ⟨v, s₁, ⟨n, hv.of_mapError⟩, n + 1, (evaluateLocals_names hrest).bind hresult⟩

/-! ### Calls -/

theorem Calls.lambda {lambdaPb : Lambda} {a r : ExecutorValue}
    (h : exec.Evaluates lambdaPb.result ((lambdaPb.parameterName, a) :: scope) s r s₁) :
    exec.Calls (.lambda lambdaPb scope) a s r s₁ := by
  obtain ⟨n, h⟩ := h
  exact ⟨n + 1, h⟩

theorem Calls.lambda_inv {lambdaPb : Lambda} {a r : ExecutorValue}
    (h : exec.Calls (.lambda lambdaPb scope) a s r s₁) :
    exec.Evaluates lambdaPb.result ((lambdaPb.parameterName, a) :: scope) s r s₁ := by
  obtain ⟨_ | n, h⟩ := h
  · obtain ⟨l, hl⟩ := h
    cases hl
  exact ⟨n, h⟩

theorem Calls.embedded {f : ValueId} {a r : ExecutorValue}
    (h : Run.Returns (exec.callEmbedded f (some a)) s r s₁) : exec.Calls (.embedded f) a s r s₁ :=
  ⟨1, h⟩

/-- What evaluates in the root scope can be created by a client. -/
theorem Evaluates.constCreateExecutorValue {v : Value} {value : ExecutorValue}
    (h : exec.Evaluates v [] s value s₁) (hv : ∀ m, v ≠ .notSet m) :
    ∃ fuel, ∀ n ≥ fuel, Run.Returns (exec.constCreateExecutorValue (exec.knot n) v) s value s₁ := by
  obtain ⟨fuel, h⟩ := h
  refine ⟨fuel, fun n hn => ?_⟩
  have hn' := h.mono (exec.evaluate_le hn v [])
  cases v with
  | notSet m => exact (hv m rfl).elim
  | scalar m c =>
      cases n with
      | zero =>
          obtain ⟨l, hl⟩ := hn'
          cases hl
      | succ n => exact hn'
  | _ => exact hn'

end ControlFlowExecutor

end GenC
