import GenC.Intrinsics.Recording
import GenC.Lib.EndAlike
import GenC.Runtime.Evaluation
import GenC.Runtime.Purity

/-!
# Calling an intrinsic

An intrinsic that was created in a scope is called by running its handler in the context of that scope,
whoever calls it (`calls_intrinsic_iff`). On the local stack, contexts of scopes that are the same do the
same (`creates_endAlike`, `calls_endAlike`).
-/

namespace GenC

open Lib

variable {σ : Type}

/-- The intrinsic of a handler whose static parameter is a structure. -/
def ControlFlowHandler.intrinsic (handler : ControlFlowHandler) (m : Meta) (es : List Value) : Intrinsic :=
  ⟨handler.uri, some (.struct m es)⟩

@[simp] theorem ControlFlowHandler.intrinsic_elements (handler : ControlFlowHandler) (m : Meta)
    (es : List Value) : (handler.intrinsic m es).parameter.elements = es := rfl

/-- The function that such an intrinsic evaluates to. -/
def ControlFlowHandler.function (handler : ControlFlowHandler) (m : Meta) (es : List Value)
    (scope : Scope) : ExecutorValue :=
  .intrinsic (handler.intrinsic m es) ⟨handler.uri, .controlFlow handler⟩ scope

namespace ControlFlowExecutor

variable [ProtoText] (exec : ControlFlowExecutor σ) (scope : Scope)

/-- The contexts of the intrinsics that were created in a scope. -/
def contexts : Nat → Context σ ExecutorValue := fun n => exec.context (exec.knot n) scope

/-- A call of the handler, with what it asked the executor for. -/
def recordedCall (handler : ControlFlowHandler) (intr : Intrinsic) (arg : Option ExecutorValue) :
    Nat → Exec (σ × List (Operation ExecutorValue)) ExecutorValue :=
  fun n => handler.executeCall (exec.contexts scope n).recording n intr arg

theorem contexts_growing : Context.Growing (exec.contexts scope) :=
  fun _ _ hnm => exec.context_le (exec.knot_le hnm) scope

theorem evaluate_growing {exec : ControlFlowExecutor σ} (v : Value) (scope : Scope) :
    Run.Growing fun n => exec.evaluate n v scope :=
  fun _ _ hnm => exec.evaluate_le hnm v scope

theorem constCreateCall_growing {exec : ControlFlowExecutor σ} (f : ExecutorValue)
    (a : Option ExecutorValue) : Run.Growing fun n => exec.constCreateCall n f a :=
  fun _ _ hnm => exec.constCreateCall_le hnm f a

/-- A call evaluates the function, then the argument. -/
theorem evaluateCall_endSame {exec : ControlFlowExecutor σ} (m : Meta) (fn arg : Value) (scope : Scope)
    (s : σ) : Run.EndSame (fun n => exec.evaluate n (.call m fn (some arg)) scope) s
      (fun n => exec.evaluate n fn scope >>= fun f => exec.evaluate n arg scope >>= fun a =>
        exec.constCreateCall n f (some a)) s :=
  .of_succ (evaluate_growing _ scope) (.refl _ s)

/-! ### Calls of an intrinsic -/

variable {exec scope} {handler : ControlFlowHandler} {intr : Intrinsic} {uri : String}
  {arg : Option ExecutorValue} {scope' : Scope} {s s' : σ} {v : ExecutorValue} {e : Status}

/-- A function is the same to all contexts. -/
theorem finally_call_iff :
    Run.Finally (fun n => (exec.contexts scope' n).createCall
      (.intrinsic intr ⟨uri, .controlFlow handler⟩ scope) arg) s v s' ↔
      Run.Finally (fun n => handler.executeCall (exec.contexts scope n) n intr arg) s v s' := by
  have hcall : ∀ n, Run.Returns ((exec.contexts scope' (n + 1)).createCall
      (.intrinsic intr ⟨uri, .controlFlow handler⟩ scope) arg) s v s' ↔
        Run.Returns (handler.executeCall (exec.contexts scope n) n intr arg) s v s' :=
    fun n => (Run.Returns.ofExcept rfl s).bind_iff.trans (Run.Returns.tell _ s).bind_iff
  constructor
  · rintro ⟨_ | n, h⟩
    · obtain ⟨_, hl⟩ := h
      cases hl
    · exact ⟨n, (hcall n).mp h⟩
  · rintro ⟨n, h⟩
    exact ⟨n + 1, (hcall n).mpr h⟩

theorem finallyFails_call_iff :
    Run.FinallyFails (fun n => (exec.contexts scope' n).createCall
      (.intrinsic intr ⟨uri, .controlFlow handler⟩ scope) arg) s e s' ↔
      Run.FinallyFails (fun n => handler.executeCall (exec.contexts scope n) n intr arg) s e s' := by
  have hcall : ∀ n, ((exec.contexts scope' (n + 1)).createCall
      (.intrinsic intr ⟨uri, .controlFlow handler⟩ scope) arg s).2 =
        (handler.executeCall (exec.contexts scope n) n intr arg s).2 :=
    fun n => (Run.Returns.ofExcept rfl s).bind_end.trans (Run.Returns.tell _ s).bind_end
  constructor
  · rintro ⟨_ | n, h⟩
    · obtain ⟨_, hl⟩ := h
      cases hl
    · exact ⟨n, h.of_end (hcall n).symm⟩
  · rintro ⟨n, h⟩
    exact ⟨n + 1, h.of_end (hcall n)⟩

/-- So calling it and running its handler end the same. -/
theorem call_endSame (handler : ControlFlowHandler) (intr : Intrinsic) (arg : Option ExecutorValue)
    (scope' : Scope) (s : σ) : Run.EndSame (fun n => (exec.contexts scope' n).createCall
      (.intrinsic intr ⟨uri, .controlFlow handler⟩ scope) arg) s
      (fun n => handler.executeCall (exec.contexts scope n) n intr arg) s :=
  .of_iff (.refl _ s) finally_call_iff finallyFails_call_iff

/-- **A call returns what its record tells of.** -/
theorem calls_intrinsic_iff :
    Context.Calls (exec.contexts scope') (.intrinsic intr ⟨uri, .controlFlow handler⟩ scope) arg s v s' ↔
      ∃ record, Run.Finally (exec.recordedCall scope handler intr arg) (s, []) v (s', record) := by
  refine finally_call_iff.trans ?_
  constructor
  · rintro ⟨n, h⟩
    obtain ⟨record, h⟩ := (ControlFlowHandler.returns_recording_iff []).mp h
    exact ⟨record, n, h⟩
  · rintro ⟨record, n, h⟩
    exact ⟨n, (ControlFlowHandler.returns_recording_iff []).mpr ⟨record, h⟩⟩

theorem callFails_intrinsic_iff :
    Context.CallFails (exec.contexts scope') (.intrinsic intr ⟨uri, .controlFlow handler⟩ scope) arg s e
        s' ↔
      ∃ record, Run.FinallyFails (exec.recordedCall scope handler intr arg) (s, []) e (s', record) := by
  refine finallyFails_call_iff.trans ?_
  constructor
  · rintro ⟨n, h⟩
    obtain ⟨record, h⟩ := (ControlFlowHandler.fails_recording_iff []).mp h
    exact ⟨record, n, h⟩
  · rintro ⟨record, n, h⟩
    exact ⟨n, (ControlFlowHandler.fails_recording_iff []).mpr ⟨record, h⟩⟩

/-- What a context creates is evaluated in its scope, unless it is the child's. -/
theorem creates_iff {valPb : Value} (hval : hasComputation valPb = true) :
    Context.Creates (exec.contexts scope) valPb s v s' ↔ exec.Evaluates valPb scope s v s' := by
  have hcreate : ∀ n, (exec.contexts scope n).createValue valPb = exec.evaluate n valPb scope := by
    intro n
    show (if hasComputation valPb then _ else _) = _
    rw [if_pos hval]
    rfl
  unfold Context.Creates
  simp only [hcreate]
  exact Iff.rfl

theorem calls_iff {f a : ExecutorValue} :
    Context.Calls (exec.contexts scope) f (some a) s v s' ↔ exec.Calls f a s v s' := Iff.rfl

end ControlFlowExecutor

/-! ## The local stack -/

section

variable [ProtoText] (handlers : IntrinsicHandlerSet) {s s' t t' : InlineState} {scope scope' : Scope}

/-- What was made from `s` and from `t` on is the same. -/
def SameSince (s t : InlineState) (v : ExecutorValue) (s' : InlineState) (v' : ExecutorValue)
    (t' : InlineState) : Prop :=
  s ≤ s' ∧ t ≤ t' ∧ v.Same s' t' v'

/-- Two values that materialize to the same. -/
def MaterializeAlike (v : ExecutorValue) (s : InlineState) (v' : ExecutorValue) (t : InlineState) : Prop :=
  ∀ (output : Option Value) (m : MaterializeResult),
    (∃ u, Run.Returns ((localExecutor handlers).constMaterialize v output) s m u) ↔
      ∃ u, Run.Returns ((localExecutor handlers).constMaterialize v' output) t m u

/-- What has the same contents, does. -/
theorem materializeAlike_of_contents {v v' : ExecutorValue} (h : v.Alive s) (h' : v'.Alive t)
    (hcontents : v.contents s = v'.contents t) : MaterializeAlike handlers v s v' t := by
  intro output m
  obtain ⟨m₁, s₁, -, hx, hm₁⟩ := constMaterialize_spec handlers h output
  obtain ⟨m₂, t₁, -, hy, hm₂⟩ := constMaterialize_spec handlers h' output
  have hm : m₁ = m₂ := by
    rw [← hcontents] at hm₂
    rcases hr : v.contents s with _ | r <;> simp only [hr] at hm₁ hm₂ <;> exact hm₁.trans hm₂.symm
  constructor
  · rintro ⟨u, hu⟩
    obtain ⟨rfl, rfl⟩ := hx.unique hu
    exact ⟨t₁, hm ▸ hy⟩
  · rintro ⟨u, hu⟩
    obtain ⟨rfl, rfl⟩ := hy.unique hu
    exact ⟨s₁, hm ▸ hx⟩

theorem ExecutorValue.Same.materializeAlike {v v' : ExecutorValue} (h : v.Same s t v') :
    MaterializeAlike handlers v s v' t :=
  materializeAlike_of_contents handlers h.alive h.symm.alive h.contents

namespace ControlFlowExecutor

theorem contexts_related {w : InlineState × InlineState} (h : scope.Same w.1 w.2 scope') (n : Nat) :
    ((localExecutor handlers).contexts scope n).Related Purity.relator True (fun _ => True) Purity.Same w
      ((localExecutor handlers).contexts scope' n) :=
  context_pure handlers (knot_pure handlers n) h

omit [ProtoText] in
/-- Related runs end alike. -/
theorem endAlike_of_simulates {x y : Nat → Exec InlineState ExecutorValue}
    (h : ∀ n, Purity.Simulates (s, t) Purity.Same (x n) (y n)) :
    Run.EndAlike (SameSince s t) x s y t := by
  refine (Run.EndAlike.of_simulates h rfl).mono ?_
  rintro a s' b t' ⟨_, hle, rfl, hab⟩
  exact ⟨hle.1, hle.2, hab⟩

theorem creates_endAlike (h : scope.Same s t scope') (v : Value) : Run.EndAlike (SameSince s t)
    (fun n => ((localExecutor handlers).contexts scope n).createValue v) s
    (fun n => ((localExecutor handlers).contexts scope' n).createValue v) t :=
  endAlike_of_simulates fun n =>
    (contexts_related handlers (w := (s, t)) h n).createValue (le_refl _) trivial

theorem calls_endAlike {f f' a a' : ExecutorValue} (hf : f.Same s t f') (ha : a.Same s t a')
    (scope scope' : Scope) : Run.EndAlike (SameSince s t)
    (fun n => ((localExecutor handlers).contexts scope n).createCall f (some a)) s
    (fun n => ((localExecutor handlers).contexts scope' n).createCall f' (some a')) t :=
  endAlike_of_simulates fun n => (knot_pure handlers n).createCall hf (.some ha)

/-! ### What stays -/

/-- What is created or called, from `s` on, leaves `s` as it was. -/
theorem contexts_yields (h : scope.Alive s) (n : Nat) :
    ((localExecutor handlers).contexts scope n).Yields Crash.Any (fun v s => v.Alive s) s :=
  context_yields handlers (knot_yields handlers n) h

theorem creates_le {v : Value} {r : ExecutorValue} (h : scope.Alive s)
    (hcreate : Context.Creates ((localExecutor handlers).contexts scope) v s r s') :
    s ≤ s' ∧ r.Alive s' := by
  obtain ⟨n, hcreate⟩ := hcreate
  exact ((contexts_yields handlers h n).createValue v).of_returns (le_refl s) hcreate

theorem createFails_le {v : Value} {e : Status} (h : scope.Alive s)
    (hcreate : Context.CreateFails ((localExecutor handlers).contexts scope) v s e s') : s ≤ s' := by
  obtain ⟨n, hcreate⟩ := hcreate
  exact ((contexts_yields handlers h n).createValue v).of_fails (le_refl s) hcreate

theorem calls_le {f r : ExecutorValue} {a : Option ExecutorValue} (hf : f.Alive s)
    (ha : ∀ v ∈ a, ExecutorValue.Alive s v)
    (hcall : Context.Calls ((localExecutor handlers).contexts scope) f a s r s') :
    s ≤ s' ∧ r.Alive s' := by
  obtain ⟨n, hcall⟩ := hcall
  exact ((knot_yields handlers n).createCall hf ha).of_returns (le_refl s) hcall

theorem callFails_le {f : ExecutorValue} {a : Option ExecutorValue} {e : Status} (hf : f.Alive s)
    (ha : ∀ v ∈ a, ExecutorValue.Alive s v)
    (hcall : Context.CallFails ((localExecutor handlers).contexts scope) f a s e s') : s ≤ s' := by
  obtain ⟨n, hcall⟩ := hcall
  exact ((knot_yields handlers n).createCall hf ha).of_fails (le_refl s) hcall

/-- What a value shows are its contents. -/
theorem materializeValue_spec (scope : Scope) {v : ExecutorValue} (h : v.Alive s) : ∃ s', s ≤ s' ∧
    match v.contents s with
    | some (.ok w) => Context.Shows ((localExecutor handlers).contexts scope) v s w s'
    | some (.error e) => Context.ShowFails ((localExecutor handlers).contexts scope) v s e s'
    | none => Context.ShowFails ((localExecutor handlers).contexts scope) v s unembeddable s' := by
  obtain ⟨m, s', hs', hreturns, hm⟩ := constMaterialize_spec handlers h (some Value.defaultInstance)
  refine ⟨s', hs', ?_⟩
  rcases hr : v.contents s with _ | e | w <;> simp only [hr] at hm <;> subst hm
  · exact ⟨0, .bind hreturns (.throw _ s')⟩
  · exact ⟨0, .bind hreturns (.throw e s')⟩
  · exact ⟨0, hreturns.bind (.pure w s')⟩

theorem shows_iff (scope : Scope) {v : ExecutorValue} {pb : Value} (h : v.Alive s) :
    (∃ s', Context.Shows ((localExecutor handlers).contexts scope) v s pb s') ↔
      v.contents s = some (.ok pb) := by
  have hgrowing := (localExecutor handlers).contexts_growing scope
  obtain ⟨s', -, hend⟩ := materializeValue_spec handlers scope h
  constructor
  · rintro ⟨u, hshow⟩
    rcases hr : v.contents s with _ | e | w <;> simp only [hr] at hend
    · exact ((hgrowing.materializeValue v).not_both hshow hend).elim
    · exact ((hgrowing.materializeValue v).not_both hshow hend).elim
    · rw [((hgrowing.materializeValue v).unique hshow hend).1]
  · intro hr
    simp only [hr] at hend
    exact ⟨s', hend⟩

theorem shows_le {v : ExecutorValue} {pb : Value} (h : v.Alive s)
    (hshow : Context.Shows ((localExecutor handlers).contexts scope) v s pb s') : s ≤ s' := by
  have hgrowing := (localExecutor handlers).contexts_growing scope
  obtain ⟨u, hu, hend⟩ := materializeValue_spec handlers scope h
  simp only [(shows_iff handlers scope h).mp ⟨s', hshow⟩] at hend
  exact ((hgrowing.materializeValue v).unique hend hshow).2 ▸ hu

end ControlFlowExecutor

end

end GenC
