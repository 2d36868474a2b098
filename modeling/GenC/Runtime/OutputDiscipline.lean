import GenC.Runtime.ControlFlowExecutor
import GenC.Runtime.RemoteExecutor

/-!
# The output of `Materialize`

`Materialize` takes a pointer that may be null (`runtime/executor.h`). `KeepsOutput` is what a caller may
expect of it: with a null output the same status, and after an error the output as it was.

The inline executor keeps to that on every handle. The remote executor does not on any handle whose
value the server holds: it writes through the pointer before it looks at the status. A control-flow
executor does whatever its child does on the handle that the value is embedded as
(**`materialize_keepsOutput_iff`**).
-/

namespace GenC

open Lib

/-- A control-flow executor over an executor of any kind. -/
def ControlFlowExecutor.over {σ V : Type} (handlers : IntrinsicHandlerSet) (impl : ExecutorImpl σ V) :
    ControlFlowExecutor (BaseState (HandleTable V) σ) :=
  ⟨handlers, executorBase impl⟩

/-- With a null output the status is that with any other, and an error leaves the output alone. -/
structure KeepsOutput {σ : Type} (x : Option Value → Exec σ MaterializeResult) (s : σ) : Prop where
  null : ∀ pb r s', Run.Returns (x (some pb)) s r s' →
    ∃ s'', Run.Returns (x none) s ⟨r.status, none⟩ s''
  failed : ∀ pb e output s', Run.Returns (x (some pb)) s ⟨.error e, output⟩ s' → output = some pb

namespace KeepsOutput

variable {σ τ : Type} {x : Option Value → Exec σ MaterializeResult} {s : σ}

/-- Fail, and leave the output alone. -/
theorem error (e : Status) (s : σ) : KeepsOutput (fun output => pure ⟨.error e, output⟩) s where
  null pb r s' h := by
    obtain ⟨rfl, rfl⟩ := h.unique (.pure _ _)
    exact ⟨_, .pure _ _⟩
  failed pb e' output s' h := by
    obtain ⟨hr, -⟩ := h.unique (.pure _ _)
    exact (MaterializeResult.mk.inj hr).2

/-- What does not return with an output breaks no promise. -/
theorem of_not_returns (h : ∀ pb r s', ¬Run.Returns (x (some pb)) s r s') : KeepsOutput x s :=
  ⟨fun pb r s' hx => (h pb r s' hx).elim, fun pb _ _ s' hx => (h pb _ s' hx).elim⟩

/-- What comes first, whatever the output is, does not matter. -/
theorem bind_iff {y : Exec σ α} {f : Option Value → α → Exec σ MaterializeResult} {s₁ : σ} {a : α}
    (hy : Run.Returns y s a s₁) :
    KeepsOutput (fun output => y >>= f output) s ↔ KeepsOutput (fun output => f output a) s₁ := by
  constructor
  · intro h
    refine ⟨fun pb r s' hx => ?_, fun pb e output s' hx => h.failed pb e output s' (hy.bind hx)⟩
    obtain ⟨s'', hnull⟩ := h.null pb r s' (hy.bind hx)
    exact ⟨s'', hy.bind_iff.mp hnull⟩
  · intro h
    refine ⟨fun pb r s' hx => ?_, fun pb e output s' hx =>
      h.failed pb e output s' (hy.bind_iff.mp hx)⟩
    obtain ⟨s'', hnull⟩ := h.null pb r s' (hy.bind_iff.mp hx)
    exact ⟨s'', hy.bind hnull⟩

theorem zoom_iff {get : τ → σ} {set : σ → τ → τ} {t : τ} :
    KeepsOutput (fun output => (x output).zoom get set) t ↔ KeepsOutput x (get t) := by
  constructor
  · intro h
    refine ⟨fun pb r s' hx => ?_, fun pb e output s' hx => h.failed pb e output _ hx.zoom⟩
    obtain ⟨t', hnull⟩ := h.null pb r _ hx.zoom
    obtain ⟨s'', hnull, -⟩ := hnull.of_zoom
    exact ⟨s'', hnull⟩
  · intro h
    refine ⟨fun pb r t' hx => ?_, fun pb e output t' hx => ?_⟩
    · obtain ⟨s', hx, -⟩ := hx.of_zoom
      obtain ⟨s'', hnull⟩ := h.null pb r s' hx
      exact ⟨_, hnull.zoom⟩
    · obtain ⟨s', hx, -⟩ := hx.of_zoom
      exact h.failed pb e output s' hx

/-- Releasing temporaries afterwards does not matter, where that comes to an end. -/
theorem releasing_iff {V : Type} {impl : ExecutorImpl σ V}
    {x : Option Value → Exec (BaseState (HandleTable V) σ) MaterializeResult} {ids : List ValueId}
    {s : BaseState (HandleTable V) σ} :
    KeepsOutput (fun output => (executorBase impl).releasing ids (x output)) s ↔ KeepsOutput x s := by
  -- letting go of the temporary handles changes neither the result nor the output
  have hreleasing : ∀ {output r s'}, Run.Returns (x output) s r s' →
      ∃ s'', Run.Returns ((executorBase impl).releasing ids (x output)) s r s'' := fun hx => by
    obtain ⟨s'', h, -⟩ := Executor.releasing_returns impl ids hx
    exact ⟨s'', h⟩
  constructor
  · intro h
    refine ⟨fun pb r s' hx => ?_, fun pb e output s' hx => ?_⟩
    · obtain ⟨t, hx⟩ := hreleasing hx
      obtain ⟨t', hnull⟩ := h.null pb r t hx
      exact Executor.of_releasing hnull
    · obtain ⟨t, hx⟩ := hreleasing hx
      exact h.failed pb e output t hx
  · intro h
    refine ⟨fun pb r t hx => ?_, fun pb e output t hx => ?_⟩
    · obtain ⟨s', hx⟩ := Executor.of_releasing hx
      obtain ⟨t', hnull⟩ := h.null pb r s' hx
      exact hreleasing hnull
    · obtain ⟨s', hx⟩ := Executor.of_releasing hx
      exact h.failed pb e output s' hx

/-! ## The executors -/

/-- A handle keeps to it if the value does. -/
theorem executorBase_iff {V : Type} (impl : ExecutorImpl σ V) (id : ValueId)
    (s : BaseState (HandleTable V) σ) :
    KeepsOutput ((executorBase impl).materialize id) s ↔
      ∀ v, s.table.trackedValues id = some v → KeepsOutput (impl.materialize v) s.impl := by
  show KeepsOutput (ExecutorBase.materialize impl id) s ↔ _
  cases hid : s.table.trackedValues id with
  | none =>
      have h := (ExecutorBase.getTracked_fails impl.executorName hid).attempt
      refine (bind_iff h).trans (iff_of_true (.error _ s) ?_)
      rintro v ⟨⟩
  | some v =>
      have h : Run.Returns (ExecutorBase.getTracked impl.executorName id : Exec (BaseState (HandleTable V) σ) V)
          s v s := ExecutorBase.getTracked_returns hid
      refine ((bind_iff h.attempt).trans zoom_iff).trans ?_
      exact ⟨by rintro h _ ⟨⟩; exact h, fun h => h v rfl⟩

theorem inlineExecutor [ProtoText] (handlers : IntrinsicHandlerSet) (id : ValueId) (s : InlineState) :
    KeepsOutput ((inlineExecutor handlers).materialize id) s := by
  refine (executorBase_iff _ id s).mpr fun v _ => ?_
  cases v with
  | error e => exact .error e _
  | ok v =>
      refine ⟨fun pb r s' h => ?_, fun pb e output s' h => ?_⟩
      · obtain ⟨rfl, rfl⟩ := h.unique (.pure _ _)
        exact ⟨_, .pure _ _⟩
      · obtain ⟨hr, -⟩ := h.unique (.pure _ _)
        cases (MaterializeResult.mk.inj hr).1

/-- A value keeps to it if it cannot be embedded, or if the child's handle keeps to it. -/
theorem constMaterialize_iff {V : Type} (handlers : IntrinsicHandlerSet) (impl : ExecutorImpl σ V)
    (value : ExecutorValue) (s : BaseState (HandleTable V) σ) :
    KeepsOutput ((ControlFlowExecutor.over handlers impl).constMaterialize value) s ↔
      ∀ child slot s₁,
        Run.Returns ((ControlFlowExecutor.over handlers impl).embed value) s (child, slot) s₁ →
          KeepsOutput ((executorBase impl).materialize child) s₁ := by
  let exec := ControlFlowExecutor.over handlers impl
  show KeepsOutput (fun output => (exec.embed value).attempt >>= _) s ↔ _
  -- Embedding does not look at the output. Where it fails, so does materializing, with and without one.
  rcases hembed : exec.embed value s with ⟨l, ids | e | k | _⟩
  case ok s₁ =>
    obtain ⟨child, slot⟩ := ids
    have h : Run.Returns (exec.embed value) s (child, slot) s₁ := ⟨l, hembed⟩
    refine ((bind_iff h.attempt).trans releasing_iff).trans ⟨fun hkeeps => ?_, fun hall => hall _ _ _ h⟩
    intro child' slot' s₁' h'
    obtain ⟨heq, rfl⟩ := h.unique h'
    cases heq
    exact hkeeps
  case error s₁ =>
    have h : Run.Fails (exec.embed value) s e s₁ := ⟨l, hembed⟩
    refine (bind_iff h.attempt).trans (iff_of_true (.error e s₁) ?_)
    rintro child slot s₂ ⟨l', h'⟩
    rw [hembed] at h'
    cases h'
  all_goals
    refine iff_of_true (of_not_returns fun pb r s' h => ?_) ?_
    · obtain ⟨r', s₁, ⟨l', h'⟩, -⟩ := Run.Returns.of_bind h
      rw [Run.attempt, hembed] at h'
      cases h'
    · rintro child slot s₁ ⟨l', h'⟩
      rw [hembed] at h'
      cases h'

/-- A remote value keeps to it as long as no RPC is answered. -/
theorem received_iff {w : Exec σ ValueRef} {rpc : ValueRef → Exec σ (GrpcReply MaterializeResponse)} :
    KeepsOutput (fun output => do
      match ← w.attempt with
      | .error e => pure ⟨.error e, output⟩
      | .ok ref => do
          let reply ← rpc ref
          match output with
          | none => Run.crash .nullOutput
          | some _ => pure ⟨grpcToAbslStatus reply.status,
              some (reply.response.value.getD Value.defaultInstance)⟩) s ↔
      ∀ ref s₁ reply s₂, Run.Returns w s ref s₁ → ¬Run.Returns (rpc ref) s₁ reply s₂ := by
  constructor
  · intro h ref s₁ reply s₂ hw hrpc
    -- with an output the call returns, and with a null one the process dies
    obtain ⟨s', hnull⟩ := h.null .defaultInstance _ _ (hw.attempt.bind (hrpc.bind (.pure _ _)))
    obtain ⟨l, hcrash⟩ := hrpc.bind_iff.mp (hw.attempt.bind_iff.mp hnull)
    cases hcrash
  · intro h
    rcases hw : w s with ⟨l, ref | e | k | _⟩
    case error s₁ => exact (bind_iff (Run.Fails.attempt ⟨l, hw⟩)).mpr (.error e s₁)
    case ok s₁ =>
      refine of_not_returns fun pb r s' hr => ?_
      have hw : Run.Returns w s ref s₁ := ⟨l, hw⟩
      obtain ⟨reply, s₂, hrpc, -⟩ := (hw.attempt.bind_iff.mp hr).of_bind
      exact h ref s₁ reply s₂ hw hrpc
    all_goals
      refine of_not_returns fun pb r s' hr => ?_
      obtain ⟨r', s₁, ⟨l', h'⟩, -⟩ := Run.Returns.of_bind hr
      rw [Run.attempt, hw] at h'
      cases h'

/-! ### Remote executors -/

theorem remoteExecutor_iff {ω : Type} (stub : ExecutorServiceInterface ω) (id : ValueId)
    (s : BaseState (HandleTable Nat) (FuturePool ω ValueRef)) :
    KeepsOutput ((executorBase (RemoteExecutor.impl stub)).materialize id) s ↔
      ∀ future ref reply shared, s.table.trackedValues id = some future →
        s.impl.future future = some (.ok ref) →
        ¬Run.Returns (stub.materialize { valueRef := some ref }) s.impl.shared reply shared := by
  -- waiting returns the reference that the future holds, and changes nothing
  have hwait : ∀ {future ref pool}, Run.Returns (FuturePool.wait future) s.impl ref pool →
      s.impl.future future = some (.ok ref) ∧ pool = s.impl := by
    rintro future ref pool ⟨l, h⟩
    rw [FuturePool.wait] at h
    rcases hfuture : s.impl.future future with _ | e | ref' <;> rw [hfuture] at h <;> cases h
    exact ⟨rfl, rfl⟩
  refine (executorBase_iff _ id s).trans ?_
  constructor
  · intro h future ref reply shared hid hfuture hrpc
    have hw : Run.Returns (FuturePool.wait future) s.impl ref s.impl :=
      ⟨[], by rw [FuturePool.wait, hfuture]⟩
    exact received_iff.mp (h future hid) ref _ reply _ hw hrpc.zoom
  · intro h future hid
    refine received_iff.mpr fun ref pool reply pool' hw hrpc => ?_
    obtain ⟨hfuture, rfl⟩ := hwait hw
    obtain ⟨shared, hrpc, -⟩ := hrpc.of_zoom
    exact h future ref reply shared hid hfuture hrpc

/-- The same where the future was replaced by what it ends with. -/
theorem remoteExecutor_inTurn_iff (stub : ExecutorServiceInterface σ) (id : ValueId)
    (s : BaseState (HandleTable (StatusOr ValueRef)) σ) :
    KeepsOutput ((executorBase (RemoteExecutor.InTurn.impl stub)).materialize id) s ↔
      ∀ ref reply s', s.table.trackedValues id = some (.ok ref) →
        ¬Run.Returns (stub.materialize { valueRef := some ref }) s.impl reply s' := by
  refine (executorBase_iff _ id s).trans ?_
  constructor
  · intro h ref reply s' hid hrpc
    exact received_iff.mp (h _ hid) ref _ reply s' (.ofExcept rfl _) hrpc
  · intro h value hid
    refine received_iff.mpr fun ref s₁ reply s₂ hw hrpc => ?_
    -- an error instead of a reference is returned before anything is sent
    cases value with
    | ok ref' =>
        obtain ⟨rfl, rfl⟩ := hw.unique (.ofExcept rfl _)
        exact h _ reply s₂ hid hrpc
    | error e =>
        obtain ⟨l, hw⟩ := hw
        cases hw

theorem controlFlowExecutor_iff {V : Type} [ProtoText] (handlers : IntrinsicHandlerSet)
    (impl : ExecutorImpl σ V) (fuel : Nat) (id : ValueId)
    (s : ControlFlowState (BaseState (HandleTable V) σ)) :
    KeepsOutput ((controlFlowExecutor (.over handlers impl) fuel).materialize id) s ↔
      ∀ value child slot s₁, s.table.trackedValues id = some value →
        Run.Returns ((ControlFlowExecutor.over handlers impl).embed value) s.impl (child, slot) s₁ →
          KeepsOutput ((executorBase impl).materialize child) s₁ := by
  refine (executorBase_iff ((ControlFlowExecutor.over handlers impl).impl fuel) id s).trans
    ⟨fun h => ?_, fun h => ?_⟩
  · intro value child slot s₁ hid
    exact (constMaterialize_iff handlers impl value s.impl).mp (h value hid) child slot s₁
  · intro value hid
    exact (constMaterialize_iff handlers impl value s.impl).mpr fun child slot s₁ =>
      h value child slot s₁ hid

end KeepsOutput

/-! ## Fallback -/

section Fallback

variable {σ V : Type} (ctx : Context σ V) (arg : Option V)

/-- What trying the candidates one after the other gives, if a candidate is tested by materializing its
result into an output. -/
inductive Picks : Status → List Value → σ → StatusOr V → Prop where
  | none {e s} : Picks e [] s (.error e)
  | createValue {e₀ fn fns s e s₁ r} : Run.Fails (ctx.createValue fn) s e s₁ → Picks e fns s₁ r →
      Picks e₀ (fn :: fns) s r
  | createCall {e₀ fn fns s f s₁ e s₂ r} : Run.Returns (ctx.createValue fn) s f s₁ →
      Run.Fails (ctx.createCall f arg) s₁ e s₂ → Picks e fns s₂ r → Picks e₀ (fn :: fns) s r
  | failed {e₀ fn fns s f s₁ v s₂ pb output e s₃ r} : Run.Returns (ctx.createValue fn) s f s₁ →
      Run.Returns (ctx.createCall f arg) s₁ v s₂ →
      Run.Returns (ctx.materialize v (some pb)) s₂ ⟨.error e, output⟩ s₃ →
      (∀ s₄, Run.Returns (ctx.materialize v .none) s₂ ⟨.error e, .none⟩ s₄ → Picks e fns s₄ r) →
      Picks e₀ (fn :: fns) s r
  | picked {e₀ fn fns s f s₁ v s₂ pb output s₃} : Run.Returns (ctx.createValue fn) s f s₁ →
      Run.Returns (ctx.createCall f arg) s₁ v s₂ →
      Run.Returns (ctx.materialize v (some pb)) s₂ ⟨.ok (), output⟩ s₃ →
      Picks e₀ (fn :: fns) s (.ok v)

variable {ctx arg}

/-- Over an executor that keeps to the output discipline, the test with a null output is as good. -/
theorem fallbackLoop_picks (hkeeps : ∀ v s, KeepsOutput (ctx.materialize v) s) {e : Status}
    {fns : List Value} {s : σ} {r : StatusOr V} (h : Picks ctx arg e fns s r) :
    ∃ s', Run.Returns (ControlFlowHandler.fallbackLoop ctx arg e fns).attempt s r s' := by
  induction h with
  | @none e s => exact ⟨s, (Run.Fails.throw e s).attempt⟩
  | createValue hfn _ ih =>
      obtain ⟨s', ih⟩ := ih
      exact ⟨s', hfn.attempt.bind_attempt ih⟩
  | createCall hfn hcall _ ih =>
      obtain ⟨s', ih⟩ := ih
      exact ⟨s', hfn.attempt.bind_attempt (hcall.attempt.bind_attempt ih)⟩
  -- the loop materializes into null, where the same status has to come out
  | failed hfn hcall hfails _ ih =>
      obtain ⟨s₄, hnull⟩ := (hkeeps _ _).null _ _ _ hfails
      obtain ⟨s', ih⟩ := ih s₄ hnull
      exact ⟨s', hfn.attempt.bind_attempt (hcall.attempt.bind_attempt (hnull.bind_attempt ih))⟩
  | picked hfn hcall hok =>
      obtain ⟨s₄, hnull⟩ := (hkeeps _ _).null _ _ _ hok
      exact ⟨s₄, hfn.attempt.bind_attempt (hcall.attempt.bind_attempt
        (hnull.bind_attempt (Run.Returns.pure _ _).attempt))⟩

end Fallback

/-- **The output of `Materialize`.** The inline executor keeps to the discipline on every handle; the
remote executor just on those for which no RPC is answered, because the handle is unknown or its value
failed; and a control-flow executor just where its child does on the handle that the value is embedded
as. `Fallback` can test its candidates with a null output over every child that keeps to it. -/
theorem materialize_keepsOutput_iff [ProtoText] :
    (∀ handlers id s, KeepsOutput ((inlineExecutor handlers).materialize id) s) ∧
    (∀ {σ : Type} stub id (s : BaseState (HandleTable Nat) (FuturePool σ ValueRef)),
      KeepsOutput ((executorBase (RemoteExecutor.impl stub)).materialize id) s ↔
        ∀ future ref reply shared, s.table.trackedValues id = some future →
          s.impl.future future = some (.ok ref) →
          ¬Run.Returns (stub.materialize { valueRef := some ref }) s.impl.shared reply shared) ∧
    (∀ {σ : Type} stub id (s : BaseState (HandleTable (StatusOr ValueRef)) σ),
      KeepsOutput ((executorBase (RemoteExecutor.InTurn.impl stub)).materialize id) s ↔
        ∀ ref reply s', s.table.trackedValues id = some (.ok ref) →
          ¬Run.Returns (stub.materialize { valueRef := some ref }) s.impl reply s') ∧
    (∀ {σ V : Type} handlers (impl : ExecutorImpl σ V) fuel id
        (s : ControlFlowState (BaseState (HandleTable V) σ)),
      KeepsOutput ((controlFlowExecutor (.over handlers impl) fuel).materialize id) s ↔
        ∀ value child slot s₁, s.table.trackedValues id = some value →
          Run.Returns ((ControlFlowExecutor.over handlers impl).embed value) s.impl (child, slot) s₁ →
            KeepsOutput ((executorBase impl).materialize child) s₁) ∧
    (∀ {σ V : Type} handlers (impl : ExecutorImpl σ V),
      (∀ child (s : BaseState (HandleTable V) σ),
        KeepsOutput ((executorBase impl).materialize child) s) →
      ∀ knot scope arg e fns s r,
        Picks ((ControlFlowExecutor.over handlers impl).context knot scope) arg e fns s r →
        ∃ s', Run.Returns (ControlFlowHandler.fallbackLoop
          ((ControlFlowExecutor.over handlers impl).context knot scope) arg e fns).attempt s r s') := by
  refine ⟨KeepsOutput.inlineExecutor, fun stub id s => KeepsOutput.remoteExecutor_iff stub id s,
    fun stub id s => KeepsOutput.remoteExecutor_inTurn_iff stub id s,
    fun handlers impl fuel id s => KeepsOutput.controlFlowExecutor_iff handlers impl fuel id s, ?_⟩
  intro σ V handlers impl hchild knot scope arg e fns s r h
  refine fallbackLoop_picks (fun value s => ?_) h
  exact (KeepsOutput.constMaterialize_iff handlers impl value s).mpr fun child slot s₁ _ => hchild child s₁

/-! ### A service that replies -/

/-- A server that has one value, and answers every `Materialize` with the same status. -/
def oneValueService (status : GrpcStatus) : ExecutorServiceInterface Unit where
  createValue _ := pure ⟨.OK, ⟨some ⟨"0"⟩⟩⟩
  createCall _ := pure ⟨.OK, ⟨some ⟨"0"⟩⟩⟩
  createStruct _ := pure ⟨.OK, ⟨some ⟨"0"⟩⟩⟩
  createSelection _ := pure ⟨.OK, ⟨some ⟨"0"⟩⟩⟩
  materialize _ := pure ⟨status, ⟨if status.ok then some (.ofStr "a") else none⟩⟩
  dispose _ := pure ⟨.OK, {}⟩

/-- A remote executor whose value 0 is on the server. -/
def oneRemoteValue : BaseState (HandleTable (StatusOr ValueRef)) Unit :=
  BaseState.track ⟨.empty, ()⟩ (.ok ⟨"0"⟩)

/-- `Call(Intrinsic fallback [Lambda x. x], "a")`. -/
def fallbackToIdentity : Value :=
  .call {} (.intrinsic {} "fallback" (some (.ofStruct [.lambda {} "x" (.reference {} "x")])))
    (some (.ofStr "a"))

/-- With a null output the process dies, and so it does when `Fallback` tests a candidate; a call that
the server fails clears the output. -/
theorem remote_materialize_nullOutput :
    let _ := ProtoText.silent
    let up := RemoteExecutor.InTurn.impl (oneValueService .OK)
    let down := RemoteExecutor.InTurn.impl (oneValueService ⟨StatusCode.unavailable.toInt, "down"⟩)
    (executorBase up).materialize (0 : ValueId) none oneRemoteValue = ([], .crash .nullOutput) ∧
      (executorBase up).materialize (0 : ValueId) (some (.ofStr "b")) oneRemoteValue =
        ([], .ok ⟨.ok (), some (.ofStr "a")⟩ oneRemoteValue) ∧
      (executorBase down).materialize (0 : ValueId) (some (.ofStr "b")) oneRemoteValue =
        ([], .ok ⟨.error (.unavailable "down"), some .defaultInstance⟩ oneRemoteValue) ∧
      ((controlFlowExecutor (.over (createCompleteHandlerSet (fun _ => none) []) up) 5).createValue
        fallbackToIdentity ⟨.empty, oneRemoteValue⟩).2 = .crash .nullOutput :=
  ⟨rfl, rfl, rfl, rfl⟩

/-- The discipline over an inline executor, and off the server. -/
theorem materialize_keepsOutput_iff_oneRemoteValue : let _ := ProtoText.silent
    ¬KeepsOutput ((executorBase (RemoteExecutor.InTurn.impl (oneValueService .OK))).materialize
        (0 : ValueId)) oneRemoteValue ∧
      KeepsOutput ((executorBase (RemoteExecutor.InTurn.impl (oneValueService .OK))).materialize
        (1 : ValueId)) oneRemoteValue := by
  let _ := ProtoText.silent
  obtain ⟨-, -, hremote, -⟩ := materialize_keepsOutput_iff
  constructor
  · intro h
    exact (hremote (oneValueService .OK) 0 oneRemoteValue).mp h _ _ _ rfl (.pure _ _)
  · refine (hremote (oneValueService .OK) 1 oneRemoteValue).mpr fun ref reply s' hid => ?_
    cases hid

end GenC
