import GenC.Intrinsics.Conduct
import GenC.Runtime.Materialization

/-!
# Live handles

A value of the control-flow executor refers to its child by handles, in structures, in the scopes of
lambdas and intrinsics, and at any depth of these. In every state that a local stack can reach, all of
them are handles that the child still tracks (**`live_performAll`**): the temporaries that `Embed`
makes and releases are never part of a value.

The states of the child are ordered by `Frame`, and every function of the evaluator yields values that
are alive when it is given values that are alive. That the handlers do so in any context that does is
shown in `Intrinsics/Conduct.lean`.
-/

namespace GenC

open Lib

/-! ## The child -/

/-- A value is alive in a state that is reached, however many other runs end the process. -/
abbrev Crash.Any (_ : Crash) : Prop := True

theorem IntrinsicHandler.runCheckWellFormed_yields [ProtoText] {σ : Type} [Preorder σ] {s₀ : σ}
    (handler : IntrinsicHandler) (intr : Intrinsic) :
    Run.Yields Crash.Any s₀ (handler.runCheckWellFormed intr : Exec σ Unit) fun _ _ => True := by
  refine (Run.Yields.tell _).bind fun s₁ _ _ _ => ?_
  cases handler.checkWellFormed intr with
  | none => exact .crash trivial
  | some r => exact .ofExcept fun _ _ _ _ => trivial

instance {V σ : Type} : Preorder (BaseState (HandleTable V) σ) where
  le := BaseState.Frame
  le_refl := BaseState.Frame.refl
  le_trans _ _ _ := BaseState.Frame.trans

theorem ExecutorValue.Alive.of_le {s s' : InlineState} (hs : s ≤ s') {v : ExecutorValue}
    (h : v.Alive s) : v.Alive s' :=
  h.frame hs

/-- Every value of the scope is alive. -/
def Scope.Alive (s : InlineState) (scope : Scope) : Prop := ∀ b ∈ scope, b.2.Alive s

namespace Scope.Alive

variable {s s' : InlineState} {scope : Scope}

theorem of_le (hs : s ≤ s') (h : scope.Alive s) : scope.Alive s' := fun b hb => (h b hb).of_le hs

theorem cons (h : scope.Alive s) {name : String} {v : ExecutorValue} (hv : v.Alive s) :
    Scope.Alive s ((name, v) :: scope) :=
  List.forall_mem_cons.mpr ⟨hv, h⟩

theorem resolve {name : String} {v : ExecutorValue} : ∀ {scope : Scope}, scope.Alive s →
    scope.resolve name = .ok v → v.Alive s
  | [], _, h => by cases h
  | (bound, value) :: parent, hs, h => by
      obtain ⟨hv, hs⟩ := List.forall_mem_cons.mp hs
      unfold Scope.resolve at h
      split at h
      · cases h
        exact hv
      · exact resolve hs h

end Scope.Alive

section

variable [ProtoText] (handlers : IntrinsicHandlerSet)

/-- What a call makes in the child is tracked there under a new id. -/
theorem InlineExecutor.createCall_tracks (f : ValueId) (a : Option ValueId) (s : InlineState) :
    Run.Triple (· = s) ((inlineExecutor handlers).createCall f a)
      (fun id s' => id = s.table.nextValueId ∧ ∃ r, s' = s.track r) (fun _ s' => s' = s) := by
  have htable := ExecutorBase.createCall_table (τ := HandleTable (StatusOr Value))
    (InlineExecutor.impl handlers) (· = s.table) f a
  refine htable.conseq (fun _ h => congrArg BaseState.table h) (fun id s' h => ?_) fun _ s' h => ?_
  · obtain ⟨_, r, rfl, h⟩ := h
    obtain ⟨rfl, htracked⟩ := Prod.mk.inj h
    exact ⟨rfl, r, BaseState.ext htracked.symm rfl⟩
  · exact BaseState.ext h rfl

/-- A scope that is left is left with what it owned released, and nothing else changed. -/
theorem releasing_alive {s₀ s : InlineState} {slots : List ValueId} {x : Exec InlineState ValueId}
    (hs : s₀ ≤ s) (hslots : s₀.Since s slots)
    (hx : Run.Triple (· = s) x (fun id s' => id = s.table.nextValueId ∧ ∃ r, s' = s.track r)
      (fun _ s' => s' = s)) :
    Run.Triple (· = s) ((inlineExecutor handlers).releasing slots x)
      (fun id s' => s₀ ≤ s' ∧ (ExecutorValue.embedded id).Alive s') (fun _ s' => s₀ ≤ s') := by
  refine hx.attempt.bind fun r s₁ h => ?_
  cases r with
  | ok id =>
      obtain ⟨rfl, r, rfl⟩ := h
      obtain ⟨s₂, hrelease, hnext, hkept⟩ :=
        Executor.releaseAll_returns (InlineExecutor.impl handlers) slots (s.track r)
      have hle : s₀ ≤ s.track r := le_trans hs (.track s r)
      -- The result is younger than all temporary handles, so it is none of those that are let go.
      have hid : s.table.nextValueId ∉ slots := fun hmem =>
        absurd (hslots _ hmem).2 (Nat.lt_irrefl _)
      have halive : s₂.table.trackedValues s.table.nextValueId = some r := by
        rw [hkept _ hid]
        exact s.tracked_track r
      exact Run.Triple.of_returns
        (Q := fun id s' => s₀ ≤ s' ∧ (ExecutorValue.embedded id).Alive s')
        (hrelease.bind (.pure _ _))
        ⟨BaseState.Frame.of_released hle hslots hnext hkept, .embedded halive⟩ _ rfl
  | error e =>
      obtain rfl : s₁ = s := h
      obtain ⟨s₂, hrelease, hle⟩ := releaseAll_frame handlers hs hslots
      exact Run.Triple.of_fails (E := fun _ s' => s₀ ≤ s') (.bind hrelease (.throw e s₂)) hle _ rfl

/-! ## The evaluator -/

/-- The knot yields values that are alive. -/
structure Knot.Yields (k : Knot InlineState) : Prop where
  evaluate : ∀ v {scope s}, Scope.Alive s scope →
    Run.Yields Crash.Any s (k.evaluate v scope) fun v s => v.Alive s
  createCall : ∀ {f a s}, f.Alive s → (∀ v ∈ a, ExecutorValue.Alive s v) →
    Run.Yields Crash.Any s (k.createCall f a) fun v s => v.Alive s

namespace ControlFlowExecutor

variable {s₀ : InlineState}

theorem constMaterialize_yields {value : ExecutorValue} (hv : value.Alive s₀) (output : Option Value) :
    Run.Yields Crash.Any s₀ ((localExecutor handlers).constMaterialize value output) fun _ _ => True :=
  .of_ends fun s hs => by
    obtain ⟨m, s', hs', hreturns, -⟩ := constMaterialize_spec handlers (hv.of_le hs) output
    exact .inl ⟨m, s', hreturns, hs', trivial⟩

theorem createChildValue_yields (valuePb : Value) :
    Run.Yields Crash.Any s₀ ((localExecutor handlers).createChildValue valuePb) fun v s => v.Alive s :=
  .of_ends fun s _ => .inl ⟨_, s.track (.ok valuePb),
    (InlineExecutor.createValue_returns handlers valuePb s).bind (.pure _ _), .track s _,
    .embedded (s.tracked_track _)⟩

theorem createSelectionInternal_yields {source : ExecutorValue} (hsource : source.Alive s₀)
    (index : UInt32) :
    Run.Yields Crash.Any s₀ ((localExecutor handlers).createSelectionInternal source index)
      fun v s => v.Alive s := by
  cases hsource with
  | @embedded id r h =>
      -- the child makes a new handle for the element, also where that is an error
      refine .of_ends fun s hs => .inl ⟨_, s.track (InlineExecutor.createSelection r index), ?_,
        .track s _, .embedded (s.tracked_track _)⟩
      have hr : s.table.trackedValues id = some r := BaseState.Frame.tracked hs h
      exact (InlineExecutor.createSelection_holds handlers hr index).bind (.pure _ _)
  | @struct elements h =>
      cases hi : elements[index.toNat]? with
      | none =>
          simp only [createSelectionInternal, hi]
          exact .throw _
      | some e =>
          simp only [createSelectionInternal, hi]
          exact .pure fun s hs => (h e (List.mem_of_getElem? hi)).of_le hs
  | lambda => exact .throw _
  | intrinsic => exact .throw _

theorem callEmbedded_yields (f : ValueId) {argument : Option ExecutorValue}
    (harg : ∀ v ∈ argument, v.Alive s₀) :
    Run.Yields Crash.Any s₀ ((localExecutor handlers).callEmbedded f argument)
      fun v s => v.Alive s := by
  refine .of_triple (fun _ => trivial) fun s hs => ?_
  cases argument with
  | none =>
      have hcall : Run.Triple (· = s) ((inlineExecutor handlers).createCall f none)
          (fun id s' => s ≤ s' ∧ (ExecutorValue.embedded id).Alive s') (fun _ s' => s ≤ s') := by
        refine (InlineExecutor.createCall_tracks handlers f none s).conseq (fun _ h => h)
          (fun id s' h => ?_) fun _ s' h => ?_
        · obtain ⟨rfl, r, rfl⟩ := h
          exact ⟨.track s r, .embedded (s.tracked_track r)⟩
        · exact h ▸ le_refl s
      exact hcall.bind fun id => .pure fun _ h => h
  | some argument =>
      -- the argument may need a temporary handle, which is released whether the call fails or not
      obtain ⟨s₁, hs₁, hembed⟩ := embed_spec handlers argument ((harg argument rfl).of_le hs)
      rcases hembed with ⟨r, id, slot, -, hreturns, hslot, -⟩ | ⟨-, hfails⟩
      · refine (Run.Triple.of_returns (Q := fun a s' => a = (id, slot) ∧ s' = s₁) hreturns
          ⟨rfl, rfl⟩).bind fun a => .of_fact (fun _ h => h.1) fun ha => ?_
        rw [ha]
        have hcall := releasing_alive handlers hs₁ hslot
          (InlineExecutor.createCall_tracks handlers f (some id) s₁)
        exact (hcall.bind fun id => .pure fun _ h => h).pre fun _ h => h.2
      · exact .of_fails hfails.bind_left hs₁

variable {k : Knot InlineState} (hk : k.Yields)

theorem evaluateIntrinsic_yields (valuePb : Value) (intr : Intrinsic) {scope : Scope}
    (hscope : scope.Alive s₀) :
    Run.Yields Crash.Any s₀ ((localExecutor handlers).evaluateIntrinsic valuePb intr scope)
      fun v s => v.Alive s := by
  refine (Run.Yields.ofExcept (Q := fun _ _ => True) fun _ _ _ _ => trivial).bind
    fun s₁ h₁ handler _ => (handler.runCheckWellFormed_yields intr).bind fun s₂ h₂ _ _ => ?_
  cases handler.interface with
  | inline => exact createChildValue_yields handlers valuePb
  | controlFlow =>
      exact (handler.runCheckWellFormed_yields intr).bind fun s₃ h₃ _ _ =>
        .pure fun s hs => .intrinsic (hscope.of_le (((h₁.trans h₂).trans h₃).trans hs))

include hk

theorem constCreateExecutorValue_yields (valuePb : Value) :
    Run.Yields Crash.Any s₀ ((localExecutor handlers).constCreateExecutorValue k valuePb)
      fun v s => v.Alive s := by
  unfold constCreateExecutorValue
  split
  · exact createChildValue_yields handlers _
  · exact .throw _
  · exact hk.evaluate _ fun _ h => (nomatch h)

theorem context_yields {scope : Scope} (hscope : scope.Alive s₀) :
    ((localExecutor handlers).context k scope).Yields Crash.Any (fun v s => v.Alive s) s₀ where
  keeps hs h := h.of_le hs
  createValue v := by
    show Run.Yields _ _ (if hasComputation v then _ else _) _
    split
    · exact hk.evaluate v hscope
    · exact constCreateExecutorValue_yields handlers hk v
  createCall _ hf ha := hk.createCall hf ha
  createStruct _ hvs := .pure fun _ hs => .struct fun v hv => (hvs v hv).of_le hs
  materialize pb _ hv := constMaterialize_yields handlers hv pb

theorem constCreateCallStep_yields (fuel : Nat) {function : ExecutorValue}
    {argument : Option ExecutorValue} (hf : function.Alive s₀)
    (harg : ∀ v ∈ argument, ExecutorValue.Alive s₀ v) :
    Run.Yields Crash.Any s₀ ((localExecutor handlers).constCreateCallStep fuel k function argument)
      fun v s => v.Alive s := by
  cases hf with
  | embedded => exact callEmbedded_yields handlers _ harg
  | struct => exact .throw _
  | lambda hscope =>
      cases argument with
      | none => exact hk.evaluate _ hscope
      | some arg => exact hk.evaluate _ (Scope.Alive.cons hscope (harg arg rfl))
  | intrinsic hscope =>
      -- the scope of the intrinsic is still alive when its handler runs
      refine (Run.Yields.ofExcept (Q := fun _ _ => True) fun _ _ _ _ => trivial).bind
        fun s₁ h₁ interface _ => (Run.Yields.tell _).bind fun s₂ h₂ _ _ => ?_
      have h₀₂ := h₁.trans h₂
      exact ControlFlowHandler.executeCall_yields
        (context_yields handlers hk (Scope.Alive.of_le h₀₂ hscope)) fuel interface
        (fun v hv => (harg v hv).of_le h₀₂) trivial (.inl trivial)

/-! ### One kind of IR each -/

omit [ProtoText] in
theorem evaluateLocals_yields (names : String) : ∀ (locals : List (String × Value)) {scope : Scope}
    {s₀ : InlineState}, scope.Alive s₀ →
    Run.Yields Crash.Any s₀ (evaluateLocals k names locals scope) fun scope s => scope.Alive s
  | [], _, _, h => .pure fun _ hs => h.of_le hs
  | (_, localPb) :: locals, _, _, h => ((hk.evaluate localPb h).mapError _).bind fun _ h₁ _ hv =>
      evaluateLocals_yields names locals ((h.of_le h₁).cons hv)

omit [ProtoText] in
theorem evaluateElements_yields : ∀ (elements : List Value) {scope : Scope} {s₀ : InlineState},
    scope.Alive s₀ → Run.Yields Crash.Any s₀ (evaluateElements k elements scope)
      fun vs s => ∀ v ∈ vs, ExecutorValue.Alive s v
  | [], _, _, _ => .pure fun _ _ => List.forall_mem_nil _
  | e :: es, _, _, h => (hk.evaluate e h).bind fun _ h₁ _ hv =>
      (evaluateElements_yields es (h.of_le h₁)).bind fun _ h₂ _ hvs => .pure fun _ hs =>
        List.forall_mem_cons.mpr ⟨hv.of_le (h₂.trans hs), fun v hv => (hvs v hv).of_le hs⟩

theorem evaluateStep_yields (v : Value) {scope : Scope} (hscope : scope.Alive s₀) :
    Run.Yields Crash.Any s₀ ((localExecutor handlers).evaluateStep k v scope) fun v s => v.Alive s := by
  cases v with
  | notSet m => exact createChildValue_yields handlers _
  | scalar m s => exact createChildValue_yields handlers _
  | call m function argument =>
      refine (hk.evaluate function hscope).bind fun s₁ h₁ functionVal hf => ?_
      cases argument with
      | none => exact hk.createCall hf fun _ h => (nomatch h)
      | some argument =>
          -- the function value outlives the evaluation of the argument
          refine (hk.evaluate argument (hscope.of_le h₁)).bind fun s₂ h₂ argumentVal ha => ?_
          refine hk.createCall (hf.of_le h₂) fun v hv => ?_
          obtain rfl : argumentVal = v := Option.mem_some_iff.mp hv
          exact ha
  | lambda m parameterName result => exact .pure fun s hs => .lambda (hscope.of_le hs)
  | reference m name =>
      exact (Run.Yields.ofExcept fun v hv s hs => (hscope.resolve hv).of_le hs).mapError _
  | struct m elements =>
      exact (evaluateElements_yields hk elements hscope).bind fun _ _ vs hvs =>
        .pure fun s hs => .struct fun v hv => (hvs v hv).of_le hs
  | selection m source index =>
      exact (hk.evaluate source hscope).bind fun _ _ v hv =>
        createSelectionInternal_yields handlers hv _
  | block m locals result =>
      exact (evaluateLocals_yields hk _ locals hscope).bind fun _ _ scope hs => hk.evaluate result hs
  | intrinsic m uri staticParameter => exact evaluateIntrinsic_yields handlers _ _ hscope

omit hk in
theorem knot_yields : ∀ fuel : Nat, ((localExecutor handlers).knot fuel).Yields
  | 0 => ⟨fun _ _ _ _ => .outOfFuel, fun _ _ => .outOfFuel⟩
  | fuel + 1 => ⟨fun v _ _ hscope => evaluateStep_yields handlers (knot_yields fuel) v hscope,
      fun hf ha => constCreateCallStep_yields handlers (knot_yields fuel) fuel hf ha⟩

end ControlFlowExecutor

end

/-! ## Clients -/

section Clients

variable {σ V : Type} [Preorder σ]

/-- The implementation's side of `Context.Yields`. -/
structure ExecutorImpl.Yields (Good : V → σ → Prop) (impl : ExecutorImpl σ V) : Prop where
  keeps : ∀ {v s s'}, s ≤ s' → Good v s → Good v s'
  createExecutorValue : ∀ v s, Run.Yields Crash.Any s (impl.createExecutorValue v) Good
  createCall : ∀ {f a s}, Good f s → (∀ v ∈ a, Good v s) → Run.Yields Crash.Any s (impl.createCall f a) Good
  createStruct : ∀ {vs s}, (∀ v ∈ vs, Good v s) → Run.Yields Crash.Any s (impl.createStruct vs) Good
  createSelection : ∀ {v s} i, Good v s → Run.Yields Crash.Any s (impl.createSelection v i) Good
  materialize : ∀ {v s} pb, Good v s → Run.Yields Crash.Any s (impl.materialize v pb) fun _ _ => True

/-- Every tracked value is good. -/
def BaseState.Live (Good : V → σ → Prop) (s : BaseState (HandleTable V) σ) : Prop :=
  ∀ id v, s.table.trackedValues id = some v → Good v s.impl

variable {Good : V → σ → Prop} {impl : ExecutorImpl σ V}

namespace ExecutorBase

omit [Preorder σ] in
theorem getTracked_live (name : String) (id : ValueId) :
    Run.Triple (BaseState.Live Good) (getTracked name id)
      (fun v s => s.Live Good ∧ Good v s.impl) (fun _ => BaseState.Live Good) :=
  (getTracked_triple name id).conseq (fun _ h => h) (fun v _ h => ⟨h.1, h.1 id v h.2⟩) fun _ _ h => h

omit [Preorder σ] in
/-- What is looked up in a state, is in its table. -/
theorem getAllTracked_tracked (name : String) : ∀ (ids : List ValueId)
    (P : BaseState (HandleTable V) σ → Prop), Run.Triple P (getAllTracked name ids)
      (fun vs s => P s ∧ ∀ v ∈ vs, ∃ id, s.table.trackedValues id = some v) (fun _ => P)
  | [], _ => .pure fun _ h => ⟨h, List.forall_mem_nil _⟩
  | id :: ids, P => by
      refine (getTracked_triple name id).bind fun v => ?_
      refine ((getAllTracked_tracked name ids fun s => P s ∧ s.table.trackedValues id = some v).bind
        fun vs => .pure fun s h => ?_).conseq (fun _ h => h) (fun _ _ h => h) fun _ _ h => h.1
      exact ⟨h.1.1, List.forall_mem_cons.mpr ⟨⟨id, h.1.2⟩, h.2⟩⟩

omit [Preorder σ] in
theorem trackValue_live (v : V) {E : Status → BaseState (HandleTable V) σ → Prop} :
    Run.Triple (fun s => s.Live Good ∧ Good v s.impl) (trackValue v) (fun _ => BaseState.Live Good) E :=
  .step fun s ⟨hlive, hv⟩ id w hw => by
    by_cases hid : id = s.table.nextValueId
    · rw [hid] at hw
      obtain rfl : v = w := Option.some.inj ((s.tracked_track v).symm.trans hw)
      exact hv
    · have hold : s.table.trackedValues id = some w :=
        (HandleTable.trackedValues_trackValue_of_ne hid).symm.trans hw
      exact hlive id w hold

end ExecutorBase

namespace ExecutorImpl.Yields

variable (h : impl.Yields Good)
include h

/-- A method of the implementation keeps the table good. -/
theorem onImpl {P : BaseState (HandleTable V) σ → Prop} {x : Exec σ α} {Q : α → σ → Prop}
    (hx : ∀ s, P s → s.Live Good ∧ Run.Yields Crash.Any s.impl x Q) :
    Run.Triple P (ExecutorBase.onImpl x) (fun a s => s.Live Good ∧ Q a s.impl)
      (fun _ => BaseState.Live Good) := by
  intro s hs
  obtain ⟨hlive, hyields⟩ := hx s hs
  have hend := hyields s.impl (le_refl _)
  rcases hxs : x s.impl with ⟨l, a | e | k | _⟩ <;> rw [hxs] at hend <;>
    simp only [ExecutorBase.onImpl, Run.zoom, hxs]
  · exact ⟨fun id v hid => h.keeps hend.1 (hlive id v hid), hend.2⟩
  · exact fun id v hid => h.keeps hend (hlive id v hid)

/-- Each operation that makes a value ends with tracking it. -/
theorem tracks {P : BaseState (HandleTable V) σ → Prop} {x : Exec σ V}
    (hx : ∀ s, P s → s.Live Good ∧ Run.Yields Crash.Any s.impl x Good) :
    Run.Triple P (ExecutorBase.onImpl x >>= fun v => ExecutorBase.trackValue v)
      (fun (_ : ValueId) => BaseState.Live Good) (fun _ => BaseState.Live Good) :=
  (h.onImpl hx).bind fun v => ExecutorBase.trackValue_live v

theorem createCall_live (function : ValueId) (argument : Option ValueId) :
    Run.Triple (BaseState.Live Good) ((executorBase impl).createCall function argument)
      (fun _ => BaseState.Live Good) (fun _ => BaseState.Live Good) := by
  refine (ExecutorBase.getTracked_triple _ function).bind fun f => ?_
  cases argument with
  | none =>
      refine h.tracks fun s hs => ⟨hs.1, ?_⟩
      exact h.createCall (hs.1 _ f hs.2) fun _ h => (nomatch h)
  | some argument =>
      refine Run.Triple.bind (Q := fun a s => (s.Live Good ∧ Good f s.impl) ∧ ∀ v ∈ a, Good v s.impl)
        ?_ fun a => h.tracks fun s hs => ⟨hs.1.1, h.createCall hs.1.2 hs.2⟩
      have hargument := ExecutorBase.getTracked_triple
        (P := fun s : BaseState (HandleTable V) σ => s.Live Good ∧ Good f s.impl)
        impl.executorName argument
      show Run.Triple _ (_ >>= _) _ _
      refine (hargument.conseq (fun s hs => ⟨hs.1, hs.1 _ f hs.2⟩) (fun _ _ h => h)
        fun _ _ h => h.1).bind fun a => .pure fun s hs => ⟨hs.1, fun v hv => ?_⟩
      -- the looked-up argument is in the table, whose values are all good
      obtain rfl : a = v := Option.mem_some_iff.mp hv
      exact hs.1.1 _ a hs.2

theorem materialize_live (id : ValueId) (valuePb : Option Value) :
    Run.Triple (BaseState.Live Good) ((executorBase impl).materialize id valuePb)
      (fun _ => BaseState.Live Good) (fun _ => BaseState.Live Good) := by
  refine (ExecutorBase.getTracked_live _ id).attempt.bind fun r => ?_
  cases r with
  | error e => exact .pure fun _ h => h
  | ok v =>
      exact (h.onImpl fun s hs => ⟨hs.1, h.materialize valuePb hs.2⟩).conseq (fun _ h => h)
        (fun _ _ h => h.1) fun _ _ h => h

/-! ### Client calls -/

omit [Preorder σ] h in
theorem dispose_live (id : ValueId) :
    Run.Triple (BaseState.Live Good) ((executorBase impl).dispose id)
      (fun _ => BaseState.Live Good) (fun _ => BaseState.Live Good) :=
  .step fun s hs => by
    rcases hid : ValueTable.getTracked s.table id with _ | v
    · exact hs
    · intro id' w hw
      by_cases heq : id' = id
      · rw [heq, show (ValueTable.erase id s.table).trackedValues id = none from
          HandleTable.trackedValues_erase_self id s.table] at hw
        cases hw
      · have hold : s.table.trackedValues id' = some w :=
          (HandleTable.trackedValues_erase_of_ne heq).symm.trans hw
        exact hs id' w hold

/-- Whatever a client calls, the tracked values stay good. -/
theorem perform_live (call : Executor.ApiCall ValueId) :
    Run.Triple (BaseState.Live Good) ((executorBase impl).perform call)
      (fun _ => BaseState.Live Good) (fun _ => BaseState.Live Good) := by
  cases call with
  | createValue val =>
      refine Run.Triple.bind (Run.Triple.attempt (h.tracks fun s hs => ⟨hs, ?_⟩)) fun r =>
        .pure fun s hs => ?_
      · exact h.createExecutorValue val s.impl
      · cases r <;> exact hs
  | createCall function argument =>
      refine (h.createCall_live function argument).attempt.bind fun r => .pure fun s hs => ?_
      cases r <;> exact hs
  | createStruct members =>
      -- each member is looked up in the table before the structure is made
      have hall := (ExecutorBase.getAllTracked_tracked impl.executorName members
        (BaseState.Live Good)).bind fun vs => h.tracks fun s hs => ⟨hs.1, h.createStruct fun v hv =>
          (hs.2 v hv).elim fun id hid => hs.1 id v hid⟩
      refine Run.Triple.bind hall.attempt fun r => .pure fun s hs => ?_
      cases r <;> exact hs
  | createSelection source index =>
      have hall := (ExecutorBase.getTracked_live impl.executorName source).bind fun v =>
        h.tracks fun s hs => ⟨hs.1, h.createSelection index hs.2⟩
      refine Run.Triple.bind hall.attempt fun r => .pure fun s hs => ?_
      cases r <;> exact hs
  | materialize value valuePb =>
      refine (h.materialize_live value valuePb).attempt.bind fun r => .pure fun s hs => ?_
      cases r <;> exact hs
  | dispose value =>
      refine (dispose_live value).attempt.bind fun r => .pure fun s hs => ?_
      cases r <;> exact hs

theorem performAll_live : ∀ calls : List (Executor.ApiCall ValueId),
    Run.Triple (BaseState.Live Good) ((executorBase impl).performAll calls)
      (fun _ => BaseState.Live Good) (fun _ => BaseState.Live Good)
  | [] => .pure fun _ h => h
  | call :: calls => (h.perform_live call).bind fun _ => (performAll_live calls).bind fun _ =>
      .pure fun _ h => h

end ExecutorImpl.Yields

end Clients

/-! ## The local stack -/

section

variable [ProtoText] (handlers : IntrinsicHandlerSet) (fuel : Nat)

theorem ControlFlowExecutor.impl_yields :
    ((localExecutor handlers).impl fuel).Yields fun v s => v.Alive s where
  keeps hs h := h.of_le hs
  createExecutorValue v _ := constCreateExecutorValue_yields handlers (knot_yields handlers fuel) v
  createCall hf ha := (knot_yields handlers fuel).createCall hf ha
  createStruct hvs := .pure fun _ hs => .struct fun v hv => (hvs v hv).of_le hs
  createSelection i hv := createSelectionInternal_yields handlers hv i
  materialize pb hv := constMaterialize_yields handlers hv pb

/-- **In every state of a local stack that a client can reach, no value dangles**: every handle that a
value has anywhere is one that the child tracks. -/
theorem live_performAll {calls : List (Executor.ApiCall ValueId)}
    {responses : List (Executor.Response ValueId)} {s : ControlFlowState InlineState}
    (h : Run.Returns ((controlFlowExecutor (localExecutor handlers) fuel).performAll calls)
      localInitial responses s) : s.Live fun v c => v.Alive c := by
  obtain ⟨l, hl⟩ := h
  have hlive := (ControlFlowExecutor.impl_yields handlers fuel).performAll_live calls
  exact hlive.ok (fun _ _ h => absurd h (Option.some_ne_none _).symm) hl

end

end GenC
