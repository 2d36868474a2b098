import GenC.Authoring.Constructor
import GenC.Lib.Transformer
import GenC.Runtime.IntrinsicCalls
import GenC.Runtime.Runner
import GenC.Runtime.SharedState

/-!
# Chains of functions over a state

A computation over a shared state is specified by a predicate transformer (`Denotes`). `SerialChain` and
`RepeatedConditionalChain` have the transformers of sequences and of loops (`denotes_serialChain`,
`denotes_repeatedConditionalChain`), where the functions give data without structure.
-/

namespace GenC

open Lib

/-! ## Data without structure -/

variable {κ : Type}

/-- The value is a scalar of the child executor. -/
inductive ExecutorValue.Carries (s : SharedState κ) : ExecutorValue → Value → Prop where
  | embedded {id : ValueId} {m : Meta} {c : Scalar}
      (h : s.table.trackedValues id = some (.ok (.scalar m c))) : Carries s (.embedded id) (.scalar m c)

theorem ExecutorValue.Carries.mono {s s' : SharedState κ} {x : ExecutorValue} {d : Value}
    (h : x.Carries s d) (hs : s.Grows s') : x.Carries s' d := by
  cases h with
  | embedded h => exact .embedded (hs.kept h)

namespace StatefulChains

section

variable [ProtoText] (handlers : SharedHandlerSet κ) (w₀ : κ) (scope : Scope)

/-- From `s` on, the function does what the transformer says. -/
def Does (T : Transformer Value κ) (s : SharedState κ) (f : ExecutorValue) : Prop :=
  ∀ ⦃Q u x d⦄, s.Grows u → ExecutorValue.Carries u x d → T Q d u.impl → ∃ y r u',
    (sharedLocalExecutor handlers w₀).Calls f x u y u' ∧ u.Grows u' ∧ ExecutorValue.Carries u' y r ∧ Q r u'.impl

/-- The computation evaluates to such a function, and leaves the shared state alone until it is called. -/
def Denotes (fn : Value) (T : Transformer Value κ) : Prop :=
  ∀ s, ∃ f s', Context.Creates ((sharedLocalExecutor handlers w₀).contexts scope) fn s f s' ∧ s.Grows s' ∧
    s'.impl = s.impl ∧ Does handlers w₀ T s' f

end

variable [ProtoText] {handlers : SharedHandlerSet κ} {w₀ : κ} {scope : Scope} {s s' : SharedState κ}
  {T T' : Transformer Value κ} {f x : ExecutorValue} {d : Value}

theorem Does.mono (h : Does handlers w₀ T s f) (hs : s.Grows s') : Does handlers w₀ T s' f :=
  fun _ _ _ _ hu hx ht => h (hs.trans hu) hx ht

/-- Less may be said of a computation. -/
theorem Denotes.weaken {fn : Value} (h : Denotes handlers w₀ scope fn T)
    (hT : ∀ Q d w, T' Q d w → T Q d w) : Denotes handlers w₀ scope fn T' := by
  intro s
  obtain ⟨f, s', hcreate, hs', himpl, hf⟩ := h s
  exact ⟨f, s', hcreate, hs', himpl, fun Q u x d hu hx ht => hf hu hx (hT Q d u.impl ht)⟩

/-! ## Inline intrinsics -/

end StatefulChains

/-- What the handler does, where it gives data without structure. -/
def SharedHandler.transformer (handler : SharedHandler κ) (intr : Intrinsic) : Transformer Value κ :=
  fun Q d w => ∃ m c w', Run.Returns (handler.executeCall intr d) w (.scalar m c) w' ∧ Q (.scalar m c) w'

namespace StatefulChains

variable [ProtoText] {handlers : SharedHandlerSet κ} {w₀ : κ} {scope : Scope} {s s' : SharedState κ}
  {T T' : Transformer Value κ} {f x : ExecutorValue} {d : Value}

theorem calls_embedded {id : ValueId} {fn r : Value} {w' : κ}
    (hf : s.table.trackedValues id = some (.ok fn)) (hx : ExecutorValue.Carries s x d)
    (hr : Run.Returns (SharedExecutor.callTask handlers fn d) s.impl r w') :
    (sharedLocalExecutor handlers w₀).Calls (.embedded id) x s (.embedded s.table.nextValueId)
      (BaseState.track { s with impl := w' } (.ok r)) := by
  cases hx with
  | embedded hx =>
      have hcall := SharedExecutor.createCall_returns hf hx hr
      exact ⟨1, (Run.Returns.pure _ s).bind ((Executor.releasing_nil_returns hcall).bind (.pure _ _))⟩

/-- **An inline intrinsic does what its handler does.** -/
theorem denotes_inline {handler : SharedHandler κ} {m : Meta} {uri : String} {staticParameter : Option Value}
    (hlookup : handlers.inlineHandlers.lookup uri = some handler)
    (hwf : handler.checkWellFormed ⟨uri, staticParameter⟩ = .ok ()) :
    Denotes handlers w₀ scope (.intrinsic m uri staticParameter)
      (handler.transformer ⟨uri, staticParameter⟩) := by
  intro s
  have hget : (handlers.inState w₀).getHandler uri = .ok ⟨uri, .inline (handler.inState w₀)⟩ := by
    rw [handlers.getHandler_inState, hlookup]
  refine ⟨.embedded s.table.nextValueId, s.track (.ok (.intrinsic m uri staticParameter)), ?_,
    s.grows_track _, rfl, ?_⟩
  · exact (ControlFlowExecutor.creates_iff rfl).mpr
      (.inline hget rfl hwf (SharedExecutor.createValue_returns _ s))
  · rintro Q u x d hu hx ⟨m', c, w', hr, hq⟩
    have hfn := hu.kept (s.tracked_track (.ok (.intrinsic m uri staticParameter)))
    refine ⟨_, _, _, calls_embedded hfn hx (SharedExecutor.callTask_returns hlookup hwf hr), ?_, ?_, hq⟩
    · exact BaseState.grows_track_with u w' _
    · exact .embedded (BaseState.tracked_track { u with impl := w' } _)

/-! ## Chains -/

variable (scope) in
theorem contexts_growing : Context.Growing ((sharedLocalExecutor handlers w₀).contexts scope) :=
  (sharedLocalExecutor handlers w₀).contexts_growing scope

/-- A control-flow intrinsic evaluates to itself. -/
theorem creates_controlFlow (handler : ControlFlowHandler) {m : Meta} {staticParameter : Option Value}
    (hlookup : handlers.inlineHandlers.lookup handler.uri = none)
    (hget : (createCompleteHandlerSet handlers.delegateMap []).getHandler handler.uri =
      .ok ⟨handler.uri, .controlFlow handler⟩)
    (hwf : handler.checkWellFormed ⟨handler.uri, staticParameter⟩ = .ok ()) (s : SharedState κ) :
    Context.Creates ((sharedLocalExecutor handlers w₀).contexts scope)
      (.intrinsic m handler.uri staticParameter) s
      (.intrinsic ⟨handler.uri, staticParameter⟩ ⟨handler.uri, .controlFlow handler⟩ scope) s := by
  have hget' : (handlers.inState w₀).getHandler handler.uri = .ok ⟨handler.uri, .controlFlow handler⟩ := by
    rw [handlers.getHandler_inState, hlookup]
    exact hget
  exact (ControlFlowExecutor.creates_iff rfl).mpr (.controlFlow hget' rfl hwf)

/-- Calling it is running its handler. -/
theorem calls_controlFlow {handler : ControlFlowHandler} {intr : Intrinsic} {uri : String} {y : ExecutorValue}
    (h : Run.Settles (fun n => handler.executeCall ((sharedLocalExecutor handlers w₀).contexts scope n) n intr
      (some x)) s (.ok y) s') :
    (sharedLocalExecutor handlers w₀).Calls (.intrinsic intr ⟨uri, .controlFlow handler⟩ scope) x s y s' := by
  have hcall : Run.Finally (fun n => ((sharedLocalExecutor handlers w₀).contexts scope n).createCall
      (.intrinsic intr ⟨uri, .controlFlow handler⟩ scope) (some x)) s y s' :=
    ControlFlowExecutor.finally_call_iff.mpr h.finally_
  exact hcall

/-- The loop of `SerialChain`, by induction on the functions. -/
theorem serialChainLoop_settles {fns : List Value} {Ts : List (Transformer Value κ)} {Q : Value → κ → Prop}
    (hfns : List.Forall₂ (Denotes handlers w₀ scope) fns Ts) (hx : ExecutorValue.Carries s x d)
    (h : Transformer.serial Ts Q d s.impl) : ∃ y r s',
      Run.Settles (fun n => ControlFlowHandler.serialChainLoop
        ((sharedLocalExecutor handlers w₀).contexts scope n) fns x) s (.ok y) s' ∧
      s.Grows s' ∧ ExecutorValue.Carries s' y r ∧ Q r s'.impl := by
  induction hfns generalizing s x d with
  | nil => exact ⟨x, d, s, .pure x s, .refl s, hx, h⟩
  | @cons fn T fns Ts hfn _ ih =>
      obtain ⟨f, s₁, hcreate, hs₁, himpl, hf⟩ := hfn s
      have ht : T (Transformer.serial Ts Q) d s₁.impl := by rwa [himpl]
      obtain ⟨v, d₁, s₂, hcall, hs₂, hv, hrest⟩ := hf (.refl s₁) (hx.mono hs₁) ht
      obtain ⟨y, r, s', hloop, hs', hy, hq⟩ := ih hv hrest
      refine ⟨y, r, s', ?_, (hs₁.trans hs₂).trans hs', hy, hq⟩
      refine (Run.Settles.of_finally ((contexts_growing scope).createValue fn) hcreate).bind ?_
      exact (Run.Settles.of_finally ((contexts_growing scope).createCall f (some x)) hcall).bind hloop

/-- **A serial chain does one function after another.** -/
theorem denotes_serialChain {m m' : Meta} {fns : List Value} {Ts : List (Transformer Value κ)}
    (hlookup : handlers.inlineHandlers.lookup "serial_chain" = none) (hne : fns ≠ [])
    (hfns : List.Forall₂ (Denotes handlers w₀ scope) fns Ts) :
    Denotes handlers w₀ scope (.intrinsic m "serial_chain" (some (.struct m' fns)))
      (Transformer.serial Ts) := by
  have hlength : (true && decide (1 ≤ fns.length)) = true := decide_eq_true (List.length_pos_iff.mpr hne)
  have hwf : ControlFlowHandler.serialChain.checkWellFormed ⟨"serial_chain", some (.struct m' fns)⟩ = .ok () :=
    if_pos hlength
  intro s
  refine ⟨_, s, creates_controlFlow .serialChain hlookup rfl hwf s, .refl s, rfl, ?_⟩
  intro Q u x d _ hx ht
  obtain ⟨y, r, u', hloop, hu', hy, hq⟩ := serialChainLoop_settles hfns hx ht
  exact ⟨y, r, u', calls_controlFlow (Run.Settles.bind (.pure x u) hloop), hu', hy, hq⟩

/-! ### Rounds -/

/-- The loop that creates the functions. -/
theorem createValues_settles {fns : List Value} {Ts : List (Transformer Value κ)}
    (hfns : List.Forall₂ (Denotes handlers w₀ scope) fns Ts) (s : SharedState κ) : ∃ fs s',
      Run.Settles (fun n => ((sharedLocalExecutor handlers w₀).contexts scope n).createValues fns) s
        (.ok fs) s' ∧
      s.Grows s' ∧ s'.impl = s.impl ∧ List.Forall₂ (fun T f => Does handlers w₀ T s' f) Ts fs := by
  induction hfns generalizing s with
  | nil => exact ⟨[], s, .pure [] s, .refl s, rfl, .nil⟩
  | @cons fn T fns Ts hfn _ ih =>
      obtain ⟨f, s₁, hcreate, hs₁, himpl₁, hf⟩ := hfn s
      obtain ⟨fs, s', hrest, hs', himpl, hfs⟩ := ih s₁
      refine ⟨f :: fs, s', ?_, hs₁.trans hs', himpl.trans himpl₁, .cons (hf.mono hs') hfs⟩
      refine (Run.Settles.of_finally ((contexts_growing scope).createValue fn) hcreate).bind ?_
      exact hrest.bind (.pure _ s')

/-- What carries data is materialized as it. -/
theorem constMaterialize_carries (hx : ExecutorValue.Carries s x d) :
    Run.Returns ((sharedLocalExecutor handlers w₀).constMaterialize x (some .defaultInstance)) s
      ⟨.ok (), some d⟩ s := by
  cases hx with
  | embedded h =>
      exact (Run.Returns.pure _ s).attempt.bind
        (Executor.releasing_nil_returns (SharedExecutor.materialize_returns .defaultInstance h))

theorem shows_of_carries (scope : Scope) (hx : ExecutorValue.Carries s x d) :
    Run.Settles (fun n => ((sharedLocalExecutor handlers w₀).contexts scope n).materializeValue x) s (.ok d)
      s :=
  ⟨0, fun _ _ => (constMaterialize_carries hx).bind (.pure _ s)⟩

/-- A scalar is created as it is. -/
theorem creates_scalar (m : Meta) (c : Scalar) (s : SharedState κ) :
    Context.Creates ((sharedLocalExecutor handlers w₀).contexts scope) (.scalar m c) s
      (.embedded s.table.nextValueId) (s.track (.ok (.scalar m c))) :=
  ⟨0, (SharedExecutor.createValue_returns _ s).bind (.pure _ _)⟩

/-- One round over the functions, by induction on them. -/
theorem conditionalRound_settles (scope : Scope) {fs : List ExecutorValue} {Ts : List (Transformer Value κ)}
    {Q : Value → Bool → κ → Prop} {s₀ : SharedState κ}
    (hfs : List.Forall₂ (fun T f => Does handlers w₀ T s₀ f) Ts fs) (hs : s₀.Grows s)
    (hx : ExecutorValue.Carries s x d) (h : Transformer.round Value.boolean? Ts Q d s.impl) :
    ∃ y ended r s', Run.Settles (fun n => ControlFlowHandler.conditionalRound
        ((sharedLocalExecutor handlers w₀).contexts scope n) fs x) s (.ok (y, ended)) s' ∧
      s.Grows s' ∧ ExecutorValue.Carries s' y r ∧ Q r ended s'.impl := by
  induction hfs generalizing s x d with
  | nil => exact ⟨x, false, d, s, .pure _ s, .refl s, hx, h⟩
  | @cons T f Ts fs hf _ ih =>
      obtain ⟨v, r, s₁, hcall, hs₁, hv, hr⟩ := hf hs hx h
      have hcall' := Run.Settles.of_finally ((contexts_growing scope).createCall f (some x)) hcall
      have hshow : Run.Settles
        (fun n => ((sharedLocalExecutor handlers w₀).contexts scope n).materializeValue v)
          s₁ (.ok r) s₁ := shows_of_carries scope hv
      cases hdecision : r.boolean? with
      | none =>
          simp only [hdecision] at hr
          cases hv with
          | @embedded id m c hv =>
              -- what was shown is created again before it is handed on
              have hs₂ := s₁.grows_track (.ok (.scalar m c))
              have hcreated := s₁.tracked_track (.ok (.scalar m c))
              obtain ⟨y, ended, r, s', hrest, hs', hy, hq⟩ :=
                ih ((hs.trans hs₁).trans hs₂) (.embedded hcreated) hr
              refine ⟨y, ended, r, s', hcall'.bind (hshow.bind ?_), (hs₁.trans hs₂).trans hs', hy, hq⟩
              simp only [hdecision]
              exact (Run.Settles.of_finally ((contexts_growing scope).createValue _)
                (creates_scalar m c s₁)).bind hrest
      | some decision =>
          cases decision with
          | true =>
              simp only [hdecision] at hr
              refine ⟨x, true, d, s₁, hcall'.bind (hshow.bind ?_), hs₁, hx.mono hs₁, hr⟩
              simp only [hdecision]
              exact .pure _ s₁
          | false =>
              simp only [hdecision] at hr
              obtain ⟨y, ended, r', s', hrest, hs', hy, hq⟩ := ih (hs.trans hs₁) (hx.mono hs₁) hr
              refine ⟨y, ended, r', s', hcall'.bind (hshow.bind ?_), hs₁.trans hs', hy, hq⟩
              simp only [hdecision]
              exact hrest

/-- The rounds, by induction on their number. -/
theorem conditionalRounds_settles (scope : Scope) {fs : List ExecutorValue} {Ts : List (Transformer Value κ)}
    {Q : Value → κ → Prop} {s₀ : SharedState κ}
    (hfs : List.Forall₂ (fun T f => Does handlers w₀ T s₀ f) Ts fs) :
    ∀ {n : Nat} {s : SharedState κ} {x : ExecutorValue} {d : Value}, s₀.Grows s →
      ExecutorValue.Carries s x d → Transformer.rounds Value.boolean? Ts n Q d s.impl → ∃ y r s',
        Run.Settles (fun fuel => ControlFlowHandler.conditionalRounds
          ((sharedLocalExecutor handlers w₀).contexts scope fuel) fs n x) s (.ok y) s' ∧
        s.Grows s' ∧ ExecutorValue.Carries s' y r ∧ Q r s'.impl := by
  intro n
  -- on the number of rounds that are left
  induction n with
  | zero => exact fun _ hx h => ⟨_, _, _, .pure _ _, .refl _, hx, h⟩
  | succ n ih =>
      intro s x d hs hx h
      obtain ⟨v, ended, r, s₁, hround, hs₁, hv, hr⟩ := conditionalRound_settles scope hfs hs hx h
      cases ended with
      | true => exact ⟨v, r, s₁, hround.bind (.pure v s₁), hs₁, hv, hr⟩
      | false =>
          obtain ⟨y, r', s', hrest, hs', hy, hq⟩ := ih (hs.trans hs₁) hv hr
          exact ⟨y, r', s', hround.bind hrest, hs₁.trans hs', hy, hq⟩

/-- **A repeated conditional chain does rounds of the functions.** -/
theorem denotes_repeatedConditionalChain {m m' m'' : Meta} {numSteps : Int32} {fns : List Value}
    {Ts : List (Transformer Value κ)}
    (hlookup : handlers.inlineHandlers.lookup "repeated_conditional_chain" = none) (hne : fns ≠ [])
    (hfns : List.Forall₂ (Denotes handlers w₀ scope) fns Ts) :
    Denotes handlers w₀ scope (.intrinsic m "repeated_conditional_chain"
        (some (.struct m' (.scalar m'' (.int32 numSteps) :: fns))))
      (Transformer.rounds Value.boolean? Ts numSteps.toInt.toNat) := by
  -- the count and at least one function
  have hlength : (true && decide (2 ≤ fns.length + 1)) = true :=
    decide_eq_true (Nat.succ_le_succ (List.length_pos_iff.mpr hne))
  have hwf : ControlFlowHandler.repeatedConditionalChain.checkWellFormed ⟨"repeated_conditional_chain",
      some (.struct m' (.scalar m'' (.int32 numSteps) :: fns))⟩ = .ok () := if_pos hlength
  intro s
  refine ⟨_, s, creates_controlFlow .repeatedConditionalChain hlookup rfl hwf s, .refl s, rfl, ?_⟩
  intro Q u x d _ hx ht
  obtain ⟨fs, u₁, hcreate, hu₁, himpl, hfs⟩ := createValues_settles hfns u
  have ht' : Transformer.rounds Value.boolean? Ts numSteps.toInt.toNat Q d u₁.impl := by rwa [himpl]
  obtain ⟨y, r, u', hloop, hu', hy, hq⟩ := conditionalRounds_settles scope hfs (.refl u₁) (hx.mono hu₁) ht'
  refine ⟨y, r, u', calls_controlFlow ?_, hu₁.trans hu', hy, hq⟩
  exact Run.Settles.bind (.pure _ u) (hcreate.bind (Run.Settles.bind (.pure x u₁) hloop))

/-! ## Labelled computations -/

variable (handlers w₀) in
/-- However it is labelled, the computation does what the transformer says. -/
def Realizes (fn : Value) (T : Transformer Value κ) : Prop :=
  ∀ label, Denotes handlers w₀ [] (createLabeledValue label fn) T

theorem Realizes.weaken {fn : Value} (h : Realizes handlers w₀ fn T) (hT : ∀ Q d w, T' Q d w → T Q d w) :
    Realizes handlers w₀ fn T' := fun label => (h label).weaken hT

theorem realizes_inline {handler : SharedHandler κ} {uri : String} {staticParameter : Option Value}
    (hlookup : handlers.inlineHandlers.lookup uri = some handler)
    (hwf : handler.checkWellFormed ⟨uri, staticParameter⟩ = .ok ()) :
    Realizes handlers w₀ (.intrinsic {} uri staticParameter) (handler.transformer ⟨uri, staticParameter⟩) :=
  fun _ => denotes_inline hlookup hwf

/-- The functions of a chain are labelled. -/
theorem denotes_labelledFns {fns : List Value} {Ts : List (Transformer Value κ)}
    (hfns : List.Forall₂ (Realizes handlers w₀) fns Ts) :
    List.Forall₂ (Denotes handlers w₀ []) (labelledFns fns) Ts := by
  have hfrom : ∀ i, List.Forall₂ (Denotes handlers w₀ [])
      ((fns.zipIdx i).map fun p => createLabeledValue ("fn_" ++ toString p.2) p.1) Ts := by
    induction hfns with
    | nil => exact fun _ => .nil
    | cons hfn _ ih => exact fun i => .cons (hfn _) (ih (i + 1))
  exact hfrom 0

theorem realizes_createSerialChain {fns : List Value} {Ts : List (Transformer Value κ)}
    (hlookup : handlers.inlineHandlers.lookup "serial_chain" = none) (hne : fns ≠ [])
    (hfns : List.Forall₂ (Realizes handlers w₀) fns Ts) :
    Realizes handlers w₀ (createSerialChain fns) (Transformer.serial Ts) :=
  fun _ => denotes_serialChain hlookup (mt labelledFns_eq_nil_iff.mp hne) (denotes_labelledFns hfns)

theorem realizes_createRepeatedConditionalChain {numSteps : Int32} {fns : List Value}
    {Ts : List (Transformer Value κ)}
    (hlookup : handlers.inlineHandlers.lookup "repeated_conditional_chain" = none) (hne : fns ≠ [])
    (hfns : List.Forall₂ (Realizes handlers w₀) fns Ts) :
    Realizes handlers w₀ (createRepeatedConditionalChain numSteps fns)
      (Transformer.rounds Value.boolean? Ts numSteps.toInt.toNat) :=
  fun _ => denotes_repeatedConditionalChain hlookup (mt labelledFns_eq_nil_iff.mp hne)
    (denotes_labelledFns hfns)

/-! ## Running a computation -/

/-- **What a runner returns and leaves is what the transformer of its computation says.** -/
theorem run_returns {computation : Value} {T : Transformer Value κ} {Q : Value → κ → Prop} {m : Meta}
    {c : Scalar} {s : ControlFlowState (SharedState κ)}
    (hcomputation : ControlFlowExecutor.hasComputation computation = true)
    (h : Denotes handlers w₀ [] computation T) (hT : T Q (.scalar m c) s.impl.impl) : ∃ r s',
      Run.Finally (fun n => Runner.run
        ⟨some computation, controlFlowExecutor (sharedLocalExecutor handlers w₀) n⟩ (.scalar m c)) s r s' ∧
      Q r s'.impl.impl := by
  obtain ⟨f, u₁, hcreate, -, himpl, hf⟩ := h s.impl
  have heval := (ControlFlowExecutor.creates_iff hcomputation).mp hcreate
  obtain ⟨n₁, hcreate⟩ :=
    heval.constCreateExecutorValue fun m hm => by rw [hm] at hcomputation; cases hcomputation
  have hgrows := u₁.grows_track (.ok (.scalar m c))
  have hT' : T Q (.scalar m c) (u₁.track (.ok (.scalar m c))).impl := by rwa [← himpl] at hT
  obtain ⟨y, r, u₂, ⟨n₂, hcall⟩, -, hy, hq⟩ := hf hgrows (.embedded (u₁.tracked_track _)) hT'
  -- enough fuel for creating the computation and for calling it
  let n := max n₁ n₂
  -- the states after the computation, its argument and its result have been tracked
  let t₁ : ControlFlowState (SharedState κ) := BaseState.track { s with impl := u₁ } f
  let t₂ := BaseState.track { t₁ with impl := u₁.track (.ok (.scalar m c)) }
    (.embedded u₁.table.nextValueId)
  let t₃ := BaseState.track { t₂ with impl := u₂ } y
  let executor := controlFlowExecutor (sharedLocalExecutor handlers w₀) n
  have hcomp : Run.Returns (executor.createValue computation) s s.table.nextValueId t₁ :=
    (hcreate n (le_max_left n₁ n₂)).zoom.bind (ExecutorBase.trackValue_returns _ _)
  have harg : Run.Returns (executor.createValue (.scalar m c)) t₁ t₁.table.nextValueId t₂ := by
    have hchild : Run.Returns ((sharedLocalExecutor handlers w₀).createChildValue (.scalar m c)) u₁
        (.embedded u₁.table.nextValueId) (u₁.track (.ok (.scalar m c))) :=
      (SharedExecutor.createValue_returns _ u₁).bind (.pure _ _)
    exact hchild.zoom.bind (ExecutorBase.trackValue_returns _ _)
  have hresult : Run.Returns (executor.createCall s.table.nextValueId (some t₁.table.nextValueId)) t₂
      t₂.table.nextValueId t₃ := by
    have hcompVal : t₂.table.trackedValues s.table.nextValueId = some f :=
      (BaseState.grows_track_with t₁ _ _).kept (BaseState.tracked_track { s with impl := u₁ } f)
    refine (ExecutorBase.getTracked_returns hcompVal).bind ?_
    refine Run.Returns.bind
      ((ExecutorBase.getTracked_returns (BaseState.tracked_track _ _)).bind (.pure _ _)) ?_
    refine Run.Returns.bind (Run.Returns.zoom ?_) (ExecutorBase.trackValue_returns y { t₂ with impl := u₂ })
    exact hcall.mono ((sharedLocalExecutor handlers w₀).constCreateCall_le (le_max_right n₁ n₂) _ _)
  have hmaterialize : Run.Returns (executor.materialize t₂.table.nextValueId (some .defaultInstance)) t₃
      ⟨.ok (), some r⟩ t₃ :=
    (ExecutorBase.getTracked_returns (BaseState.tracked_track _ y)).attempt.bind
    (constMaterialize_carries hy).zoom
  obtain ⟨s', hrun, himpl'⟩ := Runner.runInternal_returns hcomp harg hresult hmaterialize
  refine ⟨r, s', ⟨n, hrun⟩, ?_⟩
  rwa [himpl']

end StatefulChains

end GenC
