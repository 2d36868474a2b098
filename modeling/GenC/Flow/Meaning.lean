import GenC.Flow.Handlers
import GenC.Flow.Syntax

/-!
# Programs do what they mean
-/

namespace GenC

open Lib ControlFlowExecutor ControlFlowHandler

/-! ## Handler sets -/

/-- The control-flow intrinsics have their handlers. -/
structure IntrinsicHandlerSet.Standard (handlers : IntrinsicHandlerSet) : Prop where
  controlFlow : ∀ handler : ControlFlowHandler, (∀ runnerMap, handler ≠ .delegate runnerMap) →
    handlers.getHandler handler.uri = .ok ⟨handler.uri, .controlFlow handler⟩

variable [ProtoText] {handlers : IntrinsicHandlerSet} {scope : Scope} {s : InlineState}

/-! ## Creating an intrinsic -/

theorem runCheckWellFormed_follows (handler : IntrinsicHandler) (intr : Intrinsic) (s : InlineState) :
    Run.Follows (fun _ _ _ => handler.checkWellFormed intr = some (.ok ()))
      (fun _ => handler.runCheckWellFormed intr) s (handler.checkWellFormed intr).meaning := by
  refine .skip (.const _) (fun _ => .const _) ⟨0, .tell _ s⟩ (le_refl s) ?_
  rcases handler.checkWellFormed intr with _ | e | _
  · exact .crash fun _ => rfl
  · exact .throw e
  · exact .pure rfl

section

variable {m : Meta} {intr : Intrinsic} {handler : IntrinsicHandler}

/-- What a context creates, is evaluated. -/
theorem createValue_of_evaluate {fn : Value} (hfn : hasComputation fn = true) {β : Type}
    {Q : InlineState → ExecutorValue → β → Prop} {p : Meaning β}
    (h : Run.Follows Q (fun n => (localExecutor handlers).evaluate (n + 1) fn scope) s p) :
    Run.Follows Q (fun n => ((localExecutor handlers).contexts scope n).createValue fn) s p := by
  have hcreate : (fun n => ((localExecutor handlers).contexts scope n).createValue fn) =
      fun n => (localExecutor handlers).evaluate n fn scope := funext fun n => if_pos hfn
  rw [hcreate]
  exact .of_succ (evaluate_growing fn scope) h

/-- A control-flow intrinsic is a function once its handler has checked it, and its handler is what runs. -/
theorem builds_controlFlow (handler : ControlFlowHandler) {staticParameter : Option Value} {create : Meaning Unit}
    {call : Datum → Meaning Datum}
    (hget : handlers.getHandler handler.uri = .ok ⟨handler.uri, .controlFlow handler⟩)
    (hcheck : (handler.checkWellFormed ⟨handler.uri, staticParameter⟩).meaning = create)
    (hcall : ∀ {s'}, s ≤ s' → ∀ {x d}, ExecutorValue.Reads s' x d → Run.Follows ExecutorValue.Reads
      (fun n => handler.executeCall ((localExecutor handlers).contexts scope n) n
        ⟨handler.uri, staticParameter⟩ (some x)) s' (call d)) :
    Builds handlers scope s (.intrinsic m handler.uri staticParameter) ⟨create, call⟩ := by
  intro s' hs
  refine createValue_of_evaluate rfl ?_
  show Run.Follows _ (fun _ => (localExecutor handlers).evaluateIntrinsic _ ⟨_, staticParameter⟩ scope) s' create
  unfold evaluateIntrinsic
  -- first the lookup of the handler, which does not fail
  refine .skip (.const _) ?_ ⟨0, .ofExcept hget s'⟩ (le_refl s') ?_
  · exact fun _ => .const _
  subst hcheck
  -- then the check, and with it all that creating the intrinsic can fail with
  refine .of_bind_pure (.bind (.const _) ?_ (runCheckWellFormed_follows _ _ s') fun _ s₁ _ hs₁ hok => ?_)
  · exact fun _ => .const _
  refine .skip (a := ()) (.const _) ?_ ⟨0, ?_⟩ (le_refl s₁) (.pure ?_)
  · exact fun _ => .const _
  · refine (Run.Returns.tell _ s₁).bind ?_
    rw [hok]
    exact .ofExcept rfl s₁
  · intro s₂ hs₂ x d hx
    -- a call takes one unit of fuel
    refine .of_succ (constCreateCall_growing _ _) ?_
    have hexecute : Run.Growing fun n => handler.executeCall ((localExecutor handlers).contexts scope n) n
        ⟨handler.uri, staticParameter⟩ (some x) :=
      fun _ _ hnm => executeCall_le ((localExecutor handlers).contexts_growing scope hnm) hnm handler _ _
    show Run.Follows _ (fun n => (localExecutor handlers).callIntrinsic n _ _ _ scope (some x)) s₂ _
    refine .skip (.const _) (fun _ => (Run.Growing.const _).bind fun _ => hexecute) ⟨0, .ofExcept rfl s₂⟩
      (le_refl s₂) ?_
    exact .skip (.const _) (fun _ => hexecute) ⟨0, .tell _ s₂⟩ (le_refl s₂) (hcall ((hs.trans hs₁).trans hs₂) hx)

/-! ## Inline intrinsics -/

/-- What the task of the child does, given a handler that accepts the intrinsic. -/
theorem inlineCall_end {interface : InlineHandler} (hget : handlers.getHandler intr.uri = .ok handler)
    (hinterface : handler.interface = .inline interface)
    (hok : handler.checkWellFormed intr = some (.ok ())) (m : Meta) (arg : Value) :
    (InlineExecutor.createCall handlers (.ok (.intrinsic m intr.uri intr.staticParameter)) (some (.ok arg))
      ()).2 =
      match interface.executeCall intr arg with
      | some r => .ok r ()
      | none => .crash .missingElement := by
  rcases hr : interface.executeCall intr arg with _ | r
  · have hinline : handler.getInlineInterface = .ok interface := by
      rw [IntrinsicHandler.getInlineInterface, hinterface]
    have hcheck : Run.Returns (handler.runCheckWellFormed intr : Exec Unit Unit) () () () := by
      refine (Run.Returns.tell _ ()).bind ?_
      rw [hok]
      exact .ofExcept rfl ()
    -- everything before the handler succeeds, and the handler crashes
    refine Run.attempt_end_crash ?_
    refine (Run.Returns.ofExcept rfl ()).bind_end.trans ((Run.Returns.ofExcept rfl ()).bind_end.trans ?_)
    refine (Run.Returns.ofExcept hget ()).bind_end.trans (hcheck.bind_end.trans ?_)
    refine (Run.Returns.ofExcept hinline ()).bind_end.trans ((Run.Returns.tell _ ()).bind_end.trans ?_)
    rw [hr]
    rfl
  · obtain ⟨_, h⟩ := InlineExecutor.createCall_inline (m := m) hget hinterface hok hr
    rw [h]

/-- An inline intrinsic is the child's, and so are the errors of its calls. -/
theorem builds_inline (hinline : handlers.Inline intr) :
    Builds handlers scope s (.intrinsic m intr.uri intr.staticParameter) (.inline handlers intr) := by
  intro s' hs
  refine createValue_of_evaluate rfl ?_
  show Run.Follows _ (fun _ => (localExecutor handlers).evaluateIntrinsic _ intr scope) s' _
  unfold evaluateIntrinsic
  have hlookup : Run.Follows (fun _ h h' => h = h' ∧ handlers.getHandler intr.uri = .ok h)
      (fun _ => Run.ofExcept (handlers.getHandler intr.uri)) s'
      (Behavior.ofExcept (handlers.getHandler intr.uri) : Meaning IntrinsicHandler) := by
    rcases handlers.getHandler intr.uri with e | handler
    · exact .throw e
    · exact .pure ⟨rfl, rfl⟩
  refine .bind (.const _) ?_ hlookup fun handler s₁ _ hs₁ hhandler => ?_
  · exact fun _ => .const _
  obtain ⟨rfl, hget⟩ := hhandler
  obtain ⟨interface, hinterface, hkeeps⟩ := hinline handler hget
  refine .of_bind_pure (.bind (.const _) ?_ (runCheckWellFormed_follows _ _ s₁) fun _ s₂ _ hs₂ hok => ?_)
  · exact fun _ => .const _
  rw [hinterface]
  have hcreate := InlineExecutor.createValue_returns handlers (.intrinsic m intr.uri intr.staticParameter) s₂
  refine .of_finally (.const _) ⟨0, hcreate.bind (.pure _ _)⟩ (.track s₂ _) fun {t} ht x d hx => ?_
  -- the function is a handle of the child, that holds the intrinsic
  have hf : t.table.trackedValues s₂.table.nextValueId =
      some (.ok (.intrinsic m intr.uri intr.staticParameter)) :=
    BaseState.Frame.tracked ht (s₂.tracked_track _)
  refine .of_succ (constCreateCall_growing _ _) ?_
  show Run.Follows _ (fun _ => (localExecutor handlers).callEmbedded s₂.table.nextValueId (some x)) t _
  obtain ⟨t', ht', hend⟩ := callEmbedded_end handlers hf hx.alive
  rw [hx.contents] at hend
  rcases ho : d.outcome with e | arg <;> simp only [ho] at hend
  · obtain ⟨id, hid, hreturns⟩ := hend
    rw [Action.inline_call_error ho]
    exact .of_finally (.const _) ⟨0, hreturns⟩ ht' (.leaf hid fun _ h => by cases h)
  · rw [inlineCall_end hget hinterface hok] at hend
    rw [Action.inline_call hget hinterface ho]
    rcases hr : interface.executeCall intr arg with _ | r <;> simp only [hr] at hend
    · exact .crash fun _ => hend
    · obtain ⟨id, hid, hreturns⟩ := hend
      rw [Checked.meaning, Behavior.attempt_ofExcept, pure_bind]
      refine .of_finally (.const _) ⟨0, hreturns⟩ ht' (.leaf hid fun w hw => ?_)
      exact hkeeps (hx.plain.outcome ho) (hr.trans (congrArg some hw))

end

/-! ## Labels -/

omit [ProtoText] in
/-- A relation that holds whatever the label, holds of the functions of a chain. -/
theorem forall₂_labelledFns {R : Value → Action → Prop} {vs : List Value} {as : List Action}
    (h : List.Forall₂ (fun v a => ∀ label, R (v.setLabel label) a) vs as) :
    List.Forall₂ R (labelledFns vs) as := by
  unfold labelledFns
  generalize 0 = k
  induction h generalizing k with
  | nil => exact .nil
  | cons hva _ ih => exact .cons (hva _) (ih (k + 1))

omit [ProtoText] in
theorem forall₂_setLabel {R : Value → Action → Prop} {vs : List Value} {as : List Action} (label : String)
    (h : List.Forall₂ (fun v a => ∀ label, R (v.setLabel label) a) vs as) :
    List.Forall₂ R (vs.map (createLabeledValue label)) as :=
  List.forall₂_map_left_iff.mpr (h.imp fun _ _ h => h label)

omit [ProtoText] in
theorem Flow.toPbs_eq_map (fns : List (Flow handlers)) : Flow.toPbs fns = fns.map Flow.toPb := by
  induction fns with
  | nil => rw [Flow.toPbs, List.map_nil]
  | cons f fs ih => rw [Flow.toPbs, List.map_cons, ih]

omit [ProtoText] in
theorem checkStruct_meaning (lengthOk : Nat → Bool) (message uri : String) (m : Meta) (es : List Value) :
    (checkStruct lengthOk message ⟨uri, some (.struct m es)⟩).meaning =
      if lengthOk es.length then pure () else .throw (.invalidArgument message) := by
  unfold checkStruct
  rw [show (Intrinsic.parameter ⟨uri, some (.struct m es)⟩) = .struct m es from rfl, Value.hasStruct_struct,
    Value.elements_struct, Bool.true_and]
  split <;> rfl

omit [ProtoText] in
theorem length_labelledFns_toPbs (fns : List (Flow handlers)) :
    (labelledFns (Flow.toPbs fns)).length = fns.length := by
  rw [length_labelledFns, Flow.toPbs_eq_map, List.length_map]

omit [ProtoText] in
theorem chainCreate_eq (message uri : String) (m : Meta) (fns : List (Flow handlers)) :
    (checkStruct (1 ≤ ·) message ⟨uri, some (.struct m (labelledFns (Flow.toPbs fns)))⟩).meaning =
      if fns.isEmpty then .throw (.invalidArgument message) else pure () := by
  rw [checkStruct_meaning, length_labelledFns_toPbs]
  cases fns <;> rfl

/-! ## One case after the other -/

/-- IR that builds an action whatever its label is. -/
abbrev BuildsLabelled (handlers : IntrinsicHandlerSet) (scope : Scope) (s : InlineState) (fn : Value)
    (a : Action) : Prop :=
  ∀ label, Builds handlers scope s (fn.setLabel label) a

section

variable (hh : handlers.Standard) {fns : List (Flow handlers)} {as : List Action} {m : Meta}
  {conditionFn bodyFn mapFn : Value} {condition body a : Action}

include hh

theorem builds_serialChain (h : List.Forall₂ (BuildsLabelled handlers scope s) (Flow.toPbs fns) as) :
    Builds handlers scope s (.intrinsic m "serial_chain" (some (.struct {} (labelledFns (Flow.toPbs fns)))))
      ⟨Flow.chainCreate fns, Action.serial as⟩ :=
  builds_controlFlow .serialChain (hh.controlFlow _ fun _ h => by cases h) (chainCreate_eq _ _ _ fns)
    fun hs _ _ hx => Flow.serialChainLoop_follows (forall₂_labelledFns h) hs hx

theorem builds_breakableChain (h : List.Forall₂ (BuildsLabelled handlers scope s) (Flow.toPbs fns) as) :
    Builds handlers scope s (.intrinsic m "breakable_chain" (some (.struct {} (labelledFns (Flow.toPbs fns)))))
      ⟨Flow.chainCreate fns, Action.breakable as⟩ :=
  builds_controlFlow .breakableChain (hh.controlFlow _ fun _ h => by cases h)
    (chainCreate_eq _ _ _ fns) fun hs _ _ hx => Flow.breakableChainLoop_follows (forall₂_labelledFns h) hs hx

theorem builds_repeatedConditionalChain (numSteps : Int32)
    (h : List.Forall₂ (BuildsLabelled handlers scope s) (Flow.toPbs fns) as) :
    Builds handlers scope s (.intrinsic m "repeated_conditional_chain" (some (.struct {}
        (createLabeledValue "num_steps" (.ofInt32 numSteps) :: labelledFns (Flow.toPbs fns)))))
      ⟨Flow.roundsCreate numSteps fns, fun d => do
        Action.createAll as
        Action.rounds as numSteps.toInt.toNat d⟩ := by
  refine builds_controlFlow .repeatedConditionalChain (hh.controlFlow _ fun _ h => by cases h)
    ?_ fun {s'} hs x d hx => ?_
  · rw [ControlFlowHandler.checkWellFormed, repeatedConditionalChainWellFormed, checkStruct_meaning,
      List.length_cons, length_labelledFns_toPbs]
    cases fns <;> rfl
  · have hgrowing := (localExecutor handlers).contexts_growing scope
    -- more fuel for the rounds changes nothing that has ended
    have hrounds : ∀ fs : List ExecutorValue, Run.Growing fun n =>
        conditionalRounds ((localExecutor handlers).contexts scope n) fs numSteps.toInt.toNat x :=
      fun fs _ _ hnm => conditionalRounds_le (hgrowing hnm) fs _ x
    exact .bind (fun _ _ hnm => (hgrowing hnm).createValues _) hrounds
      (Flow.createValues_follows (forall₂_labelledFns h) hs) fun fs s₁ _ hs₁ hfs =>
        Flow.conditionalRounds_follows hfs (le_refl s₁) (hx.of_le hs₁) _

theorem builds_repeat (numSteps : Int32) (h : BuildsLabelled handlers scope s bodyFn body) :
    Builds handlers scope s (.intrinsic m "repeat" (some (.struct {}
        [createLabeledValue "num_steps" (.ofInt32 numSteps), createLabeledValue "body_fn" bodyFn])))
      ⟨pure (), fun d => do
        body.create
        body.iterate numSteps.toInt.toNat d⟩ := by
  refine builds_controlFlow .repeat (hh.controlFlow _ fun _ h => by cases h) rfl
    fun {s'} hs x d hx => ?_
  have hgrowing := (localExecutor handlers).contexts_growing scope
  have hloop : ∀ f, Run.Growing fun n =>
      repeatLoop ((localExecutor handlers).contexts scope n) f numSteps.toInt.toNat x :=
    fun f _ _ hnm => repeatLoop_le (hgrowing hnm) f _ x
  exact .bind (createValue_growing scope _) hloop (h _ hs) fun f s₁ _ hs₁ hf =>
    Flow.repeatLoop_follows hf (le_refl s₁) (hx.of_le hs₁) _

theorem builds_while (hc : BuildsLabelled handlers scope s conditionFn condition)
    (hb : BuildsLabelled handlers scope s bodyFn body) :
    Builds handlers scope s (.intrinsic m "while" (some (.struct {}
        [createLabeledValue "condition_fn" conditionFn, createLabeledValue "body_fn" bodyFn])))
      ⟨pure (), fun d => do
        condition.create
        body.create
        Action.whileDo condition body d⟩ := by
  refine builds_controlFlow .while (hh.controlFlow _ fun _ h => by cases h) rfl
    fun {s'} hs x d hx => ?_
  have hgrowing := (localExecutor handlers).contexts_growing scope
  -- the loop takes its turns from the same fuel as the functions in it
  have hloop : ∀ c b, Run.Growing fun n =>
      whileLoop ((localExecutor handlers).contexts scope n) c b n x :=
    fun c b _ _ hnm => whileLoop_le (hgrowing hnm) c b hnm x
  refine .bind (createValue_growing scope _) (fun c => (createValue_growing scope _).bind (hloop c)) (hc _ hs)
    fun c s₁ _ hs₁ hcond => ?_
  exact .bind (createValue_growing scope _) (hloop c) (hb _ (hs.trans hs₁)) fun b s₂ _ hs₂ hbody =>
    Flow.whileLoop_follows (hcond.of_le hs₂) hbody (le_refl s₂) (hx.of_le (hs₁.trans hs₂))

theorem builds_fallback (h : List.Forall₂ (BuildsLabelled handlers scope s) (Flow.toPbs fns) as) :
    Builds handlers scope s (.intrinsic m "fallback" (some (.struct {}
        ((Flow.toPbs fns).map (createLabeledValue "candidate_fn")))))
      ⟨pure (), Action.firstOf (.unavailable "No candidate computations available.") as⟩ := by
  refine builds_controlFlow .fallback (hh.controlFlow _ fun _ h => by cases h) rfl
    fun {s'} hs x d hx => ?_
  exact Flow.fallbackLoop_follows (forall₂_setLabel "candidate_fn" h) hs hx _

theorem builds_parallelMap (h : Builds handlers scope s mapFn a) :
    Builds handlers scope s (.intrinsic m "parallel_map" (some mapFn)) ⟨pure (), a.parallel⟩ :=
  builds_controlFlow .parallelMap (hh.controlFlow _ fun _ h => by cases h) rfl
    fun hs _ _ hx => Flow.parallelMapExecuteCall_follows h hs hx

end

/-- A lambda is created as it is. -/
theorem builds_lambda {m : Meta} {argName : String} {body : Value} {call : Datum → Meaning Datum}
    (h : ∀ {s'}, s ≤ s' → ∀ {x d}, ExecutorValue.Reads s' x d → Run.Follows ExecutorValue.Reads
      (fun n => (localExecutor handlers).evaluate n body ((argName, x) :: scope)) s' (call d)) :
    Builds handlers scope s (.lambda m argName body) ⟨pure (), call⟩ := by
  intro s' hs
  refine createValue_of_evaluate rfl (.pure fun hs' x d hx => ?_)
  exact .of_succ (constCreateCall_growing _ _) (h (hs.trans hs') hx)

/-! ## Expressions -/

section

variable {ρ : Env} {v w : Value} {fn : Value} {a : Action} {p q r : Meaning Datum}

variable (handlers scope) in
/-- Evaluating the IR, now or later, follows the behavior. -/
def EvaluatesAs (s : InlineState) (v : Value) (p : Meaning Datum) : Prop :=
  ∀ {s'}, s ≤ s' → Run.Follows ExecutorValue.Reads (fun n => (localExecutor handlers).evaluate n v scope) s' p

theorem evaluatesAs_literal (m : Meta) (c : Scalar) :
    EvaluatesAs handlers scope s (.scalar m c) (pure (.leaf (.ok (.scalar m c)))) := by
  intro s' hs
  refine .of_succ (evaluate_growing _ scope) ?_
  have hcreate := InlineExecutor.createValue_returns handlers (.scalar m c) s'
  exact .of_finally (.const _) ⟨0, hcreate.bind (.pure _ _)⟩ (.track s' _) (.ok (s'.tracked_track _) .scalar)

theorem evaluatesAs_reference (hscope : scope.Reads s ρ) (m : Meta) (name : String) :
    EvaluatesAs handlers scope s (.reference m name) ((Behavior.ofExcept (Env.resolve name ρ)).mapError fun e =>
      e.withSuffix ("while searching scope: " ++ Env.debugString ρ)) := by
  intro s' hs
  refine .of_succ (evaluate_growing _ scope) ?_
  rw [← hscope.debugString]
  exact .mapError _ (.ofExcept ((hscope.of_le hs).resolve name))

/-- What is selected from data, is data. -/
theorem materialized_of_createSelection {r : StatusOr Value} {index : UInt32}
    (hr : ∀ w, r = .ok w → w.Materialized) (h : InlineExecutor.createSelection r index = .ok w) :
    w.Materialized := by
  rcases r with e | v
  · cases h
  have hv := hr v rfl
  cases hv with
  | scalar => cases h
  | @struct m es hes =>
      rw [InlineExecutor.createSelection, InlineExecutor.selectionTask] at h
      split at h
      · next v hget =>
          cases h
          exact hes _ (List.mem_of_getElem? hget)
      · cases h

theorem select_follows {x : ExecutorValue} {d : Datum} (hx : x.Reads s d) (index : UInt32) :
    Run.Follows ExecutorValue.Reads (fun _ => (localExecutor handlers).createSelectionInternal x index) s
      (d.select index) := by
  cases hx with
  | @leaf id r h hr =>
      -- the child tracks the element, or its error, under a new handle
      have hselect := InlineExecutor.createSelection_holds handlers h index
      refine .of_finally (.const _) ⟨0, hselect.bind (.pure _ _)⟩ (.track s _)
        (.leaf (s.tracked_track _) fun w hw => ?_)
      exact materialized_of_createSelection hr hw
  | @node vs ds hlength h =>
      have hall : List.Forall₂ (ExecutorValue.Reads s) vs ds :=
        List.forall₂_iff_zip.mpr ⟨hlength, fun hp => h _ hp⟩
      unfold createSelectionInternal Datum.select
      rcases forall₂_getElem? hall index.toNat with ⟨hv, hd⟩ | ⟨v, d, hv, hd, hvd⟩
      · simp only [hv, hd, hlength]
        exact .throw _
      · simp only [hv, hd]
        exact .pure hvd

/-! ### Cases -/

theorem evaluatesAs_selection (h : EvaluatesAs handlers scope s v p) (m : Meta) (index : Int32) :
    EvaluatesAs handlers scope s (.selection m v index) (p >>= fun d => d.select index.toUInt32) := by
  intro s' hs
  refine .of_succ (evaluate_growing _ scope) ?_
  have hselect : ∀ x, Run.Growing fun _ : Nat =>
      (localExecutor handlers).createSelectionInternal x index.toUInt32 := fun _ => .const _
  exact .bind (evaluate_growing v scope) hselect (h hs) fun x s₁ d _ hx => select_follows hx _

/-- A function in a call is evaluated, which is to create it. -/
theorem Builds.evaluate (h : Builds handlers scope s fn a) (hfn : hasComputation fn = true) {s' : InlineState}
    (hs : s ≤ s') : Run.Follows (fun s'' f (_ : Unit) => ExecutorValue.Realizes handlers s'' f a)
      (fun n => (localExecutor handlers).evaluate n fn scope) s' a.create := by
  have hcreate : (fun n => ((localExecutor handlers).contexts scope n).createValue fn) =
      fun n => (localExecutor handlers).evaluate n fn scope := funext fun n => if_pos hfn
  exact hcreate ▸ h hs

theorem evaluatesAs_call (hfn : Builds handlers scope s fn a) (hcomputation : hasComputation fn = true)
    (h : EvaluatesAs handlers scope s v p) (m : Meta) :
    EvaluatesAs handlers scope s (.call m fn (some v)) (do
      a.create
      let d ← p
      a.call d) := by
  intro s' hs
  refine .of_succ (evaluate_growing _ scope) ?_
  have hcall : ∀ f, Run.Growing fun n => (localExecutor handlers).evaluate n v scope >>= fun x =>
      (localExecutor handlers).constCreateCall n f (some x) :=
    fun f => (evaluate_growing v scope).bind fun x => constCreateCall_growing f (some x)
  refine .bind (evaluate_growing fn scope) hcall (hfn.evaluate hcomputation hs) fun f s₁ _ hs₁ hf => ?_
  exact .bind (evaluate_growing v scope) (fun x => constCreateCall_growing f (some x)) (h (hs.trans hs₁))
    fun x s₂ d hs₂ hx => hf hs₂ hx

theorem evaluatesAs_struct {es : List Value} {p : Meaning (List Datum)}
    (h : ∀ {s'}, s ≤ s' → Run.Follows (fun s'' => List.Forall₂ (ExecutorValue.Reads s''))
      (fun n => evaluateElements ((localExecutor handlers).knot n) es scope) s' p) (m : Meta) :
    EvaluatesAs handlers scope s (.struct m es) (do
      let ds ← p
      pure (.node ds)) := by
  intro s' hs
  refine .of_succ (evaluate_growing _ scope) ?_
  have hstruct : ∀ vs : List ExecutorValue, Run.Growing fun _ : Nat =>
      (pure (.struct vs) : Exec InlineState ExecutorValue) := fun _ => .const _
  exact .bind (fun _ _ hnm => evaluateElements_le ((localExecutor handlers).knot_le hnm) _ scope) hstruct
    (h hs) fun vs s₁ ds _ hvs => .pure (ExecutorValue.Reads.struct_iff.mpr hvs)

/-- The result of a block is evaluated in the scope that the locals leave. -/
theorem evaluatesAs_block {locals : List (String × Value)} {result : Value} {p : Meaning Env}
    {q : Env → Meaning Datum}
    (hlocals : ∀ {s'}, s ≤ s' → Run.Follows (fun s'' scope' ρ' => Scope.Reads s'' scope' ρ')
      (fun n => evaluateLocals ((localExecutor handlers).knot n) (",".intercalate (locals.map Prod.fst)) locals
        scope) s' p)
    (hresult : ∀ {s' scope' ρ'}, Scope.Reads s' scope' ρ' → EvaluatesAs handlers scope' s' result (q ρ'))
    (m : Meta) : EvaluatesAs handlers scope s (.block m locals result) (p >>= q) := by
  intro s' hs
  refine .of_succ (evaluate_growing _ scope) ?_
  exact .bind (fun _ _ hnm => evaluateLocals_le ((localExecutor handlers).knot_le hnm) _ _ scope)
    (fun scope' => evaluate_growing _ scope') (hlocals hs)
    fun scope' s₁ ρ' _ hscope' => hresult hscope' (le_refl s₁)

/-! ### Conditionals -/

variable (handlers scope) in
/-- The same for what a handler creates. -/
def CreatesAs (s : InlineState) (v : Value) (p : Meaning Datum) : Prop :=
  ∀ {s'}, s ≤ s' → Run.Follows ExecutorValue.Reads
    (fun n => ((localExecutor handlers).contexts scope n).createValue v) s' p

theorem builds_conditional (hh : handlers.Standard) {m m' : Meta} (hp : CreatesAs handlers scope s v p)
    (hn : CreatesAs handlers scope s w q) :
    Builds handlers scope s (.intrinsic m "conditional" (some (.struct m' [v, w]))) ⟨pure (), fun d => do
      let condPb ← d.shown
      match condPb.boolean? with
      | none => .throw (.invalidArgument ("Condition is not a Boolean: " ++ debugString condPb))
      | some true => p
      | some false => q⟩ := by
  refine builds_controlFlow .conditional (hh.controlFlow _ fun _ h => by cases h) rfl
    fun {s'} hs x d hx => ?_
  refine .bind (materializeValue_growing scope x) (fun condPb => ?_) (materializeValue_follows scope hx)
    fun condPb s₁ _ hs₁ hcond => ?_
  · rcases condPb.boolean? with _ | _ | _
    · exact .const _
    · exact createValue_growing scope w
    · exact createValue_growing scope v
  -- the branch is chosen by the same Boolean
  obtain ⟨rfl, -⟩ := hcond
  rcases condPb.boolean? with _ | _ | _
  · exact .throw _
  · exact hn (hs.trans hs₁)
  · exact hp (hs.trans hs₁)

end

/-- The metadata of a node that is evaluated here makes no difference. -/
theorem evaluate_setLabel (e : Expr handlers) (he : ∀ m c, e ≠ .literal m c) (label : String) (n : Nat) :
    (localExecutor handlers).evaluate n (e.toPb.setLabel label) scope =
      (localExecutor handlers).evaluate n e.toPb scope := by
  cases n with
  | zero => rfl
  | succ n =>
      cases e with
      | literal m c => exact (he m c rfl).elim
      | _ => rw [Expr.toPb]; rfl

/-- A branch is labelled, which shows if it is a literal. -/
theorem createsAs_branch {ρ : Env} {e : Expr handlers} (h : EvaluatesAs handlers scope s e.toPb (e.eval ρ))
    (label : String) :
    CreatesAs handlers scope s (createLabeledValue label e.toPb) (e.relabel label <$> e.eval ρ) := by
  intro s' hs
  -- the label of the branch shows in a literal, which is created as it stands, and nowhere else
  by_cases hliteral : ∃ m c, e = .literal m c
  · obtain ⟨m, c, rfl⟩ := hliteral
    have hcreate := InlineExecutor.createValue_returns handlers (.scalar { m with label } c) s'
    rw [Expr.toPb, Expr.eval]
    exact .of_finally (createValue_growing scope _) ⟨0, hcreate.bind (.pure _ _)⟩ (.track s' _)
      (.ok (s'.tracked_track _) .scalar)
  · have he : ∀ m c, e ≠ .literal m c := fun m c heq => hliteral ⟨m, c, heq⟩
    have hcreate : (fun n => ((localExecutor handlers).contexts scope n).createValue
        (createLabeledValue label e.toPb)) = fun n => (localExecutor handlers).evaluate n e.toPb scope := by
      funext n
      rw [← evaluate_setLabel e he label n]
      refine if_pos ?_
      cases e with
      | literal m c => exact (he m c rfl).elim
      | _ => rw [Expr.toPb]; rfl
    have hrelabel : e.relabel label <$> e.eval ρ = e.eval ρ := by
      have hid : e.relabel label = id := by
        funext d
        cases e with
        | literal m c => exact (he m c rfl).elim
        | _ => rfl
      rw [hid, id_map]
    rw [hcreate, hrelabel]
    exact h hs

/-! ## The theorem -/

omit [ProtoText] in
theorem hasComputation_toPb (f : Flow handlers) : hasComputation f.toPb = true := by
  cases f <;> rw [Flow.toPb] <;> rfl

omit [ProtoText] in
theorem setLabel_toPb (f : Flow handlers) : f.toPb.setLabel "" = f.toPb := by
  cases f <;> rw [Flow.toPb] <;> rfl

omit [ProtoText] in
theorem map_fst_localsToPb : ∀ locals : List (String × Expr handlers),
    (Expr.localsToPb locals).map Prod.fst = locals.map Prod.fst
  | [] => by rw [Expr.localsToPb, List.map_nil, List.map_nil]
  | (name, e) :: locals => by rw [Expr.localsToPb, List.map_cons, List.map_cons, map_fst_localsToPb locals]

mutual

/-- **The IR of a function builds what the function means**, in any scope that holds data. By induction on the
function, together with the expressions in it. -/
theorem Flow.builds (hh : handlers.Standard) : ∀ (f : Flow handlers) {scope : Scope} {ρ : Env}
    {s : InlineState}, scope.Reads s ρ → BuildsLabelled handlers scope s f.toPb (f.action ρ)
  | .inline intr hinline, scope, ρ, s, hscope, label => by
      rw [Flow.toPb, Flow.action]
      exact builds_inline hinline
  | .serialChain fns, scope, ρ, s, hscope, label => by
      rw [Flow.toPb, Flow.action]
      exact builds_serialChain hh (Flow.buildsAll hh fns hscope)
  | .breakableChain fns, scope, ρ, s, hscope, label => by
      rw [Flow.toPb, Flow.action]
      exact builds_breakableChain hh (Flow.buildsAll hh fns hscope)
  | .repeatedConditionalChain numSteps fns, scope, ρ, s, hscope, label => by
      rw [Flow.toPb, Flow.action]
      exact builds_repeatedConditionalChain hh numSteps (Flow.buildsAll hh fns hscope)
  | .repeat numSteps body, scope, ρ, s, hscope, label => by
      rw [Flow.toPb, Flow.action]
      exact builds_repeat hh numSteps (Flow.builds hh body hscope)
  | .while condition body, scope, ρ, s, hscope, label => by
      rw [Flow.toPb, Flow.action]
      exact builds_while hh (Flow.builds hh condition hscope) (Flow.builds hh body hscope)
  | .fallback fns, scope, ρ, s, hscope, label => by
      rw [Flow.toPb, Flow.action]
      exact builds_fallback hh (Flow.buildsAll hh fns hscope)
  | .parallelMap mapFn, scope, ρ, s, hscope, label => by
      rw [Flow.toPb, Flow.action]
      -- the static parameter is the function itself, with no label put on it
      exact builds_parallelMap hh (setLabel_toPb mapFn ▸ Flow.builds hh mapFn hscope "")
  | .lambda argName body, scope, ρ, s, hscope, label => by
      rw [Flow.toPb, Flow.action]
      refine builds_lambda fun hs x d hx => ?_
      exact Expr.evaluates hh body ((hscope.of_le hs).cons argName hx) (le_refl _)

theorem Flow.buildsAll (hh : handlers.Standard) : ∀ (fs : List (Flow handlers)) {scope : Scope} {ρ : Env}
    {s : InlineState}, scope.Reads s ρ →
      List.Forall₂ (BuildsLabelled handlers scope s) (Flow.toPbs fs) (Flow.actions fs ρ)
  | [], scope, ρ, s, hscope => by
      rw [Flow.toPbs, Flow.actions]
      exact .nil
  | f :: fs, scope, ρ, s, hscope => by
      rw [Flow.toPbs, Flow.actions]
      exact .cons (Flow.builds hh f hscope) (Flow.buildsAll hh fs hscope)

/-- And the IR of an expression evaluates to what the expression means. -/
theorem Expr.evaluates (hh : handlers.Standard) : ∀ (e : Expr handlers) {scope : Scope} {ρ : Env}
    {s : InlineState}, scope.Reads s ρ → EvaluatesAs handlers scope s e.toPb (e.eval ρ)
  | .literal m c, scope, ρ, s, hscope => by
      rw [Expr.toPb, Expr.eval]
      exact evaluatesAs_literal m c
  | .reference name, scope, ρ, s, hscope => by
      rw [Expr.toPb, Expr.eval]
      exact evaluatesAs_reference hscope {} name
  | .struct es, scope, ρ, s, hscope => by
      rw [Expr.toPb, Expr.eval]
      exact evaluatesAs_struct (fun hs => Expr.evaluatesAll hh es (hscope.of_le hs)) {}
  | .selection source index, scope, ρ, s, hscope => by
      rw [Expr.toPb, Expr.eval]
      exact evaluatesAs_selection (Expr.evaluates hh source hscope) {} index
  | .call fn arg, scope, ρ, s, hscope => by
      rw [Expr.toPb, Expr.eval]
      exact evaluatesAs_call (setLabel_toPb fn ▸ Flow.builds hh fn hscope "") (hasComputation_toPb fn)
        (Expr.evaluates hh arg hscope) {}
  -- the branches are labelled in the static parameter of the intrinsic
  | .conditional condition positiveBranch negativeBranch, scope, ρ, s, hscope => by
      rw [Expr.toPb, Expr.eval]
      exact evaluatesAs_call (builds_conditional hh
        (createsAs_branch (Expr.evaluates hh positiveBranch hscope) "then")
        (createsAs_branch (Expr.evaluates hh negativeBranch hscope) "else")) rfl
        (Expr.evaluates hh condition hscope) {}
  | .block locals result, scope, ρ, s, hscope => by
      rw [Expr.toPb, Expr.eval]
      rw [← map_fst_localsToPb locals]
      exact evaluatesAs_block (fun hs => Expr.evaluatesLocals hh _ locals (hscope.of_le hs))
        (fun hscope' => Expr.evaluates hh result hscope') {}

theorem Expr.evaluatesAll (hh : handlers.Standard) : ∀ (es : List (Expr handlers)) {scope : Scope} {ρ : Env}
    {s : InlineState}, scope.Reads s ρ → Run.Follows (fun s' => List.Forall₂ (ExecutorValue.Reads s'))
      (fun n => evaluateElements ((localExecutor handlers).knot n) (Expr.toPbs es) scope) s (Expr.evalAll es ρ)
  | [], scope, ρ, s, hscope => by
      rw [Expr.toPbs, Expr.evalAll]
      exact .pure .nil
  | e :: es, scope, ρ, s, hscope => by
      rw [Expr.toPbs, Expr.evalAll]
      have hloop : Run.Growing fun n =>
          evaluateElements ((localExecutor handlers).knot n) (Expr.toPbs es) scope :=
        fun _ _ hnm => evaluateElements_le ((localExecutor handlers).knot_le hnm) _ scope
      have hcons : ∀ (v : ExecutorValue) (vs : List ExecutorValue), Run.Growing fun _ : Nat =>
          (pure (v :: vs) : Exec InlineState (List ExecutorValue)) := fun _ _ => .const _
      refine .bind (evaluate_growing e.toPb scope) (fun v => hloop.bind (hcons v))
        (Expr.evaluates hh e hscope (le_refl s)) fun v s₁ d hs₁ hv => ?_
      exact .bind hloop (hcons v) (Expr.evaluatesAll hh es (hscope.of_le hs₁)) fun vs s₂ ds hs₂ hvs =>
        .pure (.cons (hv.of_le hs₂) hvs)

theorem Expr.evaluatesLocals (hh : handlers.Standard) (names : String) :
    ∀ (locals : List (String × Expr handlers)) {scope : Scope} {ρ : Env} {s : InlineState},
      scope.Reads s ρ → Run.Follows (fun s' scope' ρ' => Scope.Reads s' scope' ρ')
        (fun n => evaluateLocals ((localExecutor handlers).knot n) names (Expr.localsToPb locals) scope) s
        (Expr.evalLocals names locals ρ)
  | [], scope, ρ, s, hscope => by
      rw [Expr.localsToPb, Expr.evalLocals]
      exact .pure hscope
  | (name, e) :: locals, scope, ρ, s, hscope => by
      rw [Expr.localsToPb, Expr.evalLocals]
      have hlocals : ∀ v, Run.Growing fun n =>
          evaluateLocals ((localExecutor handlers).knot n) names (Expr.localsToPb locals) ((name, v) :: scope) :=
        fun v _ _ hnm => evaluateLocals_le ((localExecutor handlers).knot_le hnm) names _ _
      refine .bind (fun _ _ hnm => ((localExecutor handlers).evaluate_le hnm e.toPb scope).mapError _) hlocals
        ((Expr.evaluates hh e hscope (le_refl s)).mapError _) fun v s₁ d hs₁ hv => ?_
      exact Expr.evaluatesLocals hh names locals ((hscope.of_le hs₁).cons name hv)

end

end GenC
