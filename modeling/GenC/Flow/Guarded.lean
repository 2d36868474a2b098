import GenC.Flow.Scheduled
import GenC.Lib.Safety

/-!
# Programs that do not crash

A call of an inline intrinsic crashes if its handler reads an element that is not there. In a program all of whose
intrinsics are guarded by their checks, no call does, for the check of an intrinsic comes before its calls. So such
a program returns or fails, unless it goes on forever in a `while`.
-/

namespace GenC

open Lib ControlFlowExecutor

variable [ProtoText] {handlers : IntrinsicHandlerSet}

/-! ## Programs and their intrinsics -/

/-- Whatever the handler of an intrinsic reads, its check has found. -/
def IntrinsicHandlerSet.Guards (handlers : IntrinsicHandlerSet) (intr : Intrinsic) : Prop :=
  ∀ handler, handlers.getHandler intr.uri = .ok handler → handler.GuardsCall intr

section

variable (forever : Prop)

mutual

/-- All inline intrinsics are guarded, and if nothing may go on forever there is no `while`. -/
def Flow.Guarded : Flow handlers → Prop
  | .inline intr _ => handlers.Guards intr
  | .serialChain functionList => Flow.AllGuarded functionList
  | .breakableChain fnsList => Flow.AllGuarded fnsList
  | .repeatedConditionalChain _ bodyFns => Flow.AllGuarded bodyFns
  | .repeat _ bodyFn => bodyFn.Guarded
  | .while conditionFn bodyFn => forever ∧ conditionFn.Guarded ∧ bodyFn.Guarded
  | .fallback functionList => Flow.AllGuarded functionList
  | .parallelMap mapFn => mapFn.Guarded
  | .lambda _ body => body.Guarded

def Flow.AllGuarded : List (Flow handlers) → Prop
  | [] => True
  | f :: fs => f.Guarded ∧ Flow.AllGuarded fs

def Expr.Guarded : Expr handlers → Prop
  | .literal _ _ => True
  | .reference _ => True
  | .struct valueList => Expr.AllGuarded valueList
  | .selection source _ => source.Guarded
  | .call fn arg => fn.Guarded ∧ arg.Guarded
  | .conditional condition positiveBranch negativeBranch =>
      condition.Guarded ∧ positiveBranch.Guarded ∧ negativeBranch.Guarded
  | .block locals result => Expr.LocalsGuarded locals ∧ result.Guarded

def Expr.AllGuarded : List (Expr handlers) → Prop
  | [] => True
  | e :: es => e.Guarded ∧ Expr.AllGuarded es

def Expr.LocalsGuarded : List (String × Expr handlers) → Prop
  | [] => True
  | (_, e) :: locals => e.Guarded ∧ Expr.LocalsGuarded locals

end

end

/-! ## Actions -/

/-- Once the action could be created, its calls are safe. -/
structure Action.Safe (forever : Prop) (a : Action) : Prop where
  create : a.create.Safe forever
  call : Run.Finally a.create.run () () () → ∀ d, (a.call d).Safe forever

omit [ProtoText] in
theorem Checked.meaning_safe {forever : Prop} {α : Type} {c : Checked α} (h : c ≠ none) : c.meaning.Safe forever := by
  cases c with
  | none => exact (h rfl).elim
  | some r => exact .ofExcept r

omit [ProtoText] in
theorem Datum.shown_safe {forever : Prop} (d : Datum) : d.shown.Safe forever := .ofExcept d.outcome

namespace Action

/-! ### Sequences -/

variable {forever : Prop} {a condition body : Action} {as : List Action}

omit [ProtoText] in
theorem Safe.apply (h : a.Safe forever) (d : Datum) : (a.apply d).Safe forever :=
  h.create.bind fun _ hcreate => h.call hcreate d

section

variable (h : ∀ a ∈ as, a.Safe forever)

include h

omit [ProtoText] in
theorem createAll_safe : (createAll as).Safe forever := by
  induction as with
  | nil => exact .pure ()
  | cons a as ih =>
      apply (h a List.mem_cons_self).create.bind
      intro _ _
      exact ih fun a ha => h a (List.mem_cons_of_mem _ ha)

omit [ProtoText] in
theorem serial_safe (d : Datum) : (serial as d).Safe forever := by
  induction as generalizing d with
  | nil => exact .pure d
  | cons a as ih =>
      apply ((h a List.mem_cons_self).apply d).bind
      intro r _
      exact ih (fun a ha => h a (List.mem_cons_of_mem _ ha)) r

omit [ProtoText] in
theorem breakable_safe (d : Datum) : (breakable as d).Safe forever := by
  induction as generalizing d with
  | nil => exact .pure d
  | cons a as ih =>
      have ih := ih fun a ha => h a (List.mem_cons_of_mem _ ha)
      refine ((h a List.mem_cons_self).apply d).bind fun r _ => r.shown_safe.bind fun pb _ => ?_
      rcases pb.boolean? with _ | _ | _
      · exact ih r
      · exact ih d
      · exact .pure d

omit [ProtoText] in
theorem firstOf_safe (e : Status) (d : Datum) : (firstOf e as d).Safe forever := by
  induction as generalizing e with
  | nil => exact .throw e
  | cons a as ih =>
      have hanswer : (a.answer d).Safe forever :=
        ((h a List.mem_cons_self).apply d).bind fun r _ => r.shown_safe.bind fun _ _ => .pure r
      exact hanswer.handle (fun r => .pure r) (ih fun a ha => h a (List.mem_cons_of_mem _ ha))

end

omit [ProtoText] in
/-- Each of them was created. -/
theorem finally_of_createAll (h : Run.Finally (createAll as).run () () ()) :
    ∀ a ∈ as, Run.Finally a.create.run () () () := by
  induction as with
  | nil => exact fun a ha => (List.not_mem_nil ha).elim
  | cons a as ih =>
      have hgrowing : ∀ _ : Unit, Run.Growing fun n => (createAll as).run n := fun _ => (createAll as).growing
      obtain ⟨_, _, ha, has⟩ := (Run.finally_bind_iff a.create.growing hgrowing).mp h
      exact List.forall_mem_cons.mpr ⟨ha, ih has⟩

section

variable (h : ∀ a ∈ as, ∀ d, (a.call d).Safe forever)

include h

/-! ### Rounds and loops -/

omit [ProtoText] in
theorem round_safe (d : Datum) : (round as d).Safe forever := by
  induction as generalizing d with
  | nil => exact .pure (d, false)
  | cons a as ih =>
      have ih := ih fun a ha => h a (List.mem_cons_of_mem _ ha)
      refine (h a List.mem_cons_self d).bind fun r _ => r.shown_safe.bind fun pb _ => ?_
      rcases pb.boolean? with _ | _ | _
      · exact ih _
      · exact ih d
      · exact .pure (d, true)

omit [ProtoText] in
theorem rounds_safe (n : Nat) (d : Datum) : (rounds as n d).Safe forever := by
  induction n generalizing d with
  | zero => exact .pure d
  | succ n ih =>
      apply (round_safe h d).bind
      intro p _
      split
      · exact .pure p.1
      · exact ih p.1

end

omit [ProtoText] in
theorem iterate_safe (h : ∀ d, (a.call d).Safe forever) (n : Nat) (d : Datum) : (a.iterate n d).Safe forever := by
  induction n generalizing d with
  | zero => exact .pure d
  | succ n ih => exact (h d).bind fun r _ => ih r

omit [ProtoText] in
theorem mapOver_safe (h : ∀ d, (a.call d).Safe forever) (es : List Value) : (a.mapOver es).Safe forever := by
  induction es with
  | nil => exact .pure []
  | cons e es ih => exact (h _).bind fun r _ => ih.bind fun rs _ => .pure (r :: rs)

omit [ProtoText] in
theorem Safe.parallel (h : a.Safe forever) (d : Datum) : (a.parallel d).Safe forever := by
  refine d.shown_safe.bind fun args _ => h.create.bind fun _ hcreate => ?_
  exact (mapOver_safe (h.call hcreate) args.elements).bind fun rs _ => .pure _

/-- The only thing that may go on forever. -/
theorem whileDo_safe (hforever : forever) (hcondition : ∀ d, (condition.call d).Safe forever)
    (hbody : ∀ d, (body.call d).Safe forever) (d : Datum) : (whileDo condition body d).Safe forever := by
  refine .loop hforever (fun d => ?_) d
  refine (hcondition d).bind fun r _ => r.shown_safe.bind fun pb _ => ?_
  rcases pb.boolean? with _ | _ | _
  · exact .throw _
  · exact .pure _
  · exact (hbody d).bind fun d _ => .pure _

/-! ### Inline intrinsics -/

variable {intr : Intrinsic}

/-- The check of an intrinsic, and what holds of its calls once it has passed. -/
theorem inline_safe (hinline : handlers.Inline intr) (hguards : handlers.Guards intr) :
    (inline handlers intr).Safe forever := by
  rcases hget : handlers.getHandler intr.uri with e | handler
  · have hcreate : (inline handlers intr).create = .throw e := by
      simp only [inline, hget, Behavior.ofExcept_error, Behavior.throw_bind]
    refine ⟨hcreate ▸ .throw e, fun h => ?_⟩
    rw [hcreate] at h
    exact (Run.not_finally_throw h).elim
  obtain ⟨interface, hinterface, -⟩ := hinline handler hget
  have hcreate : (inline handlers intr).create = (interface.checkWellFormed intr).meaning := by
    simp only [inline, hget, Behavior.ofExcept_ok, pure_bind, IntrinsicHandler.checkWellFormed, hinterface]
  have hguards : interface.GuardsCall intr := by
    have hhandler := hguards handler hget
    rwa [IntrinsicHandler.GuardsCall, hinterface] at hhandler
  refine ⟨hcreate ▸ Checked.meaning_safe hguards.1, fun h d => ?_⟩
  -- the intrinsic could be created, so its check has passed
  have hok : interface.checkWellFormed intr = some (.ok ()) := by
    rw [hcreate] at h
    rcases hcheck : interface.checkWellFormed intr with _ | e | _
    · exact (hguards.1 hcheck).elim
    · rw [hcheck] at h
      exact (Run.not_finally_throw h).elim
    · rfl
  -- an argument that is an error is passed on without calling the handler
  rcases ho : d.outcome with e | arg
  · rw [inline_call_error ho]
    exact .pure _
  · rw [inline_call hget hinterface ho]
    exact (Checked.meaning_safe (hguards.2 hok arg)).attempt.bind fun r _ => .pure _

end Action

/-! ## Programs -/

section

variable {forever : Prop}

omit [ProtoText] in
theorem Flow.chainCreate_safe (fns : List (Flow handlers)) : (Flow.chainCreate fns).Safe forever := by
  unfold Flow.chainCreate
  split
  · exact .throw _
  · exact .pure ()

theorem Flow.roundsCreate_safe (numSteps : Int32) (fns : List (Flow handlers)) :
    (Flow.roundsCreate numSteps fns).Safe forever := by
  unfold Flow.roundsCreate
  split
  · exact .throw _
  · exact .pure ()

theorem Datum.select_safe (d : Datum) (index : UInt32) : (d.select index).Safe forever := by
  unfold Datum.select
  split
  · exact .pure _
  · split
    · exact .pure _
    · exact .throw _

/-! ### Every program -/

mutual

theorem Flow.action_safe : ∀ (f : Flow handlers) (ρ : Env), f.Guarded forever → (f.action ρ).Safe forever
  | .inline intr hinline, ρ, h => by
      rw [Flow.Guarded] at h
      rw [Flow.action]
      exact Action.inline_safe hinline h
  | .serialChain functionList, ρ, h => by
      rw [Flow.Guarded] at h
      rw [Flow.action]
      exact ⟨Flow.chainCreate_safe _, fun _ => Action.serial_safe (Flow.actions_safe functionList ρ h)⟩
  | .breakableChain fnsList, ρ, h => by
      rw [Flow.Guarded] at h
      rw [Flow.action]
      exact ⟨Flow.chainCreate_safe _, fun _ => Action.breakable_safe (Flow.actions_safe fnsList ρ h)⟩
  | .repeatedConditionalChain numSteps bodyFns, ρ, h => by
      rw [Flow.Guarded] at h
      rw [Flow.action]
      have hbody := Flow.actions_safe bodyFns ρ h
      refine ⟨Flow.roundsCreate_safe _ _, fun _ d => (Action.createAll_safe hbody).bind fun _ hcreated => ?_⟩
      exact Action.rounds_safe (fun a ha => (hbody a ha).call (Action.finally_of_createAll hcreated a ha)) _ d
  | .repeat numSteps bodyFn, ρ, h => by
      rw [Flow.Guarded] at h
      rw [Flow.action]
      have hbody := Flow.action_safe bodyFn ρ h
      refine ⟨.pure (), fun _ d => hbody.create.bind fun _ hcreated => ?_⟩
      exact Action.iterate_safe (hbody.call hcreated) _ d
  | .while conditionFn bodyFn, ρ, h => by
      rw [Flow.Guarded] at h
      rw [Flow.action]
      -- there is a `while`, so something may go on forever
      have hcondition := Flow.action_safe conditionFn ρ h.2.1
      have hbody := Flow.action_safe bodyFn ρ h.2.2
      refine ⟨.pure (), fun _ d => hcondition.create.bind fun _ hc => hbody.create.bind fun _ hb => ?_⟩
      exact Action.whileDo_safe h.1 (hcondition.call hc) (hbody.call hb) d
  | .fallback functionList, ρ, h => by
      rw [Flow.Guarded] at h
      rw [Flow.action]
      exact ⟨.pure (), fun _ => Action.firstOf_safe (Flow.actions_safe functionList ρ h) _⟩
  | .parallelMap mapFn, ρ, h => by
      rw [Flow.Guarded] at h
      rw [Flow.action]
      exact ⟨.pure (), fun _ => (Flow.action_safe mapFn ρ h).parallel⟩
  | .lambda argName body, ρ, h => by
      rw [Flow.Guarded] at h
      rw [Flow.action]
      exact ⟨.pure (), fun _ d => Expr.eval_safe body _ h⟩

theorem Flow.actions_safe : ∀ (fs : List (Flow handlers)) (ρ : Env), Flow.AllGuarded forever fs →
    ∀ a ∈ Flow.actions fs ρ, a.Safe forever
  | [], ρ, _ => by
      rw [Flow.actions]
      exact fun a ha => (List.not_mem_nil ha).elim
  | f :: fs, ρ, h => by
      rw [Flow.AllGuarded] at h
      rw [Flow.actions]
      exact List.forall_mem_cons.mpr ⟨Flow.action_safe f ρ h.1, Flow.actions_safe fs ρ h.2⟩

theorem Expr.eval_safe : ∀ (e : Expr handlers) (ρ : Env), e.Guarded forever → (e.eval ρ).Safe forever
  | .literal m c, ρ, _ => by
      rw [Expr.eval]
      exact .pure _
  | .reference name, ρ, _ => by
      rw [Expr.eval]
      exact (Behavior.Safe.ofExcept _).mapError _
  | .struct valueList, ρ, h => by
      rw [Expr.Guarded] at h
      rw [Expr.eval]
      exact (Expr.evalAll_safe valueList ρ h).bind fun ds _ => .pure _
  | .selection source index, ρ, h => by
      rw [Expr.Guarded] at h
      rw [Expr.eval]
      exact (Expr.eval_safe source ρ h).bind fun d _ => d.select_safe _
  -- the function is called only where it could be created
  | .call fn arg, ρ, h => by
      rw [Expr.Guarded] at h
      rw [Expr.eval]
      have hfn := Flow.action_safe fn ρ h.1
      exact hfn.create.bind fun _ hcreated => (Expr.eval_safe arg ρ h.2).bind fun d _ => hfn.call hcreated d
  | .conditional condition positiveBranch negativeBranch, ρ, h => by
      rw [Expr.Guarded] at h
      rw [Expr.eval]
      refine (Expr.eval_safe condition ρ h.1).bind fun d _ => d.shown_safe.bind fun condPb _ => ?_
      -- a condition that is no Boolean fails, and otherwise one branch is taken
      rcases condPb.boolean? with _ | _ | _
      · exact .throw _
      · exact (Expr.eval_safe negativeBranch ρ h.2.2).map _
      · exact (Expr.eval_safe positiveBranch ρ h.2.1).map _
  | .block locals result, ρ, h => by
      rw [Expr.Guarded] at h
      rw [Expr.eval]
      exact (Expr.evalLocals_safe _ locals ρ h.1).bind fun ρ' _ => Expr.eval_safe result ρ' h.2

theorem Expr.evalAll_safe : ∀ (es : List (Expr handlers)) (ρ : Env), Expr.AllGuarded forever es →
    (Expr.evalAll es ρ).Safe forever
  | [], ρ, _ => by
      rw [Expr.evalAll]
      exact .pure []
  | e :: es, ρ, h => by
      rw [Expr.AllGuarded] at h
      rw [Expr.evalAll]
      exact (Expr.eval_safe e ρ h.1).bind fun d _ => (Expr.evalAll_safe es ρ h.2).bind fun ds _ => .pure _

theorem Expr.evalLocals_safe (names : String) : ∀ (locals : List (String × Expr handlers)) (ρ : Env),
    Expr.LocalsGuarded forever locals → (Expr.evalLocals names locals ρ).Safe forever
  | [], ρ, _ => by
      rw [Expr.evalLocals]
      exact .pure ρ
  | (name, e) :: locals, ρ, h => by
      rw [Expr.LocalsGuarded] at h
      rw [Expr.evalLocals]
      exact ((Expr.eval_safe e ρ h.1).mapError _).bind fun d _ => Expr.evalLocals_safe names locals _ h.2

end

theorem Flow.run_safe {f : Flow handlers} (h : f.Guarded forever) (arg : Value) : (f.run arg).Safe forever := by
  have hf := Flow.action_safe f [] h
  exact hf.create.bind fun _ hcreated => (hf.call hcreated _).bind fun d _ => d.shown_safe

theorem Flow.runAll_safe {programs : List (Flow handlers × Value)}
    (h : ∀ program ∈ programs, program.1.Guarded forever) : (Flow.runAll programs).Safe forever := by
  induction programs with
  | nil => exact .pure []
  | cons program programs ih =>
      have hprogram := Flow.run_safe (h program List.mem_cons_self) program.2
      refine hprogram.attempt.bind fun result _ => ?_
      exact (ih fun p hp => h p (List.mem_cons_of_mem _ hp)).bind fun results _ => .pure _

/-! ## Runs -/

/-- Each run is attempted. -/
theorem Flow.runAll_not_fails (programs : List (Flow handlers × Value)) (e : Status) :
    ¬ Run.FinallyFails (Flow.runAll programs).run () e () := by
  induction programs with
  | nil => exact Run.not_finallyFails_pure
  | cons program programs ih =>
      intro he
      have hresults : ∀ result : StatusOr Value, Run.Growing fun n =>
          (Flow.runAll programs >>= fun results => pure (result :: results)).run n :=
        fun result => (Flow.runAll programs >>= fun results => pure (result :: results)).growing
      rcases (Run.finallyFails_bind_iff (program.1.run program.2).attempt.growing hresults).mp he with
        he | ⟨result, _, _, he⟩
      · exact Run.not_finallyFails_attempt he
      · rcases (Run.finallyFails_bind_iff (Flow.runAll programs).growing fun results =>
          (pure (result :: results) : Meaning (List (StatusOr Value))).growing).mp he with he | ⟨results, _, _, he⟩
        · exact ih he
        · exact Run.not_finallyFails_pure he

end

/-! ## The complete handler set -/

section

variable {config : HandlerSetConfig} {libraries : InlineLibraries}

/-- The intrinsics that are guarded: those of the built-in inline handlers, if the static parameter has the elements
that two of them read without asking. -/
theorem completeHandlerSet_guards (hextends : config.Extends) {intr : Intrinsic} (hbuiltin : intr.uri ∈ inlineUris)
    (hsuffice : ElementsSuffice config intr.uri intr) : (completeHandlerSet config libraries).Guards intr := by
  have hfront : ∀ handler ∈ config.customIntrinsicsList, handler.uri ≠ intr.uri :=
    fun handler hmem heq => hextends.inline handler hmem (heq ▸ hbuiltin)
  intro handler hget
  rw [getHandler_completeHandlerSet hfront] at hget
  have hmem := IntrinsicHandlerSet.mem_of_getHandler hget
  rw [← IntrinsicHandlerSet.uri_of_getHandler hget] at hsuffice
  rcases List.mem_append.mp hmem with hinline | hcontrol
  · obtain ⟨p, hp, rfl⟩ := List.mem_map.mp hinline
    exact (InlineHandler.guardsCall_iff_suffice config libraries intr p hp).mpr hsuffice
  · obtain ⟨h, hh, rfl⟩ := List.mem_map.mp hcontrol
    exact (ControlFlowHandler.guardsCall_iff_suffice config intr h hh).mpr hsuffice

omit [ProtoText] in
theorem negation_guarded :
    let _ := ProtoText.silent
    Flow.negation.Guarded False := by
  intro _
  have hsuffice : ElementsSuffice .empty "logical_not" ⟨"logical_not", none⟩ :=
    .of_ne _ (by decide) (by decide) (by decide)
  rw [Flow.negation, Flow.Guarded]
  refine ⟨?_, ?_, trivial⟩
  · rw [Flow.Guarded]
    exact completeHandlerSet_guards HandlerSetConfig.empty_extends (by decide) hsuffice
  · rw [Flow.Guarded, Expr.Guarded]
    trivial

end

end GenC
