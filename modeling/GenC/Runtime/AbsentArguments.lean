import GenC.Runtime.ControlFlowExecutor

/-!
# Calls without an argument

Which steps of the runtime can end the process. A `Call` node need not have an argument, and neither
need the executor's `CreateCall`; the handlers are called all the same. `Conditional` asks whether
its argument is there and `Fallback` passes it on unread, but six handlers read it regardless, and
`Delegate` writes through an optional that it never engages.

`ControlFlowHandler.ReadsAbsent` says of a call, from the intrinsic, the argument and the state it is made
in, whether it comes to that, and `Event.Fault` says of an intrinsic whether the handler reads a static
parameter that is too short. Such a call and such an event do end the process, and the rest of the
module shows that nothing else does: every function of the two executors is `Guarded`, as long as the calls
that it makes are not of the first kind. A handler also relies on its intrinsic having passed
`CheckWellFormed`, so the evaluator's values are shown to stay `Checked` along the way.
-/

namespace GenC

open Lib

/-! ## Faults -/

namespace ControlFlowHandler

/-- `environment_name` of `Delegate`. -/
def environmentName (intr : Intrinsic) : String :=
  (intr.parameter.elements[0]?.getD Value.defaultInstance).str

/-- Every element that the handler reads of its static parameter is there. -/
def HasElements (handler : ControlFlowHandler) (intr : Intrinsic) : Prop :=
  match handler with
  | .repeat | .while | .conditional => 2 ≤ intr.parameter.elements.length
  | .repeatedConditionalChain => 1 ≤ intr.parameter.elements.length
  | .delegate runnerMap => 1 ≤ intr.parameter.elements.length ∧
      ((runnerMap (environmentName intr)).isSome → 2 ≤ intr.parameter.elements.length)
  | .breakableChain | .serialChain | .parallelMap | .fallback => True

/-- The functions that a handler creates before it looks at its argument. -/
def functionsFirst (handler : ControlFlowHandler) (intr : Intrinsic) : List Value :=
  match handler with
  | .repeat => (intr.parameter.elements.drop 1).take 1
  | .while => intr.parameter.elements.take 2
  | .repeatedConditionalChain => intr.parameter.elements.drop 1
  | _ => []

/-- A call, made in the state `s`, that comes to read an optional which is not there. For most handlers
that is a call without an argument, if the functions that come first can be created. For `Delegate` it is
one with an argument, if there is a runner and the argument materializes. -/
def ReadsAbsent {σ V : Type} (ctx : Context σ V) (handler : ControlFlowHandler) (intr : Intrinsic)
    (arg : Option V) (s : σ) : Prop :=
  handler.HasElements intr ∧
    match handler, arg with
    | .conditional, _ | .fallback, _ | .delegate _, none => False
    | .delegate runnerMap, some arg =>
        (runnerMap (environmentName intr)).isSome ∧ (ctx.materializeValue arg s).2.isOk
    | _, none => (ctx.createValues (handler.functionsFirst intr) s).2.isOk
    | _, some _ => False

instance (handler : ControlFlowHandler) (intr : Intrinsic) : Decidable (handler.HasElements intr) :=
  match handler with
  | .repeat | .while | .conditional => inferInstanceAs (Decidable (2 ≤ intr.parameter.elements.length))
  | .repeatedConditionalChain => inferInstanceAs (Decidable (1 ≤ intr.parameter.elements.length))
  | .delegate runnerMap => inferInstanceAs (Decidable (1 ≤ intr.parameter.elements.length ∧
      ((runnerMap (environmentName intr)).isSome → 2 ≤ intr.parameter.elements.length)))
  | .breakableChain | .serialChain | .parallelMap | .fallback => isTrue trivial

instance {σ V : Type} (ctx : Context σ V) (handler : ControlFlowHandler) (intr : Intrinsic)
    (arg : Option V) (s : σ) : Decidable (ReadsAbsent ctx handler intr arg s) :=
  have hfirst : Decidable (handler.HasElements intr ∧
      (ctx.createValues (handler.functionsFirst intr) s).2.isOk = true) := inferInstance
  match handler, arg with
  | .delegate runnerMap, some arg =>
      inferInstanceAs (Decidable ((delegate runnerMap).HasElements intr ∧
        (runnerMap (environmentName intr)).isSome ∧ (ctx.materializeValue arg s).2.isOk))
  | .conditional, _ | .fallback, _ | .delegate _, none => isFalse And.right
  | .repeat, some _ | .while, some _ | .repeatedConditionalChain, some _ => isFalse And.right
  | .serialChain, some _ | .breakableChain, some _ | .parallelMap, some _ => isFalse And.right
  | .repeat, none | .while, none | .repeatedConditionalChain, none => hfirst
  | .serialChain, none | .breakableChain, none | .parallelMap, none => hfirst

/-- An intrinsic that passes the check of its handler, and lacks an element that a call of the handler
reads: `Delegate` alone is not protected by its own `CheckWellFormed`. -/
def ReadsMissing (handler : ControlFlowHandler) (intr : Intrinsic) : Prop :=
  match handler with
  | .delegate runnerMap =>
      (runnerMap (environmentName intr)).isSome ∧ intr.parameter.elements.length < 2
  | _ => False

end ControlFlowHandler

/-- The events that lead to reading an element of a static parameter which is not there: a check of a
struct without elements, for two of the intrinsics; a call of `Delegate` without a function to delegate;
and a POST without a key. -/
def Event.Fault : Event → Crash → Prop
  | .checkWellFormed _ intr, .missingElement =>
      (intr.uri = "delegate" ∨ intr.uri = "model_inference_with_config") ∧
        intr.parameter.hasStruct ∧ intr.parameter.elements = []
  | .inlineCall _ intr _, .missingElement =>
      intr.uri = "rest_call" ∧
        ∃ method url, intr.parameter.elements = [method, url] ∧ method.str = "POST"
  | .controlFlowCall handler intr _, .missingElement => handler.ReadsMissing intr
  | _, _ => False

/-- The handler reads a missing element of the intrinsic exactly when `Event.Fault` says so. -/
structure IntrinsicHandler.Accounted [ProtoText] (handler : IntrinsicHandler) (intr : Intrinsic) : Prop where
  checkWellFormed :
    handler.checkWellFormed intr = none ↔ (Event.checkWellFormed handler intr).Fault .missingElement
  executeCall : ∀ {interface}, handler.interface = .inline interface →
    handler.checkWellFormed intr = some (.ok ()) → ∀ arg,
      (interface.executeCall intr arg = none ↔ (Event.inlineCall interface intr arg).Fault .missingElement)

def IntrinsicHandlerSet.Accounted [ProtoText] (handlers : IntrinsicHandlerSet) : Prop :=
  ∀ ⦃intr handler⦄, handlers.getHandler intr.uri = .ok handler → handler.Accounted intr

/-! ## Handlers -/

section Handlers

variable {σ V : Type}

/-- What a handler may expect of its context: the operations crash only by a fault, and preserve
what is `good` about values. -/
structure Context.Guards (I : σ → Prop) (allowed : Crash → Prop) (good : V → Prop)
    (ctx : Context σ V) : Prop where
  createValue : ∀ v, Run.Guarded I Event.Fault allowed (ctx.createValue v) good
  createCall : ∀ f a, good f → (∀ v ∈ a, good v) →
    Run.Guarded I Event.Fault allowed (ctx.createCall f a) good
  createStruct : ∀ vs, (∀ v ∈ vs, good v) →
    Run.Guarded I Event.Fault allowed (ctx.createStruct vs) good
  materialize : ∀ v pb, good v →
    Run.Guarded I Event.Fault allowed (ctx.materialize v pb) fun _ => True

variable {I : σ → Prop} {allowed : Crash → Prop} {good : V → Prop} {ctx : Context σ V}

namespace Context.Guards

theorem allow (h : ctx.Guards I allowed good) {allowed' : Crash → Prop}
    (ha : ∀ k, allowed k → allowed' k) : ctx.Guards I allowed' good where
  createValue v := (h.createValue v).allow ha
  createCall f a hf hv := (h.createCall f a hf hv).allow ha
  createStruct vs hvs := (h.createStruct vs hvs).allow ha
  materialize v pb hv := (h.materialize v pb hv).allow ha

theorem materializeValue (h : ctx.Guards I allowed good) {v : V} (hv : good v) :
    Run.Guarded I Event.Fault allowed (ctx.materializeValue v) fun _ => True :=
  (h.materialize v _ hv).bind fun r _ => by
    unfold MaterializeResult.get
    cases r.status with
    | ok => exact .pure trivial
    | error e => exact .throw e

theorem createValues (h : ctx.Guards I allowed good) : ∀ vs : List Value,
    Run.Guarded I Event.Fault allowed (ctx.createValues vs) fun rs => ∀ r ∈ rs, good r
  | [] => .pure (by simp)
  | v :: vs => (h.createValue v).bind fun r hr => (createValues h vs).bind fun rs hrs =>
      .pure (by simpa using ⟨hr, hrs⟩)

end Context.Guards

theorem elementAt_returns {es : List Value} {i : Nat} {v : Value} (h : es[i]? = some v) (s : σ) :
    Run.Returns (elementAt es i) s v s := by
  rw [elementAt, h]
  exact .pure v s

theorem getElem?_of_elementAt {es : List Value} {i : Nat} {v : Value} {s s' : σ}
    (h : Run.Returns (elementAt es i) s v s') : es[i]? = some v ∧ s' = s := by
  unfold elementAt at h
  cases hi : es[i]? with
  | none =>
      rw [hi] at h
      obtain ⟨_, h⟩ := h
      cases h
  | some w =>
      rw [hi] at h
      obtain ⟨rfl, rfl⟩ := h.unique (.pure w s)
      exact ⟨rfl, rfl⟩

theorem elementAt_guarded {es : List Value} {i : Nat}
    (h : es.length ≤ i → allowed .missingElement) :
    Run.Guarded I Event.Fault allowed (elementAt es i) fun v => es[i]? = some v := by
  unfold elementAt
  cases hi : es[i]? with
  | none => exact .crash (h (List.getElem?_eq_none_iff.mp hi))
  | some v => exact .pure rfl

namespace ControlFlowHandler

/-! ### Loops -/

section Loops

variable (hctx : ctx.Guards I allowed good)
include hctx

theorem repeatLoop_guarded {bodyFn : V} (hfn : good bodyFn) : ∀ (n : Nat) (state : V), good state →
    Run.Guarded I Event.Fault allowed (repeatLoop ctx bodyFn n state) good
  | 0, _, hs => .pure hs
  | n + 1, state, hs =>
      (hctx.createCall bodyFn (some state) hfn (by simpa using hs)).bind
        (repeatLoop_guarded hfn n)

theorem whileLoop_guarded [ProtoText] {conditionFn bodyFn : V} (hcond : good conditionFn)
    (hbody : good bodyFn) : ∀ (fuel : Nat) (state : V), good state →
    Run.Guarded I Event.Fault allowed (whileLoop ctx conditionFn bodyFn fuel state) good
  | 0, _, _ => .outOfFuel
  | fuel + 1, state, hs => by
      refine (hctx.createCall conditionFn (some state) hcond (by simpa using hs)).bind
        fun conditionVal hval => (hctx.materializeValue hval).bind fun condPb _ => ?_
      rcases condPb.boolean? with _ | _ | _
      · exact .throw _
      · exact .pure hs
      · exact (hctx.createCall bodyFn (some state) hbody (by simpa using hs)).bind
          (whileLoop_guarded hcond hbody fuel)

theorem serialChainLoop_guarded : ∀ (fns : List Value) (state : V), good state →
    Run.Guarded I Event.Fault allowed (serialChainLoop ctx fns state) good
  | [], _, hs => .pure hs
  | fn :: fns, state, hs => (hctx.createValue fn).bind fun fnRef hfn =>
      (hctx.createCall fnRef (some state) hfn (by simpa using hs)).bind
        (serialChainLoop_guarded fns)

theorem breakableChainLoop_guarded : ∀ (fns : List Value) (state : V), good state →
    Run.Guarded I Event.Fault allowed (breakableChainLoop ctx fns state) good
  | [], _, hs => .pure hs
  | fn :: fns, state, hs => by
      refine (hctx.createValue fn).bind fun fnRef hfn =>
        (hctx.createCall fnRef (some state) hfn (by simpa using hs)).bind fun nextState hnext =>
          (hctx.materializeValue hnext).bind fun pb _ => ?_
      rcases pb.boolean? with _ | _ | _
      · exact breakableChainLoop_guarded fns nextState hnext
      · exact breakableChainLoop_guarded fns state hs
      · exact .pure hs

theorem conditionalRound_guarded : ∀ (bodyFns : List V) (state : V), (∀ f ∈ bodyFns, good f) →
    good state → Run.Guarded I Event.Fault allowed (conditionalRound ctx bodyFns state)
      fun r => good r.1
  | [], _, _, hs => .pure hs
  | bodyFn :: bodyFns, state, hfns, hs => by
      obtain ⟨hfn, hfns⟩ := List.forall_mem_cons.mp hfns
      refine (hctx.createCall bodyFn (some state) hfn (by simpa using hs)).bind fun fnVal hval =>
        (hctx.materializeValue hval).bind fun pb _ => ?_
      rcases pb.boolean? with _ | _ | _
      · exact (hctx.createValue pb).bind fun state hs => conditionalRound_guarded bodyFns state hfns hs
      · exact conditionalRound_guarded bodyFns state hfns hs
      · exact .pure hs

theorem conditionalRounds_guarded {bodyFns : List V} (hfns : ∀ f ∈ bodyFns, good f) :
    ∀ (n : Nat) (state : V), good state →
      Run.Guarded I Event.Fault allowed (conditionalRounds ctx bodyFns n state) good
  | 0, _, hs => .pure hs
  | n + 1, state, hs => by
      refine (conditionalRound_guarded hctx bodyFns state hfns hs).bind
        fun (state, shouldBreak) hs => ?_
      cases shouldBreak with
      | true => exact .pure hs
      | false => exact conditionalRounds_guarded hfns n state hs

theorem parallelMapLoop_guarded {fnVal : V} (hfn : good fnVal) : ∀ es : List Value,
    Run.Guarded I Event.Fault allowed (parallelMapLoop ctx fnVal es) fun rs => ∀ r ∈ rs, good r
  | [] => .pure (by simp)
  | e :: es => (hctx.createValue e).bind fun argVal harg =>
      (hctx.createCall fnVal (some argVal) hfn (by simpa using harg)).bind fun r hr =>
        (parallelMapLoop_guarded hfn es).bind fun rs hrs => .pure (by simpa using ⟨hr, hrs⟩)

theorem fallbackLoop_guarded {arg : Option V} (harg : ∀ v ∈ arg, good v) :
    ∀ (fns : List Value) (e : Status),
      Run.Guarded I Event.Fault allowed (fallbackLoop ctx arg e fns) good
  | [], e => .throw e
  | fnPb :: fns, _ => by
      refine (hctx.createValue fnPb).attempt.bind fun r hfn => ?_
      rcases r with e | fn
      · exact fallbackLoop_guarded harg fns e
      refine (hctx.createCall fn arg (hfn fn rfl) harg).attempt.bind fun r hres => ?_
      rcases r with e | result
      · exact fallbackLoop_guarded harg fns e
      refine (hctx.materialize result none (hres result rfl)).bind fun r _ => ?_
      rcases r.status with e | ⟨⟩
      · exact fallbackLoop_guarded harg fns e
      · exact .pure (hres result rfl)

/-- `Delegate` called in a way that reads no absent optional: without an argument, or with one that does
not come to be written. -/
theorem delegateExecuteCall_guardedAt {runnerMap : RunnerMap} {intr : Intrinsic} {arg : Option V}
    (harg : ∀ v ∈ arg, good v) (hlen : 1 ≤ intr.parameter.elements.length)
    (hmiss : (delegate runnerMap).ReadsMissing intr → allowed .missingElement) {s : σ} (hs : I s)
    (habs : ¬ReadsAbsent ctx (delegate runnerMap) intr arg s) :
    Run.GuardedAt I Event.Fault allowed (delegateExecuteCall ctx runnerMap intr arg) good s := by
  have hname : Run.Guarded I Event.Fault allowed (elementAt intr.parameter.elements 0) fun name =>
      intr.parameter.elements[0]? = some name := elementAt_guarded fun h => by omega
  refine (hname s hs).bind fun name s₀ hret hname hs₀ => ?_
  obtain rfl := (getElem?_of_elementAt hret).2
  have henv : name.str = environmentName intr := by rw [environmentName, hname, Option.getD_some]
  dsimp only
  rw [henv]
  cases hr : runnerMap (environmentName intr) with
  | none => exact Run.Guarded.throw _ s₀ hs₀
  | some runnerFn =>
      have hsome : (runnerMap (environmentName intr)).isSome = true := by rw [hr]; rfl
      refine (elementAt_guarded (fun h => hmiss ⟨hsome, Nat.lt_succ_of_le h⟩) s₀ hs₀).bind
        fun funcPb s₁ hret hfunc hs₁ => ?_
      obtain rfl := (getElem?_of_elementAt hret).2
      cases arg with
      | none =>
          refine Run.Guarded.bind (Q := fun _ => True) (.pure trivial) (fun optionalArgPb _ => ?_) s₁ hs₁
          refine fun s hs => .tell_bind (fun k hk => hk.elim) ?_
          exact (Run.Guarded.ofExcept fun _ _ => trivial).bind (fun resultPb _ =>
            (hctx.createValue resultPb).allow fun _ => .inl) s hs
      | some arg =>
          -- if the argument materialized, it would be written through the optional
          have hends : ((ctx.materializeValue arg) s₁).2.isOk ≠ true := by
            intro hok
            have htwo : 2 ≤ intr.parameter.elements.length := (List.getElem?_eq_some_iff.mp hfunc).1
            exact habs ⟨⟨hlen, fun _ => htwo⟩, hsome, hok⟩
          have hwrite : Run.GuardedAt I Event.Fault allowed (delegateArgument ctx (some arg))
              (fun _ => False) s₁ :=
            (hctx.materializeValue (harg arg rfl) s₁ hs₁).bind fun argPb s₂ hret _ _ =>
              absurd hret.isOk hends
          exact hwrite.bind fun _ _ _ hfalse _ => hfalse.elim

end Loops

/-- A struct check that passed. -/
theorem checkStruct_ok {lengthOk : Nat → Bool} {message : String} {intr : Intrinsic}
    (h : checkStruct lengthOk message intr = some (.ok ())) :
    lengthOk intr.parameter.elements.length = true := by
  unfold checkStruct at h
  split at h
  · next hok => exact (Bool.and_eq_true_iff.mp hok).2
  · cases h

/-- `Delegate` has read the first element when it passed its check. -/
theorem delegate_nonempty {intr : Intrinsic} (h : delegateWellFormed intr = some (.ok ())) :
    1 ≤ intr.parameter.elements.length := by
  unfold delegateWellFormed at h
  split at h
  · cases h
  · rcases hes : intr.parameter.elements with _ | ⟨name, es⟩
    · rw [hes] at h
      cases h
    · exact Nat.le_add_left 1 es.length

theorem exists_cons_cons {es : List Value} (h : 2 ≤ es.length) : ∃ v w vs, es = v :: w :: vs := by
  rcases es with _ | ⟨v, _ | ⟨w, vs⟩⟩
  · simp at h
  · simp at h
  · exact ⟨v, w, vs, rfl⟩

section

variable [ProtoText] (hctx : ctx.Guards I allowed good) (fuel : Nat) {handler : ControlFlowHandler} {intr : Intrinsic}
  (hdelegate : ∀ runnerMap, handler ≠ .delegate runnerMap) (helements : handler.HasElements intr)

include hctx hdelegate helements

/-! ### `ExecuteCall` -/

/-- With an argument the other handlers are guarded, whatever happens. -/
theorem executeCall_some_guarded {arg : V} (harg : good arg) :
    Run.Guarded I Event.Fault allowed (executeCall ctx fuel handler intr (some arg)) good := by
  have hengaged : Run.Guarded I Event.Fault allowed (engaged (some arg)) good := .pure harg
  have hsome : ∀ v ∈ some arg, good v := fun v hv => Option.mem_some_iff.mp hv ▸ harg
  cases handler with
  | breakableChain => exact hengaged.bind (breakableChainLoop_guarded hctx _)
  | serialChain => exact hengaged.bind (serialChainLoop_guarded hctx _)
  -- well-formedness gives the two branches, and either index is below the length
  | conditional =>
      refine (hctx.materializeValue harg).bind fun condPb _ => ?_
      cases condPb.boolean? with
      | none => exact .throw _
      | some cond =>
          have hlen : 2 ≤ intr.parameter.elements.length := helements
          refine (elementAt_guarded fun h => ?_).bind fun v _ => hctx.createValue v
          cases cond <;> simp only [if_true, Bool.false_eq_true, if_false] at h <;> omega
  | delegate runnerMap => exact absurd rfl (hdelegate runnerMap)
  | fallback => exact fallbackLoop_guarded hctx hsome _ _
  | parallelMap =>
      exact hengaged.bind fun state hs => (hctx.materializeValue hs).bind fun argsPb _ =>
        (hctx.createValue _).bind fun fnVal hfn => (parallelMapLoop_guarded hctx hfn _).bind hctx.createStruct
  -- the number of steps and the function were both counted, so neither read is out of bounds
  | «repeat» =>
      have hlen : 2 ≤ intr.parameter.elements.length := helements
      exact (elementAt_guarded fun h => by omega).bind fun _ _ =>
        (elementAt_guarded fun h => by omega).bind fun v _ => (hctx.createValue v).bind
          fun bodyFn hfn => hengaged.bind (repeatLoop_guarded hctx hfn _)
  | «while» =>
      have hlen : 2 ≤ intr.parameter.elements.length := helements
      exact (elementAt_guarded fun h => by omega).bind fun v _ => (hctx.createValue v).bind
        fun conditionFn hcond => (elementAt_guarded fun h => by omega).bind fun w _ =>
          (hctx.createValue w).bind fun bodyFn hbody =>
            hengaged.bind (whileLoop_guarded hctx hcond hbody fuel)
  | repeatedConditionalChain =>
      have hlen : 1 ≤ intr.parameter.elements.length := helements
      exact (elementAt_guarded fun h => by omega).bind fun _ _ =>
        (hctx.createValues _).bind fun bodyFns hfns =>
          hengaged.bind (conditionalRounds_guarded hctx hfns _)

/-- Without one, those that read it do not come to that if they cannot create the functions that come
first. -/
theorem executeCall_none_guardedAt {s : σ} (hs : I s) (habs : ¬ReadsAbsent ctx handler intr none s) :
    Run.GuardedAt I Event.Fault allowed (executeCall ctx fuel handler intr none) good s := by
  have hcreate : ∀ {v ref} {s s' : σ}, Run.Returns (ctx.createValue v) s ref s' →
      Run.Returns (ctx.createValues [v]) s [ref] s' :=
    fun h => h.bind ((Run.Returns.pure _ _).bind (.pure _ _))
  cases handler with
  -- these three dereference the argument before anything else
  | breakableChain => exact absurd ⟨helements, rfl⟩ habs
  | serialChain => exact absurd ⟨helements, rfl⟩ habs
  | parallelMap => exact absurd ⟨helements, rfl⟩ habs
  | conditional => exact Run.Guarded.throw _ s hs
  | delegate runnerMap => exact absurd rfl (hdelegate runnerMap)
  | fallback => exact fallbackLoop_guarded hctx (by simp) _ _ s hs
  | «repeat» =>
      have hlen : 2 ≤ intr.parameter.elements.length := helements
      refine (elementAt_guarded (fun h => by omega) s hs).bind fun _ s₀ h₀ _ hs₀ => ?_
      obtain rfl := (getElem?_of_elementAt h₀).2
      refine (elementAt_guarded (fun h => by omega) s₀ hs₀).bind fun body s₁ h₁ hbody hs₁ => ?_
      obtain rfl := (getElem?_of_elementAt h₁).2
      refine (hctx.createValue body s₁ hs₁).bind fun bodyFn s₂ h₂ _ _ => ?_
      -- the function was created, so the argument is read next: just what was excluded
      have hfirst : functionsFirst .repeat intr = [body] := by
        rcases hes : intr.parameter.elements with _ | ⟨_, _ | ⟨_, _⟩⟩ <;> simp_all [functionsFirst]
      refine absurd ⟨helements, ?_⟩ habs
      rw [hfirst]
      exact (hcreate h₂).isOk
  | «while» =>
      have hlen : 2 ≤ intr.parameter.elements.length := helements
      refine (elementAt_guarded (fun h => by omega) s hs).bind fun condition s₀ h₀ hcondition hs₀ => ?_
      obtain rfl := (getElem?_of_elementAt h₀).2
      refine (hctx.createValue condition s₀ hs₀).bind fun conditionFn s₁ h₁ _ hs₁ => ?_
      refine (elementAt_guarded (fun h => by omega) s₁ hs₁).bind fun body s₂ h₂ hbody hs₂ => ?_
      obtain rfl := (getElem?_of_elementAt h₂).2
      refine (hctx.createValue body s₂ hs₂).bind fun bodyFn s₃ h₃ _ _ => ?_
      -- condition and body were both created before the argument is read
      have hfirst : functionsFirst .while intr = [condition, body] := by
        rcases hes : intr.parameter.elements with _ | ⟨_, _ | ⟨_, _⟩⟩ <;> simp_all [functionsFirst]
      refine absurd ⟨helements, ?_⟩ habs
      rw [hfirst]
      have hrest : Run.Returns (ctx.createValues [body] >>= fun refs => pure (conditionFn :: refs)) s₂
          [conditionFn, bodyFn] s₃ := (hcreate h₃).bind (.pure _ s₃)
      exact (h₁.bind hrest).isOk
  | repeatedConditionalChain =>
      have hlen : 1 ≤ intr.parameter.elements.length := helements
      refine (elementAt_guarded (fun h => by omega) s hs).bind fun _ s₀ h₀ _ hs₀ => ?_
      obtain rfl := (getElem?_of_elementAt h₀).2
      refine (hctx.createValues _ s₀ hs₀).bind fun bodyFns s₁ h₁ _ _ => ?_
      exact absurd ⟨helements, h₁.isOk⟩ habs

end

/-- The elements that the check has seen, and `Delegate` apart that is all of them. -/
theorem hasElements_of_checkWellFormed [ProtoText] {handler : ControlFlowHandler} {intr : Intrinsic}
    (hdelegate : ∀ runnerMap, handler ≠ .delegate runnerMap)
    (hwf : handler.checkWellFormed intr = some (.ok ())) : handler.HasElements intr := by
  have hlen : ∀ {lengthOk : Nat → Bool} {message : String},
      handler.checkWellFormed intr = checkStruct lengthOk message intr →
        lengthOk intr.parameter.elements.length = true :=
    fun heq => checkStruct_ok (heq.symm.trans hwf)
  cases handler with
  | breakableChain => trivial
  | serialChain => trivial
  | parallelMap => trivial
  | fallback => trivial
  | conditional => exact (of_decide_eq_true (@hlen (· = 2) _ rfl)).ge
  | delegate runnerMap => exact absurd rfl (hdelegate runnerMap)
  | «repeat» => exact (of_decide_eq_true (@hlen (· = 2) _ rfl)).ge
  -- the check is not `checkStruct`, but asks for two elements as well
  | «while» =>
      show 2 ≤ _
      by_contra hne
      have htwo : intr.parameter.elements.length ≠ 2 := by omega
      simp [checkWellFormed, whileWellFormed, htwo, Checked.error] at hwf
  | repeatedConditionalChain =>
      exact Nat.le_of_succ_le (of_decide_eq_true (@hlen (2 ≤ ·) _ rfl))

/-- A handler called with an intrinsic that passed its check crashes only as `ReadsAbsent` and
`ReadsMissing` say. -/
theorem executeCall_guardedAt [ProtoText] (hctx : ctx.Guards I allowed good) (fuel : Nat)
    (handler : ControlFlowHandler) {intr : Intrinsic} {arg : Option V} (harg : ∀ v ∈ arg, good v)
    (hwf : handler.checkWellFormed intr = some (.ok ()))
    (hmiss : handler.ReadsMissing intr → allowed .missingElement) {s : σ} (hs : I s)
    (habs : ¬ReadsAbsent ctx handler intr arg s) :
    Run.GuardedAt I Event.Fault allowed (executeCall ctx fuel handler intr arg) good s := by
  by_cases hdelegate : ∃ runnerMap, handler = .delegate runnerMap
  · obtain ⟨runnerMap, rfl⟩ := hdelegate
    exact delegateExecuteCall_guardedAt hctx harg (delegate_nonempty hwf) hmiss hs habs
  · have hother : ∀ runnerMap, handler ≠ .delegate runnerMap := fun runnerMap h => hdelegate ⟨runnerMap, h⟩
    have helements := hasElements_of_checkWellFormed hother hwf
    cases arg with
    | none => exact executeCall_none_guardedAt hctx fuel hother helements hs habs
    | some arg => exact executeCall_some_guarded hctx fuel hother helements (harg arg rfl) s hs

/-! ### Every fault is a real one -/

theorem engaged_crashes {f : V → Exec σ α} {s : σ} :
    ((engaged (none : Option V) >>= f) s).2 = .crash .absentOptional := rfl

/-- A call that is said to read an absent optional does so. -/
theorem executeCall_of_readsAbsent [ProtoText] (fuel : Nat) {handler : ControlFlowHandler} {intr : Intrinsic}
    {arg : Option V} {s : σ} (h : ReadsAbsent ctx handler intr arg s) :
    (executeCall ctx fuel handler intr arg s).2 = .crash .absentOptional := by
  obtain ⟨helements, h⟩ := h
  -- what `createValues` creates first, one creation at a time
  have hcreate : ∀ {v vs} {s : σ}, (ctx.createValues (v :: vs) s).2.isOk → ∃ ref s',
      Run.Returns (ctx.createValue v) s ref s' ∧ (ctx.createValues vs s').2.isOk := by
    intro v vs s hok
    obtain ⟨refs, s', hret⟩ := Run.isOk_iff.mp hok
    obtain ⟨ref, s₁, hv, hret⟩ := hret.of_bind
    obtain ⟨_, s₂, hvs, _⟩ := hret.of_bind
    exact ⟨ref, s₁, hv, hvs.isOk⟩
  cases handler with
  | conditional => exact h.elim
  | fallback => exact h.elim
  -- the argument is read at once
  | breakableChain => cases arg with
    | none => exact engaged_crashes
    | some arg => exact h.elim
  | serialChain => cases arg with
    | none => exact engaged_crashes
    | some arg => exact h.elim
  | parallelMap => cases arg with
    | none => rfl
    | some arg => exact h.elim
  -- the argument is read after the functions have been created, as they were
  | «repeat» => cases arg with
    | none =>
        obtain ⟨first, body, es, hes⟩ := exists_cons_cons helements
        obtain ⟨bodyFn, s', hbody, -⟩ := hcreate (show (ctx.createValues [body] s).2.isOk by
          simpa [functionsFirst, hes] using h)
        refine (elementAt_returns (by rw [hes]; rfl) s).bind_end.trans ?_
        refine (elementAt_returns (by rw [hes]; rfl) s).bind_end.trans (hbody.bind_end.trans ?_)
        exact engaged_crashes
    | some arg => exact h.elim
  | «while» => cases arg with
    | none =>
        obtain ⟨condition, body, es, hes⟩ := exists_cons_cons helements
        obtain ⟨conditionFn, s₁, hcondition, hbody⟩ := hcreate (show (ctx.createValues [condition, body] s).2.isOk by
          simpa [functionsFirst, hes] using h)
        obtain ⟨bodyFn, s₂, hbody, -⟩ := hcreate hbody
        refine (elementAt_returns (by rw [hes]; rfl) s).bind_end.trans (hcondition.bind_end.trans ?_)
        refine (elementAt_returns (by rw [hes]; rfl) s₁).bind_end.trans (hbody.bind_end.trans ?_)
        exact engaged_crashes
    | some arg => exact h.elim
  | repeatedConditionalChain => cases arg with
    | none =>
        obtain ⟨first, hfirst⟩ : ∃ v, intr.parameter.elements[0]? = some v :=
          ⟨_, List.getElem?_eq_getElem helements⟩
        obtain ⟨bodyFns, s', hbodyFns⟩ := Run.isOk_iff.mp h
        exact (elementAt_returns hfirst s).bind_end.trans (hbodyFns.bind_end.trans engaged_crashes)
    | some arg => exact h.elim
  -- here it is an argument that crashes: it is swapped through an empty optional
  | delegate runnerMap => cases arg with
    | none => exact h.elim
    | some arg =>
        obtain ⟨henv, hok⟩ := h
        obtain ⟨name, func, es, hes⟩ := exists_cons_cons (helements.2 henv)
        obtain ⟨argPb, s', harg⟩ := Run.isOk_iff.mp hok
        obtain ⟨runnerFn, hrunner⟩ := Option.isSome_iff_exists.mp henv
        have hname : runnerMap name.str = some runnerFn := by
          rw [← hrunner, environmentName, hes]
          rfl
        refine (elementAt_returns (by rw [hes]; rfl) s).bind_end.trans ?_
        rw [hname]
        refine (elementAt_returns (by rw [hes]; rfl) s).bind_end.trans ?_
        refine Run.bind_end_crash ?_
        exact harg.bind_end

/-- A call of `Delegate` that is said to read a missing element does so. -/
theorem executeCall_of_readsMissing [ProtoText] (fuel : Nat) {handler : ControlFlowHandler} {intr : Intrinsic}
    {arg : Option V} {s : σ} (hwf : handler.checkWellFormed intr = some (.ok ()))
    (h : handler.ReadsMissing intr) :
    (executeCall ctx fuel handler intr arg s).2 = .crash .missingElement := by
  cases handler with
  -- only the name is there, and the function next to it is read in a registered environment
  | delegate runnerMap =>
      obtain ⟨henv, hlen⟩ := h
      obtain ⟨name, hes⟩ := List.length_eq_one_iff.mp (Nat.le_antisymm (Nat.le_of_lt_succ hlen) (delegate_nonempty hwf))
      obtain ⟨runnerFn, hrunner⟩ := Option.isSome_iff_exists.mp henv
      have hname : runnerMap name.str = some runnerFn := by
        rw [← hrunner, environmentName, hes]
        rfl
      refine (elementAt_returns (by rw [hes]; rfl) s).bind_end.trans ?_
      rw [hname]
      refine Run.bind_end_crash ?_
      rw [hes]
      rfl
  | _ => exact h.elim

end ControlFlowHandler

end Handlers

/-! ## The evaluator -/

/-- Every intrinsic in the value, at any depth, passed its handler's check. -/
inductive ExecutorValue.Checked [ProtoText] : ExecutorValue → Prop where
  | embedded {childValueId : ValueId} : Checked (.embedded childValueId)
  | struct {elements : List ExecutorValue} (h : ∀ e ∈ elements, Checked e) :
      Checked (.struct elements)
  | lambda {lambdaPb : Lambda} {scope : List (String × ExecutorValue)}
      (h : ∀ b ∈ scope, Checked b.2) : Checked (.lambda lambdaPb scope)
  | intrinsic {intrinsicPb : Intrinsic} {handler : IntrinsicHandler}
      {scope : List (String × ExecutorValue)}
      (hwf : handler.checkWellFormed intrinsicPb = some (.ok ()))
      (h : ∀ b ∈ scope, Checked b.2) : Checked (.intrinsic intrinsicPb handler scope)

section

variable [ProtoText]

/-- Every value of the scope is checked. -/
def Scope.Checked (scope : Scope) : Prop := ∀ b ∈ scope, b.2.Checked

theorem Scope.Checked.cons {scope : Scope} (h : scope.Checked) {name : String} {v : ExecutorValue}
    (hv : v.Checked) : Scope.Checked ((name, v) :: scope) :=
  List.forall_mem_cons.mpr ⟨hv, h⟩

theorem Scope.Checked.resolve {name : String} {v : ExecutorValue} : ∀ {scope : Scope},
    scope.Checked → scope.resolve name = .ok v → v.Checked
  | [], _, h => by cases h
  | (bound, value) :: parent, hs, h => by
      obtain ⟨hv, hs⟩ := List.forall_mem_cons.mp hs
      unfold Scope.resolve at h
      split at h
      · cases h
        exact hv
      · exact resolve hs h

end

/-- The operations of an executor keep `I` and crash only by a fault. -/
structure Executor.Guards {σ : Type} (I : σ → Prop) (allowed : Crash → Prop) (child : Executor ValueId σ) :
    Prop where
  createValue : ∀ v,
    Run.Guarded I Event.Fault allowed (child.createValue v) fun _ => True
  createCall : ∀ f a,
    Run.Guarded I Event.Fault allowed (child.createCall f a) fun _ => True
  createStruct : ∀ ms,
    Run.Guarded I Event.Fault allowed (child.createStruct ms) fun _ => True
  createSelection : ∀ v i,
    Run.Guarded I Event.Fault allowed (child.createSelection v i) fun _ => True
  materialize : ∀ v pb,
    Run.Guarded I Event.Fault allowed (child.materialize v pb) fun _ => True
  dispose : ∀ v, Run.Guarded I Event.Fault allowed (child.dispose v) fun _ => True

theorem Checked.run_guarded {σ : Type} {I : σ → Prop} {allowed : Crash → Prop} (c : Checked α)
    (h : c = none → allowed .missingElement) :
    Run.Guarded I Event.Fault allowed (c.run : Exec σ α) fun a => c = some (.ok a) := by
  cases c with
  | none => exact .crash (h rfl)
  | some r => exact .ofExcept fun a ha => by rw [ha]

theorem IntrinsicHandler.runCheckWellFormed_guarded [ProtoText] {σ : Type} {I : σ → Prop}
    {allowed : Crash → Prop} {handler : IntrinsicHandler} {intr : Intrinsic}
    (h : handler.checkWellFormed intr = none ↔ (Event.checkWellFormed handler intr).Fault .missingElement) :
    Run.Guarded I Event.Fault allowed (handler.runCheckWellFormed intr : Exec σ Unit)
      fun _ => handler.checkWellFormed intr = some (.ok ()) := by
  intro s hs
  refine .tell_bind (fun k hk => ?_) (Checked.run_guarded _ (fun hnone => .inr (h.mp hnone)) s hs)
  cases k with
  | missingElement =>
      rw [h.mpr hk]
      rfl
  | _ => exact hk.elim

/-- A call of the executor that comes to read an absent optional: one of an intrinsic whose handler does. -/
def ControlFlowExecutor.Misses {σ : Type} (exec : ControlFlowExecutor σ) (self : Knot σ)
    (function : ExecutorValue) (argument : Option ExecutorValue) (s : σ) : Prop :=
  match function with
  | .intrinsic intr ⟨_, .controlFlow handler⟩ scope =>
      handler.ReadsAbsent (exec.context self scope) intr argument s
  | _ => False

instance {σ : Type} (exec : ControlFlowExecutor σ) (self : Knot σ) (function : ExecutorValue)
    (argument : Option ExecutorValue) (s : σ) : Decidable (exec.Misses self function argument s) :=
  match function with
  | .intrinsic intr ⟨_, .controlFlow handler⟩ scope =>
      inferInstanceAs (Decidable (handler.ReadsAbsent (exec.context self scope) intr argument s))
  | .intrinsic _ ⟨_, .inline _⟩ _ | .embedded _ | .struct _ | .lambda _ _ => isFalse id

section Evaluator

variable {σ : Type} {I : σ → Prop} {allowed : Crash → Prop}

namespace Executor.Guards

variable {child : Executor ValueId σ} (h : child.Guards I allowed)
include h

theorem releaseAll : ∀ ids : List ValueId,
    Run.Guarded I Event.Fault allowed (child.releaseAll ids) fun _ => True
  | [] => .pure trivial
  | id :: ids => (h.dispose id).attempt.bind fun _ _ => releaseAll ids

theorem releasing (ids : List ValueId) {x : Exec σ α}
    (hx : Run.Guarded I Event.Fault allowed x fun _ => True) :
    Run.Guarded I Event.Fault allowed (child.releasing ids x) fun _ => True := by
  refine hx.attempt.bind fun r _ => ?_
  cases r with
  | ok a => exact (h.releaseAll ids).bind fun _ _ => .pure trivial
  | error e => exact (h.releaseAll ids).bind fun _ _ => .throw e

end Executor.Guards

/-- The knot preserves checkedness and crashes only by a fault. -/
structure Knot.Guards [ProtoText] (I : σ → Prop) (allowed : Crash → Prop) (k : Knot σ) : Prop where
  evaluate : ∀ v scope, Scope.Checked scope →
    Run.Guarded I Event.Fault allowed (k.evaluate v scope) ExecutorValue.Checked
  createCall : ∀ f a, f.Checked → (∀ v ∈ a, ExecutorValue.Checked v) →
    Run.Guarded I Event.Fault allowed (k.createCall f a) ExecutorValue.Checked

namespace ControlFlowExecutor

/-! ### The child -/

variable {exec : ControlFlowExecutor σ} (hchild : exec.childExecutor.Guards I allowed)
include hchild

mutual

theorem embed_guarded (value : ExecutorValue) :
    Run.Guarded I Event.Fault allowed (exec.embed value) fun _ => True := by
  cases value with
  | embedded => exact .pure trivial
  | struct fields =>
      exact (embedFields_guarded fields [] []).bind fun r _ =>
        (hchild.releasing _ (hchild.createStruct _)).bind fun _ _ => .pure trivial
  | lambda => exact (hchild.createValue _).bind fun _ _ => .pure trivial
  | intrinsic => exact .throw _

theorem embedFields_guarded (fields : List ExecutorValue) (fieldIds fieldSlots : List ValueId) :
    Run.Guarded I Event.Fault allowed (exec.embedFields fields fieldIds fieldSlots)
      fun _ => True := by
  cases fields with
  | nil => exact .pure trivial
  | cons field fields =>
      refine (embed_guarded field).attempt.bind fun r _ => ?_
      cases r with
      | ok r => exact embedFields_guarded fields _ _
      | error e => exact (hchild.releaseAll fieldSlots).bind fun _ _ => .throw e

end

theorem constMaterialize_guarded (value : ExecutorValue) (pb : Option Value) :
    Run.Guarded I Event.Fault allowed (exec.constMaterialize value pb)
      fun _ => True := by
  refine (embed_guarded hchild value).attempt.bind fun r _ => ?_
  cases r with
  | ok r => exact hchild.releasing _ (hchild.materialize _ _)
  | error e => exact .pure trivial

theorem createSelectionInternal_guarded [ProtoText] {source : ExecutorValue} (hs : source.Checked)
    (index : UInt32) : Run.Guarded I Event.Fault allowed
      (exec.createSelectionInternal source index) ExecutorValue.Checked := by
  cases hs with
  | embedded => exact (hchild.createSelection _ _).bind fun _ _ => .pure .embedded
  | @struct elements h =>
      cases hi : elements[index.toNat]? with
      | none =>
          simp only [createSelectionInternal, hi]
          exact .throw _
      | some e =>
          simp only [createSelectionInternal, hi]
          exact .pure (h e (List.mem_of_getElem? hi))
  | lambda => exact .throw _
  | intrinsic => exact .throw _

theorem createChildValue_guarded [ProtoText] (valuePb : Value) :
    Run.Guarded I Event.Fault allowed (exec.createChildValue valuePb)
      ExecutorValue.Checked :=
  (hchild.createValue valuePb).bind fun _ _ => .pure .embedded

theorem callEmbedded_guarded [ProtoText] (function : ValueId) (argument : Option ExecutorValue) :
    Run.Guarded I Event.Fault allowed (exec.callEmbedded function argument)
      ExecutorValue.Checked := by
  cases argument with
  | none => exact (hchild.createCall _ _).bind fun _ _ => .pure .embedded
  | some argument =>
      exact (embed_guarded hchild argument).bind fun r _ =>
        (hchild.releasing _ (hchild.createCall _ _)).bind fun _ _ => .pure .embedded

theorem evaluateIntrinsic_guarded [ProtoText] (haccounted : exec.intrinsicHandlers.Accounted) (valuePb : Value)
    (intr : Intrinsic) {scope : Scope} (hscope : scope.Checked) : Run.Guarded I Event.Fault allowed
      (exec.evaluateIntrinsic valuePb intr scope) ExecutorValue.Checked := by
  refine (Run.Guarded.ofExcept fun _ h => h).bind fun handler hget => ?_
  have hcheck := (haccounted hget).checkWellFormed
  refine (IntrinsicHandler.runCheckWellFormed_guarded hcheck).bind fun _ hwf => ?_
  cases handler.interface with
  | inline => exact createChildValue_guarded hchild valuePb
  | controlFlow =>
      exact (IntrinsicHandler.runCheckWellFormed_guarded hcheck).bind fun _ _ =>
        .pure (.intrinsic hwf hscope)

variable [ProtoText] {k : Knot σ} (hk : k.Guards I allowed)

include hk

/-! ### Evaluation -/

theorem constCreateExecutorValue_guarded (valuePb : Value) :
    Run.Guarded I Event.Fault allowed (exec.constCreateExecutorValue k valuePb)
      ExecutorValue.Checked := by
  unfold constCreateExecutorValue
  split
  · exact createChildValue_guarded hchild _
  · exact .throw _
  · exact hk.evaluate _ _ fun _ h => by cases h

theorem context_guards {scope : Scope} (hscope : scope.Checked) :
    (exec.context k scope).Guards I allowed ExecutorValue.Checked where
  createValue v := by
    show Run.Guarded _ _ _ (if hasComputation v then _ else _) _
    split
    · exact hk.evaluate v scope hscope
    · exact constCreateExecutorValue_guarded hchild hk v
  createCall := hk.createCall
  createStruct vs hvs := .pure (.struct hvs)
  materialize v pb _ := constMaterialize_guarded hchild v pb

theorem callIntrinsic_guardedAt (fuel : Nat) {intr : Intrinsic} {handler : IntrinsicHandler}
    {scope : Scope} {arg : Option ExecutorValue}
    (hwf : handler.checkWellFormed intr = some (.ok ())) (hscope : scope.Checked)
    (harg : ∀ v ∈ arg, ExecutorValue.Checked v) {s : σ} (hs : I s)
    (hmisses : ¬exec.Misses k (.intrinsic intr handler scope) arg s) :
    Run.GuardedAt I Event.Fault allowed
      (exec.callIntrinsic fuel k intr handler scope arg) ExecutorValue.Checked s := by
  obtain ⟨uri, interface⟩ := handler
  cases interface with
  | inline handler => exact Run.Guarded.throw _ s hs
  | controlFlow handler =>
      have hwf : handler.checkWellFormed intr = some (.ok ()) := hwf
      refine Run.GuardedAt.bind (Q := fun _ => True) (Run.Guarded.ofExcept (fun _ _ => trivial) s hs)
        fun interface s' hret _ _ => ?_
      obtain ⟨hinterface, hstate⟩ := hret.unique (.ofExcept rfl s)
      subst hinterface hstate
      -- the event that announces the handler crashes exactly where the handler misses an element
      refine Run.GuardedAt.tell_bind (fun crash hcrash => ?_) ?_
      · cases crash with
        | missingElement => exact ControlFlowHandler.executeCall_of_readsMissing fuel hwf hcrash
        | _ => exact hcrash.elim
      · exact ControlFlowHandler.executeCall_guardedAt ((context_guards hchild hk hscope).allow
          fun _ => .inl) fuel interface harg hwf .inr hs hmisses

theorem constCreateCallStep_guardedAt (fuel : Nat) {function : ExecutorValue}
    {argument : Option ExecutorValue} (hf : function.Checked)
    (harg : ∀ v ∈ argument, ExecutorValue.Checked v) {s : σ} (hs : I s)
    (hmisses : ¬exec.Misses k function argument s) :
    Run.GuardedAt I Event.Fault allowed
      (exec.constCreateCallStep fuel k function argument) ExecutorValue.Checked s := by
  cases hf with
  | embedded => exact callEmbedded_guarded hchild _ _ s hs
  | struct => exact Run.Guarded.throw _ s hs
  | lambda hscope =>
      cases argument with
      | none => exact hk.evaluate _ _ hscope s hs
      | some arg => exact hk.evaluate _ _ (Scope.Checked.cons hscope (harg arg rfl)) s hs
  | intrinsic hwf hscope => exact callIntrinsic_guardedAt hchild hk fuel hwf hscope harg hs hmisses

omit hchild

theorem evaluateLocals_guarded (names : String) : ∀ (locals : List (String × Value)) (scope : Scope),
    scope.Checked → Run.Guarded I Event.Fault allowed
      (evaluateLocals k names locals scope) Scope.Checked
  | [], _, hs => .pure hs
  | (_, localPb) :: locals, scope, hs => ((hk.evaluate localPb scope hs).mapError _).bind
      fun _ hv => evaluateLocals_guarded names locals _ (hs.cons hv)

theorem evaluateElements_guarded : ∀ (elements : List Value) (scope : Scope),
    scope.Checked → Run.Guarded I Event.Fault allowed
      (evaluateElements k elements scope) fun vs => ∀ v ∈ vs, v.Checked
  | [], _, _ => .pure (by simp)
  | e :: es, scope, hs => (hk.evaluate e scope hs).bind fun v hv =>
      (evaluateElements_guarded es scope hs).bind fun vs hvs => .pure (by simpa using ⟨hv, hvs⟩)

include hchild

theorem evaluateStep_guarded (haccounted : exec.intrinsicHandlers.Accounted) (v : Value) {scope : Scope}
    (hs : scope.Checked) :
    Run.Guarded I Event.Fault allowed (exec.evaluateStep k v scope)
      ExecutorValue.Checked := by
  cases v with
  | notSet m => exact createChildValue_guarded hchild _
  | scalar m s => exact createChildValue_guarded hchild _
  | call m function argument =>
      refine (hk.evaluate function scope hs).bind fun functionVal hf => ?_
      cases argument with
      | none => exact hk.createCall _ _ hf (by simp)
      | some argument =>
          exact (hk.evaluate argument scope hs).bind fun argumentVal ha =>
            hk.createCall _ _ hf (by simpa using ha)
  | lambda m parameterName result => exact .pure (.lambda hs)
  | reference m name => exact (Run.Guarded.ofExcept fun _ h => hs.resolve h).mapError _
  | struct m elements =>
      exact (evaluateElements_guarded hk elements scope hs).bind fun vs hvs => .pure (.struct hvs)
  | selection m source index =>
      exact (hk.evaluate source scope hs).bind fun v hv =>
        createSelectionInternal_guarded hchild hv _
  | block m locals result =>
      exact (evaluateLocals_guarded hk _ locals scope hs).bind fun scope hs =>
        hk.evaluate result scope hs
  | intrinsic m uri staticParameter => exact evaluateIntrinsic_guarded hchild haccounted _ _ hs

end ControlFlowExecutor

end Evaluator

/-! ## The executors -/

section Executors

variable {σ V : Type}

/-- The implementation's side of `Executor.Guards`, for values that are `good`. -/
structure ExecutorImpl.Guards (I : σ → Prop) (allowed : Crash → Prop) (good : V → Prop)
    (impl : ExecutorImpl σ V) : Prop where
  createExecutorValue : ∀ v,
    Run.Guarded I Event.Fault allowed (impl.createExecutorValue v) good
  createCall : ∀ f a, good f → (∀ v ∈ a, good v) →
    Run.Guarded I Event.Fault allowed (impl.createCall f a) good
  createStruct : ∀ vs, (∀ v ∈ vs, good v) →
    Run.Guarded I Event.Fault allowed (impl.createStruct vs) good
  createSelection : ∀ v i, good v →
    Run.Guarded I Event.Fault allowed (impl.createSelection v i) good
  materialize : ∀ v pb, good v →
    Run.Guarded I Event.Fault allowed (impl.materialize v pb) fun _ => True

/-- The implementation's invariant holds, and every tracked value is good. -/
structure BaseState.Tracked (I : σ → Prop) (good : V → Prop) (s : BaseState (HandleTable V) σ) :
    Prop where
  impl : I s.impl
  table : ∀ id v, s.table.trackedValues id = some v → good v

variable {I : σ → Prop} {allowed : Crash → Prop} {good : V → Prop}

theorem BaseState.Tracked.trackValue {s : BaseState (HandleTable V) σ} (hs : s.Tracked I good)
    {v : V} (hv : good v) :
    BaseState.Tracked I good { s with table := (s.table.trackValue v).2 } where
  impl := hs.impl
  table id w hw := by
    by_cases h : id = s.table.nextValueId
    · subst h
      rw [show (s.table.trackValue v).2.trackedValues s.table.nextValueId = some v from
        HandleTable.trackedValues_trackValue_self v s.table] at hw
      cases hw
      exact hv
    · rw [HandleTable.trackedValues_trackValue_of_ne h] at hw
      exact hs.table id w hw

theorem BaseState.Tracked.erase {s : BaseState (HandleTable V) σ} (hs : s.Tracked I good)
    (id : ValueId) : BaseState.Tracked I good { s with table := s.table.erase id } where
  impl := hs.impl
  table id' w hw := by
    by_cases h : id' = id
    · subst h
      rw [HandleTable.trackedValues_erase_self] at hw
      cases hw
    · rw [HandleTable.trackedValues_erase_of_ne h] at hw
      exact hs.table id' w hw

namespace ExecutorBase

/-! ### Tables -/

theorem trackValue_guarded {v : V} (hv : good v) :
    Run.Guarded (BaseState.Tracked I good) Event.Fault allowed
      (trackValue v : Exec (BaseState (HandleTable V) σ) ValueId) fun _ => True :=
  .step fun _ hs => ⟨hs.trackValue hv, fun _ _ => trivial⟩

theorem getTracked_guarded (name : String) (id : ValueId) :
    Run.Guarded (BaseState.Tracked I good) Event.Fault allowed
      (getTracked name id : Exec (BaseState (HandleTable V) σ) V) good :=
  .step fun s hs => by
    rcases h : ValueTable.getTracked s.table id with _ | v
    · exact ⟨hs, by rintro _ ⟨⟩⟩
    · exact ⟨hs, by rintro _ ⟨⟩; exact hs.table id v h⟩

theorem getTrackedArgument_guarded (name : String) (argument : Option ValueId) :
    Run.Guarded (BaseState.Tracked I good) Event.Fault allowed
      (getTrackedArgument name argument : Exec (BaseState (HandleTable V) σ) (Option V))
      fun a => ∀ v ∈ a, good v := by
  cases argument with
  | none => exact .pure (by simp)
  | some argument =>
      exact (getTracked_guarded name argument).bind fun v hv => .pure (by simpa using hv)

theorem getAllTracked_guarded (name : String) : ∀ members : List ValueId,
    Run.Guarded (BaseState.Tracked I good) Event.Fault allowed
      (getAllTracked name members : Exec (BaseState (HandleTable V) σ) (List V))
      fun vs => ∀ v ∈ vs, good v
  | [] => .pure (by simp)
  | member :: members => (getTracked_guarded name member).bind fun v hv =>
      (getAllTracked_guarded name members).bind fun vs hvs => .pure (by simpa using ⟨hv, hvs⟩)

theorem dispose_guarded (name : String) (id : ValueId) :
    Run.Guarded (BaseState.Tracked I good) Event.Fault allowed
      (dispose name id : Exec (BaseState (HandleTable V) σ) Unit) fun _ => True :=
  .step fun s hs => by
    rcases h : ValueTable.getTracked s.table id with _ | v
    · exact ⟨hs, fun _ _ => trivial⟩
    · exact ⟨hs.erase id, fun _ _ => trivial⟩

theorem onImpl_guarded {x : Exec σ α} {Q : α → Prop} (hx : Run.Guarded I Event.Fault allowed x Q) :
    Run.Guarded (BaseState.Tracked I good) Event.Fault allowed
      (onImpl x : Exec (BaseState (HandleTable V) σ) α) Q :=
  hx.zoom (fun _ h => h.impl) fun _ _ h hs => ⟨hs, h.table⟩

end ExecutorBase

open ExecutorBase in
/-- What holds of an implementation holds of its executor. -/
theorem executorBase_guards {impl : ExecutorImpl σ V} (h : impl.Guards I allowed good) :
    Executor.Guards (BaseState.Tracked I good) allowed
      (executorBase impl : Executor ValueId (BaseState (HandleTable V) σ)) where
  createValue v := (onImpl_guarded (h.createExecutorValue v)).bind fun _ => trackValue_guarded
  createCall f a := (getTracked_guarded _ f).bind fun fv hf =>
    (getTrackedArgument_guarded _ a).bind fun av ha =>
      (onImpl_guarded (h.createCall fv av hf ha)).bind fun _ => trackValue_guarded
  createStruct ms := (getAllTracked_guarded _ ms).bind fun vs hvs =>
    (onImpl_guarded (h.createStruct vs hvs)).bind fun _ => trackValue_guarded
  createSelection v i := (getTracked_guarded _ v).bind fun w hw =>
    (onImpl_guarded (h.createSelection w i hw)).bind fun _ => trackValue_guarded
  materialize v pb := (getTracked_guarded _ v).attempt.bind fun r hr => by
    cases r with
    | ok w => exact onImpl_guarded (h.materialize w pb (hr w rfl))
    | error e => exact .pure trivial
  dispose v := dispose_guarded _ v

/-- A client can do to an executor only what its operations allow. -/
theorem Executor.Guards.performAll {I : σ → Prop} {exec : Executor ValueId σ}
    (h : exec.Guards I allowed) : ∀ calls : List (Executor.ApiCall ValueId),
      Run.Guarded I Event.Fault allowed (exec.performAll calls) fun _ => True
  | [] => .pure trivial
  | call :: calls => by
      have hcall : Run.Guarded I Event.Fault allowed (exec.perform call) fun _ => True := by
        cases call with
        | createValue v => exact (h.createValue v).attempt.bind fun _ _ => .pure trivial
        | createCall f a => exact (h.createCall f a).attempt.bind fun _ _ => .pure trivial
        | createStruct ms => exact (h.createStruct ms).attempt.bind fun _ _ => .pure trivial
        | createSelection v i => exact (h.createSelection v i).attempt.bind fun _ _ => .pure trivial
        | materialize v pb => exact (h.materialize v pb).attempt.bind fun _ _ => .pure trivial
        | dispose v => exact (h.dispose v).attempt.bind fun _ _ => .pure trivial
      exact hcall.bind fun _ _ => (performAll h calls).bind fun _ _ => .pure trivial

end Executors

/-! ### The inline executor -/

theorem InlineExecutor.callTask_guarded [ProtoText] {σ : Type} {I : σ → Prop} {allowed : Crash → Prop}
    {handlers : IntrinsicHandlerSet} (haccounted : handlers.Accounted) (fn arg : Value) :
    Run.Guarded I Event.Fault allowed (callTask handlers fn arg : Exec σ Value) fun _ => True := by
  cases fn with
  | intrinsic m uri staticParameter =>
      refine (Run.Guarded.ofExcept fun _ h => h).bind fun handler hget => ?_
      refine (IntrinsicHandler.runCheckWellFormed_guarded ((haccounted hget).checkWellFormed)).bind
        fun _ hwf => ?_
      refine (Run.Guarded.ofExcept fun _ h => h).bind fun interface hinterface s hs => ?_
      -- an accounted handler crashes on the inputs that its event names, and on no others
      have hcall : interface.executeCall _ arg = none ↔ _ := (haccounted hget).executeCall ?_ hwf arg
      · refine .tell_bind (fun k hk => ?_) (((Checked.run_guarded _ fun hnone => .inr
          (hcall.mp hnone)).conseq fun _ _ => trivial) s hs)
        cases k with
        | missingElement =>
            rw [hcall.mpr hk]
            rfl
        | _ => exact hk.elim
      · unfold IntrinsicHandler.getInlineInterface at hinterface
        cases hi : handler.interface with
        | inline handler =>
            rw [hi] at hinterface
            cases hinterface
            rfl
        | controlFlow handler =>
            rw [hi] at hinterface
            cases hinterface
  | _ => exact .throw _

theorem InlineExecutor.impl_guards [ProtoText] {allowed : Crash → Prop} {handlers : IntrinsicHandlerSet}
    (haccounted : handlers.Accounted) :
    (InlineExecutor.impl handlers).Guards (fun _ => True) allowed (fun _ => True) where
  createExecutorValue _ := .pure trivial
  createCall f a _ _ := by
    cases a with
    | none => exact .throw _
    | some a =>
        refine Run.Guarded.conseq (Run.Guarded.attempt (Q := fun _ => True) ?_) fun _ _ => trivial
        exact (Run.Guarded.ofExcept fun _ _ => trivial).bind fun _ _ =>
          (Run.Guarded.ofExcept fun _ _ => trivial).bind fun _ _ => callTask_guarded haccounted _ _
  createStruct _ _ := .pure trivial
  createSelection _ _ _ := .pure trivial
  materialize _ _ _ := .pure trivial

end GenC
