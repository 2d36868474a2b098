import GenC.Lib.Growth
import GenC.Runtime.AbsentArguments

/-!
# Handlers in any context

What a control-flow handler may be relied on for, whatever executor it drives. If the operations of its
context grow the state and yield good values when they are given good values, then so does the handler
(`ControlFlowHandler.executeCall_yields`); and if they crash only as is allowed, then the handler does
not crash otherwise but for reading an absent argument, or a static parameter that is too short for it.
-/

namespace GenC

open Lib

variable {σ V : Type} [Preorder σ]

/-- What a handler may expect of its context: from states above `s₀` the operations yield good values
if they are given good values, and a value stays good. -/
structure Context.Yields (allowed : Crash → Prop) (Good : V → σ → Prop) (s₀ : σ) (ctx : Context σ V) :
    Prop where
  keeps : ∀ {v s s'}, s ≤ s' → Good v s → Good v s'
  createValue : ∀ v, Run.Yields allowed s₀ (ctx.createValue v) Good
  createCall : ∀ {f a s}, s₀ ≤ s → Good f s → (∀ v ∈ a, Good v s) →
    Run.Yields allowed s (ctx.createCall f a) Good
  createStruct : ∀ {vs s}, s₀ ≤ s → (∀ v ∈ vs, Good v s) → Run.Yields allowed s (ctx.createStruct vs) Good
  materialize : ∀ {v s} pb, s₀ ≤ s → Good v s →
    Run.Yields allowed s (ctx.materialize v pb) fun _ _ => True

variable {allowed : Crash → Prop} {Good : V → σ → Prop} {s₀ s₁ : σ} {ctx : Context σ V}

theorem MaterializeResult.get_yields (r : MaterializeResult) :
    Run.Yields allowed s₀ (r.get : Exec σ Value) fun _ _ => True := by
  unfold MaterializeResult.get
  cases r.status with
  | ok => exact .pure fun _ _ => trivial
  | error e => exact .throw e

namespace Context.Yields

theorem mono (h : ctx.Yields allowed Good s₀) (hs : s₀ ≤ s₁) : ctx.Yields allowed Good s₁ where
  keeps := h.keeps
  createValue v := (h.createValue v).mono hs
  createCall hs' := h.createCall (hs.trans hs')
  createStruct hs' := h.createStruct (hs.trans hs')
  materialize pb hs' := h.materialize pb (hs.trans hs')

theorem call (h : ctx.Yields allowed Good s₀) {f state : V} (hf : Good f s₀) (hstate : Good state s₀) :
    Run.Yields allowed s₀ (ctx.createCall f (some state)) Good := by
  refine h.createCall (le_refl s₀) hf fun v hv => ?_
  obtain rfl : state = v := Option.mem_some_iff.mp hv
  exact hstate

theorem materializeValue (h : ctx.Yields allowed Good s₀) {v : V} (hv : Good v s₀) :
    Run.Yields allowed s₀ (ctx.materializeValue v) fun _ _ => True :=
  (h.materialize _ (le_refl s₀) hv).bind fun _ _ r _ => r.get_yields

theorem createValues : ∀ (vs : List Value) {s₀ : σ}, ctx.Yields allowed Good s₀ →
    Run.Yields allowed s₀ (ctx.createValues vs) fun rs s => ∀ r ∈ rs, Good r s
  | [], _, _ => .pure fun _ _ => List.forall_mem_nil _
  | v :: vs, _, h => (h.createValue v).bind fun _ h₁ _ hr =>
      (createValues vs (h.mono h₁)).bind fun _ h₂ _ hrs => .pure fun _ hs =>
        List.forall_mem_cons.mpr ⟨h.keeps (h₂.trans hs) hr, fun r hr => h.keeps hs (hrs r hr)⟩

end Context.Yields

theorem engaged_yields {arg : Option V} {Q : V → σ → Prop} (hcrash : allowed .absentOptional)
    (hQ : ∀ v ∈ arg, ∀ s, s₀ ≤ s → Q v s) : Run.Yields allowed s₀ (engaged arg) Q := by
  cases arg with
  | none => exact .crash hcrash
  | some v => exact .pure (hQ v rfl)

theorem elementAt_yields {es : List Value} {i : Nat} (h : allowed .missingElement ∨ i < es.length) :
    Run.Yields allowed s₀ (elementAt es i : Exec σ Value) fun v _ => es[i]? = some v := by
  unfold elementAt
  cases hi : es[i]? with
  | none =>
      exact .crash (h.resolve_right (Nat.not_lt.mpr (List.getElem?_eq_none_iff.mp hi)))
  | some v => exact .pure fun _ _ => rfl

namespace ControlFlowHandler

theorem repeatLoop_yields {bodyFn : V} : ∀ (n : Nat) {s₀ : σ} {state : V}, ctx.Yields allowed Good s₀ →
    Good bodyFn s₀ → Good state s₀ → Run.Yields allowed s₀ (repeatLoop ctx bodyFn n state) Good
  | 0, _, _, h, _, hs => .pure fun _ hle => h.keeps hle hs
  | n + 1, _, _, h, hfn, hs => (h.call hfn hs).bind fun _ h₁ _ hs =>
      repeatLoop_yields n (h.mono h₁) (h.keeps h₁ hfn) hs

theorem whileLoop_yields [ProtoText] {conditionFn bodyFn : V} : ∀ (fuel : Nat) {s₀ : σ} {state : V},
    ctx.Yields allowed Good s₀ → Good conditionFn s₀ → Good bodyFn s₀ → Good state s₀ →
    Run.Yields allowed s₀ (whileLoop ctx conditionFn bodyFn fuel state) Good
  | 0, _, _, _, _, _, _ => .outOfFuel
  | fuel + 1, _, _, h, hcond, hbody, hs => by
      refine (h.call hcond hs).bind fun s₁ h₁ conditionVal hval =>
        ((h.mono h₁).materializeValue hval).bind fun s₂ h₂ condPb _ => ?_
      have h₀₂ := h₁.trans h₂
      rcases condPb.boolean? with _ | _ | _
      · exact .throw _
      · exact .pure fun _ hle => h.keeps (h₀₂.trans hle) hs
      · refine ((h.mono h₀₂).call (h.keeps h₀₂ hbody) (h.keeps h₀₂ hs)).bind fun s₃ h₃ state hs => ?_
        have h₀₃ := h₀₂.trans h₃
        exact whileLoop_yields fuel (h.mono h₀₃) (h.keeps h₀₃ hcond) (h.keeps h₀₃ hbody) hs

theorem serialChainLoop_yields : ∀ (fns : List Value) {s₀ : σ} {state : V}, ctx.Yields allowed Good s₀ →
    Good state s₀ → Run.Yields allowed s₀ (serialChainLoop ctx fns state) Good
  | [], _, _, h, hs => .pure fun _ hle => h.keeps hle hs
  | fn :: fns, _, _, h, hs => (h.createValue fn).bind fun _ h₁ _ hfn =>
      ((h.mono h₁).call hfn (h.keeps h₁ hs)).bind fun _ h₂ _ hs =>
        serialChainLoop_yields fns (h.mono (h₁.trans h₂)) hs

theorem breakableChainLoop_yields : ∀ (fns : List Value) {s₀ : σ} {state : V}, ctx.Yields allowed Good s₀ →
    Good state s₀ → Run.Yields allowed s₀ (breakableChainLoop ctx fns state) Good
  | [], _, _, h, hs => .pure fun _ hle => h.keeps hle hs
  | fn :: fns, _, _, h, hs => by
      refine (h.createValue fn).bind fun s₁ h₁ fnRef hfn =>
        ((h.mono h₁).call hfn (h.keeps h₁ hs)).bind fun s₂ h₂ nextState hnext =>
          ((h.mono (h₁.trans h₂)).materializeValue hnext).bind fun s₃ h₃ pb _ => ?_
      have h₀₃ := (h₁.trans h₂).trans h₃
      rcases pb.boolean? with _ | _ | _
      · exact breakableChainLoop_yields fns (h.mono h₀₃) (h.keeps h₃ hnext)
      · exact breakableChainLoop_yields fns (h.mono h₀₃) (h.keeps h₀₃ hs)
      · exact .pure fun _ hle => h.keeps (h₀₃.trans hle) hs

theorem conditionalRound_yields : ∀ (bodyFns : List V) {s₀ : σ} {state : V}, ctx.Yields allowed Good s₀ →
    (∀ f ∈ bodyFns, Good f s₀) → Good state s₀ →
    Run.Yields allowed s₀ (conditionalRound ctx bodyFns state) fun r s => Good r.1 s
  | [], _, _, h, _, hs => .pure fun _ hle => h.keeps hle hs
  | bodyFn :: bodyFns, _, _, h, hfns, hs => by
      obtain ⟨hfn, hfns⟩ := List.forall_mem_cons.mp hfns
      refine (h.call hfn hs).bind fun s₁ h₁ fnVal hval =>
        ((h.mono h₁).materializeValue hval).bind fun s₂ h₂ pb _ => ?_
      have h₀₂ := h₁.trans h₂
      rcases pb.boolean? with _ | _ | _
      · refine ((h.mono h₀₂).createValue pb).bind fun s₃ h₃ state hs => ?_
        have h₀₃ := h₀₂.trans h₃
        exact conditionalRound_yields bodyFns (h.mono h₀₃) (fun f hf => h.keeps h₀₃ (hfns f hf)) hs
      · exact conditionalRound_yields bodyFns (h.mono h₀₂) (fun f hf => h.keeps h₀₂ (hfns f hf))
          (h.keeps h₀₂ hs)
      · exact .pure fun _ hle => h.keeps (h₀₂.trans hle) hs

theorem conditionalRounds_yields {bodyFns : List V} : ∀ (n : Nat) {s₀ : σ} {state : V},
    ctx.Yields allowed Good s₀ → (∀ f ∈ bodyFns, Good f s₀) → Good state s₀ →
    Run.Yields allowed s₀ (conditionalRounds ctx bodyFns n state) Good
  | 0, _, _, h, _, hs => .pure fun _ hle => h.keeps hle hs
  | n + 1, _, _, h, hfns, hs => by
      refine (conditionalRound_yields bodyFns h hfns hs).bind fun s₁ h₁ (state, shouldBreak) hs => ?_
      cases shouldBreak with
      | true => exact .pure fun _ hle => h.keeps hle hs
      | false => exact conditionalRounds_yields n (h.mono h₁) (fun f hf => h.keeps h₁ (hfns f hf)) hs

theorem parallelMapLoop_yields {fnVal : V} : ∀ (es : List Value) {s₀ : σ}, ctx.Yields allowed Good s₀ →
    Good fnVal s₀ → Run.Yields allowed s₀ (parallelMapLoop ctx fnVal es) fun rs s => ∀ r ∈ rs, Good r s
  | [], _, _, _ => .pure fun _ _ => List.forall_mem_nil _
  | e :: es, _, h, hfn => (h.createValue e).bind fun _ h₁ _ harg =>
      ((h.mono h₁).call (h.keeps h₁ hfn) harg).bind fun _ h₂ _ hr =>
        (parallelMapLoop_yields es (h.mono (h₁.trans h₂)) (h.keeps (h₁.trans h₂) hfn)).bind
          fun _ h₃ _ hrs => .pure fun _ hs => List.forall_mem_cons.mpr
            ⟨h.keeps (h₃.trans hs) hr, fun r hr => h.keeps hs (hrs r hr)⟩

theorem fallbackLoop_yields {arg : Option V} : ∀ (fns : List Value) (e : Status) {s₀ : σ},
    ctx.Yields allowed Good s₀ → (∀ v ∈ arg, Good v s₀) →
    Run.Yields allowed s₀ (fallbackLoop ctx arg e fns) Good
  | [], e, _, _, _ => .throw e
  | fnPb :: fns, _, _, h, harg => by
      refine (h.createValue fnPb).attempt.bind fun s₁ h₁ r hfn => ?_
      rcases r with e | fn
      · exact fallbackLoop_yields fns e (h.mono h₁) fun v hv => h.keeps h₁ (harg v hv)
      refine (h.createCall h₁ (hfn fn rfl) fun v hv => h.keeps h₁ (harg v hv)).attempt.bind
        fun s₂ h₂ r hres => ?_
      have h₀₂ := h₁.trans h₂
      rcases r with e | result
      · exact fallbackLoop_yields fns e (h.mono h₀₂) fun v hv => h.keeps h₀₂ (harg v hv)
      refine (h.materialize none h₀₂ (hres result rfl)).bind fun s₃ h₃ r _ => ?_
      have h₀₃ := h₀₂.trans h₃
      rcases r.status with e | ⟨⟩
      · exact fallbackLoop_yields fns e (h.mono h₀₃) fun v hv => h.keeps h₀₃ (harg v hv)
      · exact .pure fun _ hle => h.keeps (h₃.trans hle) (hres result rfl)

theorem conditionalExecuteCall_yields [ProtoText] {intr : Intrinsic} {arg : Option V}
    (h : ctx.Yields allowed Good s₀) (harg : ∀ v ∈ arg, Good v s₀)
    (hmiss : allowed .missingElement ∨ 2 ≤ intr.parameter.elements.length) :
    Run.Yields allowed s₀ (conditionalExecuteCall ctx intr arg) Good := by
  cases arg with
  | none => exact .throw _
  | some arg =>
      refine (h.materializeValue (harg arg rfl)).bind fun s₁ h₁ condPb _ => ?_
      cases condPb.boolean? with
      | none => exact .throw _
      | some cond =>
          refine (elementAt_yields (hmiss.imp_right fun hlen => ?_)).bind fun s₂ h₂ v _ =>
            (h.mono (h₁.trans h₂)).createValue v
          cases cond <;> simp <;> omega

theorem delegateExecuteCall_yields {runnerMap : RunnerMap} {intr : Intrinsic} {arg : Option V}
    (h : ctx.Yields allowed Good s₀) (harg : ∀ v ∈ arg, Good v s₀) (habs : allowed .absentOptional)
    (hmiss : allowed .missingElement ∨ (delegate runnerMap).HasElements intr) :
    Run.Yields allowed s₀ (delegateExecuteCall ctx runnerMap intr arg) Good := by
  refine (elementAt_yields (hmiss.imp_right fun hlen => hlen.1)).bind fun s₁ h₁ name hname => ?_
  dsimp only
  have henv : name.str = environmentName intr := by rw [environmentName, hname, Option.getD_some]
  rw [henv]
  cases hr : runnerMap (environmentName intr) with
  | none => exact .throw _
  | some runnerFn =>
      refine (elementAt_yields (hmiss.imp_right fun hlen => hlen.2 (by rw [hr]; rfl))).bind
        fun s₂ h₂ funcPb _ => ?_
      have h₀₂ := h₁.trans h₂
      refine Run.Yields.bind (Q := fun _ _ => True) ?_ fun s₃ h₃ optionalArgPb _ =>
        (Run.Yields.tell _).bind fun s₄ h₄ _ _ =>
          (Run.Yields.ofExcept (Q := fun _ _ => True) fun _ _ _ _ => trivial).bind
            fun s₅ h₅ resultPb _ =>
              (h.mono (((h₀₂.trans h₃).trans h₄).trans h₅)).createValue resultPb
      cases arg with
      | none => exact .pure fun _ _ => trivial
      | some arg =>
          exact ((h.mono h₀₂).materializeValue (h.keeps h₀₂ (harg arg rfl))).bind
            fun _ _ argPb _ => .crash habs

/-- **A handler conducts itself as its context does**, as far as its argument and the elements of its
static parameter are there. -/
theorem executeCall_yields [ProtoText] (h : ctx.Yields allowed Good s₀) (fuel : Nat)
    (handler : ControlFlowHandler) {intr : Intrinsic} {arg : Option V} (harg : ∀ v ∈ arg, Good v s₀)
    (habs : allowed .absentOptional)
    (hmiss : allowed .missingElement ∨ handler.HasElements intr) :
    Run.Yields allowed s₀ (executeCall ctx fuel handler intr arg) Good := by
  -- the argument, if there is one, is still good when it is read
  have hengaged : ∀ s₁, s₀ ≤ s₁ → Run.Yields allowed s₁ (engaged arg) Good := fun s₁ h₁ =>
    engaged_yields habs fun v hv s hs => h.keeps (h₁.trans hs) (harg v hv)
  cases handler with
  | breakableChain =>
      exact (hengaged s₀ (le_refl s₀)).bind fun s₁ h₁ _ hs => breakableChainLoop_yields _ (h.mono h₁) hs
  | serialChain =>
      exact (hengaged s₀ (le_refl s₀)).bind fun s₁ h₁ _ hs => serialChainLoop_yields _ (h.mono h₁) hs
  | conditional => exact conditionalExecuteCall_yields h harg hmiss
  | delegate runnerMap => exact delegateExecuteCall_yields h harg habs hmiss
  | fallback => exact fallbackLoop_yields _ _ h harg
  | parallelMap =>
      refine (hengaged s₀ (le_refl s₀)).bind fun s₁ h₁ state hs =>
        ((h.mono h₁).materializeValue hs).bind fun s₂ h₂ argsPb _ => ?_
      have h₀₂ := h₁.trans h₂
      exact ((h.mono h₀₂).createValue _).bind fun s₃ h₃ fnVal hfn =>
        (parallelMapLoop_yields _ (h.mono (h₀₂.trans h₃)) hfn).bind fun s₄ h₄ rs hrs =>
          h.createStruct ((h₀₂.trans h₃).trans h₄) hrs
  | «repeat» =>
      -- the number of steps and the body
      have hlen : ∀ i < 2, allowed .missingElement ∨ i < intr.parameter.elements.length :=
        fun i hi => hmiss.imp_right hi.trans_le
      refine (elementAt_yields (hlen 0 (by decide))).bind fun s₁ h₁ _ _ =>
        (elementAt_yields (hlen 1 (by decide))).bind fun s₂ h₂ v _ =>
          ((h.mono (h₁.trans h₂)).createValue v).bind fun s₃ h₃ bodyFn hfn => ?_
      have h₀₃ := (h₁.trans h₂).trans h₃
      exact (hengaged s₃ h₀₃).bind fun s₄ h₄ state hs =>
        repeatLoop_yields _ (h.mono (h₀₃.trans h₄)) (h.keeps h₄ hfn) hs
  | «while» =>
      have hlen : ∀ i < 2, allowed .missingElement ∨ i < intr.parameter.elements.length :=
        fun i hi => hmiss.imp_right hi.trans_le
      refine (elementAt_yields (hlen 0 (by decide))).bind fun s₁ h₁ v _ =>
        ((h.mono h₁).createValue v).bind fun s₂ h₂ conditionFn hcond =>
          (elementAt_yields (hlen 1 (by decide))).bind fun s₃ h₃ w _ =>
            ((h.mono ((h₁.trans h₂).trans h₃)).createValue w).bind fun s₄ h₄ bodyFn hbody => ?_
      have h₀₄ := ((h₁.trans h₂).trans h₃).trans h₄
      exact (hengaged s₄ h₀₄).bind fun s₅ h₅ state hs =>
        whileLoop_yields fuel (h.mono (h₀₄.trans h₅)) (h.keeps ((h₃.trans h₄).trans h₅) hcond)
          (h.keeps h₅ hbody) hs
  | repeatedConditionalChain =>
      refine (elementAt_yields hmiss).bind fun s₁ h₁ _ _ =>
        (Context.Yields.createValues _ (h.mono h₁)).bind fun s₂ h₂ bodyFns hfns => ?_
      have h₀₂ := h₁.trans h₂
      exact (hengaged s₂ h₀₂).bind fun s₃ h₃ state hs =>
        conditionalRounds_yields _ (h.mono (h₀₂.trans h₃)) (fun f hf => h.keeps h₃ (hfns f hf)) hs

end ControlFlowHandler

end GenC
