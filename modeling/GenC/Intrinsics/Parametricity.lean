import GenC.Intrinsics.ControlFlow
import GenC.Lib.Likeness
import GenC.Lib.Relator

/-!
# Handlers are parametric

A control-flow handler knows the values it works on only through its `Context`. If the operations of two
contexts take related values to related runs, then so does every handler
(`ControlFlowHandler.executeCall_related`), whatever relator it is that relates the runs. For runs in
lockstep from one state this is `ControlFlowHandler.executeCall_alike`.

The IR that a handler passes on comes from its static parameter, from what it materializes, or from a
runner; it is `Good` wherever these are.
-/

namespace GenC

open Lib

/-- Errors of one kind. Their messages may differ. -/
def Status.SameCode (e e' : Status) : Prop := e.code = e'.code

theorem Status.SameCode.refl (e : Status) : e.SameCode e := Eq.refl e.code

/-- A property of IR that a default instance has, and that a struct hands on to its elements. -/
structure Value.Inherited (Good : Value → Prop) : Prop where
  default : Good .defaultInstance
  elements : ∀ {v}, Good v → ∀ e ∈ v.elements, Good e

/-- Good IR is all that the handler makes of good IR. -/
def ControlFlowHandler.Keeps (Good : Value → Prop) : ControlFlowHandler → Prop
  | .delegate runnerMap => ∀ env runnerFn, runnerMap env = some runnerFn → ∀ func arg result,
      Good func → (∀ w ∈ arg, Good w) → runnerFn func arg = .ok result → Good result
  | _ => True

/-- The check of a handler is the same on both sides. -/
theorem runCheckWellFormed_related [ProtoText] {σ τ : Type} (𝓡 : Relator Event Crash Status σ τ) {w : 𝓡.World}
    (handler : IntrinsicHandler) (intr : Intrinsic) : 𝓡.Rel w (fun _ => Eq)
      (handler.runCheckWellFormed intr : Exec σ Unit) (handler.runCheckWellFormed intr) := by
  refine 𝓡.bind (𝓡.tell _) fun w' _ _ _ _ => ?_
  cases handler.checkWellFormed intr with
  | none => exact 𝓡.crash _
  | some r => exact 𝓡.ofExcept_same r

/-- From the world `w₀` on, the operations of the two contexts take good IR and related values to related
runs, and materialize related values to the same, which is good. For calls without an argument this is
asked if `absent` holds. -/
structure Context.Related {σ τ V W : Type} (𝓡 : Relator Event Crash Status σ τ) (absent : Prop)
    (Good : Value → Prop) (R : 𝓡.World → V → W → Prop) (w₀ : 𝓡.World) (ctx : Context σ V)
    (ctx' : Context τ W) : Prop where
  keeps : ∀ {w w' v v'}, w ≤ w' → R w v v' → R w' v v'
  createValue : ∀ {w v}, w₀ ≤ w → Good v → 𝓡.Rel w R (ctx.createValue v) (ctx'.createValue v)
  createCall : ∀ {w f f' a a'}, w₀ ≤ w → R w f f' → Option.Rel (R w) a a' → (a = none → absent) →
    𝓡.Rel w R (ctx.createCall f a) (ctx'.createCall f' a')
  createStruct : ∀ {w vs vs'}, w₀ ≤ w → List.Forall₂ (R w) vs vs' →
    𝓡.Rel w R (ctx.createStruct vs) (ctx'.createStruct vs')
  materialize : ∀ {w v v'} output, w₀ ≤ w → R w v v' → (∀ pb ∈ output, Good pb) →
    𝓡.Rel w (fun _ m m' => m = m' ∧ ∀ pb ∈ m.output, Good pb) (ctx.materialize v output)
      (ctx'.materialize v' output)

variable {σ τ V W : Type} {𝓡 : Relator Event Crash Status σ τ} {absent : Prop} {Good : Value → Prop}
  {R : 𝓡.World → V → W → Prop} {w w₀ w₁ : 𝓡.World} {ctx : Context σ V} {ctx' : Context τ W}

namespace Context.Related

theorem mono (h : ctx.Related 𝓡 absent Good R w₀ ctx') (hw : w₀ ≤ w₁) :
    ctx.Related 𝓡 absent Good R w₁ ctx' where
  keeps := h.keeps
  createValue hle := h.createValue (hw.trans hle)
  createCall hle := h.createCall (hw.trans hle)
  createStruct hle := h.createStruct (hw.trans hle)
  materialize output hle := h.materialize output (hw.trans hle)

theorem keepsAll (h : ctx.Related 𝓡 absent Good R w₀ ctx') {w w' : 𝓡.World} {vs : List V} {vs' : List W}
    (hw : w ≤ w') (hvs : List.Forall₂ (R w) vs vs') : List.Forall₂ (R w') vs vs' :=
  hvs.imp fun _ _ => h.keeps hw

theorem keepsArg (h : ctx.Related 𝓡 absent Good R w₀ ctx') {w w' : 𝓡.World} {arg : Option V}
    {arg' : Option W} (hw : w ≤ w') (harg : Option.Rel (R w) arg arg') : Option.Rel (R w') arg arg' := by
  cases harg with
  | some harg => exact .some (h.keeps hw harg)
  | none => exact .none

theorem call (h : ctx.Related 𝓡 absent Good R w₀ ctx') {f a : V} {f' a' : W} (hf : R w₀ f f')
    (ha : R w₀ a a') : 𝓡.Rel w₀ R (ctx.createCall f (some a)) (ctx'.createCall f' (some a')) :=
  h.createCall (le_refl _) hf (.some ha) fun hnone => (nomatch hnone)

theorem get (m : MaterializeResult) (hdefault : Good .defaultInstance)
    (hm : ∀ pb ∈ m.output, Good pb) :
    𝓡.Rel w (fun _ pb pb' => pb = pb' ∧ Good pb) (m.get : Exec σ Value) (m.get : Exec τ Value) := by
  rw [MaterializeResult.get, MaterializeResult.get]
  cases m.status with
  | error e => exact 𝓡.throw (𝓡.error_refl e)
  | ok =>
      refine 𝓡.pure fun _ _ => ⟨rfl, ?_⟩
      cases hw : m.output with
      | none => exact hdefault
      | some pb => exact hm pb hw

/-- What is materialized is the same on both sides. -/
theorem materializeValue (h : ctx.Related 𝓡 absent Good R w₀ ctx') (hgood : Value.Inherited Good) {v : V}
    {v' : W} (hv : R w₀ v v') : 𝓡.Rel w₀ (fun _ pb pb' => pb = pb' ∧ Good pb) (ctx.materializeValue v)
      (ctx'.materializeValue v') := by
  have houtput : ∀ pb ∈ some Value.defaultInstance, Good pb := by
    rintro pb ⟨⟩
    exact hgood.default
  refine 𝓡.bind (h.materialize _ (le_refl _) hv houtput) fun w hw m m' => ?_
  rintro ⟨rfl, hm⟩
  exact get m hgood.default hm

theorem createValues : ∀ {vs : List Value} {w₀ : 𝓡.World}, ctx.Related 𝓡 absent Good R w₀ ctx' →
    (∀ v ∈ vs, Good v) →
      𝓡.Rel w₀ (fun w => List.Forall₂ (R w)) (ctx.createValues vs) (ctx'.createValues vs)
  | [], _, _, _ => 𝓡.pure fun _ _ => .nil
  | v :: vs, _, h, hvs => by
      obtain ⟨hv, hvs⟩ := List.forall_mem_cons.mp hvs
      refine 𝓡.bind (h.createValue (le_refl _) hv) fun w₁ h₁ _ _ hr => ?_
      refine 𝓡.bind (createValues (h.mono h₁) hvs) fun w₂ h₂ _ _ hrs => ?_
      exact 𝓡.pure fun _ hw => .cons (h.keeps (h₂.trans hw) hr) (h.keepsAll hw hrs)

end Context.Related

theorem engaged_related (h : ctx.Related 𝓡 absent Good R w₀ ctx') {arg : Option V} {arg' : Option W}
    (harg : Option.Rel (R w₀) arg arg') : 𝓡.Rel w₀ R (engaged arg : Exec σ V) (engaged arg' : Exec τ W) := by
  cases harg with
  | some harg => exact 𝓡.pure fun _ hw => h.keeps hw harg
  | none => exact 𝓡.crash _

theorem elementAt_related {es : List Value} (hes : ∀ e ∈ es, Good e) (i : Nat) :
    𝓡.Rel w (fun _ v v' => v = v' ∧ Good v) (elementAt es i : Exec σ Value)
      (elementAt es i : Exec τ Value) := by
  unfold elementAt
  cases hi : es[i]? with
  | none => exact 𝓡.crash _
  | some v => exact 𝓡.pure fun _ _ => ⟨rfl, hes v (List.mem_of_getElem? hi)⟩

namespace ControlFlowHandler

theorem repeatLoop_related {bodyFn : V} {bodyFn' : W} : ∀ (n : Nat) {w : 𝓡.World} {state : V} {state' : W},
    ctx.Related 𝓡 absent Good R w ctx' → R w bodyFn bodyFn' → R w state state' →
      𝓡.Rel w R (repeatLoop ctx bodyFn n state) (repeatLoop ctx' bodyFn' n state')
  | 0, _, _, _, h, _, hs => 𝓡.pure fun _ hw => h.keeps hw hs
  | n + 1, _, _, _, h, hfn, hs => 𝓡.bind (h.call hfn hs) fun _ hw _ _ hs =>
      repeatLoop_related n (h.mono hw) (h.keeps hw hfn) hs

theorem whileLoop_related [ProtoText] (hgood : Value.Inherited Good) {conditionFn bodyFn : V}
    {conditionFn' bodyFn' : W} : ∀ (fuel : Nat) {w : 𝓡.World} {state : V} {state' : W},
      ctx.Related 𝓡 absent Good R w ctx' → R w conditionFn conditionFn' → R w bodyFn bodyFn' →
        R w state state' → 𝓡.Rel w R (whileLoop ctx conditionFn bodyFn fuel state)
          (whileLoop ctx' conditionFn' bodyFn' fuel state')
  | 0, _, _, _, _, _, _, _ => 𝓡.outOfFuel
  | fuel + 1, _, _, _, h, hcond, hbody, hs => by
      refine 𝓡.bind (h.call hcond hs) fun w₁ h₁ _ _ hval =>
        𝓡.bind ((h.mono h₁).materializeValue hgood hval) fun w₂ h₂ pb _ => ?_
      rintro ⟨rfl, -⟩
      have h₀₂ := h₁.trans h₂
      rcases pb.boolean? with _ | _ | _
      · exact 𝓡.throw (𝓡.error_refl _)
      · exact 𝓡.pure fun _ hw => h.keeps (h₀₂.trans hw) hs
      · refine 𝓡.bind ((h.mono h₀₂).call (h.keeps h₀₂ hbody) (h.keeps h₀₂ hs)) fun w₃ h₃ _ _ hs => ?_
        have h₀₃ := h₀₂.trans h₃
        exact whileLoop_related hgood fuel (h.mono h₀₃) (h.keeps h₀₃ hcond) (h.keeps h₀₃ hbody) hs

theorem serialChainLoop_related : ∀ {fns : List Value} {w : 𝓡.World} {state : V} {state' : W},
    ctx.Related 𝓡 absent Good R w ctx' → (∀ fn ∈ fns, Good fn) → R w state state' →
      𝓡.Rel w R (serialChainLoop ctx fns state) (serialChainLoop ctx' fns state')
  | [], _, _, _, h, _, hs => 𝓡.pure fun _ hw => h.keeps hw hs
  | fn :: fns, _, _, _, h, hfns, hs => by
      obtain ⟨hfn, hfns⟩ := List.forall_mem_cons.mp hfns
      exact 𝓡.bind (h.createValue (le_refl _) hfn) fun w₁ h₁ _ _ hfn =>
        𝓡.bind ((h.mono h₁).call hfn (h.keeps h₁ hs)) fun w₂ h₂ _ _ hs =>
          serialChainLoop_related (h.mono (h₁.trans h₂)) hfns hs

theorem breakableChainLoop_related (hgood : Value.Inherited Good) :
    ∀ {fns : List Value} {w : 𝓡.World} {state : V} {state' : W}, ctx.Related 𝓡 absent Good R w ctx' →
      (∀ fn ∈ fns, Good fn) → R w state state' →
        𝓡.Rel w R (breakableChainLoop ctx fns state) (breakableChainLoop ctx' fns state')
  | [], _, _, _, h, _, hs => 𝓡.pure fun _ hw => h.keeps hw hs
  | fn :: fns, _, _, _, h, hfns, hs => by
      obtain ⟨hfn, hfns⟩ := List.forall_mem_cons.mp hfns
      refine 𝓡.bind (h.createValue (le_refl _) hfn) fun w₁ h₁ _ _ hfn =>
        𝓡.bind ((h.mono h₁).call hfn (h.keeps h₁ hs)) fun w₂ h₂ _ _ hnext =>
          𝓡.bind ((h.mono (h₁.trans h₂)).materializeValue hgood hnext) fun w₃ h₃ pb _ => ?_
      rintro ⟨rfl, -⟩
      have h₀₃ := (h₁.trans h₂).trans h₃
      rcases pb.boolean? with _ | _ | _
      · exact breakableChainLoop_related hgood (h.mono h₀₃) hfns (h.keeps h₃ hnext)
      · exact breakableChainLoop_related hgood (h.mono h₀₃) hfns (h.keeps h₀₃ hs)
      · exact 𝓡.pure fun _ hw => h.keeps (h₀₃.trans hw) hs

/-- What a function materializes to is created anew, in the scope of the intrinsic. -/
theorem conditionalRound_related (hgood : Value.Inherited Good) : ∀ {bodyFns : List V} {bodyFns' : List W}
    {w : 𝓡.World} {state : V} {state' : W}, ctx.Related 𝓡 absent Good R w ctx' →
      List.Forall₂ (R w) bodyFns bodyFns' → R w state state' →
        𝓡.Rel w (fun w r r' => R w r.1 r'.1 ∧ r.2 = r'.2) (conditionalRound ctx bodyFns state)
          (conditionalRound ctx' bodyFns' state')
  | _, _, _, _, _, h, .nil, hs => 𝓡.pure fun _ hw => ⟨h.keeps hw hs, rfl⟩
  | _, _, _, _, _, h, .cons hfn hfns, hs => by
      refine 𝓡.bind (h.call hfn hs) fun w₁ h₁ _ _ hval =>
        𝓡.bind ((h.mono h₁).materializeValue hgood hval) fun w₂ h₂ pb _ => ?_
      rintro ⟨rfl, hpb⟩
      have h₀₂ := h₁.trans h₂
      rcases pb.boolean? with _ | _ | _
      · refine 𝓡.bind ((h.mono h₀₂).createValue (le_refl _) hpb) fun w₃ h₃ _ _ hs => ?_
        have h₀₃ := h₀₂.trans h₃
        exact conditionalRound_related hgood (h.mono h₀₃) (h.keepsAll h₀₃ hfns) hs
      · exact conditionalRound_related hgood (h.mono h₀₂) (h.keepsAll h₀₂ hfns) (h.keeps h₀₂ hs)
      · exact 𝓡.pure fun _ hw => ⟨h.keeps (h₀₂.trans hw) hs, rfl⟩

theorem conditionalRounds_related (hgood : Value.Inherited Good) {bodyFns : List V} {bodyFns' : List W} :
    ∀ (n : Nat) {w : 𝓡.World} {state : V} {state' : W}, ctx.Related 𝓡 absent Good R w ctx' →
      List.Forall₂ (R w) bodyFns bodyFns' → R w state state' →
        𝓡.Rel w R (conditionalRounds ctx bodyFns n state) (conditionalRounds ctx' bodyFns' n state')
  | 0, _, _, _, h, _, hs => 𝓡.pure fun _ hw => h.keeps hw hs
  | n + 1, _, _, _, h, hfns, hs => by
      refine 𝓡.bind (conditionalRound_related hgood h hfns hs)
        fun w₁ h₁ (state, shouldBreak) (state', _) => ?_
      rintro ⟨hs, rfl⟩
      cases shouldBreak with
      | true => exact 𝓡.pure fun _ hw => h.keeps hw hs
      | false => exact conditionalRounds_related hgood n (h.mono h₁) (h.keepsAll h₁ hfns) hs

/-- So is each element that is mapped over. -/
theorem parallelMapLoop_related {fnVal : V} {fnVal' : W} : ∀ {es : List Value} {w : 𝓡.World},
    ctx.Related 𝓡 absent Good R w ctx' → R w fnVal fnVal' → (∀ e ∈ es, Good e) →
      𝓡.Rel w (fun w => List.Forall₂ (R w)) (parallelMapLoop ctx fnVal es)
        (parallelMapLoop ctx' fnVal' es)
  | [], _, _, _, _ => 𝓡.pure fun _ _ => .nil
  | e :: es, _, h, hfn, hes => by
      obtain ⟨he, hes⟩ := List.forall_mem_cons.mp hes
      refine 𝓡.bind (h.createValue (le_refl _) he) fun w₁ h₁ _ _ harg =>
        𝓡.bind ((h.mono h₁).call (h.keeps h₁ hfn) harg) fun w₂ h₂ _ _ hr => ?_
      have h₀₂ := h₁.trans h₂
      refine 𝓡.bind (parallelMapLoop_related (h.mono h₀₂) (h.keeps h₀₂ hfn) hes) fun w₃ h₃ _ _ hrs => ?_
      exact 𝓡.pure fun _ hw => .cons (h.keeps (h₃.trans hw) hr) (h.keepsAll hw hrs)

theorem conditionalExecuteCall_related [ProtoText] (h : ctx.Related 𝓡 absent Good R w ctx')
    (hgood : Value.Inherited Good) {intr : Intrinsic} (hintr : Good intr.parameter) {arg : Option V}
    {arg' : Option W} (harg : Option.Rel (R w) arg arg') :
    𝓡.Rel w R (conditionalExecuteCall ctx intr arg) (conditionalExecuteCall ctx' intr arg') := by
  cases harg with
  | none => exact 𝓡.throw (𝓡.error_refl _)
  | some harg =>
      refine 𝓡.bind (h.materializeValue hgood harg) fun w₁ h₁ pb _ => ?_
      rintro ⟨rfl, -⟩
      cases pb.boolean? with
      | none => exact 𝓡.throw (𝓡.error_refl _)
      | some cond =>
          refine 𝓡.bind (elementAt_related (hgood.elements hintr) _) fun w₂ h₂ v _ => ?_
          rintro ⟨rfl, hv⟩
          exact h.createValue (h₁.trans h₂) hv

theorem fallbackLoop_related {arg : Option V} {arg' : Option W} (habsent : arg = none → absent) :
    ∀ {fns : List Value} {e e' : Status} {w : 𝓡.World}, ctx.Related 𝓡 absent Good R w ctx' →
      Option.Rel (R w) arg arg' → (∀ fn ∈ fns, Good fn) → 𝓡.Error e e' →
        𝓡.Rel w R (fallbackLoop ctx arg e fns) (fallbackLoop ctx' arg' e' fns)
  | [], _, _, _, _, _, _, he => 𝓡.throw he
  | fnPb :: fns, _, _, _, h, harg, hfns, _ => by
      obtain ⟨hfn, hfns⟩ := List.forall_mem_cons.mp hfns
      refine 𝓡.bind (𝓡.attempt (h.createValue (le_refl _) hfn)) fun w₁ h₁ r r' hr => ?_
      rcases r with e | fn <;> rcases r' with e' | fn'
      · exact fallbackLoop_related habsent (h.mono h₁) (h.keepsArg h₁ harg) hfns hr
      · exact hr.elim
      · exact hr.elim
      refine 𝓡.bind (𝓡.attempt ((h.mono h₁).createCall (le_refl _) hr (h.keepsArg h₁ harg) habsent))
        fun w₂ h₂ r r' hr => ?_
      have h₀₂ := h₁.trans h₂
      rcases r with e | result <;> rcases r' with e' | result'
      · exact fallbackLoop_related habsent (h.mono h₀₂) (h.keepsArg h₀₂ harg) hfns hr
      · exact hr.elim
      · exact hr.elim
      refine 𝓡.bind ((h.mono h₀₂).materialize none (le_refl _) hr fun _ hw => (nomatch hw))
        fun w₃ h₃ m _ => ?_
      rintro ⟨rfl, -⟩
      have h₀₃ := h₀₂.trans h₃
      rcases m.status with e | ⟨⟩
      · exact fallbackLoop_related habsent (h.mono h₀₃) (h.keepsArg h₀₃ harg) hfns (𝓡.error_refl e)
      · exact 𝓡.pure fun _ hw => h.keeps (h₃.trans hw) hr

theorem delegateArgument_related (h : ctx.Related 𝓡 absent Good R w ctx') (hgood : Value.Inherited Good)
    {arg : Option V} {arg' : Option W} (harg : Option.Rel (R w) arg arg') :
    𝓡.Rel w (fun _ pb pb' => pb = pb' ∧ ∀ v ∈ pb, Good v) (delegateArgument ctx arg)
      (delegateArgument ctx' arg') := by
  cases harg with
  | none => exact 𝓡.pure fun _ _ => ⟨rfl, fun _ hw => (nomatch hw)⟩
  | some harg => exact 𝓡.bind (h.materializeValue hgood harg) fun _ _ _ _ _ => 𝓡.crash _

theorem delegateExecuteCall_related (h : ctx.Related 𝓡 absent Good R w ctx') (hgood : Value.Inherited Good)
    {runnerMap : RunnerMap} (hkeeps : (delegate runnerMap).Keeps Good) {intr : Intrinsic}
    (hintr : Good intr.parameter) {arg : Option V} {arg' : Option W} (harg : Option.Rel (R w) arg arg') :
    𝓡.Rel w R (delegateExecuteCall ctx runnerMap intr arg) (delegateExecuteCall ctx' runnerMap intr arg') := by
  have helements := hgood.elements hintr
  refine 𝓡.bind (elementAt_related helements 0) fun w₁ h₁ name _ => ?_
  rintro ⟨rfl, -⟩
  dsimp only
  cases hrunner : runnerMap name.str with
  | none => exact 𝓡.throw (𝓡.error_refl _)
  | some runnerFn =>
      refine 𝓡.bind (elementAt_related helements 1) fun w₂ h₂ funcPb _ => ?_
      rintro ⟨rfl, hfunc⟩
      have h₀₂ := h₁.trans h₂
      refine 𝓡.bind (delegateArgument_related (h.mono h₀₂) hgood (h.keepsArg h₀₂ harg))
        fun w₃ h₃ optionalArgPb _ => ?_
      rintro ⟨rfl, harg⟩
      refine 𝓡.bind (𝓡.tell _) fun w₄ h₄ _ _ _ => ?_
      -- the runner sees the same function and argument, so it gives the same
      have hresult (w : 𝓡.World) : Except.Related 𝓡.Error (fun pb pb' => pb = pb' ∧ Good pb)
          (runnerFn funcPb optionalArgPb) (runnerFn funcPb optionalArgPb) := by
        cases hresult : runnerFn funcPb optionalArgPb with
        | error e => exact 𝓡.error_refl e
        | ok result => exact ⟨rfl, hkeeps _ _ hrunner _ _ _ hfunc harg hresult⟩
      refine 𝓡.bind (𝓡.ofExcept fun w _ => hresult w) fun w₅ h₅ pb _ => ?_
      rintro ⟨rfl, hpb⟩
      exact h.createValue (((h₀₂.trans h₃).trans h₄).trans h₅) hpb

/-- **A handler takes related arguments to related runs** in contexts that do. -/
theorem executeCall_related [ProtoText] (h : ctx.Related 𝓡 absent Good R w ctx')
    (hgood : Value.Inherited Good) (fuel : Nat) {handler : ControlFlowHandler} (hkeeps : handler.Keeps Good)
    {intr : Intrinsic} (hintr : Good intr.parameter) {arg : Option V} {arg' : Option W}
    (harg : Option.Rel (R w) arg arg') (habsent : arg = none → absent) :
    𝓡.Rel w R (executeCall ctx fuel handler intr arg) (executeCall ctx' fuel handler intr arg') := by
  have helements := hgood.elements hintr
  -- a parameter of the intrinsic is made a value of
  have hcreateElement : ∀ {i : Nat} {w₁ : 𝓡.World} {S : 𝓡.World → V → W → Prop} {f : V → Exec σ V}
      {g : W → Exec τ W}, w ≤ w₁ → (∀ w', w₁ ≤ w' → ∀ v v', R w' v v' → 𝓡.Rel w' S (f v) (g v')) →
      𝓡.Rel w₁ S (elementAt intr.parameter.elements i >>= fun v => ctx.createValue v >>= f)
        (elementAt intr.parameter.elements i >>= fun v => ctx'.createValue v >>= g) := by
    intro i w₁ S f g h₁ hfg
    refine 𝓡.bind (elementAt_related helements i) fun w₂ h₂ v _ => ?_
    rintro ⟨rfl, hv⟩
    exact 𝓡.bind (h.createValue (h₁.trans h₂) hv) fun w₃ h₃ => hfg w₃ (h₂.trans h₃)
  cases handler with
  | breakableChain =>
      exact 𝓡.bind (engaged_related h harg) fun _ h₁ _ _ hs =>
        breakableChainLoop_related hgood (h.mono h₁) helements hs
  | serialChain =>
      exact 𝓡.bind (engaged_related h harg) fun _ h₁ _ _ hs =>
        serialChainLoop_related (h.mono h₁) helements hs
  | conditional => exact conditionalExecuteCall_related h hgood hintr harg
  | delegate runnerMap => exact delegateExecuteCall_related h hgood hkeeps hintr harg
  | fallback => exact fallbackLoop_related habsent h harg helements (𝓡.error_refl _)
  | parallelMap =>
      refine 𝓡.bind (engaged_related h harg) fun w₁ h₁ _ _ hs =>
        𝓡.bind ((h.mono h₁).materializeValue hgood hs) fun w₂ h₂ pb _ => ?_
      rintro ⟨rfl, hpb⟩
      have h₀₂ := h₁.trans h₂
      exact 𝓡.bind (h.createValue h₀₂ hintr) fun w₃ h₃ _ _ hfn =>
        𝓡.bind (parallelMapLoop_related (h.mono (h₀₂.trans h₃)) hfn (hgood.elements hpb))
          fun w₄ h₄ _ _ hrs => h.createStruct ((h₀₂.trans h₃).trans h₄) hrs
  | «repeat» =>
      refine 𝓡.bind (elementAt_related helements 0) fun w₁ h₁ numSteps _ => ?_
      rintro ⟨rfl, -⟩
      refine hcreateElement h₁ fun w₂ h₂ _ _ hfn => ?_
      have h₀₂ := h₁.trans h₂
      exact 𝓡.bind (engaged_related (h.mono h₀₂) (h.keepsArg h₀₂ harg)) fun w₃ h₃ _ _ hs =>
        repeatLoop_related _ (h.mono (h₀₂.trans h₃)) (h.keeps h₃ hfn) hs
  | «while» =>
      refine hcreateElement (le_refl w) fun w₁ h₁ _ _ hcond => hcreateElement h₁ fun w₂ h₂ _ _ hbody => ?_
      have h₀₂ := h₁.trans h₂
      exact 𝓡.bind (engaged_related (h.mono h₀₂) (h.keepsArg h₀₂ harg)) fun w₃ h₃ _ _ hs =>
        whileLoop_related hgood fuel (h.mono (h₀₂.trans h₃)) (h.keeps (h₂.trans h₃) hcond)
          (h.keeps h₃ hbody) hs
  | repeatedConditionalChain =>
      refine 𝓡.bind (elementAt_related helements 0) fun w₁ h₁ numSteps _ => ?_
      rintro ⟨rfl, -⟩
      have hfns : ∀ v ∈ intr.parameter.elements.drop 1, Good v := fun v hv =>
        helements v (List.mem_of_mem_drop hv)
      refine 𝓡.bind (Context.Related.createValues (h.mono h₁) hfns) fun w₂ h₂ _ _ hfns => ?_
      have h₀₂ := h₁.trans h₂
      exact 𝓡.bind (engaged_related (h.mono h₀₂) (h.keepsArg h₀₂ harg)) fun w₃ h₃ _ _ hs =>
        conditionalRounds_related hgood _ (h.mono (h₀₂.trans h₃)) (h.keepsAll h₃ hfns) hs

end ControlFlowHandler

/-! ## Lockstep -/

/-- The operations of the two contexts run alike on good IR and related values, and materialize related
values to the same, which is good. Calls without an argument do so if `absent` holds. -/
structure Context.Alike {σ V : Type} (absent : Prop) (I : σ → Prop) (Good : Value → Prop)
    (R : V → V → Prop) (ctx ctx' : Context σ V) : Prop where
  createValue : ∀ {v}, Good v →
    Run.Alike I Status.SameCode R (ctx.createValue v) (ctx'.createValue v)
  createCall : ∀ {f f' a a'}, R f f' → Option.Rel R a a' → (a = none → absent) →
    Run.Alike I Status.SameCode R (ctx.createCall f a) (ctx'.createCall f' a')
  createStruct : ∀ {vs vs'}, List.Forall₂ R vs vs' →
    Run.Alike I Status.SameCode R (ctx.createStruct vs) (ctx'.createStruct vs')
  materialize : ∀ {v v'} output, R v v' → (∀ w ∈ output, Good w) →
    Run.Alike I Status.SameCode (fun m m' => m = m' ∧ ∀ w ∈ m.output, Good w)
      (ctx.materialize v output) (ctx'.materialize v' output)

/-- **A handler runs alike in contexts that are alike**, on related arguments. -/
theorem ControlFlowHandler.executeCall_alike [ProtoText] {I : σ → Prop} {R : V → V → Prop}
    {ctx ctx' : Context σ V} (h : ctx.Alike absent I Good R ctx') (hgood : Value.Inherited Good)
    (fuel : Nat) {handler : ControlFlowHandler} (hkeeps : handler.Keeps Good) {intr : Intrinsic}
    (hintr : Good intr.parameter) {arg arg' : Option V} (harg : Option.Rel R arg arg')
    (habsent : arg = none → absent) :
    Run.Alike I Status.SameCode R (executeCall ctx fuel handler intr arg)
      (executeCall ctx' fuel handler intr arg') := by
  let 𝓡 : Relator Event Crash Status σ σ := .lockstep Event Crash I Status.SameCode fun _ => rfl
  have hrelated : ctx.Related 𝓡 absent Good (fun _ => R) () ctx' :=
    { keeps := fun _ hv => hv
      createValue := fun _ => h.createValue
      createCall := fun _ => h.createCall
      createStruct := fun _ => h.createStruct
      materialize := fun output _ => h.materialize output }
  exact executeCall_related hrelated hgood fuel hkeeps hintr harg habsent

end GenC
