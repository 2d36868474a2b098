import GenC.Intrinsics.ControlFlow

/-!
# Handlers are monotone in their context

If one context does whatever another does wherever that has enough fuel, then a handler does in it
whatever it does in the other (`ControlFlowHandler.executeCall_le`).
-/

namespace GenC

open Lib

variable {σ V : Type}

/-- `ctx'` does whatever `ctx` does, wherever `ctx` has enough fuel. -/
structure Context.Le (ctx ctx' : Context σ V) : Prop where
  createValue : ∀ v, Run.Le (ctx.createValue v) (ctx'.createValue v)
  createCall : ∀ f a, Run.Le (ctx.createCall f a) (ctx'.createCall f a)
  createStruct : ∀ vs, Run.Le (ctx.createStruct vs) (ctx'.createStruct vs)
  createSelection : ∀ v i, Run.Le (ctx.createSelection v i) (ctx'.createSelection v i)
  materialize : ∀ v pb, Run.Le (ctx.materialize v pb) (ctx'.materialize v pb)

namespace Context.Le

variable {ctx ctx' : Context σ V}

theorem materializeValue (h : ctx.Le ctx') (v : V) :
    Run.Le (ctx.materializeValue v) (ctx'.materializeValue v) :=
  (h.materialize v _).bind fun _ => .refl _

theorem createValues (h : ctx.Le ctx') :
    ∀ vs, Run.Le (ctx.createValues vs) (ctx'.createValues vs)
  | [] => .refl _
  | v :: vs => (h.createValue v).bind fun _ => (h.createValues vs).bind fun _ => .refl _

end Context.Le

namespace ControlFlowHandler

variable {ctx ctx' : Context σ V}

theorem repeatLoop_le (h : ctx.Le ctx') (bodyFn : V) : ∀ (n : Nat) (state : V),
    Run.Le (repeatLoop ctx bodyFn n state) (repeatLoop ctx' bodyFn n state)
  | 0, _ => .refl _
  | n + 1, state => (h.createCall bodyFn (some state)).bind (repeatLoop_le h bodyFn n)

theorem repeatExecuteCall_le (h : ctx.Le ctx') (intr : Intrinsic) (arg : Option V) :
    Run.Le (repeatExecuteCall ctx intr arg) (repeatExecuteCall ctx' intr arg) :=
  .bind (.refl _) fun _ => .bind (.refl _) fun v => (h.createValue v).bind fun bodyFn =>
    .bind (.refl _) (repeatLoop_le h bodyFn _)

theorem whileLoop_le [ProtoText] (h : ctx.Le ctx') (conditionFn bodyFn : V) : ∀ {n m : Nat}, n ≤ m →
    ∀ state, Run.Le (whileLoop ctx conditionFn bodyFn n state)
      (whileLoop ctx' conditionFn bodyFn m state)
  | 0, _, _, _ => .outOfFuel_le _
  | n + 1, m + 1, hnm, state => by
      refine (h.createCall conditionFn (some state)).bind fun conditionVal =>
        (h.materializeValue conditionVal).bind fun condPb => ?_
      rcases condPb.boolean? with _ | _ | _
      · exact .refl _
      · exact .refl _
      · exact (h.createCall bodyFn (some state)).bind
          (whileLoop_le h conditionFn bodyFn (Nat.le_of_succ_le_succ hnm))

theorem whileExecuteCall_le [ProtoText] (h : ctx.Le ctx') {n m : Nat} (hnm : n ≤ m) (intr : Intrinsic)
    (arg : Option V) : Run.Le (whileExecuteCall ctx n intr arg) (whileExecuteCall ctx' m intr arg) :=
  .bind (.refl _) fun v => (h.createValue v).bind fun conditionFn =>
    .bind (.refl _) fun w => (h.createValue w).bind fun bodyFn =>
      .bind (.refl _) (whileLoop_le h conditionFn bodyFn hnm)

theorem serialChainLoop_le (h : ctx.Le ctx') : ∀ (fns : List Value) (state : V),
    Run.Le (serialChainLoop ctx fns state) (serialChainLoop ctx' fns state)
  | [], _ => .refl _
  | fn :: fns, state => (h.createValue fn).bind fun fnRef =>
      (h.createCall fnRef (some state)).bind (serialChainLoop_le h fns)

theorem breakableChainLoop_le (h : ctx.Le ctx') : ∀ (fns : List Value) (state : V),
    Run.Le (breakableChainLoop ctx fns state) (breakableChainLoop ctx' fns state)
  | [], _ => .refl _
  | fn :: fns, state => by
      refine (h.createValue fn).bind fun fnRef =>
        (h.createCall fnRef (some state)).bind fun nextState =>
          (h.materializeValue nextState).bind fun pb => ?_
      rcases pb.boolean? with _ | _ | _
      · exact breakableChainLoop_le h fns nextState
      · exact breakableChainLoop_le h fns state
      · exact .refl _

theorem conditionalRound_le (h : ctx.Le ctx') : ∀ (bodyFns : List V) (state : V),
    Run.Le (conditionalRound ctx bodyFns state) (conditionalRound ctx' bodyFns state)
  | [], _ => .refl _
  | bodyFn :: bodyFns, state => by
      refine (h.createCall bodyFn (some state)).bind fun fnVal =>
        (h.materializeValue fnVal).bind fun pb => ?_
      rcases pb.boolean? with _ | _ | _
      · exact (h.createValue pb).bind (conditionalRound_le h bodyFns)
      · exact conditionalRound_le h bodyFns state
      · exact .refl _

theorem conditionalRounds_le (h : ctx.Le ctx') (bodyFns : List V) : ∀ (n : Nat) (state : V),
    Run.Le (conditionalRounds ctx bodyFns n state) (conditionalRounds ctx' bodyFns n state)
  | 0, _ => .refl _
  | n + 1, state => by
      refine (conditionalRound_le h bodyFns state).bind fun (state, shouldBreak) => ?_
      cases shouldBreak with
      | true => exact .refl _
      | false => exact conditionalRounds_le h bodyFns n state

theorem parallelMapLoop_le (h : ctx.Le ctx') (fnVal : V) : ∀ es : List Value,
    Run.Le (parallelMapLoop ctx fnVal es) (parallelMapLoop ctx' fnVal es)
  | [] => .refl _
  | e :: es => (h.createValue e).bind fun argVal => (h.createCall fnVal (some argVal)).bind fun _ =>
      (parallelMapLoop_le h fnVal es).bind fun _ => .refl _

theorem parallelMapExecuteCall_le (h : ctx.Le ctx') (intr : Intrinsic) (arg : Option V) :
    Run.Le (parallelMapExecuteCall ctx intr arg) (parallelMapExecuteCall ctx' intr arg) :=
  .bind (.refl _) fun v => (h.materializeValue v).bind fun argsPb =>
    (h.createValue _).bind fun fnVal =>
      (parallelMapLoop_le h fnVal argsPb.elements).bind fun _ => h.createStruct _

theorem conditionalExecuteCall_le [ProtoText] (h : ctx.Le ctx') (intr : Intrinsic) (arg : Option V) :
    Run.Le (conditionalExecuteCall ctx intr arg) (conditionalExecuteCall ctx' intr arg) := by
  cases arg with
  | none => exact .refl _
  | some arg =>
      refine (h.materializeValue arg).bind fun condPb => ?_
      cases condPb.boolean? with
      | none => exact .refl _
      | some cond => exact .bind (.refl _) h.createValue

theorem fallbackLoop_le (h : ctx.Le ctx') (arg : Option V) : ∀ (fns : List Value) (e : Status),
    Run.Le (fallbackLoop ctx arg e fns) (fallbackLoop ctx' arg e fns)
  | [], _ => .refl _
  | fnPb :: fns, _ => by
      refine (h.createValue fnPb).attempt.bind fun r => ?_
      rcases r with e | fn
      · exact fallbackLoop_le h arg fns e
      refine (h.createCall fn arg).attempt.bind fun r => ?_
      rcases r with e | result
      · exact fallbackLoop_le h arg fns e
      refine (h.materialize result none).bind fun r => ?_
      rcases r.status with e | ⟨⟩
      · exact fallbackLoop_le h arg fns e
      · exact .refl _

theorem delegateArgument_le (h : ctx.Le ctx') (arg : Option V) :
    Run.Le (delegateArgument ctx arg) (delegateArgument ctx' arg) := by
  cases arg with
  | none => exact .refl _
  | some arg => exact (h.materializeValue arg).bind fun _ => .refl _

theorem delegateExecuteCall_le (h : ctx.Le ctx') (runnerMap : RunnerMap) (intr : Intrinsic)
    (arg : Option V) :
    Run.Le (delegateExecuteCall ctx runnerMap intr arg)
      (delegateExecuteCall ctx' runnerMap intr arg) := by
  refine .bind (.refl _) fun name => ?_
  dsimp only
  cases runnerMap name.str with
  | none => exact .refl _
  | some runnerFn =>
      exact .bind (.refl _) fun funcPb => (delegateArgument_le h arg).bind fun _ =>
        .bind (.refl _) fun _ => .bind (.refl _) h.createValue

theorem executeCall_le [ProtoText] (h : ctx.Le ctx') {n m : Nat} (hnm : n ≤ m) (handler : ControlFlowHandler)
    (intr : Intrinsic) (arg : Option V) :
    Run.Le (executeCall ctx n handler intr arg) (executeCall ctx' m handler intr arg) := by
  cases handler with
  | breakableChain => exact .bind (.refl _) (breakableChainLoop_le h _)
  | serialChain => exact .bind (.refl _) (serialChainLoop_le h _)
  | conditional => exact conditionalExecuteCall_le h intr arg
  | delegate runnerMap => exact delegateExecuteCall_le h runnerMap intr arg
  | fallback => exact fallbackLoop_le h arg _ _
  | parallelMap => exact parallelMapExecuteCall_le h intr arg
  | «repeat» => exact repeatExecuteCall_le h intr arg
  | «while» => exact whileExecuteCall_le h hnm intr arg
  | repeatedConditionalChain =>
      exact .bind (.refl _) fun _ => (h.createValues _).bind fun bodyFns =>
        .bind (.refl _) (conditionalRounds_le h bodyFns _)

end ControlFlowHandler

end GenC
