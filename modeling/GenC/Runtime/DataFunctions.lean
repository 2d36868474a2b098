import GenC.Intrinsics.Breaking
import GenC.Intrinsics.Chains
import GenC.Intrinsics.Inline
import GenC.Runtime.Data
import GenC.Runtime.IntrinsicCalls

/-!
# Chains on the local stack

On any executor, `BreakableChain` and `RepeatedConditionalChain` take their turns, whatever the functions
are. A list of functions of data on the local stack comes to what the folds over the data say, with either
of them (`chains_are_folds`). Functions that are not of data can tell the two apart (`chains_disagree`).
-/

namespace GenC

open Lib ControlFlowExecutor ControlFlowHandler

section

variable [ProtoText] (handlers : IntrinsicHandlerSet) (scope : Scope)

/-- Data that is created in a context comes without the metadata of its structures. -/
theorem creates_data {w : Value} (hw : w.Materialized) (s : InlineState) : ∃ v s',
    Context.Creates ((localExecutor handlers).contexts scope) w s v s' ∧ s ≤ s' ∧ v.Alive s' ∧
      v.contents s' = some (.ok w.bareStructs) := by
  cases hw with
  | @scalar m c =>
      refine ⟨.embedded s.table.nextValueId, s.track (.ok (.scalar m c)), ⟨0, ?_⟩, .track s _,
        .embedded (s.tracked_track _), s.tracked_track _⟩
      exact (InlineExecutor.createValue_returns handlers _ s).bind (.pure _ _)
  | struct h =>
      obtain ⟨v, s', hv, hle, halive, hcontents⟩ := evaluatesTo_bareStructs handlers (.struct h) scope s
      exact ⟨v, s', (creates_iff rfl).mpr hv, hle, halive, hcontents⟩

/-- Data on the local stack, up to the metadata of its structures. -/
def localData : DataModel ((localExecutor handlers).contexts scope) .upToStructs where
  growing := (localExecutor handlers).contexts_growing scope
  holds := DataEquivalence.upToStructs.Holds
  holds_of_le := DataEquivalence.Holds.of_le
  boolean? {w d} h := by
    rw [← Value.boolean?_bareStructs w, h.2, Value.boolean?_bareStructs]
  shows {v d s} h := by
    obtain ⟨w, hw, hsame⟩ := h.contents
    obtain ⟨s', hle, hshow⟩ := materializeValue_spec handlers scope h.alive
    rw [hw] at hshow
    exact ⟨w, s', hshow, hsame, hle⟩
  creates {w d} h s := by
    obtain ⟨v, s', hcreate, hle, halive, hcontents⟩ := creates_data handlers scope h.1.1 s
    refine ⟨v, s', hcreate, ⟨halive, _, hcontents, ⟨h.1.1.bareStructs, h.1.2⟩, ?_⟩, hle⟩
    rw [Value.bareStructs_bareStructs h.1.1, h.2]

/-! ### Functions that denote -/

variable {handlers scope}

theorem denotes_lambda {m : Meta} {name : String} {result : Value} {F : Value → Value} {s : InlineState}
    (h : ∀ u a d, DataEquivalence.upToStructs.Holds a d u → ∃ v u', s ≤ u →
      (localExecutor handlers).Evaluates result ((name, a) :: scope) u v u' ∧ u ≤ u' ∧
        DataEquivalence.upToStructs.Holds v (F d) u') :
    (localData handlers scope).Denotes s (.lambda m name result) fun d => .ok (.ok (F d)) := by
  intro u hu
  refine ⟨.lambda ⟨name, result⟩ scope, u, (creates_iff rfl).mpr .lambda, le_refl u, fun d t a ht ha => ?_⟩
  obtain ⟨v, t', h⟩ := h t a d ha
  obtain ⟨hresult, hle, hv⟩ := h (hu.trans ht)
  exact .data (calls_iff.mpr (.lambda hresult)) hle hv

omit [ProtoText] in
/-- A call in the child ends with what the handler makes of the argument, be it an error. -/
theorem InlineExecutor.createCall_inline [ProtoText] {m : Meta} {uri : String} {staticParameter : Option Value}
    {handler : IntrinsicHandler} {interface : InlineHandler} {w : Value} {r : StatusOr Value}
    (hget : handlers.getHandler uri = .ok handler) (hinterface : handler.interface = .inline interface)
    (hwf : handler.checkWellFormed ⟨uri, staticParameter⟩ = some (.ok ()))
    (hr : interface.executeCall ⟨uri, staticParameter⟩ w = some r) :
    Run.Returns (InlineExecutor.createCall handlers (.ok (.intrinsic m uri staticParameter))
      (some (.ok w))) () r () := by
  have hcheck : Run.Returns (handler.runCheckWellFormed ⟨uri, staticParameter⟩ : Exec Unit Unit) () () () := by
    refine (Run.Returns.tell _ ()).bind ?_
    rw [hwf]
    exact .ofExcept rfl ()
  have hinline : handler.getInlineInterface = .ok interface := by
    rw [IntrinsicHandler.getInlineInterface, hinterface]
  -- the handler gives its result without touching the state
  have hwork : Run.EndsWith ((interface.executeCall ⟨uri, staticParameter⟩ w).run : Exec Unit Value) () r
    () := by
    rw [hr]
    cases r with
    | ok v => exact .ofExcept rfl ()
    | error e => exact .throw e ()
  cases r with
  | ok v =>
      refine .attempt (.bind (.ofExcept rfl ()) (.bind (.ofExcept rfl ()) ?_))
      refine .bind (.ofExcept hget ()) (hcheck.bind ?_)
      exact .bind (.ofExcept hinline ()) (.bind (.tell _ ()) hwork)
  | error e =>
      refine Run.Fails.attempt (.bind (.ofExcept rfl ()) (.bind (.ofExcept rfl ()) ?_))
      refine .bind (.ofExcept hget ()) (.bind hcheck ?_)
      exact .bind (.ofExcept hinline ()) (.bind (.tell _ ()) hwork)

/-- A handler of the child that does not look at the metadata of structures computes a function of data. -/
theorem denotes_inline {m : Meta} {uri : String} {staticParameter : Option Value}
    {handler : IntrinsicHandler} {interface : InlineHandler} {G : Value → StatusOr Value} {s : InlineState}
    (hget : handlers.getHandler uri = .ok handler) (hinterface : handler.interface = .inline interface)
    (hwf : handler.checkWellFormed ⟨uri, staticParameter⟩ = some (.ok ()))
    (hG : ∀ {w d}, DataEquivalence.upToStructs.same w d → ∃ r,
      interface.executeCall ⟨uri, staticParameter⟩ w = some r ∧
        Except.Related Eq DataEquivalence.upToStructs.same r (G d)) :
    (localData handlers scope).Denotes s (.intrinsic m uri staticParameter) fun d => .ok (G d) := by
  intro u hu
  have hcreate := InlineExecutor.createValue_returns handlers (.intrinsic m uri staticParameter) u
  refine ⟨_, _, (creates_iff rfl).mpr (.inline hget hinterface hwf hcreate), .track u _, ?_⟩
  intro d t a ht ha
  obtain ⟨w, hw, hsame⟩ := ha.contents
  obtain ⟨r, hr, hrelated⟩ := hG hsame
  obtain ⟨_, hcall⟩ := InlineExecutor.createCall_inline (m := m) hget hinterface hwf hr
  obtain ⟨t', ht', hend⟩ := callEmbedded_end handlers (BaseState.Frame.tracked ht (u.tracked_track _)) ha.alive
  simp only [hw, hcall] at hend
  obtain ⟨id, hid, hreturns⟩ := hend
  have halive : ExecutorValue.Alive t' (.embedded id) := .embedded hid
  show (localData handlers scope).CallGives _ a t (.ok (G d))
  -- an error of the handler is tracked, and shows when the result is materialized
  rcases r with e | r <;> rcases hGd : G d with e' | g <;> rw [hGd] at hrelated
  · obtain rfl : e = e' := hrelated
    obtain ⟨t₂, -, hshow⟩ := materializeValue_spec handlers scope halive
    rw [show (ExecutorValue.embedded id).contents t' = some (.error e) from hid] at hshow
    exact .lateFailure (calls_iff.mpr (.embedded hreturns)) ht' hshow
  · cases hrelated
  · cases hrelated
  · have hholds : DataEquivalence.upToStructs.Holds (.embedded id) g t' := ⟨halive, r, hid, hrelated⟩
    exact .data (calls_iff.mpr (.embedded hreturns)) ht' hholds

/-- `λname. name`. -/
def identityFunction (m : Meta) (name : String) : Value := .lambda m name (.reference {} name)

theorem denotes_identityFunction (m : Meta) (name : String) (s : InlineState) :
    (localData handlers scope).Denotes s (identityFunction m name) fun d => .ok (.ok d) := by
  refine denotes_lambda fun u a d ha => ⟨a, u, fun _ => ⟨.reference ?_, le_refl u, ha⟩⟩
  simp [Scope.resolve]

/-- `λname. c`. -/
def constantFunction (m : Meta) (name : String) (c : Scalar) : Value := .lambda m name (.scalar {} c)

theorem denotes_constantFunction (m : Meta) (name : String) (c : Scalar) (s : InlineState) :
    (localData handlers scope).Denotes s (constantFunction m name c) fun _ => .ok (.ok (.scalar {} c)) := by
  refine denotes_lambda fun u a d _ => ⟨.embedded u.table.nextValueId, u.track (.ok (.scalar {} c)),
    fun _ => ⟨.child rfl ?_, .track u _, ?_⟩⟩
  · exact InlineExecutor.createValue_returns handlers _ u
  · exact ⟨.embedded (u.tracked_track _), _, u.tracked_track _, DataEquivalence.upToStructs.scalar {} c⟩

/-- `λname. {name, name}`. -/
def pairFunction (m : Meta) (name : String) : Value :=
  .lambda m name (.ofStruct [.reference {} name, .reference {} name])

theorem denotes_pairFunction (m : Meta) (name : String) (s : InlineState) :
    (localData handlers scope).Denotes s (pairFunction m name) fun d => .ok (.ok (.ofStruct [d, d])) := by
  refine denotes_lambda fun u a d ha => ⟨.struct [a, a], u, fun _ => ⟨?_, le_refl u, ?_⟩⟩
  · have hname : (localExecutor handlers).Evaluates (.reference {} name) ((name, a) :: scope) u a u :=
      .reference (by simp [Scope.resolve])
    exact hname.struct_cons (hname.struct_cons .struct_nil)
  · exact .struct (.cons ha (.cons ha .nil))

/-! ### How calls end -/

variable (handlers scope)

/-- The call ends with a value that holds the data, or with the error. -/
def CallEnds (handler : ControlFlowHandler) (intr : Intrinsic) (x : ExecutorValue) (s : InlineState)
    (record : List (Operation ExecutorValue)) : StatusOr Value → Prop
  | .ok d => ∃ y s', Run.Finally ((localExecutor handlers).recordedCall scope handler intr (some x)) (s, []) y
      (s', record) ∧ DataEquivalence.upToStructs.Holds y d s'
  | .error e => ∃ s', Run.FinallyFails ((localExecutor handlers).recordedCall scope handler intr (some x))
      (s, []) e (s', record)

variable {handlers scope} {handler : ControlFlowHandler} {intr : Intrinsic} {x : ExecutorValue}
  {s s' : InlineState} {record : List (Operation ExecutorValue)}

theorem Performs.callEnds {o : StatusOr ExecutorValue} {r : StatusOr Value}
    (h : Performs (fun n => handler.executeCall ((localExecutor handlers).contexts scope n).recording n intr
      (some x)) s o s' record)
    (ho : Except.Related Eq (fun y d => DataEquivalence.upToStructs.Holds y d s') o r) :
    CallEnds handlers scope handler intr x s record r := by
  cases o with
  | ok y =>
      cases r with
      | ok d => exact ⟨y, s', (h []).finally_, ho⟩
      | error => cases ho
  | error e =>
      cases r with
      | ok => cases ho
      | error e' => exact ⟨s', (ho : e = e') ▸ (h []).finallyFails⟩

/-- Calls that end with the same data, or with the same error, end alike. -/
theorem CallEnds.endAlike {handler' : ControlFlowHandler} {m m' : Meta} {es es' : List Value}
    {record' : List (Operation ExecutorValue)} {r : StatusOr Value}
    (h : CallEnds handlers scope handler (handler.intrinsic m es) x s record r)
    (h' : CallEnds handlers scope handler' (handler'.intrinsic m' es') x s record' r) (scope' : Scope) :
    Run.EndAlike (fun y s' y' t' => ∃ d, DataEquivalence.upToStructs.Holds y d s' ∧
        DataEquivalence.upToStructs.Holds y' d t')
      (fun n => ((localExecutor handlers).contexts scope' n).createCall (handler.function m es scope)
        (some x)) s
      (fun n => ((localExecutor handlers).contexts scope' n).createCall (handler'.function m' es' scope)
        (some x)) s := by
  have hgrowing := (localExecutor handlers).contexts_growing scope'
  cases r with
  | ok d =>
      obtain ⟨y, u, hy, hd⟩ := h
      obtain ⟨y', u', hy', hd'⟩ := h'
      exact .of_settles (hgrowing.createCall _ _) (hgrowing.createCall _ _)
        (.of_finally (hgrowing.createCall _ _) (calls_intrinsic_iff.mpr ⟨_, hy⟩))
        (.of_finally (hgrowing.createCall _ _) (calls_intrinsic_iff.mpr ⟨_, hy'⟩)) ⟨d, hd, hd'⟩
  | error e =>
      obtain ⟨u, he⟩ := h
      obtain ⟨u', he'⟩ := h'
      exact .of_settles (hgrowing.createCall _ _) (hgrowing.createCall _ _)
        (.of_finallyFails (hgrowing.createCall _ _) (callFails_intrinsic_iff.mpr ⟨_, he⟩))
        (.of_finallyFails (hgrowing.createCall _ _) (callFails_intrinsic_iff.mpr ⟨_, he'⟩)) rfl

/-! ## The two chains -/

variable {m : Meta} {fns : List Value} {Fs : List DataFunction} {d : Value}

theorem breakableChain_callEnds (hfns : List.Forall₂ ((localData handlers scope).Denotes s) fns Fs)
    (hx : DataEquivalence.upToStructs.Holds x d s) : ∃ record,
      CallEnds handlers scope .breakableChain (ControlFlowHandler.breakableChain.intrinsic m fns) x s record
        ((chainFold Fs d).map Prod.fst) ∧
      List.Forall₂ (DataModel.Created ((localExecutor handlers).contexts scope))
        (fns.take (chainLength Fs d)) (called record) := by
  obtain ⟨o, s', record, hloop, ho, hcalled⟩ :=
    DataModel.breakableChainLoop_spec (M := localData handlers scope) hfns (le_refl s) hx
  refine ⟨record, Performs.callEnds ((Performs.pure x s).bind hloop) ?_, hcalled⟩
  rcases o with e | y <;> rcases hr : chainFold Fs d with e' | r <;> rw [hr] at ho
  · exact ho
  · cases ho
  · cases ho
  · exact ho.1

theorem repeatedConditionalChain_callEnds
    (hfns : List.Forall₂ ((localData handlers scope).Denotes s) fns Fs)
    (hx : DataEquivalence.upToStructs.Holds x d s) (n : Value) : ∃ record fs,
      CallEnds handlers scope .repeatedConditionalChain
        (ControlFlowHandler.repeatedConditionalChain.intrinsic m (n :: fns)) x s record
        (roundsFold Fs n.int32.toInt.toNat d) ∧
      List.Forall₂ (DataModel.Created ((localExecutor handlers).contexts scope)) fns fs ∧
      called record = (roundsLengths Fs n.int32.toInt.toNat d).flatMap (fs.take ·) := by
  obtain ⟨fs, u, record, hcreates, hle, hfs, hcreated, hcalled⟩ :=
    DataModel.createValues_spec (M := localData handlers scope) hfns (le_refl s)
  obtain ⟨o, s', record', hrounds, ho, hcalled'⟩ :=
    DataModel.conditionalRounds_spec hfs n.int32.toInt.toNat (le_refl u) (hx.of_le hle)
  refine ⟨record ++ record', fs, Performs.callEnds (hcreates.bind ((Performs.pure x u).bind hrounds))
    (ho.mono fun _ _ h => h.1), hcreated, ?_⟩
  rw [called_append, hcalled, hcalled']
  rfl

/-- Without rounds, the argument itself is returned. -/
theorem repeatedConditionalChain_noRounds
    (hfns : List.Forall₂ ((localData handlers scope).Denotes s) fns Fs) {n : Value}
    (hn : n.int32.toInt ≤ 0) : ∃ s' record,
      Run.Finally ((localExecutor handlers).recordedCall scope .repeatedConditionalChain
        (ControlFlowHandler.repeatedConditionalChain.intrinsic m (n :: fns)) (some x)) (s, []) x
        (s', record) ∧ called record = [] := by
  obtain ⟨fs, u, record, hcreates, -, -, -, hcalled⟩ :=
    DataModel.createValues_spec (M := localData handlers scope) hfns (le_refl s)
  have hcall : Performs (fun k => repeatedConditionalChainExecuteCall
      ((localExecutor handlers).contexts scope k).recording
      (ControlFlowHandler.repeatedConditionalChain.intrinsic m (n :: fns)) (some x)) s (.ok x) u
        (record ++ []) := by
    refine hcreates.bind ?_
    -- a count that is not positive is no round at all
    have hzero : n.int32.toInt.toNat = 0 := Int.toNat_of_nonpos hn
    show Performs (fun k => conditionalRounds ((localExecutor handlers).contexts scope k).recording fs
      n.int32.toInt.toNat x) u (.ok x) u []
    rw [hzero]
    exact .pure x u
  rw [List.append_nil] at hcall
  exact ⟨u, record, (hcall []).finally_, hcalled⟩

end

/-! ## Any functions -/

section

open RepeatedConditionalChain

variable [ProtoText] {σ : Type} (exec : ControlFlowExecutor σ) (scope : Scope) (m : Meta) (fns : List Value)
  (x : ExecutorValue)

theorem breakableChain_described : Described
    (exec.recordedCall scope .breakableChain (ControlFlowHandler.breakableChain.intrinsic m fns) (some x))
    (fun s y record s' => ∃ stopped,
      Turns (BreakableChain.Turn (exec.contexts scope)) fns x s (y, stopped) record s')
    (TurnsFail (BreakableChain.Turn (exec.contexts scope)) (BreakableChain.TurnFails (exec.contexts scope))
      fns x) :=
  breakableChainExecuteCall_described (exec.contexts_growing scope) _ x

theorem repeatedConditionalChain_described (n : Value) : Described
    (exec.recordedCall scope .repeatedConditionalChain
      (ControlFlowHandler.repeatedConditionalChain.intrinsic m (n :: fns)) (some x))
    (fun s y record s' => ∃ fs u l, Context.CreatesAll (exec.contexts scope) fns s fs u ∧
      (∃ stopped, Rounds (exec.contexts scope) fs n.int32.toInt.toNat x u (y, stopped) l s') ∧
      record = fns.map .createValue ++ l)
    (fun s e record s' => Context.CreateAllFails (exec.contexts scope) fns s e record s' ∨
      ∃ fs u l, Context.CreatesAll (exec.contexts scope) fns s fs u ∧
        RoundsFail (exec.contexts scope) fs n.int32.toInt.toNat x u e l s' ∧
        record = fns.map .createValue ++ l) :=
  repeatedConditionalChainExecuteCall_described (exec.contexts_growing scope)
    (ControlFlowHandler.intrinsic_elements ..) x

/-- Without rounds, the functions are created and the argument is returned. -/
theorem repeatedConditionalChain_returns_argument_iff {n : Value} (hn : n.int32.toInt ≤ 0) {s s' : σ}
    {y : ExecutorValue} {record : List (Operation ExecutorValue)} :
    Run.Finally (exec.recordedCall scope .repeatedConditionalChain
      (ControlFlowHandler.repeatedConditionalChain.intrinsic m (n :: fns)) (some x)) (s, []) y (s', record) ↔
      y = x ∧ (∃ fs, Context.CreatesAll (exec.contexts scope) fns s fs s') ∧
        record = fns.map .createValue := by
  refine (repeatedConditionalChain_described exec scope m fns x n).finally_nil_iff.trans ?_
  rw [Int.toNat_of_nonpos hn]
  constructor
  · rintro ⟨fs, u, l, hfs, ⟨stopped, hrounds⟩, rfl⟩
    cases hrounds
    exact ⟨rfl, ⟨fs, hfs⟩, List.append_nil _⟩
  · rintro ⟨rfl, ⟨fs, hfs⟩, rfl⟩
    exact ⟨fs, s', [], hfs, ⟨false, .nil⟩, (List.append_nil _).symm⟩

end

/-! ### The theorem -/

open RepeatedConditionalChain in
/-- **Breakable chains are folds.** Whatever the functions are, `BreakableChain` goes from state to state by
its turns, and `RepeatedConditionalChain` by rounds of its own; both fail where a turn does, and no later
function is called. Over functions of data, the first comes to `chainFold` and the second to as many rounds
of it. One round is a `BreakableChain`, and none returns the argument. -/
theorem chains_are_folds [ProtoText] :
    (∀ {σ : Type} (exec : ControlFlowExecutor σ) (scope : Scope) (m : Meta) (fns : List Value)
        (x : ExecutorValue) (s s' : σ) (record : List (Operation ExecutorValue)),
      (∀ y, Run.Finally (exec.recordedCall scope .breakableChain
          (ControlFlowHandler.breakableChain.intrinsic m fns) (some x)) (s, []) y (s', record) ↔
        ∃ stopped, Turns (BreakableChain.Turn (exec.contexts scope)) fns x s (y, stopped) record s') ∧
      (∀ e, Run.FinallyFails (exec.recordedCall scope .breakableChain
          (ControlFlowHandler.breakableChain.intrinsic m fns) (some x)) (s, []) e (s', record) ↔
        TurnsFail (BreakableChain.Turn (exec.contexts scope))
          (BreakableChain.TurnFails (exec.contexts scope)) fns x s e record s') ∧
      ∀ n : Value,
        (∀ y, Run.Finally (exec.recordedCall scope .repeatedConditionalChain
            (ControlFlowHandler.repeatedConditionalChain.intrinsic m (n :: fns)) (some x)) (s, []) y
            (s', record) ↔ ∃ fs u l, Context.CreatesAll (exec.contexts scope) fns s fs u ∧
          (∃ stopped, Rounds (exec.contexts scope) fs n.int32.toInt.toNat x u (y, stopped) l s') ∧
          record = fns.map .createValue ++ l) ∧
        (∀ e, Run.FinallyFails (exec.recordedCall scope .repeatedConditionalChain
            (ControlFlowHandler.repeatedConditionalChain.intrinsic m (n :: fns)) (some x)) (s, []) e
            (s', record) ↔ Context.CreateAllFails (exec.contexts scope) fns s e record s' ∨
          ∃ fs u l, Context.CreatesAll (exec.contexts scope) fns s fs u ∧
            RoundsFail (exec.contexts scope) fs n.int32.toInt.toNat x u e l s' ∧
            record = fns.map .createValue ++ l) ∧
        (n.int32.toInt ≤ 0 → ∀ y, Run.Finally (exec.recordedCall scope .repeatedConditionalChain
            (ControlFlowHandler.repeatedConditionalChain.intrinsic m (n :: fns)) (some x)) (s, []) y
            (s', record) ↔
          y = x ∧ (∃ fs, Context.CreatesAll (exec.contexts scope) fns s fs s') ∧
            record = fns.map .createValue)) ∧
    -- functions of data
    ∀ (handlers : IntrinsicHandlerSet) (scope : Scope) (m : Meta) (fns : List Value)
        (Fs : List DataFunction) (x : ExecutorValue) (d : Value) (s : InlineState),
      List.Forall₂ ((localData handlers scope).Denotes s) fns Fs →
      DataEquivalence.upToStructs.Holds x d s →
      (∃ record, CallEnds handlers scope .breakableChain
          (ControlFlowHandler.breakableChain.intrinsic m fns) x s record ((chainFold Fs d).map Prod.fst) ∧
        List.Forall₂ (DataModel.Created ((localExecutor handlers).contexts scope))
          (fns.take (chainLength Fs d)) (called record)) ∧
      ∀ n : Value,
        (∃ record fs, CallEnds handlers scope .repeatedConditionalChain
            (ControlFlowHandler.repeatedConditionalChain.intrinsic m (n :: fns)) x s record
            (roundsFold Fs n.int32.toInt.toNat d) ∧
          List.Forall₂ (DataModel.Created ((localExecutor handlers).contexts scope)) fns fs ∧
          called record = (roundsLengths Fs n.int32.toInt.toNat d).flatMap (fs.take ·)) ∧
        (n.int32.toInt ≤ 0 → ∃ s' record,
          Run.Finally ((localExecutor handlers).recordedCall scope .repeatedConditionalChain
            (ControlFlowHandler.repeatedConditionalChain.intrinsic m (n :: fns)) (some x)) (s, []) x
            (s', record) ∧ called record = []) ∧
        (n.int32 = 1 → ∀ scope', Run.EndAlike
          (fun y s' y' t' => ∃ r, DataEquivalence.upToStructs.Holds y r s' ∧
            DataEquivalence.upToStructs.Holds y' r t')
          (fun k => ((localExecutor handlers).contexts scope' k).createCall
            (ControlFlowHandler.repeatedConditionalChain.function m (n :: fns) scope) (some x)) s
          (fun k => ((localExecutor handlers).contexts scope' k).createCall
            (ControlFlowHandler.breakableChain.function m fns scope) (some x)) s) := by
  constructor
  · intro σ exec scope m fns x s s' record
    have hchain := breakableChain_described exec scope m fns x
    have hrounds := repeatedConditionalChain_described exec scope m fns x
    exact ⟨fun _ => hchain.finally_nil_iff, fun _ => hchain.finallyFails_nil_iff, fun n =>
      ⟨fun _ => (hrounds n).finally_nil_iff, fun _ => (hrounds n).finallyFails_nil_iff,
        fun hn _ => repeatedConditionalChain_returns_argument_iff exec scope m fns x hn⟩⟩
  · intro handlers scope m fns Fs x d s hfns hx
    obtain ⟨record, hchain, hcalled⟩ := breakableChain_callEnds (m := m) hfns hx
    refine ⟨⟨record, hchain, hcalled⟩, fun n => ?_⟩
    obtain ⟨record', fs, hrounds, hcreated, hcalled'⟩ := repeatedConditionalChain_callEnds (m := m) hfns hx n
    refine ⟨⟨record', fs, hrounds, hcreated, hcalled'⟩, repeatedConditionalChain_noRounds hfns, ?_⟩
    intro hone scope'
    rw [hone, show ((1 : Int32).toInt.toNat) = 1 from rfl, roundsFold_one] at hrounds
    exact hrounds.endAlike hchain scope'

/-- A function that returns its argument, one that says keep, and one that says stop, in a chain and in
three rounds. No rounds return the argument. -/
theorem chains_are_folds_stopping :
    let _ := ProtoText.silent
    let fns := [identityFunction {} "x", constantFunction {} "x" (.boolean false),
      constantFunction {} "x" (.boolean true)]
    let s := BaseState.track (⟨.empty, ()⟩ : InlineState) (.ok (.ofStr "a"))
    let rounds := ControlFlowHandler.repeatedConditionalChain
    (∃ record, CallEnds [] [] .breakableChain (ControlFlowHandler.breakableChain.intrinsic {} fns)
      (.embedded 0) s record (.ok (.ofStr "a"))) ∧
    (∃ record, CallEnds [] [] rounds (rounds.intrinsic {} (.ofInt32 3 :: fns)) (.embedded 0) s record
      (.ok (.ofStr "a"))) ∧
    ∃ s', Run.Finally ((localExecutor []).recordedCall [] rounds (rounds.intrinsic {} (.ofInt32 0 :: fns))
      (some (.embedded 0))) (s, []) (.embedded 0) (s', fns.map .createValue) := by
  intro _ fns s rounds
  have hx : DataEquivalence.upToStructs.Holds (.embedded 0) (.ofStr "a") s :=
    ⟨.embedded (BaseState.tracked_track ⟨.empty, ()⟩ _), _, BaseState.tracked_track ⟨.empty, ()⟩ _,
      DataEquivalence.upToStructs.scalar {} _⟩
  have hfns : List.Forall₂ ((localData [] []).Denotes s) fns
      [fun d => .ok (.ok d), fun _ => .ok (.ok (.ofBool false)), fun _ => .ok (.ok (.ofBool true))] :=
    .cons (denotes_identityFunction {} "x" s) (.cons (denotes_constantFunction {} "x" _ s)
      (.cons (denotes_constantFunction {} "x" _ s) .nil))
  obtain ⟨⟨record, hchain, -⟩, hn⟩ := chains_are_folds.2 [] [] {} fns _ _ _ s hfns hx
  obtain ⟨record', _, hrounds, -⟩ := (hn (.ofInt32 3)).1
  obtain ⟨s', record'', hnone, -⟩ := (hn (.ofInt32 0)).2.1 (by decide)
  -- with no rounds, the functions are created but not called
  have hzero := ((chains_are_folds.1 (localExecutor []) [] {} fns (.embedded 0) s s' record'').2.2
    (.ofInt32 0)).2.2 (by decide) (.embedded 0)
  obtain ⟨-, -, rfl⟩ := hzero.mp hnone
  exact ⟨⟨record, hchain⟩, ⟨record', hrounds⟩, s', hnone⟩

/-! ## Functions that are not of data

A structure that the child holds can be told from one that the control-flow executor holds: selecting past
its end fails later. `BreakableChain` hands on what it was given; `RepeatedConditionalChain` makes it anew. -/

/-- From `s` on, `fn` evaluates to a function. What that returns on data is data, and not a Boolean. -/
def ReturnsData [ProtoText] (handlers : IntrinsicHandlerSet) (scope : Scope) (s : InlineState) (fn : Value) :
    Prop :=
  ∀ u, s ≤ u → ∃ f u', Context.Creates ((localExecutor handlers).contexts scope) fn u f u' ∧ u ≤ u' ∧
    ∀ t a d v t', u' ≤ t → DataEquivalence.upToStructs.Holds a d t →
      Context.Calls ((localExecutor handlers).contexts scope) f (some a) t v t' →
        ∃ w, v.contents t' = some (.ok w) ∧ w.Materialized ∧ w.boolean? = none

/-- Custom functions that give a pair, whatever they are given. -/
def pairConfig : HandlerSetConfig where
  delegateMap _ := none
  modelInferenceMap _ := none
  modelInferenceWithConfigMap _ := none
  customFunctionMap _ := some fun _ => .ok (.ofStruct [.ofStr "u", .ofStr "v"])
  customIntrinsicsList := []

def pairHandlers : IntrinsicHandlerSet :=
  [⟨"custom_function", .inline (customFunction pairConfig)⟩, ⟨"serial_chain", .controlFlow .serialChain⟩]

def pairing : Value := .intrinsic {} "custom_function" (some (.ofStr "/pair"))

/-- Selects the sixth element of its argument, and returns something else. -/
def ignoresSixth : Value :=
  .lambda {} "arg" (.block {} [("x", .selection {} (.reference {} "arg") 5)] (.ofStr "c"))

theorem pairing_returnsData [ProtoText] (s : InlineState) : ReturnsData pairHandlers [] s pairing := by
  have hpair : (Value.ofStruct [.ofStr "u", .ofStr "v"]).Materialized :=
    .struct (by simp [Value.Materialized.scalar, Value.ofStr])
  intro u hu
  have hdenotes : (localData pairHandlers []).Denotes s pairing fun _ =>
      .ok (.ok (.ofStruct [.ofStr "u", .ofStr "v"])) :=
    denotes_inline rfl rfl rfl
      fun {_ _} _ => ⟨.ok (.ofStruct [.ofStr "u", .ofStr "v"]), rfl, ⟨hpair, hpair⟩, rfl⟩
  obtain ⟨f, u', hcreate, hu', hf⟩ := hdenotes hu
  refine ⟨f, u', hcreate, hu', ?_⟩
  intro t a d v t' ht ha hcall
  have hgives := hf d ht ha
  -- the intrinsic never fails, so the call gives data
  cases hgives with
  | data hcall' _ hv =>
      have hgrowing := (localExecutor pairHandlers).contexts_growing []
      obtain ⟨rfl, rfl⟩ := (hgrowing.createCall f _).unique hcall hcall'
      obtain ⟨w, hw, hsame⟩ := hv.contents
      exact ⟨w, hw, hsame.1.1, (localData pairHandlers []).boolean? hsame⟩

theorem ignoresSixth_returnsData [ProtoText] (s : InlineState) :
    ReturnsData pairHandlers [] s ignoresSixth := by
  intro u _
  refine ⟨_, u, (creates_iff rfl).mpr .lambda, le_refl u, ?_⟩
  rintro t a d v t' - - ⟨n, hcall⟩
  -- what the block evaluates to is a string, whatever became of its local
  have hresult : ∃ k scope t₁, Run.Returns ((localExecutor pairHandlers).evaluate k (.ofStr "c") scope) t₁ v
      t' := by
    rcases n with _ | _ | n
    · obtain ⟨_, h⟩ := hcall
      cases h
    · obtain ⟨_, h⟩ := hcall
      cases h
    · obtain ⟨scope, t₁, -, hresult⟩ := Run.Returns.of_bind hcall
      exact ⟨n, scope, t₁, hresult⟩
  obtain ⟨_ | k, scope, t₁, hresult⟩ := hresult
  · obtain ⟨_, h⟩ := hresult
    cases h
  have hcreate := InlineExecutor.createValue_returns pairHandlers (.ofStr "c") t₁
  obtain ⟨rfl, rfl⟩ := hresult.unique (hcreate.bind (.pure _ _))
  exact ⟨_, t₁.tracked_track _, .scalar, rfl⟩

/-- A run that was computed, and found to return something good. -/
theorem exists_returns {σ α : Type} {x : Exec σ α} {s : σ} (good : α → σ → Bool)
    (h : (match (x s).2 with | .ok a s' => good a s' | _ => false) = true) :
    ∃ a s', Run.Returns x s a s' ∧ good a s' = true := by
  rcases hx : x s with ⟨l, a | e | k | _⟩ <;> rw [hx] at h
  · exact ⟨a, _, ⟨l, hx⟩, h⟩
  all_goals cases h

theorem exists_fails {σ α : Type} {x : Exec σ α} {s : σ}
    (h : (match (x s).2 with | .error _ _ => true | _ => false) = true) : ∃ e s', Run.Fails x s e s' := by
  rcases hx : x s with ⟨l, a | e | k | _⟩ <;> rw [hx] at h <;> cases h
  exact ⟨e, _, l, hx⟩

/-- One of the two chains fails where the other returns. -/
theorem chains_disagree :
    let _ := ProtoText.silent
    ¬ ∀ (handlers : IntrinsicHandlerSet) (scope : Scope) (m : Meta) (n : Value) (fns : List Value)
        (x : ExecutorValue) (d : Value) (s : InlineState), n.int32 = 1 → fns ≠ [] →
        (∀ fn ∈ fns, ReturnsData handlers scope s fn) → DataEquivalence.upToStructs.Holds x d s →
      Run.EndAlike (fun y s' y' t' => ∃ r, DataEquivalence.upToStructs.Holds y r s' ∧
          DataEquivalence.upToStructs.Holds y' r t')
        (fun k => ((localExecutor handlers).contexts scope k).createCall
          (ControlFlowHandler.repeatedConditionalChain.function m (n :: fns) scope) (some x)) s
        (fun k => ((localExecutor handlers).contexts scope k).createCall
          (ControlFlowHandler.breakableChain.function m fns scope) (some x)) s := by
  intro _ h
  have hd : DataEquivalence.upToStructs.Holds (.struct []) (.ofStruct []) ⟨.empty, ()⟩ := .struct .nil
  have hfns : ∀ fn ∈ [pairing, ignoresSixth], ReturnsData pairHandlers [] ⟨.empty, ()⟩ fn :=
    List.forall_mem_cons.mpr ⟨pairing_returnsData _, List.forall_mem_singleton.mpr (ignoresSixth_returnsData _)⟩
  have hend := h pairHandlers [] {} (.ofInt32 1) [pairing, ignoresSixth] (.struct []) (.ofStruct [])
    ⟨.empty, ()⟩ rfl (List.cons_ne_nil _ _) hfns hd
  -- The pair that the chain hands on is held by the child, so the selection fails later, which nobody sees;
  -- the rounds have made it anew, and there the selection fails at once.
  obtain ⟨y, s', hreturns, -⟩ := exists_returns (x := ((localExecutor pairHandlers).contexts [] 8).createCall
    (ControlFlowHandler.breakableChain.function {} [pairing, ignoresSixth] []) (some (.struct [])))
    (s := ⟨.empty, ()⟩) (fun _ _ => true) (by decide +kernel)
  obtain ⟨e, t', hfails⟩ := exists_fails (x := ((localExecutor pairHandlers).contexts [] 8).createCall
    (ControlFlowHandler.repeatedConditionalChain.function {} (.ofInt32 1 :: [pairing, ignoresSixth]) [])
    (some (.struct []))) (s := ⟨.empty, ()⟩) (by decide +kernel)
  obtain ⟨_, _, hreturns', -⟩ := hend.of_returns ⟨8, hreturns⟩
  exact (((localExecutor pairHandlers).contexts_growing []).createCall _ _).not_both hreturns' ⟨8, hfails⟩

end GenC
