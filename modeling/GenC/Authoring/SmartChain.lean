import GenC.Runtime.Availability
import GenC.Runtime.CompositionLaws
import GenC.Runtime.ParallelMap

/-!
# Smart chains

`authoring/smart_chain.cc`, and `create_computation_from_custom_chain` of the interoperability with LangChain.

What `smart_chain.h` says of a chain: an operation is given what the one before it made, a break condition that
is met ends the chain in the state before it, and the chain is performed as often as is set, or else once.

**`follows_iff`**: a chain with operations does this if it is set to be performed more than once. Otherwise
it is a `SerialChain`, for which a Boolean is a state like any other: then it does so exactly when no
operation gives one, but for an operation that is given one and gives it back.
-/

namespace GenC

open Lib ControlFlowExecutor ControlFlowHandler

/-! ## The code -/

structure SmartChain where
  isParallel : Bool := false
  numIteration : Int32 := 0
  chainedOps : List Value := []

namespace SmartChain

/-- `chain | op` -/
def pipe (chain : SmartChain) (op : Value) : SmartChain := { chain with chainedOps := chain.chainedOps ++ [op] }

def setNumIteration (chain : SmartChain) (i : Int32) : SmartChain := { chain with numIteration := i }

def setIsParallel (chain : SmartChain) (isParallel : Bool) : SmartChain := { chain with isParallel }

/-- What is built without regard to `is_parallel_`. -/
def buildChain (chain : SmartChain) : Value :=
  if 1 < chain.numIteration then createRepeatedConditionalChain chain.numIteration chain.chainedOps
  else createSerialChain chain.chainedOps

def build (chain : SmartChain) : Value :=
  if chain.isParallel then createParallelMap chain.buildChain else chain.buildChain

end SmartChain

/-- An operation of a `CustomChain` of LangChain: a computation, among them what becomes of an `LLMChain`, or
another chain. -/
inductive ChainedOp where
  | computation (pb : Value)
  | customChain (chainedOps : List ChainedOp) (numIteration : Int32)

namespace ChainedOp

mutual

def createComputation : ChainedOp → Value
  | .computation pb => pb
  | .customChain chainedOps numIteration =>
    let computationList := createComputations chainedOps
    if 1 < numIteration then createRepeatedConditionalChain numIteration computationList
    else createSerialChain computationList

def createComputations : List ChainedOp → List Value
  | [] => []
  | op :: ops => op.createComputation :: createComputations ops

end

/-- `CustomChain` and `SmartChain` are built alike. -/
theorem createComputation_customChain (ops : List ChainedOp) (n : Int32) :
    (customChain ops n).createComputation =
      SmartChain.build { numIteration := n, chainedOps := createComputations ops } := rfl

end ChainedOp

/-! ## What is said of chains -/

section

variable [ProtoText] (handlers : IntrinsicHandlerSet) (scope : Scope)

/-- Whatever holds `d` is made what `n` rounds of the functions make of it, and each of them is called on what
the one before it made. Of functions that fail nothing is said. -/
def FollowsRounds (chain : Value) (fns : List Value) (Fs : List DataFunction) (n : Nat) (d : Value)
    (s : InlineState) : Prop :=
  ∀ u x r, s ≤ u → DataEquivalence.upToStructs.Holds x d u → roundsFold Fs n d = .ok r →
    ∃ handler m es u' y s' record,
      Context.Creates ((localExecutor handlers).contexts scope) chain u
        (ControlFlowHandler.function handler m es scope) u' ∧
      Run.Finally ((localExecutor handlers).recordedCall scope handler (handler.intrinsic m es) (some x))
        (u', []) y (s', record) ∧
      DataEquivalence.upToStructs.Holds y r s' ∧
      List.Forall₂ (DataModel.Created ((localExecutor handlers).contexts scope))
        ((roundsLengths Fs n d).flatMap (fns.take ·)) (called record) ∧
      List.Forall₂ (DataEquivalence.upToStructs.Holds · · s') (inputs record) (roundsInputs Fs n d)

/-- Each element of what holds `d` is made what `rs` says, by one function that `chain` evaluates to. -/
def MapsElements (map chain : Value) (rs : Value → Value → Prop) (d : Value) (s : InlineState) : Prop :=
  ∀ u x ds, s ≤ u → DataEquivalence.upToStructs.Holds x d u → List.Forall₂ rs d.elements ds →
    ∃ intr u' y s' record,
      Context.Creates ((localExecutor handlers).contexts scope) map u
        (.intrinsic intr ⟨"parallel_map", .controlFlow .parallelMap⟩ scope) u' ∧
      Run.Finally ((localExecutor handlers).recordedCall scope .parallelMap intr (some x)) (u', []) y
        (s', record) ∧
      DataEquivalence.upToStructs.Holds y (createStruct ds) s' ∧
      (∃ f, DataModel.Created ((localExecutor handlers).contexts scope) chain f ∧ ∀ g ∈ called record, g = f) ∧
      List.Forall₂ (DataEquivalence.upToStructs.Holds · · s') (inputs record) d.elements

namespace SmartChain

/-- As often as is set, or else once. -/
def rounds (chain : SmartChain) : Nat := max 1 chain.numIteration.toInt.toNat

/-- What the operations are performed on. -/
def inputs (chain : SmartChain) (d : Value) : List Value := if chain.isParallel then d.elements else [d]

/-- What is said of a chain, on the input `d`. -/
structure Follows (chain : SmartChain) (Fs : List DataFunction) (d : Value) (s : InlineState) : Prop where
  performs : ∀ e ∈ chain.inputs d,
    FollowsRounds handlers scope chain.buildChain (labelledFns chain.chainedOps) Fs chain.rounds e s
  maps : chain.isParallel = true → MapsElements handlers scope chain.build chain.buildChain
    (fun e r => roundsFold Fs chain.rounds e = .ok r) d s

end SmartChain

end

/-- No function gives a Boolean, but for one that gives back the state that it is given, and does not stop
before another function with it. -/
def HandsOn : List DataFunction → Value → Prop
  | [], _ => True
  | F :: Fs, d =>
    match F.outcome d with
    | .error _ => True
    | .ok r =>
      match r.boolean? with
      | none => HandsOn Fs r
      | some true => DataEquivalence.upToStructs.same r d ∧ Fs = []
      | some false => DataEquivalence.upToStructs.same r d ∧ HandsOn Fs d

/-! ## One round -/

theorem roundsFold_one_eq_ok {Fs : List DataFunction} {d r : Value} (h : roundsFold Fs 1 d = .ok r) :
    ∃ stopped, chainFold Fs d = .ok (r, stopped) := by
  rw [roundsFold_one] at h
  cases hchain : chainFold Fs d with
  | error e =>
      rw [hchain] at h
      cases h
  | ok p =>
      rw [hchain] at h
      cases h
      exact ⟨p.2, rfl⟩

theorem roundsFold_nil (n : Nat) (d : Value) : roundsFold [] n d = .ok d := by
  induction n with
  | zero => rfl
  | succ n ih => exact ih

theorem roundsLengths_one (Fs : List DataFunction) (d : Value) : roundsLengths Fs 1 d = [chainLength Fs d] := by
  unfold roundsLengths
  rcases chainFold Fs d with e | ⟨r, _ | _⟩ <;> rfl

theorem roundsInputs_one (Fs : List DataFunction) (d : Value) : roundsInputs Fs 1 d = chainInputs Fs d := by
  unfold roundsInputs
  rcases chainFold Fs d with e | ⟨r, _ | _⟩
  · rfl
  · exact List.append_nil _
  · rfl

/-! ## Serial chains -/

section

variable [ProtoText] {handlers : IntrinsicHandlerSet} {scope : Scope} {s₀ s s' : InlineState}
  {fn : Value} {fns : List Value} {F : DataFunction} {Fs : List DataFunction} {x y : ExecutorValue}
  {d r : Value} {stopped : Bool} {l l' record : List (Operation ExecutorValue)}

omit [ProtoText] in
theorem outcome_eq_ok (h : F.outcome d = .ok r) : F d = .ok (.ok r) := by
  unfold DataFunction.outcome at h
  cases hF : F d with
  | error e =>
      rw [hF] at h
      cases h
  | ok result =>
      rw [hF] at h
      exact congrArg Except.ok h

variable (handlers scope) in
/-- The functions make `r` of what holds `d`, and each of them is called as in the round. -/
def LoopFollows (fns : List Value) (x : ExecutorValue) (s : InlineState) (Fs : List DataFunction)
    (d r : Value) : Prop :=
  ∃ y s' record,
    Performs (fun n => serialChainLoop ((localExecutor handlers).contexts scope n).recording fns x) s (.ok y) s'
      record ∧
    DataEquivalence.upToStructs.Holds y r s' ∧ s ≤ s' ∧
    List.Forall₂ (DataModel.Created ((localExecutor handlers).contexts scope)) (fns.take (chainLength Fs d))
      (called record) ∧
    List.Forall₂ (DataEquivalence.upToStructs.Holds · · s') (inputs record) (chainInputs Fs d)

/-- One function, and the rest on what it gave, which holds `d₁`. -/
theorem LoopFollows.cons {u u' : InlineState} {f v : ExecutorValue} {d₁ : Value}
    (hcreate : Context.Creates ((localExecutor handlers).contexts scope) fn s f u)
    (hcall : Context.Calls ((localExecutor handlers).contexts scope) f (some x) u v u') (hle : s ≤ u')
    (hx : DataEquivalence.upToStructs.Holds x d s) (hlength : chainLength (F :: Fs) d = chainLength Fs d₁ + 1)
    (hinputs : chainInputs (F :: Fs) d = d :: chainInputs Fs d₁)
    (hrest : LoopFollows handlers scope fns v u' Fs d₁ r) :
    LoopFollows handlers scope (fn :: fns) x s (F :: Fs) d r := by
  have hgrowing := (localExecutor handlers).contexts_growing scope
  obtain ⟨y, s', record, hloop, hy, hle', hcalled, hheld⟩ := hrest
  -- one operation is created and called, and the rest of the loop follows
  have hcons : Performs
      (fun n => serialChainLoop ((localExecutor handlers).contexts scope n).recording (fn :: fns) x) s
      (.ok y) s' ([.createValue fn] ++ ([.createCall f (some x)] ++ record)) :=
    (hcreate.performs hgrowing).bind ((hcall.performs hgrowing).bind hloop)
  refine ⟨y, s', _, hcons, hy, hle.trans hle', ?_, ?_⟩
  · rw [hlength]
    exact .cons ⟨s, u, hcreate⟩ hcalled
  · rw [hinputs]
    exact .cons (hx.of_le (hle.trans hle')) hheld

/-- By induction on the functions. -/
theorem serialChainLoop_follows (hfns : List.Forall₂ ((localData handlers scope).Denotes s₀) fns Fs)
    (hs : s₀ ≤ s) (hx : DataEquivalence.upToStructs.Holds x d s) (hhands : HandsOn Fs d)
    (hr : chainFold Fs d = .ok (r, stopped)) : LoopFollows handlers scope fns x s Fs d r := by
  induction hfns generalizing s x d with
  | nil =>
      cases hr
      exact ⟨x, s, [], .pure x s, hx, le_refl s, .nil, .nil⟩
  | @cons fn F fns Fs hfn hfns ih =>
      obtain ⟨f, u, hcreate, hu, hf⟩ := hfn hs
      have hgives := hf d (le_refl u) (hx.of_le hu)
      cases hF : F.outcome d with
      | error e =>
          rw [chainFold, hF] at hr
          cases hr
      | ok r₁ =>
          rw [outcome_eq_ok hF] at hgives
          cases hgives with
          | @data v _ u' hcall hle hv =>
              have hle' := hu.trans hle
              cases hb : r₁.boolean? with
              -- an ordinary result is what the next function gets
              | none =>
                  simp only [chainFold, HandsOn, hF, hb] at hr hhands
                  refine .cons hcreate hcall hle' hx ?_ ?_ (ih (hs.trans hle') hv hhands hr)
                  · simp only [chainLength, hF, hb]
                  · simp only [chainInputs, hF, hb]
              | some b =>
                  cases b with
                  | false =>
                      simp only [chainFold, HandsOn, hF, hb] at hr hhands
                      obtain ⟨hsame, hhands⟩ := hhands
                      refine .cons hcreate hcall hle' hx ?_ ?_ (ih (hs.trans hle') (hv.of_same hsame) hhands hr)
                      · simp only [chainLength, hF, hb]
                      · simp only [chainInputs, hF, hb]
                  | true =>
                      simp only [chainFold, HandsOn, hF, hb] at hr hhands
                      -- the round stops here, and there is nothing left for the loop either
                      obtain ⟨hsame, rfl⟩ := hhands
                      cases hfns
                      cases hr
                      have hrest : LoopFollows handlers scope [] v u' [] r r :=
                        ⟨v, u', [], .pure v u', hv.of_same hsame, le_refl u', .nil, .nil⟩
                      refine .cons hcreate hcall hle' hx ?_ ?_ hrest
                      · simp only [chainLength, hF, hb]
                      · simp only [chainInputs, hF, hb]

/-! ### Whatever follows, hands on -/

/-- The first function is called on the state, and the others on what it returns. -/
theorem serialChainLoop_cons (hloop : Run.Finally
    (fun n => serialChainLoop ((localExecutor handlers).contexts scope n).recording (fn :: fns) x) (s, l) y
      (s', l')) :
    ∃ f u v u', Context.Creates ((localExecutor handlers).contexts scope) fn s f u ∧
      Context.Calls ((localExecutor handlers).contexts scope) f (some x) u v u' ∧
      Run.Finally (fun n => serialChainLoop ((localExecutor handlers).contexts scope n).recording fns v)
        (u', l ++ [.createValue fn, .createCall f (some x)]) y (s', l') := by
  obtain ⟨n, hloop⟩ := hloop
  obtain ⟨f, ⟨u, l₁⟩, hcreate, hloop⟩ := hloop.of_bind
  obtain ⟨v, ⟨u', l₂⟩, hcall, hloop⟩ := hloop.of_bind
  obtain ⟨hcreate', rfl⟩ := returns_recorded_iff.mp hcreate
  obtain ⟨hcall', rfl⟩ := returns_recorded_iff.mp hcall
  rw [List.append_assoc] at hloop
  exact ⟨f, u, v, u', ⟨n, hcreate'⟩, ⟨n, hcall'⟩, n, hloop⟩

theorem serialChainLoop_le (hscope : scope.Alive s) (hx : x.Alive s) (hloop : Run.Finally
    (fun n => serialChainLoop ((localExecutor handlers).contexts scope n).recording fns x) (s, l) y (s', l')) :
    s ≤ s' ∧ ∃ record, l' = l ++ record := by
  induction fns generalizing s x l with
  | nil =>
      obtain ⟨n, hloop⟩ := hloop
      obtain ⟨-, hstate⟩ := hloop.unique (.pure x (s, l))
      cases hstate
      exact ⟨le_refl _, [], (List.append_nil _).symm⟩
  | cons fn fns ih =>
      obtain ⟨f, u, v, u', hcreate, hcall, hloop⟩ := serialChainLoop_cons hloop
      obtain ⟨hu, hf⟩ := creates_le handlers hscope hcreate
      have hx' : ∀ a ∈ some x, ExecutorValue.Alive u a := by
        rintro _ ⟨⟩
        exact hx.of_le hu
      obtain ⟨hu', hv⟩ := calls_le handlers hf hx' hcall
      obtain ⟨hle, record, rfl⟩ := ih (hscope.of_le (hu.trans hu')) hv hloop
      exact ⟨(hu.trans hu').trans hle, _, List.append_assoc ..⟩

theorem serialChainLoop_inputs (hscope : scope.Alive s) (hx : x.Alive s) (hloop : Run.Finally
    (fun n => serialChainLoop ((localExecutor handlers).contexts scope n).recording (fn :: fns) x) (s, l) y
      (s', l ++ record)) : ∃ rest, inputs record = x :: rest := by
  obtain ⟨f, u, v, u', hcreate, hcall, hloop⟩ := serialChainLoop_cons hloop
  obtain ⟨hu, hf⟩ := creates_le handlers hscope hcreate
  have hx' : ∀ a ∈ some x, ExecutorValue.Alive u a := by
    rintro _ ⟨⟩
    exact hx.of_le hu
  obtain ⟨hu', hv⟩ := calls_le handlers hf hx' hcall
  obtain ⟨-, record', heq⟩ := serialChainLoop_le (hscope.of_le (hu.trans hu')) hv hloop
  have hrecord := List.append_cancel_left (heq.trans (List.append_assoc ..))
  rw [hrecord]
  exact ⟨inputs record', rfl⟩

theorem serialChainLoop_nil (hloop : Run.Finally
    (fun n => serialChainLoop ((localExecutor handlers).contexts scope n).recording [] x) (s, l) y (s', l')) :
    y = x ∧ s' = s := by
  obtain ⟨n, hloop⟩ := hloop
  obtain ⟨hy, hstate⟩ := hloop.unique (.pure x (s, l))
  exact ⟨hy, (Prod.mk.inj hstate).1⟩

/-- What the state of a chain is, when it is said to be `d`. -/
theorem same_of_serialChainLoop (hfns : List.Forall₂ ((localData handlers scope).Denotes s₀) fns Fs)
    (hscope : scope.Alive s) {d₁ : Value} (hx : DataEquivalence.upToStructs.Holds x d₁ s)
    (hloop : Run.Finally (fun n => serialChainLoop ((localExecutor handlers).contexts scope n).recording fns x)
      (s, l) y (s', l ++ record)) (hy : DataEquivalence.upToStructs.Holds y r s')
    (hheld : List.Forall₂ (DataEquivalence.upToStructs.Holds · · s') (inputs record) (chainInputs Fs d))
    (hr : chainFold Fs d = .ok (r, stopped)) : DataEquivalence.upToStructs.same d₁ d := by
  cases hfns with
  | nil =>
      obtain ⟨rfl, rfl⟩ := serialChainLoop_nil hloop
      cases hr
      exact hx.same hy
  | cons hfn hfns =>
      obtain ⟨hle, -⟩ := serialChainLoop_le hscope hx.alive hloop
      obtain ⟨rest, hinputs⟩ := serialChainLoop_inputs hscope hx.alive hloop
      rw [hinputs, chainInputs] at hheld
      cases hheld with
      | cons hx' _ => exact (hx.of_le hle).same hx'

/-- A chain of which each function is called as in a round, hands on what it should, by induction on the
functions. -/
theorem handsOn_of_serialChainLoop (hfns : List.Forall₂ ((localData handlers scope).Denotes s₀) fns Fs)
    (hscope : scope.Alive s₀) (hs : s₀ ≤ s) (hx : DataEquivalence.upToStructs.Holds x d s)
    (hloop : Run.Finally (fun n => serialChainLoop ((localExecutor handlers).contexts scope n).recording fns x)
      (s, l) y (s', l ++ record)) (hy : DataEquivalence.upToStructs.Holds y r s')
    (hheld : List.Forall₂ (DataEquivalence.upToStructs.Holds · · s') (inputs record) (chainInputs Fs d))
    (hr : chainFold Fs d = .ok (r, stopped)) : HandsOn Fs d := by
  induction hfns generalizing s x d l record with
  | nil => trivial
  | @cons fn F fns Fs hfn hfns ih =>
      have hgrowing := (localExecutor handlers).contexts_growing scope
      obtain ⟨f, u, hcreate, hu, hf⟩ := hfn hs
      obtain ⟨_, _, v, u', hcreate', hcall, hloop⟩ := serialChainLoop_cons hloop
      obtain ⟨rfl, rfl⟩ := (hgrowing.createValue fn).unique hcreate hcreate'
      have hgives := hf d (le_refl u) (hx.of_le hu)
      cases hF : F.outcome d with
      | error e => simp only [HandsOn, hF]
      | ok r₁ =>
          rw [outcome_eq_ok hF] at hgives
          cases hgives with
          | data hcall' hle hv =>
              obtain ⟨rfl, rfl⟩ := (hgrowing.createCall f (some x)).unique hcall hcall'
              have hs' := hs.trans (hu.trans hle)
              have hscope' := hscope.of_le hs'
              obtain ⟨-, record', heq⟩ := serialChainLoop_le hscope' hv.alive hloop
              rw [heq] at hloop
              -- the first call is recorded before those of the rest
              have hrecord := List.append_cancel_left (heq.trans (List.append_assoc ..))
              rw [hrecord] at hheld
              cases hb : r₁.boolean? with
              | none =>
                  simp only [chainFold, chainInputs, HandsOn, hF, hb] at hr hheld ⊢
                  cases hheld with
                  | cons _ hheld => exact ih hs' hv hloop hheld hr
              | some b =>
                  cases b with
                  | false =>
                      simp only [chainFold, chainInputs, HandsOn, hF, hb] at hr hheld ⊢
                      cases hheld with
                      | cons _ hheld =>
                          -- the round goes on with `d` and the loop with the result, so they have to be the same
                          have hsame := same_of_serialChainLoop hfns hscope' hv hloop hy hheld hr
                          exact ⟨hsame, ih hs' (hv.of_same hsame) hloop hheld hr⟩
                  | true =>
                      simp only [chainFold, chainInputs, HandsOn, hF, hb] at hr hheld ⊢
                      cases hheld with
                      | cons _ hheld =>
                          -- the round stops here, but the loop would go on with the next function
                          cases hfns with
                          | nil =>
                              obtain ⟨rfl, rfl⟩ := serialChainLoop_nil hloop
                              cases hr
                              exact ⟨hv.same hy, rfl⟩
                          | cons hfn hfns =>
                              obtain ⟨rest, hinputs⟩ := serialChainLoop_inputs hscope' hv.alive hloop
                              have hnone : List.Forall₂ (DataEquivalence.upToStructs.Holds · · s')
                                  (inputs record') [] := hheld
                              rw [hinputs] at hnone
                              cases hnone

end

/-! ## The chains that are built -/

/-- The handlers that chains rely on are registered. -/
structure HasChains (handlers : IntrinsicHandlerSet) : Prop where
  serialChain : HasSerialChain handlers
  repeatedConditionalChain : handlers.getHandler "repeated_conditional_chain" =
    .ok ⟨"repeated_conditional_chain", .controlFlow .repeatedConditionalChain⟩
  parallelMap : HasParallelMap handlers

section

variable [ProtoText] {handlers : IntrinsicHandlerSet} (hhandlers : HasChains handlers) {scope : Scope}
  {s : InlineState} {ops : List Value} {Fs : List DataFunction} {d : Value}

include hhandlers in
theorem creates_serialChain (hne : ops ≠ []) (s : InlineState) :
    Context.Creates ((localExecutor handlers).contexts scope) (createSerialChain ops) s
      (ControlFlowHandler.serialChain.function {} (labelledFns ops) scope) s :=
  creates_chainPb (localExecutor handlers) scope hhandlers.serialChain (mt labelledFns_eq_nil_iff.mp hne) {} s

omit [ProtoText] in
/-- Without calls there are no inputs. -/
theorem inputs_eq_nil {record : List (Operation ExecutorValue)} (h : called record = []) :
    inputs record = [] := by
  rw [called, List.filterMap_eq_nil_iff] at h
  rw [inputs, List.filterMap_eq_nil_iff]
  intro op hop
  have hnone := h op hop
  cases op with
  | createCall f a => cases hnone
  | _ => rfl

/-- The parameters of a repeated chain. -/
def repeatedFns (n : Int32) (ops : List Value) : List Value :=
  createLabeledValue "num_steps" (.ofInt32 n) :: labelledFns ops

include hhandlers in
theorem creates_repeatedConditionalChain (n : Int32) (hne : ops ≠ []) (s : InlineState) :
    Context.Creates ((localExecutor handlers).contexts scope) (createRepeatedConditionalChain n ops) s
      (ControlFlowHandler.repeatedConditionalChain.function {} (repeatedFns n ops) scope) s := by
  refine (creates_iff rfl).mpr (.controlFlow hhandlers.repeatedConditionalChain rfl ?_)
  have hlength : 2 ≤ (repeatedFns n ops).length := by
    rw [repeatedFns, List.length_cons, length_labelledFns]
    have hpos := List.length_pos_iff.mpr hne
    omega
  have hcheck : (true && decide (2 ≤ (repeatedFns n ops).length)) = true := decide_eq_true hlength
  exact if_pos hcheck

include hhandlers in
theorem followsRounds_serialChain (hne : ops ≠ [])
    (hfns : List.Forall₂ ((localData handlers scope).Denotes s) (labelledFns ops) Fs)
    (h : ∀ r, roundsFold Fs 1 d = .ok r → HandsOn Fs d) :
    FollowsRounds handlers scope (createSerialChain ops) (labelledFns ops) Fs 1 d s := by
  intro u x r hu hx hr
  obtain ⟨stopped, hchain⟩ := roundsFold_one_eq_ok hr
  obtain ⟨y, s', record, hloop, hy, -, hcalled, hheld⟩ := serialChainLoop_follows hfns hu hx (h r hr) hchain
  have hcall := (Performs.pure x u).bind hloop
  refine ⟨.serialChain, {}, labelledFns ops, u, y, s', record, creates_serialChain hhandlers hne u,
    (hcall []).finally_, hy, ?_, ?_⟩
  · rw [roundsLengths_one, List.flatMap_singleton]
    exact hcalled
  · rw [roundsInputs_one]
    exact hheld

include hhandlers in
theorem followsRounds_repeatedConditionalChain (n : Int32) (hne : ops ≠ [])
    (hfns : List.Forall₂ ((localData handlers scope).Denotes s) (labelledFns ops) Fs) :
    FollowsRounds handlers scope (createRepeatedConditionalChain n ops) (labelledFns ops) Fs
      n.toInt.toNat d s := by
  intro u x r hu hx hr
  obtain ⟨fs, u₁, record, hcreates, hle, hfs, hcreated, hcalled⟩ :=
    DataModel.createValues_spec (M := localData handlers scope) hfns hu
  obtain ⟨o, s', record', hrounds, ho, hcalled'⟩ :=
    DataModel.conditionalRounds_spec hfs n.toInt.toNat (le_refl u₁) (hx.of_le hle)
  rw [hr] at ho
  cases o with
  | error => cases ho
  | ok y =>
      obtain ⟨hy, hle', hheld⟩ := ho
      have hcall : Performs (fun k => ControlFlowHandler.repeatedConditionalChain.executeCall
          ((localExecutor handlers).contexts scope k).recording k
          (ControlFlowHandler.repeatedConditionalChain.intrinsic {} (repeatedFns n ops)) (some x)) u (.ok y) s'
          (record ++ record') := hcreates.bind ((Performs.pure x u₁).bind hrounds)
      refine ⟨.repeatedConditionalChain, {}, repeatedFns n ops, u, y, s', record ++ record',
        creates_repeatedConditionalChain hhandlers n hne u, (hcall []).finally_, hy, ?_, ?_⟩
      -- in each round the operations are called in order, up to the break
      · rw [called_append, hcalled, hcalled', List.nil_append]
        exact List.rel_flatMap (R := Eq) (List.forall₂_refl _) fun k _ hk => hk ▸ List.forall₂_take k hcreated
      · rw [inputs_append, inputs_eq_nil hcalled, List.nil_append]
        exact hheld

/-! ## What follows the documentation -/

/-- A chain that was built and called as a serial chain. -/
theorem handsOn_of_followsRounds (hhandlers : HasChains handlers) (hne : ops ≠ []) (hscope : scope.Alive s)
    (hfns : List.Forall₂ ((localData handlers scope).Denotes s) (labelledFns ops) Fs)
    (hd : DataEquivalence.upToStructs.same d d)
    (h : FollowsRounds handlers scope (createSerialChain ops) (labelledFns ops) Fs 1 d s) {r : Value}
    (hr : roundsFold Fs 1 d = .ok r) : HandsOn Fs d := by
  have hgrowing := (localExecutor handlers).contexts_growing scope
  obtain ⟨x, u, -, hx, hu⟩ := (localData handlers scope).creates hd s
  obtain ⟨handler, m, es, u', y, s', record, hchain, hcall, hy, -, hheld⟩ := h u x r hu hx hr
  obtain ⟨stopped, hfold⟩ := roundsFold_one_eq_ok hr
  rw [roundsInputs_one] at hheld
  -- what the builder made is a SerialChain, so the call is one of its loop
  obtain ⟨hfunction, rfl⟩ := (hgrowing.createValue _).unique hchain (creates_serialChain hhandlers hne u)
  injection hfunction with hintrinsic hhandler
  injection hhandler with _ hinterface
  injection hinterface with hinterface
  subst hinterface
  have hexecute : (localExecutor handlers).recordedCall scope .serialChain
      (ControlFlowHandler.serialChain.intrinsic {} (labelledFns ops)) (some x) =
        fun n => serialChainLoop ((localExecutor handlers).contexts scope n).recording (labelledFns ops) x :=
    funext fun n => pure_bind x _
  rw [hintrinsic, hexecute] at hcall
  exact handsOn_of_serialChainLoop hfns hscope hu hx hcall hy hheld hfold

/-- What is not created does not follow anything. -/
theorem not_followsRounds {chain : Value} {fns : List Value} {n : Nat}
    (hfails : ∀ u, ∃ e u', Context.CreateFails ((localExecutor handlers).contexts scope) chain u e u')
    (hd : DataEquivalence.upToStructs.same d d) :
    ¬FollowsRounds handlers scope chain fns [] n d s := by
  intro h
  have hgrowing := (localExecutor handlers).contexts_growing scope
  obtain ⟨x, u, -, hx, hu⟩ := (localData handlers scope).creates hd s
  obtain ⟨handler, m, es, u', y, s', record, hchain, -⟩ := h u x d hu hx (roundsFold_nil n d)
  obtain ⟨e, u'', hfails⟩ := hfails u
  exact (hgrowing.createValue chain).not_both hchain hfails

variable {chain : SmartChain}

/-- A chain without operations is refused. -/
theorem createFails_of_nil (hhandlers : HasChains handlers) (hnil : chain.chainedOps = []) (u : InlineState) :
    ∃ e u', Context.CreateFails ((localExecutor handlers).contexts scope) chain.buildChain u e u' := by
  unfold SmartChain.buildChain
  rw [hnil]
  split
  · exact ⟨_, u, createFails_of_check hhandlers.repeatedConditionalChain rfl⟩
  · exact ⟨_, u, createFails_of_check hhandlers.serialChain rfl⟩

/-- The chain stops at Booleans, or there are none. -/
def SmartChain.Regards (chain : SmartChain) (Fs : List DataFunction) (d : Value) : Prop :=
  1 < chain.numIteration ∨ ∀ r, roundsFold Fs 1 d = .ok r → HandsOn Fs d

theorem followsRounds_iff (hhandlers : HasChains handlers) (hscope : scope.Alive s)
    (hfns : List.Forall₂ ((localData handlers scope).Denotes s) (labelledFns chain.chainedOps) Fs)
    (hd : DataEquivalence.upToStructs.same d d) :
    FollowsRounds handlers scope chain.buildChain (labelledFns chain.chainedOps) Fs chain.rounds d s ↔
      chain.chainedOps ≠ [] ∧ chain.Regards Fs d := by
  by_cases hnil : chain.chainedOps = []
  · rw [hnil] at hfns
    cases hfns
    -- a chain without operations cannot be created
    have hnot := @not_followsRounds _ handlers scope s d chain.buildChain (labelledFns chain.chainedOps)
      chain.rounds (createFails_of_nil hhandlers hnil) hd
    exact ⟨fun h => absurd h hnot, fun h => absurd hnil h.1⟩
  by_cases hn : 1 < chain.numIteration
  · have hrounds : chain.rounds = chain.numIteration.toInt.toNat := by
      have hlt : 1 < chain.numIteration.toInt := Int32.lt_iff_toInt_lt.mp hn
      unfold SmartChain.rounds
      omega
    rw [hrounds, SmartChain.buildChain, if_pos hn]
    exact ⟨fun _ => ⟨hnil, .inl hn⟩, fun _ => followsRounds_repeatedConditionalChain hhandlers _ hnil hfns⟩
  · have hrounds : chain.rounds = 1 := by
      have hle : ¬1 < chain.numIteration.toInt := fun hlt => hn (Int32.lt_iff_toInt_lt.mpr hlt)
      unfold SmartChain.rounds
      omega
    rw [hrounds, SmartChain.buildChain, if_neg hn]
    constructor
    · intro h
      exact ⟨hnil, .inr fun r hr => handsOn_of_followsRounds hhandlers hnil hscope hfns hd h hr⟩
    · rintro ⟨-, hregards⟩
      exact followsRounds_serialChain hhandlers hnil hfns (hregards.resolve_left hn)

end

/-! ## Parallel chains -/

section

variable [ProtoText] {handlers : IntrinsicHandlerSet} {scope : Scope} {s₀ s : InlineState} {f : ExecutorValue}
  {rs : Value → Value → Prop} {ws es ds : List Value}

/-- From `s₀` on, `f` makes what `rs` says. -/
def CallsMake (handlers : IntrinsicHandlerSet) (scope : Scope) (f : ExecutorValue) (rs : Value → Value → Prop)
    (s₀ : InlineState) (e : Value) : Prop :=
  ∀ u a r, s₀ ≤ u → DataEquivalence.upToStructs.Holds a e u → rs e r →
    ∃ y u', Context.Calls ((localExecutor handlers).contexts scope) f (some a) u y u' ∧ u ≤ u' ∧
      DataEquivalence.upToStructs.Holds y r u'

theorem parallelMapLoop_follows (hws : List.Forall₂ DataEquivalence.upToStructs.same ws es)
    (hds : List.Forall₂ rs es ds) (hcalls : ∀ e ∈ es, CallsMake handlers scope f rs s₀ e) (hs : s₀ ≤ s) :
    ∃ ys s' record,
      Performs (fun n => parallelMapLoop ((localExecutor handlers).contexts scope n).recording f ws) s
        (.ok ys) s' record ∧
      s ≤ s' ∧ List.Forall₂ (DataEquivalence.upToStructs.Holds · · s') ys ds ∧ (∀ g ∈ called record, g = f) ∧
      List.Forall₂ (DataEquivalence.upToStructs.Holds · · s') (inputs record) es := by
  have hgrowing := (localExecutor handlers).contexts_growing scope
  induction hws generalizing s ds with
  | nil =>
      cases hds
      exact ⟨[], s, [], .pure [] s, le_refl s, .nil, List.forall_mem_nil _, .nil⟩
  | @cons w e ws es hw _ ih =>
      cases hds with
      | @cons _ r _ ds hr hds =>
          obtain ⟨hcall, hcalls⟩ := List.forall_mem_cons.mp hcalls
          obtain ⟨a, u, hcreate, ha, hu⟩ := (localData handlers scope).creates hw s
          obtain ⟨y, u', hcall, hu', hy⟩ := hcall u a r (hs.trans hu) ha hr
          have hle := hu.trans hu'
          obtain ⟨ys, s', record, hloop, hs', hys, hcalled, hheld⟩ := ih hds hcalls (hs.trans hle)
          -- an element is created and handed to the function, and the rest of the loop follows
          have hrun : Performs
              (fun n => parallelMapLoop ((localExecutor handlers).contexts scope n).recording f (w :: ws)) s
              (.ok (y :: ys)) s' ([.createValue w] ++ ([.createCall f (some a)] ++ (record ++ []))) :=
            (hcreate.performs hgrowing).bind ((hcall.performs hgrowing).bind (hloop.bind (.pure (y :: ys) s')))
          rw [List.append_nil] at hrun
          refine ⟨y :: ys, s', _, hrun, hle.trans hs', .cons (hy.of_le hs') hys, ?_, ?_⟩
          · exact List.forall_mem_cons.mpr ⟨rfl, hcalled⟩
          · exact .cons (ha.of_le (hu'.trans hs')) hheld

omit [ProtoText] in
/-- The elements are told apart as the structures are. -/
theorem elements_same {w d : Value} (h : DataEquivalence.upToStructs.same w d) :
    List.Forall₂ DataEquivalence.upToStructs.same w.elements d.elements := by
  obtain ⟨⟨hw, hd⟩, hbare⟩ := h
  cases hd with
  | scalar =>
      cases hw with
      | scalar => exact .nil
      | struct _ => cases hbare
  | @struct m ds hds =>
      obtain ⟨m', ws, rfl, hall⟩ := @DataEquivalence.elements .upToStructs w ds
        ⟨⟨hw, .struct hds⟩, hbare⟩
      exact hall

theorem mapsElements {chain : Value} {d : Value} (hget : HasParallelMap handlers)
    (hcreates : ∀ u, s ≤ u → Context.Creates ((localExecutor handlers).contexts scope) chain u f u)
    (hcalls : ∀ e ∈ d.elements, CallsMake handlers scope f rs s e) :
    MapsElements handlers scope (createParallelMap chain) chain rs d s := by
  have hgrowing := (localExecutor handlers).contexts_growing scope
  intro u x ds hu hx hds
  obtain ⟨w, u₁, hshow, hsame, hu₁⟩ := (localData handlers scope).shows hx
  have hcreate := hcreates u₁ (hu.trans hu₁)
  obtain ⟨ys, s', record, hloop, hs', hys, hcalled, hheld⟩ :=
    parallelMapLoop_follows (elements_same hsame) hds hcalls (hu.trans hu₁)
  have hstruct : Performs
      (fun n => ((localExecutor handlers).contexts scope n).recording.createStruct ys) s' (.ok (.struct ys)) s'
        [.createStruct ys] := fun l => ⟨0, fun _ _ => returns_recorded_iff.mpr ⟨.pure _ _, rfl⟩⟩
  -- show the struct, create the chain, call it for each element and create the struct of the results
  have hrun : Performs (fun n => ControlFlowHandler.parallelMap.executeCall
      ((localExecutor handlers).contexts scope n).recording n ⟨"parallel_map", some chain⟩ (some x)) u
      (.ok (.struct ys)) s'
        ([.materialize x true] ++ ([.createValue chain] ++ (record ++ [.createStruct ys]))) :=
    (Performs.pure x u).bind ((hshow.performs hgrowing).bind ((hcreate.performs hgrowing).bind
      (hloop.bind hstruct)))
  let all : List (Operation ExecutorValue) :=
    [.materialize x true] ++ ([.createValue chain] ++ (record ++ [.createStruct ys]))
  -- only the calls of the loop count
  have hcalled' : called all = called record := by
    rw [called_append, called_append, called_append]
    exact List.append_nil _
  have hheld' : inputs all = inputs record := by
    rw [inputs_append, inputs_append, inputs_append]
    exact List.append_nil _
  refine ⟨⟨"parallel_map", some chain⟩, u, .struct ys, s', all,
    (creates_iff rfl).mpr (.controlFlow hget rfl rfl),
    (hrun []).finally_, .struct hys, ⟨f, ⟨u₁, u₁, hcreate⟩, ?_⟩, ?_⟩
  · rw [hcalled']
    exact hcalled
  · rw [hheld']
    exact hheld

/-- A function that is not created is not mapped. -/
theorem not_mapsElements {chain : Value} {d : Value}
    (hfails : ∀ u, ∃ e u', Context.CreateFails ((localExecutor handlers).contexts scope) chain u e u')
    (hd : DataEquivalence.upToStructs.same d d) (hds : List.Forall₂ rs d.elements ds) :
    ¬MapsElements handlers scope (createParallelMap chain) chain rs d s := by
  intro h
  have hgrowing := (localExecutor handlers).contexts_growing scope
  obtain ⟨x, u, -, hx, hu⟩ := (localData handlers scope).creates hd s
  obtain ⟨intr, u', y, s', record, -, -, -, ⟨f, ⟨t, t', hcreate⟩, -⟩, -⟩ := h u x ds hu hx hds
  obtain ⟨e, u'', hfails⟩ := hfails t
  exact (hgrowing.createValue chain).not_both hcreate hfails

end

/-! ## The chains that follow the documentation -/

section

variable [ProtoText] {handlers : IntrinsicHandlerSet} {scope : Scope} {s : InlineState} {chain : SmartChain}
  {Fs : List DataFunction} {d : Value}

/-- The function that a chain with operations evaluates to. -/
theorem exists_creates_buildChain (hhandlers : HasChains handlers) (hne : chain.chainedOps ≠ []) :
    ∃ handler m es, ∀ u, Context.Creates ((localExecutor handlers).contexts scope) chain.buildChain u
      (ControlFlowHandler.function handler m es scope) u := by
  unfold SmartChain.buildChain
  split
  · exact ⟨_, _, _, creates_repeatedConditionalChain hhandlers chain.numIteration hne⟩
  · exact ⟨_, _, _, creates_serialChain hhandlers hne⟩

theorem chain_follows_iff (hhandlers : HasChains handlers) (hscope : scope.Alive s)
    (hfns : List.Forall₂ ((localData handlers scope).Denotes s) (labelledFns chain.chainedOps) Fs)
    (hd : DataEquivalence.upToStructs.same d d) : chain.Follows handlers scope Fs d s ↔
      chain.chainedOps ≠ [] ∧ ∀ e ∈ chain.inputs d, chain.Regards Fs e := by
  have hinputs : ∀ e ∈ chain.inputs d, DataEquivalence.upToStructs.same e e := by
    unfold SmartChain.inputs
    split
    · exact List.forall₂_same.mp (elements_same hd)
    · exact List.forall_mem_singleton.mpr hd
  constructor
  · rintro ⟨hperforms, hmaps⟩
    have hne : chain.chainedOps ≠ [] := by
      intro hnil
      -- Without operations the chain cannot even be created: it follows nothing, in parallel or not.
      cases hparallel : chain.isParallel with
      | true =>
          rw [hnil] at hfns
          cases hfns
          have hds : List.Forall₂ (fun e r => roundsFold [] chain.rounds e = .ok r) d.elements d.elements :=
            List.forall₂_same.mpr fun e _ => roundsFold_nil chain.rounds e
          have hbuild : chain.build = createParallelMap chain.buildChain := if_pos hparallel
          have hmap := hmaps hparallel
          rw [hbuild] at hmap
          exact not_mapsElements (createFails_of_nil hhandlers hnil) hd hds hmap
      | false =>
          have hmem : d ∈ chain.inputs d := by
            rw [SmartChain.inputs, hparallel]
            exact List.mem_singleton_self d
          exact ((followsRounds_iff hhandlers hscope hfns hd).mp (hperforms d hmem)).1 hnil
    refine ⟨hne, fun e he => ?_⟩
    exact ((followsRounds_iff hhandlers hscope hfns (hinputs e he)).mp (hperforms e he)).2
  · rintro ⟨hne, hregards⟩
    have hperforms := fun e he => (followsRounds_iff hhandlers hscope hfns (hinputs e he)).mpr
      ⟨hne, hregards e he⟩
    refine ⟨hperforms, fun hparallel => ?_⟩
    have hbuild : chain.build = createParallelMap chain.buildChain := if_pos hparallel
    have hmem : chain.inputs d = d.elements := if_pos hparallel
    obtain ⟨handler, m, es, hcreates⟩ := @exists_creates_buildChain _ handlers scope chain hhandlers hne
    rw [hbuild]
    -- each element is an input of its own
    refine mapsElements hhandlers.parallelMap (fun u _ => hcreates u) fun e he u a r hu ha hr => ?_
    obtain ⟨handler', m', es', u', y, s', record, hchain, hcall, hy, -⟩ :=
      hperforms e (hmem ▸ he) u a r hu ha hr
    have hgrowing := (localExecutor handlers).contexts_growing scope
    obtain ⟨hfunction, hstate⟩ := (hgrowing.createValue _).unique hchain (hcreates u)
    rw [hstate] at hcall
    have hcalls : Context.Calls ((localExecutor handlers).contexts scope)
        (ControlFlowHandler.function handler m es scope) (some a) u y s' := by
      rw [← hfunction]
      exact calls_intrinsic_iff.mpr ⟨record, hcall⟩
    have ha' : ∀ v ∈ some a, ExecutorValue.Alive u v := by
      rintro _ ⟨⟩
      exact ha.alive
    exact ⟨y, s', hcalls, (calls_le handlers (.intrinsic (hscope.of_le hu)) ha' hcalls).1, hy⟩

/-- **What is built follows the documentation**, exactly if there are operations, and it is set to be performed
more than once or no operation gives a Boolean. -/
theorem follows_iff :
    (∀ (ops : List ChainedOp) (n : Int32), (ChainedOp.customChain ops n).createComputation =
      SmartChain.build { numIteration := n, chainedOps := ChainedOp.createComputations ops }) ∧
    ∀ (chain : SmartChain) (handlers : IntrinsicHandlerSet) (scope : Scope) (Fs : List DataFunction) (d : Value)
      (s : InlineState), HasChains handlers → scope.Alive s →
      List.Forall₂ ((localData handlers scope).Denotes s) (labelledFns chain.chainedOps) Fs →
      DataEquivalence.upToStructs.same d d →
      (chain.Follows handlers scope Fs d s ↔
        chain.chainedOps ≠ [] ∧ ∀ e ∈ chain.inputs d, chain.Regards Fs e) :=
  ⟨ChainedOp.createComputation_customChain,
    fun _ _ _ _ _ _ hhandlers hscope hfns hd => chain_follows_iff hhandlers hscope hfns hd⟩

end

/-! ### A chain with a break condition -/

def chainHandlers : IntrinsicHandlerSet :=
  ([.serialChain, .repeatedConditionalChain, .parallelMap] : List ControlFlowHandler).map fun handler =>
    ⟨handler.uri, .controlFlow handler⟩

theorem chainHandlers_hasChains : HasChains chainHandlers := ⟨rfl, rfl, rfl⟩

/-- It is met at once. -/
def stopsAtOnce (n : Int32) : SmartChain where
  numIteration := n
  chainedOps := [identityFunction {} "x", constantFunction {} "x" (.boolean true)]

def stopsAtOnceFns : List DataFunction := [fun d => .ok (.ok d), fun _ => .ok (.ok (.ofBool true))]

theorem stopsAtOnce_denotes [ProtoText] (n : Int32) (s : InlineState) : List.Forall₂
    ((localData chainHandlers []).Denotes s) (labelledFns (stopsAtOnce n).chainedOps) stopsAtOnceFns :=
  .cons (denotes_identityFunction _ "x" s) (.cons (denotes_constantFunction _ "x" _ s) .nil)

/-- Performed twice, the chain stops at it. -/
theorem follows_twice :
    let _ := ProtoText.silent
    (stopsAtOnce 2).Follows chainHandlers [] stopsAtOnceFns (.ofStr "a") ⟨.empty, ()⟩ := by
  intro _
  refine (follows_iff.2 (stopsAtOnce 2) chainHandlers [] stopsAtOnceFns (.ofStr "a") ⟨.empty, ()⟩
    chainHandlers_hasChains (List.forall_mem_nil _) (stopsAtOnce_denotes 2 _)
    (DataEquivalence.upToStructs.scalar {} _)).mpr ⟨List.cons_ne_nil _ _, fun e _ => .inl ?_⟩
  decide

/-- Performed once, the Boolean of the condition comes out. -/
theorem not_follows_unset :
    let _ := ProtoText.silent
    ¬(stopsAtOnce 0).Follows chainHandlers [] stopsAtOnceFns (.ofStr "a") ⟨.empty, ()⟩ := by
  intro _ h
  have hperforms := h.performs (.ofStr "a") (List.mem_singleton_self _)
  have hregards := ((followsRounds_iff chainHandlers_hasChains (List.forall_mem_nil _) (stopsAtOnce_denotes 0 _)
    (DataEquivalence.upToStructs.scalar {} _)).mp hperforms).2
  obtain ⟨⟨-, hsame⟩, -⟩ := hregards.resolve_left (by decide) (.ofStr "a") rfl
  cases hsame

end GenC
