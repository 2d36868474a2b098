import GenC.Runtime.DataFunctions

/-!
# Composition laws

Chains of chains, repetitions of repetitions, and repeated chains.
-/

namespace GenC

open Lib ControlFlowExecutor ControlFlowHandler

section

variable {σ V : Type} (ctx : Context σ V)

theorem serialChainLoop_append : ∀ (fs gs : List Value) (x : V),
    serialChainLoop ctx (fs ++ gs) x = serialChainLoop ctx fs x >>= serialChainLoop ctx gs
  | [], gs, x => (pure_bind x _).symm
  | f :: fs, gs, x => by
      rw [List.cons_append, serialChainLoop, serialChainLoop, bind_assoc]
      simp only [bind_assoc, serialChainLoop_append fs gs]

theorem repeatLoop_add (f : V) : ∀ (m n : Nat) (x : V),
    repeatLoop ctx f (m + n) x = repeatLoop ctx f m x >>= repeatLoop ctx f n
  | 0, n, x => by
      rw [Nat.zero_add]
      exact (pure_bind x _).symm
  | m + 1, n, x => by
      rw [Nat.succ_add, repeatLoop, repeatLoop, bind_assoc]
      simp only [repeatLoop_add f m n]

end

/-! ## A chain of chains -/

section

variable [ProtoText] {σ : Type} (exec : ControlFlowExecutor σ) (scope : Scope)

/-- The IR of a chain. -/
def chainPb (m : Meta) (fns : List Value) : Value := .intrinsic {} "serial_chain" (some (.struct m fns))

/-- The handler of chains is registered. -/
def HasSerialChain (handlers : IntrinsicHandlerSet) : Prop :=
  handlers.getHandler "serial_chain" = .ok ⟨"serial_chain", .controlFlow .serialChain⟩

theorem creates_chainPb (hget : HasSerialChain exec.intrinsicHandlers) {fns : List Value} (hne : fns ≠ [])
    (m : Meta) (s : σ) : Context.Creates (exec.contexts scope) (chainPb m fns) s
      (ControlFlowHandler.serialChain.function m fns scope) s := by
  refine (creates_iff rfl).mpr (.controlFlow hget rfl ?_)
  have hlength : decide (1 ≤ fns.length) = true := decide_eq_true (List.length_pos_iff.mpr hne)
  have hcheck : (true && decide (1 ≤ fns.length)) = true := hlength
  exact if_pos hcheck

variable {exec scope}

theorem call_serialChain_endSame (m : Meta) (fns : List Value) (x : ExecutorValue) (s : σ)
    (scope' : Scope) : Run.EndSame
      (fun n => (exec.contexts scope' n).createCall (ControlFlowHandler.serialChain.function m fns scope)
        (some x)) s
      (fun n => serialChainLoop (exec.contexts scope n) fns x) s := by
  have hloop : (fun n => serialChain.executeCall (exec.contexts scope n) n
      (ControlFlowHandler.serialChain.intrinsic m fns) (some x)) =
        fun n => serialChainLoop (exec.contexts scope n) fns x :=
    funext fun n => pure_bind x _
  rw [← hloop]
  exact call_endSame _ _ _ _ s

/-- Chains of which the second continues the first, are one chain. -/
theorem serialChain_append (hget : HasSerialChain exec.intrinsicHandlers) {fs gs : List Value} (hfs : fs ≠ [])
    (hgs : gs ≠ []) (m m₁ m₂ m' : Meta) (x : ExecutorValue) (s : σ) (scope' : Scope) :
    Run.EndSame
      (fun n => (exec.contexts scope' n).createCall
        (ControlFlowHandler.serialChain.function m (fs ++ gs) scope) (some x)) s
      (fun n => (exec.contexts scope' n).createCall
        (ControlFlowHandler.serialChain.function m' [chainPb m₁ fs, chainPb m₂ gs] scope) (some x)) s := by
  have hgrowing := exec.contexts_growing scope
  have hloop : ∀ (fns : List Value) (y : ExecutorValue),
      Run.Growing fun n => serialChainLoop (exec.contexts scope n) fns y :=
    fun fns y _ _ hnm => serialChainLoop_le (hgrowing hnm) fns y
  refine .of_same (call_serialChain_endSame m (fs ++ gs) x s scope') (.trans_same ?_
    (call_serialChain_endSame m' [chainPb m₁ fs, chainPb m₂ gs] x s scope').same_symm)
  simp only [serialChainLoop_append]
  -- each of the two chains is created, and then called
  refine .of_right (hgrowing.createValue _) (fun f => (hgrowing.createCall f _).bind fun y => hloop _ y)
    (creates_chainPb exec scope hget hfs m₁ s) ?_
  refine .bind (hloop fs x) (hloop gs) (hgrowing.createCall _ _) (fun y => hloop _ y)
    (call_serialChain_endSame m₁ fs x s scope).symm ?_
  rintro _ _ y u - - ⟨rfl, rfl⟩
  refine .of_right (hgrowing.createValue _) (fun g => (hgrowing.createCall g _).bind fun z => hloop [] z)
    (creates_chainPb exec scope hget hgs m₂ u) ?_
  refine .trans_same (call_serialChain_endSame m₂ gs y u scope).same_symm ?_
  have hpure : ∀ n, ((exec.contexts scope n).createCall
      (ControlFlowHandler.serialChain.function m₂ gs scope) (some y) >>= serialChainLoop
        (exec.contexts scope n) []) = (exec.contexts scope n).createCall
          (ControlFlowHandler.serialChain.function m₂ gs scope) (some y) := fun n => bind_pure _
  simp only [hpure]
  exact .refl _ u

/-! ## Repetitions -/

theorem call_repeat_endSame (m : Meta) (v f : Value) (x : ExecutorValue) (s : σ) (scope' : Scope) :
    Run.EndSame
      (fun n => (exec.contexts scope' n).createCall (ControlFlowHandler.repeat.function m [v, f] scope)
        (some x)) s
      (fun n => (exec.contexts scope n).createValue f >>= fun fn =>
        repeatLoop (exec.contexts scope n) fn v.int32.toInt.toNat x) s := by
  have hloop : (fun n => ControlFlowHandler.repeat.executeCall (exec.contexts scope n) n
      (ControlFlowHandler.repeat.intrinsic m [v, f]) (some x)) =
        fun n => (exec.contexts scope n).createValue f >>= fun fn =>
          repeatLoop (exec.contexts scope n) fn v.int32.toInt.toNat x := by
    funext n
    show (pure v >>= fun v => pure f >>= fun f => (exec.contexts scope n).createValue f >>= fun fn =>
      pure x >>= fun x => repeatLoop (exec.contexts scope n) fn v.int32.toInt.toNat x) = _
    simp only [pure_bind]
  rw [← hloop]
  exact call_endSame _ _ _ _ s

end

section

variable [ProtoText] {handlers : IntrinsicHandlerSet} {scope : Scope}

/-- Bodies that are the same do the same, however often. -/
theorem repeatLoop_endAlike (scope : Scope) (n : Nat) : ∀ {f f' x x' : ExecutorValue} {s t : InlineState},
    f.Same s t f' → x.Same s t x' → Run.EndAlike (SameSince s t)
      (fun k => repeatLoop ((localExecutor handlers).contexts scope k) f n x) s
      (fun k => repeatLoop ((localExecutor handlers).contexts scope k) f' n x') t := by
  have hgrowing := (localExecutor handlers).contexts_growing scope
  have hloop : ∀ n (f x : ExecutorValue), Run.Growing fun k =>
      repeatLoop ((localExecutor handlers).contexts scope k) f n x :=
    fun n f x _ _ hkl => repeatLoop_le (hgrowing hkl) f n x
  induction n with
  | zero => exact fun _ hx => .pure ⟨le_refl _, le_refl _, hx⟩
  | succ n ih =>
      intro f f' x x' s t hf hx
      refine .bind (hgrowing.createCall f _) (hloop n f) (hgrowing.createCall f' _) (hloop n f')
        (calls_endAlike handlers hf hx scope scope) ?_
      rintro y s₁ y' t₁ - - ⟨hs, ht, hy⟩
      exact (ih (hf.mono hs ht) hy).mono fun _ _ _ _ h => ⟨hs.trans h.1, ht.trans h.2.1, h.2.2⟩

/-- The second repetition makes its body anew, and it is the same. -/
theorem repeatLoop_add_endAlike {f : Value} {x : ExecutorValue} {s : InlineState} (hscope : scope.Alive s)
    (hx : x.Alive s) (a b : Nat) : Run.EndAlike (MaterializeAlike handlers)
      (fun n => ((localExecutor handlers).contexts scope n).createValue f >>= fun fn =>
        repeatLoop ((localExecutor handlers).contexts scope n) fn (a + b) x) s
      (fun n => (((localExecutor handlers).contexts scope n).createValue f >>= fun fn =>
        repeatLoop ((localExecutor handlers).contexts scope n) fn a x) >>= fun y =>
          ((localExecutor handlers).contexts scope n).createValue f >>= fun fn =>
            repeatLoop ((localExecutor handlers).contexts scope n) fn b y) s := by
  have hgrowing := (localExecutor handlers).contexts_growing scope
  have hloop : ∀ n (f x : ExecutorValue), Run.Growing fun k =>
      repeatLoop ((localExecutor handlers).contexts scope k) f n x :=
    fun n f x _ _ hkl => repeatLoop_le (hgrowing hkl) f n x
  have hagain : ∀ y : ExecutorValue, Run.Growing fun n =>
      ((localExecutor handlers).contexts scope n).createValue f >>= fun fn =>
        repeatLoop ((localExecutor handlers).contexts scope n) fn b y :=
    fun y => (hgrowing.createValue f).bind fun fn => hloop b fn y
  -- `a + b` rounds are `a` rounds and then `b` on what they gave
  simp only [repeatLoop_add, bind_assoc]
  refine .bind (hgrowing.createValue f) (fun fn => (hloop a fn x).bind (hloop b fn))
    (hgrowing.createValue f) (fun fn => (hloop a fn x).bind hagain) (.refl _ s) ?_
  rintro fn s₁ _ _ hcreate - ⟨rfl, rfl⟩
  obtain ⟨hs₁, hfn⟩ := creates_le handlers hscope hcreate
  refine .bind (hloop a fn x) (hloop b fn) (hloop a fn x) hagain (.refl _ s₁) ?_
  rintro y s₂ _ _ hrepeated - ⟨rfl, rfl⟩
  obtain ⟨_, _, -, hs₂, -, hy⟩ :=
    (repeatLoop_endAlike scope a (.refl hfn) (.refl (hx.of_le hs₁))).returns hrepeated
  -- the second repeat creates the function anew, in a scope that still denotes the same
  have hsame : scope.Same s s₂ scope := (Scope.Same.refl hscope).mono (le_refl s) (hs₁.trans hs₂)
  obtain ⟨fn', s₃, hcreate', -, hs₃, hfn'⟩ := (creates_endAlike handlers hsame f).returns hcreate
  refine .of_right (hgrowing.createValue f) (fun fn => hloop b fn y) hcreate' ?_
  have hbody : fn.Same s₂ s₃ fn' := hfn'.mono hs₂ (le_refl s₃)
  have hstate : y.Same s₂ s₃ y := (ExecutorValue.Same.refl hy.alive).mono (le_refl s₂) hs₃
  -- both copies run alike on the state, so the rest of the rounds ends alike
  exact (repeatLoop_endAlike scope b hbody hstate).mono fun _ _ _ _ h => h.2.2.materializeAlike handlers

/-- Repeating as often as two repetitions do, one after the other. -/
theorem repeat_add {f v v₁ v₂ : Value} {x : ExecutorValue} {s : InlineState} (hscope : scope.Alive s)
    (hx : x.Alive s) (h₁ : 0 ≤ v₁.int32.toInt) (h₂ : 0 ≤ v₂.int32.toInt)
    (hsum : v.int32.toInt = v₁.int32.toInt + v₂.int32.toInt) (m m₁ m₂ : Meta) (scope' : Scope) :
    Run.EndAlike (MaterializeAlike handlers)
      (fun n => ((localExecutor handlers).contexts scope' n).createCall
        (ControlFlowHandler.repeat.function m [v, f] scope) (some x)) s
      (fun n => do
        let y ← ((localExecutor handlers).contexts scope' n).createCall
          (ControlFlowHandler.repeat.function m₁ [v₁, f] scope) (some x)
        ((localExecutor handlers).contexts scope' n).createCall
          (ControlFlowHandler.repeat.function m₂ [v₂, f] scope) (some y)) s := by
  have hgrowing := (localExecutor handlers).contexts_growing scope
  have hgrowing' := (localExecutor handlers).contexts_growing scope'
  have hcount : v.int32.toInt.toNat = v₁.int32.toInt.toNat + v₂.int32.toInt.toNat := by omega
  have hloop : ∀ n (y : ExecutorValue), Run.Growing fun k =>
      ((localExecutor handlers).contexts scope k).createValue f >>= fun fn =>
        repeatLoop ((localExecutor handlers).contexts scope k) fn n y :=
    fun n y => (hgrowing.createValue f).bind fun fn _ _ hkl => repeatLoop_le (hgrowing hkl) fn n y
  -- each call of a repeat is replaced by its loop
  refine .of_same (call_repeat_endSame m v f x s scope') ?_
  rw [hcount]
  refine .trans_same (repeatLoop_add_endAlike hscope hx _ _) ?_
  refine .bind (hloop _ x) (hloop _) (hgrowing'.createCall _ _) (fun y => hgrowing'.createCall _ _)
    (call_repeat_endSame m₁ v₁ f x s scope').same_symm ?_
  rintro y u _ _ - - ⟨rfl, rfl⟩
  exact (call_repeat_endSame m₂ v₂ f y u scope').same_symm

/-! ## Repeated chains -/

variable {fns : List Value} {Fs : List DataFunction} {x : ExecutorValue} {d : Value} {s : InlineState}

/-- A chain of functions of data is one. -/
theorem serialChain_gives (hfns : List.Forall₂ ((localData handlers scope).Denotes s) fns Fs)
    (hpass : PassesOn Fs d) (m : Meta) : (localData handlers scope).Gives
      (ControlFlowHandler.serialChain.function m fns scope) d (serialFold Fs d) s := by
  intro u a hu ha
  obtain ⟨o, s', record, hloop, ho⟩ :=
    DataModel.serialChainLoop_spec (M := localData handlers scope) hfns hu ha hpass
  have hcall := (Performs.pure a u).bind hloop
  rcases hpass.folds with ⟨e, hserial, hchain⟩ | ⟨r, hserial, hchain⟩ <;> rw [hserial] <;> rw [hchain] at ho
  · cases o with
    | ok => cases ho
    | error e' =>
        obtain rfl : e' = e := ho
        exact .fails (callFails_intrinsic_iff.mpr ⟨_, (hcall []).finallyFails⟩)
  · cases o with
    | error => cases ho
    | ok y => exact .data (calls_intrinsic_iff.mpr ⟨_, (hcall []).finally_⟩) ho.2 ho.1

/-- Repeating a chain is a repeated chain, if there is nothing to stop at. -/
theorem repeat_serialChain (hget : HasSerialChain handlers) (hne : fns ≠ [])
    (hfns : List.Forall₂ ((localData handlers scope).Denotes s) fns Fs)
    (hx : DataEquivalence.upToStructs.Holds x d s) (v : Value)
    (hpass : PassesOn (List.replicate v.int32.toInt.toNat Fs).flatten d) (m m₁ m' : Meta) (scope' : Scope) :
    Run.EndAlike (fun y s' y' t' => ∃ r, DataEquivalence.upToStructs.Holds y r s' ∧
        DataEquivalence.upToStructs.Holds y' r t')
      (fun n => ((localExecutor handlers).contexts scope' n).createCall
        (ControlFlowHandler.repeat.function m [v, chainPb m₁ fns] scope) (some x)) s
      (fun n => ((localExecutor handlers).contexts scope' n).createCall
        (ControlFlowHandler.repeatedConditionalChain.function m' (v :: fns) scope) (some x)) s := by
  have hcreate := creates_chainPb (localExecutor handlers) scope hget hne m₁ s
  -- both sides are the fold over the rounds of the folds over the functions
  obtain ⟨o, s', record, hloop, ho⟩ := DataModel.repeatLoop_spec (M := localData handlers scope)
    (fun d hd => serialChain_gives hfns hd m₁) v.int32.toInt.toNat (le_refl s) hx hpass
  have hrepeat : CallEnds handlers scope .repeat
      (ControlFlowHandler.repeat.intrinsic m [v, chainPb m₁ fns]) x s _
      (roundsFold Fs v.int32.toInt.toNat d) :=
    Performs.callEnds ((hcreate.performs ((localExecutor handlers).contexts_growing scope)).bind
      ((Performs.pure x s).bind hloop)) (ho.mono fun _ _ h => h.1)
  obtain ⟨record', fs, hrounds, -, -⟩ := repeatedConditionalChain_callEnds (m := m') hfns hx v
  exact hrepeat.endAlike hrounds scope'

end

/-! ### The laws -/

/-- **Composition laws of the sequential intrinsics.** -/
theorem sequential_laws [ProtoText] :
    -- a chain of chains
    (∀ {σ : Type} (exec : ControlFlowExecutor σ) (scope scope' : Scope) (m m₁ m₂ m' : Meta)
        (fs gs : List Value) (x : ExecutorValue) (s : σ), HasSerialChain exec.intrinsicHandlers →
      fs ≠ [] → gs ≠ [] → Run.EndSame
        (fun n => (exec.contexts scope' n).createCall
          (ControlFlowHandler.serialChain.function m (fs ++ gs) scope) (some x)) s
        (fun n => (exec.contexts scope' n).createCall
          (ControlFlowHandler.serialChain.function m' [chainPb m₁ fs, chainPb m₂ gs] scope) (some x)) s) ∧
    -- two repetitions
    (∀ (handlers : IntrinsicHandlerSet) (scope scope' : Scope) (m m₁ m₂ : Meta) (v v₁ v₂ f : Value)
        (x : ExecutorValue) (s : InlineState), scope.Alive s → x.Alive s → 0 ≤ v₁.int32.toInt →
      0 ≤ v₂.int32.toInt → v.int32.toInt = v₁.int32.toInt + v₂.int32.toInt →
      Run.EndAlike (MaterializeAlike handlers)
        (fun n => ((localExecutor handlers).contexts scope' n).createCall
          (ControlFlowHandler.repeat.function m [v, f] scope) (some x)) s
        (fun n => do
          let y ← ((localExecutor handlers).contexts scope' n).createCall
            (ControlFlowHandler.repeat.function m₁ [v₁, f] scope) (some x)
          ((localExecutor handlers).contexts scope' n).createCall
            (ControlFlowHandler.repeat.function m₂ [v₂, f] scope) (some y)) s) ∧
    -- a repeated chain
    ∀ (handlers : IntrinsicHandlerSet) (scope scope' : Scope) (m m₁ m' : Meta) (v : Value)
        (fns : List Value) (Fs : List DataFunction) (x : ExecutorValue) (d : Value) (s : InlineState),
      HasSerialChain handlers → fns ≠ [] →
      List.Forall₂ ((localData handlers scope).Denotes s) fns Fs →
      DataEquivalence.upToStructs.Holds x d s →
      PassesOn (List.replicate v.int32.toInt.toNat Fs).flatten d →
      Run.EndAlike (fun y s' y' t' => ∃ r, DataEquivalence.upToStructs.Holds y r s' ∧
          DataEquivalence.upToStructs.Holds y' r t')
        (fun n => ((localExecutor handlers).contexts scope' n).createCall
          (ControlFlowHandler.repeat.function m [v, chainPb m₁ fns] scope) (some x)) s
        (fun n => ((localExecutor handlers).contexts scope' n).createCall
          (ControlFlowHandler.repeatedConditionalChain.function m' (v :: fns) scope) (some x)) s :=
  ⟨fun _ _ scope' m m₁ m₂ m' _ _ x s hget hfs hgs =>
      serialChain_append hget hfs hgs m m₁ m₂ m' x s scope',
    fun _ _ scope' m m₁ m₂ _ _ _ _ _ _ hscope hx h₁ h₂ hsum =>
      repeat_add hscope hx h₁ h₂ hsum m m₁ m₂ scope',
    fun _ _ scope' m m₁ m' v _ _ _ _ _ hget hne hfns hx hpass =>
      repeat_serialChain hget hne hfns hx v hpass m m₁ m' scope'⟩

/-- An identity and a function that pairs its argument with itself, on a string: chained, repeated and
both. -/
theorem sequential_laws_pair :
    let _ := ProtoText.silent
    let handlers : IntrinsicHandlerSet := [⟨"serial_chain", .controlFlow .serialChain⟩]
    let ctxs := (localExecutor handlers).contexts []
    let identity := identityFunction {} "x"
    let pair := pairFunction {} "x"
    let s : InlineState := BaseState.track ⟨.empty, ()⟩ (.ok (.ofStr "a"))
    let x := ExecutorValue.embedded 0
    Run.EndSame
      (fun n => (ctxs n).createCall
        (ControlFlowHandler.serialChain.function {} [identity, pair, pair] []) (some x)) s
      (fun n => (ctxs n).createCall
        (ControlFlowHandler.serialChain.function {} [chainPb {} [identity, pair], chainPb {} [pair]] [])
        (some x)) s ∧
    Run.EndAlike (MaterializeAlike handlers)
      (fun n => (ctxs n).createCall (ControlFlowHandler.repeat.function {} [.ofInt32 3, pair] []) (some x)) s
      (fun n => do
        let y ← (ctxs n).createCall (ControlFlowHandler.repeat.function {} [.ofInt32 2, pair] []) (some x)
        (ctxs n).createCall (ControlFlowHandler.repeat.function {} [.ofInt32 1, pair] []) (some y)) s ∧
    Run.EndAlike (fun y s' y' t' => ∃ r, DataEquivalence.upToStructs.Holds y r s' ∧
        DataEquivalence.upToStructs.Holds y' r t')
      (fun n => (ctxs n).createCall
        (ControlFlowHandler.repeat.function {} [.ofInt32 2, chainPb {} [identity, pair]] []) (some x)) s
      (fun n => (ctxs n).createCall
        (ControlFlowHandler.repeatedConditionalChain.function {} [.ofInt32 2, identity, pair] []) (some x)) s := by
  intro _ handlers ctxs identity pair s x
  have htracked : s.table.trackedValues 0 = some (.ok (.ofStr "a")) := BaseState.tracked_track ⟨.empty, ()⟩ _
  have hx : x.Alive s := .embedded htracked
  have hd : DataEquivalence.upToStructs.Holds x (.ofStr "a") s :=
    ⟨hx, _, htracked, DataEquivalence.upToStructs.scalar {} _⟩
  refine ⟨sequential_laws.1 _ [] [] {} {} {} {} [identity, pair] [pair] x s rfl (List.cons_ne_nil _ _)
      (List.cons_ne_nil _ _),
    sequential_laws.2.1 handlers [] [] {} {} {} (.ofInt32 3) (.ofInt32 2) (.ofInt32 1) pair x s
      (List.forall_mem_nil _) hx (by decide) (by decide) (by decide),
    sequential_laws.2.2 handlers [] [] {} {} {} (.ofInt32 2) [identity, pair]
      [fun d => .ok (.ok d), fun d => .ok (.ok (.ofStruct [d, d]))] x _ s rfl (List.cons_ne_nil _ _)
      (.cons (denotes_identityFunction {} "x" s) (.cons (denotes_pairFunction {} "x" s) .nil)) hd ?_⟩
  exact ⟨rfl, rfl, rfl, rfl, trivial⟩

/-! ## What a repeated chain does differently -/

/-- A custom function that gives a structure with a label. -/
def labelledConfig : HandlerSetConfig :=
  { pairConfig with customFunctionMap := fun _ => some fun _ => .ok labelledStruct }

def labelledHandlers : IntrinsicHandlerSet :=
  [⟨"custom_function", .inline (customFunction labelledConfig)⟩, ⟨"serial_chain", .controlFlow .serialChain⟩]

/-- The value is tracked by the child, with this label. -/
def ExecutorValue.isLabelled (label : String) (v : ExecutorValue) (s : InlineState) : Bool :=
  match v.contents s with
  | some (.ok w) => w.label == label
  | _ => false

theorem exists_of_isLabelled {label : String} {v : ExecutorValue} {s : InlineState}
    (h : v.isLabelled label s = true) : ∃ w, v.contents s = some (.ok w) ∧ w.label = label := by
  unfold ExecutorValue.isLabelled at h
  split at h
  · next w hw => exact ⟨w, hw, eq_of_beq h⟩
  · cases h

/-- **A repeated chain is not a repetition of the chain**, where functions tell structures of the child from
others; and even where they do not, it loses the labels of structures. -/
theorem repeat_serialChain_disagree :
    let _ := ProtoText.silent
    (¬ ∀ (handlers : IntrinsicHandlerSet) (scope : Scope) (m m₁ m' : Meta) (v : Value) (fns : List Value)
        (x : ExecutorValue) (d : Value) (s : InlineState), HasSerialChain handlers → fns ≠ [] →
        (∀ fn ∈ fns, ReturnsData handlers scope s fn) → DataEquivalence.upToStructs.Holds x d s →
      Run.EndAlike (fun y s' y' t' => ∃ r, DataEquivalence.upToStructs.Holds y r s' ∧
          DataEquivalence.upToStructs.Holds y' r t')
        (fun n => ((localExecutor handlers).contexts scope n).createCall
          (ControlFlowHandler.repeat.function m [v, chainPb m₁ fns] scope) (some x)) s
        (fun n => ((localExecutor handlers).contexts scope n).createCall
          (ControlFlowHandler.repeatedConditionalChain.function m' (v :: fns) scope) (some x)) s) ∧
    ¬ ∀ (handlers : IntrinsicHandlerSet) (scope : Scope) (m m₁ m' : Meta) (v : Value) (fns : List Value)
        (Fs : List DataFunction) (x : ExecutorValue) (d : Value) (s : InlineState),
        HasSerialChain handlers → fns ≠ [] →
        List.Forall₂ ((localData handlers scope).Denotes s) fns Fs →
        DataEquivalence.upToStructs.Holds x d s →
        PassesOn (List.replicate v.int32.toInt.toNat Fs).flatten d →
      Run.EndAlike (MaterializeAlike handlers)
        (fun n => ((localExecutor handlers).contexts scope n).createCall
          (ControlFlowHandler.repeat.function m [v, chainPb m₁ fns] scope) (some x)) s
        (fun n => ((localExecutor handlers).contexts scope n).createCall
          (ControlFlowHandler.repeatedConditionalChain.function m' (v :: fns) scope) (some x)) s := by
  intro _
  have hd : DataEquivalence.upToStructs.Holds (.struct []) (.ofStruct []) ⟨.empty, ()⟩ := .struct .nil
  constructor
  · intro h
    -- selecting from an embedded pair fails too late to matter, but from a pair that is created anew at once
    have hfns : ∀ fn ∈ [pairing, ignoresSixth], ReturnsData pairHandlers [] ⟨.empty, ()⟩ fn :=
      List.forall_mem_cons.mpr ⟨pairing_returnsData _,
        List.forall_mem_singleton.mpr (ignoresSixth_returnsData _)⟩
    have hend := h pairHandlers [] {} {} {} (.ofInt32 1) [pairing, ignoresSixth] (.struct []) (.ofStruct [])
      ⟨.empty, ()⟩ rfl (List.cons_ne_nil _ _) hfns hd
    obtain ⟨y, s', hreturns, -⟩ := exists_returns (x := ((localExecutor pairHandlers).contexts [] 9).createCall
      (ControlFlowHandler.repeat.function {} [.ofInt32 1, chainPb {} [pairing, ignoresSixth]] [])
      (some (.struct []))) (s := ⟨.empty, ()⟩) (fun _ _ => true) (by decide +kernel)
    obtain ⟨e, t', hfails⟩ := exists_fails (x := ((localExecutor pairHandlers).contexts [] 8).createCall
      (ControlFlowHandler.repeatedConditionalChain.function {} (.ofInt32 1 :: [pairing, ignoresSixth]) [])
      (some (.struct []))) (s := ⟨.empty, ()⟩) (by decide +kernel)
    obtain ⟨_, _, hreturns', -⟩ := hend.returns ⟨9, hreturns⟩
    exact (((localExecutor pairHandlers).contexts_growing []).createCall _ _).not_both hreturns' ⟨8, hfails⟩
  · intro h
    -- The rounds create each result anew, and so lose the label of a struct.
    have hstruct : labelledStruct.Materialized := .struct (List.forall_mem_nil _)
    have hdenotes : (localData labelledHandlers []).Denotes ⟨.empty, ()⟩ pairing fun _ =>
        .ok (.ok labelledStruct) :=
      denotes_inline rfl rfl rfl fun {_ _} _ => ⟨.ok labelledStruct, rfl, ⟨hstruct, hstruct⟩, rfl⟩
    have hend := h labelledHandlers [] {} {} {} (.ofInt32 1) [pairing] _ (.struct []) (.ofStruct [])
      ⟨.empty, ()⟩ rfl (List.cons_ne_nil _ _) (.cons hdenotes .nil) hd ⟨rfl, trivial⟩
    obtain ⟨y, s', hy, hlabel⟩ :=
      exists_returns (x := ((localExecutor labelledHandlers).contexts [] 9).createCall
      (ControlFlowHandler.repeat.function {} [.ofInt32 1, chainPb {} [pairing]] []) (some (.struct [])))
      (s := ⟨.empty, ()⟩) (fun v s => v.isLabelled "config" s) (by decide +kernel)
    obtain ⟨y', t', hy', hbare⟩ := exists_returns (x :=
      ((localExecutor labelledHandlers).contexts [] 8).createCall
        (ControlFlowHandler.repeatedConditionalChain.function {} [.ofInt32 1, pairing] [])
        (some (.struct []))) (s := ⟨.empty, ()⟩) (fun v s => v.isLabelled "" s) (by decide +kernel)
    obtain ⟨w, hw, hconfig⟩ := exists_of_isLabelled hlabel
    obtain ⟨w', hw', hempty⟩ := exists_of_isLabelled hbare
    obtain ⟨_, _, hrounds, halike⟩ := hend.returns ⟨9, hy⟩
    have hgrowing := (localExecutor labelledHandlers).contexts_growing []
    obtain ⟨rfl, rfl⟩ := (hgrowing.createCall _ _).unique hrounds ⟨8, hy'⟩
    have halive := (calls_le labelledHandlers (.intrinsic (List.forall_mem_nil _))
      (by rintro _ ⟨⟩; exact .struct (List.forall_mem_nil _)) ⟨9, hy⟩).2
    have halive' := (calls_le labelledHandlers (.intrinsic (List.forall_mem_nil _))
      (by rintro _ ⟨⟩; exact .struct (List.forall_mem_nil _)) ⟨8, hy'⟩).2
    obtain ⟨u, -, hm⟩ := constMaterialize_ok labelledHandlers halive hw default
    obtain ⟨u', hm'⟩ := (halike (some default) _).mp ⟨u, hm⟩
    obtain ⟨u'', -, hm''⟩ := constMaterialize_ok labelledHandlers halive' hw' default
    obtain ⟨hresult, -⟩ := hm'.unique hm''
    obtain rfl : w = w' := Option.some.inj (MaterializeResult.mk.inj hresult).2
    exact absurd (hconfig.symm.trans hempty) (by decide)

end GenC
