import GenC.Intrinsics.Fallback
import GenC.Intrinsics.While
import GenC.Runtime.IntrinsicCalls

/-!
# `While` and `Fallback`

What calls of the two intrinsics come to: which functions they call, in which order, and what they return
or fail with.
-/

namespace GenC

open Lib While Fallback ControlFlowExecutor

variable {σ : Type} [ProtoText]

/-! ## `While` -/

/-- The function of a `While` in a scope. -/
abbrev whileFunction (m : Meta) (condition body : Value) (scope : Scope) : ExecutorValue :=
  ControlFlowHandler.while.function m [condition, body] scope

section

variable (exec : ControlFlowExecutor σ) (scope : Scope) (m : Meta) (condition body : Value)
  (x : ExecutorValue) (s s' : σ) (record : List (Operation ExecutorValue))

theorem while_returns_iff (y : ExecutorValue) :
    Run.Finally (exec.recordedCall scope .while (ControlFlowHandler.while.intrinsic m [condition, body])
      (some x)) (s, []) y (s', record) ↔ ∃ c b s₀ s₁ iterates t v pb,
        Context.Creates (exec.contexts scope) condition s c s₀ ∧
        Context.Creates (exec.contexts scope) body s₀ b s₁ ∧
        Iterates (exec.contexts scope) c b iterates x s₁ y t ∧
        Asks (exec.contexts scope) c y t v pb s' ∧ pb.boolean? = some false ∧
        record = [.createValue condition, .createValue body] ++ iterating c b iterates ++ asking c y v := by
  have hgrowing := (exec.contexts_growing scope).recording
  refine (finally_whileExecuteCall_iff hgrowing rfl).trans ?_
  -- the record is kept next to the state, and read off again at every step
  simp only [finally_whileLoop_iff hgrowing]
  constructor
  · rintro ⟨c, b, ⟨s₀, l₀⟩, ⟨s₁, l₁⟩, hc, hb, iterates, ⟨t, l⟩, v, pb, hiterates, hask, hfalse⟩
    obtain ⟨hcreated, rfl⟩ := Context.creates_recording_iff.mp hc
    obtain ⟨hcreated', rfl⟩ := Context.creates_recording_iff.mp hb
    obtain ⟨hiterated, rfl⟩ := iterates_recording_iff.mp hiterates
    obtain ⟨hasked, rfl⟩ := asks_recording_iff.mp hask
    exact ⟨c, b, s₀, s₁, iterates, t, v, pb, hcreated, hcreated', hiterated, hasked, hfalse, rfl⟩
  · rintro ⟨c, b, s₀, s₁, iterates, t, v, pb, hc, hb, hiterates, hask, hfalse, rfl⟩
    exact ⟨c, b, (s₀, _), (s₁, _), Context.creates_recording_iff.mpr ⟨hc, rfl⟩,
      Context.creates_recording_iff.mpr ⟨hb, rfl⟩, iterates, (t, _), v, pb,
      iterates_recording_iff.mpr ⟨hiterates, rfl⟩, asks_recording_iff.mpr ⟨hask, rfl⟩, hfalse⟩

theorem while_fails_iff (e : Status) :
    Run.FinallyFails (exec.recordedCall scope .while
      (ControlFlowHandler.while.intrinsic m [condition, body]) (some x)) (s, []) e (s', record) ↔
        (Context.CreateFails (exec.contexts scope) condition s e s' ∧ record = [.createValue condition]) ∨
        (∃ c s₀, Context.Creates (exec.contexts scope) condition s c s₀ ∧
          Context.CreateFails (exec.contexts scope) body s₀ e s' ∧
          record = [.createValue condition, .createValue body]) ∨
        ∃ c b s₀ s₁ iterates z t l, Context.Creates (exec.contexts scope) condition s c s₀ ∧
          Context.Creates (exec.contexts scope) body s₀ b s₁ ∧
          Iterates (exec.contexts scope) c b iterates x s₁ z t ∧
          Stuck (exec.contexts scope) c b z t l e s' ∧
          record = [.createValue condition, .createValue body] ++ iterating c b iterates ++ l := by
  have hgrowing := (exec.contexts_growing scope).recording
  -- three ways to fail: creating the condition, creating the body, or the loop itself
  refine (finallyFails_whileExecuteCall_iff hgrowing rfl).trans ?_
  simp only [finallyFails_whileLoop_iff hgrowing]
  constructor
  · rintro (hc | ⟨c, ⟨s₀, l₀⟩, hc, hb⟩ |
      ⟨c, b, ⟨s₀, l₀⟩, ⟨s₁, l₁⟩, hc, hb, iterates, z, ⟨t, l⟩, l', hiterates, hstuck⟩)
    · exact .inl (Context.createFails_recording_iff.mp hc)
    · obtain ⟨hcreated, rfl⟩ := Context.creates_recording_iff.mp hc
      obtain ⟨hfails, rfl⟩ := Context.createFails_recording_iff.mp hb
      exact .inr (.inl ⟨c, s₀, hcreated, hfails, rfl⟩)
    · obtain ⟨hcreated, rfl⟩ := Context.creates_recording_iff.mp hc
      obtain ⟨hcreated', rfl⟩ := Context.creates_recording_iff.mp hb
      obtain ⟨hiterated, rfl⟩ := iterates_recording_iff.mp hiterates
      obtain ⟨hends, rfl⟩ := stuck_recording_iff.mp hstuck
      exact .inr (.inr ⟨c, b, s₀, s₁, iterates, z, t, l', hcreated, hcreated', hiterated, hends, rfl⟩)
  · rintro (hc | ⟨c, s₀, hc, hb, rfl⟩ | ⟨c, b, s₀, s₁, iterates, z, t, l, hc, hb, hiterates, hstuck, rfl⟩)
    · exact .inl (Context.createFails_recording_iff.mpr hc)
    · exact .inr (.inl ⟨c, (s₀, _), Context.creates_recording_iff.mpr ⟨hc, rfl⟩,
        Context.createFails_recording_iff.mpr ⟨hb, rfl⟩⟩)
    · exact .inr (.inr ⟨c, b, (s₀, _), (s₁, _), Context.creates_recording_iff.mpr ⟨hc, rfl⟩,
        Context.creates_recording_iff.mpr ⟨hb, rfl⟩, iterates, z, (t, _), l,
        iterates_recording_iff.mpr ⟨hiterates, rfl⟩, stuck_recording_iff.mpr ⟨hstuck, rfl⟩⟩)

end

/-! ### Unrolling -/

section

variable (handlers : IntrinsicHandlerSet) {scope : Scope} {condition body : Value} {m : Meta}
  {x c b v : ExecutorValue} {pb : Value} {s s₀ s₁ s₂ : InlineState}

/-- Calling a `While` creates its two functions, and then loops. -/
theorem while_endAlike {α τ : Type} {Q : ExecutorValue → InlineState → α → τ → Prop}
    {y : Nat → Exec τ α} {t : τ} {scope' : Scope}
    (hc : Context.Creates ((localExecutor handlers).contexts scope) condition s c s₀)
    (hb : Context.Creates ((localExecutor handlers).contexts scope) body s₀ b s₁)
    (h : Run.EndAlike Q (fun n => ControlFlowHandler.whileLoop
      ((localExecutor handlers).contexts scope n) c b n x) s₁ y t) :
    Run.EndAlike Q (fun n => ((localExecutor handlers).contexts scope' n).createCall
      (whileFunction m condition body scope) (some x)) s y t := by
  have hgrowing := (localExecutor handlers).contexts_growing scope
  refine Run.EndAlike.of_iff h (fun {y u} => ?_) fun {e u} => ?_
  · refine finally_call_iff.trans ?_
    refine (finally_whileExecuteCall_iff hgrowing rfl).trans ?_
    constructor
    · rintro ⟨c', b', s₀', s₁', hc', hb', hloop⟩
      obtain ⟨rfl, rfl⟩ := (hgrowing.createValue condition).unique hc hc'
      obtain ⟨rfl, rfl⟩ := (hgrowing.createValue body).unique hb hb'
      exact hloop
    · exact fun hloop => ⟨c, b, s₀, s₁, hc, hb, hloop⟩
  · refine finallyFails_call_iff.trans ?_
    refine (finallyFails_whileExecuteCall_iff hgrowing rfl).trans ?_
    constructor
    -- condition and body have been created, so only the loop can have failed
    · rintro (hfails | ⟨c', s₀', hc', hfails⟩ | ⟨c', b', s₀', s₁', hc', hb', hloop⟩)
      · exact ((hgrowing.createValue condition).not_both hc hfails).elim
      · obtain ⟨rfl, rfl⟩ := (hgrowing.createValue condition).unique hc hc'
        exact ((hgrowing.createValue body).not_both hb hfails).elim
      · obtain ⟨rfl, rfl⟩ := (hgrowing.createValue condition).unique hc hc'
        obtain ⟨rfl, rfl⟩ := (hgrowing.createValue body).unique hb hb'
        exact hloop
    · exact fun hloop => .inr (.inr ⟨c, b, s₀, s₁, hc, hb, hloop⟩)

/-- The loops of two `While`s whose functions are the same do the same from values that are the same. -/
theorem whileLoop_endAlike {c' b' x' : ExecutorValue} {t : InlineState} {scope' : Scope}
    (hscope : scope.Same s t scope') (hc : c.Same s t c') (hb : b.Same s t b') (hx : x.Same s t x') :
    Run.EndAlike (SameSince s t)
      (fun n => ControlFlowHandler.whileLoop ((localExecutor handlers).contexts scope n) c b n x) s
      (fun n => ControlFlowHandler.whileLoop ((localExecutor handlers).contexts scope' n) c' b' n x') t :=
  endAlike_of_simulates fun n => ControlFlowHandler.whileLoop_related ⟨trivial, fun _ _ _ => trivial⟩ n
    (contexts_related handlers (w := (s, t)) hscope n) hc hb hx

/-- **If the condition shows `false`, the argument is returned.** -/
theorem while_of_false (scope' : Scope)
    (hc : Context.Creates ((localExecutor handlers).contexts scope) condition s c s₀)
    (hb : Context.Creates ((localExecutor handlers).contexts scope) body s₀ b s₁)
    (hask : Asks ((localExecutor handlers).contexts scope) c x s₁ v pb s₂)
    (hfalse : pb.boolean? = some false) :
    Run.EndAlike (fun y s' y' t' => y = y' ∧ s' = t')
      (fun n => ((localExecutor handlers).contexts scope' n).createCall
        (whileFunction m condition body scope) (some x)) s (fun _ => pure x) s₂ := by
  have hgrowing := (localExecutor handlers).contexts_growing scope
  -- the condition is false, so nothing is left of the loop
  have hrest : Run.EndAlike (fun y s' y' t' => y = y' ∧ s' = t')
      (whileRest ((localExecutor handlers).contexts scope) c b x pb) s₂
      (fun _ => (pure x : Exec InlineState ExecutorValue)) s₂ := by
    unfold whileRest
    rw [hfalse]
    exact .refl _ s₂
  refine while_endAlike handlers hc hb (Run.EndAlike.of_iff hrest (fun {y u} => ?_) fun {e u} => ?_)
  · exact finally_whileLoop_of_asks_iff hgrowing hask
  · exact finallyFails_whileLoop_of_asks_iff hgrowing hask

/-- **If it shows `true`, the loop is that from where the body leads.** -/
theorem while_of_true (hscope : scope.Alive s) (hx : x.Alive s)
    (hc : Context.Creates ((localExecutor handlers).contexts scope) condition s c s₀)
    (hb : Context.Creates ((localExecutor handlers).contexts scope) body s₀ b s₁)
    (hask : Asks ((localExecutor handlers).contexts scope) c x s₁ v pb s₂)
    (htrue : pb.boolean? = some true) :
    Run.EndAlike (SameSince s s)
      (fun n => ((localExecutor handlers).contexts scope n).createCall
        (whileFunction m condition body scope) (some x)) s
      (fun n => do
        let b ← ((localExecutor handlers).contexts scope n).createValue body
        let y ← ((localExecutor handlers).contexts scope n).createCall b (some x)
        ((localExecutor handlers).contexts scope n).createCall (whileFunction m condition body scope)
          (some y)) s := by
  have hgrowing := (localExecutor handlers).contexts_growing scope
  -- the states of the left, in order
  obtain ⟨hs₀, hcalive⟩ := creates_le handlers hscope hc
  obtain ⟨hs₁, hbalive⟩ := creates_le handlers (hscope.of_le hs₀) hb
  have hs₂ : s₁ ≤ s₂ := by
    obtain ⟨u, hcall, hshow⟩ := hask
    obtain ⟨hu, hvalive⟩ := calls_le handlers (hcalive.of_le hs₁)
      (by rintro _ ⟨⟩; exact hx.of_le (hs₀.trans hs₁)) hcall
    exact hu.trans (shows_le handlers hvalive hshow)
  have hleft : s ≤ s₂ := (hs₀.trans hs₁).trans hs₂
  -- the body that the right creates is the same
  obtain ⟨b', t₁, hb', -, ht₁, hbb'⟩ := (creates_endAlike handlers
    ((Scope.Same.refl hscope).mono hs₀ (le_refl s)) body).returns hb
  have hloop : ∀ y u y' t, s₂ ≤ u → t₁ ≤ t → y.Same u t y' → Run.EndAlike (SameSince s s)
      (fun n => ControlFlowHandler.whileLoop ((localExecutor handlers).contexts scope n) c b n y) u
      (fun n => ((localExecutor handlers).contexts scope n).createCall
        (whileFunction m condition body scope) (some y')) t := by
    intro y u y' t hu ht hy
    have hsu : s ≤ u := hleft.trans hu
    have hst : s ≤ t := ht₁.trans ht
    obtain ⟨c', t₂, hc', -, ht₂, hcc'⟩ := (creates_endAlike handlers
      ((Scope.Same.refl hscope).mono (le_refl s) hst) condition).returns hc
    obtain ⟨b'', t₃, hb'', -, ht₃, hbb''⟩ := (creates_endAlike handlers
      ((Scope.Same.refl hscope).mono hs₀ (hst.trans ht₂)) body).returns hb
    refine (while_endAlike handlers hc' hb'' ?_).symm
    have hrest := whileLoop_endAlike handlers
      ((Scope.Same.refl hscope).mono hsu ((hst.trans ht₂).trans ht₃))
      (hcc'.mono ((hs₁.trans hs₂).trans hu) ht₃) (hbb''.mono (hs₂.trans hu) (le_refl t₃))
      (hy.mono (le_refl u) (ht₂.trans ht₃))
    refine (hrest.mono fun v s' v' t' h => ?_).symm
    exact ⟨hsu.trans h.1, (((hst.trans ht₂).trans ht₃)).trans h.2.1, h.2.2⟩
  have hcallGrowing : ∀ y, Run.Growing fun n => ((localExecutor handlers).contexts scope n).createCall
      (whileFunction m condition body scope) (some y) := fun y => hgrowing.createCall _ (some y)
  have hloopGrowing : ∀ y, Run.Growing fun n =>
      ControlFlowHandler.whileLoop ((localExecutor handlers).contexts scope n) c b n y :=
    fun y _ _ hnm => ControlFlowHandler.whileLoop_le (hgrowing hnm) c b hnm y
  refine while_endAlike handlers hc hb ?_
  refine Run.EndAlike.of_iff (y := fun n => _) ?_
    (fun {y u} => finally_whileLoop_of_asks_iff hgrowing hask)
    (fun {e u} => finallyFails_whileLoop_of_asks_iff hgrowing hask)
  refine Run.EndAlike.of_right (hgrowing.createValue body)
    (fun b => (hgrowing.createCall b (some x)).bind hcallGrowing) hb' ?_
  unfold whileRest
  rw [htrue]
  refine Run.EndAlike.bind (hgrowing.createCall b (some x)) hloopGrowing
    (hgrowing.createCall b' (some x)) hcallGrowing
    (calls_endAlike handlers (hbb'.mono hs₂ (le_refl t₁)) ((ExecutorValue.Same.refl hx).mono hleft ht₁)
      scope scope) ?_
  rintro y u y' t - - ⟨hu, ht, hy⟩
  exact hloop y u y' t hu ht hy

end

/-! ### The theorem -/

/-- **`While` meets its specification.** -/
theorem while_meets_specification :
    (∀ {σ : Type} (exec : ControlFlowExecutor σ) (scope : Scope) (m : Meta) (condition body : Value)
        (x : ExecutorValue) (s s' : σ) (record : List (Operation ExecutorValue)),
      (∀ y, Run.Finally (exec.recordedCall scope .while
          (ControlFlowHandler.while.intrinsic m [condition, body]) (some x)) (s, []) y (s', record) ↔
        ∃ c b s₀ s₁ iterates t v pb,
          Context.Creates (exec.contexts scope) condition s c s₀ ∧
          Context.Creates (exec.contexts scope) body s₀ b s₁ ∧
          Iterates (exec.contexts scope) c b iterates x s₁ y t ∧
          Asks (exec.contexts scope) c y t v pb s' ∧ pb.boolean? = some false ∧
          record = [.createValue condition, .createValue body] ++ iterating c b iterates ++ asking c y v) ∧
      ∀ e, Run.FinallyFails (exec.recordedCall scope .while
          (ControlFlowHandler.while.intrinsic m [condition, body]) (some x)) (s, []) e (s', record) ↔
        (Context.CreateFails (exec.contexts scope) condition s e s' ∧ record = [.createValue condition]) ∨
        (∃ c s₀, Context.Creates (exec.contexts scope) condition s c s₀ ∧
          Context.CreateFails (exec.contexts scope) body s₀ e s' ∧
          record = [.createValue condition, .createValue body]) ∨
        ∃ c b s₀ s₁ iterates z t l, Context.Creates (exec.contexts scope) condition s c s₀ ∧
          Context.Creates (exec.contexts scope) body s₀ b s₁ ∧
          Iterates (exec.contexts scope) c b iterates x s₁ z t ∧
          Stuck (exec.contexts scope) c b z t l e s' ∧
          record = [.createValue condition, .createValue body] ++ iterating c b iterates ++ l) ∧
    -- unrolling, where everything is pure
    ∀ (handlers : IntrinsicHandlerSet) (scope : Scope) (m : Meta) (condition body pb : Value)
        (x c b v : ExecutorValue) (s s₀ s₁ s₂ : InlineState), scope.Alive s → x.Alive s →
      Context.Creates ((localExecutor handlers).contexts scope) condition s c s₀ →
      Context.Creates ((localExecutor handlers).contexts scope) body s₀ b s₁ →
      Asks ((localExecutor handlers).contexts scope) c x s₁ v pb s₂ →
      (pb.boolean? = some false → ∀ y s',
        Context.Calls ((localExecutor handlers).contexts scope) (whileFunction m condition body scope)
          (some x) s y s' ↔ y = x ∧ s' = s₂) ∧
      (pb.boolean? = some true → Run.EndAlike (MaterializeAlike handlers)
        (fun n => ((localExecutor handlers).contexts scope n).createCall
          (whileFunction m condition body scope) (some x)) s
        (fun n => do
          let b ← ((localExecutor handlers).contexts scope n).createValue body
          let y ← ((localExecutor handlers).contexts scope n).createCall b (some x)
          ((localExecutor handlers).contexts scope n).createCall (whileFunction m condition body scope)
            (some y)) s) := by
  refine ⟨fun exec scope m condition body x s s' record =>
    ⟨while_returns_iff exec scope m condition body x s s' record,
      while_fails_iff exec scope m condition body x s s' record⟩, ?_⟩
  intro handlers scope m condition body pb x c b v s s₀ s₁ s₂ hscope hx hc hb hask
  constructor
  · intro hfalse y s'
    have hend := while_of_false (m := m) handlers scope hc hb hask hfalse
    constructor
    · intro hcall
      obtain ⟨_, _, hpure, rfl, rfl⟩ := hend.returns hcall
      obtain ⟨rfl, rfl⟩ := Run.finally_pure_iff.mp hpure
      exact ⟨rfl, rfl⟩
    · rintro ⟨rfl, rfl⟩
      obtain ⟨_, _, hcall, rfl, rfl⟩ := hend.of_returns (Run.finally_pure_iff.mpr ⟨rfl, rfl⟩)
      exact hcall
  · intro htrue
    refine (while_of_true handlers hscope hx hc hb hask htrue).mono fun y s' y' t' h => ?_
    exact h.2.2.materializeAlike handlers

omit [ProtoText] in
/-- A condition that is its argument, and a body that says `false`: on `true` there is one iteration, on
`false` none, and a string is no condition. -/
theorem while_meets_specification_negation :
    let _ := ProtoText.silent
    let exec := localExecutor []
    let ctxs := exec.contexts []
    let condition := Value.lambda {} "x" (.reference {} "x")
    let body := Value.lambda {} "x" (.ofBool false)
    let loop := whileFunction {} condition body []
    let x := ExecutorValue.embedded 0
    let state (d : Value) : InlineState := BaseState.track ⟨.empty, ()⟩ (.ok d)
    (∃ y s' record, Run.Finally (exec.recordedCall [] .while
        (ControlFlowHandler.while.intrinsic {} [condition, body]) (some x)) (state (.ofBool true), []) y
        (s', record) ∧ y.contents s' = some (.ok (.ofBool false)) ∧ record.length = 7) ∧
    (∃ s' record, Run.FinallyFails (exec.recordedCall [] .while
        (ControlFlowHandler.while.intrinsic {} [condition, body]) (some x)) (state (.ofStr "a"), [])
        (.invalidArgument "Condition does not have boolean: ") (s', record)) ∧
    (∃ u, ∀ y s', Context.Calls ctxs loop (some x) (state (.ofBool false)) y s' ↔ y = x ∧ s' = u) ∧
    Run.EndAlike (MaterializeAlike []) (fun n => (ctxs n).createCall loop (some x)) (state (.ofBool true))
      (fun n => do
        let b ← (ctxs n).createValue body
        let y ← (ctxs n).createCall b (some x)
        (ctxs n).createCall loop (some y)) (state (.ofBool true)) := by
  intro _ exec ctxs condition body loop x state
  let c : ExecutorValue := .lambda ⟨"x", .reference {} "x"⟩ []
  let b : ExecutorValue := .lambda ⟨"x", .ofBool false⟩ []
  have hscope : ∀ s : InlineState, Scope.Alive s [] := fun _ => List.forall_mem_nil _
  have hcondition : ∀ s, Context.Creates ctxs condition s c s := fun s => (creates_iff rfl).mpr .lambda
  have hbody : ∀ s, Context.Creates ctxs body s b s := fun s => (creates_iff rfl).mpr .lambda
  -- the condition shows what its argument holds
  have hasks : ∀ {id : ValueId} {s : InlineState} {d : Value}, s.table.trackedValues id = some (.ok d) →
      ∃ u, s ≤ u ∧ Asks ctxs c (.embedded id) s (.embedded id) d u := by
    intro id s d h
    obtain ⟨u, hle, hshow⟩ := materializeValue_spec [] [] (v := .embedded id) (.embedded h)
    rw [show ExecutorValue.contents s (.embedded id) = some (.ok d) from h] at hshow
    exact ⟨u, hle, s, calls_iff.mpr (.lambda (.reference rfl)), hshow⟩
  have hx : ∀ d : Value, (state d).table.trackedValues 0 = some (.ok d) :=
    fun d => BaseState.tracked_track ⟨.empty, ()⟩ _
  obtain ⟨u, -, htrue⟩ := hasks (hx (.ofBool true))
  obtain ⟨u', -, hfalse⟩ := hasks (hx (.ofBool false))
  obtain ⟨u'', -, hstr⟩ := hasks (hx (.ofStr "a"))
  refine ⟨?_, ?_, ⟨u', (while_meets_specification.2 [] [] {} _ _ _ _ _ _ _ _ _ _ u' (hscope _)
      (.embedded (hx _)) (hcondition _) (hbody _) hfalse).1 rfl⟩,
    (while_meets_specification.2 [] [] {} _ _ _ _ _ _ _ _ _ _ u (hscope _) (.embedded (hx _))
      (hcondition _) (hbody _) htrue).2 rfl⟩
  · -- the body tracks `false`, which the condition is asked next
    have hcall : Context.Calls ctxs b (some x) u (.embedded u.table.nextValueId)
        (u.track (.ok (.ofBool false))) :=
      calls_iff.mpr (.lambda (.child rfl (InlineExecutor.createValue_returns [] (.ofBool false) u)))
    obtain ⟨t, ht, hstop⟩ := hasks (u.tracked_track (.ok (.ofBool false)))
    refine ⟨_, t, _, ((while_meets_specification.1 exec [] {} condition body x _ t _).1 _).mpr
      ⟨c, b, _, _, _, _, _, _, hcondition _, hbody _, .cons htrue rfl hcall .nil, hstop, rfl, rfl⟩, ?_, rfl⟩
    exact (ExecutorValue.contents_frame ht (.embedded (u.tracked_track _))).trans (u.tracked_track _)
  · exact ⟨u'', _, ((while_meets_specification.1 exec [] {} condition body x _ u'' _).2 _).mpr
      (.inr (.inr ⟨c, b, _, _, [], _, _, _, hcondition _, hbody _, .nil, .notBoolean hstr rfl, rfl⟩))⟩

/-! ## `Fallback` -/

/-- The executor can be asked whether a value materializes, without an output to put it into. -/
def Executor.AcceptsNullOutput {Id σ : Type} (exec : Executor Id σ) : Prop :=
  ∀ id s, ∃ m s', Run.Returns (exec.materialize id none) s m s'

omit [ProtoText] in
/-- What cannot be released is left alone. -/
theorem Executor.not_fails_releaseAll {Id : Type} {exec : Executor Id σ} {s' : σ} {e : Status} :
    ∀ {ids : List Id} {s : σ}, ¬ Run.Fails (exec.releaseAll ids) s e s'
  | [], s, h => (Run.Returns.pure () s).not_fails h
  | _ :: _, _, h => by
      rcases h.of_bind with h | ⟨_, _, -, h⟩
      · exact Run.not_fails_attempt h
      · exact not_fails_releaseAll h

omit [ProtoText] in
/-- Over such a child, `Materialize` reports its status and does not fail. -/
theorem Executor.AcceptsNullOutput.constMaterialize_not_fails {exec : ControlFlowExecutor σ}
    (h : exec.childExecutor.AcceptsNullOutput) {v : ExecutorValue} {s s' : σ} {e : Status} :
    ¬ Run.Fails (exec.constMaterialize v none) s e s' := by
  intro hfails
  rcases hfails.of_bind with hfails | ⟨r, s₁, -, hfails⟩
  · exact Run.not_fails_attempt hfails
  rcases r with e | ⟨id, slot⟩
  · exact Run.Returns.not_fails (.pure _ s₁) hfails
  rcases hfails.of_bind with hfails | ⟨r, s₂, hr, hfails⟩
  · exact Run.not_fails_attempt hfails
  rcases r with e' | m
  · obtain ⟨m, s₃, hm⟩ := h id s₁
    exact hm.not_fails (.of_attempt hr)
  rcases hfails.of_bind with hfails | ⟨_, s₃, -, hfails⟩
  · exact Executor.not_fails_releaseAll hfails
  · exact Run.Returns.not_fails (.pure m s₃) hfails

section

variable (exec : ControlFlowExecutor σ) (scope : Scope) (m : Meta) (fns : List Value)
  (arg : Option ExecutorValue) (s s' : σ) (record : List (Operation ExecutorValue))

/-- What `Fallback` fails with when there are no candidates. -/
def noCandidates : Status := .unavailable "No candidate computations available."

theorem fallback_returns_iff (y : ExecutorValue) :
    Run.Finally (exec.recordedCall scope .fallback (ControlFlowHandler.fallback.intrinsic m fns) arg)
      (s, []) y (s', record) ↔ ∃ tried fnPb later l e u fn, fns = tried ++ fnPb :: later ∧
        AllRejected (exec.contexts scope) arg noCandidates tried s l e u ∧
        Works (exec.contexts scope) arg fnPb u fn y s' ∧ record = l ++ trying fnPb arg fn y := by
  have hgrowing := (exec.contexts_growing scope).recording
  refine (finally_fallbackLoop_iff hgrowing).trans ?_
  constructor
  · rintro ⟨tried, fnPb, later, l, e, ⟨u, l'⟩, fn, hfns, hrejected, hworks⟩
    obtain ⟨hrejected, rfl⟩ := allRejected_recording_iff.mp hrejected
    obtain ⟨hworked, rfl⟩ := works_recording_iff.mp hworks
    exact ⟨tried, fnPb, later, _, e, u, fn, hfns, hrejected, hworked, rfl⟩
  · rintro ⟨tried, fnPb, later, l, e, u, fn, hfns, hrejected, hworks, rfl⟩
    exact ⟨tried, fnPb, later, l, e, (u, l), fn, hfns,
      allRejected_recording_iff.mpr ⟨hrejected, rfl⟩, works_recording_iff.mpr ⟨hworks, rfl⟩⟩

theorem fallback_fails_iff (hnull : exec.childExecutor.AcceptsNullOutput) (e : Status) :
    Run.FinallyFails (exec.recordedCall scope .fallback (ControlFlowHandler.fallback.intrinsic m fns) arg)
      (s, []) e (s', record) ↔ AllRejected (exec.contexts scope) arg noCandidates fns s record e s' := by
  have hgrowing := (exec.contexts_growing scope).recording
  refine (finallyFails_fallbackLoop_iff hgrowing ?_).trans ?_
  · rintro n v ⟨u, l⟩ e ⟨u', l'⟩ hfails
    exact hnull.constMaterialize_not_fails (fails_recorded_iff.mp hfails).1
  · constructor
    · rintro ⟨l, hrejected⟩
      obtain ⟨hrejected, rfl⟩ := allRejected_recording_iff.mp hrejected
      exact hrejected
    · exact fun hrejected => ⟨record, allRejected_recording_iff.mpr ⟨hrejected, rfl⟩⟩

end

section

variable {handlers : IntrinsicHandlerSet} {scope : Scope} {fns : List Value} {fnPb : Value}
  {arg : Option ExecutorValue} {s s' : InlineState} {l : List (Operation ExecutorValue)} {e e' : Status}

namespace Fallback

/-! ### What stays alive -/

/-- What materializes without an output, is good. -/
theorem Checks.le {v : ExecutorValue} {status : StatusOr Unit} (h : v.Alive s)
    (hcheck : Checks ((localExecutor handlers).contexts scope) v s status s') :
    s ≤ s' ∧ (status = .ok () → ∃ w, v.contents s = some (.ok w)) := by
  obtain ⟨m, ⟨n, hm⟩, rfl⟩ := hcheck
  obtain ⟨m', u, hu, hm', hspec⟩ := constMaterialize_spec handlers h none
  obtain ⟨rfl, rfl⟩ := hm'.unique hm
  refine ⟨hu, fun hok => ?_⟩
  rcases hr : v.contents s with _ | e | w <;> simp only [hr] at hspec <;> subst hspec
  · cases hok
  · cases hok
  · exact ⟨w, rfl⟩

theorem Rejected.le (h : Rejected ((localExecutor handlers).contexts scope) arg fnPb s l e s')
    (hscope : scope.Alive s) (harg : ∀ v ∈ arg, ExecutorValue.Alive s v) : s ≤ s' := by
  cases h with
  | create hcreate => exact createFails_le handlers hscope hcreate
  | call hcreate hcall =>
      obtain ⟨hu, hfn⟩ := creates_le handlers hscope hcreate
      exact hu.trans (callFails_le handlers hfn (fun v hv => (harg v hv).of_le hu) hcall)
  | materialize hcreate hcall hcheck =>
      obtain ⟨hu, hfn⟩ := creates_le handlers hscope hcreate
      obtain ⟨hu', hresult⟩ := calls_le handlers hfn (fun v hv => (harg v hv).of_le hu) hcall
      exact (hu.trans hu').trans (hcheck.le hresult).1

theorem AllRejected.le (h : AllRejected ((localExecutor handlers).contexts scope) arg e fns s l e' s')
    (hscope : scope.Alive s) (harg : ∀ v ∈ arg, ExecutorValue.Alive s v) : s ≤ s' := by
  induction h with
  | nil => exact le_refl _
  | cons hfirst _ ih =>
      have hu := hfirst.le hscope harg
      exact hu.trans (ih (hscope.of_le hu) fun v hv => (harg v hv).of_le hu)

/-- What a candidate that works gave, holds data. -/
theorem Works.contents {fn y : ExecutorValue}
    (h : Works ((localExecutor handlers).contexts scope) arg fnPb s fn y s') (hscope : scope.Alive s)
    (harg : ∀ v ∈ arg, ExecutorValue.Alive s v) : y.Alive s' ∧ ∃ w, y.contents s' = some (.ok w) := by
  obtain ⟨u, u', hcreate, hcall, hcheck⟩ := h
  obtain ⟨hu, hfn⟩ := creates_le handlers hscope hcreate
  obtain ⟨-, hy⟩ := calls_le handlers hfn (fun v hv => (harg v hv).of_le hu) hcall
  obtain ⟨hs', hok⟩ := hcheck.le hy
  obtain ⟨w, hw⟩ := hok rfl
  exact ⟨hy.of_le hs', w, (ExecutorValue.contents_frame hs' hy).trans hw⟩

end Fallback

/-- Materializing what `Fallback` returned gives what it was chosen for, and calls nothing. -/
theorem fallback_materializes {m : Meta} {y : ExecutorValue} {scope' : Scope} (hscope : scope.Alive s)
    (harg : ∀ v ∈ arg, ExecutorValue.Alive s v)
    (hcall : Context.Calls ((localExecutor handlers).contexts scope')
      (ControlFlowHandler.fallback.function m fns scope) arg s y s') :
    ∃ w, y.contents s' = some (.ok w) ∧ ∀ t, s' ≤ t → ∀ pb, ∃ t', t ≤ t' ∧
      (localExecutor handlers).constMaterialize y (some pb) t = ([], .ok ⟨.ok (), some w⟩ t') := by
  obtain ⟨record, hcall⟩ := calls_intrinsic_iff.mp hcall
  obtain ⟨tried, fnPb, later, l, e, u, fn, -, hrejected, hworks, -⟩ :=
    (fallback_returns_iff _ _ _ _ _ _ _ _ _).mp hcall
  have hu := hrejected.le hscope harg
  obtain ⟨hy, w, hw⟩ := hworks.contents (hscope.of_le hu) fun v hv => (harg v hv).of_le hu
  refine ⟨w, hw, fun t ht pb => ?_⟩
  obtain ⟨t', ht', hreturns⟩ := constMaterialize_ok handlers (hy.of_le ht)
    ((ExecutorValue.contents_frame ht hy).trans hw) pb
  exact ⟨t', ht', (constMaterialize_silent handlers y (some pb)).eq_of_returns hreturns⟩

end

/-! ### The theorem -/

/-- **`Fallback` returns what the first candidate that works gave.** -/
theorem fallback_meets_specification :
    (∀ {σ : Type} (exec : ControlFlowExecutor σ) (scope : Scope) (m : Meta) (fns : List Value)
        (arg : Option ExecutorValue) (s s' : σ) (record : List (Operation ExecutorValue)),
      exec.childExecutor.AcceptsNullOutput →
      (∀ y, Run.Finally (exec.recordedCall scope .fallback (ControlFlowHandler.fallback.intrinsic m fns) arg)
          (s, []) y (s', record) ↔ ∃ tried fnPb later l e u fn, fns = tried ++ fnPb :: later ∧
            AllRejected (exec.contexts scope) arg noCandidates tried s l e u ∧
            Works (exec.contexts scope) arg fnPb u fn y s' ∧ record = l ++ trying fnPb arg fn y) ∧
      ∀ e, Run.FinallyFails (exec.recordedCall scope .fallback
          (ControlFlowHandler.fallback.intrinsic m fns) arg) (s, []) e (s', record) ↔
        AllRejected (exec.contexts scope) arg noCandidates fns s record e s') ∧
    -- what comes after
    ∀ (handlers : IntrinsicHandlerSet) (scope scope' : Scope) (m : Meta) (fns : List Value)
        (x y : ExecutorValue) (s s' : InlineState), scope.Alive s → x.Alive s →
      Context.Calls ((localExecutor handlers).contexts scope')
        (ControlFlowHandler.fallback.function m fns scope) (some x) s y s' →
      ∃ w, y.contents s' = some (.ok w) ∧ ∀ t, s' ≤ t → ∀ pb, ∃ t', t ≤ t' ∧
        (localExecutor handlers).constMaterialize y (some pb) t = ([], .ok ⟨.ok (), some w⟩ t') := by
  refine ⟨fun exec scope m fns arg s s' record hnull =>
    ⟨fallback_returns_iff exec scope m fns arg s s' record,
      fallback_fails_iff exec scope m fns arg s s' record hnull⟩, ?_⟩
  intro handlers scope scope' m fns x y s s' hscope hx hcall
  refine fallback_materializes hscope ?_ hcall
  rintro _ ⟨⟩
  exact hx

omit [ProtoText] in
/-- A candidate that cannot be created, one whose call fails and one whose result does not materialize: alone,
and before one that returns its argument. -/
theorem fallback_meets_specification_rejected :
    let _ := ProtoText.silent
    let exec := localExecutor []
    let unknown := Value.reference {} "nope"
    let failing := Value.lambda {} "x" unknown
    let selecting := Value.lambda {} "x" (.selection {} (.reference {} "x") 0)
    let identity := Value.lambda {} "x" (.reference {} "x")
    let fns := [unknown, failing, selecting]
    let x := ExecutorValue.embedded 0
    let s : InlineState := BaseState.track ⟨.empty, ()⟩ (.ok (.ofStruct []))
    (∃ e s' record, Run.FinallyFails (exec.recordedCall [] .fallback
        (ControlFlowHandler.fallback.intrinsic {} fns) (some x)) (s, []) e (s', record) ∧ record.length = 6) ∧
    ∃ s', Context.Calls (exec.contexts []) (ControlFlowHandler.fallback.function {} (fns ++ [identity]) [])
        (some x) s x s' ∧ x.contents s' = some (.ok (.ofStruct [])) ∧ ∀ t, s' ≤ t → ∀ pb, ∃ t', t ≤ t' ∧
          exec.constMaterialize x (some pb) t = ([], .ok ⟨.ok (), some (.ofStruct [])⟩ t') := by
  intro _ exec unknown failing selecting identity fns x s
  have hscope : Scope.Alive s [] := List.forall_mem_nil _
  have htracked : s.table.trackedValues 0 = some (.ok (.ofStruct [])) := BaseState.tracked_track ⟨.empty, ()⟩ _
  have hx : ExecutorValue.Alive s x := .embedded htracked
  have hnull : exec.childExecutor.AcceptsNullOutput := by
    intro id s
    rcases h : s.table.trackedValues id with _ | r
    · exact ⟨_, s, (ExecutorBase.getTracked_fails _ h).attempt.bind (.pure _ s)⟩
    · exact ⟨_, s, InlineExecutor.materialize_holds [] none h⟩
  obtain ⟨l, e, u, hrejected, hlength⟩ : ∃ l e u,
      AllRejected (exec.contexts []) (some x) noCandidates fns s l e u ∧ l.length = 6 :=
    ⟨_, _, _, .cons (.create ⟨2, [], rfl⟩) (.cons (.call ⟨2, [], rfl⟩ ⟨3, [], rfl⟩)
      (.cons (.materialize ⟨2, [], rfl⟩ ⟨3, [], rfl⟩ ⟨_, ⟨2, [], rfl⟩, rfl⟩) .nil)), rfl⟩
  refine ⟨⟨e, u, l, ((fallback_meets_specification.1 exec [] {} fns (some x) s u l hnull).2 e).mpr hrejected,
    hlength⟩, ?_⟩
  have hu := hrejected.le hscope (by rintro _ ⟨⟩; exact hx)
  obtain ⟨m, s', -, hm, hstatus⟩ := constMaterialize_spec [] (hx.of_le hu) none
  have hworks : Works (exec.contexts []) (some x) identity u (.lambda ⟨"x", .reference {} "x"⟩ []) x s' := by
    refine ⟨u, u, (creates_iff rfl).mpr .lambda, calls_iff.mpr (.lambda (.reference rfl)), m, ⟨0, hm⟩, ?_⟩
    have hcontents : x.contents u = some (.ok (.ofStruct [])) :=
      (ExecutorValue.contents_frame hu hx).trans htracked
    rw [hcontents] at hstatus
    exact congrArg MaterializeResult.status hstatus
  have hcall : Context.Calls (exec.contexts []) (ControlFlowHandler.fallback.function {} (fns ++ [identity]) [])
      (some x) s x s' := calls_intrinsic_iff.mpr ⟨_, ((fallback_meets_specification.1 exec [] {}
        (fns ++ [identity]) (some x) s s' _ hnull).1 x).mpr
          ⟨fns, identity, [], l, e, u, _, rfl, hrejected, hworks, rfl⟩⟩
  obtain ⟨w, hw, hafter⟩ :=
    fallback_meets_specification.2 [] [] [] {} (fns ++ [identity]) x x s s' hscope hx hcall
  obtain ⟨hle, -⟩ := calls_le [] (.intrinsic hscope) (by rintro _ ⟨⟩; exact hx) hcall
  have hcontents : x.contents s' = some (.ok (.ofStruct [])) :=
    (ExecutorValue.contents_frame hle hx).trans htracked
  obtain rfl : w = .ofStruct [] := Except.ok.inj (Option.some.inj (hw.symm.trans hcontents))
  exact ⟨s', hcall, hcontents, hafter⟩

end GenC
