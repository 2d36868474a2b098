import GenC.Flow.Action
import GenC.Runtime.IntrinsicCalls

/-!
# Handlers follow actions

A function of the local stack `Realizes` an action if calling it on data follows calling the action, and IR
`Builds` one if creating it follows creating the action and gives such a function. What the control-flow
handlers do with IR that builds actions, follows what is made of the actions.
-/

namespace GenC

open Lib ControlFlowExecutor ControlFlowHandler

variable [ProtoText] {handlers : IntrinsicHandlerSet} {scope : Scope} {s s' : InlineState}
  {f v x : ExecutorValue} {d : Datum} {a : Action} {fn : Value}

/-- A value that is alive is materialized as its contents. -/
theorem materializeValue_follows (scope : Scope) (hv : v.Reads s d) :
    Run.Follows (fun _ w w' => w = w' ∧ d.outcome = .ok w)
      (fun n => ((localExecutor handlers).contexts scope n).materializeValue v) s d.shown := by
  have hgrowing := ((localExecutor handlers).contexts_growing scope).materializeValue v
  obtain ⟨s', hs', hspec⟩ := materializeValue_spec handlers scope hv.alive
  rw [hv.contents] at hspec
  unfold Datum.shown
  rcases hr : d.outcome with e | w <;> simp only [hr] at hspec
  · exact .of_finallyFails hgrowing hspec hs'
  · exact .of_finally hgrowing hspec hs' ⟨rfl, rfl⟩

variable (handlers) in
/-- Calls of the function follow calls of the action. -/
def ExecutorValue.Realizes (s : InlineState) (f : ExecutorValue) (a : Action) : Prop :=
  ∀ {s'}, s ≤ s' → ∀ {v d}, v.Reads s' d →
    Run.Follows ExecutorValue.Reads (fun n => (localExecutor handlers).constCreateCall n f (some v)) s' (a.call d)

theorem ExecutorValue.Realizes.of_le (h : f.Realizes handlers s a) (hs : s ≤ s') : f.Realizes handlers s' a :=
  fun hs' _ _ hv => h (hs.trans hs') hv

variable (handlers scope) in
/-- The IR is created as the action is, and gives a function for it. -/
def Builds (s : InlineState) (fn : Value) (a : Action) : Prop :=
  ∀ {s'}, s ≤ s' → Run.Follows (fun s'' f (_ : Unit) => f.Realizes handlers s'' a)
    (fun n => ((localExecutor handlers).contexts scope n).createValue fn) s' a.create

theorem Builds.of_le (h : Builds handlers scope s fn a) (hs : s ≤ s') : Builds handlers scope s' fn a :=
  fun hs' => h (hs.trans hs')

/-! ## What the handlers ask the executor for -/

section

variable (scope)

theorem createValue_growing (fn : Value) :
    Run.Growing fun n => ((localExecutor handlers).contexts scope n).createValue fn :=
  ((localExecutor handlers).contexts_growing scope).createValue fn

theorem createCall_growing (f : ExecutorValue) (arg : Option ExecutorValue) :
    Run.Growing fun n => ((localExecutor handlers).contexts scope n).createCall f arg :=
  ((localExecutor handlers).contexts_growing scope).createCall f arg

theorem materializeValue_growing (v : ExecutorValue) :
    Run.Growing fun n => ((localExecutor handlers).contexts scope n).materializeValue v :=
  ((localExecutor handlers).contexts_growing scope).materializeValue v

end

/-- Data evaluates to what it is, by induction on the data. -/
theorem evaluates_data {w : Value} (hw : w.Materialized) (scope : Scope) (s : InlineState) : ∃ v s',
    (localExecutor handlers).Evaluates w scope s v s' ∧ s ≤ s' ∧ v.Reads s' (.ofValue w) := by
  induction hw generalizing s with
  | @scalar m c =>
      refine ⟨_, _, .child rfl (InlineExecutor.createValue_returns handlers _ s), .track s _, ?_⟩
      rw [Datum.ofValue_scalar]
      exact .ok (s.tracked_track _) .scalar
  | @struct m es hes ih =>
      clear hes
      -- the fields are evaluated from left to right, and stay alive while the others are
      suffices h : ∃ vs s', (localExecutor handlers).Evaluates (.struct m es) scope s (.struct vs) s' ∧
          s ≤ s' ∧ List.Forall₂ (ExecutorValue.Reads s') vs (es.map Datum.ofValue) by
        obtain ⟨vs, s', hvs, hs', hreads⟩ := h
        rw [Datum.ofValue_struct]
        exact ⟨.struct vs, s', hvs, hs', ExecutorValue.Reads.struct_iff.mpr hreads⟩
      induction es generalizing s with
      | nil => exact ⟨[], s, .struct_nil, le_refl s, .nil⟩
      | cons e es ih' =>
          obtain ⟨v, s₁, hv, hs₁, hreads⟩ := ih e List.mem_cons_self s
          obtain ⟨vs, s₂, hvs, hs₂, hall⟩ := ih' (fun e he => ih e (List.mem_cons_of_mem _ he)) s₁
          exact ⟨v :: vs, s₂, hv.struct_cons hvs, hs₁.trans hs₂, .cons (hreads.of_le hs₂) hall⟩

/-- Data is created as it is. -/
theorem createValue_data (scope : Scope) {w : Value} (hw : w.Materialized) (s : InlineState) :
    Run.Follows ExecutorValue.Reads (fun n => ((localExecutor handlers).contexts scope n).createValue w) s
      (pure (.ofValue w)) := by
  have hgrowing : Run.Growing fun n => ((localExecutor handlers).contexts scope n).createValue w :=
    createValue_growing scope w
  cases hw with
  | @scalar m c =>
      have hcreate := InlineExecutor.createValue_returns handlers (.scalar m c) s
      refine .of_finally hgrowing ⟨0, hcreate.bind (.pure _ _)⟩ (.track s _) ?_
      rw [Datum.ofValue_scalar]
      exact .ok (s.tracked_track _) .scalar
  | struct h =>
      obtain ⟨v, s', hv, hs', hreads⟩ := evaluates_data (.struct h) scope s
      exact .of_finally hgrowing ((creates_iff rfl).mpr hv) hs' hreads

/-! ## Branching -/

/-- What comes next may depend on a value: whether it is no Boolean, `true` or `false`. -/
def onBoolean {α : Type} (pb : Value) (other yes no : α) : α :=
  match pb.boolean? with
  | none => other
  | some true => yes
  | some false => no

section

variable {α β : Type} {Q : InlineState → α → β → Prop} {x y z : Nat → Exec InlineState α}
  {p q r : Meaning β}

omit [ProtoText] in
theorem onBoolean_growing (pb : Value) (hx : Run.Growing x) (hy : Run.Growing y) (hz : Run.Growing z) :
    Run.Growing fun n => onBoolean pb (x n) (y n) (z n) := by
  unfold onBoolean
  rcases pb.boolean? with _ | _ | _
  · exact hx
  · exact hz
  · exact hy

omit [ProtoText] in
theorem onBoolean_follows (pb : Value) (hx : Run.Follows Q x s p) (hy : Run.Follows Q y s q)
    (hz : Run.Follows Q z s r) :
    Run.Follows Q (fun n => onBoolean pb (x n) (y n) (z n)) s (onBoolean pb p q r) := by
  unfold onBoolean
  rcases pb.boolean? with _ | _ | _
  · exact hx
  · exact hz
  · exact hy

end

namespace Flow

variable {fns : List Value} {as : List Action} {fs : List ExecutorValue} {c b : ExecutorValue}
  {condition body : Action}

/-! ## Sequences -/

theorem serialChainLoop_follows (h : List.Forall₂ (Builds handlers scope s) fns as) (hs : s ≤ s')
    (hx : x.Reads s' d) :
    Run.Follows ExecutorValue.Reads
      (fun n => serialChainLoop ((localExecutor handlers).contexts scope n) fns x) s' (Action.serial as d) := by
  have hgrowing := (localExecutor handlers).contexts_growing scope
  have hloop : ∀ fns x, Run.Growing fun n => serialChainLoop ((localExecutor handlers).contexts scope n) fns x :=
    fun fns x _ _ hnm => serialChainLoop_le (hgrowing hnm) fns x
  induction h generalizing s' x d with
  | nil => exact .pure hx
  | @cons fn a fns as hfn _ ih =>
      rw [Action.serial, Action.apply, bind_assoc]
      refine .bind (createValue_growing scope fn) (fun f => (createCall_growing scope f _).bind (hloop fns))
        (hfn hs) fun f s₁ _ hs₁ hf => ?_
      refine .bind (createCall_growing scope f _) (hloop fns) (hf (le_refl s₁) (hx.of_le hs₁))
        fun y s₂ r hs₂ hy => ?_
      exact ih ((hs.trans hs₁).trans hs₂) hy

theorem breakableChainLoop_follows (h : List.Forall₂ (Builds handlers scope s) fns as) (hs : s ≤ s')
    (hx : x.Reads s' d) :
    Run.Follows ExecutorValue.Reads
      (fun n => breakableChainLoop ((localExecutor handlers).contexts scope n) fns x) s'
      (Action.breakable as d) := by
  have hgrowing := (localExecutor handlers).contexts_growing scope
  have hloop : ∀ fns x, Run.Growing fun n =>
      breakableChainLoop ((localExecutor handlers).contexts scope n) fns x :=
    fun fns x _ _ hnm => breakableChainLoop_le (hgrowing hnm) fns x
  induction h generalizing s' x d with
  | nil => exact .pure hx
  | @cons fn a fns as hfn _ ih =>
      rw [Action.breakable, Action.apply, bind_assoc]
      have hnext : ∀ y pb, Run.Growing fun n => onBoolean pb
          (breakableChainLoop ((localExecutor handlers).contexts scope n) fns y) (pure x)
          (breakableChainLoop ((localExecutor handlers).contexts scope n) fns x) :=
        fun y pb => onBoolean_growing pb (hloop fns y) (.const _) (hloop fns x)
      have hshow : ∀ y, Run.Growing fun n =>
          ((localExecutor handlers).contexts scope n).materializeValue y >>= fun pb => _ :=
        fun y => (materializeValue_growing scope y).bind (hnext y)
      refine .bind (createValue_growing scope fn) (fun f => (createCall_growing scope f _).bind hshow)
        (hfn hs) fun f s₁ _ hs₁ hf => ?_
      refine .bind (createCall_growing scope f _) hshow (hf (le_refl s₁) (hx.of_le hs₁))
        fun y s₂ r hs₂ hy => ?_
      refine .bind (materializeValue_growing scope y) (hnext y) (materializeValue_follows scope hy)
        fun pb s₃ _ hs₃ hpb => ?_
      -- the Boolean that is asked for is the same on both sides, so both stop or both go on
      obtain ⟨rfl, -⟩ := hpb
      have hs' := ((hs.trans hs₁).trans hs₂).trans hs₃
      -- the old state is still there to return, whatever has been tracked since
      have hx' := hx.of_le ((hs₁.trans hs₂).trans hs₃)
      exact onBoolean_follows pb (ih hs' (hy.of_le hs₃)) (.pure hx') (ih hs' hx')

/-! ### Rounds -/

/-- The functions of a round are there already. -/
theorem conditionalRound_follows (h : List.Forall₂ (ExecutorValue.Realizes handlers s) fs as) (hs : s ≤ s')
    (hx : x.Reads s' d) :
    Run.Follows (fun s'' (y : ExecutorValue × Bool) (r : Datum × Bool) => y.1.Reads s'' r.1 ∧ y.2 = r.2)
      (fun n => conditionalRound ((localExecutor handlers).contexts scope n) fs x) s' (Action.round as d) := by
  have hgrowing := (localExecutor handlers).contexts_growing scope
  have hloop : ∀ fs x, Run.Growing fun n =>
      conditionalRound ((localExecutor handlers).contexts scope n) fs x :=
    fun fs x _ _ hnm => conditionalRound_le (hgrowing hnm) fs x
  induction h generalizing s' x d with
  | nil => exact .pure ⟨hx, rfl⟩
  | @cons f a fs as hf _ ih =>
      rw [Action.round]
      have hnext : ∀ pb, Run.Growing fun n => onBoolean pb
          (((localExecutor handlers).contexts scope n).createValue pb >>= fun y =>
            conditionalRound ((localExecutor handlers).contexts scope n) fs y) (pure (x, true))
          (conditionalRound ((localExecutor handlers).contexts scope n) fs x) :=
        fun pb => onBoolean_growing pb ((createValue_growing scope pb).bind (hloop fs)) (.const _) (hloop fs x)
      have hshow : ∀ y, Run.Growing fun n =>
          ((localExecutor handlers).contexts scope n).materializeValue y >>= fun pb => _ :=
        fun y => (materializeValue_growing scope y).bind hnext
      refine .bind (createCall_growing scope f _) hshow (hf hs hx) fun y s₁ r hs₁ hy => ?_
      refine .bind (materializeValue_growing scope y) hnext (materializeValue_follows scope hy)
        fun pb s₂ _ hs₂ hpb => ?_
      obtain ⟨rfl, hpb⟩ := hpb
      have hs' := (hs.trans hs₁).trans hs₂
      have hx' := hx.of_le (hs₁.trans hs₂)
      refine onBoolean_follows pb ?_ (.pure ⟨hx', rfl⟩) (ih hs' hx')
      -- what was materialized is created anew, and is plain data from then on
      have hdata : Run.Follows ExecutorValue.Reads (fun n => ((localExecutor handlers).contexts scope n).createValue pb)
          s₂ (pure (.ofValue pb)) := createValue_data scope (hy.plain.outcome hpb) s₂
      rw [← pure_bind (Datum.ofValue pb) (Action.round as)]
      exact .bind (createValue_growing scope pb) (hloop fs) hdata fun z s₃ _ hs₃ hz => ih (hs'.trans hs₃) hz

theorem conditionalRounds_follows (h : List.Forall₂ (ExecutorValue.Realizes handlers s) fs as) (hs : s ≤ s')
    (hx : x.Reads s' d) (k : Nat) :
    Run.Follows ExecutorValue.Reads
      (fun n => conditionalRounds ((localExecutor handlers).contexts scope n) fs k x) s'
      (Action.rounds as k d) := by
  have hgrowing := (localExecutor handlers).contexts_growing scope
  have hround : ∀ x, Run.Growing fun n =>
      conditionalRound ((localExecutor handlers).contexts scope n) fs x :=
    fun x _ _ hnm => conditionalRound_le (hgrowing hnm) fs x
  -- on the number of rounds: each ends the loop or hands its result to the next
  induction k generalizing s' x d with
  | zero => exact .pure hx
  | succ k ih =>
      have hrest : ∀ p : ExecutorValue × Bool, Run.Growing fun n => if p.2 then pure p.1
          else conditionalRounds ((localExecutor handlers).contexts scope n) fs k p.1 := by
        intro p
        split
        · exact .const _
        · exact fun _ _ hnm => conditionalRounds_le (hgrowing hnm) fs k p.1
      refine .bind (hround x) hrest (conditionalRound_follows h hs hx) fun p s₁ r hs₁ hp => ?_
      obtain ⟨hy, hstop⟩ := hp
      rw [← hstop]
      split
      · exact .pure hy
      · exact ih (hs.trans hs₁) hy

/-- They are created before the first round. -/
theorem createValues_follows (h : List.Forall₂ (Builds handlers scope s) fns as) (hs : s ≤ s') :
    Run.Follows (fun s'' fs (_ : Unit) => List.Forall₂ (ExecutorValue.Realizes handlers s'') fs as)
      (fun n => ((localExecutor handlers).contexts scope n).createValues fns) s' (Action.createAll as) := by
  have hgrowing := (localExecutor handlers).contexts_growing scope
  have hloop : ∀ fns, Run.Growing fun n => ((localExecutor handlers).contexts scope n).createValues fns :=
    fun fns _ _ hnm => (hgrowing hnm).createValues fns
  induction h generalizing s' with
  | nil => exact .pure .nil
  | @cons fn a fns as hfn _ ih =>
      -- the functions created later follow the first one in the list
      have hpush : ∀ f : ExecutorValue, Run.Growing fun n =>
          ((localExecutor handlers).contexts scope n).createValues fns >>= fun fs =>
            (pure (f :: fs) : Exec InlineState (List ExecutorValue)) :=
        fun f => (hloop fns).bind fun _ => .const _
      rw [Action.createAll]
      refine .bind (createValue_growing scope fn) hpush (hfn hs) fun f s₁ _ hs₁ hf => ?_
      have hpure : ∀ fs : List ExecutorValue, Run.Growing fun _ : Nat =>
          (pure (f :: fs) : Exec InlineState (List ExecutorValue)) := fun _ => .const _
      rw [← bind_pure (Action.createAll as)]
      exact .bind (hloop fns) hpure (ih (hs.trans hs₁)) fun fs s₂ _ hs₂ hfs => .pure (.cons (hf.of_le hs₂) hfs)

/-! ## Loops -/

theorem repeatLoop_follows (hb : b.Realizes handlers s body) (hs : s ≤ s') (hx : x.Reads s' d) (k : Nat) :
    Run.Follows ExecutorValue.Reads
      (fun n => repeatLoop ((localExecutor handlers).contexts scope n) b k x) s' (body.iterate k d) := by
  have hgrowing := (localExecutor handlers).contexts_growing scope
  have hloop : ∀ k x, Run.Growing fun n => repeatLoop ((localExecutor handlers).contexts scope n) b k x :=
    fun k x _ _ hnm => repeatLoop_le (hgrowing hnm) b k x
  induction k generalizing s' x d with
  | zero => exact .pure hx
  | succ k ih =>
      exact .bind (createCall_growing scope b _) (hloop k) (hb hs hx) fun y s₁ r hs₁ hy => ih (hs.trans hs₁) hy

/-- One turn of the loop of `While`. -/
def whileTurn (ctx : Context InlineState ExecutorValue) (c b x : ExecutorValue) :
    Exec InlineState (ExecutorValue ⊕ ExecutorValue) := do
  let conditionVal ← ctx.createCall c (some x)
  let condPb ← ctx.materializeValue conditionVal
  onBoolean condPb
    (Run.throw (.invalidArgument ("Condition does not have boolean: " ++ debugString condPb)))
    (do
      let state ← ctx.createCall b (some x)
      pure (.inl state))
    (pure (.inr x))

theorem whileLoop_eq_steps (ctx : Context InlineState ExecutorValue) (c b : ExecutorValue) (k : Nat)
    (x : ExecutorValue) : whileLoop ctx c b k x = Run.steps (whileTurn ctx c b) k x := by
  induction k generalizing x with
  | zero => rfl
  | succ k ih =>
      rw [whileLoop, Run.steps, whileTurn, bind_assoc]
      refine congrArg _ (funext fun v => ?_)
      rw [bind_assoc]
      refine congrArg _ (funext fun pb => ?_)
      unfold onBoolean
      rcases pb.boolean? with _ | _ | _
      · rfl
      · rfl
      · simp only [bind_assoc, pure_bind, Sum.elim_inl, ih]

theorem whileTurn_growing (scope : Scope) (c b x : ExecutorValue) :
    Run.Growing fun n => whileTurn ((localExecutor handlers).contexts scope n) c b x :=
  (createCall_growing scope c _).bind fun v => (materializeValue_growing scope v).bind fun pb =>
    onBoolean_growing pb (.const _) ((createCall_growing scope b _).bind fun _ => .const _) (.const _)

theorem whileTurn_follows (hc : c.Realizes handlers s condition) (hb : b.Realizes handlers s body)
    (hs : s ≤ s') (hx : x.Reads s' d) :
    Run.Follows (fun s'' => Sum.LiftRel (ExecutorValue.Reads s'') (ExecutorValue.Reads s''))
      (fun n => whileTurn ((localExecutor handlers).contexts scope n) c b x) s'
      (Action.whileStep condition body d) := by
  have hnext : ∀ pb, Run.Growing fun n => onBoolean pb
      (Run.throw (.invalidArgument ("Condition does not have boolean: " ++ debugString pb)))
      (((localExecutor handlers).contexts scope n).createCall b (some x) >>= fun state => pure (.inl state))
      (pure (.inr x) : Exec InlineState (ExecutorValue ⊕ ExecutorValue)) :=
    fun pb => onBoolean_growing pb (.const _) ((createCall_growing scope b _).bind fun _ => .const _) (.const _)
  refine .bind (createCall_growing scope c _) (fun v => (materializeValue_growing scope v).bind hnext)
    (hc hs hx) fun v s₁ r hs₁ hv => ?_
  refine .bind (materializeValue_growing scope v) hnext (materializeValue_follows scope hv)
    fun pb s₂ _ hs₂ hpb => ?_
  obtain ⟨rfl, -⟩ := hpb
  have hx' := hx.of_le (hs₁.trans hs₂)
  -- no Boolean is an error; true is one more turn; false returns the state
  refine onBoolean_follows pb (.throw _) ?_ (.pure (.inr hx'))
  have hagain : ∀ y : ExecutorValue, Run.Growing fun _ : Nat =>
      (pure (.inl y) : Exec InlineState (ExecutorValue ⊕ ExecutorValue)) := fun _ => .const _
  exact .bind (createCall_growing scope b _) hagain (hb ((hs.trans hs₁).trans hs₂) hx')
    fun y s₃ r' _ hy => .pure (.inl hy)

theorem whileLoop_follows (hc : c.Realizes handlers s condition) (hb : b.Realizes handlers s body)
    (hs : s ≤ s') (hx : x.Reads s' d) :
    Run.Follows ExecutorValue.Reads
      (fun n => whileLoop ((localExecutor handlers).contexts scope n) c b n x) s'
      (Action.whileDo condition body d) := by
  simp only [whileLoop_eq_steps]
  exact .loop (fun x => whileTurn_growing scope c b x)
    (fun s'' hs'' y r hy => whileTurn_follows hc hb (hs.trans hs'') hy) hx

/-! ## Alternatives -/

/-- Whether there is a result to return. -/
theorem materialize_follows (scope : Scope) (hv : v.Reads s d) :
    Run.Follows (fun _ (m : MaterializeResult) (r : StatusOr Value) => m.status = r.map fun _ => ())
      (fun n => ((localExecutor handlers).contexts scope n).materialize v none) s (pure d.outcome) := by
  obtain ⟨m, s', hs', hreturns, hm⟩ := constMaterialize_spec handlers hv.alive none
  rw [hv.contents] at hm
  refine .of_finally (((localExecutor handlers).contexts_growing scope).materialize v none)
    ⟨0, hreturns⟩ hs' ?_
  rcases hr : d.outcome with e | w <;> simp only [hr] at hm <;> subst hm <;> rfl

omit [ProtoText] in
/-- Each part of an attempt hands its error on to the functions that are left. -/
theorem fallbackLoop_cons (ctx : Context InlineState ExecutorValue) (arg : Option ExecutorValue) (e : Status)
    (fn : Value) (fns : List Value) :
    fallbackLoop ctx arg e (fn :: fns) = (ctx.createValue fn).handle
      (fun f => (ctx.createCall f arg).handle
        (fun y => ctx.materialize y none >>= fun m => (Run.ofExcept m.status).handle (fun _ => pure y)
          fun e => fallbackLoop ctx arg e fns)
        fun e => fallbackLoop ctx arg e fns)
      fun e => fallbackLoop ctx arg e fns := by
  rw [fallbackLoop]
  unfold Run.handle
  -- the code returns early from the loop body, which here are nested handlers
  refine congrArg _ (funext fun r => ?_)
  rcases r with e | f
  · rfl
  refine congrArg ((ctx.createCall f arg).attempt >>= ·) (funext fun r => ?_)
  rcases r with e | y
  · rfl
  refine congrArg (ctx.materialize y none >>= ·) (funext fun m => ?_)
  rcases m.status with e | _ <;> rfl

theorem fallbackLoop_follows (h : List.Forall₂ (Builds handlers scope s) fns as) (hs : s ≤ s')
    (hx : x.Reads s' d) (e : Status) :
    Run.Follows ExecutorValue.Reads
      (fun n => fallbackLoop ((localExecutor handlers).contexts scope n) (some x) e fns) s'
      (Action.firstOf e as d) := by
  have hgrowing := (localExecutor handlers).contexts_growing scope
  have hloop : ∀ fns e, Run.Growing fun n =>
      fallbackLoop ((localExecutor handlers).contexts scope n) (some x) e fns :=
    fun fns e _ _ hnm => fallbackLoop_le (hgrowing hnm) (some x) fns e
  induction h generalizing s' e with
  | nil => exact .throw e
  | @cons fn a fns as hfn _ ih =>
      -- where an attempt fails the loop goes on with the next function and the new error
      have hnext : ∀ e s'', s' ≤ s'' → Run.Follows ExecutorValue.Reads
          (fun n => fallbackLoop ((localExecutor handlers).contexts scope n) (some x) e fns) s''
          (Action.firstOf e as d) := fun e s'' hs'' => ih (hs.trans hs'') (hx.of_le hs'') e
      have hanswer : ∀ (y : ExecutorValue) (o : StatusOr Unit), Run.Growing fun n =>
          (Run.ofExcept o : Exec InlineState Unit).handle (fun _ => pure y)
            fun e => fallbackLoop ((localExecutor handlers).contexts scope n) (some x) e fns := by
        rintro y (e | _)
        · exact hloop fns e
        · exact .const (pure y)
      have hcheck : ∀ y, Run.Growing fun n =>
          ((localExecutor handlers).contexts scope n).materialize y none >>= fun m =>
            (Run.ofExcept m.status).handle (fun _ => pure y)
              fun e => fallbackLoop ((localExecutor handlers).contexts scope n) (some x) e fns :=
        fun y => (hgrowing.materialize y none).bind fun m => hanswer y m.status
      -- one attempt is three steps: create, call and materialize, and each of them may fail
      simp only [fallbackLoop_cons]
      rw [Action.firstOf, Action.answer, Action.apply, bind_assoc, Behavior.handle_bind]
      refine .handle (createValue_growing scope fn)
        (fun f => .handle (createCall_growing scope f _) hcheck (hloop fns)) (hloop fns) (hfn hs)
        (fun f s₁ _ hs₁ hf => ?_) hnext
      rw [Behavior.handle_bind]
      refine .handle (createCall_growing scope f _) hcheck (hloop fns) (hf (le_refl s₁) (hx.of_le hs₁))
        (fun y s₂ r hs₂ hy => ?_) fun e s₂ hs₂ => hnext e s₂ (hs₁.trans hs₂)
      rw [Behavior.handle_bind, Datum.shown, ← pure_bind r.outcome fun o => Behavior.handle (.ofExcept o) _ _]
      refine .bind (hgrowing.materialize y none) (fun m => hanswer y m.status) (materialize_follows scope hy)
        fun m s₃ o hs₃ hm => ?_
      rw [hm]
      rcases o with e | w
      · exact hnext e s₃ ((hs₁.trans hs₂).trans hs₃)
      · exact .pure (hy.of_le hs₃)

/-! ## Maps -/

theorem parallelMapLoop_follows {f : ExecutorValue} (hf : f.Realizes handlers s a) {es : List Value}
    (hes : ∀ e ∈ es, e.Materialized) (hs : s ≤ s') :
    Run.Follows (fun s'' => List.Forall₂ (ExecutorValue.Reads s''))
      (fun n => parallelMapLoop ((localExecutor handlers).contexts scope n) f es) s' (a.mapOver es) := by
  have hgrowing := (localExecutor handlers).contexts_growing scope
  have hloop : ∀ es, Run.Growing fun n =>
      parallelMapLoop ((localExecutor handlers).contexts scope n) f es :=
    fun es _ _ hnm => parallelMapLoop_le (hgrowing hnm) f es
  -- on the elements, which are data, so that each can be created
  induction es generalizing s' with
  | nil => exact .pure .nil
  | cons e es ih =>
      obtain ⟨he, hes⟩ := List.forall_mem_cons.mp hes
      have hpush : ∀ y : ExecutorValue, Run.Growing fun n =>
          parallelMapLoop ((localExecutor handlers).contexts scope n) f es >>= fun ys =>
            (pure (y :: ys) : Exec InlineState (List ExecutorValue)) :=
        fun y => (hloop es).bind fun _ => .const _
      rw [Action.mapOver, ← pure_bind (Datum.ofValue e) fun d => a.call d >>= _]
      refine .bind (createValue_growing scope e) (fun x => (createCall_growing scope f _).bind hpush)
        (createValue_data scope he s') fun x s₁ d hs₁ hx => ?_
      refine .bind (createCall_growing scope f _) hpush (hf (hs.trans hs₁) hx) fun y s₂ r hs₂ hy => ?_
      have hpure : ∀ ys : List ExecutorValue, Run.Growing fun _ : Nat =>
          (pure (y :: ys) : Exec InlineState (List ExecutorValue)) := fun _ => .const _
      exact .bind (hloop es) hpure (ih hes ((hs.trans hs₁).trans hs₂)) fun ys s₃ rs hs₃ hys =>
        .pure (.cons (hy.of_le hs₃) hys)

theorem parallelMapExecuteCall_follows {intr : Intrinsic} (h : Builds handlers scope s intr.parameter a)
    (hs : s ≤ s') (hx : x.Reads s' d) :
    Run.Follows ExecutorValue.Reads
      (fun n => parallelMapExecuteCall ((localExecutor handlers).contexts scope n) intr (some x)) s'
      (a.parallel d) := by
  have hgrowing := (localExecutor handlers).contexts_growing scope
  have hstruct : ∀ ys : List ExecutorValue, Run.Growing fun n =>
      ((localExecutor handlers).contexts scope n).createStruct ys := fun ys _ _ hnm => (hgrowing hnm).createStruct ys
  have hloop : ∀ (es : List Value) (f : ExecutorValue), Run.Growing fun n =>
      parallelMapLoop ((localExecutor handlers).contexts scope n) f es >>= fun ys =>
        ((localExecutor handlers).contexts scope n).createStruct ys :=
    fun es f => Run.Growing.bind (fun _ _ hnm => parallelMapLoop_le (hgrowing hnm) f es) hstruct
  have hmap : ∀ w : Value, Run.Growing fun n =>
      ((localExecutor handlers).contexts scope n).createValue intr.parameter >>= fun f =>
        parallelMapLoop ((localExecutor handlers).contexts scope n) f w.elements >>= fun ys =>
          ((localExecutor handlers).contexts scope n).createStruct ys :=
    fun w => (createValue_growing scope intr.parameter).bind (hloop w.elements)
  refine .bind (materializeValue_growing scope x) hmap (materializeValue_follows scope hx)
    fun w s₁ _ hs₁ hw => ?_
  obtain ⟨rfl, hw⟩ := hw
  refine .bind (createValue_growing scope _) (hloop w.elements) (h (hs.trans hs₁)) fun f s₂ _ hs₂ hf => ?_
  -- the elements of what is shown can be shown themselves
  have hes : ∀ e ∈ w.elements, e.Materialized := by
    intro e he
    have hw := hx.plain.outcome hw
    cases hw with
    | scalar => cases he
    | struct h => exact h e he
  refine .bind (fun _ _ hnm => parallelMapLoop_le (hgrowing hnm) f w.elements) hstruct
    (parallelMapLoop_follows hf hes (le_refl s₂)) fun ys s₃ ds _ hys => ?_
  exact .pure (ExecutorValue.Reads.struct_iff.mpr hys)

end Flow

end GenC
