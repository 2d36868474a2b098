import GenC.Lib.EndAlike
import GenC.Proto.Scoping
import GenC.Runtime.ChildExecutor
import GenC.Runtime.Evaluation
import GenC.Runtime.Lookups

/-!
# Lexical scoping, as long as it lasts

IR is evaluated in a scope, and looks up the names that are free in it. A function remembers the scope that
it was written in, and so do the parameters of an intrinsic. That is all that an evaluation depends on, but
for two things that the executor does: a handler that was handed a function creates it anew, in its own
scope, and a function that is called without an argument finds its parameter in the scope around it.

`lexicalKnot N` is the executor with a check in front of both. It stops when it comes upon a name that is not
in `N`. **`lexicalKnot_agrees`**: unless it stops, it does what the executor does in any scope that agrees on
`N` and on the free names of the IR.
-/

namespace GenC

open Lib

variable {N A A' : Set String} {s s' t t' : InlineState} {v v' : ExecutorValue} {scope scope' : Scope}

/-! ## Values that agree -/

/-- `v` in `s` is what `v'` is in `t`: over handles with equal contents, and with scopes that agree on `N` and
on what is free. -/
inductive ExecutorValue.Agrees (N : Set String) (s t : InlineState) : ExecutorValue → ExecutorValue → Prop where
  | embedded {id id' : ValueId} {r : StatusOr Value} (h : s.table.trackedValues id = some r)
      (h' : t.table.trackedValues id' = some r) : Agrees N s t (.embedded id) (.embedded id')
  | struct {vs vs' : List ExecutorValue} (hlength : vs.length = vs'.length)
      (h : ∀ p ∈ vs.zip vs', Agrees N s t p.1 p.2) : Agrees N s t (.struct vs) (.struct vs')
  | lambda {lambdaPb : Lambda} {scope scope' : Scope} {A : Set String} (hN : N ⊆ A)
      (hbody : lambdaPb.result.Within (insert lambdaPb.parameterName A)) (halive : scope.Alive s)
      (halive' : scope'.Alive t)
      (hbound : ∀ x ∈ A, (∃ v, scope.resolve x = .ok v) ↔ ∃ v', scope'.resolve x = .ok v')
      (h : ∀ x ∈ A, ∀ v v', scope.resolve x = .ok v → scope'.resolve x = .ok v' → Agrees N s t v v') :
      Agrees N s t (.lambda lambdaPb scope) (.lambda lambdaPb scope')
  | intrinsic {intrinsicPb : Intrinsic} {handler : IntrinsicHandler} {scope scope' : Scope} {A : Set String}
      (hN : N ⊆ A) (hparameter : intrinsicPb.parameter.Within A) (halive : scope.Alive s)
      (halive' : scope'.Alive t)
      (hbound : ∀ x ∈ A, (∃ v, scope.resolve x = .ok v) ↔ ∃ v', scope'.resolve x = .ok v')
      (h : ∀ x ∈ A, ∀ v v', scope.resolve x = .ok v → scope'.resolve x = .ok v' → Agrees N s t v v') :
      Agrees N s t (.intrinsic intrinsicPb handler scope) (.intrinsic intrinsicPb handler scope')

/-- The scopes agree on the names of `A`. -/
structure Scope.Agree (N A : Set String) (s t : InlineState) (scope scope' : Scope) : Prop where
  alive : scope.Alive s
  alive' : scope'.Alive t
  bound : ∀ x ∈ A, (∃ v, scope.resolve x = .ok v) ↔ ∃ v', scope'.resolve x = .ok v'
  values : ∀ x ∈ A, ∀ v v', scope.resolve x = .ok v → scope'.resolve x = .ok v' → v.Agrees N s t v'

namespace ExecutorValue.Agrees

theorem lambda' {lambdaPb : Lambda} (hN : N ⊆ A)
    (hbody : lambdaPb.result.Within (insert lambdaPb.parameterName A)) (h : scope.Agree N A s t scope') :
    Agrees N s t (.lambda lambdaPb scope) (.lambda lambdaPb scope') :=
  .lambda hN hbody h.alive h.alive' h.bound h.values

theorem intrinsic' {intr : Intrinsic} {handler : IntrinsicHandler} (hN : N ⊆ A)
    (hparameter : intr.parameter.Within A) (h : scope.Agree N A s t scope') :
    Agrees N s t (.intrinsic intr handler scope) (.intrinsic intr handler scope') :=
  .intrinsic hN hparameter h.alive h.alive' h.bound h.values

theorem struct' {vs vs' : List ExecutorValue} (h : List.Forall₂ (Agrees N s t) vs vs') :
    Agrees N s t (.struct vs) (.struct vs') := by
  obtain ⟨hlength, h⟩ := List.forall₂_iff_zip.mp h
  exact .struct hlength fun p hp => h hp

theorem mono (hs : s ≤ s') (ht : t ≤ t') (h : v.Agrees N s t v') : v.Agrees N s' t' v' := by
  induction h with
  | embedded h h' => exact .embedded (BaseState.Frame.tracked hs h) (BaseState.Frame.tracked ht h')
  | struct hlength _ ih => exact .struct hlength ih
  | lambda hN hbody halive halive' hbound _ ih =>
      exact .lambda hN hbody (halive.of_le hs) (halive'.of_le ht) hbound ih
  | intrinsic hN hparameter halive halive' hbound _ ih =>
      exact .intrinsic hN hparameter (halive.of_le hs) (halive'.of_le ht) hbound ih

theorem symm (h : v.Agrees N s t v') : v'.Agrees N t s v := by
  induction h with
  | embedded h h' => exact .embedded h' h
  | struct hlength _ ih => exact .struct hlength.symm fun p hp => ih p.swap (mem_zip_swap hp)
  | lambda hN hbody halive halive' hbound _ ih =>
      exact .lambda hN hbody halive' halive (fun x hx => (hbound x hx).symm)
        fun x hx v v' hv hv' => ih x hx v' v hv' hv
  | intrinsic hN hparameter halive halive' hbound _ ih =>
      exact .intrinsic hN hparameter halive' halive (fun x hx => (hbound x hx).symm)
        fun x hx v v' hv hv' => ih x hx v' v hv' hv

theorem alive (h : v.Agrees N s t v') : v.Alive s := by
  induction h with
  | embedded h => exact .embedded h
  | struct hlength _ ih =>
      refine .struct fun v hv => ?_
      obtain ⟨v', hv'⟩ := exists_mem_zip hlength.le hv
      exact ih _ hv'
  | lambda _ _ halive => exact .lambda halive
  | intrinsic _ _ halive => exact .intrinsic halive

/-- Values that were there before, and agree now, agreed before. -/
theorem of_le (hs : s ≤ s') (ht : t ≤ t') (h : v.Agrees N s' t' v') (hv : v.Alive s) (hv' : v'.Alive t) :
    v.Agrees N s t v' := by
  induction h with
  | embedded h h' =>
      cases hv with
      | embedded hs₀ =>
      cases hv' with
      | embedded ht₀ =>
      -- a handle that was alive before holds what it held
      have hr₀ := (BaseState.Frame.tracked hs hs₀).symm.trans h
      have hr₀' := (BaseState.Frame.tracked ht ht₀).symm.trans h'
      exact .embedded (hr₀ ▸ hs₀) (hr₀' ▸ ht₀)
  | struct hlength _ ih =>
      exact .struct hlength fun p hp => ih p hp (hv.fields _ (List.of_mem_zip hp).1)
        (hv'.fields _ (List.of_mem_zip hp).2)
  | lambda hN hbody _ _ hbound _ ih =>
      cases hv with
      | lambda halive =>
      cases hv' with
      | lambda halive' =>
      refine .lambda hN hbody halive halive' hbound fun x hx v v' hv hv' => ?_
      exact ih x hx v v' hv hv' (Scope.Alive.resolve halive hv) (Scope.Alive.resolve halive' hv')
  | intrinsic hN hparameter _ _ hbound _ ih =>
      cases hv with
      | intrinsic halive =>
      cases hv' with
      | intrinsic halive' =>
      refine .intrinsic hN hparameter halive halive' hbound fun x hx v v' hv hv' => ?_
      exact ih x hx v v' hv hv' (Scope.Alive.resolve halive hv) (Scope.Alive.resolve halive' hv')

/-- Values that agree materialize to the same. -/
theorem contents (h : v.Agrees N s t v') : v.contents s = v'.contents t := by
  induction h with
  | embedded h h' => rw [ExecutorValue.contents, ExecutorValue.contents, h, h']
  | @struct vs vs' hlength h ih =>
      rw [ExecutorValue.contents, ExecutorValue.contents]
      refine congrArg (Option.map _) ?_
      have hall : List.Forall₂ (fun v v' => v.contents s = v'.contents t) vs vs' :=
        List.forall₂_iff_zip.mpr ⟨hlength, fun hp => ih _ hp⟩
      clear hlength h ih
      induction hall with
      | nil => rfl
      | cons hv _ ih => rw [contentsAll, contentsAll, hv, ih]
  | lambda => rfl
  | intrinsic => rfl

end ExecutorValue.Agrees

/-- What is found in a scope is a value of the scope. -/
theorem Scope.mem_of_resolve {name : String} {v : ExecutorValue} : ∀ {scope : Scope},
    scope.resolve name = .ok v → ∃ b ∈ scope, b.2 = v
  | [], h => (nomatch h)
  | (bound, value) :: parent, h => by
      unfold Scope.resolve at h
      split at h
      · exact ⟨_, List.mem_cons_self, Except.ok.inj h⟩
      · obtain ⟨b, hb, hv⟩ := mem_of_resolve h
        exact ⟨b, List.mem_cons_of_mem _ hb, hv⟩

/-! ### In one state -/

/-- Any value agrees with itself, whatever is free in its functions. -/
theorem ExecutorValue.Agrees.refl (h : v.Alive s) : v.Agrees N s s v := by
  -- a name is bound to one value, so what it stands for on either side is the same
  have hscope : ∀ {scope : Scope}, (∀ b ∈ scope, b.2.Agrees N s s b.2) → ∀ x ∈ (Set.univ : Set String), ∀ v v',
      scope.resolve x = .ok v → scope.resolve x = .ok v' → v.Agrees N s s v' := by
    intro scope h x _ v v' hv hv'
    obtain rfl : v = v' := Except.ok.inj (hv.symm.trans hv')
    obtain ⟨b, hb, rfl⟩ := Scope.mem_of_resolve hv
    exact h b hb
  have hwithin : ∀ {v : Value} {A : Set String}, (∀ x, x ∈ A) → v.Within A := fun h =>
    Value.within_of_freeNames fun x _ => h x
  induction h with
  | embedded h => exact .embedded h h
  | struct _ ih =>
      refine .struct' ?_
      exact List.forall₂_same.mpr ih
  | lambda halive ih =>
      exact .lambda (Set.subset_univ N) (hwithin fun x => .inr (Set.mem_univ x)) halive halive
        (fun _ _ => Iff.rfl) (hscope ih)
  | intrinsic halive ih =>
      exact .intrinsic (Set.subset_univ N) (hwithin Set.mem_univ) halive halive (fun _ _ => Iff.rfl)
        (hscope ih)

namespace Scope.Agree

theorem refl (h : scope.Alive s) : scope.Agree N A s s scope where
  alive := h
  alive' := h
  bound _ _ := Iff.rfl
  values x _ v v' hv hv' := by
    obtain rfl : v = v' := Except.ok.inj (hv.symm.trans hv')
    exact .refl (h.resolve hv)

theorem mono (hs : s ≤ s') (ht : t ≤ t') (h : scope.Agree N A s t scope') :
    scope.Agree N A s' t' scope' where
  alive := h.alive.of_le hs
  alive' := h.alive'.of_le ht
  bound := h.bound
  values x hx v v' hv hv' := (h.values x hx v v' hv hv').mono hs ht

theorem subset (h : scope.Agree N A s t scope') (hA : A' ⊆ A) : scope.Agree N A' s t scope' where
  alive := h.alive
  alive' := h.alive'
  bound x hx := h.bound x (hA hx)
  values x hx := h.values x (hA hx)

/-- A new name hides what it was bound to before. -/
theorem cons (h : scope.Agree N A s t scope') {name : String} (hv : v.Agrees N s t v') :
    Scope.Agree N (insert name A) s t ((name, v) :: scope) ((name, v') :: scope') where
  alive := h.alive.cons hv.alive
  alive' := h.alive'.cons hv.symm.alive
  bound x hx := by
    rw [Scope.resolve, Scope.resolve]
    by_cases hname : name = x
    · rw [if_pos hname, if_pos hname]
      exact ⟨fun _ => ⟨v', rfl⟩, fun _ => ⟨v, rfl⟩⟩
    · rw [if_neg hname, if_neg hname]
      exact h.bound x (hx.resolve_left fun heq => hname heq.symm)
  -- the new binding hides the older ones of its name, and no others
  values x hx w w' hw hw' := by
    rw [Scope.resolve] at hw hw'
    by_cases hname : name = x
    · rw [if_pos hname] at hw hw'
      cases hw
      cases hw'
      exact hv
    · rw [if_neg hname] at hw hw'
      exact h.values x (hx.resolve_left fun heq => hname heq.symm) w w' hw hw'

end Scope.Agree

/-! ## Checks where lexical scoping ends -/

/-- Names are checked if there are others than those of `N`. -/
def Lexical.Stops (N : Set String) (k : Crash) : Prop := k = .checkFailure ∧ ∃ x, x ∉ N

/-- What the handler of an intrinsic may create where the intrinsic is: IR in which no name is free but those
of `N`, and those that are free in the static parameter. -/
def Intrinsic.MayCreate (intr : Intrinsic) (N : Set String) (v : Value) : Prop :=
  ∀ x ∈ v.freeNames, x ∈ N ∨ x ∈ intr.parameter.freeNames

theorem Lexical.stops_of_not_mayCreate {intr : Intrinsic} {v : Value} (h : ¬intr.MayCreate N v) :
    Lexical.Stops N .checkFailure := by
  unfold Intrinsic.MayCreate at h
  push Not at h
  obtain ⟨x, -, hx, -⟩ := h
  exact ⟨rfl, x, hx⟩

section

variable [DecidablePred (· ∈ N)]

instance (intr : Intrinsic) (v : Value) : Decidable (intr.MayCreate N v) :=
  inferInstanceAs (Decidable (∀ x ∈ v.freeNames, x ∈ N ∨ x ∈ intr.parameter.freeNames))

variable (N) in
/-- The knot that the handler of an intrinsic is given. -/
def Knot.creating {σ : Type} (k : Knot σ) (intr : Intrinsic) : Knot σ where
  evaluate v scope := if intr.MayCreate N v then k.evaluate v scope else Run.crash .checkFailure
  createCall := k.createCall

theorem Knot.creating_evaluate {σ : Type} (k : Knot σ) (intr : Intrinsic) (v : Value) (scope : Scope) :
    (k.creating N intr).evaluate v scope =
      if intr.MayCreate N v then k.evaluate v scope else Run.crash .checkFailure := rfl

namespace ControlFlowExecutor

variable [ProtoText] {σ : Type} (exec : ControlFlowExecutor σ)

variable (N) in
/-- `ConstCreateCall`, with the checks. -/
def lexicalCallStep (fuel : Nat) (self : Knot σ) (function : ExecutorValue) (argument : Option ExecutorValue) :
    Exec σ ExecutorValue :=
  match function, argument with
  | .lambda lambdaPb _, none =>
      if lambdaPb.parameterName ∈ N then exec.constCreateCallStep fuel self function none
      else Run.crash .checkFailure
  | .intrinsic intr _ _, argument => exec.constCreateCallStep fuel (self.creating N intr) function argument
  | function, argument => exec.constCreateCallStep fuel self function argument

variable (N) in
/-- The knot, with the checks. -/
def lexicalKnot (exec : ControlFlowExecutor σ) : Nat → Knot σ
  | 0 => ⟨fun _ _ => Run.outOfFuel, fun _ _ => Run.outOfFuel⟩
  | fuel + 1 => ⟨exec.evaluateStep (lexicalKnot exec fuel), exec.lexicalCallStep N fuel (lexicalKnot exec fuel)⟩

/-! ### The checks change nothing else -/

/-- The relator of the executor with the checks and the one without. -/
abbrev unlessStopped (N : Set String) (σ : Type) : Relator Event Crash Status σ σ :=
  @Relator.simulationUnless Event Crash Unit Status σ σ (Run.anyOrder Unit) (Lexical.Stops N) (fun _ => Eq) Eq
    fun _ => rfl

omit [ProtoText] [DecidablePred (· ∈ N)] in
theorem related_unlessStopped : exec.Related (unlessStopped N σ) exec := by
  -- a run that has not stopped is related to itself
  have hrefl : ∀ {α : Type} {w : Unit} (x : Exec σ α), (unlessStopped N σ).Rel w (fun _ => Eq) x x := by
    rintro α w x w' - s _ rfl
    refine .inr ⟨(), trivial, ?_⟩
    rcases (x s).2 with a | e | k | _
    · exact .ok rfl rfl
    · exact .error rfl rfl
    · exact .crash
    · exact .outOfFuel
  exact
    { error_eq := fun h => h
      handlers := rfl
      child :=
        { createValue := fun _ => hrefl _
          createCall := fun _ _ => hrefl _
          createStruct := fun _ => hrefl _
          createSelection := fun _ _ => hrefl _
          materialize := fun _ _ => hrefl _
          dispose := fun _ => hrefl _ } }

theorem lexicalKnot_related (fuel : Nat) :
    (exec.lexicalKnot N fuel).Related (unlessStopped N σ) (exec.knot fuel) := by
  induction fuel with
  | zero => exact ⟨fun _ _ => (unlessStopped N σ).outOfFuel, fun _ _ => (unlessStopped N σ).outOfFuel⟩
  | succ fuel ih =>
      refine ⟨exec.related_unlessStopped.evaluateStep ih, fun {w} f a => ?_⟩
      have hcall : ∀ {k : Knot σ}, k.Related (unlessStopped N σ) (exec.knot fuel) →
          (unlessStopped N σ).Rel w (fun _ => Eq) (exec.constCreateCallStep fuel k f a)
            (exec.constCreateCallStep fuel (exec.knot fuel) f a) :=
        fun hk => exec.related_unlessStopped.constCreateCallStep hk f a
      show (unlessStopped N σ).Rel w _ (exec.lexicalCallStep N fuel _ f a) _
      cases f with
      | embedded => exact hcall ih
      | struct => exact hcall ih
      | lambda lambdaPb scope =>
          cases a with
          | some a => exact hcall ih
          -- the parameter is looked up in the scope: where its name is captured, the knot has stopped
          | none =>
              rw [lexicalCallStep]
              split
              · exact hcall ih
              · next hmem => exact .stopped ⟨rfl, _, hmem⟩
      | intrinsic intr handler scope =>
          refine hcall ⟨fun v scope => ?_, ih.createCall⟩
          rw [Knot.creating_evaluate]
          split
          · exact ih.evaluate v scope
          · next hcreate => exact .stopped (Lexical.stops_of_not_mayCreate hcreate)

omit [ProtoText] [DecidablePred (· ∈ N)] in
/-- Unless it is stopped, the run with the checks is the other one. -/
theorem end_eq_of_unlessStopped {α : Type} {w : Unit} {x y : Exec σ α} {s : σ}
    (h : (unlessStopped N σ).Rel w (fun _ => Eq) x y) (hx : ∀ k, Lexical.Stops N k → (x s).2 ≠ .crash k) :
    (x s).2 = (y s).2 := by
  rcases h () trivial s s rfl with ⟨k, hk, hstop⟩ | ⟨_, _, hend⟩
  · exact absurd hstop (hx k hk)
  · exact hend.eq

theorem lexicalKnot_le_succ : ∀ n : Nat, (exec.lexicalKnot N n).Le (exec.lexicalKnot N (n + 1))
  | 0 => ⟨fun _ _ => .outOfFuel_le _, fun _ _ => .outOfFuel_le _⟩
  | n + 1 => by
      have ih := lexicalKnot_le_succ n
      refine ⟨exec.evaluateStep_le ih, fun f a => ?_⟩
      show Run.Le (exec.lexicalCallStep N n _ f a) (exec.lexicalCallStep N (n + 1) _ f a)
      cases f with
      | embedded => exact exec.constCreateCallStep_le ih (Nat.le_succ n) _ _
      | struct => exact exec.constCreateCallStep_le ih (Nat.le_succ n) _ _
      | lambda =>
          cases a with
          | some a => exact exec.constCreateCallStep_le ih (Nat.le_succ n) _ _
          | none =>
              rw [lexicalCallStep, lexicalCallStep]
              split
              · exact exec.constCreateCallStep_le ih (Nat.le_succ n) _ _
              · exact .refl _
      | intrinsic intr handler scope =>
          -- what the handler creates is checked before it is evaluated, with the same answer for both
          have hcreating : ((exec.lexicalKnot N n).creating N intr).Le
              ((exec.lexicalKnot N (n + 1)).creating N intr) := by
            refine ⟨fun v scope => ?_, ih.createCall⟩
            rw [Knot.creating_evaluate, Knot.creating_evaluate]
            split
            · exact ih.evaluate v scope
            · exact .refl _
          exact exec.constCreateCallStep_le hcreating (Nat.le_succ n) _ _

theorem lexicalKnot_le {n m : Nat} (h : n ≤ m) : (exec.lexicalKnot N n).Le (exec.lexicalKnot N m) := by
  induction h with
  | refl => exact ⟨fun _ _ => .refl _, fun _ _ => .refl _⟩
  | @step m _ ih =>
      have hs := exec.lexicalKnot_le_succ (N := N) m
      exact ⟨fun v scope => (ih.evaluate v scope).trans (hs.evaluate v scope),
        fun f a => (ih.createCall f a).trans (hs.createCall f a)⟩

end ControlFlowExecutor

end

/-! ## Until it is stopped -/

/-- Runs that end alike, with errors of the same code, unless the first is stopped. -/
abbrev Lexical.Simulates {α β : Type} (N : Set String) (w : InlineState × InlineState)
    (R : InlineState × InlineState → α → β → Prop) (x : Exec InlineState α) (y : Exec InlineState β) :
    Prop :=
  Run.SimulatesUnless (Lexical.Stops N) (fun w s t => w = (s, t)) Status.SameCode w R x y

/-- Values that agree in the two states. -/
abbrev Lexical.Agree (N : Set String) (w : InlineState × InlineState) (v v' : ExecutorValue) : Prop :=
  v.Agrees N w.1 w.2 v'

/-- The relator of such runs. -/
abbrev Lexical.relator (N : Set String) : Relator Event Crash Status InlineState InlineState :=
  .simulationUnless Event (W := InlineState × InlineState) (Lexical.Stops N) (fun w s t => w = (s, t))
    Status.SameCode Status.SameCode.refl

section

variable [ProtoText] (handlers : IntrinsicHandlerSet) {w : InlineState × InlineState}

omit [ProtoText] in
/-- Pure runs are such runs. -/
theorem Purity.Simulates.lexical {α β : Type} {R : InlineState × InlineState → α → β → Prop}
    {x : Exec InlineState α} {y : Exec InlineState β} (h : Purity.Simulates w R x y) :
    Lexical.Simulates N w R x y :=
  h.lookups.unless

namespace ControlFlowExecutor

theorem callEmbedded_agrees {f f' : ValueId} {a a' : Option ExecutorValue}
    (hf : Lexical.Agree N w (.embedded f) (.embedded f')) (ha : Option.Rel (Lexical.Agree N w) a a') :
    Lexical.Simulates N w (Lexical.Agree N) ((localExecutor handlers).callEmbedded f a)
      ((localExecutor handlers).callEmbedded f' a') := by
  rintro w₁ hw s t rfl
  obtain ⟨rf, hfs, hft⟩ : ∃ r, s.table.trackedValues f = some r ∧ t.table.trackedValues f' = some r := by
    cases hf.mono hw.1 hw.2 with
    | embedded h h' => exact ⟨_, h, h'⟩
  -- the child is never the one that stops
  refine .inr ?_
  cases ha with
  | none =>
      obtain ⟨_, hx⟩ := callEmbedded_none handlers hfs
      obtain ⟨_, hy⟩ := callEmbedded_none handlers hft
      rw [hx, hy]
      exact ⟨(s, t), le_refl _, .error rfl rfl⟩
  | @some a a' ha =>
      have ha := ha.mono hw.1 hw.2
      obtain ⟨w', hw', hend⟩ :=
        callEmbedded_matched handlers hfs hft ha.alive ha.symm.alive ha.contents
      refine ⟨w', hw', hend.mono (fun _ _ he => congrArg Status.code he) fun v v' => ?_⟩
      rintro ⟨id, id', r, rfl, rfl, hid, hid', -⟩
      exact .embedded hid hid'

theorem createChildValue_agrees (v : Value) :
    Lexical.Simulates N w (Lexical.Agree N) ((localExecutor handlers).createChildValue v)
      ((localExecutor handlers).createChildValue v) :=
  Purity.Simulates.lexical (Purity.of_ends fun s t _ => .inl ⟨_, _, s.track (.ok v), t.track (.ok v),
    (InlineExecutor.createValue_returns handlers v s).bind (.pure _ _),
    (InlineExecutor.createValue_returns handlers v t).bind (.pure _ _),
    ⟨BaseState.Frame.track s _, BaseState.Frame.track t _⟩,
    .embedded (s.tracked_track _) (t.tracked_track _)⟩)

/-- Values that agree materialize to the same. -/
theorem constMaterialize_agrees {v v' : ExecutorValue} (hv : Lexical.Agree N w v v') (output : Option Value) :
    Lexical.Simulates N w (fun _ m m' => m = m' ∧ ∀ _pb ∈ m.output, True)
      ((localExecutor handlers).constMaterialize v output)
      ((localExecutor handlers).constMaterialize v' output) := by
  refine Purity.Simulates.lexical (Purity.of_ends fun s t hw => ?_)
  have hv := hv.mono hw.1 hw.2
  obtain ⟨m, s', hs', hx, hm⟩ := constMaterialize_spec handlers hv.alive output
  obtain ⟨m', t', ht', hy, hm'⟩ := constMaterialize_spec handlers hv.symm.alive output
  refine .inl ⟨m, m', s', t', hx, hy, ⟨hs', ht'⟩, ?_, fun _ _ => trivial⟩
  rw [← hv.contents] at hm'
  rcases hr : v.contents s with _ | r <;> simp only [hr] at hm hm'
  · exact hm.trans hm'.symm
  · exact hm.trans hm'.symm

theorem createSelectionInternal_agrees {v v' : ExecutorValue} (hv : Lexical.Agree N w v v') (index : UInt32) :
    Lexical.Simulates N w (Lexical.Agree N) ((localExecutor handlers).createSelectionInternal v index)
      ((localExecutor handlers).createSelectionInternal v' index) := by
  cases hv with
  | embedded h h' =>
      exact Purity.Simulates.lexical (Purity.of_ends fun s t hw => .inl ⟨_, _, _, _,
        (InlineExecutor.createSelection_holds handlers (BaseState.Frame.tracked hw.1 h) index).bind (.pure _ _),
        (InlineExecutor.createSelection_holds handlers (BaseState.Frame.tracked hw.2 h') index).bind
          (.pure _ _),
        ⟨BaseState.Frame.track s _, BaseState.Frame.track t _⟩,
        .embedded (s.tracked_track _) (t.tracked_track _)⟩)
  -- the two structures have elements at the same positions
  | @struct vs vs' hlength h =>
      have hall : List.Forall₂ (Lexical.Agree N w) vs vs' :=
        List.forall₂_iff_zip.mpr ⟨hlength, fun hp => h _ hp⟩
      dsimp only [createSelectionInternal]
      rcases forall₂_getElem? hall index.toNat with ⟨hnone, hnone'⟩ | ⟨v, v', hv, hv', h⟩
      · rw [hnone, hnone', hlength]
        exact (Lexical.relator N).throw rfl
      · rw [hv, hv']
        exact (Lexical.relator N).pure fun _ hw => h.mono hw.1 hw.2
  | lambda => exact (Lexical.relator N).throw rfl
  | intrinsic => exact (Lexical.relator N).throw rfl

end ControlFlowExecutor

end

/-- A knot does what another one does in scopes that agree on the free names, unless it is stopped. -/
structure Knot.Agrees (N : Set String) (k k' : Knot InlineState) : Prop where
  evaluate : ∀ {v A scope scope' w}, N ⊆ A → v.Within A → Scope.Agree N A w.1 w.2 scope scope' →
    Lexical.Simulates N w (Lexical.Agree N) (k.evaluate v scope) (k'.evaluate v scope')
  createCall : ∀ {f f' a a' w}, Lexical.Agree N w f f' → Option.Rel (Lexical.Agree N w) a a' →
    Lexical.Simulates N w (Lexical.Agree N) (k.createCall f a) (k'.createCall f' a')

namespace ControlFlowExecutor

section

variable [ProtoText] {handlers : IntrinsicHandlerSet} {w : InlineState × InlineState}
  [DecidablePred (· ∈ N)] {k k' : Knot InlineState} (hk : k.Agrees N k')

include hk

/-! ### Calls -/

variable (handlers) in
/-- A handler that is not stopped finds in its scope what it would have found in the other. -/
theorem context_agrees {intr : Intrinsic} (hN : N ⊆ A) (hparameter : intr.parameter.Within A)
    (hscope : scope.Agree N A w.1 w.2 scope') :
    ((localExecutor handlers).context (k.creating N intr) scope).Related (Lexical.relator N) True (fun _ => True)
      (Lexical.Agree N) w ((localExecutor handlers).context k' scope') where
  keeps hw h := h.mono hw.1 hw.2
  createValue {w' v} hw _ := by
    show Lexical.Simulates N w' _ (if hasComputation v then _ else _) (if hasComputation v then _ else _)
    split
    · rw [Knot.creating_evaluate]
      split
      · next hcreate =>
          -- what may be created refers to captured names and to those of the parameter only
          refine hk.evaluate hN (Value.within_iff.mpr fun x hx => ?_) (hscope.mono hw.1 hw.2)
          exact (hcreate x hx).elim (fun hx => hN hx) fun hx => hparameter.mem x hx
      · next hcreate => exact .stopped (Lexical.stops_of_not_mayCreate hcreate)
    · next hcomputation =>
        cases v with
        | scalar => exact createChildValue_agrees handlers _
        | notSet => exact (Lexical.relator N).throw rfl
        | _ => exact absurd rfl hcomputation
  createCall _ hf ha _ := hk.createCall hf ha
  createStruct _ hvs :=
    (Lexical.relator N).pure fun _ hw => .struct' (hvs.imp fun _ _ h => h.mono hw.1 hw.2)
  materialize output _ hv _ := constMaterialize_agrees handlers hv output

theorem lexicalCallStep_agrees (fuel : Nat) {f f' : ExecutorValue} {a a' : Option ExecutorValue}
    (hf : Lexical.Agree N w f f') (ha : Option.Rel (Lexical.Agree N w) a a') :
    Lexical.Simulates N w (Lexical.Agree N) ((localExecutor handlers).lexicalCallStep N fuel k f a)
      ((localExecutor handlers).constCreateCallStep fuel k' f' a') := by
  cases hf with
  | embedded h h' => exact callEmbedded_agrees handlers (.embedded h h') ha
  | struct => exact (Lexical.relator N).throw rfl
  | @lambda lambdaPb scope scope' A hN hbody halive halive' hbound h =>
      have hscope : scope.Agree N A w.1 w.2 scope' := ⟨halive, halive', hbound, h⟩
      cases ha with
      | some ha => exact hk.evaluate (hN.trans (Set.subset_insert _ A)) hbody (hscope.cons ha)
      | none =>
          -- then the parameter is looked up in the scope
          rw [lexicalCallStep]
          split
          · next hparameter =>
              rw [Set.insert_eq_of_mem (hN hparameter)] at hbody
              exact hk.evaluate hN hbody hscope
          · next hparameter => exact .stopped ⟨rfl, _, hparameter⟩
  | @intrinsic intr handler scope scope' A hN hparameter halive halive' hbound h =>
      have hscope : scope.Agree N A w.1 w.2 scope' := ⟨halive, halive', hbound, h⟩
      have hargument : a.isSome = a'.isSome := by cases ha <;> rfl
      show Lexical.Simulates N w _ (_ >>= _) (_ >>= _)
      rw [hargument]
      refine (Lexical.relator N).bind (R := fun _ i i' => i = i') ((Lexical.relator N).ofExcept fun _ _ => ?_)
        fun w₁ h₁ interface _ => ?_
      · cases handler.getControlFlowInterface <;> exact rfl
      · rintro rfl
        refine (Lexical.relator N).bind ((Lexical.relator N).tell _) fun w₂ h₂ _ _ _ => ?_
        have h₀₂ := h₁.trans h₂
        refine ControlFlowHandler.executeCall_related
          (context_agrees handlers hk hN hparameter (hscope.mono h₀₂.1 h₀₂.2)) ⟨trivial, fun _ _ _ => trivial⟩
          fuel ?_ trivial ?_ fun _ => trivial
        · cases interface <;> simp [ControlFlowHandler.Keeps]
        · cases ha with
          | some ha => exact .some (ha.mono h₀₂.1 h₀₂.2)
          | none => exact .none

/-! ### One kind of IR each -/

omit [ProtoText] [DecidablePred (· ∈ N)]

/-- The locals are bound alike, one after the other. -/
theorem evaluateLocals_agrees (names : String) {m : Meta} {result : Value} :
    ∀ {locals : List (String × Value)} {A : Set String} {scope scope' : Scope}
      {w : InlineState × InlineState}, N ⊆ A → (Value.block m locals result).Within A →
      scope.Agree N A w.1 w.2 scope' →
      Lexical.Simulates N w (fun w scope scope' => ∃ A, N ⊆ A ∧ result.Within A ∧ scope.Agree N A w.1 w.2 scope')
        (evaluateLocals k names locals scope) (evaluateLocals k' names locals scope')
  | [], A, _, _, _, hN, h, hscope => by
      cases h with
      | block_nil h => exact (Lexical.relator N).pure fun _ hw => ⟨A, hN, h, hscope.mono hw.1 hw.2⟩
  | (name, localPb) :: locals, A, _, _, w, hN, h, hscope => by
      cases h with
      | block_cons hlocal h =>
          -- the text that is added to an error does not change its code
          have hfirst := (hk.evaluate hN hlocal hscope).mapError
            (f := (Status.withSuffix ·
              ("while evaluating local [" ++ name ++ "] in block locals [" ++ names ++ "]")))
            (g := (Status.withSuffix ·
              ("while evaluating local [" ++ name ++ "] in block locals [" ++ names ++ "]")))
            fun _ _ he => he
          refine (Lexical.relator N).bind hfirst fun w₁ h₁ v v' hv => ?_
          exact evaluateLocals_agrees names (hN.trans (Set.subset_insert name A)) h
            ((hscope.mono h₁.1 h₁.2).cons hv)

theorem evaluateBlock_agrees {m : Meta} {locals : List (String × Value)} {result : Value} (hN : N ⊆ A)
    (h : (Value.block m locals result).Within A) (hscope : scope.Agree N A w.1 w.2 scope') :
    Lexical.Simulates N w (Lexical.Agree N) (evaluateBlock k locals result scope)
      (evaluateBlock k' locals result scope') := by
  refine (Lexical.relator N).bind (evaluateLocals_agrees hk _ hN h hscope) fun w₁ h₁ scope scope' => ?_
  rintro ⟨A, hN, hresult, hscope⟩
  exact hk.evaluate hN hresult hscope

theorem evaluateElements_agrees (hN : N ⊆ A) : ∀ {elements : List Value} {scope scope' : Scope}
    {w : InlineState × InlineState}, (∀ e ∈ elements, e.Within A) → scope.Agree N A w.1 w.2 scope' →
      Lexical.Simulates N w (fun w => List.Forall₂ (Lexical.Agree N w)) (evaluateElements k elements scope)
        (evaluateElements k' elements scope')
  | [], _, _, _, _, _ => (Lexical.relator N).pure fun _ _ => .nil
  | _ :: _, _, _, _, h, hscope => by
      obtain ⟨he, hes⟩ := List.forall_mem_cons.mp h
      refine (Lexical.relator N).bind (hk.evaluate hN he hscope) fun w₁ h₁ _ _ hv => ?_
      refine (Lexical.relator N).bind (evaluateElements_agrees hN hes (hscope.mono h₁.1 h₁.2))
        fun w₂ h₂ _ _ hvs => ?_
      refine (Lexical.relator N).pure fun w₃ h₃ => .cons ?_ (hvs.imp fun _ _ h => h.mono h₃.1 h₃.2)
      exact hv.mono (h₂.trans h₃).1 (h₂.trans h₃).2

omit hk

/-- What is found in one scope is found in the other; the errors show the scopes. -/
theorem evaluateReference_agrees {name : String} (hscope : scope.Agree N A w.1 w.2 scope')
    (hname : name ∈ A) : Lexical.Simulates N w (Lexical.Agree N) (evaluateReference name scope)
      (evaluateReference name scope') := by
  have hresolved : Lexical.Simulates N w (Lexical.Agree N) (Run.ofExcept (scope.resolve name))
      (Run.ofExcept (scope'.resolve name)) := by
    refine (Lexical.relator N).ofExcept fun w' hw => ?_
    rcases hv : scope.resolve name with e | v <;> rcases hv' : scope'.resolve name with e' | v'
    · exact Scope.sameCode_of_resolve hv hv'
    · obtain ⟨v, hbound⟩ := (hscope.bound name hname).mpr ⟨v', hv'⟩
      rw [hv] at hbound
      cases hbound
    · obtain ⟨v', hbound⟩ := (hscope.bound name hname).mp ⟨v, hv⟩
      rw [hv'] at hbound
      cases hbound
    · exact (hscope.values name hname v v' hv hv').mono hw.1 hw.2
  exact hresolved.mapError fun _ _ he => he

variable [ProtoText] (handlers)

theorem evaluateIntrinsic_agrees {m : Meta} {uri : String} {staticParameter : Option Value} (hN : N ⊆ A)
    (h : ∀ v ∈ staticParameter, v.Within A) (hscope : scope.Agree N A w.1 w.2 scope') :
    Lexical.Simulates N w (Lexical.Agree N)
      ((localExecutor handlers).evaluateIntrinsic (.intrinsic m uri staticParameter) ⟨uri, staticParameter⟩
        scope)
      ((localExecutor handlers).evaluateIntrinsic (.intrinsic m uri staticParameter) ⟨uri, staticParameter⟩
        scope') := by
  let 𝓡 := Lexical.relator N
  -- neither finding the handler nor its check looks at the scope
  refine 𝓡.bind_same (𝓡.ofExcept_same _) fun w₁ h₁ handler => ?_
  refine 𝓡.bind_same (runCheckWellFormed_related 𝓡 handler _) fun w₂ h₂ _ => ?_
  cases handler.interface with
  | inline => exact createChildValue_agrees handlers _
  | controlFlow =>
      refine 𝓡.bind_same (runCheckWellFormed_related 𝓡 handler _) fun w₃ h₃ _ => ?_
      refine 𝓡.pure fun w₄ h₄ => ?_
      have hle := ((h₁.trans h₂).trans h₃).trans h₄
      -- an intrinsic without a parameter has an empty one
      have hparameter : (⟨uri, staticParameter⟩ : Intrinsic).parameter.Within A := by
        unfold Intrinsic.parameter
        cases staticParameter with
        | none => exact .notSet
        | some v => exact h v rfl
      exact .intrinsic' hN hparameter (hscope.mono hle.1 hle.2)

include hk in
theorem evaluateStep_agrees {v : Value} (hN : N ⊆ A) (hv : v.Within A)
    (hscope : scope.Agree N A w.1 w.2 scope') :
    Lexical.Simulates N w (Lexical.Agree N) ((localExecutor handlers).evaluateStep k v scope)
      ((localExecutor handlers).evaluateStep k' v scope') := by
  cases hv with
  | notSet => exact createChildValue_agrees handlers _
  | scalar => exact createChildValue_agrees handlers _
  | @call _ m function argument hf ha =>
      refine (Lexical.relator N).bind (hk.evaluate hN hf hscope) fun w₁ h₁ _ _ hf => ?_
      cases argument with
      | none => exact hk.createCall hf .none
      | some argument =>
          -- the scopes still agree after the function has been evaluated, and so do the functions after the
          -- argument
          refine (Lexical.relator N).bind (hk.evaluate hN (ha argument rfl) (hscope.mono h₁.1 h₁.2))
            fun w₂ h₂ _ _ ha => ?_
          exact hk.createCall (hf.mono h₂.1 h₂.2) (.some ha)
  | lambda h =>
      exact (Lexical.relator N).pure fun _ hw => .lambda' hN h (hscope.mono hw.1 hw.2)
  | reference h => exact evaluateReference_agrees hscope h
  | struct h =>
      exact (Lexical.relator N).bind (evaluateElements_agrees hk hN h hscope) fun _ _ _ _ hvs =>
        (Lexical.relator N).pure fun _ hw => .struct' (hvs.imp fun _ _ h => h.mono hw.1 hw.2)
  | selection h =>
      exact (Lexical.relator N).bind (hk.evaluate hN h hscope) fun _ _ _ _ hv =>
        createSelectionInternal_agrees handlers hv _
  | @block_nil _ m _ h => exact evaluateBlock_agrees hk hN (.block_nil (m := m) h) hscope
  | block_cons hlocal h => exact evaluateBlock_agrees hk hN (.block_cons hlocal h) hscope
  | intrinsic h => exact evaluateIntrinsic_agrees handlers hN h hscope

/-! ### The knot -/

variable [DecidablePred (· ∈ N)]

/-- **What is not free does not matter**, until a check fails: evaluations in scopes that agree on the free
names and on `N`, and calls of functions that agree, end alike. -/
theorem lexicalKnot_agrees : ∀ fuel : Nat,
    Knot.Agrees N ((localExecutor handlers).lexicalKnot N fuel) ((localExecutor handlers).knot fuel)
  | 0 => ⟨fun _ _ _ => (Lexical.relator N).outOfFuel, fun _ _ => (Lexical.relator N).outOfFuel⟩
  | fuel + 1 =>
      ⟨fun hN hv hscope => evaluateStep_agrees handlers (lexicalKnot_agrees fuel) hN hv hscope,
        fun hf ha => lexicalCallStep_agrees (lexicalKnot_agrees fuel) fuel hf ha⟩

end

end ControlFlowExecutor

/-- Lexical scoping lasts through the runs, with any fuel: no check fails. -/
def Lexical.Lasts {σ α : Type} (x : Nat → Exec σ α) (s : σ) : Prop := ∀ n, (x n s).2 ≠ .crash .checkFailure

theorem Lexical.Lasts.ne {σ α : Type} {x : Nat → Exec σ α} {s : σ} (h : Lexical.Lasts x s) (n : Nat)
    (k : Crash) (hk : Lexical.Stops N k) : (x n s).2 ≠ .crash k := by
  obtain ⟨rfl, -⟩ := hk
  exact h n

/-- What was made from `s` and from `t` on agrees. -/
def AgreeSince (N : Set String) (s t : InlineState) (v : ExecutorValue) (s' : InlineState)
    (v' : ExecutorValue) (t' : InlineState) : Prop :=
  s ≤ s' ∧ t ≤ t' ∧ v.Agrees N s' t' v'

/-- A run that no check stops ends like the one without checks, and like what it simulates. -/
theorem Lexical.endUpTo {x y z : Nat → Exec InlineState ExecutorValue}
    (hstop : ∀ n k, Lexical.Stops N k → (z n s).2 ≠ .crash k)
    (hx : ∀ n, (ControlFlowExecutor.unlessStopped N InlineState).Rel () (fun _ => Eq) (z n) (x n))
    (hy : ∀ n, Lexical.Simulates N (s, t) (Lexical.Agree N) (z n) (y n)) :
    Run.EndUpTo Status.SameCode (AgreeSince N s t) x s y t := by
  have hends : ∀ n, ∃ w', (s, t) ≤ w' ∧ Outcome.Matched (fun s t => w' = (s, t)) Status.SameCode
      (Lexical.Agree N w') (x n s).2 (y n t).2 := by
    intro n
    rw [← ControlFlowExecutor.end_eq_of_unlessStopped (hx n) (hstop n)]
    refine (hy n (s, t) (le_refl _) s t rfl).resolve_left ?_
    rintro ⟨k, hk, hend⟩
    exact hstop n k hk hend
  refine (Run.EndUpTo.of_matched hends).mono ?_
  rintro a s' b t' ⟨_, hle, rfl, hab⟩
  exact ⟨hle.1, hle.2, hab⟩

end GenC
