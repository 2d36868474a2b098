import GenC.Authoring.Constructor
import GenC.Runtime.IntrinsicCalls
import GenC.Runtime.LexicalScoping

/-!
# The conditional lambda

`CreateLambdaForConditional` builds a lambda that applies a condition to its parameter, and then one of two
branches. The parameter is called `arg`, whatever the names in the condition and in the branches are.

**`conditional_chooses_iff`**: the branch that is not selected is never looked at, and what is selected is
applied in the scope of the lambda, with `arg` bound over it. So all functions are chosen among as they should
be if and only if `arg` was bound to the same before. Where it was not, those are in which `arg` is not free,
as long as lexical scoping lasts.
-/

namespace GenC

open Lib ControlFlowExecutor

/-! ## Applying IR in a scope -/

section

variable {σ : Type}

/-- The function is evaluated in the scope, and called on `x`. -/
def Knot.applyIn (knot : Knot σ) (fn : Value) (scope : Scope) (x : ExecutorValue) : Exec σ ExecutorValue := do
  let f ← knot.evaluate fn scope
  knot.createCall f (some x)

variable [ProtoText] (exec : ControlFlowExecutor σ)

namespace ControlFlowExecutor

def applyIn (fn : Value) (scope : Scope) (x : ExecutorValue) (fuel : Nat) : Exec σ ExecutorValue :=
  (exec.knot fuel).applyIn fn scope x

/-- One of two, as a condition tells. -/
def branchOn (condPb : Value) (positiveBranch negativeBranch : Exec σ ExecutorValue) :
    Exec σ ExecutorValue :=
  match condPb.boolean? with
  | none => Run.throw (.invalidArgument ("Condition is not a Boolean: " ++ debugString condPb))
  | some cond => if cond then positiveBranch else negativeBranch

/-- What a conditional is for: the condition is applied to `x`, and then the branch that it tells. -/
def choosesWith (knot : Knot σ) (condition positiveBranch negativeBranch : Value) (scope : Scope)
    (x : ExecutorValue) : Exec σ ExecutorValue := do
  let cond ← knot.applyIn condition scope x
  let condPb ← (exec.context knot scope).materializeValue cond
  branchOn condPb (knot.applyIn positiveBranch scope x) (knot.applyIn negativeBranch scope x)

def chooses (condition positiveBranch negativeBranch : Value) (scope : Scope) (x : ExecutorValue)
    (fuel : Nat) : Exec σ ExecutorValue :=
  exec.choosesWith (exec.knot fuel) condition positiveBranch negativeBranch scope x

variable {exec} {scope : Scope} {s s' : σ}

theorem applyIn_growing (fn : Value) (scope : Scope) (x : ExecutorValue) :
    Run.Growing (exec.applyIn fn scope x) :=
  (evaluate_growing fn scope).bind fun f => constCreateCall_growing f (some x)

/-- A call of IR on what a name is bound to. -/
theorem evaluate_call_endSame {m : Meta} {fn : Value} {name : String} {x : ExecutorValue}
    (h : scope.resolve name = .ok x) (s : σ) : Run.EndSame
      (fun n => exec.evaluate n (.call m fn (some (createReference name))) scope) s
      (exec.applyIn fn scope x) s := by
  refine .of_same (evaluateCall_endSame m fn _ scope s) ?_
  have hcall : ∀ f, Run.Growing fun n => exec.evaluate n (createReference name) scope >>= fun a =>
      exec.constCreateCall n f (some a) :=
    fun f => (evaluate_growing _ scope).bind fun a => constCreateCall_growing f (some a)
  refine .bind (evaluate_growing fn scope) hcall (evaluate_growing fn scope)
    (fun f => constCreateCall_growing f (some x)) (.refl _ s) ?_
  rintro f s' _ _ - - ⟨rfl, rfl⟩
  exact .of_left (evaluate_growing _ scope) (fun a => constCreateCall_growing f (some a))
    (Evaluates.reference h) (.refl _ s')

variable (exec) in
/-- A lambda is applied by evaluating its body. -/
theorem applyIn_lambda_endSame (m : Meta) (name : String) (body : Value) (scope : Scope) (x : ExecutorValue)
    (s : σ) : Run.EndSame (exec.applyIn (.lambda m name body) scope x) s
      (fun n => exec.evaluate n body ((name, x) :: scope)) s := by
  refine .of_left (evaluate_growing _ scope) (fun f => constCreateCall_growing f (some x))
    Evaluates.lambda ?_
  exact .of_succ (constCreateCall_growing _ _) (.refl _ s)

/-! ## The conditional lambda -/

/-- The handler of conditionals is registered. -/
def HasConditional (handlers : IntrinsicHandlerSet) : Prop :=
  handlers.getHandler "conditional" = .ok ⟨"conditional", .controlFlow .conditional⟩

theorem branchOn_growing (condPb : Value) {x y : Nat → Exec σ ExecutorValue} (hx : Run.Growing x)
    (hy : Run.Growing y) : Run.Growing fun k => branchOn condPb (x k) (y k) := by
  unfold branchOn
  rcases condPb.boolean? with _ | _ | _
  · exact .const _
  · exact hy
  · exact hx

theorem branchOn_endSame (condPb : Value) {x x' y y' : Nat → Exec σ ExecutorValue} {s : σ}
    (hx : Run.EndSame x s x' s) (hy : Run.EndSame y s y' s) :
    Run.EndSame (fun k => branchOn condPb (x k) (y k)) s (fun k => branchOn condPb (x' k) (y' k)) s := by
  unfold branchOn
  rcases condPb.boolean? with _ | _ | _
  · exact .refl _ s
  · exact hy
  · exact hx

theorem chooses_growing (c p n : Value) (scope : Scope) (x : ExecutorValue) :
    Run.Growing (exec.chooses c p n scope x) :=
  (applyIn_growing c scope x).bind fun cond =>
    ((exec.contexts_growing scope).materializeValue cond).bind fun condPb =>
      branchOn_growing condPb (applyIn_growing p scope x) (applyIn_growing n scope x)

/-- The intrinsic of a conditional is called by evaluating one of its parameters. -/
theorem call_conditional_endSame (m : Meta) (positiveBranch negativeBranch : Value)
    (hp : hasComputation positiveBranch = true) (hn : hasComputation negativeBranch = true)
    (cond : ExecutorValue) (s : σ) (scope' : Scope) : Run.EndSame
      (fun k => (exec.contexts scope' k).createCall
        (ControlFlowHandler.conditional.function m [positiveBranch, negativeBranch] scope) (some cond)) s
      (fun k => (exec.contexts scope k).materializeValue cond >>= fun condPb =>
        branchOn condPb (exec.evaluate k positiveBranch scope) (exec.evaluate k negativeBranch scope)) s := by
  -- the handler materializes the condition and creates one of the two branches
  have hexecute : (fun k => ControlFlowHandler.conditional.executeCall (exec.contexts scope k) k
      (ControlFlowHandler.conditional.intrinsic m [positiveBranch, negativeBranch]) (some cond)) =
        fun k => (exec.contexts scope k).materializeValue cond >>= fun condPb => branchOn condPb
          (exec.evaluate k positiveBranch scope) (exec.evaluate k negativeBranch scope) := by
    funext k
    refine congrArg ((exec.contexts scope k).materializeValue cond >>= ·) (funext fun condPb => ?_)
    unfold branchOn
    rcases condPb.boolean? with _ | _ | _
    · rfl
    · exact (pure_bind _ _).trans (if_pos hn)
    · exact (pure_bind _ _).trans (if_pos hp)
  rw [← hexecute]
  exact call_endSame _ _ _ _ s

/-- The lambda chooses where `arg` is bound over the scope that it was created in. -/
theorem applyIn_conditional_endSame (hget : HasConditional exec.intrinsicHandlers) (c p n : Value)
    (scope : Scope) (x : ExecutorValue) (s : σ) : Run.EndSame
      (exec.applyIn (createLambdaForConditional c p n) scope x) s
      (exec.chooses c p n (("arg", x) :: scope) x) s := by
  have harg : Scope.resolve "arg" (("arg", x) :: scope) = .ok x := if_pos rfl
  have happly : ∀ (m : Meta) (fn : Value) (s : σ), Run.EndSame
      (fun k => exec.evaluate k (.call m fn (some (createReference "arg"))) (("arg", x) :: scope)) s
      (exec.applyIn fn (("arg", x) :: scope) x) s := fun m fn s => evaluate_call_endSame harg s
  refine .of_same (applyIn_lambda_endSame exec _ _ _ scope x s) (.of_succ (evaluate_growing _ _) ?_)
  -- the intrinsic is created, the condition is applied, and then the intrinsic is called
  have hcall : ∀ f, Run.Growing fun k =>
      exec.evaluate k (createCall c (createReference "arg")) (("arg", x) :: scope) >>= fun a =>
        exec.constCreateCall k f (some a) :=
    fun f => (evaluate_growing _ _).bind fun a => constCreateCall_growing f (some a)
  refine .of_left (evaluate_growing _ _) hcall
    (Evaluates.controlFlow hget rfl rfl) ?_
  have hmaterialize : ∀ cond, Run.Growing fun k =>
      (exec.contexts (("arg", x) :: scope) k).materializeValue cond :=
    fun cond => (exec.contexts_growing _).materializeValue cond
  refine .bind (evaluate_growing _ _) (fun a => constCreateCall_growing _ (some a))
    (applyIn_growing c _ x) (fun cond => (hmaterialize cond).bind fun condPb =>
      branchOn_growing condPb (applyIn_growing p _ x) (applyIn_growing n _ x)) (happly {} c s) ?_
  rintro cond s₁ _ _ - - ⟨rfl, rfl⟩
  refine .of_same (call_conditional_endSame {} _ _ rfl rfl cond s₁ []) ?_
  refine .bind (hmaterialize cond) (fun condPb => branchOn_growing condPb (evaluate_growing _ _)
    (evaluate_growing _ _)) (hmaterialize cond) (fun condPb => branchOn_growing condPb
      (applyIn_growing p _ x) (applyIn_growing n _ x)) (.refl _ s₁) ?_
  rintro condPb s₂ _ _ - - ⟨rfl, rfl⟩
  exact branchOn_endSame condPb (happly _ p s₂) (happly _ n s₂)

end ControlFlowExecutor

end

/-! ## Names that are captured -/

/-- The names but `arg`. -/
def otherThanArg : Set String := {x | x ≠ "arg"}

instance : DecidablePred (· ∈ otherThanArg) := fun x => inferInstanceAs (Decidable (x ≠ "arg"))

section

variable [ProtoText] {N A : Set String} {scope scope' : Scope} {x x' : ExecutorValue} {s : InlineState}
  {w : InlineState × InlineState} {c p n : Value}

namespace ControlFlowExecutor

section

variable (handlers : IntrinsicHandlerSet) [DecidablePred (· ∈ N)]

theorem applyIn_agrees {fn : Value} (hN : N ⊆ A) (hfn : fn.Within A) (hscope : scope.Agree N A w.1 w.2 scope')
    (hx : Lexical.Agree N w x x') (fuel : Nat) :
    Lexical.Simulates N w (Lexical.Agree N) (((localExecutor handlers).lexicalKnot N fuel).applyIn fn scope x)
      ((localExecutor handlers).applyIn fn scope' x' fuel) := by
  have hknot := lexicalKnot_agrees (N := N) handlers fuel
  refine (Lexical.relator N).bind (hknot.evaluate hN hfn hscope) fun w₁ h₁ f f' hf => ?_
  exact hknot.createCall hf (.some (hx.mono h₁.1 h₁.2))

theorem chooses_agrees (hN : N ⊆ A) (hc : c.Within A) (hp : p.Within A) (hn : n.Within A)
    (hscope : scope.Agree N A w.1 w.2 scope') (hx : Lexical.Agree N w x x') (fuel : Nat) :
    Lexical.Simulates N w (Lexical.Agree N)
      ((localExecutor handlers).choosesWith ((localExecutor handlers).lexicalKnot N fuel) c p n scope x)
      ((localExecutor handlers).chooses c p n scope' x' fuel) := by
  refine (Lexical.relator N).bind (applyIn_agrees handlers hN hc hscope hx fuel) fun w₁ h₁ cond cond' hcond => ?_
  have hmaterialize : Lexical.Simulates N w₁ (fun _ => Eq)
      (((localExecutor handlers).context ((localExecutor handlers).lexicalKnot N fuel) scope).materializeValue cond)
      (((localExecutor handlers).context ((localExecutor handlers).knot fuel) scope').materializeValue cond') := by
    refine (Lexical.relator N).bind (constMaterialize_agrees handlers hcond _) fun w₂ h₂ m m' => ?_
    rintro ⟨rfl, -⟩
    unfold MaterializeResult.get
    rcases m.status with e | _
    · exact (Lexical.relator N).throw rfl
    · exact (Lexical.relator N).pure fun _ _ => rfl
  refine (Lexical.relator N).bind hmaterialize fun w₂ h₂ condPb _ => ?_
  rintro rfl
  have hle := h₁.trans h₂
  have happly : ∀ {fn : Value}, fn.Within A → Lexical.Simulates N w₂ (Lexical.Agree N)
      (((localExecutor handlers).lexicalKnot N fuel).applyIn fn scope x)
      ((localExecutor handlers).applyIn fn scope' x' fuel) := fun hfn =>
    applyIn_agrees handlers hN hfn (hscope.mono hle.1 hle.2) (hx.mono hle.1 hle.2) fuel
  -- the same condition chooses on both sides
  unfold branchOn
  rcases condPb.boolean? with _ | _ | _
  · exact (Lexical.relator N).throw rfl
  · exact happly hn
  · exact happly hp

theorem chooses_related (c p n : Value) (scope : Scope) (x : ExecutorValue) (fuel : Nat) :
    (unlessStopped N InlineState).Rel () (fun _ => Eq)
      ((localExecutor handlers).choosesWith ((localExecutor handlers).lexicalKnot N fuel) c p n scope x)
      ((localExecutor handlers).chooses c p n scope x fuel) := by
  let 𝓡 := unlessStopped N InlineState
  have hexec : (localExecutor handlers).Related 𝓡 (localExecutor handlers) := related_unlessStopped _
  have hknot := (localExecutor handlers).lexicalKnot_related (N := N) fuel
  have happly : ∀ {w : 𝓡.World} (fn : Value), 𝓡.Rel w (fun _ => Eq)
      (((localExecutor handlers).lexicalKnot N fuel).applyIn fn scope x)
      (((localExecutor handlers).knot fuel).applyIn fn scope x) :=
    fun fn => 𝓡.bind_same (hknot.evaluate fn scope) fun _ _ f => hknot.createCall f _
  refine 𝓡.bind_same (happly c) fun _ _ cond => ?_
  refine 𝓡.bind ((hexec.context hknot scope).materializeValue ⟨trivial, fun _ _ _ => trivial⟩ rfl)
    fun _ _ condPb _ => ?_
  rintro ⟨rfl, -⟩
  unfold branchOn
  rcases condPb.boolean? with _ | _ | _
  · exact 𝓡.throw rfl
  · exact happly n
  · exact happly p

theorem choosesWith_growing (c p n : Value) (scope : Scope) (x : ExecutorValue) : Run.Growing fun fuel =>
    (localExecutor handlers).choosesWith ((localExecutor handlers).lexicalKnot N fuel) c p n scope x := by
  intro k m hkm
  have hknot := (localExecutor handlers).lexicalKnot_le (N := N) hkm
  have happly : ∀ fn, Run.Le (((localExecutor handlers).lexicalKnot N k).applyIn fn scope x)
      (((localExecutor handlers).lexicalKnot N m).applyIn fn scope x) :=
    fun fn => (hknot.evaluate fn scope).bind fun f => hknot.createCall f _
  refine (happly c).bind fun cond => .bind (.refl _) fun condPb => ?_
  unfold branchOn
  rcases condPb.boolean? with _ | _ | _
  · exact .refl _
  · exact happly n
  · exact happly p

end

end ControlFlowExecutor

omit [ProtoText] in
/-- Binding `arg` anew is seen unless it was bound to the same. -/
theorem Scope.agree_arg_iff (hscope : scope.Alive s) (hx : x.Alive s) :
    Scope.Agree N A s s scope (("arg", x) :: scope) ↔
      ("arg" ∈ A → ∃ y, scope.resolve "arg" = .ok y ∧ y.Agrees N s s x) := by
  have harg : Scope.resolve "arg" (("arg", x) :: scope) = .ok x := if_pos rfl
  constructor
  · intro h hmem
    obtain ⟨y, hy⟩ := (h.bound "arg" hmem).mpr ⟨x, harg⟩
    exact ⟨y, hy, h.values "arg" hmem y x hy harg⟩
  · intro h
    -- every other name resolves to what it did before
    have hother : ∀ {name}, "arg" ≠ name → Scope.resolve name (("arg", x) :: scope) = scope.resolve name :=
      fun hname => if_neg hname
    have hself : scope.Agree N A s s scope := .refl hscope
    refine ⟨hscope, hscope.cons hx, fun name hname => ?_, fun name hname v v' hv hv' => ?_⟩
    · by_cases heq : "arg" = name
      · subst heq
        obtain ⟨y, hy, -⟩ := h hname
        exact ⟨fun _ => ⟨x, harg⟩, fun _ => ⟨y, hy⟩⟩
      · rw [hother heq]
    · by_cases heq : "arg" = name
      · subst heq
        obtain ⟨y, hy, hyx⟩ := h hname
        rw [hy] at hv
        rw [harg] at hv'
        cases hv
        cases hv'
        exact hyx
      · rw [hother heq] at hv'
        exact hself.values name hname v v' hv hv'

/-- The lambda chooses as it should. What is returned is compared as far as names in `N` go. -/
def Chooses (handlers : IntrinsicHandlerSet) (N : Set String) (c p n : Value) (scope : Scope)
    (x : ExecutorValue) (s : InlineState) : Prop :=
  Run.EndUpTo Status.SameCode (AgreeSince N s s)
    ((localExecutor handlers).applyIn (createLambdaForConditional c p n) scope x) s
    ((localExecutor handlers).chooses c p n scope x) s

/-- Where the condition and the branches are applied, nothing is created anew in which `arg` is free, unless it
is in the static parameter of the intrinsic as well, and no function with the parameter `arg` is called without
an argument. -/
def StaysLexical (handlers : IntrinsicHandlerSet) (c p n : Value) (scope : Scope) (x : ExecutorValue)
    (s : InlineState) : Prop :=
  Lexical.Lasts (fun fuel => (localExecutor handlers).choosesWith
    ((localExecutor handlers).lexicalKnot otherThanArg fuel) c p n scope x) s

variable {handlers : IntrinsicHandlerSet} (hget : HasConditional handlers)

include hget

/-- It does where the scope of the lambda agrees with the surrounding one. -/
theorem chooses_of_agree [DecidablePred (· ∈ N)] (hc : c.Within N) (hp : p.Within N) (hn : n.Within N)
    (hx : x.Alive s) (hscope : Scope.Agree N N s s scope (("arg", x) :: scope))
    (hstop : ∀ fuel k, Lexical.Stops N k →
      ((localExecutor handlers).choosesWith ((localExecutor handlers).lexicalKnot N fuel) c p n scope x s).2 ≠
        .crash k) : Chooses handlers N c p n scope x s := by
  have hend : Run.EndUpTo Status.SameCode (AgreeSince N s s) ((localExecutor handlers).chooses c p n scope x) s
      ((localExecutor handlers).chooses c p n (("arg", x) :: scope) x) s :=
    Lexical.endUpTo hstop (chooses_related handlers c p n scope x) fun fuel =>
      chooses_agrees (w := (s, s)) handlers (Set.Subset.refl N) hc hp hn hscope (.refl hx) fuel
  refine .of_same (applyIn_conditional_endSame hget c p n scope x s) ?_
  refine (hend.symm.mono ?_).mono_error fun _ _ he => he.symm
  rintro b t' a s' ⟨hs, ht, hab⟩
  exact ⟨ht, hs, hab.symm⟩

theorem chooses_of_staysLexical (hscope : scope.Alive s) (hx : x.Alive s) (hc : "arg" ∉ c.freeNames)
    (hp : "arg" ∉ p.freeNames) (hn : "arg" ∉ n.freeNames) (hstays : StaysLexical handlers c p n scope x s) :
    Chooses handlers otherThanArg c p n scope x s := by
  have hwithin : ∀ {v : Value}, "arg" ∉ v.freeNames → v.Within otherThanArg := fun hv =>
    Value.within_iff.mpr fun y hy heq => hv (heq ▸ hy)
  refine chooses_of_agree hget (hwithin hc) (hwithin hp) (hwithin hn) hx ?_ hstays.ne
  exact (Scope.agree_arg_iff hscope hx).mpr fun hmem => absurd rfl hmem

/-- A condition that holds of everything, or of nothing. -/
def always (b : Bool) : Value := createLambda "q" (.ofBool b)

/-- A function that gives back its own `arg`. -/
def givesArg : Value := createLambda "q" (createReference "arg")

omit hget

variable (handlers) in
theorem always_shows (b : Bool) (scope : Scope) (x : ExecutorValue) (s : InlineState) :
    ∃ cond s₁ s₂, Run.Finally ((localExecutor handlers).applyIn (always b) scope x) s cond s₁ ∧
      Context.Shows ((localExecutor handlers).contexts scope) cond s₁ (.ofBool b) s₂ ∧ s ≤ s₂ := by
  obtain ⟨_, _, h, rfl, rfl⟩ := (applyIn_lambda_endSame (localExecutor handlers) {} "q"
    (.ofBool b) scope x s).of_returns (Evaluates.child rfl
      (InlineExecutor.createValue_returns handlers (.ofBool b) s))
  have halive : (ExecutorValue.embedded s.table.nextValueId).Alive (s.track (.ok (.ofBool b))) :=
    .embedded (s.tracked_track _)
  obtain ⟨u, hu, hshow⟩ := materializeValue_spec handlers scope halive
  simp only [ExecutorValue.contents, s.tracked_track] at hshow
  exact ⟨_, _, u, h, hshow, (BaseState.Frame.track s _).trans hu⟩

variable (handlers) in
theorem chooses_givesArg (scope : Scope) (x : ExecutorValue) (s : InlineState) : ∃ u, s ≤ u ∧ Run.EndSame
    ((localExecutor handlers).chooses (always true) givesArg givesArg scope x) s
    (fun n => (localExecutor handlers).evaluate n (createReference "arg") (("q", x) :: scope)) u := by
  have hgrowing := (localExecutor handlers).contexts_growing scope
  obtain ⟨cond, s₁, u, htrue, hshow, hu⟩ := always_shows handlers true scope x s
  refine ⟨u, hu, ?_⟩
  refine .of_left (applyIn_growing _ _ _) (fun cond => (hgrowing.materializeValue cond).bind fun condPb =>
    branchOn_growing condPb (applyIn_growing _ _ _) (applyIn_growing _ _ _)) htrue ?_
  refine .of_left (hgrowing.materializeValue _) (fun condPb =>
    branchOn_growing condPb (applyIn_growing _ _ _) (applyIn_growing _ _ _)) hshow ?_
  exact applyIn_lambda_endSame (localExecutor handlers) {} "q" (createReference "arg") scope x u

include hget

/-- All functions are chosen among as they should be where `arg` is bound to the argument already. -/
theorem forall_chooses_iff (hscope : scope.Alive s) (hx : x.Alive s) :
    (∀ c p n, Chooses handlers Set.univ c p n scope x s) ↔
      ∃ y, scope.resolve "arg" = .ok y ∧ y.Agrees Set.univ s s x := by
  constructor
  · intro h
    have hend := h (always true) givesArg givesArg
    -- the lambda gives back what it was applied to
    obtain ⟨u, -, hbound⟩ := chooses_givesArg handlers (("arg", x) :: scope) x s
    have harg : Scope.resolve "arg" (("q", x) :: ("arg", x) :: scope) = .ok x := if_neg (by decide)
    obtain ⟨_, _, hlambda, hv, -⟩ :=
      ((applyIn_conditional_endSame hget _ _ _ scope x s).of_same hbound).of_returns
        (Evaluates.reference harg)
    rw [hv] at hlambda
    obtain ⟨y, t, hy, hs, ht, hlike⟩ := hend.returns hlambda
    -- the branch gives back what was bound before
    obtain ⟨u', -, hfree⟩ := chooses_givesArg handlers scope x s
    obtain ⟨_, _, hy, rfl, rfl⟩ := hfree.returns hy
    obtain ⟨hresolve, -⟩ := Evaluates.reference_inv hy
    have hy : scope.resolve "arg" = .ok y := (if_neg (by decide)).symm.trans hresolve
    exact ⟨y, hy, (hlike.of_le hs ht hx (hscope.resolve hy)).symm⟩
  · intro h c p n
    have hwithin : ∀ {v : Value}, v.Within Set.univ := Value.within_iff.mpr fun _ _ => Set.mem_univ _
    have : DecidablePred (· ∈ (Set.univ : Set String)) := fun _ => .isTrue trivial
    refine chooses_of_agree hget hwithin hwithin hwithin hx
      ((Scope.agree_arg_iff hscope hx).mpr fun _ => h) ?_
    -- nothing is checked
    rintro fuel _ ⟨-, name, hname⟩
    exact absurd (Set.mem_univ name) hname

/-- What is not selected does not matter. -/
theorem applyIn_conditional_lazy {c p n p' n' : Value}
    (hselected : ∀ cond s₁ condPb s₂ b,
      Run.Finally ((localExecutor handlers).applyIn c (("arg", x) :: scope) x) s cond s₁ →
      Context.Shows ((localExecutor handlers).contexts (("arg", x) :: scope)) cond s₁ condPb s₂ →
      condPb.boolean? = some b → if b then p' = p else n' = n) : Run.EndSame
        ((localExecutor handlers).applyIn (createLambdaForConditional c p' n') scope x) s
        ((localExecutor handlers).applyIn (createLambdaForConditional c p n) scope x) s := by
  refine .of_same (applyIn_conditional_endSame hget c p' n' scope x s)
    (.trans_same ?_ (applyIn_conditional_endSame hget c p n scope x s).same_symm)
  have hmaterialize : ∀ cond, Run.Growing fun k =>
      ((localExecutor handlers).contexts (("arg", x) :: scope) k).materializeValue cond :=
    fun cond => ((localExecutor handlers).contexts_growing _).materializeValue cond
  have hbranches : ∀ (p n condPb : Value), Run.Growing fun k => branchOn condPb
      ((localExecutor handlers).applyIn p (("arg", x) :: scope) x k)
      ((localExecutor handlers).applyIn n (("arg", x) :: scope) x k) :=
    fun p n condPb => branchOn_growing condPb (applyIn_growing p _ x) (applyIn_growing n _ x)
  -- the condition is the same on both sides, and so is what it shows
  refine .bind (applyIn_growing c _ x) (fun cond => (hmaterialize cond).bind (hbranches p' n'))
    (applyIn_growing c _ x) (fun cond => (hmaterialize cond).bind (hbranches p n)) (.refl _ s) ?_
  rintro cond s₁ _ _ hcond - ⟨rfl, rfl⟩
  refine .bind (hmaterialize cond) (hbranches p' n') (hmaterialize cond) (hbranches p n) (.refl _ s₁) ?_
  rintro condPb s₂ _ _ hshow - ⟨rfl, rfl⟩
  have h := hselected cond s₁ condPb s₂
  unfold branchOn
  rcases hb : condPb.boolean? with _ | _ | _
  · exact .refl _ s₂
  -- the branch that is chosen is the same by hypothesis, and the other one is not looked at
  · obtain rfl : n' = n := h false hcond hshow hb
    exact .refl _ s₂
  · obtain rfl : p' = p := h true hcond hshow hb
    exact .refl _ s₂

end

/-- A handler set with one handler. -/
def conditionalOnly : IntrinsicHandlerSet := [⟨"conditional", .controlFlow .conditional⟩]

/-- A function that looks up a name in the scope around it. -/
def givesWord : Value := createLambda "q" (createReference "word")

end GenC
