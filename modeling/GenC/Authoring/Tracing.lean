import GenC.Authoring.TracedEvaluation

/-!
# Tracing preserves meaning

What `traced_computation` makes of a function is a computation that does what the function does
(`tracedLambda_computes`). A function that is a sequence of calls can be traced if it runs, and then this
holds without any condition on how its variables are used (**`tracedComputation_materializes`**).
-/

namespace GenC

open Lib TracingContext

namespace PyBody

/-- The calls one after another, each with its arguments, and what is returned. -/
def sequence (calls : List (Value × List PyOperand)) (result : PyVariable) : PyBody :=
  calls.foldr (fun c rest => .call c.1 c.2 rest) (.ret result)

theorem computations_sequence (calls : List (Value × List PyOperand)) (result : PyVariable) :
    (sequence calls result).computations = calls.map Prod.fst := by
  induction calls with
  | nil => rfl
  | cons c calls ih => exact congrArg (c.1 :: ·) ih

/-- There are no definitions in it. -/
theorem eachDefinition_sequence [PythonText] {p : PyBody → IrFrames → TracingContext → Prop}
    {calls : List (Value × List PyOperand)} {result : PyVariable} {frames : IrFrames}
    {ctx : TracingContext} : (sequence calls result).EachDefinition p frames ctx := by
  induction calls generalizing frames ctx with
  | nil => trivial
  | cons c calls ih => exact fun _ _ _ _ => ih

end PyBody

/-- **A sequence of calls that runs can be traced.** -/
theorem exists_traceBody_sequence [PythonText] {direct : Value → Value → Value → Prop}
    {calls : List (Value × List PyOperand)} {result : PyVariable} {frames : IrFrames} {data : DataFrames}
    {out : Value} (h : (PyBody.sequence calls result).Runs direct data out)
    (hframes : Corresponds ((PyBody.sequence calls result).uses frames.captures) frames data
      fun _ _ => True) (ctx : TracingContext) :
    ∃ res ctx', traceBody (.sequence calls result) frames ctx = .ok (res, ctx') := by
  have hconverts : ∀ {objects : List PyObject} {ds : List Value}, List.Forall₂ (fun object d =>
      ∃ ir, PyObject.toValueProto object = .ok ir ∧ True) objects ds →
      ∀ object ∈ objects, ∃ ir, object.toValueProto = .ok ir := by
    intro objects ds hall
    induction hall with
    | nil => exact List.forall_mem_nil _
    | cons hfirst _ ih =>
        obtain ⟨ir, hir, -⟩ := hfirst
        exact List.forall_mem_cons.mpr ⟨⟨ir, hir⟩, ih⟩
  induction calls generalizing frames data ctx with
  | nil =>
      obtain ⟨ir, hir, -⟩ := hframes.find result (List.mem_singleton_self result) out h
      refine ⟨ir, ctx, ?_⟩
      show traceBody (.ret result) frames ctx = .ok (ir, ctx)
      rw [traceBody, hir]
  | cons c calls ih =>
      obtain ⟨hne, ds, d, hargs, -, hrest⟩ := h
      obtain ⟨objects, hobjects, hall⟩ := exists_objects hargs
        (fun x hx => hframes.find x (List.mem_append_left _ hx)) fun _ => trivial
      -- a call is recorded only if it has arguments
      have hobjectsNe : objects ≠ [] := by
        rintro rfl
        cases hall
        exact hne (List.forall₂_nil_right_iff.mp hargs)
      obtain ⟨r, ctx₁, hcall⟩ := ctx.exists_call c.1 hobjectsNe (hconverts hall)
      have hframesRest := hframes.mono (List.subset_append_right _ _) fun h => h
      obtain ⟨res, ctx', htrace⟩ :=
        ih hrest (by rw [Frames.captures_push]; exact hframesRest.push r trivial) ctx₁
      refine ⟨res, ctx', ?_⟩
      show traceBody (.call c.1 c.2 (.sequence calls result)) frames ctx = .ok (res, ctx')
      simp only [traceBody, hobjects, ok_bind, hcall]
      exact htrace

section

variable [ProtoText] [PythonText] {handlers : IntrinsicHandlerSet} {e : DataEquivalence}

omit [ProtoText] in
/-- Where nothing is around a function, it captures nothing. -/
theorem hygienic_nil {body : PyBody} {ctx : TracingContext} : Hygienic body [] ctx :=
  fun _ _ _ h => absurd h (Option.not_mem_none _)

omit [ProtoText] in
theorem tracedComputation_cases {arity : ArgCount} {body : PyBody} {lambda : Value}
    (h : tracedComputation arity body = .ok lambda) :
    ∃ result ctx, traceFunction arity body [] = .ok (result, ctx) ∧ lambda = tracedLambda result ctx := by
  obtain ⟨⟨result, ctx⟩, hfunction, h⟩ := ok_of_bind h
  cases h
  exact ⟨result, ctx, hfunction, rfl⟩

/-- **The lambda of a function computes what the function returns**, if the definitions in it are
hygienic. -/
theorem tracedLambda_computes {arity : ArgCount} {body : PyBody} {result : Value} {ctx : TracingContext}
    (htrace : traceFunction arity body [] = .ok (result, ctx)) (hdistinct : ctx.Distinct)
    (hclosed : ∀ c ∈ body.computations, c.Within ∅ ∧ e.Deterministic handlers c)
    (hhyg : body.EachDefinition Hygienic [.begin (argList arity)] .empty) {ds : List Value} {r : Value}
    (hlength : ds.length = arity.val) (hruns : body.Runs (e.DirectCall handlers) [.begin ds] r) :
    e.Computes handlers (tracedLambda result ctx) (inputVal ds) r := by
  obtain ⟨-, htrace⟩ := traceFunction_cases htrace
  have hrecorded := Frames.Recorded.nil.begin (argList arity)
  have haccounts := traceBody_accounts htrace hdistinct (fun c hc => (hclosed c hc).1) hhyg hrecorded
  have hnone : ∀ x ∈ body.captured [], ∀ ir, Frames.find ([] : IrFrames) x = some ir → False :=
    fun x _ ir h => absurd h (Option.not_mem_none _)
  -- nothing is in scope around the function, so its lambda refers to nothing
  have hwithin : (tracedLambda result ctx).Within ∅ :=
    ((tracedLambda_refersTo hygienic_nil haccounts).within_iff ∅).mpr
      fun x hx ir hir => (hnone x hx ir hir).elim
  intro scope s halive
  -- The trace is evaluated from here on, whatever the scope and the state.
  let b : TraceBase := ⟨∅, scope, s, halive⟩
  have hevaluates : TracingContext.empty.Evaluates handlers b (tracedLambda result ctx)
      fun f s => e.Gives handlers f (inputVal ds) r s :=
    tracedLambda_gives haccounts hdistinct hlength hygienic_nil
      (fun x _ d (h : Frames.find ([] : DataFrames) x = some d) => absurd h (Option.not_mem_none _))
      fun b' hsound hcorresponds => traceBody_simulates hruns htrace hsound hclosed hhyg ⟨_, _, .nil⟩
        hrecorded (Implements.nil.begin _ _) hcorresponds
  obtain ⟨f, s', hf, hgives⟩ :=
    hevaluates [] List.prefix_rfl scope s .nil (hwithin.mono (Set.empty_subset _))
  exact ⟨f, s', hf.1, hgives⟩

omit [PythonText] in
/-- What a client gets from a computation: it is created, called on a handle, and materialized. -/
theorem DataEquivalence.Computes.materializes {c d r : Value} (h : e.Computes handlers c d r)
    (hc : ∀ m, c ≠ .notSet m) {s : ControlFlowState InlineState} {a : ValueId} {v : ExecutorValue}
    (ha : s.table.trackedValues a = some v) (hv : e.Holds v d s.impl) (pb : Value) :
    ∃ fuel f s₁ id s₂ s₃ w, e.same w r ∧ ∀ n ≥ fuel,
      Run.Returns ((controlFlowExecutor (localExecutor handlers) n).createValue c) s f s₁ ∧
      Run.Returns ((controlFlowExecutor (localExecutor handlers) n).createCall f (some a)) s₁ id s₂ ∧
      Run.Returns ((controlFlowExecutor (localExecutor handlers) n).materialize id (some pb)) s₂
        ⟨.ok (), some w⟩ s₃ := by
  obtain ⟨fv, c₁, hf, hgives⟩ := h [] s.impl (fun _ hb => (nomatch hb))
  obtain ⟨hle, -⟩ := hf.yields (fun _ hb => (nomatch hb))
  obtain ⟨u, c₂, hcalls, hholds⟩ := hgives.call (le_refl c₁) (hv.of_le hle)
  obtain ⟨w, hw, hsame⟩ := hholds.contents
  obtain ⟨c₃, -, hmaterialize⟩ := constMaterialize_ok handlers hholds.alive hw pb
  obtain ⟨nf, hcreate⟩ := hf.constCreateExecutorValue hc
  obtain ⟨nc, hcalls⟩ := hcalls
  -- two handles are issued on the way, one for the function and one for the result
  let s₁ : ControlFlowState InlineState := BaseState.track { s with impl := c₁ } fv
  let s₂ : ControlFlowState InlineState := BaseState.track { s₁ with impl := c₂ } u
  refine ⟨max nf nc, s.table.nextValueId, s₁, s₁.table.nextValueId, s₂, { s₂ with impl := c₃ }, w,
    hsame, fun n hn => ⟨?_, ?_, ?_⟩⟩
  · exact (hcreate n (by omega)).zoom.bind (ExecutorBase.trackValue_returns fv _)
  · have hftracked := BaseState.tracked_track { s with impl := c₁ } fv
    have hatracked : s₁.table.trackedValues a = some v := HandleTable.trackedValues_trackValue_of_some ha
    have hargument : Run.Returns (ExecutorBase.getTrackedArgument "ControlFlowExecutor" (some a)) s₁
        (some v) s₁ := (ExecutorBase.getTracked_returns hatracked).bind (.pure _ _)
    have hcall := hcalls.mono ((localExecutor handlers).constCreateCall_le (m := n) (by omega) fv _)
    refine (ExecutorBase.getTracked_returns hftracked).bind (hargument.bind ?_)
    exact hcall.zoom.bind (ExecutorBase.trackValue_returns u _)
  · exact (ExecutorBase.getTracked_returns (BaseState.tracked_track _ u)).attempt.bind
      hmaterialize.zoom

/-- **Tracing preserves meaning.** The body of the function is any sequence of calls of closed,
deterministic computations that runs directly, and `str` tells apart what is traced. Then the function can
be traced; and wherever a handle holds its argument, the lambda, called on it, materializes to what the
function returned. -/
theorem tracedComputation_materializes {arity : ArgCount} {calls : List (Value × List PyOperand)}
    {result : PyVariable} {ds : List Value} {r : Value} (harity : arity.val ≠ 0)
    (hlength : ds.length = arity.val)
    (hclosed : ∀ c ∈ calls, c.1.Within ∅ ∧ e.Deterministic handlers c.1)
    (hdistinct : ∀ res ctx, traceFunction arity (.sequence calls result) [] = .ok (res, ctx) →
      ctx.Distinct)
    (hruns : (PyBody.sequence calls result).Runs (e.DirectCall handlers) [.begin ds] r) :
    ∃ lambda, tracedComputation arity (.sequence calls result) = .ok lambda ∧
      ∀ (s : ControlFlowState InlineState) (a : ValueId) (v : ExecutorValue),
        s.table.trackedValues a = some v → e.Holds v (inputVal ds) s.impl → ∀ pb : Value,
          ∃ fuel f s₁ id s₂ s₃ w, e.same w r ∧ ∀ n ≥ fuel,
            Run.Returns ((controlFlowExecutor (localExecutor handlers) n).createValue lambda) s f s₁ ∧
            Run.Returns ((controlFlowExecutor (localExecutor handlers) n).createCall f (some a))
              s₁ id s₂ ∧
            Run.Returns ((controlFlowExecutor (localExecutor handlers) n).materialize id (some pb))
              s₂ ⟨.ok (), some w⟩ s₃ := by
  have hcomputations : ∀ c ∈ (PyBody.sequence calls result).computations,
      c.Within ∅ ∧ e.Deterministic handlers c := by
    rw [PyBody.computations_sequence]
    exact List.forall_mem_map.mpr hclosed
  let frames : IrFrames := [.begin (argList arity)]
  have hframes : Corresponds ((PyBody.sequence calls result).uses frames.captures) frames
      [.begin ds] fun _ _ => True :=
    .inner (exists_parameter harity hlength) fun _ _ _ h => absurd h (Option.not_mem_none _)
  obtain ⟨res, ctx, htrace⟩ := exists_traceBody_sequence hruns hframes .empty
  have hfunction : traceFunction arity (.sequence calls result) [] = .ok (res, ctx) := by
    rw [traceFunction, if_neg harity]
    exact htrace
  have hcomputes := tracedLambda_computes hfunction (hdistinct res ctx hfunction) hcomputations
    PyBody.eachDefinition_sequence hlength hruns
  refine ⟨tracedLambda res ctx, ?_, fun s a v ha hv pb => ?_⟩
  · rw [tracedComputation, hfunction]
    rfl
  · exact hcomputes.materializes (fun _ heq => by cases heq) ha hv pb

end

/-! ### Sharing and packing -/

/-- `λ arg. arg`. On several arguments it gives the structure of them. -/
def identityLambda : Value := createLambda "arg" (createReference "arg")

theorem identityLambda_within : identityLambda.Within ∅ := .lambda (.reference (Set.mem_insert _ _))

section

variable [ProtoText] {handlers : IntrinsicHandlerSet} {e : DataEquivalence}

theorem calls_identityLambda (a : ExecutorValue) (scope : Scope) (s : InlineState) :
    (localExecutor handlers).Calls (.lambda ⟨"arg", createReference "arg"⟩ scope) a s a s :=
  .lambda (.reference rfl)

/-- It gives what it is given, and nothing else. -/
theorem deterministic_identityLambda : e.Deterministic handlers identityLambda := by
  rintro d r ⟨s, f, s₁, s₂, a, v, s₃, hf, -, ha, hv, hr⟩ scope s' halive
  obtain ⟨rfl, rfl⟩ := hf.unique .lambda
  obtain ⟨rfl, rfl⟩ := hv.unique (calls_identityLambda a [] s₂)
  obtain ⟨w, hw, hd⟩ := ha.contents
  obtain ⟨w', hw', hr⟩ := hr.contents
  obtain rfl : w = w' := Except.ok.inj (Option.some.inj (hw.symm.trans hw'))
  refine ⟨_, s', .lambda, .lambda halive, fun {s'' a'} _ ha' => ?_⟩
  obtain ⟨u, hu, hud⟩ := ha'.contents
  exact ⟨a', s'', calls_identityLambda a' scope s'', ha'.alive, u, hu,
    e.trans (e.trans hud (e.symm hd)) hr⟩

theorem directCall_identityLambda {d : Value} (hd : d.Materialized) (hbare : d.Bare) :
    DataEquivalence.exactly.DirectCall handlers identityLambda d d := by
  obtain ⟨a, s, -, -, halive, hw⟩ := evaluatesTo_bareStructs handlers hd [] localInitial.impl
  rw [(Value.bareStructs_eq_self_iff hd).mpr hbare] at hw
  have hholds : DataEquivalence.exactly.Holds a d s := ⟨halive, d, hw, rfl⟩
  exact ⟨s, _, s, s, a, a, s, .lambda, le_refl s, hholds, calls_identityLambda a [] s, hholds⟩

end

/-- `def pairTwice(x, y): p = pair(y, x); q = pair(y, x); return pair(p, q)`, in which `q` is `p`. -/
def pairTwice : List (Value × List PyOperand) :=
  let x := PyOperand.var ⟨0, .parameter, 0⟩
  let y := PyOperand.var ⟨0, .parameter, 1⟩
  let result (i : Nat) := PyOperand.var ⟨0, .result, i⟩
  [(identityLambda, [y, x]), (identityLambda, [y, x]), (identityLambda, [result 0, result 1])]

/-- It is traced, and called on `("a", "b")`. -/
theorem tracedComputation_materializes_pairTwice :
    let _ := ProtoText.silent
    let _ := PythonText.distinguishing
    let exec (n : Nat) := controlFlowExecutor (localExecutor []) n
    let pair (v w : Value) := createStruct [v, w]
    let ba := pair (.ofStr "b") (.ofStr "a")
    ∃ lambda a s, tracedComputation 2 (.sequence pairTwice ⟨0, .result, 2⟩) = .ok lambda ∧
      Run.Returns ((exec 3).createValue (pair (.ofStr "a") (.ofStr "b"))) localInitial a s ∧
      ∃ fuel f s₁ id s₂ s₃, ∀ n ≥ fuel, Run.Returns ((exec n).createValue lambda) s f s₁ ∧
        Run.Returns ((exec n).createCall f (some a)) s₁ id s₂ ∧
        Run.Returns ((exec n).materialize id (some default)) s₂ ⟨.ok (), some (pair ba ba)⟩ s₃ := by
  intro _ _ exec pair ba
  have hpair : ∀ {v w : Value}, v.Materialized ∧ v.Bare → w.Materialized ∧ w.Bare →
      (pair v w).Materialized ∧ (pair v w).Bare := by
    rintro v w ⟨hv, hv'⟩ ⟨hw, hw'⟩
    constructor
    · exact .struct (List.forall_mem_cons.mpr ⟨hv, List.forall_mem_singleton.mpr hw⟩)
    · exact .struct (List.forall_mem_cons.mpr ⟨hv', List.forall_mem_singleton.mpr hw'⟩)
  have hstr : ∀ c : String, (Value.ofStr c).Materialized ∧ (Value.ofStr c).Bare :=
    fun _ => ⟨.scalar, .scalar⟩
  have hba := hpair (hstr "b") (hstr "a")
  have hbaba := hpair hba hba
  -- the three calls, on the data
  have hruns : (PyBody.sequence pairTwice ⟨0, .result, 2⟩).Runs
      (DataEquivalence.exactly.DirectCall []) [.begin [.ofStr "a", .ofStr "b"]] (pair ba ba) := by
    have hpairs := @directCall_identityLambda _ [] _ hba.1 hba.2
    have hpairOfPairs := @directCall_identityLambda _ [] _ hbaba.1 hbaba.2
    refine ⟨by simp, _, _, .cons rfl (.cons rfl .nil), hpairs, ?_⟩
    refine ⟨by simp, _, _, .cons rfl (.cons rfl .nil), hpairs, ?_⟩
    exact ⟨by simp, _, _, .cons rfl (.cons rfl .nil), hpairOfPairs, rfl⟩
  obtain ⟨lambda, htrace, h⟩ := tracedComputation_materializes (by decide : (2 : ArgCount).val ≠ 0) rfl
    (by
      intro c hc
      have hid : c.1 = identityLambda := by
        simp only [pairTwice, List.mem_cons, List.not_mem_nil, or_false] at hc
        rcases hc with rfl | rfl | rfl <;> rfl
      rw [hid]
      exact ⟨identityLambda_within, deterministic_identityLambda⟩)
    (fun _ ctx _ => distinct_of_distinguishing ctx) hruns
  obtain ⟨a, s, hcreate⟩ : ∃ a s, Run.Returns ((exec 3).createValue (pair (.ofStr "a") (.ofStr "b")))
      localInitial a s := ⟨_, _, [], rfl⟩
  obtain ⟨v, c, hv, -, halive, rfl, rfl⟩ := evaluates_of_createValue [] hcreate
  -- the pair of strings is data that holds no labels, so it comes back as it is
  have hab := hpair (hstr "a") (hstr "b")
  obtain ⟨v', c', hv', -, -, hw⟩ := evaluatesTo_bareStructs [] hab.1 [] localInitial.impl
  obtain ⟨rfl, rfl⟩ := hv'.unique hv
  rw [(Value.bareStructs_eq_self_iff hab.1).mpr hab.2] at hw
  let t : ControlFlowState InlineState := { localInitial with impl := c' }
  obtain ⟨fuel, f, s₁, id, s₂, s₃, w, rfl, h⟩ := h (t.track v') _ _ (t.tracked_track v')
    ⟨halive, _, hw, rfl⟩ default
  exact ⟨lambda, _, _, htrace, hcreate, fuel, f, s₁, id, s₂, s₃, h⟩

end GenC
