import GenC.Authoring.Tracing

/-!
# Hygiene

Every trace names its parameter `arg` and its locals from `v_0` on, and a function that is defined inside
of another one refers to the variables around it by their IR as it is. So its lambda can capture them, and
so can the lambda of a second function that calls it, into which it is put as it is.
**`tracing_hygiene_iff`** says exactly when neither happens: where no such function uses a parameter of a
function around it, neither itself nor through a function that it calls, and the intermediate results that
it uses so were named later than as many locals as it has itself. Otherwise the value that the Python
closure denotes and that of the lambda can differ (`tracing_captures_argument`).
-/

namespace GenC

open Lib TracingContext

/-- What the IR of a variable can be. -/
inductive VariableIr : Value → Prop where
  | argument : VariableIr (createReference "arg")
  | selection (index : Int32) : VariableIr (createSelection (createReference "arg") index)
  | result (j : Nat) : VariableIr (createReference (localName j))

theorem variableIr_argList (arity : ArgCount) : ∀ ir ∈ argList arity, VariableIr ir := by
  intro ir hir
  unfold argList at hir
  dsimp only at hir
  split at hir
  · obtain ⟨i, -, rfl⟩ := List.mem_map.mp hir
    exact .selection _
  · rw [List.mem_singleton.mp hir]
    exact .argument

section

variable [PythonText]

/-- Nothing that a definition captures, itself or through a function that it calls, is bound by its lambda:
neither by the parameter nor by a local. -/
def NoCapture (inner : PyBody) (frames : IrFrames) (innerCtx : TracingContext) : Prop :=
  ∀ x ∈ inner.captured frames.captures, ∀ ir, frames.find x = some ir →
    ir.Within {name | name ≠ "arg" ∧ name ∉ innerCtx.nameToIr.map Prod.fst}

instance NoCapture.decidable (inner : PyBody) (frames : IrFrames) (innerCtx : TracingContext) :
    Decidable (NoCapture inner frames innerCtx) :=
  have _ (ir : Value) :
      Decidable (ir.Within {name | name ≠ "arg" ∧ name ∉ innerCtx.nameToIr.map Prod.fst}) :=
    decidable_of_iff (∀ name ∈ ir.freeNames, name ≠ "arg" ∧ name ∉ innerCtx.nameToIr.map Prod.fst)
      Value.within_iff.symm
  inferInstanceAs (Decidable (∀ x ∈ inner.captured frames.captures, ∀ ir, frames.find x = some ir →
    ir.Within {name | name ≠ "arg" ∧ name ∉ innerCtx.nameToIr.map Prod.fst}))

namespace TracingContext

variable {ctx ctx' : TracingContext}

/-- The locals of a context are the first names. -/
theorem mem_names_iff (ctx : TracingContext) {j : Nat} :
    localName j ∈ ctx.nameToIr.map Prod.fst ↔ j < ctx.nameToIr.length := by
  constructor
  · intro h
    obtain ⟨item, hitem, hname⟩ := List.mem_map.mp h
    obtain ⟨k, hk⟩ := List.mem_iff_getElem?.mp hitem
    have hkj : k = j := localName_injective ((ctx.names k _ _ hk).symm.trans hname)
    exact hkj ▸ (List.getElem?_eq_some_iff.mp hk).1
  · intro h
    have hname := ctx.names j _ _ (List.getElem?_eq_getElem h)
    exact List.mem_map.mpr ⟨_, List.getElem_mem h, hname⟩

/-- What is looked up becomes a local. -/
theorem variableIr_lookUp (ctx : TracingContext) (ir : Value) : VariableIr (ctx.lookUp ir).1 := by
  unfold lookUp
  rcases ctx.lookup_irStrToName (str ir) with ⟨item, hitem, -, hlookup⟩ | ⟨-, hlookup⟩
  · obtain ⟨k, hk⟩ := List.mem_iff_getElem?.mp hitem
    rw [hlookup, ctx.names k _ _ hk]
    exact .result k
  · rw [hlookup]
    exact .result _

theorem variableIr_call {portableIr r : Value} {args : List PyObject}
    (h : ctx.call portableIr args = .ok (r, ctx')) : VariableIr r := by
  obtain ⟨_, _, _, ctx₂, -, -, hcall⟩ := call_cases h
  obtain ⟨ir, hir, ⟨_, _, rfl, -, -⟩ | ⟨-, hlookUp⟩⟩ := replaceWithReference_cases hcall
  · cases hir
  · have hvariable := ctx₂.variableIr_lookUp ir
    rwa [hlookUp] at hvariable

end TracingContext

/-- Hygiene is that nothing is captured. -/
theorem noCapture_iff_hygienic {inner : PyBody} {frames : IrFrames} {innerCtx : TracingContext}
    (hframes : ∀ x ir, frames.find x = some ir → VariableIr ir) :
    NoCapture inner frames innerCtx ↔ Hygienic inner frames innerCtx := by
  constructor
  · intro h x hx ir hir
    have hwithin := h x hx ir hir
    cases hframes x ir hir with
    -- a parameter of an outer function is called arg, as the inner one is
    | argument => exact ((Value.within_reference_iff.mp hwithin).1 rfl).elim
    | selection index =>
        cases hwithin with
        | selection hwithin => exact ((Value.within_reference_iff.mp hwithin).1 rfl).elim
    | result j =>
        -- an outer result is not taken for a local, so its number is past those issued
        refine ⟨j, rfl, Nat.le_of_not_lt fun hj => ?_⟩
        exact (Value.within_reference_iff.mp hwithin).2 (innerCtx.mem_names_iff.mpr hj)
  · intro h x hx ir hir
    obtain ⟨j, rfl, hj⟩ := h x hx ir hir
    refine .reference ⟨localName_ne_arg j, fun hmem => ?_⟩
    exact absurd (innerCtx.mem_names_iff.mp hmem) (Nat.not_lt_of_ge hj)

/-- Where a function begins, or has one more result or function. -/
def VariablesIr (frames : IrFrames) : Prop := ∀ (x : PyVariable) ir, frames.find x = some ir → VariableIr ir

namespace VariablesIr

variable {frames : IrFrames}

omit [PythonText] in
theorem begin (h : VariablesIr frames) (arity : ArgCount) :
    VariablesIr (.begin (argList arity) :: frames) := by
  rintro ⟨_ | depth, source, i⟩ ir hir
  · cases source with
    | parameter => exact variableIr_argList arity ir (List.mem_of_getElem? hir)
    | result => cases hir
  · exact h ⟨depth, source, i⟩ ir hir

omit [PythonText] in
theorem nil : VariablesIr [] := fun _ _ h => absurd h (Option.not_mem_none _)

omit [PythonText] in
theorem push (h : VariablesIr frames) {r : Value} (hr : VariableIr r) : VariablesIr (frames.push r) := by
  intro x ir hir
  rcases Frames.find_push hir with rfl | hir
  · exact hr
  · exact h x ir hir

omit [PythonText] in
theorem pushFunction (h : VariablesIr frames) (f : TracedFunction) :
    VariablesIr (frames.pushFunction f) :=
  fun x ir hir => h x ir (Frames.find_pushFunction.symm.trans hir)

end VariablesIr

/-- In all the definitions of a function. -/
theorem eachDefinition_noCapture_iff {body : PyBody} {frames : IrFrames} {ctx : TracingContext}
    (hframes : VariablesIr frames) :
    body.EachDefinition NoCapture frames ctx ↔ body.EachDefinition Hygienic frames ctx := by
  induction body generalizing frames ctx with
  | ret => exact Iff.rfl
  | call portableIr args rest ih =>
      exact forall_congr' fun objects => forall_congr' fun _ => forall_congr' fun called =>
        forall_congr' fun hcall => ih (hframes.push (variableIr_call hcall))
  | define arity inner rest ihInner ih =>
      exact forall_congr' fun traced => forall_congr' fun _ =>
        and_congr (noCapture_iff_hygienic hframes)
          (and_congr (ihInner (hframes.begin arity)) (ih (hframes.pushFunction _)))
  | apply g args rest ih =>
      exact forall_congr' fun f => forall_congr' fun _ => forall_congr' fun objects =>
        forall_congr' fun _ => forall_congr' fun called =>
          forall_congr' fun hcall => ih (hframes.push (variableIr_call hcall))

end

/-! ### An outer result, and an outer parameter -/

/-- `def outer(x): r_0 = identity(x); r_1 = identity(r_0); r_2 = identity(r_1)`, then `def g(y): return r_k`
and `def h(z): return g(g(z))`, both of them traced, then `return h(h("b"))`. -/
def returnsOuterResult (k : Nat) : PyBody :=
  let result (i : Nat) := PyOperand.var ⟨0, .result, i⟩
  .call identityLambda [.var ⟨0, .parameter, 0⟩]
    (.call identityLambda [result 0]
      (.call identityLambda [result 1]
        (.define 1 (.ret ⟨1, .result, k⟩)
          (.define 1 (.apply ⟨1, 0⟩ [.var ⟨0, .parameter, 0⟩] (.apply ⟨1, 0⟩ [result 0] (.ret ⟨0, .result, 1⟩)))
            (.apply ⟨0, 1⟩ [.lit (.str "b")] (.apply ⟨0, 1⟩ [result 3] (.ret ⟨0, .result, 4⟩)))))))

/-- `def outer(x): @traced_computation def inner(y): return x; return inner("b")`. -/
def returnsOuterParameter : PyBody :=
  .define 1 (.ret ⟨1, .parameter, 0⟩) (.apply ⟨0, 0⟩ [.lit (.str "b")] (.ret ⟨0, .result, 0⟩))

section

attribute [local instance] ProtoText.silent PythonText.distinguishing

/-- `r_2` is `v_3`, and the locals of `h` are three: `g` and its calls. -/
theorem returnsOuterResult_hygienic :
    (returnsOuterResult 2).EachDefinition Hygienic [.begin (argList 1)] .empty :=
  (eachDefinition_noCapture_iff (VariablesIr.nil.begin 1)).mp (by decide +kernel)

/-- `r_1` is `v_2`. It is not captured in `g`, which has no locals, but in `h`. -/
example : ¬ ((returnsOuterResult 1).EachDefinition NoCapture [.begin (argList 1)] .empty) := by
  decide +kernel

theorem returnsOuterResult_runs :
    (returnsOuterResult 2).Runs (DataEquivalence.exactly.DirectCall []) [.begin [.ofStr "a"]] (.ofStr "a") := by
  have hidentity := @directCall_identityLambda _ [] (.ofStr "a") .scalar .scalar
  refine ⟨by simp, _, _, .cons rfl .nil, hidentity, by simp, _, _, .cons rfl .nil, hidentity, by simp,
    _, _, .cons rfl .nil, hidentity, by decide, by decide, ?_⟩
  -- whatever `h` is called on, it returns what `g` returns
  refine ⟨_, _, .ofStr "a", rfl, .cons rfl .nil, ⟨rfl, ?_⟩, _, _, .ofStr "a", rfl, .cons rfl .nil,
    ⟨rfl, ?_⟩, rfl⟩
  · exact ⟨_, _, _, rfl, .cons rfl .nil, ⟨rfl, rfl⟩, _, _, _, rfl, .cons rfl .nil, ⟨rfl, rfl⟩, rfl⟩
  · exact ⟨_, _, _, rfl, .cons rfl .nil, ⟨rfl, rfl⟩, _, _, _, rfl, .cons rfl .nil, ⟨rfl, rfl⟩, rfl⟩

/-- The lambda of `inner` refers to its own `arg`. -/
theorem tracedComputation_returnsOuterParameter : tracedComputation 1 returnsOuterParameter =
    .ok (createLambda "arg" (.block {} [("v_0", .ofStr "b"),
      ("v_1", createLambda "arg" (createReference "arg")),
      ("v_2", createCall (createReference "v_1") (createReference "v_0"))] (createReference "v_2"))) := by
  rfl

end

end GenC
