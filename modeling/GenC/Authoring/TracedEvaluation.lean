import GenC.Authoring.DirectRun
import GenC.Runtime.Locals

/-!
# Evaluating what was traced

The lambda that was traced from a function does what the function does when it is run directly
(**`traceBody_simulates`**). Evaluation goes through the locals once, while the function may come back to
a local at any time, so what the locals stand for is stated at every point where they are in scope, as
`Lib/Naming.lean` does for definitions in general.
-/

namespace GenC

open Lib TracingContext

/-! ## Totality -/

/-- Variables that are bound to IR, and to data. -/
structure Corresponds (xs : List PyVariable) (frames : IrFrames) (data : DataFrames)
    (R : Value → Value → Prop) : Prop where
  results : frames.head?.map (·.results.length) = data.head?.map (·.results.length)
  find : ∀ x ∈ xs, ∀ d, data.find x = some d → ∃ ir, frames.find x = some ir ∧ R ir d

namespace Corresponds

variable {xs ys : List PyVariable} {frames : IrFrames} {data : DataFrames}
  {R R' : Value → Value → Prop}

theorem mono (h : Corresponds xs frames data R) (hxs : ys ⊆ xs) (hR : ∀ {ir d}, R ir d → R' ir d) :
    Corresponds ys frames data R' where
  results := h.results
  find x hx d hd := by
    obtain ⟨ir, hir, hR'⟩ := h.find x (hxs hx) d hd
    exact ⟨ir, hir, hR hR'⟩

theorem push (h : Corresponds xs frames data R) (ir : Value) {d : Value} (hR : R ir d) :
    Corresponds xs (frames.push ir) (data.push d) R := by
  obtain ⟨hresults, hfind⟩ := h
  cases data with
  | nil =>
      cases frames with
      | nil => exact ⟨rfl, hfind⟩
      | cons => cases hresults
  | cons dataFrame dataOuter =>
      cases frames with
      | nil => cases hresults
      | cons frame outer =>
          have hlen : frame.results.length = dataFrame.results.length := Option.some.inj hresults
          refine ⟨?_, fun x hx d' hd' => ?_⟩
          · show some (frame.results ++ [ir]).length = some (dataFrame.results ++ [d]).length
            rw [List.length_append, List.length_append, hlen]
            rfl
          obtain ⟨depth, source, i⟩ := x
          cases depth with
          | succ depth => exact hfind _ hx d' hd'
          | zero =>
              cases source with
              | parameter => exact hfind _ hx d' hd'
              | result =>
                  -- an old result, or the new one
                  rcases getElem?_concat_cases hd' with hold | ⟨rfl, rfl⟩
                  · obtain ⟨ir', hir', hR'⟩ := hfind ⟨0, .result, i⟩ hx d' hold
                    exact ⟨ir', Frames.find_push_of_find hir', hR'⟩
                  · refine ⟨ir, ?_, hR⟩
                    show (frame.results ++ [ir])[dataFrame.results.length]? = some ir
                    rw [← hlen, List.getElem?_concat_length]

/-- A definition changes no variables. -/
theorem pushFunction (h : Corresponds xs frames data R) (f : TracedFunction) (direct : DirectFunction) :
    Corresponds xs (frames.pushFunction f) (data.pushFunction direct) R where
  results := by
    obtain ⟨hresults, -⟩ := h
    cases frames <;> cases data <;> exact hresults
  find x hx d hd := by
    obtain ⟨ir, hir, hR⟩ := h.find x hx d (Frames.find_pushFunction.symm.trans hd)
    exact ⟨ir, Frames.find_pushFunction.trans hir, hR⟩

/-- Inside of a definition, the variables are its parameters and those around it. -/
theorem inner {inner : PyBody} {functions : Frames Unit (List PyVariable)} {irs ds : List Value}
    (hparameters : ∀ (i : Nat) d, ds[i]? = some d → ∃ ir, irs[i]? = some ir ∧ R ir d)
    (h : ∀ x ∈ inner.captured functions, ∀ d, data.find x = some d →
      ∃ ir, frames.find x = some ir ∧ R ir d) :
    Corresponds (inner.uses (.begin [] :: functions)) (.begin irs :: frames) (.begin ds :: data) R where
  results := rfl
  find := by
    rintro ⟨depth, source, i⟩ hx d hd
    cases depth with
    | zero =>
        cases source with
        | parameter => exact hparameters i d hd
        | result => cases hd
    | succ depth => exact h _ (List.mem_filterMap.mpr ⟨_, hx, rfl⟩) d hd

end Corresponds

/-- What is passed on while tracing and while running. -/
theorem exists_objects {frames : IrFrames} {data : DataFrames} {args : List PyOperand} {ds : List Value}
    {R : Value → Value → Prop} (hargs : List.Forall₂ (PyOperand.Denotes data) args ds)
    (hvars : ∀ x ∈ args.flatMap PyOperand.uses, ∀ d, data.find x = some d →
      ∃ ir, frames.find x = some ir ∧ R ir d) (hlit : ∀ c, R (.scalar {} c) (.scalar {} c)) :
    ∃ objects, PyOperand.objects frames args = .ok objects ∧
      List.Forall₂ (fun object d => ∃ ir, PyObject.toValueProto object = .ok ir ∧ R ir d) objects ds := by
  induction hargs with
  | nil => exact ⟨[], rfl, .nil⟩
  | @cons arg d args ds harg _ ih =>
      obtain ⟨hvar, hvars⟩ := List.forall_mem_append.mp hvars
      obtain ⟨objects, hobjects, hall⟩ := ih hvars
      have hfirst : ∃ object, arg.object frames = .ok object ∧
          ∃ ir, object.toValueProto = .ok ir ∧ R ir d := by
        cases arg with
        | lit l =>
            have hd : l.toValueProto = .ok d := harg
            obtain ⟨c, rfl⟩ := PyLiteral.toValueProto_scalar hd
            exact ⟨.literal l, rfl, _, hd, hlit c⟩
        | var x =>
            obtain ⟨ir, hir, hR⟩ := hvar x (List.mem_singleton_self x) d harg
            refine ⟨.value ir, ?_, ir, rfl, hR⟩
            rw [PyOperand.object, hir]
      obtain ⟨object, hobject, hR⟩ := hfirst
      refine ⟨object :: objects, ?_, .cons hR hall⟩
      rw [PyOperand.objects, hobject, hobjects]
      rfl

section

variable [PythonText]

namespace TracingContext

theorem exists_replaceWithReference (ctx : TracingContext) (object : PyObject) {ir : Value}
    (h : object.toValueProto = .ok ir) : ∃ ref ctx', ctx.replaceWithReference object = .ok (ref, ctx') := by
  unfold replaceWithReference
  rw [h]
  cases ir <;> exact ⟨_, _, rfl⟩

theorem exists_replaceAll {objects : List PyObject} (ctx : TracingContext)
    (h : ∀ object ∈ objects, ∃ ir, object.toValueProto = .ok ir) :
    ∃ refs ctx', ctx.replaceAll objects = .ok (refs, ctx') := by
  induction objects generalizing ctx with
  | nil => exact ⟨[], ctx, rfl⟩
  | cons object objects ih =>
      obtain ⟨⟨ir, hir⟩, hobjects⟩ := List.forall_mem_cons.mp h
      obtain ⟨ref, ctx₁, hfirst⟩ := ctx.exists_replaceWithReference object hir
      obtain ⟨refs, ctx₂, hrest⟩ := ih ctx₁ hobjects
      refine ⟨ref :: refs, ctx₂, ?_⟩
      simp only [replaceAll, hfirst, ok_bind, hrest]
      rfl

theorem exists_call {objects : List PyObject} (ctx : TracingContext) (portableIr : Value)
    (hne : objects ≠ []) (h : ∀ object ∈ objects, ∃ ir, object.toValueProto = .ok ir) :
    ∃ r ctx', ctx.call portableIr objects = .ok (r, ctx') := by
  obtain ⟨refs, ctx₁, hrefs⟩ := ctx.exists_replaceAll h
  obtain ⟨f, ctx₂, hf⟩ := ctx₁.exists_replaceWithReference (.value portableIr) rfl
  obtain ⟨r, ctx₃, hr⟩ :=
    ctx₂.exists_replaceWithReference (.value (createCall f (inputVal refs))) rfl
  refine ⟨r, ctx₃, ?_⟩
  have hempty : objects.isEmpty ≠ true := by rwa [ne_eq, List.isEmpty_iff]
  simp only [call, if_neg hempty, hrefs, ok_bind, hf]
  exact hr

end TracingContext

omit [PythonText] in
theorem length_argList {arity : ArgCount} (h : arity.val ≠ 0) : (argList arity).length = arity.val := by
  unfold argList
  dsimp only
  split
  · rw [List.length_map, List.length_range]
  · rw [List.length_singleton]
    omega

omit [PythonText] in
/-- There is IR for the parameters. -/
theorem exists_parameter {arity : ArgCount} {ds : List Value} (harity : arity.val ≠ 0)
    (hlength : ds.length = arity.val) : ∀ (i : Nat) d, ds[i]? = some d →
      ∃ ir, (argList arity)[i]? = some ir ∧ True := by
  intro i d hd
  have hlt : i < (argList arity).length := by
    rw [length_argList harity, ← hlength]
    exact (List.getElem?_eq_some_iff.mp hd).1
  exact ⟨_, List.getElem?_eq_getElem hlt, trivial⟩

end

/-! ## What references stand for -/

/-- Where a lambda runs: the names that it may refer to besides its locals, and its scope. -/
structure TraceBase where
  names : Set String
  scope : Scope
  state : InlineState
  alive : scope.Alive state

section

variable [ProtoText] [PythonText] {handlers : IntrinsicHandlerSet}

namespace TracingContext

variable {b : TraceBase} {ctx ctx₁ ctx' : TracingContext} {P : ExecutorValue → InlineState → Prop}

/-- What time does not change. -/
def Lasting (P : ExecutorValue → InlineState → Prop) : Prop := ∀ v s s', s ≤ s' → P v s → P v s'

variable (handlers b)

abbrev Knows (ctx : TracingContext) (x : String) (P : ExecutorValue → InlineState → Prop) : Prop :=
  Known localName b.names (Evaluated handlers) b.scope b.state ctx.nameToIr x P

abbrev Evaluates (ctx : TracingContext) (ir : Value) (P : ExecutorValue → InlineState → Prop) : Prop :=
  Evaluable localName Value.Within b.names (Evaluated handlers) b.scope b.state ctx.nameToIr ir P

/-- The locals so far can be evaluated. -/
def Runs (ctx : TracingContext) : Prop :=
  ∃ scope s, Elaborates (Evaluated handlers) ctx.nameToIr b.scope b.state scope s

/-- A reference to something that satisfies `P`. -/
def Refers (ctx : TracingContext) (ref : Value) (P : ExecutorValue → InlineState → Prop) : Prop :=
  ∃ m x, ref = .reference m x ∧ x ∈ ctx.inScope b.names ∧ ctx.Knows handlers b x P

/-- A later context, in which the names keep their meaning. -/
structure Later (ctx ctx' : TracingContext) : Prop where
  le : ctx.Extends ctx'
  runs : ctx.Runs handlers b → ctx'.Runs handlers b
  refers : ∀ {ref P}, Lasting P → ctx.Refers handlers b ref P → ctx'.Refers handlers b ref P

variable {handlers b}

theorem Later.refl (ctx : TracingContext) : Later handlers b ctx ctx :=
  ⟨.refl ctx, fun h => h, fun _ h => h⟩

theorem Later.trans (h : Later handlers b ctx ctx₁) (h' : Later handlers b ctx₁ ctx') :
    Later handlers b ctx ctx' :=
  ⟨h.le.trans h'.le, fun hruns => h'.runs (h.runs hruns),
    fun hP href => h'.refers hP (h.refers hP href)⟩

variable (handlers) in
theorem later_look (ctx : TracingContext) (irs : List Value) : Later handlers b ctx (ctx.look irs) :=
  ⟨ctx.extends_look irs, fun h => h, fun _ h => h⟩

/-- A reference is evaluated by looking its name up. -/
theorem Refers.evaluates {ref : Value} {scope : Scope} {s : InlineState} {p : List (String × Value)}
    (h : ctx.Refers handlers b ref P) (hp : p <+: ctx.nameToIr)
    (hrun : Elaborates (Evaluated handlers) p b.scope b.state scope s)
    (hwithin : ref.Within (visible localName b.names p.length)) :
    ∃ v, (localExecutor handlers).Evaluates ref scope s v s ∧ P v s := by
  obtain ⟨m, x, rfl, -, hknows⟩ := h
  obtain ⟨v, hv, hP⟩ := hknows p hp scope s hrun (Value.within_reference_iff.mp hwithin)
  exact ⟨v, .reference (Scope.resolve_eq_ok_iff.mpr hv), hP⟩

/-- IR that evaluates in every scope in which its names stand for what they do. -/
theorem evaluates_of {ir : Value} (h : ∀ p, p <+: ctx.nameToIr → ∀ scope s, Scope.Alive s scope →
    b.state ≤ s → Elaborates (Evaluated handlers) p b.scope b.state scope s →
    ir.Within (visible localName b.names p.length) →
    ∃ v s', (localExecutor handlers).Evaluates ir scope s v s' ∧ P v s') :
    ctx.Evaluates handlers b ir P := by
  intro p hp scope s hrun hwithin
  have halive := elaborates_alive hrun b.alive
  obtain ⟨v, s', hv, hP⟩ := h p hp scope s halive (hrun.le evaluation.grows) hrun hwithin
  exact ⟨v, s', .of_evaluates hv halive, hP⟩

/-- What a context has to satisfy for its names to be unambiguous. -/
structure Sound (b : TraceBase) (ctx : TracingContext) : Prop where
  distinct : ctx.Distinct
  scope : ctx.Scoped b.names
  fresh : ∀ j < ctx.nameToIr.length, localName j ∉ b.names

omit [ProtoText] in
theorem Sound.of_extends (h : ctx'.Sound b) (hle : ctx.Extends ctx') : ctx.Sound b where
  distinct := h.distinct.of_extends hle
  scope k x ir hk := by
    obtain ⟨rest, hrest⟩ := hle.names
    refine h.scope k x ir ?_
    rw [← hrest, List.getElem?_append_left (List.getElem?_eq_some_iff.mp hk).1]
    exact hk
  fresh j hj := h.fresh j (hj.trans_le hle.names.length_le)

/-- **What is replaced by a reference, is what the reference stands for.** -/
theorem replaceWithReference_refers {object : PyObject} {ref : Value}
    (h : ctx.replaceWithReference object = .ok (ref, ctx')) (hsound : ctx'.Sound b) (hP : Lasting P)
    (hobject : ∀ ir, object.toValueProto = .ok ir → ctx.Refers handlers b ir P ∨
      (∀ m x, ir ≠ .reference m x) ∧ ctx.Evaluates handlers b ir P) :
    Later handlers b ctx ctx' ∧ ctx'.Refers handlers b ref P := by
  obtain ⟨ir, hir, ⟨m, x, rfl, rfl, rfl⟩ | ⟨hne, hlookUp⟩⟩ := replaceWithReference_cases h
  · refine ⟨.refl ctx', ?_⟩
    rcases hobject _ hir with href | ⟨hne, -⟩
    · exact href
    · exact (hne m x rfl).elim
  -- anything but a reference is recorded under a name, and evaluates as it did
  · have heval : ctx.Evaluates handlers b ir P := by
      rcases hobject ir hir with ⟨m, x, rfl, -⟩ | ⟨-, heval⟩
      · exact (hne m x rfl).elim
      · exact heval
    obtain ⟨x, rfl, hnames⟩ := lookUp_names hlookUp hsound.distinct
    refine ⟨⟨replaceWithReference_extends h, ?_, ?_⟩, {}, x, rfl, hnames.mem_visible,
      hnames.known localName_injective evaluation (hP _ _ _) hsound.fresh hsound.scope heval⟩
    · rintro ⟨scope, s, hrun⟩
      exact hnames.elaborates hsound.scope hrun heval
    · rintro ref Q hQ ⟨m, y, rfl, hy, hknows⟩
      exact ⟨m, y, rfl, visible_mono hnames.isPrefix.length_le hy,
        hnames.mono localName_injective evaluation (hQ _ _ _) hsound.fresh hy hknows⟩

/-! ## Calls -/

variable {e : DataEquivalence}

omit [ProtoText] [PythonText] in
theorem lasting_holds (d : Value) : Lasting fun v s => e.Holds v d s := fun _ _ _ hs h => h.of_le hs

omit [PythonText] in
theorem lasting_gives (d r : Value) : Lasting fun f s => e.Gives handlers f d r s :=
  fun _ _ _ hs h => h.of_le hs

variable (handlers b e)

/-- The IR of an operand whose data is `d`: a reference, a parameter among several, or a literal. -/
inductive Denotes (ctx : TracingContext) : Value → Value → Prop where
  | reference {ref d : Value} (h : ctx.Refers handlers b ref fun v s => e.Holds v d s) : Denotes ctx ref d
  | selection {index : Int32} {ds : List Value} {d : Value}
      (h : ctx.Refers handlers b (createReference "arg") fun v s => e.Holds v (createStruct ds) s)
      (hd : ds[index.toUInt32.toNat]? = some d) :
      Denotes ctx (createSelection (createReference "arg") index) d
  | literal {c : Scalar} : Denotes ctx (.scalar {} c) (.scalar {} c)

variable {handlers b e}

namespace Denotes

variable {ir d : Value}

theorem later (h : Denotes handlers b e ctx ir d) (hlater : Later handlers b ctx ctx') :
    Denotes handlers b e ctx' ir d := by
  cases h with
  | reference h => exact .reference (hlater.refers (lasting_holds d) h)
  | selection h hd => exact .selection (hlater.refers (lasting_holds _) h) hd
  | literal => exact .literal

/-- An operand evaluates to a value that holds its data. -/
theorem evaluates (h : Denotes handlers b e ctx ir d) :
    ctx.Evaluates handlers b ir fun v s => e.Holds v d s := by
  refine evaluates_of fun p hp scope s halive _ hrun hwithin => ?_
  cases h with
  | reference h =>
      obtain ⟨v, hv, hholds⟩ := h.evaluates hp hrun hwithin
      exact ⟨v, s, hv, hholds⟩
  | selection h hd =>
      cases hwithin with
      | selection hwithin =>
          obtain ⟨v, hv, hholds⟩ := h.evaluates hp hrun hwithin
          obtain ⟨u, s', hu, hd⟩ := hholds.selection hd
          exact ⟨u, s', hv.selection hu, hd⟩
  | @literal c =>
      obtain ⟨v, s', hv, -, hvalive, hw⟩ : EvaluatesTo handlers (.scalar {} c) scope s (.scalar {} c) :=
        .scalar handlers
      exact ⟨v, s', hv, hvalive, _, hw, e.scalar {} c⟩

/-- So it can be replaced. -/
theorem replaceable (h : Denotes handlers b e ctx ir d) :
    ctx.Refers handlers b ir (fun v s => e.Holds v d s) ∨
      (∀ m x, ir ≠ .reference m x) ∧ ctx.Evaluates handlers b ir fun v s => e.Holds v d s := by
  have heval := h.evaluates
  cases h with
  | reference h => exact .inl h
  | selection => exact .inr ⟨fun _ _ heq => (nomatch heq), heval⟩
  | literal => exact .inr ⟨fun _ _ heq => (nomatch heq), heval⟩

end Denotes

theorem replaceAll_refers {objects : List PyObject} {refs ds : List Value}
    (h : ctx.replaceAll objects = .ok (refs, ctx')) (hsound : ctx'.Sound b)
    (hobjects : List.Forall₂ (fun object d => ∃ ir, PyObject.toValueProto object = .ok ir ∧
      Denotes handlers b e ctx ir d) objects ds) :
    Later handlers b ctx ctx' ∧
      List.Forall₂ (fun ref d => ctx'.Refers handlers b ref fun v s => e.Holds v d s) refs ds := by
  induction objects generalizing ctx refs ds with
  | nil =>
      cases h
      cases hobjects
      exact ⟨.refl ctx', .nil⟩
  | cons object objects ih =>
      obtain ⟨⟨ref, ctx₁⟩, hfirst, h⟩ := ok_of_bind h
      obtain ⟨⟨refs, ctx₂⟩, hrest, h⟩ := ok_of_bind h
      cases h
      cases hobjects with
      | @cons _ d _ ds hobject hobjects =>
          obtain ⟨ir, hir, hdenotes⟩ := hobject
          have hobject : ∀ ir', object.toValueProto = .ok ir' →
              ctx.Refers handlers b ir' (fun v s => e.Holds v d s) ∨
                (∀ m x, ir' ≠ .reference m x) ∧
                  ctx.Evaluates handlers b ir' fun v s => e.Holds v d s := by
            intro ir' hir'
            cases hir.symm.trans hir'
            exact hdenotes.replaceable
          obtain ⟨hlater₁, href⟩ := replaceWithReference_refers hfirst
            (hsound.of_extends (replaceAll_extends hrest)) (lasting_holds d) hobject
          -- the other objects denote the same after the first has been replaced
          have hobjects₁ := hobjects.imp fun object d h => by
            obtain ⟨ir, hir, hd⟩ := h
            exact (⟨ir, hir, hd.later hlater₁⟩ : ∃ ir, PyObject.toValueProto object = .ok ir ∧
              Denotes handlers b e ctx₁ ir d)
          obtain ⟨hlater₂, hrefs⟩ := ih hrest hobjects₁
          exact ⟨hlater₁.trans hlater₂, .cons (hlater₂.refers (lasting_holds d) href) hrefs⟩

/-- A structure of references. -/
theorem evaluates_createStruct {refs ds : List Value} {p : List (String × Value)} {scope : Scope}
    {s : InlineState} (hp : p <+: ctx.nameToIr)
    (hrun : Elaborates (Evaluated handlers) p b.scope b.state scope s)
    (h : List.Forall₂ (fun ref d => ctx.Refers handlers b ref fun v s => e.Holds v d s) refs ds)
    (hwithin : ∀ ref ∈ refs, ref.Within (visible localName b.names p.length)) :
    ∃ vs, (localExecutor handlers).Evaluates (createStruct refs) scope s (.struct vs) s ∧
      List.Forall₂ (fun v d => e.Holds v d s) vs ds := by
  induction h with
  | nil => exact ⟨[], .struct_nil, .nil⟩
  | cons href _ ih =>
      obtain ⟨hfirst, hrest⟩ := List.forall_mem_cons.mp hwithin
      obtain ⟨v, hv, hholds⟩ := href.evaluates hp hrun hfirst
      obtain ⟨vs, hvs, hall⟩ := ih hrest
      exact ⟨v :: vs, hv.struct_cons hvs, .cons hholds hall⟩

/-- The arguments of a call, single or packed. -/
theorem evaluates_inputVal {refs ds : List Value} {p : List (String × Value)} {scope : Scope}
    {s : InlineState} (hp : p <+: ctx.nameToIr)
    (hrun : Elaborates (Evaluated handlers) p b.scope b.state scope s)
    (h : List.Forall₂ (fun ref d => ctx.Refers handlers b ref fun v s => e.Holds v d s) refs ds)
    (hwithin : (inputVal refs).Within (visible localName b.names p.length)) :
    ∃ a, (localExecutor handlers).Evaluates (inputVal refs) scope s a s ∧ e.Holds a (inputVal ds) s := by
  have hrefs := within_of_inputVal hwithin
  have hstruct := evaluates_createStruct hp hrun h hrefs
  cases h with
  | nil =>
      obtain ⟨vs, hvs, hall⟩ := hstruct
      exact ⟨_, hvs, .struct hall⟩
  | cons hfirst hrest =>
      cases hrest with
      | nil => exact hfirst.evaluates hp hrun hwithin
      | cons _ _ =>
          obtain ⟨vs, hvs, hall⟩ := hstruct
          exact ⟨_, hvs, .struct hall⟩

/-- **A call that is traced stands for the result of the call.** -/
theorem call_refers {portableIr ref r : Value} {objects : List PyObject} {ds : List Value}
    (h : ctx.call portableIr objects = .ok (ref, ctx')) (hsound : ctx'.Sound b)
    (hobjects : List.Forall₂ (fun object d => ∃ ir, PyObject.toValueProto object = .ok ir ∧
      Denotes handlers b e ctx ir d) objects ds) (hne : ∀ m x, portableIr ≠ .reference m x)
    (hfunc : ∀ ctx₁, Later handlers b ctx ctx₁ → ctx₁.Evaluates handlers b portableIr
      fun f s => e.Gives handlers f (inputVal ds) r s) :
    Later handlers b ctx ctx' ∧ ctx'.Refers handlers b ref fun v s => e.Holds v r s := by
  obtain ⟨refs, ctx₁, f, ctx₂, hrefs, hf, hcall⟩ := call_cases h
  have hsound₂ := hsound.of_extends (replaceWithReference_extends hcall)
  have hsound₁ := hsound₂.of_extends (replaceWithReference_extends hf)
  -- the arguments get their names first, then the function, then the call
  obtain ⟨hlater₁, hrefs⟩ := replaceAll_refers hrefs hsound₁ hobjects
  obtain ⟨hlater₂, hf⟩ := replaceWithReference_refers hf hsound₂ (lasting_gives (inputVal ds) r) (by
    rintro _ ⟨⟩
    exact .inr ⟨hne, hfunc ctx₁ hlater₁⟩)
  have hrefs₂ := hrefs.imp fun ref d h => hlater₂.refers (lasting_holds d) h
  -- where the names stand for what they should, so does the call
  have heval : ctx₂.Evaluates handlers b (createCall f (inputVal refs)) fun v s => e.Holds v r s := by
    refine evaluates_of fun p hp scope s halive _ hrun hwithin => ?_
    cases hwithin with
    | call hfwithin hawithin =>
        obtain ⟨fv, hfv, hgives⟩ := hf.evaluates hp hrun hfwithin
        obtain ⟨a, ha, hholds⟩ := evaluates_inputVal hp hrun hrefs₂ (hawithin _ rfl)
        obtain ⟨v, s', hv, hr⟩ := hgives.call (le_refl s) hholds
        exact ⟨v, s', hfv.call ha hv, hr⟩
  obtain ⟨hlater₃, hr⟩ := replaceWithReference_refers hcall hsound (lasting_holds r) (by
    rintro _ ⟨⟩
    exact .inr ⟨fun _ _ heq => (nomatch heq), heval⟩)
  exact ⟨(hlater₁.trans hlater₂).trans hlater₃, hr⟩

/-! ## Parameters and captured variables -/

/-- What the scope around the locals binds. -/
theorem refers_base {x : String} {v : ExecutorValue} (hx : x ∈ b.names)
    (hlookup : b.scope.lookup x = some v) (hv : P v b.state) :
    TracingContext.empty.Refers handlers b (createReference x) P := by
  refine ⟨{}, x, rfl, .inl hx, fun p hp scope s hrun _ => ?_⟩
  obtain rfl : p = [] := List.prefix_nil.mp hp
  cases hrun with
  | nil => exact ⟨v, hlookup, hv⟩

/-- The parameters stand for the data that the argument holds. -/
theorem parameters_denote {arity : ArgCount} {ds : List Value} {a : ExecutorValue}
    (hlength : ds.length = arity.val) (hx : "arg" ∈ b.names) (hlookup : b.scope.lookup "arg" = some a)
    (ha : e.Holds a (inputVal ds) b.state) : ∀ (i : Nat) d, ds[i]? = some d →
      ∃ ir, (argList arity)[i]? = some ir ∧ Denotes handlers b e .empty ir d := by
  intro i d hd
  have hlt : i < arity.val := hlength ▸ (List.getElem?_eq_some_iff.mp hd).1
  have harg : TracingContext.empty.Refers handlers b (createReference "arg")
      fun v s => e.Holds v (inputVal ds) s := refers_base hx hlookup ha
  unfold argList
  dsimp only
  split
  · next hmany =>
      have hstruct : inputVal ds = createStruct ds := by
        match ds, hlength with
        | [], _ | _ :: _ :: _, _ => rfl
        | [_], hlength => exact absurd hlength (by rw [List.length_singleton]; omega)
      have hindex : (Int32.ofNat i).toUInt32.toNat = i := by
        have := arity.isLt
        rw [Int32.toUInt32_ofNat', UInt32.toNat_ofNat', Nat.mod_eq_of_lt (by omega)]
      rw [hstruct] at harg
      refine ⟨createSelection (createReference "arg") (Int32.ofNat i), ?_, .selection harg (hindex.symm ▸ hd)⟩
      rw [List.getElem?_map, List.getElem?_range hlt]
      rfl
  · -- the argument itself
    obtain ⟨d', rfl⟩ : ∃ d', ds = [d'] := List.length_eq_one_iff.mp (by omega)
    obtain rfl : i = 0 := by omega
    cases hd
    exact ⟨_, rfl, .reference harg⟩

/-- The names that a function can refer to where it is called: its argument, and what is in scope where
it is defined, apart from its own locals. -/
def namesInside (b : TraceBase) (n k : Nat) : Set String :=
  insert "arg" {x | x ∈ visible localName b.names n ∧ ∀ j < k, x ≠ localName j}

/-! ## Functions -/

variable (handlers e) in
/-- Wherever what the function captures denotes data, its lambda gives what the function returns. -/
def Realizes (f : TracedFunction) (n : Nat) (frames : IrFrames) (data : DataFrames)
    (direct : DirectFunction) : Prop :=
  ∀ (b : TraceBase) (ctx : TracingContext),
    (∀ x ∈ f.captured, ∀ d, data.find (x.inner n) = some d →
      ∃ ir, frames.find (x.inner n) = some ir ∧ Denotes handlers b e ctx ir d) →
    ∀ ds r, direct ds r → ctx.Evaluates handlers b f.portableIr
      fun v s => e.Gives handlers v (inputVal ds) r s

variable (handlers e) in
/-- The functions in scope, while tracing and while running. -/
structure Implements (frames : IrFrames) (data : DataFrames) : Prop where
  functions : frames.head?.map (·.functions.length) = data.head?.map (·.functions.length)
  realizes : ∀ g direct, data.function g = some direct →
    ∃ f, frames.function g = some f ∧ Realizes handlers e f g.depth frames data direct

namespace Implements

variable {frames : IrFrames} {data : DataFrames}

theorem nil : Implements handlers e ([] : IrFrames) ([] : DataFrames) :=
  ⟨rfl, fun _ _ h => absurd h (Option.not_mem_none _)⟩

/-- What a function captures was there before. -/
theorem push (h : Implements handlers e frames data) (hrecorded : frames.Recorded) (ir d : Value) :
    Implements handlers e (frames.push ir) (data.push d) where
  functions := by
    obtain ⟨hfunctions, -⟩ := h
    cases frames <;> cases data <;> exact hfunctions
  realizes g direct hdirect := by
    rw [Frames.function_push] at hdirect ⊢
    obtain ⟨f, hf, hrealizes⟩ := h.realizes g direct hdirect
    refine ⟨f, hf, fun b ctx hcaptured => hrealizes b ctx fun x hx d' hd' => ?_⟩
    obtain ⟨-, hrefers⟩ := hrecorded g f hf
    obtain ⟨ir', hir'⟩ := hrefers.found x hx
    obtain ⟨ir'', hir'', hdenotes⟩ := hcaptured x hx d' (Frames.find_push_of_find hd')
    cases hir''.symm.trans (Frames.find_push_of_find hir')
    exact ⟨ir', hir', hdenotes⟩

theorem pushFunction (h : Implements handlers e frames data) {f : TracedFunction}
    {direct : DirectFunction} (hf : Realizes handlers e f 0 frames data direct) :
    Implements handlers e (frames.pushFunction f) (data.pushFunction direct) := by
  obtain ⟨hfunctions, hrealizes⟩ := h
  -- what a function captured is found as before
  have hfind : ∀ {f' : TracedFunction} {n : Nat} {direct' : DirectFunction},
      Realizes handlers e f' n frames data direct' →
        Realizes handlers e f' n (frames.pushFunction f) (data.pushFunction direct) direct' := by
    intro f' n direct' h b ctx hcaptured
    refine h b ctx fun x hx d hd => ?_
    obtain ⟨ir, hir, hdenotes⟩ := hcaptured x hx d (Frames.find_pushFunction.trans hd)
    exact ⟨ir, Frames.find_pushFunction.symm.trans hir, hdenotes⟩
  have hold : ∀ {g : PyFunction} {direct' : DirectFunction}, data.function g = some direct' →
      ∃ f', (frames.pushFunction f).function g = some f' ∧
        Realizes handlers e f' g.depth (frames.pushFunction f) (data.pushFunction direct) direct' := by
    intro g direct' hdirect
    obtain ⟨f', hf', h⟩ := hrealizes g direct' hdirect
    exact ⟨f', Frames.function_pushFunction_of_function hf', hfind h⟩
  cases data with
  | nil =>
      cases frames with
      | nil => exact ⟨rfl, fun _ _ hdirect => hold hdirect⟩
      | cons => cases hfunctions
  | cons dataFrame dataOuter =>
      cases frames with
      | nil => cases hfunctions
      | cons frame outer =>
          -- both sides number the functions alike, so the new one has the same number
          have hlen : frame.functions.length = dataFrame.functions.length := Option.some.inj hfunctions
          refine ⟨?_, fun g direct' hdirect => ?_⟩
          · show some (frame.functions ++ [f]).length = some (dataFrame.functions ++ [direct]).length
            rw [List.length_append, List.length_append, hlen]
            rfl
          obtain ⟨depth, i⟩ := g
          cases depth with
          | succ depth => exact hold (g := ⟨depth + 1, i⟩) hdirect
          | zero =>
              rcases getElem?_concat_cases hdirect with hdirect | ⟨rfl, rfl⟩
              · exact hold (g := ⟨0, i⟩) hdirect
              · refine ⟨f, ?_, hfind hf⟩
                show (frame.functions ++ [f])[dataFrame.functions.length]? = some f
                rw [← hlen, List.getElem?_concat_length]

/-- What is around a definition is one function further out. -/
theorem begin (h : Implements handlers e frames data) (irs ds : List Value) :
    Implements handlers e (.begin irs :: frames) (.begin ds :: data) where
  functions := rfl
  realizes g direct hdirect := by
    obtain ⟨_ | depth, i⟩ := g
    · cases hdirect
    · obtain ⟨f, hf, hrealizes⟩ := h.realizes ⟨depth, i⟩ direct hdirect
      exact ⟨f, hf, hrealizes⟩

end Implements

/-- **A function that is defined inside of another one gives what it gives on data**, if its trace does
so wherever its locals run and its definition is hygienic. -/
theorem tracedLambda_gives {inner : PyBody} {arity : ArgCount} {frames : IrFrames} {data : DataFrames}
    {result r : Value} {innerCtx : TracingContext} {ds : List Value}
    (haccounts : Accounts (.begin (argList arity) :: frames)
      (inner.uses (.begin [] :: frames.captures)) .empty result innerCtx)
    (hdistinct : innerCtx.Distinct) (hlength : ds.length = arity.val)
    (hhyg : Hygienic inner frames innerCtx)
    (hcaptured : ∀ x ∈ inner.captured frames.captures, ∀ d, data.find x = some d →
      ∃ ir, frames.find x = some ir ∧ Denotes handlers b e ctx ir d)
    (ih : ∀ b' : TraceBase, innerCtx.Sound b' →
      Corresponds (inner.uses (.begin [] :: frames.captures)) (.begin (argList arity) :: frames)
        (.begin ds :: data) (Denotes handlers b' e .empty) →
      innerCtx.Runs handlers b' ∧ Denotes handlers b' e innerCtx result r) :
    ctx.Evaluates handlers b (tracedLambda result innerCtx)
      fun f s => e.Gives handlers f (inputVal ds) r s := by
  refine evaluates_of fun p hp scope s halive _ hrun hwithin =>
    ⟨_, s, .lambda, .lambda halive, fun {s' a} hs ha => ?_⟩
  let b' : TraceBase := ⟨namesInside b p.length innerCtx.nameToIr.length, ("arg", a) :: scope, s',
    (halive.of_le hs).cons ha.alive⟩
  have hvisible := ((tracedLambda_refersTo hhyg haccounts).within_iff _).mp hwithin
  have hbase : b'.names ⊆ TracingContext.empty.inScope b'.names := fun x hx => .inl hx
  -- no captured variable has the name of a local
  have hinside : ∀ x ∈ inner.captured frames.captures, ∀ ir, frames.find x = some ir →
      ir.Within b'.names := by
    intro x hx ir hir
    have hxVisible := hvisible x hx ir hir
    obtain ⟨j, rfl, hj⟩ := hhyg x hx ir hir
    refine .reference (.inr ⟨Value.within_reference_iff.mp hxVisible, fun i hi heq => ?_⟩)
    have hji : j = i := localName_injective heq
    omega
  have hparameters : ∀ ir ∈ argList arity, ir.Within b'.names := fun ir hir =>
    (argList_within arity ir hir).mono (Set.singleton_subset_iff.mpr (Set.mem_insert _ _))
  obtain ⟨hscoped, hresult⟩ := haccounts.wellScoped b'.names
    (Frames.forall_captured (fun ir hir => (hparameters ir hir).mono hbase)
      fun x hx ir hir => (hinside x hx ir hir).mono hbase)
    fun _ _ _ h => absurd h (Option.not_mem_none _)
  have hsound : innerCtx.Sound b' := by
    refine ⟨hdistinct, hscoped, fun j hj hmem => ?_⟩
    rcases hmem with harg | ⟨-, hne⟩
    · exact localName_ne_arg j harg
    · exact hne j hj rfl
  have hcorresponds : Corresponds (inner.uses (.begin [] :: frames.captures))
      (.begin (argList arity) :: frames) (.begin ds :: data) (Denotes handlers b' e .empty) := by
    refine .inner (parameters_denote hlength (Set.mem_insert _ _) List.lookup_cons_self ha)
      fun x hx d hd => ?_
    obtain ⟨ir, hir, hdenotes⟩ := hcaptured x hx d hd
    have hxVisible := hvisible x hx ir hir
    have hxInside := hinside x hx ir hir
    obtain ⟨j, rfl, -⟩ := hhyg x hx ir hir
    cases hdenotes with
    | reference href =>
        obtain ⟨m, y, heq, -, hknows⟩ := href
        cases heq
        obtain ⟨v, hv, hholds⟩ := hknows p hp scope s hrun (Value.within_reference_iff.mp hxVisible)
        refine ⟨_, hir, .reference (refers_base (Value.within_reference_iff.mp hxInside) ?_
          (hholds.of_le hs))⟩
        rw [List.lookup_cons, beq_false_of_ne (localName_ne_arg j)]
        exact hv
  obtain ⟨⟨scope', s₁, hlocals⟩, hdenotes⟩ := ih b' hsound hcorresponds
  obtain ⟨v, s₂, hv, hholds⟩ :=
    hdenotes.evaluates innerCtx.nameToIr List.prefix_rfl scope' s₁ hlocals hresult
  refine ⟨v, s₂, .lambda ?_, hholds⟩
  dsimp only
  split
  · next hempty =>
      rw [List.isEmpty_iff.mp hempty] at hlocals
      cases hlocals with
      | nil => exact hv.1
  · exact evaluates_block hlocals hv.1

/-! ## Bodies -/

/-- A call, of a computation or of a function that gives `r` from here on: what comes after it runs
where the variables still stand for the data, and the result stands for `r`. -/
theorem call_corresponds {frames : IrFrames} {data : DataFrames} {args : List PyOperand}
    {ds : List Value} {objects : List PyObject} {c ref r : Value} {ys : List PyVariable}
    (hargs : List.Forall₂ (PyOperand.Denotes data) args ds)
    (hobjects : PyOperand.objects frames args = .ok objects)
    (hcalled : ctx.call c objects = .ok (ref, ctx₁)) (hsound : ctx₁.Sound b)
    (hne : ∀ m x, c ≠ .reference m x)
    (hfunc : ∀ ctx₁, Later handlers b ctx ctx₁ → ctx₁.Evaluates handlers b c
      fun f s => e.Gives handlers f (inputVal ds) r s)
    (hframes : Corresponds (args.flatMap PyOperand.uses ++ ys) frames data (Denotes handlers b e ctx)) :
    Later handlers b ctx ctx₁ ∧
      Corresponds ys (frames.push ref) (data.push r) (Denotes handlers b e ctx₁) := by
  obtain ⟨_, hobjects', hdenote⟩ := exists_objects hargs
    (fun x hx => hframes.find x (List.mem_append_left _ hx)) fun _ => .literal
  obtain rfl := Except.ok.inj (hobjects'.symm.trans hobjects)
  obtain ⟨hlater, href⟩ := call_refers hcalled hsound hdenote hne hfunc
  have hrest := hframes.mono (List.subset_append_right _ ys) fun h => h.later hlater
  exact ⟨hlater, hrest.push _ (.reference href)⟩

/-- **The trace of a function simulates it**: where its variables stand for the data and the functions in
scope for what they do, its locals can be evaluated, and what is returned stands for what the function
returns on the data. -/
theorem traceBody_simulates {body : PyBody} {frames : IrFrames} {data : DataFrames} {res r : Value}
    (hruns : body.Runs (e.DirectCall handlers) data r)
    (htrace : traceBody body frames ctx = .ok (res, ctx')) (hsound : ctx'.Sound b)
    (hclosed : ∀ c ∈ body.computations, c.Within ∅ ∧ e.Deterministic handlers c)
    (hhyg : body.EachDefinition Hygienic frames ctx) (hctx : ctx.Runs handlers b)
    (hrecorded : frames.Recorded) (himplements : Implements handlers e frames data)
    (hframes : Corresponds (body.uses frames.captures) frames data (Denotes handlers b e ctx)) :
    ctx'.Runs handlers b ∧ Denotes handlers b e ctx' res r := by
  induction body generalizing b frames data ctx ctx' res r with
  | ret x =>
      obtain ⟨hres, rfl⟩ := traceBody_ret_cases htrace
      obtain ⟨ir, hir, hdenotes⟩ := hframes.find x (List.mem_singleton_self x) r hruns
      cases hres.symm.trans hir
      exact ⟨hctx, hdenotes⟩
  | call c args rest ih =>
      obtain ⟨-, ds, d, hargs, hcall, hruns⟩ := hruns
      obtain ⟨objects, ref, ctx₁, hobjects, hcalled, hrest⟩ := traceBody_call_cases htrace
      obtain ⟨⟨hwithin, hdeterministic⟩, hclosed⟩ := List.forall_mem_cons.mp hclosed
      -- a closed computation is no reference
      have hne : ∀ m x, c ≠ .reference m x := by
        rintro m x rfl
        exact Value.within_reference_iff.mp hwithin
      have hfunc : ∀ ctx₁, Later handlers b ctx ctx₁ → ctx₁.Evaluates handlers b c
          fun f s => e.Gives handlers f (inputVal ds) d s := fun ctx₁ _ =>
        evaluates_of fun _ _ scope s halive _ _ _ => hdeterministic _ _ hcall scope s halive
      obtain ⟨hlater, hframesRest⟩ := call_corresponds hargs hobjects hcalled
        (hsound.of_extends (traceBody_extends hrest)) hne hfunc hframes
      exact ih hruns hrest hsound hclosed (hhyg _ hobjects _ hcalled) (hlater.runs hctx)
        (hrecorded.push ref) (himplements.push hrecorded ref d) (by rwa [Frames.captures_push])
  | define arity inner rest ihInner ih =>
      obtain ⟨-, hruns⟩ := hruns
      obtain ⟨result, innerCtx, hfunction, hrest⟩ := traceBody_define_cases htrace
      obtain ⟨hhygienic, hhygInner, hhygRest⟩ := hhyg (result, innerCtx) hfunction
      obtain ⟨-, hinner⟩ := traceFunction_cases hfunction
      obtain ⟨hclosedInner, hclosed⟩ := List.forall_mem_append.mp hclosed
      -- The names of the inner function are distinct as those of the whole trace are.
      have hdistinctInner : innerCtx.Distinct :=
        (hsound.of_extends (traceBody_extends hrest)).distinct.of_look rfl
      have haccounts := traceBody_accounts hinner hdistinctInner (fun c hc => (hclosedInner c hc).1)
        hhygInner (hrecorded.begin _)
      have hrealizes : Realizes handlers e (inner.traced frames result innerCtx) 0 frames data
          fun ds r => ds.length = arity.val ∧
            inner.Runs (e.DirectCall handlers) (.begin ds :: data) r := by
        rintro b₁ ctx₁ hcaptured ds r ⟨hlength, hrunsInner⟩
        exact tracedLambda_gives haccounts hdistinctInner hlength hhygienic hcaptured
          fun b' hsound' hcorresponds => ihInner hrunsInner hinner hsound' hclosedInner hhygInner
            ⟨_, _, .nil⟩ (hrecorded.begin _) (himplements.begin _ _) hcorresponds
      have hframesRest := (hframes.mono (fun _ hx => hx) fun h => h.later (later_look handlers ctx
        innerCtx.looked)).pushFunction (inner.traced frames result innerCtx) fun ds r =>
          ds.length = arity.val ∧ inner.Runs (e.DirectCall handlers) (.begin ds :: data) r
      exact ih hruns hrest hsound hclosed hhygRest hctx
        (hrecorded.pushFunction (fun _ _ heq => by cases heq) (tracedLambda_refersTo hhygienic haccounts))
        (himplements.pushFunction hrealizes) (by rwa [Frames.captures_pushFunction])
  | apply g args rest ih =>
      obtain ⟨direct, ds, d, hdirect, hargs, hcall, hruns⟩ := hruns
      obtain ⟨f, objects, ref, ctx₁, hf, hobjects, hcalled, hrest⟩ := traceBody_apply_cases htrace
      obtain ⟨f', hf', hrealizes⟩ := himplements.realizes g direct hdirect
      cases hf'.symm.trans hf
      rw [PyBody.uses, Frames.function_captures hf] at hframes
      -- what the function captures still denotes the same wherever it is called later
      have hfunc : ∀ ctx₁, Later handlers b ctx ctx₁ → ctx₁.Evaluates handlers b f.portableIr
          fun v s => e.Gives handlers v (inputVal ds) d s := by
        refine fun ctx₁ hlater => hrealizes b ctx₁ (fun x hx d' hd' => ?_) ds d hcall
        obtain ⟨ir, hir, h⟩ :=
          hframes.find _ (List.mem_append_left _ (List.mem_map_of_mem hx)) d' hd'
        exact ⟨ir, hir, h.later hlater⟩
      obtain ⟨hlater, hframesRest⟩ := call_corresponds hargs hobjects hcalled
        (hsound.of_extends (traceBody_extends hrest)) (hrecorded g f hf).1 hfunc
        (hframes.mono (List.subset_append_right _ _) fun h => h)
      exact ih hruns hrest hsound hclosed (hhyg _ hf _ hobjects _ hcalled) (hlater.runs hctx)
        (hrecorded.push ref) (himplements.push hrecorded ref d) (by rwa [Frames.captures_push])

end TracingContext

end

end GenC
