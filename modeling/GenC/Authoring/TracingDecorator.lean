import GenC.Authoring.TracingContext

/-!
# The tracing decorator

`python/authoring/tracing_decorator.py`. A Python function is the sequence of the calls that its body
makes, of computations and of traced functions, and of the definitions of such functions between them. A
function that is defined can be called any number of times, where it is defined and inside of the
functions that are defined after it. Its body can use the variables of the functions around it, so a
variable says how many functions further out it belongs to, and so does the function that is called. A
function is called only: it is not passed on to a computation, and one that returns a function cannot be
traced.

While a function is traced, its variables are IR, and the functions that it defines are computations. A
definition is traced once, where it stands, in a context of its own by which the context around it is not
touched. What is put into the context around it is the lambda, and that where it is called.
-/

namespace GenC

open Lib

/-! ## Python functions -/

inductive PySource where
  | parameter
  | result
  deriving DecidableEq

/-- A parameter, or the result of an earlier call, of the function that is `depth` functions further
out. -/
structure PyVariable where
  depth : Nat
  source : PySource
  index : Nat
  deriving DecidableEq

inductive PyOperand where
  | var (x : PyVariable)
  | lit (l : PyLiteral)

/-- A traced function: one of those that are defined in the function that is `depth` functions further
out, or that is itself where `depth` is 0. -/
structure PyFunction where
  depth : Nat
  index : Nat

/-- The number of parameters of a Python function is an `int` of the interpreter. -/
abbrev ArgCount : Type := Fin (2 ^ 31)

/-- The body of a function. Each call is a result of the function and each definition is one of its
functions, in their order. -/
inductive PyBody where
  /-- `return x` -/
  | ret (x : PyVariable)
  /-- `r = computation(args); rest` -/
  | call (portableIr : Value) (args : List PyOperand) (rest : PyBody)
  /-- `@traced_computation def g(...): inner`, then `rest` -/
  | define (arity : ArgCount) (inner : PyBody) (rest : PyBody)
  /-- `r = g(args); rest` -/
  | apply (g : PyFunction) (args : List PyOperand) (rest : PyBody)

/-- The variables and the functions of one function. -/
structure Frame (α β : Type) where
  parameters : List α
  results : List α
  functions : List β

namespace Frame

variable {α β : Type}

/-- At its beginning, a function has its parameters. -/
def begin (parameters : List α) : Frame α β := ⟨parameters, [], []⟩

def get (frame : Frame α β) : PySource → Nat → Option α
  | .parameter, i => frame.parameters[i]?
  | .result, i => frame.results[i]?

end Frame

/-- What is in scope, that of the function itself first. -/
abbrev Frames (α β : Type) : Type := List (Frame α β)

namespace Frames

variable {α β : Type}

def find (frames : Frames α β) (x : PyVariable) : Option α :=
  frames[x.depth]?.bind fun frame => frame.get x.source x.index

def function (frames : Frames α β) (g : PyFunction) : Option β :=
  frames[g.depth]?.bind fun frame => frame.functions[g.index]?

/-- One more result. -/
def push (r : α) : Frames α β → Frames α β
  | [] => []
  | frame :: outer => { frame with results := frame.results ++ [r] } :: outer

/-- One more function. -/
def pushFunction (f : β) : Frames α β → Frames α β
  | [] => []
  | frame :: outer => { frame with functions := frame.functions ++ [f] } :: outer

end Frames

/-- What `traced_computation` makes of a function: a computation. No code reads the second member: it is
what the function uses of the functions around it, as the one that defines it knows it. -/
structure TracedFunction where
  portableIr : Value
  captured : List PyVariable

/-- What is in scope while a function is traced. -/
abbrev IrFrames : Type := Frames Value TracedFunction

namespace PyVariable

/-- The variable, as the function around this one knows it. -/
def outer? : PyVariable → Option PyVariable
  | ⟨0, _, _⟩ => none
  | ⟨depth + 1, source, index⟩ => some ⟨depth, source, index⟩

/-- The variable, as a function knows it that is defined `n` functions further in. -/
def inner (n : Nat) (x : PyVariable) : PyVariable := { x with depth := x.depth + n }

end PyVariable

namespace PyOperand

def uses : PyOperand → List PyVariable
  | .var x => [x]
  | .lit _ => []

/-- The object that is passed on while the function is traced. -/
def object (frames : IrFrames) : PyOperand → Except String PyObject
  | .var x =>
      match frames.find x with
      | some ir => .ok (.value ir)
      | none => .error "name is not defined"
  | .lit l => .ok (.literal l)

def objects (frames : IrFrames) : List PyOperand → Except String (List PyObject)
  | [] => .ok []
  | arg :: args => do
      let object ← arg.object frames
      let objects ← objects frames args
      return object :: objects

end PyOperand

namespace PyBody

/-- The variables that a body uses, as it knows them: itself, or through a function that it calls. The
frames say what each function in scope uses of the functions around it. -/
def uses : PyBody → Frames Unit (List PyVariable) → List PyVariable
  | .ret x, _ => [x]
  | .call _ args rest, functions => args.flatMap PyOperand.uses ++ rest.uses functions
  | .define _ inner rest, functions =>
      rest.uses (functions.pushFunction
        ((inner.uses (.begin [] :: functions)).filterMap PyVariable.outer?))
  | .apply g args rest, functions =>
      ((functions.function g).getD []).map (PyVariable.inner g.depth) ++
        (args.flatMap PyOperand.uses ++ rest.uses functions)

/-- The variables of the functions around it that the body of a function uses. -/
def captured (inner : PyBody) (functions : Frames Unit (List PyVariable)) : List PyVariable :=
  (inner.uses (.begin [] :: functions)).filterMap PyVariable.outer?

/-- The computations that are called, in the function or in one that is defined in it. -/
def computations : PyBody → List Value
  | .ret _ => []
  | .call portableIr _ rest => portableIr :: rest.computations
  | .define _ inner rest => inner.computations ++ rest.computations
  | .apply _ _ rest => rest.computations

end PyBody

/-- What each function in scope uses of the functions around it. -/
def Frames.captures (frames : IrFrames) : Frames Unit (List PyVariable) :=
  frames.map fun frame => ⟨[], [], frame.functions.map TracedFunction.captured⟩

/-! ## Tracing -/

/-- `arg_list`: a single parameter is the argument, several are selected from it. -/
def argList (arity : ArgCount) : List Value :=
  let arg := createReference "arg"
  if arity.val > 1 then
    (List.range arity.val).map fun index => createSelection arg (Int32.ofNat index)
  else [arg]

section

variable [PythonText]

/-- The lambda, with a block for the locals if there are any. -/
def tracedLambda (result : Value) (ctx : TracingContext) : Value :=
  createLambda "arg"
    (if ctx.nameToIr.isEmpty then result else .block {} ctx.nameToIr result)

/-- The computation that a definition makes of a function. -/
def PyBody.traced (inner : PyBody) (frames : IrFrames) (result : Value) (innerCtx : TracingContext) :
    TracedFunction :=
  ⟨tracedLambda result innerCtx, inner.captured frames.captures⟩

/-- The body of a function, with its context so far: what is returned, and the context afterwards. -/
def traceBody : PyBody → IrFrames → TracingContext → Except String (Value × TracingContext)
  | .ret x, frames, ctx =>
      match frames.find x with
      | some ir => .ok (ir, ctx)
      | none => .error "name is not defined"
  | .call portableIr args rest, frames, ctx => do
      let objects ← PyOperand.objects frames args
      let (r, ctx) ← ctx.call portableIr objects
      traceBody rest (frames.push r) ctx
  | .define arity inner rest, frames, ctx => do
      if arity.val = 0 then throw "At least one parameter is required."
      let (result, innerCtx) ← traceBody inner (.begin (argList arity) :: frames) .empty
      traceBody rest (frames.pushFunction (inner.traced frames result innerCtx)) (ctx.look innerCtx.looked)
  | .apply g args rest, frames, ctx => do
      let some f := frames.function g | throw "name is not defined"
      let objects ← PyOperand.objects frames args
      let (r, ctx) ← ctx.call f.portableIr objects
      traceBody rest (frames.push r) ctx

/-- What a function that is defined where `frames` are in scope returns, and its context. -/
def traceFunction (arity : ArgCount) (body : PyBody) (frames : IrFrames) :
    Except String (Value × TracingContext) :=
  if arity.val = 0 then .error "At least one parameter is required."
  else traceBody body (.begin (argList arity) :: frames) .empty

/-- `traced_computation`, of a function that is not defined inside of another one. -/
def tracedComputation (arity : ArgCount) (body : PyBody) : Except String Value := do
  let (result, ctx) ← traceFunction arity body []
  return tracedLambda result ctx

/-- Every definition inside of a function has the property, with what is in scope around it and the
context that it was traced in. -/
def PyBody.EachDefinition (p : PyBody → IrFrames → TracingContext → Prop) :
    PyBody → IrFrames → TracingContext → Prop
  | .ret _, _, _ => True
  | .call portableIr args rest, frames, ctx =>
      ∀ objects, PyOperand.objects frames args = .ok objects →
        ∀ called, ctx.call portableIr objects = .ok called →
          rest.EachDefinition p (frames.push called.1) called.2
  | .define arity inner rest, frames, ctx =>
      ∀ traced, traceFunction arity inner frames = .ok traced →
        p inner frames traced.2 ∧
          inner.EachDefinition p (.begin (argList arity) :: frames) .empty ∧
          rest.EachDefinition p (frames.pushFunction (inner.traced frames traced.1 traced.2))
            (ctx.look traced.2.looked)
  | .apply g args rest, frames, ctx =>
      ∀ f, frames.function g = some f → ∀ objects, PyOperand.objects frames args = .ok objects →
        ∀ called, ctx.call f.portableIr objects = .ok called →
          rest.EachDefinition p (frames.push called.1) called.2

/-- What is to hold where a step of the trace succeeds. -/
instance Except.decidableForallOk {ε α : Type} {P : α → Prop} [DecidablePred P] :
    (x : Except ε α) → Decidable (∀ a, x = .ok a → P a)
  | .error _ => isTrue fun _ h => by cases h
  | .ok a => decidable_of_iff (P a) ⟨fun h _ heq => Except.ok.inj heq ▸ h, fun h => h a rfl⟩

instance Option.decidableForallSome {α : Type} {P : α → Prop} [DecidablePred P] :
    (x : Option α) → Decidable (∀ a, x = some a → P a)
  | none => isTrue fun _ h => by cases h
  | some a => decidable_of_iff (P a) ⟨fun h _ heq => Option.some.inj heq ▸ h, fun h => h a rfl⟩

/-- It can be checked by tracing. -/
instance PyBody.decidableEachDefinition {p : PyBody → IrFrames → TracingContext → Prop}
    [∀ inner frames ctx, Decidable (p inner frames ctx)] :
    (body : PyBody) → (frames : IrFrames) → (ctx : TracingContext) →
      Decidable (body.EachDefinition p frames ctx)
  | .ret _, _, _ => inferInstanceAs (Decidable True)
  | .call portableIr args rest, frames, ctx =>
      have _ (frames : IrFrames) (ctx : TracingContext) : Decidable (rest.EachDefinition p frames ctx) :=
        decidableEachDefinition rest frames ctx
      inferInstanceAs (Decidable (∀ objects, PyOperand.objects frames args = .ok objects →
        ∀ called, ctx.call portableIr objects = .ok called →
          rest.EachDefinition p (frames.push called.1) called.2))
  | .define arity inner rest, frames, ctx =>
      have _ (frames : IrFrames) (ctx : TracingContext) : Decidable (inner.EachDefinition p frames ctx) :=
        decidableEachDefinition inner frames ctx
      have _ (frames : IrFrames) (ctx : TracingContext) : Decidable (rest.EachDefinition p frames ctx) :=
        decidableEachDefinition rest frames ctx
      inferInstanceAs (Decidable (∀ traced, traceFunction arity inner frames = .ok traced →
        p inner frames traced.2 ∧
          inner.EachDefinition p (.begin (argList arity) :: frames) .empty ∧
          rest.EachDefinition p (frames.pushFunction (inner.traced frames traced.1 traced.2))
            (ctx.look traced.2.looked)))
  | .apply g args rest, frames, ctx =>
      have _ (frames : IrFrames) (ctx : TracingContext) : Decidable (rest.EachDefinition p frames ctx) :=
        decidableEachDefinition rest frames ctx
      inferInstanceAs (Decidable (∀ f, frames.function g = some f →
        ∀ objects, PyOperand.objects frames args = .ok objects →
          ∀ called, ctx.call f.portableIr objects = .ok called →
            rest.EachDefinition p (frames.push called.1) called.2))

/-! ### Step by step -/

variable {frames : IrFrames} {ctx ctx' : TracingContext} {portableIr res : Value}
  {args : List PyOperand} {arity : ArgCount} {inner rest : PyBody} {g : PyFunction}

theorem traceBody_ret_cases {x : PyVariable} (h : traceBody (.ret x) frames ctx = .ok (res, ctx')) :
    frames.find x = some res ∧ ctx' = ctx := by
  rw [traceBody] at h
  split at h
  · next ir hir =>
      cases h
      exact ⟨hir, rfl⟩
  · cases h

theorem traceBody_call_cases
    (h : traceBody (.call portableIr args rest) frames ctx = .ok (res, ctx')) :
    ∃ objects r ctx₁, PyOperand.objects frames args = .ok objects ∧
      ctx.call portableIr objects = .ok (r, ctx₁) ∧
      traceBody rest (frames.push r) ctx₁ = .ok (res, ctx') := by
  obtain ⟨objects, hobjects, h⟩ := ok_of_bind h
  obtain ⟨⟨r, ctx₁⟩, hcall, h⟩ := ok_of_bind h
  exact ⟨objects, r, ctx₁, hobjects, hcall, h⟩

theorem traceBody_define_cases
    (h : traceBody (.define arity inner rest) frames ctx = .ok (res, ctx')) :
    ∃ result innerCtx, traceFunction arity inner frames = .ok (result, innerCtx) ∧
      traceBody rest (frames.pushFunction (inner.traced frames result innerCtx))
        (ctx.look innerCtx.looked) = .ok (res, ctx') := by
  unfold traceBody at h
  unfold traceFunction
  split at h
  · cases h
  · next harity =>
      obtain ⟨⟨result, innerCtx⟩, hinner, h⟩ := ok_of_bind h
      refine ⟨result, innerCtx, ?_, h⟩
      rw [if_neg harity]
      exact hinner

theorem traceBody_apply_cases (h : traceBody (.apply g args rest) frames ctx = .ok (res, ctx')) :
    ∃ f objects r ctx₁, frames.function g = some f ∧ PyOperand.objects frames args = .ok objects ∧
      ctx.call f.portableIr objects = .ok (r, ctx₁) ∧
      traceBody rest (frames.push r) ctx₁ = .ok (res, ctx') := by
  rw [traceBody] at h
  split at h
  · next f hf =>
      obtain ⟨objects, hobjects, h⟩ := ok_of_bind h
      obtain ⟨⟨r, ctx₁⟩, hcall, h⟩ := ok_of_bind h
      exact ⟨f, objects, r, ctx₁, hf, hobjects, hcall, h⟩
  · cases h

theorem traceFunction_cases {body : PyBody}
    (h : traceFunction arity body frames = .ok (res, ctx')) : arity.val ≠ 0 ∧
      traceBody body (.begin (argList arity) :: frames) .empty = .ok (res, ctx') := by
  unfold traceFunction at h
  split at h
  · cases h
  · next harity => exact ⟨harity, h⟩

theorem traceBody_extends : ∀ {body : PyBody} {frames : IrFrames} {ctx ctx' : TracingContext}
    {res : Value}, traceBody body frames ctx = .ok (res, ctx') → ctx.Extends ctx'
  | .ret x, frames, ctx, ctx', res, h => by
      obtain ⟨-, rfl⟩ := traceBody_ret_cases h
      exact .refl _
  | .call .., _, _, _, _, h => by
      obtain ⟨_, _, _, -, hcall, hrest⟩ := traceBody_call_cases h
      exact (TracingContext.call_extends hcall).trans (traceBody_extends hrest)
  | .define .., _, ctx, _, _, h => by
      obtain ⟨_, _, -, hrest⟩ := traceBody_define_cases h
      exact (ctx.extends_look _).trans (traceBody_extends hrest)
  | .apply .., _, _, _, _, h => by
      obtain ⟨_, _, _, _, -, -, hcall, hrest⟩ := traceBody_apply_cases h
      exact (TracingContext.call_extends hcall).trans (traceBody_extends hrest)

end

end GenC
