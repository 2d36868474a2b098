import Mathlib.Algebra.Group.Int.Defs
import Mathlib.Algebra.Group.Nat.Defs
import GenC.Authoring.Constructor
import GenC.Lib.Naming
import GenC.Lib.Run
import GenC.Proto.Scoping
import GenC.Proto.TextFormat

/-!
# The tracing context

`python/authoring/tracing_context.py`, with the part of `to_value_proto` that tracing meets. An exception is
`Except.error` with its message.

A dictionary is the list of its items in the order of their insertion. What holds of the two dictionaries
of a context at any time are fields of the context: names are issued in order, and the second dictionary
is the first one by text.
-/

namespace GenC

open Lib

/-! ## Python objects -/

inductive PyLiteral where
  | str (s : String)
  | bool (b : Bool)
  | int (i : Int)

/-- What a traced function passes on: IR, a computation, or a literal. -/
inductive PyObject where
  | value (ir : Value)
  | computation (portableIr : Value)
  | literal (l : PyLiteral)

/-- `to_value_proto`, of a literal. An `int_32` field takes no other numbers. -/
def PyLiteral.toValueProto : PyLiteral → Except String Value
  | .str s => .ok (.ofStr s)
  | .bool b => .ok (.ofBool b)
  | .int i =>
      if -2 ^ 31 ≤ i ∧ i < 2 ^ 31 then .ok (.ofInt32 (Int32.ofInt i))
      else .error ("Value out of range: " ++ toString i)

/-- `to_value_proto`. -/
def PyObject.toValueProto : PyObject → Except String Value
  | .value ir => .ok ir
  | .computation portableIr => .ok portableIr
  | .literal l => l.toValueProto

/-- `str(ir)`: the text format of the protobuf library. -/
class PythonText where
  str : Value → String

export PythonText (str)

/-- A text that tells all IR apart. -/
@[reducible] def PythonText.distinguishing : PythonText := ⟨Value.text⟩

/-! ## Names -/

/-- `'v_{}'.format(i)`. -/
def localName (i : Nat) : String := "v_" ++ toString i

theorem localName_injective : Function.Injective localName := by
  intro i j h
  exact natRepr_injective ((String.append_right_inj "v_").mp h)

theorem localName_ne_arg (i : Nat) : localName i ≠ "arg" := by
  intro h
  have hhead := congrArg (fun s : String => s.toList.head?) h
  simp [localName] at hhead

/-! ## The context -/

/-- The members of a `TracingContext`. No code reads the last one: it is what was looked up so far. -/
@[ext] structure TracingContext [PythonText] where
  nameToIr : List (String × Value)
  irStrToName : List (String × String)
  looked : List Value
  names : ∀ k x ir, nameToIr[k]? = some (x, ir) → x = localName k
  texts : irStrToName = nameToIr.map fun item => (str item.2, item.1)
  subset : ∀ item ∈ nameToIr, item.2 ∈ looked

namespace TracingContext

variable [PythonText]

def empty : TracingContext := ⟨[], [], [], fun _ _ _ h => (nomatch h), rfl, fun _ h => (nomatch h)⟩

/-- Remember what was looked up. -/
def look (ctx : TracingContext) (irs : List Value) : TracingContext :=
  { ctx with
    looked := ctx.looked ++ irs
    subset := fun item hitem => List.mem_append_left _ (ctx.subset item hitem) }

/-- Both assignments: the next name is for `ir`. -/
def add (ctx : TracingContext) (ir : Value) : TracingContext where
  nameToIr := ctx.nameToIr ++ [(localName ctx.nameToIr.length, ir)]
  irStrToName := ctx.irStrToName ++ [(str ir, localName ctx.nameToIr.length)]
  looked := ctx.looked ++ [ir]
  names := by
    intro k x ir' hk
    rcases getElem?_concat_cases hk with hk | ⟨rfl, heq⟩
    · exact ctx.names k x ir' hk
    · exact congrArg Prod.fst heq
  texts := by
    rw [List.map_append, ← ctx.texts]
    rfl
  subset := by
    intro item hitem
    rcases List.mem_append.mp hitem with hitem | hitem
    · exact List.mem_append_left _ (ctx.subset item hitem)
    · rw [List.mem_singleton.mp hitem]
      exact List.mem_append_right _ (List.mem_singleton_self ir)

/-- `_replace_with_reference`, of IR that is not a reference. -/
def lookUp (ctx : TracingContext) (ir : Value) : Value × TracingContext :=
  match ctx.irStrToName.lookup (str ir) with
  | some name => (createReference name, ctx.look [ir])
  | none => (createReference (localName ctx.nameToIr.length), ctx.add ir)

def replaceWithReference (ctx : TracingContext) (object : PyObject) :
    Except String (Value × TracingContext) :=
  match object.toValueProto with
  | .error e => .error e
  | .ok (.reference m name) => .ok (.reference m name, ctx)
  | .ok ir => .ok (ctx.lookUp ir)

/-- The loop of `call` over its arguments. -/
def replaceAll : TracingContext → List PyObject → Except String (List Value × TracingContext)
  | ctx, [] => .ok ([], ctx)
  | ctx, object :: objects => do
      let (ref, ctx) ← ctx.replaceWithReference object
      let (refs, ctx) ← replaceAll ctx objects
      return (ref :: refs, ctx)

/-- The argument of the call: several are packed. -/
def inputVal : List Value → Value
  | [arg] => arg
  | args => createStruct args

def call (ctx : TracingContext) (portableIr : Value) (args : List PyObject) :
    Except String (Value × TracingContext) := do
  if args.isEmpty then throw "At least one argument is required."
  let (processedArgs, ctx) ← ctx.replaceAll args
  let (processedFunc, ctx) ← ctx.replaceWithReference (.value portableIr)
  ctx.replaceWithReference (.value (createCall processedFunc (inputVal processedArgs)))

/-! ### What the operations do to the table -/

/-- Texts tell apart what was looked up. -/
def Distinct (ctx : TracingContext) : Prop := Set.InjOn str {ir | ir ∈ ctx.looked}

omit [PythonText] in
theorem distinct_of_distinguishing : let _ := PythonText.distinguishing
    ∀ ctx : TracingContext, ctx.Distinct := by
  intro _ _
  exact Value.text_injective.injOn

/-- Nothing is forgotten. -/
structure Extends (ctx ctx' : TracingContext) : Prop where
  names : ctx.nameToIr <+: ctx'.nameToIr
  looked : ctx.looked <+: ctx'.looked

variable {ctx ctx₁ ctx' : TracingContext}

theorem Extends.refl (ctx : TracingContext) : ctx.Extends ctx := ⟨List.prefix_rfl, List.prefix_rfl⟩

theorem Extends.trans (h : ctx.Extends ctx₁) (h' : ctx₁.Extends ctx') : ctx.Extends ctx' :=
  ⟨h.names.trans h'.names, h.looked.trans h'.looked⟩

theorem Distinct.of_extends (h : ctx'.Distinct) (hle : ctx.Extends ctx') : ctx.Distinct :=
  h.mono fun _ hir => hle.looked.subset hir

theorem Distinct.of_look {irs : List Value} (h : (ctx.look irs).Distinct) (hlooked : ctx'.looked = irs) :
    ctx'.Distinct :=
  h.mono fun _ hir => List.mem_append_right _ (hlooked ▸ hir)

theorem extends_look (ctx : TracingContext) (irs : List Value) : ctx.Extends (ctx.look irs) :=
  ⟨List.prefix_rfl, List.prefix_append _ _⟩

/-- The names of the second dictionary are those of the first, found by text. -/
theorem lookup_irStrToName (ctx : TracingContext) (text : String) :
    (∃ item ∈ ctx.nameToIr, str item.2 = text ∧ ctx.irStrToName.lookup text = some item.1) ∨
      (∀ item ∈ ctx.nameToIr, str item.2 ≠ text) ∧ ctx.irStrToName.lookup text = none := by
  rw [ctx.texts]
  induction ctx.nameToIr with
  | nil => exact .inr ⟨List.forall_mem_nil _, rfl⟩
  | cons item items ih =>
      rw [List.map_cons, List.lookup_cons]
      by_cases h : text = str item.2
      · rw [h, beq_self_eq_true]
        exact .inl ⟨item, List.mem_cons_self .., rfl, rfl⟩
      · rw [beq_false_of_ne h]
        rcases ih with ⟨item', hmem, htext, hlookup⟩ | ⟨hne, hlookup⟩
        · exact .inl ⟨item', List.mem_cons_of_mem _ hmem, htext, hlookup⟩
        · exact .inr ⟨List.forall_mem_cons.mpr ⟨fun heq => h heq.symm, hne⟩, hlookup⟩

theorem extends_lookUp (ctx : TracingContext) (ir : Value) : ctx.Extends (ctx.lookUp ir).2 := by
  unfold lookUp
  split
  · exact ctx.extends_look [ir]
  · exact ⟨List.prefix_append _ _, List.prefix_append _ _⟩

/-- What is looked up is named: by the name it has if there is one, and by the next one otherwise. -/
theorem lookUp_names {ir ref : Value} (h : ctx.lookUp ir = (ref, ctx')) (hdistinct : ctx'.Distinct) :
    ∃ x, ref = createReference x ∧ Names localName ctx.nameToIr ir ctx'.nameToIr x := by
  unfold lookUp at h
  rcases ctx.lookup_irStrToName (str ir) with ⟨item, hmem, htext, hlookup⟩ | ⟨-, hlookup⟩
  · rw [hlookup] at h
    cases h
    have hlooked : item.2 ∈ (ctx.look [ir]).looked := List.mem_append_left _ (ctx.subset item hmem)
    have hir : ir ∈ (ctx.look [ir]).looked := List.mem_append_right _ (List.mem_singleton_self ir)
    have heq : item.2 = ir := hdistinct hlooked hir htext
    obtain ⟨k, hk⟩ := List.mem_iff_getElem?.mp hmem
    have hname : item.1 = localName k := ctx.names k item.1 item.2 hk
    refine ⟨item.1, rfl, ?_⟩
    rw [hname]
    exact .shared (by rw [hk, ← heq, ← hname])
  · rw [hlookup] at h
    cases h
    exact ⟨_, rfl, .fresh⟩

/-- References are passed on, and anything else is looked up. -/
theorem replaceWithReference_cases {object : PyObject} {ref : Value}
    (h : ctx.replaceWithReference object = .ok (ref, ctx')) :
    ∃ ir, object.toValueProto = .ok ir ∧
      ((∃ m x, ir = .reference m x ∧ ref = ir ∧ ctx' = ctx) ∨
        (∀ m x, ir ≠ .reference m x) ∧ ctx.lookUp ir = (ref, ctx')) := by
  unfold replaceWithReference at h
  split at h
  · cases h
  · next m x hir =>
      cases h
      exact ⟨_, hir, .inl ⟨m, x, rfl, rfl, rfl⟩⟩
  · next ir hne hir =>
      exact ⟨ir, hir, .inr ⟨hne, Except.ok.inj h⟩⟩

theorem replaceWithReference_extends {object : PyObject} {ref : Value}
    (h : ctx.replaceWithReference object = .ok (ref, ctx')) : ctx.Extends ctx' := by
  obtain ⟨ir, -, ⟨-, -, -, -, rfl⟩ | ⟨-, hlookUp⟩⟩ := replaceWithReference_cases h
  · exact .refl ctx'
  · have hle := ctx.extends_lookUp ir
    rwa [hlookUp] at hle

theorem replaceAll_extends {objects : List PyObject} {refs : List Value}
    (h : ctx.replaceAll objects = .ok (refs, ctx')) : ctx.Extends ctx' := by
  induction objects generalizing ctx refs with
  | nil =>
      cases h
      exact .refl ctx'
  | cons object objects ih =>
      obtain ⟨⟨ref, ctx₁⟩, hfirst, h⟩ := ok_of_bind h
      obtain ⟨⟨refs, ctx₂⟩, hrest, h⟩ := ok_of_bind h
      cases h
      exact (replaceWithReference_extends hfirst).trans (ih hrest)

/-- What `call` does when it succeeds: the arguments, the function and the call are replaced. -/
theorem call_cases {portableIr r : Value} {args : List PyObject}
    (h : ctx.call portableIr args = .ok (r, ctx')) :
    ∃ refs ctx₁ f ctx₂, ctx.replaceAll args = .ok (refs, ctx₁) ∧
      ctx₁.replaceWithReference (.value portableIr) = .ok (f, ctx₂) ∧
      ctx₂.replaceWithReference (.value (createCall f (inputVal refs))) = .ok (r, ctx') := by
  unfold call at h
  split at h
  · cases h
  · obtain ⟨⟨refs, ctx₁⟩, hargs, h⟩ := ok_of_bind h
    obtain ⟨⟨f, ctx₂⟩, hfunc, h⟩ := ok_of_bind h
    exact ⟨refs, ctx₁, f, ctx₂, hargs, hfunc, h⟩

theorem call_extends {portableIr r : Value} {args : List PyObject}
    (h : ctx.call portableIr args = .ok (r, ctx')) : ctx.Extends ctx' := by
  obtain ⟨refs, ctx₁, f, ctx₂, hargs, hfunc, hcall⟩ := call_cases h
  exact ((replaceAll_extends hargs).trans (replaceWithReference_extends hfunc)).trans
    (replaceWithReference_extends hcall)

end TracingContext

end GenC
