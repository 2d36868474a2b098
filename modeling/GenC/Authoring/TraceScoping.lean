import GenC.Authoring.TracingDecorator

/-!
# The scoping of traces

What is traced is well scoped: each local refers to the locals before it and to what the function refers
to besides them. And what a function uses of the functions around it, itself or through a function that it
calls, occurs free in its lambda, unless the lambda binds it. Both are what the trace of a body accounts
for (**`traceBody_accounts`**): the names that are free in a lambda are exactly those of the variables
that the function captures (`tracedLambda_refersTo`).
-/

namespace GenC

open Lib

/-! ## Variables -/

namespace Frames

variable {α β : Type} {frames : Frames α β} {x : PyVariable} {g : PyFunction} {v r : α} {f f' : β}

/-- Where there is one more result, a variable is the new one or was there before. -/
theorem find_push (h : (frames.push r).find x = some v) : v = r ∨ frames.find x = some v := by
  obtain ⟨depth, source, i⟩ := x
  cases frames with
  | nil => exact .inr h
  | cons frame outer =>
      cases depth with
      | succ depth => exact .inr h
      | zero =>
          cases source with
          | parameter => exact .inr h
          | result =>
              rcases getElem?_concat_cases h with h | ⟨-, rfl⟩
              · exact .inr h
              · exact .inl rfl

theorem find_push_of_find (h : frames.find x = some v) : (frames.push r).find x = some v := by
  obtain ⟨depth, source, i⟩ := x
  cases frames with
  | nil => exact h
  | cons frame outer =>
      cases depth with
      | succ depth => exact h
      | zero =>
          cases source with
          | parameter => exact h
          | result =>
              have hlt : i < frame.results.length := (List.getElem?_eq_some_iff.mp h).1
              exact (List.getElem?_append_left hlt).trans h

/-- The variables of the functions around are as they were. -/
theorem find_push_of_pos (hx : 0 < x.depth) : (frames.push r).find x = frames.find x := by
  obtain ⟨_ | depth, source, i⟩ := x
  · exact absurd hx (Nat.lt_irrefl 0)
  · cases frames <;> rfl

@[simp] theorem find_pushFunction : (frames.pushFunction f).find x = frames.find x := by
  obtain ⟨_ | depth, source, i⟩ := x
  · cases frames with
    | nil => rfl
    | cons frame outer => cases source <;> rfl
  · cases frames <;> rfl

@[simp] theorem function_push : (frames.push r).function g = frames.function g := by
  obtain ⟨_ | depth, i⟩ := g <;> cases frames <;> rfl

/-- Where there is one more function, a function is the new one or was there before. -/
theorem function_pushFunction (h : (frames.pushFunction f).function g = some f') :
    (g.depth = 0 ∧ f' = f) ∨ frames.function g = some f' := by
  obtain ⟨depth, i⟩ := g
  cases frames with
  | nil => exact .inr h
  | cons frame outer =>
      cases depth with
      | succ depth => exact .inr h
      | zero =>
          rcases getElem?_concat_cases h with h | ⟨-, rfl⟩
          · exact .inr h
          · exact .inl ⟨rfl, rfl⟩

theorem function_pushFunction_of_function (h : frames.function g = some f') :
    (frames.pushFunction f).function g = some f' := by
  obtain ⟨depth, i⟩ := g
  cases frames with
  | nil => exact h
  | cons frame outer =>
      cases depth with
      | succ depth => exact h
      | zero =>
          have hlt : i < frame.functions.length := (List.getElem?_eq_some_iff.mp h).1
          exact (List.getElem?_append_left hlt).trans h

/-- What holds of the variables that are used, and of the new result. -/
theorem forall_push {xs : List PyVariable} {P : α → Prop}
    (h : ∀ x ∈ xs, ∀ v, frames.find x = some v → P v) (hr : P r) :
    ∀ x ∈ xs, ∀ v, (frames.push r).find x = some v → P v := by
  intro x hx v hv
  rcases find_push hv with rfl | hv
  · exact hr
  · exact h x hx v hv

/-- Inside of a definition, the variables are its parameters and those around it. -/
theorem forall_captured {inner : PyBody} {functions : Frames Unit (List PyVariable)}
    {parameters : List α} {P : α → Prop} (hparameters : ∀ v ∈ parameters, P v)
    (h : ∀ x ∈ inner.captured functions, ∀ v, frames.find x = some v → P v) :
    ∀ x ∈ inner.uses (.begin [] :: functions), ∀ v,
      find (.begin parameters :: frames) x = some v → P v := by
  rintro ⟨depth, source, i⟩ hx v hv
  cases depth with
  | zero =>
      cases source with
      | parameter => exact hparameters v (List.mem_of_getElem? hv)
      | result => cases hv
  | succ depth => exact h _ (List.mem_filterMap.mpr ⟨_, hx, rfl⟩) v hv

/-! ### What the functions in scope capture -/

variable {frames : IrFrames} {f : TracedFunction}

@[simp] theorem captures_push {r : Value} : (frames.push r).captures = frames.captures := by
  cases frames <;> rfl

@[simp] theorem captures_pushFunction :
    (frames.pushFunction f).captures = frames.captures.pushFunction f.captured := by
  cases frames with
  | nil => rfl
  | cons frame outer => simp [captures, pushFunction]

theorem function_captures (h : frames.function g = some f) :
    frames.captures.function g = some f.captured := by
  obtain ⟨frame, hframe, hf⟩ := Option.bind_eq_some_iff.mp h
  refine Option.bind_eq_some_iff.mpr
    ⟨⟨[], [], frame.functions.map TracedFunction.captured⟩, ?_, ?_⟩
  · rw [captures, List.getElem?_map, hframe]
    rfl
  · show (frame.functions.map TracedFunction.captured)[g.index]? = some f.captured
    rw [List.getElem?_map, hf]
    rfl

end Frames

/-- An object that is passed on is a literal, or the value of a variable. -/
theorem PyOperand.object_cases {frames : IrFrames} {arg : PyOperand} {object : PyObject}
    (h : arg.object frames = .ok object) :
    (∃ l, arg = .lit l ∧ object = .literal l) ∨
      ∃ x ir, arg = .var x ∧ frames.find x = some ir ∧ object = .value ir := by
  cases arg with
  | lit l =>
      cases h
      exact .inl ⟨l, rfl, rfl⟩
  | var x =>
      rw [PyOperand.object] at h
      split at h
      · next ir hir =>
          cases h
          exact .inr ⟨x, ir, rfl, hir, rfl⟩
      · cases h

theorem PyOperand.objects_forall₂ {frames : IrFrames} {args : List PyOperand}
    {objects : List PyObject} (h : PyOperand.objects frames args = .ok objects) :
    List.Forall₂ (fun arg object => arg.object frames = .ok object) args objects := by
  induction args generalizing objects with
  | nil =>
      cases h
      exact .nil
  | cons arg args ih =>
      obtain ⟨object, hobject, h⟩ := ok_of_bind h
      obtain ⟨objects, hobjects, h⟩ := ok_of_bind h
      cases h
      exact .cons hobject (ih hobjects)

theorem PyOperand.mem_objects {frames : IrFrames} {args : List PyOperand}
    {objects : List PyObject} (h : PyOperand.objects frames args = .ok objects) {object : PyObject}
    (hobject : object ∈ objects) : ∃ arg ∈ args, arg.object frames = .ok object := by
  have hforall := PyOperand.objects_forall₂ h
  clear h
  induction hforall with
  | nil => cases hobject
  | @cons arg first args objects hfirst _ ih =>
      rcases List.mem_cons.mp hobject with rfl | hobject
      · exact ⟨arg, List.mem_cons_self .., hfirst⟩
      · obtain ⟨arg', harg', heq⟩ := ih hobject
        exact ⟨arg', List.mem_cons_of_mem _ harg', heq⟩

/-- A literal is a scalar without metadata. -/
theorem PyLiteral.toValueProto_scalar {l : PyLiteral} {ir : Value} (h : l.toValueProto = .ok ir) :
    ∃ c, ir = .scalar {} c := by
  cases l with
  | str s =>
      cases h
      exact ⟨_, rfl⟩
  | bool b =>
      cases h
      exact ⟨_, rfl⟩
  | int i =>
      rw [PyLiteral.toValueProto] at h
      split at h
      · cases h
        exact ⟨_, rfl⟩
      · cases h

theorem argList_within (arity : ArgCount) : ∀ ir ∈ argList arity, ir.Within {"arg"} := by
  intro ir hir
  have harg : (createReference "arg").Within {"arg"} := .reference rfl
  unfold argList at hir
  dsimp only at hir
  split at hir
  · obtain ⟨i, -, rfl⟩ := List.mem_map.mp hir
    exact .selection harg
  · rw [List.mem_singleton.mp hir]
    exact harg

variable [PythonText]

/-! ## Calls only add -/

namespace TracingContext

variable {ctx ctx' : TracingContext} {B : Set String}

/-- The names in scope after the locals so far. -/
abbrev inScope (ctx : TracingContext) (B : Set String) : Set String :=
  visible localName B ctx.nameToIr.length

theorem Extends.inScope (h : ctx.Extends ctx') : ctx.inScope B ⊆ ctx'.inScope B :=
  visible_mono h.names.length_le

/-- The locals are named in order, and each is within the names before it. -/
abbrev Scoped (ctx : TracingContext) (B : Set String) : Prop :=
  WellScoped localName Value.Within B ctx.nameToIr

theorem replaceWithReference_scoped {object : PyObject} {ref : Value}
    (h : ctx.replaceWithReference object = .ok (ref, ctx')) (hdistinct : ctx'.Distinct)
    (hobject : ∀ ir, object.toValueProto = .ok ir → ir.Within (ctx.inScope B)) (hctx : ctx.Scoped B) :
    ctx'.Scoped B ∧ ref.Within (ctx'.inScope B) := by
  obtain ⟨ir, hir, ⟨m, x, rfl, rfl, rfl⟩ | ⟨-, hlookUp⟩⟩ := replaceWithReference_cases h
  · exact ⟨hctx, hobject _ hir⟩
  · obtain ⟨x, rfl, hnames⟩ := lookUp_names hlookUp hdistinct
    exact ⟨hnames.wellScoped hctx (hobject ir hir), .reference hnames.mem_visible⟩

theorem replaceAll_scoped {objects : List PyObject} {refs : List Value}
    (h : ctx.replaceAll objects = .ok (refs, ctx')) (hdistinct : ctx'.Distinct)
    (hobjects : ∀ object ∈ objects, ∀ ir, object.toValueProto = .ok ir → ir.Within (ctx.inScope B))
    (hctx : ctx.Scoped B) : ctx'.Scoped B ∧ ∀ ref ∈ refs, ref.Within (ctx'.inScope B) := by
  induction objects generalizing ctx refs with
  | nil =>
      cases h
      exact ⟨hctx, List.forall_mem_nil _⟩
  | cons object objects ih =>
      obtain ⟨hobject, hobjects⟩ := List.forall_mem_cons.mp hobjects
      obtain ⟨⟨ref, ctx₁⟩, hfirst, h⟩ := ok_of_bind h
      obtain ⟨⟨refs, ctx₂⟩, hrest, h⟩ := ok_of_bind h
      cases h
      have hle := replaceAll_extends hrest
      obtain ⟨hctx₁, href⟩ :=
        replaceWithReference_scoped hfirst (hdistinct.of_extends hle) hobject hctx
      -- what was in scope stays in scope as names are issued
      have hobjects₁ : ∀ object ∈ objects, ∀ ir, object.toValueProto = .ok ir →
          ir.Within (ctx₁.inScope B) := fun o ho ir hir =>
        (hobjects o ho ir hir).mono (replaceWithReference_extends hfirst).inScope
      obtain ⟨hctx', hrefs⟩ := ih hrest hobjects₁ hctx₁
      exact ⟨hctx', List.forall_mem_cons.mpr ⟨href.mono hle.inScope, hrefs⟩⟩

omit [PythonText] in
theorem inputVal_within {refs : List Value} {B : Set String} (h : ∀ ref ∈ refs, ref.Within B) :
    (inputVal refs).Within B := by
  unfold inputVal
  split
  · exact h _ (List.mem_singleton_self _)
  · exact .struct h

theorem call_scoped {portableIr r : Value} {args : List PyObject}
    (h : ctx.call portableIr args = .ok (r, ctx')) (hdistinct : ctx'.Distinct)
    (hir : portableIr.Within (ctx.inScope B))
    (hargs : ∀ object ∈ args, ∀ ir, object.toValueProto = .ok ir → ir.Within (ctx.inScope B))
    (hctx : ctx.Scoped B) : ctx'.Scoped B ∧ r.Within (ctx'.inScope B) := by
  obtain ⟨refs, ctx₁, f, ctx₂, hrefs, hfunc, hcall⟩ := call_cases h
  have hle₁ := replaceAll_extends hrefs
  have hle₂ := replaceWithReference_extends hfunc
  have hdistinct₂ := hdistinct.of_extends (replaceWithReference_extends hcall)
  obtain ⟨hctx₁, hrefs⟩ := replaceAll_scoped hrefs (hdistinct₂.of_extends hle₂) hargs hctx
  have hir₁ : ∀ ir, (PyObject.value portableIr).toValueProto = .ok ir →
      ir.Within (ctx₁.inScope B) := by
    rintro ir ⟨⟩
    exact hir.mono hle₁.inScope
  obtain ⟨hctx₂, hf⟩ := replaceWithReference_scoped hfunc hdistinct₂ hir₁ hctx₁
  refine replaceWithReference_scoped hcall hdistinct ?_ hctx₂
  rintro ir ⟨⟩
  refine .call hf ?_
  rintro a ⟨⟩
  exact inputVal_within fun ref href => (hrefs ref href).mono hle₂.inScope

end TracingContext

open TracingContext

/-- The lambda binds its parameter and its locals. -/
theorem tracedLambda_within {B : Set String} {ctx : TracingContext} {result : Value}
    (hctx : ctx.Scoped (insert "arg" B)) (hresult : result.Within (ctx.inScope (insert "arg" B))) :
    (tracedLambda result ctx).Within B := by
  refine .lambda ?_
  split
  · next hempty =>
      refine hresult.mono ?_
      rintro x (hx | ⟨j, hj, -⟩)
      · exact hx
      · rw [List.isEmpty_iff.mp hempty] at hj
        exact absurd hj (Nat.not_lt_zero j)
  · -- a name in scope is one of the locals before
    have hsub : ∀ k ≤ ctx.nameToIr.length, visible localName (insert "arg" B) k ⊆
        insert "arg" B ∪ {y | y ∈ (ctx.nameToIr.take k).map Prod.fst} := by
      rintro k hk x (hx | ⟨j, hj, rfl⟩)
      · exact .inl hx
      · have hlt : j < ctx.nameToIr.length := hj.trans_le hk
        have hname := ctx.names j _ _ (List.getElem?_eq_getElem hlt)
        refine .inr (List.mem_map.mpr ⟨ctx.nameToIr[j], ?_, hname⟩)
        rw [List.mem_take_iff_getElem]
        exact ⟨j, by omega, rfl⟩
    refine Value.within_block (fun k x e hk => ?_) ?_
    · exact (hctx k x e hk).2.mono (hsub k (List.getElem?_eq_some_iff.mp hk).1.le)
    · refine hresult.mono ?_
      have hall := hsub ctx.nameToIr.length (Nat.le_refl _)
      rwa [List.take_length] at hall

omit [PythonText] in
/-- What the arguments of a call evaluate to is within the names in scope. -/
theorem objects_within {frames : IrFrames} {args : List PyOperand} {objects : List PyObject}
    {B : Set String} (h : PyOperand.objects frames args = .ok objects)
    (hvars : ∀ x ∈ args.flatMap PyOperand.uses, ∀ ir, frames.find x = some ir → ir.Within B) :
    ∀ object ∈ objects, ∀ ir, object.toValueProto = .ok ir → ir.Within B := by
  intro object hobject ir hir
  obtain ⟨arg, harg, heq⟩ := PyOperand.mem_objects h hobject
  rcases PyOperand.object_cases heq with ⟨l, rfl, rfl⟩ | ⟨x, ir', rfl, hfind, rfl⟩
  · obtain ⟨c, rfl⟩ := PyLiteral.toValueProto_scalar hir
    exact .scalar
  · cases hir
    exact hvars x (List.mem_flatMap.mpr ⟨_, harg, List.mem_singleton_self x⟩) ir hfind

/-! ## What a trace refers to -/

namespace TracingContext

variable {ctx ctx' : TracingContext} {N : Set String}

/-- Every local is within `N`. -/
def LocalsWithin (ctx : TracingContext) (N : Set String) : Prop := ∀ item ∈ ctx.nameToIr, item.2.Within N

theorem LocalsWithin.of_extends (h : ctx'.LocalsWithin N) (hle : ctx.Extends ctx') :
    ctx.LocalsWithin N :=
  fun item hitem => h item (hle.names.subset hitem)

/-- What was replaced is the reference itself, or a local. -/
theorem within_of_replaceWithReference {object : PyObject} {ref ir : Value}
    (h : ctx.replaceWithReference object = .ok (ref, ctx')) (hdistinct : ctx'.Distinct)
    (hlocals : ctx'.LocalsWithin N) (href : ref.Within N) (hir : object.toValueProto = .ok ir) :
    ir.Within N := by
  obtain ⟨ir', hir', ⟨m, x, rfl, rfl, rfl⟩ | ⟨-, hlookUp⟩⟩ := replaceWithReference_cases h
  · cases hir.symm.trans hir'
    exact href
  · cases hir.symm.trans hir'
    obtain ⟨x, -, hnames⟩ := lookUp_names hlookUp hdistinct
    obtain ⟨k, -, -, hentry⟩ := hnames.entry
    exact hlocals _ (List.mem_of_getElem? hentry)

theorem within_of_replaceAll {objects : List PyObject} {refs : List Value}
    (h : ctx.replaceAll objects = .ok (refs, ctx')) (hdistinct : ctx'.Distinct)
    (hlocals : ctx'.LocalsWithin N) (hrefs : ∀ ref ∈ refs, ref.Within N) :
    ∀ object ∈ objects, ∀ ir, object.toValueProto = .ok ir → ir.Within N := by
  induction objects generalizing ctx refs with
  | nil => exact List.forall_mem_nil _
  | cons object objects ih =>
      obtain ⟨⟨ref, ctx₁⟩, hfirst, h⟩ := ok_of_bind h
      obtain ⟨⟨refs, ctx₂⟩, hrest, h⟩ := ok_of_bind h
      cases h
      obtain ⟨href, hrefs⟩ := List.forall_mem_cons.mp hrefs
      have hle := replaceAll_extends hrest
      refine List.forall_mem_cons.mpr ⟨fun ir hir => ?_, ih hrest hrefs⟩
      exact within_of_replaceWithReference hfirst (hdistinct.of_extends hle)
        (hlocals.of_extends hle) href hir

omit [PythonText] in
theorem within_of_inputVal {refs : List Value} (h : (inputVal refs).Within N) :
    ∀ ref ∈ refs, ref.Within N := by
  unfold inputVal at h
  split at h
  · intro ref href
    rwa [List.mem_singleton.mp href]
  · cases h with
    | struct h => exact h

/-- The function and the arguments of a call occur in the locals. -/
theorem within_of_call {portableIr r : Value} {args : List PyObject}
    (h : ctx.call portableIr args = .ok (r, ctx')) (hdistinct : ctx'.Distinct)
    (hlocals : ctx'.LocalsWithin N) : portableIr.Within N ∧
      ∀ object ∈ args, ∀ ir, object.toValueProto = .ok ir → ir.Within N := by
  obtain ⟨refs, ctx₁, f, ctx₂, hrefs, hfunc, hcall⟩ := call_cases h
  have hle₂ := replaceWithReference_extends hcall
  have hle₁ := (replaceWithReference_extends hfunc).trans hle₂
  -- the call that was recorded is an entry of the trace
  have hcallPb : (createCall f (inputVal refs)).Within N := by
    obtain ⟨_, ⟨⟩, ⟨_, _, heq, -, -⟩ | ⟨-, hlookUp⟩⟩ := replaceWithReference_cases hcall
    · cases heq
    · obtain ⟨x, -, hnames⟩ := lookUp_names hlookUp hdistinct
      obtain ⟨k, -, -, hentry⟩ := hnames.entry
      exact hlocals _ (List.mem_of_getElem? hentry)
  cases hcallPb with
  | call hf ha =>
      have hinput := within_of_inputVal (ha _ rfl)
      exact ⟨within_of_replaceWithReference hfunc (hdistinct.of_extends hle₂)
          (hlocals.of_extends hle₂) hf rfl,
        within_of_replaceAll hrefs (hdistinct.of_extends hle₁) (hlocals.of_extends hle₁) hinput⟩

end TracingContext

omit [PythonText] in
/-- The variables that are passed to a call. -/
theorem uses_within_of_objects {frames : IrFrames} {args : List PyOperand}
    {objects : List PyObject} {N : Set String} (h : PyOperand.objects frames args = .ok objects)
    (hobjects : ∀ object ∈ objects, ∀ ir, object.toValueProto = .ok ir → ir.Within N) :
    ∀ x ∈ args.flatMap PyOperand.uses, ∀ ir, frames.find x = some ir → ir.Within N := by
  have hforall := PyOperand.objects_forall₂ h
  clear h
  induction hforall with
  | nil => exact List.forall_mem_nil _
  | @cons arg object args objects hfirst _ ih =>
      obtain ⟨hobject, hobjects⟩ := List.forall_mem_cons.mp hobjects
      refine List.forall_mem_append.mpr ⟨fun x hx ir hir => ?_, ih hobjects⟩
      rcases PyOperand.object_cases hfirst with ⟨l, rfl, rfl⟩ | ⟨y, ir', rfl, hfind, rfl⟩
      · cases hx
      · rw [List.mem_singleton.mp hx, hfind] at hir
        cases hir
        exact hobject _ rfl

omit [PythonText] in
theorem found_of_objects {frames : IrFrames} {args : List PyOperand} {objects : List PyObject}
    (h : PyOperand.objects frames args = .ok objects) :
    ∀ x ∈ args.flatMap PyOperand.uses, ∃ ir, frames.find x = some ir := by
  have hforall := PyOperand.objects_forall₂ h
  clear h
  induction hforall with
  | nil => exact List.forall_mem_nil _
  | @cons arg object args objects hfirst _ ih =>
      refine List.forall_mem_append.mpr ⟨fun x hx => ?_, ih⟩
      rcases PyOperand.object_cases hfirst with ⟨l, rfl, rfl⟩ | ⟨y, ir, rfl, hfind, rfl⟩
      · cases hx
      · exact ⟨ir, List.mem_singleton.mp hx ▸ hfind⟩

/-! ## The trace of a body -/

/-- The free names of `c` are those of the variables `xs`, which are known `n` functions further out. -/
structure RefersTo (frames : IrFrames) (n : Nat) (xs : List PyVariable) (c : Value) : Prop where
  found : ∀ x ∈ xs, ∃ ir, frames.find (x.inner n) = some ir
  within_iff : ∀ N : Set String,
    c.Within N ↔ ∀ x ∈ xs, ∀ ir, frames.find (x.inner n) = some ir → ir.Within N

namespace RefersTo

variable {frames frames' : IrFrames} {n n' : Nat} {xs : List PyVariable} {c : Value}

omit [PythonText] in
theorem of_closed (h : c.Within ∅) : RefersTo frames n [] c where
  found := List.forall_mem_nil _
  within_iff _ := iff_of_true (h.mono (Set.empty_subset _)) (List.forall_mem_nil _)

omit [PythonText] in
/-- Where the variables are the same. -/
theorem of_find (h : RefersTo frames n xs c)
    (hfind : ∀ (x : PyVariable) ir, frames.find (x.inner n) = some ir → frames'.find (x.inner n') = some ir) :
    RefersTo frames' n' xs c where
  found x hx := by
    obtain ⟨ir, hir⟩ := h.found x hx
    exact ⟨ir, hfind x ir hir⟩
  within_iff N := by
    refine (h.within_iff N).trans (forall_congr' fun x => forall_congr' fun hx => ?_)
    obtain ⟨ir, hir⟩ := h.found x hx
    rw [hir, hfind x ir hir]

end RefersTo

/-- Every function in scope is a lambda, and refers to what it captures. -/
def Frames.Recorded (frames : IrFrames) : Prop :=
  ∀ g f, frames.function g = some f →
    (∀ m x, f.portableIr ≠ .reference m x) ∧ RefersTo frames g.depth f.captured f.portableIr

namespace Frames.Recorded

variable {frames : IrFrames}

omit [PythonText] in
theorem nil : Frames.Recorded [] := fun _ _ h => absurd h (Option.not_mem_none _)

omit [PythonText] in
theorem push (h : frames.Recorded) (r : Value) : (frames.push r).Recorded := by
  intro g f hf
  rw [function_push] at hf
  obtain ⟨hne, hrefers⟩ := h g f hf
  exact ⟨hne, hrefers.of_find fun _ _ hir => find_push_of_find hir⟩

omit [PythonText] in
theorem pushFunction (h : frames.Recorded) {f : TracedFunction}
    (hne : ∀ m x, f.portableIr ≠ .reference m x) (hrefers : RefersTo frames 0 f.captured f.portableIr) :
    (frames.pushFunction f).Recorded := by
  intro g f' hf
  rcases function_pushFunction hf with ⟨hdepth, rfl⟩ | hf
  · rw [hdepth]
    exact ⟨hne, hrefers.of_find fun _ _ hir => find_pushFunction.trans hir⟩
  · obtain ⟨hne, hrefers⟩ := h g f' hf
    exact ⟨hne, hrefers.of_find fun _ _ hir => find_pushFunction.trans hir⟩

omit [PythonText] in
/-- What is around a definition is one function further out. -/
theorem begin (h : frames.Recorded) (parameters : List Value) :
    Frames.Recorded (.begin parameters :: frames) := by
  rintro ⟨_ | depth, i⟩ f hf
  · cases hf
  · obtain ⟨hne, hrefers⟩ := h ⟨depth, i⟩ f hf
    exact ⟨hne, hrefers.of_find fun _ _ hir => hir⟩

end Frames.Recorded

/-- What the definition of a function captures are results of the functions around it, and none of them
has a name that is a local of the function. -/
def Hygienic (inner : PyBody) (frames : IrFrames) (innerCtx : TracingContext) : Prop :=
  ∀ x ∈ inner.captured frames.captures, ∀ ir, frames.find x = some ir →
    ∃ j, ir = createReference (localName j) ∧ innerCtx.nameToIr.length ≤ j

/-- What holds of the trace of a body that uses the variables `xs`: those of the functions around it are
there, the locals and what is returned are within the names that the variables bring in, and what is
used occurs in a local or is returned. -/
structure Accounts (frames : IrFrames) (xs : List PyVariable) (ctx : TracingContext) (res : Value)
    (ctx' : TracingContext) : Prop where
  found : ∀ x ∈ xs, 0 < x.depth → ∃ ir, frames.find x = some ir
  wellScoped : ∀ B : Set String, (∀ x ∈ xs, ∀ ir, frames.find x = some ir → ir.Within (ctx.inScope B)) →
    ctx.Scoped B → ctx'.Scoped B ∧ res.Within (ctx'.inScope B)
  occur : ∀ N : Set String, ctx'.LocalsWithin N → res.Within N →
    ∀ x ∈ xs, ∀ ir, frames.find x = some ir → ir.Within N

namespace Accounts

variable {frames : IrFrames} {xs : List PyVariable} {ctx ctx₁ ctx' : TracingContext} {res : Value}

theorem ret {x : PyVariable} (h : frames.find x = some res) : Accounts frames [x] ctx res ctx where
  found := List.forall_mem_singleton.mpr fun _ => ⟨res, h⟩
  wellScoped B hvars hctx := ⟨hctx, hvars x (List.mem_singleton_self x) res h⟩
  occur N _ hres := by
    refine List.forall_mem_singleton.mpr fun ir hir => ?_
    cases h.symm.trans hir
    exact hres

/-- A call: of a computation, or of a function. -/
theorem call {n : Nat} {ys : List PyVariable} {args : List PyOperand} {objects : List PyObject}
    {c r : Value} (hobjects : PyOperand.objects frames args = .ok objects)
    (hcall : ctx.call c objects = .ok (r, ctx₁)) (hle : ctx₁.Extends ctx') (hdistinct : ctx'.Distinct)
    (hc : RefersTo frames n xs c) (hrest : Accounts (frames.push r) ys ctx₁ res ctx') :
    Accounts frames (xs.map (PyVariable.inner n) ++ (args.flatMap PyOperand.uses ++ ys)) ctx res ctx' where
  found := by
    refine List.forall_mem_append.mpr ⟨?_, List.forall_mem_append.mpr ⟨?_, ?_⟩⟩
    · exact List.forall_mem_map.mpr fun x hx _ => hc.found x hx
    · exact fun x hx _ => found_of_objects hobjects x hx
    · intro x hx hpos
      rw [← Frames.find_push_of_pos hpos]
      exact hrest.found x hx hpos
  wellScoped B hvars hctx := by
    obtain ⟨hfunction, hvars⟩ := List.forall_mem_append.mp hvars
    obtain ⟨hargs, hvars⟩ := List.forall_mem_append.mp hvars
    have hir : c.Within (ctx.inScope B) := (hc.within_iff _).mpr (List.forall_mem_map.mp hfunction)
    obtain ⟨hctx₁, hr⟩ :=
      call_scoped hcall (hdistinct.of_extends hle) hir (objects_within hobjects hargs) hctx
    have hvars₁ : ∀ x ∈ ys, ∀ ir, frames.find x = some ir → ir.Within (ctx₁.inScope B) :=
      fun x hx ir hfind => (hvars x hx ir hfind).mono (call_extends hcall).inScope
    exact hrest.wellScoped B (Frames.forall_push hvars₁ hr) hctx₁
  occur N hlocals hres := by
    obtain ⟨hfunction, hargs⟩ :=
      within_of_call hcall (hdistinct.of_extends hle) (hlocals.of_extends hle)
    refine List.forall_mem_append.mpr ⟨?_, List.forall_mem_append.mpr ⟨?_, ?_⟩⟩
    · exact List.forall_mem_map.mpr ((hc.within_iff N).mp hfunction)
    · exact uses_within_of_objects hobjects hargs
    · exact fun x hx ir hir => hrest.occur N hlocals hres x hx ir (Frames.find_push_of_find hir)

/-- A definition adds neither to the variables nor to the locals. -/
theorem define {f : TracedFunction} {irs : List Value}
    (h : Accounts (frames.pushFunction f) xs (ctx.look irs) res ctx') : Accounts frames xs ctx res ctx' where
  found x hx hpos := by
    obtain ⟨ir, hir⟩ := h.found x hx hpos
    exact ⟨ir, Frames.find_pushFunction.symm.trans hir⟩
  wellScoped B hvars hctx :=
    h.wellScoped B (fun x hx ir hir => hvars x hx ir (Frames.find_pushFunction.symm.trans hir)) hctx
  occur N hlocals hres x hx ir hir :=
    h.occur N hlocals hres x hx ir (Frames.find_pushFunction.trans hir)

end Accounts

/-- **The lambda of a function refers to what the function captures**, if the definition is hygienic. -/
theorem tracedLambda_refersTo {inner : PyBody} {frames : IrFrames} {result : Value}
    {innerCtx : TracingContext} {arity : ArgCount} (hhygienic : Hygienic inner frames innerCtx)
    (h : Accounts (.begin (argList arity) :: frames) (inner.uses (.begin [] :: frames.captures)) .empty
      result innerCtx) :
    RefersTo frames 0 (inner.captured frames.captures) (tracedLambda result innerCtx) where
  found x hx := by
    obtain ⟨⟨_ | depth, source, i⟩, hy, hyx⟩ := List.mem_filterMap.mp hx
    · cases hyx
    · cases hyx
      exact h.found _ hy (Nat.succ_pos depth)
  within_iff N := by
    constructor
    · intro hlambda x hx ir hir
      obtain ⟨y, hy, hyx⟩ := List.mem_filterMap.mp hx
      let bound : Set String := insert "arg" N ∪ {z | z ∈ innerCtx.nameToIr.map Prod.fst}
      have hbound : innerCtx.LocalsWithin bound ∧ result.Within bound := by
        cases hlambda with
        | lambda h =>
            split at h
            · next hempty =>
                refine ⟨fun item hitem => ?_, h.mono Set.subset_union_left⟩
                rw [List.isEmpty_iff.mp hempty] at hitem
                cases hitem
            · exact h.of_block
      have hfind : Frames.find (.begin (argList arity) :: frames) y = some ir := by
        obtain ⟨_ | depth, source, i⟩ := y
        · cases hyx
        · cases hyx
          exact hir
      have hwithin := h.occur bound hbound.1 hbound.2 y hy ir hfind
      obtain ⟨j, rfl, hj⟩ := hhygienic x hx ir hir
      -- the lambda binds neither its parameter nor a local by this name
      rcases Value.within_reference_iff.mp hwithin with (harg | hN) | hlocal
      · exact (localName_ne_arg j harg).elim
      · exact .reference hN
      · obtain ⟨item, hitem, hname⟩ := List.mem_map.mp hlocal
        obtain ⟨k, hk⟩ := List.mem_iff_getElem?.mp hitem
        have hkj : k = j := localName_injective ((innerCtx.names k _ _ hk).symm.trans hname)
        exact absurd (List.getElem?_eq_some_iff.mp hk).1 (by omega)
    · intro hcaptured
      -- the function starts with no locals, and with its parameter in scope
      have hbase : insert "arg" N ⊆ TracingContext.empty.inScope (insert "arg" N) := fun x hx => .inl hx
      have hparameters : ∀ ir ∈ argList arity, ir.Within (TracingContext.empty.inScope (insert "arg" N)) := by
        intro ir hir
        refine (argList_within arity ir hir).mono (Set.Subset.trans ?_ hbase)
        exact Set.singleton_subset_iff.mpr (Set.mem_insert _ _)
      obtain ⟨hscoped, hresult⟩ := h.wellScoped (insert "arg" N)
        (Frames.forall_captured hparameters fun x hx ir hir =>
          (hcaptured x hx ir hir).mono ((Set.subset_insert _ _).trans hbase))
        fun _ _ _ h => absurd h (Option.not_mem_none _)
      exact tracedLambda_within hscoped hresult

/-- **What the trace of a body accounts for**, if the computations that it calls are closed and the
definitions in it are hygienic. -/
theorem traceBody_accounts : ∀ {body : PyBody} {frames : IrFrames} {ctx ctx' : TracingContext}
    {res : Value}, traceBody body frames ctx = .ok (res, ctx') → ctx'.Distinct →
    (∀ c ∈ body.computations, c.Within ∅) → body.EachDefinition Hygienic frames ctx → frames.Recorded →
    Accounts frames (body.uses frames.captures) ctx res ctx'
  | .ret x, frames, ctx, ctx', res, h, _, _, _, _ => by
      obtain ⟨hfind, rfl⟩ := traceBody_ret_cases h
      exact .ret hfind
  | .call portableIr args rest, frames, ctx, ctx', res, h, hdistinct, hclosed, hhyg, hrecorded => by
      obtain ⟨objects, r, ctx₁, hobjects, hcall, hrest⟩ := traceBody_call_cases h
      obtain ⟨hir, hclosed⟩ := List.forall_mem_cons.mp hclosed
      have ih := traceBody_accounts hrest hdistinct hclosed (hhyg objects hobjects (r, ctx₁) hcall)
        (hrecorded.push r)
      rw [Frames.captures_push] at ih
      exact .call hobjects hcall (traceBody_extends hrest) hdistinct (.of_closed (n := 0) hir) ih
  | .define arity inner rest, frames, ctx, ctx', res, h, hdistinct, hclosed, hhyg, hrecorded => by
      obtain ⟨result, innerCtx, hfunction, hrest⟩ := traceBody_define_cases h
      obtain ⟨hhygienic, hhygInner, hhygRest⟩ := hhyg (result, innerCtx) hfunction
      obtain ⟨-, hinner⟩ := traceFunction_cases hfunction
      obtain ⟨hclosedInner, hclosed⟩ := List.forall_mem_append.mp hclosed
      have hdistinctInner : innerCtx.Distinct :=
        (hdistinct.of_extends (traceBody_extends hrest)).of_look rfl
      -- the inner body is accounted for with a parameter frame of its own
      have ihInner := traceBody_accounts hinner hdistinctInner hclosedInner hhygInner (hrecorded.begin _)
      have hrefers := tracedLambda_refersTo hhygienic ihInner
      have ih := traceBody_accounts hrest hdistinct hclosed hhygRest
        (hrecorded.pushFunction (fun _ _ heq => by cases heq) hrefers)
      rw [Frames.captures_pushFunction] at ih
      exact .define ih
  | .apply g args rest, frames, ctx, ctx', res, h, hdistinct, hclosed, hhyg, hrecorded => by
      obtain ⟨f, objects, r, ctx₁, hf, hobjects, hcall, hrest⟩ := traceBody_apply_cases h
      -- a function that was defined before is put in as it is, so what it captured is used here
      obtain ⟨-, hrefers⟩ := hrecorded g f hf
      have ih := traceBody_accounts hrest hdistinct hclosed (hhyg f hf objects hobjects (r, ctx₁) hcall)
        (hrecorded.push r)
      rw [Frames.captures_push] at ih
      rw [PyBody.uses, Frames.function_captures hf]
      exact .call hobjects hcall (traceBody_extends hrest) hdistinct hrefers ih

end GenC
