import GenC.Intrinsics.Parametricity
import GenC.Runtime.ControlFlowExecutor

/-!
# Captured names

Evaluation depends on a scope only through the names that the IR captures. `Value.Over N B` says that the
lambdas and intrinsics in a piece of IR capture no names but those in `N`, and that what is outside of
them refers to no others but those in `B`. Two scopes agree on names if each is bound in neither, or bound
to values that are alike: the same values of the child, functions with the same IR, whose scopes agree on
`N` again.

**`ControlFlowExecutor.knot_alike`**: from one state, IR over `N` runs alike in scopes that agree on `N`,
and functions that are alike run alike on arguments that are. What the IR may capture is what counts, not
what is free in it: a lambda that is materialized leaves the scope of its names behind.
-/

namespace GenC

open Lib

/-! ## Names in IR -/

/-- The names that occur free in `v` are in `N` or in `B`, and the captured ones in `N`: those that are free
in one of its lambdas, at whatever depth, or in the parameter of one of its intrinsics. A name that is bound
around such a lambda is captured by it like any other: a nested function that refers to the parameter of the
one around it captures it. A function that is called without an argument finds its parameter in its scope,
whatever the name of it is. -/
inductive Value.Over (N : Set String) : Set String → Value → Prop where
  | notSet {B : Set String} {m : Meta} : Over N B (.notSet m)
  | scalar {B : Set String} {m : Meta} {c : Scalar} : Over N B (.scalar m c)
  | call {B : Set String} {m : Meta} {function : Value} {argument : Option Value}
      (hf : Over N B function) (ha : ∀ a ∈ argument, Over N B a)
      (habsent : argument = none → ∀ x, x ∈ N) : Over N B (.call m function argument)
  | lambda {B : Set String} {m : Meta} {parameterName : String} {result : Value}
      (h : Over N {parameterName} result) : Over N B (.lambda m parameterName result)
  | reference {B : Set String} {m : Meta} {name : String} (h : name ∈ N ∪ B) :
      Over N B (.reference m name)
  | struct {B : Set String} {m : Meta} {element : List Value} (h : ∀ e ∈ element, Over N B e) :
      Over N B (.struct m element)
  | selection {B : Set String} {m : Meta} {source : Value} {index : Int32} (h : Over N B source) :
      Over N B (.selection m source index)
  | block_nil {B : Set String} {m : Meta} {result : Value} (h : Over N B result) :
      Over N B (.block m [] result)
  | block_cons {B : Set String} {m : Meta} {name : String} {localPb result : Value}
      {locals : List (String × Value)} (hlocal : Over N B localPb)
      (h : Over N (insert name B) (.block m locals result)) :
      Over N B (.block m ((name, localPb) :: locals) result)
  | intrinsic {B : Set String} {m : Meta} {uri : String} {staticParameter : Option Value}
      (h : ∀ v ∈ staticParameter, Over N ∅ v) : Over N B (.intrinsic m uri staticParameter)

/-- Closed IR over `N`: it refers to no names outside of it. -/
abbrev Value.ClosedOver (N : Set String) : Value → Prop := Value.Over N ∅

namespace Value

variable {N : Set String}

theorem closedOver_inherited : Inherited (ClosedOver N) where
  default := .notSet
  elements := by
    intro v hv e he
    cases hv with
    | struct h => exact h e he
    | _ => cases he

mutual

/-- Everything is over all names. -/
theorem over_univ : ∀ (v : Value) (B : Set String), v.Over Set.univ B
  | .notSet _, _ => .notSet
  | .scalar _ _, _ => .scalar
  -- the parameter may have any name, and every name is allowed
  | .call _ function none, B =>
      .call (over_univ function B) (fun _ h => (nomatch h)) fun _ x => Set.mem_univ x
  | .call _ function (some argument), B => by
      refine .call (over_univ function B) ?_ fun h => (nomatch h)
      rintro _ ⟨⟩
      exact over_univ argument B
  | .lambda _ _ result, _ => .lambda (over_univ result _)
  | .reference _ name, _ => .reference (.inl (Set.mem_univ name))
  | .struct _ element, B => .struct (over_univ_all element B)
  | .selection _ source _, B => .selection (over_univ source B)
  | .block _ locals result, B => over_univ_block locals (over_univ result) B
  | .intrinsic _ _ none, _ => .intrinsic fun _ h => (nomatch h)
  | .intrinsic _ _ (some staticParameter), _ => by
      refine .intrinsic ?_
      rintro _ ⟨⟩
      exact over_univ staticParameter ∅

theorem over_univ_all : ∀ (vs : List Value) (B : Set String), ∀ v ∈ vs, v.Over Set.univ B
  | [], _ => List.forall_mem_nil _
  | v :: vs, B => List.forall_mem_cons.mpr ⟨over_univ v B, over_univ_all vs B⟩

theorem over_univ_block {m : Meta} {result : Value} : ∀ (locals : List (String × Value)),
    (∀ B, result.Over Set.univ B) → ∀ B, (Value.block m locals result).Over Set.univ B
  | [], hresult, B => .block_nil (hresult B)
  | (_, localPb) :: locals, hresult, B =>
      .block_cons (over_univ localPb B) (over_univ_block locals hresult _)

end

end Value

/-! ## Values that are alike -/

/-- Two results of a lookup: nothing was found in either scope, or what was found is related. -/
inductive Resolved {V : Type} (R : V → V → Prop) : StatusOr V → StatusOr V → Prop where
  | error {e e' : Status} (h : e.SameCode e') : Resolved R (.error e) (.error e')
  | ok {v v' : V} (h : R v v') : Resolved R (.ok v) (.ok v')

/-- Nothing but IR over `N` comes of IR over `N`. -/
def InlineHandler.Keeps (Good : Value → Prop) (handler : InlineHandler) : Prop :=
  ∀ intr arg result, (∀ v ∈ intr.staticParameter, Good v) → Good arg →
    handler.executeCall intr arg = some (.ok result) → Good result

def IntrinsicHandler.Keeps (Good : Value → Prop) (handler : IntrinsicHandler) : Prop :=
  match handler.interface with
  | .inline interface => interface.Keeps Good
  | .controlFlow interface => interface.Keeps Good

/-- The same value of the child, structures of values that are alike, or the same function, over `N`, in
scopes that agree on `N`. -/
inductive ExecutorValue.Alike (N : Set String) : ExecutorValue → ExecutorValue → Prop where
  | embedded {id : ValueId} : Alike N (.embedded id) (.embedded id)
  | struct {vs vs' : List ExecutorValue} (h : List.Forall₂ (Alike N) vs vs') :
      Alike N (.struct vs) (.struct vs')
  | lambda {lambdaPb : Lambda} {scope scope' : Scope}
      (hbody : lambdaPb.result.Over N {lambdaPb.parameterName})
      (hscope : ∀ x ∈ N, Resolved (Alike N) (Scope.resolve x scope) (Scope.resolve x scope')) :
      Alike N (.lambda lambdaPb scope) (.lambda lambdaPb scope')
  | intrinsic {intrinsicPb : Intrinsic} {handler : IntrinsicHandler} {scope scope' : Scope}
      (hparameter : ∀ v ∈ intrinsicPb.staticParameter, v.ClosedOver N)
      (hkeeps : handler.Keeps (Value.ClosedOver N))
      (hscope : ∀ x ∈ N, Resolved (Alike N) (Scope.resolve x scope) (Scope.resolve x scope')) :
      Alike N (.intrinsic intrinsicPb handler scope) (.intrinsic intrinsicPb handler scope')

/-- The names of `M` are bound alike. -/
def Scope.AgreeOn (N M : Set String) (scope scope' : Scope) : Prop :=
  ∀ x ∈ M, Resolved (ExecutorValue.Alike N) (scope.resolve x) (scope'.resolve x)

namespace Scope.AgreeOn

variable {N M M' : Set String} {scope scope' : Scope}

theorem mono (h : scope.AgreeOn N M scope') (hM : M' ⊆ M) : scope.AgreeOn N M' scope' :=
  fun x hx => h x (hM hx)

/-- A new name hides what it was bound to before. -/
theorem cons (h : scope.AgreeOn N M scope') {name : String} {v v' : ExecutorValue}
    (hv : v.Alike N v') :
    Scope.AgreeOn N (insert name M) ((name, v) :: scope) ((name, v') :: scope') := by
  intro x hx
  rw [Scope.resolve, Scope.resolve]
  by_cases hname : name = x
  · rw [if_pos hname, if_pos hname]
    exact .ok hv
  · rw [if_neg hname, if_neg hname]
    exact h x (hx.resolve_left fun heq => hname heq.symm)

end Scope.AgreeOn

/-! ## Embedding -/

/-- The operations of the executor keep `I` as long as they are given good IR, and then good IR is what
comes out of it. -/
structure Executor.Keeps {Id σ : Type} (I : σ → Prop) (Good : Value → Prop) (exec : Executor Id σ) :
    Prop where
  createValue : ∀ {v}, Good v →
    Run.Alike I Eq Eq (exec.createValue v) (exec.createValue v)
  createCall : ∀ function argument,
    Run.Alike I Eq Eq (exec.createCall function argument) (exec.createCall function argument)
  createStruct : ∀ members,
    Run.Alike I Eq Eq (exec.createStruct members) (exec.createStruct members)
  createSelection : ∀ source index,
    Run.Alike I Eq Eq (exec.createSelection source index) (exec.createSelection source index)
  materialize : ∀ id {output}, (∀ w ∈ output, Good w) →
    Run.Alike I Eq (fun m m' => m = m' ∧ ∀ w ∈ m.output, Good w)
      (exec.materialize id output) (exec.materialize id output)
  dispose : ∀ id, Run.Alike I Eq Eq (exec.dispose id) (exec.dispose id)

namespace Executor.Keeps

variable {Id σ α β : Type} {I : σ → Prop} {Good : Value → Prop} {exec : Executor Id σ}

theorem releaseAll (h : exec.Keeps I Good) : ∀ ids,
    Run.Alike I Eq Eq (exec.releaseAll ids) (exec.releaseAll ids)
  | [] => .pure rfl
  | id :: ids => (h.dispose id).attempt.bind fun _ _ _ => releaseAll h ids

theorem releasing (h : exec.Keeps I Good) (ids : List Id) {R : α → β → Prop} {x : Exec σ α}
    {y : Exec σ β} (hxy : Run.Alike I Eq R x y) :
    Run.Alike I Eq R (exec.releasing ids x) (exec.releasing ids y) := by
  refine hxy.attempt.bind fun r r' hr => ?_
  rcases r with e | a <;> rcases r' with e' | b
  · exact (h.releaseAll ids).bind fun _ _ _ => .throw hr
  · exact hr.elim
  · exact hr.elim
  · exact (h.releaseAll ids).bind fun _ _ _ => .pure hr

end Executor.Keeps

namespace ControlFlowExecutor

variable {σ : Type} {exec : ControlFlowExecutor σ} {I : σ → Prop} {N : Set String}

/-- Errors that are the same are of the same kind. -/
theorem sameCode_of_eq (e e' : Status) (h : e = e') : e.SameCode e' := congrArg Status.code h

section

variable (hchild : exec.childExecutor.Keeps I (Value.ClosedOver N))

include hchild

mutual

/-- Only the IR of a function is embedded, not its scope. -/
theorem embed_alike : ∀ {v v' : ExecutorValue}, v.Alike N v' →
    Run.Alike I Eq Eq (exec.embed v) (exec.embed v')
  | .embedded _, _, .embedded => .pure rfl
  | .struct _, _, .struct h => by
      refine (embedFields_alike h [] []).bind fun (ids, slots) _ => ?_
      rintro rfl
      refine (hchild.releasing slots (hchild.createStruct ids)).bind fun id _ => ?_
      rintro rfl
      exact .pure rfl
  | .lambda _ _, _, .lambda hbody _ => by
      refine (hchild.createValue (.lambda hbody)).bind fun id _ => ?_
      rintro rfl
      exact .pure rfl
  | .intrinsic _ _ _, _, .intrinsic _ _ _ => .throw rfl

theorem embedFields_alike : ∀ {vs vs' : List ExecutorValue},
    List.Forall₂ (ExecutorValue.Alike N) vs vs' → ∀ ids slots,
      Run.Alike I Eq Eq (exec.embedFields vs ids slots) (exec.embedFields vs' ids slots)
  | [], _, .nil, _, _ => .pure rfl
  | _ :: _, _, .cons h hs, ids, slots => by
      refine (embed_alike h).attempt.bind fun r r' hr => ?_
      rcases r with e | ⟨id, slot⟩ <;> rcases r' with e' | ⟨id', slot'⟩
      · exact (hchild.releaseAll slots).bind fun _ _ _ => .throw hr
      · exact hr.elim
      · exact hr.elim
      · obtain ⟨rfl, rfl⟩ := Prod.mk.inj hr
        exact embedFields_alike hs _ _

end

/-- Values that are alike materialize to the same. -/
theorem constMaterialize_alike {v v' : ExecutorValue} (h : v.Alike N v') {output : Option Value}
    (houtput : ∀ w ∈ output, w.ClosedOver N) :
    Run.Alike I Eq (fun m m' => m = m' ∧ ∀ w ∈ m.output, w.ClosedOver N)
      (exec.constMaterialize v output) (exec.constMaterialize v' output) := by
  refine (embed_alike hchild h).attempt.bind fun r r' hr => ?_
  rcases r with e | ⟨id, slot⟩ <;> rcases r' with e' | ⟨id', slot'⟩
  · obtain rfl : e = e' := hr
    exact .pure ⟨rfl, houtput⟩
  · exact hr.elim
  · exact hr.elim
  · obtain ⟨rfl, rfl⟩ := Prod.mk.inj hr
    exact hchild.releasing _ (hchild.materialize id houtput)

/-- What is the child's does not depend on a scope. -/
theorem createChildValue_alike {v : Value} (hv : v.ClosedOver N) :
    Run.Alike I Status.SameCode (ExecutorValue.Alike N) (exec.createChildValue v)
      (exec.createChildValue v) := by
  refine ((hchild.createValue hv).mono sameCode_of_eq fun _ _ h => h).bind fun id _ => ?_
  rintro rfl
  exact .pure .embedded

theorem createSelectionInternal_alike {v v' : ExecutorValue} (h : v.Alike N v') (index : UInt32) :
    Run.Alike I Status.SameCode (ExecutorValue.Alike N) (exec.createSelectionInternal v index)
      (exec.createSelectionInternal v' index) := by
  cases h with
  | embedded =>
      refine ((hchild.createSelection _ index).mono sameCode_of_eq fun _ _ h => h).bind fun id _ => ?_
      rintro rfl
      exact .pure .embedded
  | struct h =>
      dsimp only [createSelectionInternal]
      rcases forall₂_getElem? h index.toNat with ⟨hnone, hnone'⟩ | ⟨e, e', he, he', h⟩
      · rw [hnone, hnone']
        exact .throw rfl
      · rw [he, he']
        exact .pure h
  | lambda => exact .throw rfl
  | intrinsic => exact .throw rfl

/-! ### Calls of the child -/

theorem callEmbedded_alike (f : ValueId) {a a' : Option ExecutorValue}
    (ha : Option.Rel (ExecutorValue.Alike N) a a') :
    Run.Alike I Status.SameCode (ExecutorValue.Alike N) (exec.callEmbedded f a)
      (exec.callEmbedded f a') := by
  cases ha with
  | none =>
      refine ((hchild.createCall f none).mono sameCode_of_eq fun _ _ h => h).bind fun id _ => ?_
      rintro rfl
      exact .pure .embedded
  | some ha =>
      refine ((embed_alike hchild ha).mono sameCode_of_eq fun _ _ h => h).bind fun (id, slot) _ => ?_
      rintro rfl
      have hcall := hchild.releasing slot.toList (hchild.createCall f (some id))
      refine (hcall.mono sameCode_of_eq fun _ _ h => h).bind fun id _ => ?_
      rintro rfl
      exact .pure .embedded

end

end ControlFlowExecutor

/-! ## The evaluator -/

/-- The knot runs alike, in scopes that agree, on what is alike. -/
structure Knot.Alike {σ : Type} (I : σ → Prop) (N : Set String) (k : Knot σ) : Prop where
  evaluate : ∀ {v B scope scope'}, v.Over N B → Scope.AgreeOn N (N ∪ B) scope scope' →
    Run.Alike I Status.SameCode (ExecutorValue.Alike N) (k.evaluate v scope) (k.evaluate v scope')
  createCall : ∀ {f f' a a'}, ExecutorValue.Alike N f f' → Option.Rel (ExecutorValue.Alike N) a a' →
    (a = none → ∀ x, x ∈ N) →
    Run.Alike I Status.SameCode (ExecutorValue.Alike N) (k.createCall f a) (k.createCall f' a')

namespace ControlFlowExecutor

variable {σ : Type} {exec : ControlFlowExecutor σ} {I : σ → Prop} {N : Set String}

section

variable (hchild : exec.childExecutor.Keeps I (Value.ClosedOver N)) {k : Knot σ} (hk : k.Alike I N)

include hchild hk

/-- A handler finds in its scope what it would have found in the other. -/
theorem context_alike {scope scope' : Scope} (hscope : scope.AgreeOn N N scope') :
    (exec.context k scope).Alike (∀ x, x ∈ N) I (Value.ClosedOver N) (ExecutorValue.Alike N)
      (exec.context k scope') where
  createValue := by
    intro v hv
    show Run.Alike I _ _ (if hasComputation v then _ else _) (if hasComputation v then _ else _)
    split
    · exact hk.evaluate hv (hscope.mono (Set.union_empty N).subset)
    · next hcomputation =>
        cases v with
        | scalar => exact createChildValue_alike hchild hv
        | notSet => exact .throw rfl
        | _ => exact absurd rfl hcomputation
  createCall := hk.createCall
  createStruct h := .pure (.struct h)
  materialize output h houtput :=
    (constMaterialize_alike hchild h houtput).mono sameCode_of_eq fun _ _ h => h

theorem constCreateCallStep_alike [ProtoText] (fuel : Nat) {f f' : ExecutorValue} {a a' : Option ExecutorValue}
    (hf : f.Alike N f') (ha : Option.Rel (ExecutorValue.Alike N) a a')
    (habsent : a = none → ∀ x, x ∈ N) :
    Run.Alike I Status.SameCode (ExecutorValue.Alike N) (exec.constCreateCallStep fuel k f a)
      (exec.constCreateCallStep fuel k f' a') := by
  cases hf with
  | embedded => exact callEmbedded_alike hchild _ ha
  | struct => exact .throw rfl
  | @lambda lambdaPb scope scope' hbody hscope =>
      have hscope : Scope.AgreeOn N N scope scope' := hscope
      cases ha with
      | some ha =>
          refine hk.evaluate hbody ((hscope.cons ha).mono ?_)
          rw [Set.union_comm, Set.singleton_union]
      | none =>
          -- then the parameter is looked up in the scope
          exact hk.evaluate hbody (hscope.mono fun x _ => habsent rfl x)
  | @intrinsic intrinsicPb handler scope scope' hparameter hkeeps hscope =>
      refine Run.Alike.bind (R := fun i i' => i = i' ∧ i.Keeps (Value.ClosedOver N)) (.ofExcept ?_)
        fun interface _ => ?_
      · unfold IntrinsicHandler.Keeps at hkeeps
        unfold IntrinsicHandler.getControlFlowInterface
        cases h : handler.interface with
        | inline => exact rfl
        | controlFlow =>
            rw [h] at hkeeps
            exact ⟨rfl, hkeeps⟩
      · rintro ⟨rfl, hinterface⟩
        have hargument : a.isSome = a'.isSome := by cases ha <;> rfl
        rw [hargument]
        refine (Run.Alike.tell (R := fun _ _ => True) _ trivial).bind fun _ _ _ => ?_
        have hgood : intrinsicPb.parameter.ClosedOver N := by
          unfold Intrinsic.parameter
          cases hs : intrinsicPb.staticParameter with
          | none => exact .notSet
          | some v => exact hparameter v hs
        exact ControlFlowHandler.executeCall_alike (context_alike hchild hk hscope)
          Value.closedOver_inherited fuel hinterface hgood ha habsent

omit hchild

/-- The locals are bound alike, one after the other. -/
theorem evaluateLocals_alike (names : String) {m : Meta} {result : Value} :
    ∀ {locals : List (String × Value)} {B : Set String} {scope scope' : Scope},
      (Value.block m locals result).Over N B → scope.AgreeOn N (N ∪ B) scope' →
      Run.Alike I Status.SameCode
        (fun scope scope' => ∃ B, result.Over N B ∧ Scope.AgreeOn N (N ∪ B) scope scope')
        (evaluateLocals k names locals scope) (evaluateLocals k names locals scope')
  | [], B, _, _, h, hscope => by
      cases h with
      | block_nil h => exact .pure ⟨B, h, hscope⟩
  | (name, localPb) :: locals, B, _, _, h, hscope => by
      cases h with
      | block_cons hlocal h =>
          refine Run.Alike.bind ((hk.evaluate hlocal hscope).mapError ?_) fun v v' hv => ?_
          · exact fun _ _ he => he
          · refine evaluateLocals_alike names h ?_
            rw [Set.union_insert]
            exact hscope.cons hv

theorem evaluateBlock_alike {m : Meta} {locals : List (String × Value)} {result : Value} {B : Set String}
    (h : (Value.block m locals result).Over N B) {scope scope' : Scope}
    (hscope : scope.AgreeOn N (N ∪ B) scope') :
    Run.Alike I Status.SameCode (ExecutorValue.Alike N) (evaluateBlock k locals result scope)
      (evaluateBlock k locals result scope') := by
  refine (evaluateLocals_alike hk _ h hscope).bind fun scope scope' => ?_
  rintro ⟨B', hresult, hscope⟩
  exact hk.evaluate hresult hscope

theorem evaluateElements_alike {B : Set String} {scope scope' : Scope}
    (hscope : scope.AgreeOn N (N ∪ B) scope') : ∀ {elements : List Value},
      (∀ e ∈ elements, e.Over N B) →
      Run.Alike I Status.SameCode (List.Forall₂ (ExecutorValue.Alike N))
        (evaluateElements k elements scope) (evaluateElements k elements scope')
  | [], _ => .pure .nil
  | _ :: _, h => by
      obtain ⟨he, hes⟩ := List.forall_mem_cons.mp h
      exact (hk.evaluate he hscope).bind fun _ _ hv => (evaluateElements_alike hscope hes).bind
        fun _ _ hvs => .pure (.cons hv hvs)

end

/-- What is found in one scope is found in the other; the errors show the scopes. -/
theorem evaluateReference_alike {name : String} {scope scope' : Scope} {M : Set String}
    (hscope : scope.AgreeOn N M scope') (hname : name ∈ M) :
    Run.Alike I Status.SameCode (ExecutorValue.Alike N)
      (evaluateReference name scope : Exec σ ExecutorValue) (evaluateReference name scope') := by
  unfold evaluateReference
  have hresolved := hscope name hname
  cases hv : scope.resolve name <;> cases hv' : scope'.resolve name <;> rw [hv, hv'] at hresolved <;>
    cases hresolved
  · next h => exact (Run.Alike.throw h).mapError fun _ _ he => he
  · next h => exact (Run.Alike.pure h).mapError fun _ _ he => he

/-! ### Every kind of IR -/

section

variable [ProtoText] (hchild : exec.childExecutor.Keeps I (Value.ClosedOver N))
  (hhandlers : ∀ handler ∈ exec.intrinsicHandlers, handler.Keeps (Value.ClosedOver N))

theorem runCheckWellFormed_alike (handler : IntrinsicHandler) (intr : Intrinsic) :
    Run.Alike I Status.SameCode Eq (handler.runCheckWellFormed intr : Exec σ Unit)
      (handler.runCheckWellFormed intr) :=
  runCheckWellFormed_related (.lockstep Event Crash I Status.SameCode fun _ => rfl) (w := ()) handler intr

include hchild hhandlers

theorem evaluateIntrinsic_alike {m : Meta} {uri : String} {staticParameter : Option Value}
    (h : ∀ v ∈ staticParameter, v.ClosedOver N) {scope scope' : Scope}
    (hscope : scope.AgreeOn N N scope') :
    Run.Alike I Status.SameCode (ExecutorValue.Alike N)
      (exec.evaluateIntrinsic (.intrinsic m uri staticParameter) ⟨uri, staticParameter⟩ scope)
      (exec.evaluateIntrinsic (.intrinsic m uri staticParameter) ⟨uri, staticParameter⟩ scope') := by
  refine Run.Alike.bind (R := fun i i' => i = i' ∧ i.Keeps (Value.ClosedOver N)) (.ofExcept ?_)
    fun handler _ => ?_
  · cases hget : exec.intrinsicHandlers.getHandler uri with
    | error e => exact rfl
    | ok handler =>
        exact ⟨rfl, hhandlers handler (IntrinsicHandlerSet.mem_of_getHandler hget)⟩
  · rintro ⟨rfl, hkeeps⟩
    refine (runCheckWellFormed_alike handler _).bind fun _ _ _ => ?_
    -- an inline handler sees the parameter only, and a control-flow handler its scope as well
    cases handler.interface with
    | inline => exact createChildValue_alike hchild (.intrinsic h)
    | controlFlow =>
        refine (runCheckWellFormed_alike handler _).bind fun _ _ _ => ?_
        exact .pure (.intrinsic h hkeeps hscope)

theorem evaluateStep_alike {k : Knot σ} (hk : k.Alike I N) {v : Value} {B : Set String}
    (hv : v.Over N B) {scope scope' : Scope} (hscope : scope.AgreeOn N (N ∪ B) scope') :
    Run.Alike I Status.SameCode (ExecutorValue.Alike N) (exec.evaluateStep k v scope)
      (exec.evaluateStep k v scope') := by
  have hcaptured : scope.AgreeOn N N scope' := hscope.mono Set.subset_union_left
  cases hv with
  | notSet => exact createChildValue_alike hchild .notSet
  | scalar => exact createChildValue_alike hchild .scalar
  | @call _ m function argument hf ha habsent =>
      refine (hk.evaluate hf hscope).bind fun _ _ hf => ?_
      cases argument with
      | none => exact hk.createCall hf .none fun _ => habsent rfl
      | some argument =>
          exact (hk.evaluate (ha argument rfl) hscope).bind fun _ _ ha =>
            hk.createCall hf (.some ha) fun hnone => (nomatch hnone)
  | lambda h => exact .pure (.lambda h hcaptured)
  | reference h => exact evaluateReference_alike hscope h
  | struct h =>
      exact (evaluateElements_alike hk hscope h).bind fun _ _ hvs => .pure (.struct hvs)
  | selection h =>
      exact (hk.evaluate h hscope).bind fun _ _ hv => createSelectionInternal_alike hchild hv _
  | @block_nil _ m _ h => exact evaluateBlock_alike hk (.block_nil (m := m) h) hscope
  | block_cons hlocal h => exact evaluateBlock_alike hk (.block_cons hlocal h) hscope
  | intrinsic h => exact evaluateIntrinsic_alike hchild hhandlers h hcaptured

/-- **IR over `N` runs alike in scopes that agree on `N`**, and so do calls. -/
theorem knot_alike : ∀ fuel : Nat, (exec.knot fuel).Alike I N
  | 0 => ⟨fun _ _ => .outOfFuel, fun _ _ _ => .outOfFuel⟩
  | fuel + 1 =>
      ⟨fun hv hscope => evaluateStep_alike hchild hhandlers (knot_alike fuel) hv hscope,
        fun hf ha habsent => constCreateCallStep_alike hchild (knot_alike fuel) fuel hf ha habsent⟩

end

end ControlFlowExecutor

end GenC
