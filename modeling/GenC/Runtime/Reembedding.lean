import GenC.Runtime.Keeping
import GenC.Runtime.RoundTrip

/-!
# Functions that are created anew

A handler that materializes a function gets its IR, and what it creates from the IR is a function in the
handler's own scope. So it is with the state of `RepeatedConditionalChain` between its steps, and with the
elements that `ParallelMap` maps over: the captured names of the function are looked up in a scope that it
did not capture.

**`reembedding_preserves_iff`**: all functions over a set of names survive this if and only if the two
scopes agree on the names.
-/

namespace GenC

open Lib

/-! ## Everything is over all names -/

theorem IntrinsicHandler.keeps_univ (handler : IntrinsicHandler) :
    handler.Keeps (Value.ClosedOver Set.univ) := by
  unfold IntrinsicHandler.Keeps
  split
  · exact fun _ _ result _ _ _ => result.over_univ ∅
  · next interface _ =>
      cases interface with
      | delegate => exact fun _ _ _ _ _ result _ _ _ => result.over_univ ∅
      | _ => trivial

mutual

theorem ExecutorValue.alike_univ : ∀ v : ExecutorValue, v.Alike Set.univ v
  | .embedded _ => .embedded
  | .struct vs => .struct (alike_univ_all vs)
  | .lambda lambdaPb scope => .lambda (lambdaPb.result.over_univ _) fun x _ => resolved_univ scope x
  | .intrinsic _ handler scope =>
      .intrinsic (fun v _ => v.over_univ _) handler.keeps_univ fun x _ => resolved_univ scope x

theorem alike_univ_all : ∀ vs : List ExecutorValue, List.Forall₂ (ExecutorValue.Alike Set.univ) vs vs
  | [] => .nil
  | v :: vs => .cons v.alike_univ (alike_univ_all vs)

theorem resolved_univ : ∀ (scope : List (String × ExecutorValue)) (x : String),
    Resolved (ExecutorValue.Alike Set.univ) (Scope.resolve x scope) (Scope.resolve x scope)
  | [], _ => .error rfl
  | (name, v) :: scope, x => by
      rw [Scope.resolve]
      split
      · exact .ok v.alike_univ
      · exact resolved_univ scope x

end

/-! ## Materialized and created anew -/

/-- What `RepeatedConditionalChain` does to its state between two steps. -/
def Context.reembed {σ V : Type} (ctx : Context σ V) (value : V) : Exec σ V := do
  ctx.createValue (← ctx.materializeValue value)

/-- What `ParallelMap` does to the elements of its argument. -/
def Context.reembedElements {σ V : Type} (ctx : Context σ V) (value : V) : Exec σ (List V) := do
  ctx.createValues (← ctx.materializeValue value).elements

section

variable [ProtoText] (handlers : IntrinsicHandlerSet)

/-- From the same state, both do the same and end alike; and what they return materializes to the same. -/
def SameMeaning (N : Set String) (x y : Exec InlineState ExecutorValue) : Prop :=
  Run.Alike (fun s : InlineState => s.table.All (InlineExecutor.Holds N)) Status.SameCode
    (fun v v' => v.Alike N v' ∧ ∀ pb : Value, pb.ClosedOver N →
      Run.Alike (fun s : InlineState => s.table.All (InlineExecutor.Holds N)) Eq
        (fun m m' => m = m') ((localExecutor handlers).constMaterialize v (some pb))
        ((localExecutor handlers).constMaterialize v' (some pb))) x y

/-- The functions over `N` mean the same in both scopes, whatever they are applied to. -/
def Preserves (N : Set String) (scope scope' : Scope) : Prop :=
  ∀ lambdaPb : Lambda, lambdaPb.result.Over N {lambdaPb.parameterName} →
    ∀ a : ExecutorValue, a.Alike N a → ∀ fuel, SameMeaning handlers N
      ((localExecutor handlers).constCreateCall fuel (.lambda lambdaPb scope) (some a))
      ((localExecutor handlers).constCreateCall fuel (.lambda lambdaPb scope') (some a))

variable {handlers}

/-- A function that is created anew is the same IR in another scope. -/
theorem reembed_lambda (lambdaPb : Lambda) (scope scope' : Scope) (n : Nat) (s : InlineState) :
    ∃ s', Run.Returns (((localExecutor handlers).context ((localExecutor handlers).knot (n + 1))
      scope').reembed (.lambda lambdaPb scope)) s (.lambda lambdaPb scope') s' := by
  -- the scope is not embedded
  have halive : (ExecutorValue.lambda lambdaPb []).Alive s := .lambda fun _ h => (nomatch h)
  obtain ⟨s', -, hm⟩ := constMaterialize_ok handlers halive rfl .defaultInstance
  exact ⟨s', Run.Returns.bind (hm.bind (.pure _ _)) (.pure _ _)⟩

/-- So is each function in a structure. -/
theorem reembedElements_lambdas (fns : List (Lambda × Scope)) (scope' : Scope) (n : Nat)
    (s : InlineState) :
    ∃ s', Run.Returns (((localExecutor handlers).context ((localExecutor handlers).knot (n + 1))
      scope').reembedElements (.struct (fns.map fun f => .lambda f.1 f.2))) s
      (fns.map fun f => .lambda f.1 scope') s' := by
  let bare : List ExecutorValue := fns.map fun f => .lambda f.1 []
  let ws : List Value := fns.map fun f => .lambda {} f.1.parameterName f.1.result
  -- embedding a lambda does not look at its scope
  have hembed : ∀ (fns : List (Lambda × Scope)) (ids slots : List ValueId),
      (localExecutor handlers).embedFields (fns.map fun f => .lambda f.1 f.2) ids slots =
        (localExecutor handlers).embedFields (fns.map fun f => .lambda f.1 []) ids slots := by
    intro fns
    induction fns with
    | nil => exact fun _ _ => rfl
    | cons f fns ih =>
        intro ids slots
        rw [List.map_cons, List.map_cons, ControlFlowExecutor.embedFields,
          ControlFlowExecutor.embedFields]
        simp only [ih]
        rfl
  have halive : (ExecutorValue.struct bare).Alive s := by
    refine .struct fun v hv => ?_
    obtain ⟨f, -, rfl⟩ := List.mem_map.mp hv
    exact .lambda fun _ h => (nomatch h)
  -- so what materializes is the struct of the bare lambdas
  have hcontents : (ExecutorValue.struct bare).contents s = some (.ok (.struct {} ws)) := by
    have hall : ExecutorValue.contentsAll s bare = some (ws.map .ok) := by
      refine ExecutorValue.contentsAll_eq_some_iff.mpr ?_
      rw [List.forall₂_map_left_iff, List.forall₂_map_right_iff, List.forall₂_map_right_iff]
      exact List.forall₂_same.mpr fun _ _ => rfl
    rw [ExecutorValue.contents, hall]
    exact congrArg some (InlineExecutor.structTask_eq_ok_iff.mpr ⟨ws, rfl, rfl⟩)
  obtain ⟨s', -, hm⟩ := constMaterialize_ok handlers halive hcontents .defaultInstance
  have hm' : Run.Returns ((localExecutor handlers).constMaterialize
      (.struct (fns.map fun f => .lambda f.1 f.2)) (some .defaultInstance)) s
      ⟨.ok (), some (.struct {} ws)⟩ s' := by
    rw [ControlFlowExecutor.constMaterialize, ControlFlowExecutor.embed, hembed]
    exact hm
  refine ⟨s', Run.Returns.bind (hm'.bind (.pure _ _)) ?_⟩
  show Run.Returns (Context.createValues _ ws) s' _ s'
  clear hm hm' hcontents halive hembed
  induction fns with
  | nil => exact .pure _ _
  | cons f fns ih => exact Run.Returns.bind (.pure _ _) ((ih).bind (.pure _ _))

/-- Lookups decide what functions do. -/
theorem preserves_iff {N : Set String}
    (hhandlers : ∀ handler ∈ handlers, handler.Keeps (Value.ClosedOver N)) {scope scope' : Scope} :
    Preserves handlers N scope scope' ↔ scope.AgreeOn N N scope' := by
  have hchild := ExecutorBase.keeps (InlineExecutor.impl_keeps hhandlers)
  constructor
  · intro h x hx
    -- a function that gives back what is bound to `x`
    obtain ⟨p, hp⟩ : ∃ p : String, p ≠ x := by
      refine ⟨x ++ "'", fun heq => ?_⟩
      have hlength := congrArg String.length heq
      rw [String.length_append] at hlength
      exact absurd hlength (Nat.succ_ne_self _)
    have hempty : HandleTable.All (InlineExecutor.Holds N) (.empty : HandleTable (StatusOr Value)) := .empty
    obtain ⟨-, hend⟩ := h ⟨p, .reference {} x⟩ (.reference (.inl hx)) (.struct []) (.struct .nil) 2
      ⟨.empty, ()⟩ hempty
    have hcall : ∀ scope : Scope, (localExecutor handlers).constCreateCall 2
        (.lambda ⟨p, .reference {} x⟩ scope) (some (.struct [])) =
          (Run.ofExcept (scope.resolve x)).mapError fun e =>
            e.withSuffix ("while searching scope: " ++ Scope.debugString ((p, .struct []) :: scope)) := by
      intro scope
      have hresolve : Scope.resolve x ((p, .struct []) :: scope) = scope.resolve x := if_neg hp
      rw [← hresolve]
      rfl
    rw [hcall, hcall] at hend
    cases hv : scope.resolve x <;> cases hv' : scope'.resolve x <;> rw [hv, hv'] at hend <;> cases hend
    · next h => exact .error h
    · next h => exact .ok h.1
  · intro h lambdaPb hbody a ha fuel
    have hknot : ((localExecutor handlers).knot fuel).Alike _ N :=
      ControlFlowExecutor.knot_alike hchild hhandlers fuel
    refine (hknot.createCall (.lambda hbody h) (.some ha) fun hnone => (nomatch hnone)).mono
      (fun _ _ he => he) fun v v' hv => ⟨hv, fun pb hpb => ?_⟩
    have houtput : ∀ w ∈ some pb, w.ClosedOver N := by
      rintro w ⟨⟩
      exact hpb
    have hmaterialize : Run.Alike _ Eq (fun m m' => m = m' ∧ ∀ w ∈ m.output, w.ClosedOver N)
        ((localExecutor handlers).constMaterialize v (some pb))
        ((localExecutor handlers).constMaterialize v' (some pb)) :=
      ControlFlowExecutor.constMaterialize_alike hchild hv houtput
    exact hmaterialize.mono (fun _ _ he => he) fun _ _ hm => hm.1

/-! ### The theorem -/

variable (handlers)

/-- **Functions that are created anew keep their meaning just when no captured name does.** What a handler
in `scope'` makes of functions created in other scopes are the same functions in its own scope, one by one
or in a structure. For the names that functions, their arguments, what the child holds and what handlers
come up with may capture, all of these functions mean the same in `scope'` as in `scope` if and only if the
names are bound alike in both; and for whatever names, functions, arguments and states, if and only if all
names are. -/
theorem reembedding_preserves_iff (scope scope' : Scope) :
    (∀ (lambdaPb : Lambda) (n : Nat) (s : InlineState), ∃ s',
      Run.Returns (((localExecutor handlers).context ((localExecutor handlers).knot (n + 1))
        scope').reembed (.lambda lambdaPb scope)) s (.lambda lambdaPb scope') s') ∧
    (∀ (fns : List (Lambda × Scope)) (n : Nat) (s : InlineState), ∃ s',
      Run.Returns (((localExecutor handlers).context ((localExecutor handlers).knot (n + 1))
        scope').reembedElements (.struct (fns.map fun f => .lambda f.1 f.2))) s
        (fns.map fun f => .lambda f.1 scope') s') ∧
    (∀ N : Set String, (∀ handler ∈ handlers, handler.Keeps (Value.ClosedOver N)) →
      (Preserves handlers N scope scope' ↔ scope.AgreeOn N N scope')) ∧
    ((∀ (lambdaPb : Lambda) (a : ExecutorValue) (fuel : Nat), SameMeaning handlers Set.univ
        ((localExecutor handlers).constCreateCall fuel (.lambda lambdaPb scope) (some a))
        ((localExecutor handlers).constCreateCall fuel (.lambda lambdaPb scope') (some a))) ↔
      scope.AgreeOn Set.univ Set.univ scope') := by
  refine ⟨fun lambdaPb n s => reembed_lambda lambdaPb scope scope' n s,
    fun fns n s => reembedElements_lambdas fns scope' n s, fun N hhandlers => preserves_iff hhandlers, ?_⟩
  -- where every name counts, all IR and all arguments do
  have huniv : Preserves handlers Set.univ scope scope' ↔ scope.AgreeOn Set.univ Set.univ scope' :=
    preserves_iff fun handler _ => handler.keeps_univ
  rw [← huniv]
  constructor
  · exact fun h lambdaPb _ a _ fuel => h lambdaPb a fuel
  · exact fun h lambdaPb a fuel => h lambdaPb (lambdaPb.result.over_univ _) a a.alike_univ fuel

end

/-- A handler set with one handler. -/
def repeatedConditionalChainOnly : IntrinsicHandlerSet :=
  [⟨ControlFlowHandler.repeatedConditionalChain.uri, .controlFlow .repeatedConditionalChain⟩]

/-- A function that captures `x`, and comes from where `y` is bound too to where it is not: it may go if it
captures no other name, and not if it may capture `y`. -/
theorem reembedding_preserves_iff_captured :
    let _ := ProtoText.silent
    let handlers := repeatedConditionalChainOnly
    let scope : Scope := [("y", .struct []), ("x", .struct [.struct []])]
    let scope' : Scope := [("x", .struct [.struct []])]
    (∀ N : Set String, ∀ handler ∈ handlers, handler.Keeps (Value.ClosedOver N)) ∧
    Preserves handlers {"x"} scope scope' ∧ ¬ Preserves handlers {"x", "y"} scope scope' := by
  intro _ handlers scope scope'
  have hkeeps : ∀ N : Set String, ∀ handler ∈ repeatedConditionalChainOnly,
      handler.Keeps (Value.ClosedOver N) := by
    rintro N _ (_ | ⟨_, ⟨⟩⟩)
    trivial
  obtain ⟨-, -, h, -⟩ := reembedding_preserves_iff handlers scope scope'
  refine ⟨hkeeps, (h _ (hkeeps _)).mpr ?_, fun hpreserves => ?_⟩
  · rintro _ rfl
    exact .ok (.struct (.cons (.struct .nil) .nil))
  · cases (h _ (hkeeps _)).mp hpreserves "y" (.inr rfl)

/-- A function that gives back the `x` it was created under, and what is done to it where another `x` is
bound: nothing, or a step of `RepeatedConditionalChain` that leaves it as it is. -/
def underAnotherX (viaHandler : Bool) : Value :=
  let g : Value := .reference {} "g"
  let step : Value := .intrinsic {} "repeated_conditional_chain"
    (some (.ofStruct [.ofInt32 1, .lambda {} "state" (.reference {} "state")]))
  .block {} [("x", .ofStr "captured"), ("g", .lambda {} "q" (.reference {} "x"))]
    (.call {} (.call {} (.lambda {} "x" (if viaHandler then .call {} step (some g) else g))
      (some (.ofStr "other"))) (some (.ofStr "argument")))

/-- Applied as it is, the function gives what it captured; created anew, what the handler's scope binds.
And where that scope binds nothing, a captured name is lost. -/
theorem reembedding_rebinds :
    let _ := ProtoText.silent
    let handlers := repeatedConditionalChainOnly
    (∃ fuel id s₁ s₂, ∀ n ≥ fuel,
      Run.Returns ((controlFlowExecutor (localExecutor handlers) n).createValue (underAnotherX false))
        localInitial id s₁ ∧
      Run.Returns ((controlFlowExecutor (localExecutor handlers) n).materialize id (some default)) s₁
        ⟨.ok (), some (.ofStr "captured")⟩ s₂) ∧
    (∃ fuel id s₁ s₂, ∀ n ≥ fuel,
      Run.Returns ((controlFlowExecutor (localExecutor handlers) n).createValue (underAnotherX true))
        localInitial id s₁ ∧
      Run.Returns ((controlFlowExecutor (localExecutor handlers) n).materialize id (some default)) s₁
        ⟨.ok (), some (.ofStr "other")⟩ s₂) ∧
    ¬ ∀ (scope scope' : Scope) (lambdaPb : Lambda) (a : ExecutorValue) (fuel : Nat),
      SameMeaning handlers Set.univ
        ((localExecutor handlers).constCreateCall fuel (.lambda lambdaPb scope) (some a))
        ((localExecutor handlers).constCreateCall fuel (.lambda lambdaPb scope') (some a)) := by
  intro _ handlers
  have hdirect : EvaluatesTo handlers (underAnotherX false) [] localInitial.impl (.ofStr "captured") :=
    ⟨.embedded 0, _, ⟨8, ⟨_, rfl⟩⟩, ⟨Nat.zero_le _, fun h => absurd h (Nat.not_lt_zero _)⟩,
      .embedded (r := .ok (.ofStr "captured")) rfl, rfl⟩
  have hvia : EvaluatesTo handlers (underAnotherX true) [] localInitial.impl (.ofStr "other") :=
    ⟨.embedded 1, _, ⟨8, ⟨_, rfl⟩⟩, ⟨Nat.zero_le _, fun h => absurd h (Nat.not_lt_zero _)⟩,
      .embedded (r := .ok (.ofStr "other")) rfl, rfl⟩
  refine ⟨hdirect.created handlers (fun _ h => (nomatch h)) default,
    hvia.created handlers (fun _ h => (nomatch h)) default, fun h => ?_⟩
  -- preserving the meaning would make the two scopes agree on x, which only one of them binds
  have hagree : Scope.AgreeOn Set.univ Set.univ [("x", .struct [])] [] :=
    (preserves_iff fun handler _ => handler.keeps_univ).mp fun lambdaPb _ a _ => h _ _ lambdaPb a
  cases hagree "x" (Set.mem_univ _)

end GenC
