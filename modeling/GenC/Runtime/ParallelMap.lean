import Mathlib.Algebra.Group.Nat.Defs
import GenC.Runtime.DataFunctions
import GenC.Runtime.Lookups

/-!
# Mapping over a structure

`ParallelMap` materializes its argument, creates each element anew, and applies the function to that. The
structure of the single calls selects the elements instead.

**`parallelMap_pointwise`**: both end alike where an element that is made anew is what it was: it is a value
of the child that is no structure or function, a structure that the control-flow executor built, or a
function that finds its names in the scope of the map as it found them where it was created. For functions
of data it is enough that the elements are data, up to the metadata of structures. But an element that is
not set is never made anew.
-/

namespace GenC

open Lib ControlFlowExecutor ControlFlowHandler

/-! ## Element by element -/

section

variable [ProtoText] (handlers : IntrinsicHandlerSet)

omit [ProtoText] in
/-- The index of an element, as a selection has it. -/
theorem toNat_ofNat {i : Nat} (h : i < 2 ^ 31) : (Int32.ofNat i).toUInt32.toNat = i := by
  have hlt : i < 2 ^ 32 := by omega
  exact UInt32.toNat_ofNat_of_lt' hlt

/-- The calls of `fn` on the elements of `source`, one after the other. -/
def callsOnElements (fn source : Value) (n : Nat) : List Value :=
  (List.range n).map fun i => createCall fn (createSelection source (Int32.ofNat i))

omit [ProtoText] in
theorem forall₂_callsOnElements {P : Value → Value → Prop} {fn source : Value} {es : List Value}
    (h : ∀ i e, es[i]? = some e → P e (createCall fn (createSelection source (Int32.ofNat i)))) :
    List.Forall₂ P es (callsOnElements fn source es.length) := by
  refine List.forall₂_iff_get.mpr ⟨by simp [callsOnElements], fun i hi _ => ?_⟩
  have hcall := h i (es.get ⟨i, hi⟩) (List.getElem?_eq_getElem hi)
  simpa [callsOnElements] using hcall

variable {handlers} {scope : Scope} {s t : InlineState}

/-- What is made from two states on, and related by `R`. -/
def Since (R : ExecutorValue → InlineState → ExecutorValue → InlineState → Prop) (s t : InlineState)
    (v : ExecutorValue) (s' : InlineState) (v' : ExecutorValue) (t' : InlineState) : Prop :=
  s ≤ s' ∧ t ≤ t' ∧ R v s' v' t'

/-- From two states on, an element is made anew and given to `f`, or the call is evaluated. -/
def AppliedAlike (handlers : IntrinsicHandlerSet) (scope : Scope)
    (R : ExecutorValue → InlineState → ExecutorValue → InlineState → Prop) (f : ExecutorValue)
    (s t : InlineState) (e call : Value) : Prop :=
  ∀ u w, s ≤ u → t ≤ w → Run.EndUpTo Status.SameCode (Since R u w)
    (fun n => ((localExecutor handlers).contexts scope n).createValue e >>= fun a =>
      ((localExecutor handlers).contexts scope n).createCall f (some a)) u
    (fun n => (localExecutor handlers).evaluate n call scope) w

theorem evaluateElements_growing (calls : List Value) (scope : Scope) : Run.Growing fun n =>
    evaluateElements ((localExecutor handlers).knot n) calls scope :=
  fun _ _ hnm => evaluateElements_le ((localExecutor handlers).knot_le hnm) calls scope

theorem parallelMapLoop_growing (f : ExecutorValue) (es : List Value) : Run.Growing fun n =>
    parallelMapLoop ((localExecutor handlers).contexts scope n) f es :=
  fun _ _ hnm => parallelMapLoop_le ((localExecutor handlers).contexts_growing scope hnm) f es

variable {R : ExecutorValue → InlineState → ExecutorValue → InlineState → Prop}
  (hR : ∀ {v v' s t s' t'}, R v s v' t → s ≤ s' → t ≤ t' → R v s' v' t')

include hR

/-- By induction on the elements. -/
theorem parallelMapLoop_endUpTo {s₀ t₀ : InlineState} {f : ExecutorValue} {es calls : List Value}
    (h : List.Forall₂ (AppliedAlike handlers scope R f s₀ t₀) es calls) (hs : s₀ ≤ s) (ht : t₀ ≤ t) :
    Run.EndUpTo Status.SameCode
      (fun vs s' vs' t' => s ≤ s' ∧ t ≤ t' ∧ List.Forall₂ (fun v v' => R v s' v' t') vs vs')
      (fun n => parallelMapLoop ((localExecutor handlers).contexts scope n) f es) s
      (fun n => evaluateElements ((localExecutor handlers).knot n) calls scope) t := by
  have hgrowing := (localExecutor handlers).contexts_growing scope
  induction h generalizing s t with
  | nil => exact .pure ⟨le_refl s, le_refl t, .nil⟩
  | @cons e call es calls hfirst _ ih =>
      -- one turn of the loop is one call of the structure, and the rest is the rest
      have hassoc : ∀ n, parallelMapLoop ((localExecutor handlers).contexts scope n) f (e :: es) =
          (((localExecutor handlers).contexts scope n).createValue e >>= fun a =>
            ((localExecutor handlers).contexts scope n).createCall f (some a)) >>= fun v =>
              parallelMapLoop ((localExecutor handlers).contexts scope n) f es >>= fun vs => pure (v :: vs) :=
        fun n => (bind_assoc _ _ _).symm
      simp only [hassoc]
      have happly : Run.Growing fun n => ((localExecutor handlers).contexts scope n).createValue e >>= fun a =>
          ((localExecutor handlers).contexts scope n).createCall f (some a) :=
        (hgrowing.createValue e).bind fun a => hgrowing.createCall f (some a)
      refine .bind happly (fun v => (parallelMapLoop_growing f es).bind fun vs => .const _)
        (evaluate_growing call scope) (fun v => (evaluateElements_growing calls scope).bind fun vs => .const _)
        (hfirst s t hs ht) ?_
      rintro v s₁ v' t₁ - - ⟨hs₁, ht₁, hv⟩
      refine .bind (parallelMapLoop_growing f es) (fun vs => .const _)
        (evaluateElements_growing calls scope) (fun vs => .const _) (ih (hs.trans hs₁) (ht.trans ht₁)) ?_
      rintro vs s₂ vs' t₂ - - ⟨hs₂, ht₂, hvs⟩
      exact .pure ⟨hs₁.trans hs₂, ht₁.trans ht₂, .cons (hR hv hs₂ ht₂) hvs⟩

omit hR

/-! ## The two forms -/

/-- The handler of maps is registered. -/
def HasParallelMap (handlers : IntrinsicHandlerSet) : Prop :=
  handlers.getHandler "parallel_map" = .ok ⟨"parallel_map", .controlFlow .parallelMap⟩

variable {fn : Value} {name : String} {x : ExecutorValue} {m : Meta} {es : List Value}

/-- The argument is materialized, and then the function is evaluated. -/
theorem evaluate_parallelMap_endSame (hget : HasParallelMap handlers) (hfn : hasComputation fn = true)
    (hx : scope.resolve name = .ok x) (halive : x.Alive s) (hes : x.contents s = some (.ok (.struct m es))) :
    ∃ u, s ≤ u ∧ Run.EndSame
      (fun n => (localExecutor handlers).evaluate n
        (createCall (createParallelMap fn) (createReference name)) scope) s
      (fun n => (localExecutor handlers).evaluate n fn scope >>= fun f =>
        parallelMapLoop ((localExecutor handlers).contexts scope n) f es >>=
          fun vs => pure (.struct vs)) u := by
  have hgrowing := (localExecutor handlers).contexts_growing scope
  obtain ⟨u, hu, hshow⟩ := materializeValue_spec handlers scope halive
  rw [hes] at hshow
  refine ⟨u, hu, ?_⟩
  have hargument : ∀ f, Run.Growing fun n =>
      (localExecutor handlers).evaluate n (createReference name) scope >>= fun a =>
        (localExecutor handlers).constCreateCall n f (some a) :=
    fun f => (evaluate_growing _ scope).bind fun a => constCreateCall_growing f (some a)
  refine .of_same (evaluateCall_endSame {} _ _ scope s) ?_
  refine .of_left (evaluate_growing _ scope) hargument
    (Evaluates.controlFlow hget rfl rfl) ?_
  refine .of_left (evaluate_growing _ scope) (fun a => constCreateCall_growing _ (some a))
    (Evaluates.reference hx) ?_
  refine .of_same (call_endSame .parallelMap _ (some x) [] s) ?_
  have hloop : ∀ argsPb : Value, Run.Growing fun n =>
      ((localExecutor handlers).contexts scope n).createValue fn >>= fun f =>
        parallelMapLoop ((localExecutor handlers).contexts scope n) f argsPb.elements >>= fun vs =>
          ((localExecutor handlers).contexts scope n).createStruct vs :=
    fun argsPb => (hgrowing.createValue fn).bind fun f =>
      (parallelMapLoop_growing f _).bind fun vs => .const _
  have hexecute : (fun n => parallelMap.executeCall ((localExecutor handlers).contexts scope n) n
      ⟨"parallel_map", some fn⟩ (some x)) = fun n =>
        ((localExecutor handlers).contexts scope n).materializeValue x >>= fun argsPb =>
          ((localExecutor handlers).contexts scope n).createValue fn >>= fun f =>
            parallelMapLoop ((localExecutor handlers).contexts scope n) f argsPb.elements >>= fun vs =>
              ((localExecutor handlers).contexts scope n).createStruct vs :=
    funext fun n => pure_bind x _
  -- `fn` is a computation, so creating its value is evaluating it
  have hcreate : ∀ n, (localExecutor handlers).evaluate n fn scope =
      ((localExecutor handlers).contexts scope n).createValue fn := fun n => (if_pos hfn).symm
  rw [hexecute]
  simp only [hcreate]
  exact .of_left (hgrowing.materializeValue x) hloop hshow (.refl _ u)

theorem evaluate_struct_endSame (calls : List Value) (scope : Scope) (s : InlineState) : Run.EndSame
    (fun n => (localExecutor handlers).evaluate n (createStruct calls) scope) s
    (fun n => evaluateElements ((localExecutor handlers).knot n) calls scope >>= fun vs => pure (.struct vs))
    s :=
  .of_succ (evaluate_growing _ scope) (.refl _ s)

/-- Where `fn` evaluates, the calls decide; where it does not, neither form gets to them. -/
theorem pointwise_of_applied (hR : ∀ {v v' s t s' t'}, R v s v' t → s ≤ s' → t ≤ t' → R v s' v' t')
    (hget : HasParallelMap handlers) (hfn : hasComputation fn = true) (hx : scope.resolve name = .ok x)
    (halive : x.Alive s) (hes : x.contents s = some (.ok (.struct m es)))
    (hempty : es = [] → ∀ u, s ≤ u → ∃ f u', (localExecutor handlers).Evaluates fn scope u f u')
    (hagain : ∀ u, s ≤ u → Run.EndUpTo Status.SameCode (fun _ _ _ _ => True)
      (fun n => (localExecutor handlers).evaluate n fn scope) u
      (fun n => (localExecutor handlers).evaluate n fn scope) s)
    (happlied : ∀ u f u', s ≤ u → (localExecutor handlers).Evaluates fn scope u f u' → u ≤ u' ∧
      List.Forall₂ (AppliedAlike handlers scope R f u' s) es
        (callsOnElements fn (createReference name) es.length)) :
    Run.EndUpTo Status.SameCode
      (fun y s' y' t' => s ≤ s' ∧ s ≤ t' ∧ ∃ vs vs', y = .struct vs ∧ y' = .struct vs' ∧
        List.Forall₂ (fun v v' => R v s' v' t') vs vs')
      (fun n => (localExecutor handlers).evaluate n
        (createCall (createParallelMap fn) (createReference name)) scope) s
      (fun n => (localExecutor handlers).evaluate n
        (createStruct (callsOnElements fn (createReference name) es.length)) scope) s := by
  obtain ⟨u, hu, hmap⟩ := evaluate_parallelMap_endSame hget hfn hx halive hes
  refine .of_same hmap (.trans_same ?_ (evaluate_struct_endSame _ scope s).same_symm)
  have hloop : ∀ f, Run.Growing fun n =>
      (parallelMapLoop ((localExecutor handlers).contexts scope n) f es >>= fun vs => pure (.struct vs) :
        Exec InlineState ExecutorValue) := fun f => (parallelMapLoop_growing f es).bind fun vs => .const _
  by_cases hreturns : ∃ f u', (localExecutor handlers).Evaluates fn scope u f u'
  · obtain ⟨f, u', hf⟩ := hreturns
    obtain ⟨hu', happlied⟩ := happlied u f u' hu hf
    refine .of_left (evaluate_growing fn scope) hloop hf ?_
    refine .bind (parallelMapLoop_growing f es) (fun vs => .const _) (evaluateElements_growing _ scope)
      (fun vs => .const _) (parallelMapLoop_endUpTo (R := R) hR happlied (le_refl u') (le_refl s)) ?_
    rintro vs s' vs' t' - - ⟨hs', ht', hvs⟩
    exact .pure ⟨(hu.trans hu').trans hs', ht', vs, vs', rfl, rfl, hvs⟩
  · obtain ⟨k, hk⟩ : ∃ k, es.length = k + 1 := by
      refine Nat.exists_eq_succ_of_ne_zero fun hzero => hreturns ?_
      exact hempty (List.length_eq_zero_iff.mp hzero) u hu
    obtain ⟨arg, calls, hcalls⟩ : ∃ arg calls,
        callsOnElements fn (createReference name) es.length = createCall fn arg :: calls := by
      rw [callsOnElements, hk, List.range_succ_eq_map, List.map_cons]
      exact ⟨_, _, rfl⟩
    rw [hcalls]
    -- the first call evaluates the function before anything else
    have hrest : ∀ v, Run.Growing fun n =>
        (evaluateElements ((localExecutor handlers).knot n) calls scope >>= fun vs =>
          pure (.struct (v :: vs)) : Exec InlineState ExecutorValue) :=
      fun v => (evaluateElements_growing calls scope).bind fun vs => .const _
    have hargument : ∀ f, Run.Growing fun n => (localExecutor handlers).evaluate n arg scope >>= fun a =>
        (localExecutor handlers).constCreateCall n f (some a) :=
      fun f => (evaluate_growing arg scope).bind fun a => constCreateCall_growing f (some a)
    have hassoc : ∀ n, (evaluateElements ((localExecutor handlers).knot n) (createCall fn arg :: calls)
        scope >>= fun vs => pure (.struct vs) : Exec InlineState ExecutorValue) =
          (localExecutor handlers).evaluate n (createCall fn arg) scope >>= fun v =>
            evaluateElements ((localExecutor handlers).knot n) calls scope >>= fun vs =>
              pure (.struct (v :: vs)) := by
      intro n
      rw [evaluateElements, bind_assoc]
      simp only [bind_assoc, pure_bind]
      rfl
    have hcall : Run.EndSame
        (fun n => (localExecutor handlers).evaluate n (createCall fn arg) scope >>= fun v =>
          (evaluateElements ((localExecutor handlers).knot n) calls scope >>= fun vs =>
            pure (.struct (v :: vs)) : Exec InlineState ExecutorValue)) s
        (fun n => ((localExecutor handlers).evaluate n fn scope >>= fun f =>
          (localExecutor handlers).evaluate n arg scope >>= fun a =>
            (localExecutor handlers).constCreateCall n f (some a)) >>= fun v =>
              evaluateElements ((localExecutor handlers).knot n) calls scope >>= fun vs =>
                pure (.struct (v :: vs))) s := by
      refine .bind (evaluate_growing _ scope) hrest ((evaluate_growing fn scope).bind hargument) hrest
        (evaluateCall_endSame {} fn arg scope s) ?_
      rintro v t _ _ - - ⟨rfl, rfl⟩
      exact .refl _ t
    simp only [hassoc]
    refine .trans_same ?_ hcall.same_symm
    simp only [bind_assoc (m := Exec InlineState)]
    exact .bind_of_not_returns (evaluate_growing fn scope) hloop (evaluate_growing fn scope)
      (fun f => (evaluate_growing arg scope).bind fun a => (constCreateCall_growing f (some a)).bind hrest)
      (hagain u hu) hreturns

end

/-! ## Elements that are made anew as they were -/

section

variable [ProtoText] (handlers : IntrinsicHandlerSet) (N : Set String)

/-- IR that evaluates to a value of the child, which holds it as it is. -/
inductive Value.OfChild : Value → Prop where
  | notSet {m : Meta} : OfChild (.notSet m)
  | scalar {m : Meta} {c : Scalar} : OfChild (.scalar m c)
  | inline {m : Meta} {uri : String} {staticParameter : Option Value} {handler : IntrinsicHandler}
      {interface : InlineHandler} (hget : handlers.getHandler uri = .ok handler)
      (hinterface : handler.interface = .inline interface)
      (hwf : handler.checkWellFormed ⟨uri, staticParameter⟩ = some (.ok ()))
      (hclosed : ∀ v ∈ staticParameter, v.ClosedOver N) : OfChild (.intrinsic m uri staticParameter)

/-- What `v` materializes to is made anew in `scope` as it was. -/
inductive ExecutorValue.Remakes (scope : Scope) (s : InlineState) : Value → ExecutorValue → Prop where
  | embedded {e : Value} {id : ValueId} (he : e.OfChild handlers N)
      (h : s.table.trackedValues id = some (.ok e)) : Remakes scope s e (.embedded id)
  | struct {es : List Value} {vs : List ExecutorValue} (hlength : es.length = vs.length)
      (h : ∀ p ∈ es.zip vs, Remakes scope s p.1 p.2) : Remakes scope s (.struct {} es) (.struct vs)
  | lambda {lambdaPb : Lambda} {scope' : Scope} (hbody : lambdaPb.result.Over N {lambdaPb.parameterName})
      (h : scope.Likewise N N s s scope') :
      Remakes scope s (.lambda {} lambdaPb.parameterName lambdaPb.result) (.lambda lambdaPb scope')

/-- So are the elements of a structure. -/
inductive ExecutorValue.RemakesElements (scope : Scope) (s : InlineState) (es : List Value) :
    ExecutorValue → Prop where
  | embedded {m : Meta} {id : ValueId} (h : s.table.trackedValues id = some (.ok (.struct m es)))
      (hes : ∀ e ∈ es, e.OfChild handlers N) : RemakesElements scope s es (.embedded id)
  | struct {vs : List ExecutorValue} (h : List.Forall₂ (Remakes handlers N scope s) es vs) :
      RemakesElements scope s es (.struct vs)

variable {handlers N} {scope : Scope} {s u w : InlineState} {e : Value}

theorem Value.OfChild.closedOver (h : e.OfChild handlers N) : e.ClosedOver N := by
  cases h with
  | notSet => exact .notSet
  | scalar => exact .scalar
  | inline _ _ _ hclosed => exact .intrinsic hclosed

theorem Value.OfChild.evaluates (h : e.OfChild handlers N) (scope : Scope) (u : InlineState) :
    (localExecutor handlers).Evaluates e scope u (.embedded u.table.nextValueId) (u.track (.ok e)) := by
  have hcreate := InlineExecutor.createValue_returns handlers e u
  cases h with
  | notSet => exact .child rfl hcreate
  | scalar => exact .child rfl hcreate
  | inline hget hinterface hwf => exact .inline hget hinterface hwf hcreate

/-- Values of the child that hold the same. -/
theorem Value.OfChild.likewise (h : e.OfChild handlers N) {id id' : ValueId}
    (hu : u.table.trackedValues id = some (.ok e)) (hw : w.table.trackedValues id' = some (.ok e)) :
    ExecutorValue.Likewise N u w (.embedded id) (.embedded id') := by
  refine .embedded hu hw ?_
  rintro _ ⟨⟩
  exact h.closedOver

/-- Making `v` anew gives what is like it. -/
theorem ExecutorValue.Remakes.evaluates {v : ExecutorValue} (h : v.Remakes handlers N scope s e)
    (hu : s ≤ u) : ∃ v' u', (localExecutor handlers).Evaluates e scope u v' u' ∧ u ≤ u' ∧
      v'.Likewise N u' s v := by
  induction h generalizing u with
  | @embedded e id he h =>
      exact ⟨_, _, he.evaluates scope u, .track u _, he.likewise (u.tracked_track _) h⟩
  | @struct es vs hlength h ih =>
      -- the hypotheses of the elements, as a relation between the two lists
      have hall : List.Forall₂ (fun e v => ∀ {u}, s ≤ u → ∃ v' u',
          (localExecutor handlers).Evaluates e scope u v' u' ∧ u ≤ u' ∧ v'.Likewise N u' s v) es vs :=
        List.forall₂_iff_zip.mpr ⟨hlength, fun hp => ih _ hp⟩
      have hvs : ∃ vs' u', (localExecutor handlers).Evaluates (.struct {} es) scope u (.struct vs') u' ∧
          u ≤ u' ∧ List.Forall₂ (Likewise N u' s) vs' vs := by
        clear hlength h ih
        induction hall generalizing u with
        | nil => exact ⟨[], u, .struct_nil, le_refl u, .nil⟩
        | cons hfirst _ ih =>
            obtain ⟨v', u₁, hv, hu₁, hlike⟩ := hfirst hu
            obtain ⟨vs', u₂, hvs, hu₂, hlikes⟩ := ih (hu.trans hu₁)
            exact ⟨v' :: vs', u₂, .struct_cons hv hvs, hu₁.trans hu₂,
              .cons (hlike.mono hu₂ (le_refl s)) hlikes⟩
      obtain ⟨vs', u', hvs, hu', hlikes⟩ := hvs
      exact ⟨.struct vs', u', hvs, hu', .struct' hlikes⟩
  | lambda hbody h =>
      exact ⟨_, u, .lambda, le_refl u, .lambda' hbody (h.mono hu (le_refl s))⟩

/-- What is selected is what making the element anew gives. -/
theorem ExecutorValue.RemakesElements.selects {x : ExecutorValue} {es : List Value}
    (h : x.RemakesElements handlers N scope s es) {index : UInt32} (he : es[index.toNat]? = some e)
    (hw : s ≤ w) : ∃ b w', Run.Returns ((localExecutor handlers).createSelectionInternal x index) w b w' ∧
      w ≤ w' ∧ ∀ u, s ≤ u → ∃ a u', (localExecutor handlers).Evaluates e scope u a u' ∧ u ≤ u' ∧
        a.Likewise N u' w' b := by
  cases h with
  | @embedded m id h hes =>
      have hchild := hes e (List.mem_of_getElem? he)
      -- the child selects the element and tracks it under a new handle
      have hselect := InlineExecutor.createSelection_holds handlers (BaseState.Frame.tracked hw h) index
      rw [InlineExecutor.createSelection, InlineExecutor.selectionTask, he] at hselect
      refine ⟨_, _, hselect.bind (.pure _ _), .track w _, fun u _ => ?_⟩
      exact ⟨_, _, hchild.evaluates scope u, .track u _,
        hchild.likewise (u.tracked_track _) (w.tracked_track _)⟩
  | @struct vs h =>
      rcases forall₂_getElem? h index.toNat with ⟨hnone, -⟩ | ⟨e', v, he', hv, hremakes⟩
      · rw [he] at hnone
        cases hnone
      · obtain rfl : e = e' := Option.some.inj (he.symm.trans he')
        refine ⟨v, w, ?_, le_refl w, fun u hu => ?_⟩
        · rw [createSelectionInternal, hv]
          exact .pure v w
        · obtain ⟨a, u', ha, hu', hlike⟩ := hremakes.evaluates hu
          exact ⟨a, u', ha, hu', hlike.mono (le_refl u') hw⟩

/-! ### Evaluating again -/

/-- A context creates what is evaluated in its scope, unless it is not set. -/
theorem creates_of_evaluates {v : ExecutorValue} (he : ∀ m, e ≠ .notSet m)
    (h : (localExecutor handlers).Evaluates e scope s v u) :
    Context.Creates ((localExecutor handlers).contexts scope) e s v u := by
  cases e with
  | notSet m => exact (he m rfl).elim
  | scalar m c =>
      obtain ⟨_ | n, h⟩ := h
      · obtain ⟨_, hl⟩ := h
        cases hl
      · exact ⟨0, h⟩
  | _ => exact (creates_iff rfl).mpr h

variable (hhandlers : ∀ handler ∈ handlers, handler.Keeps (Value.ClosedOver N)) {fn : Value}
  (hfn : fn.ClosedOver N) (hscope : scope.Likewise N N s s scope)

include hhandlers hfn hscope

/-- The function is evaluated to the same, whenever that is. -/
theorem evaluate_again (hu : s ≤ u) (hw : s ≤ w) :
    Run.EndUpTo Status.SameCode (LikewiseSince N u w)
      (fun n => (localExecutor handlers).evaluate n fn scope) u
      (fun n => (localExecutor handlers).evaluate n fn scope) w := by
  refine Lookups.endUpTo_of_simulates fun n => (knot_likewise hhandlers n).evaluate hfn ?_
  exact (hscope.mono hu hw).subset (Set.union_empty N).subset

theorem appliedAlike_of_remakes {x f : ExecutorValue} {name : String} {es : List Value} {u' : InlineState}
    (hx : scope.resolve name = .ok x) (hes : x.RemakesElements handlers N scope s es)
    (hset : ∀ e ∈ es, ∀ m, e ≠ .notSet m) (hu : s ≤ u)
    (hf : (localExecutor handlers).Evaluates fn scope u f u') {i : Nat} (hi : i < 2 ^ 31)
    (he : es[i]? = some e) :
    AppliedAlike handlers scope (fun v s' v' t' => v.Likewise N s' t' v') f u' s e
      (createCall fn (createSelection (createReference name) (Int32.ofNat i))) := by
  intro u₁ w hu₁ hw
  have hgrowing := (localExecutor handlers).contexts_growing scope
  have hargument : ∀ g, Run.Growing fun n => (localExecutor handlers).evaluate n
      (createSelection (createReference name) (Int32.ofNat i)) scope >>= fun a =>
        (localExecutor handlers).constCreateCall n g (some a) :=
    fun g => (evaluate_growing _ scope).bind fun a => constCreateCall_growing g (some a)
  -- the function is evaluated again, and the element is selected
  obtain ⟨f', w₁, hf', hu', hw₁, hff'⟩ := (evaluate_again hhandlers hfn hscope hu hw).returns hf
  rw [← toNat_ofNat hi] at he
  obtain ⟨b, w₂, hb, hw₂, hremakes⟩ := hes.selects he (hw.trans hw₁)
  obtain ⟨a, u₂, ha, hu₂, hab⟩ := hremakes u₁ ((hu.trans hu').trans hu₁)
  have ha := creates_of_evaluates (hset e (List.mem_of_getElem? he)) ha
  refine .of_left (hgrowing.createValue e) (fun a => hgrowing.createCall f (some a)) ha ?_
  refine .trans_same ?_ (evaluateCall_endSame {} fn _ scope w).same_symm
  refine .of_right (evaluate_growing fn scope) hargument hf' ?_
  refine .of_right (evaluate_growing _ scope) (fun a => constCreateCall_growing f' (some a))
    (Evaluates.selection (.reference hx) hb) ?_
  have hcall := Lookups.endUpTo_of_simulates fun n => (knot_likewise hhandlers n).createCall
    (w := (u₂, w₂)) (hff'.mono (hu₁.trans hu₂) hw₂) (.some hab) fun hnone => (nomatch hnone)
  exact hcall.mono fun _ _ _ _ h => ⟨hu₂.trans h.1, (hw₁.trans hw₂).trans h.2.1, h.2.2⟩

theorem pointwise_of_remakes {x : ExecutorValue} {name : String} {m : Meta} {es : List Value}
    (hget : HasParallelMap handlers) (hcomputation : hasComputation fn = true)
    (hx : scope.resolve name = .ok x) (hcontents : x.contents s = some (.ok (.struct m es)))
    (hlength : es.length ≤ 2 ^ 31)
    (hempty : es = [] → ∃ f s', (localExecutor handlers).Evaluates fn scope s f s')
    (hes : x.RemakesElements handlers N scope s es) (hset : ∀ e ∈ es, ∀ m, e ≠ .notSet m) :
    Run.EndUpTo Status.SameCode (LikewiseSince N s s)
      (fun n => (localExecutor handlers).evaluate n
        (createCall (createParallelMap fn) (createReference name)) scope) s
      (fun n => (localExecutor handlers).evaluate n
        (createStruct (callsOnElements fn (createReference name) es.length)) scope) s := by
  -- The function and its argument are evaluated again for each element, in scopes that are alike.
  have hpointwise := pointwise_of_applied (R := fun v s' v' t' => v.Likewise N s' t' v')
    (fun h hs ht => h.mono hs ht) hget hcomputation hx (hscope.alive.resolve hx) hcontents
    (fun hnil u hu => ?_) (fun u hu => (evaluate_again hhandlers hfn hscope hu (le_refl s)).mono
      fun _ _ _ _ _ => trivial) fun u f u' hu hf => ?_
  · refine hpointwise.mono ?_
    rintro _ s' _ t' ⟨hs, ht, vs, vs', rfl, rfl, hvs⟩
    exact ⟨hs, ht, .struct' hvs⟩
  · obtain ⟨f, s', hf⟩ := hempty hnil
    obtain ⟨f', u', hf', -⟩ := (evaluate_again hhandlers hfn hscope (le_refl s) hu).returns hf
    exact ⟨f', u', hf'⟩
  · obtain ⟨_, _, -, hu', -⟩ := (evaluate_again hhandlers hfn hscope hu (le_refl s)).returns hf
    refine ⟨hu', forall₂_callsOnElements fun i e he => ?_⟩
    obtain ⟨hi, -⟩ := List.getElem?_eq_some_iff.mp he
    exact appliedAlike_of_remakes hhandlers hfn hscope hx hes hset hu hf (hi.trans_le hlength) he

end

/-! ## Functions of data -/

section

variable [ProtoText] {handlers : IntrinsicHandlerSet} {scope : Scope} {s t s' t' u w : InlineState}
  {v v' : ExecutorValue}

/-- Both materialize to the same data, up to the metadata of structures, or neither materializes. -/
structure SameData (v : ExecutorValue) (s : InlineState) (v' : ExecutorValue) (t : InlineState) : Prop where
  alive : v.Alive s
  alive' : v'.Alive t
  same : (∃ d, DataEquivalence.upToStructs.Holds v d s ∧ DataEquivalence.upToStructs.Holds v' d t) ∨
    (¬ ∃ w, v.contents s = some (.ok w)) ∧ ¬ ∃ w, v'.contents t = some (.ok w)

namespace SameData

omit [ProtoText]

theorem mono (h : SameData v s v' t) (hs : s ≤ s') (ht : t ≤ t') : SameData v s' v' t' where
  alive := h.alive.of_le hs
  alive' := h.alive'.of_le ht
  same := by
    rw [ExecutorValue.contents_frame hs h.alive, ExecutorValue.contents_frame ht h.alive']
    rcases h.same with ⟨d, hd, hd'⟩ | hno
    · exact .inl ⟨d, hd.of_le hs, hd'.of_le ht⟩
    · exact .inr hno

/-- A structure materializes if all of its fields do. -/
theorem exists_contents_of_struct {vs : List ExecutorValue} {w : Value}
    (h : (ExecutorValue.struct vs).contents s = some (.ok w)) :
    ∀ v ∈ vs, ∃ w, v.contents s = some (.ok w) := by
  rw [ExecutorValue.contents] at h
  obtain ⟨rs, hrs, htask⟩ := Option.map_eq_some_iff.mp h
  obtain ⟨ws, rfl, -⟩ := InlineExecutor.structTask_eq_ok_iff.mp htask
  have hall := ExecutorValue.contentsAll_eq_some_iff.mp hrs
  rw [List.forall₂_map_right_iff] at hall
  intro v hv
  obtain ⟨w, -, hw⟩ := exists_of_mem_left hall hv
  exact ⟨w, hw⟩

theorem struct {vs vs' : List ExecutorValue} (h : List.Forall₂ (fun v v' => SameData v s v' t) vs vs') :
    SameData (.struct vs) s (.struct vs') t := by
  -- both lists hold the same data, or each has an element that holds none
  have hfields : (∀ v ∈ vs, v.Alive s) ∧ (∀ v ∈ vs', v.Alive t) ∧
      ((∃ ds, List.Forall₂ (DataEquivalence.upToStructs.Holds · · s) vs ds ∧
        List.Forall₂ (DataEquivalence.upToStructs.Holds · · t) vs' ds) ∨
      (∃ v ∈ vs, ¬ ∃ w, v.contents s = some (.ok w)) ∧ ∃ v ∈ vs', ¬ ∃ w, v.contents t = some (.ok w)) := by
    induction h with
    | nil => exact ⟨List.forall_mem_nil _, List.forall_mem_nil _, .inl ⟨[], .nil, .nil⟩⟩
    | @cons v v' vs vs' h _ ih =>
        obtain ⟨halive, halive', ih⟩ := ih
        refine ⟨List.forall_mem_cons.mpr ⟨h.alive, halive⟩, List.forall_mem_cons.mpr ⟨h.alive', halive'⟩, ?_⟩
        rcases h.same with ⟨d, hd, hd'⟩ | ⟨hno, hno'⟩
        · rcases ih with ⟨ds, hds, hds'⟩ | ⟨⟨v₁, hv₁, hno⟩, v₁', hv₁', hno'⟩
          · exact .inl ⟨d :: ds, .cons hd hds, .cons hd' hds'⟩
          · exact .inr ⟨⟨v₁, .tail _ hv₁, hno⟩, v₁', .tail _ hv₁', hno'⟩
        · exact .inr ⟨⟨v, .head _, hno⟩, v', .head _, hno'⟩
  obtain ⟨halive, halive', hsame⟩ := hfields
  refine ⟨.struct halive, .struct halive', ?_⟩
  rcases hsame with ⟨ds, hds, hds'⟩ | ⟨⟨v, hv, hno⟩, v', hv', hno'⟩
  · exact .inl ⟨createStruct ds, .struct hds, .struct hds'⟩
  · exact .inr ⟨fun ⟨_, hw⟩ => hno (exists_contents_of_struct hw v hv),
      fun ⟨_, hw⟩ => hno' (exists_contents_of_struct hw v' hv')⟩

end SameData

/-! ### Element by element -/

/-- Calls that come to the same. -/
theorem sameData_of_callGives {f f' a a' : ExecutorValue} {r : StatusOr (StatusOr Value)}
    (hf : f.Alive s) (ha : a.Alive s) (hf' : f'.Alive t) (ha' : a'.Alive t)
    (h : (localData handlers scope).CallGives f a s r) (h' : (localData handlers scope).CallGives f' a' t r) :
    Run.EndUpTo Status.SameCode (Since SameData s t)
      (fun n => ((localExecutor handlers).contexts scope n).createCall f (some a)) s
      (fun n => (localExecutor handlers).constCreateCall n f' (some a')) t := by
  have hx := ((localExecutor handlers).contexts_growing scope).createCall f (some a)
  have hy : Run.Growing fun n => (localExecutor handlers).constCreateCall n f' (some a') :=
    constCreateCall_growing f' (some a')
  have halive : ∀ {f a v s s'}, f.Alive s → a.Alive s →
      Context.Calls ((localExecutor handlers).contexts scope) f (some a) s v s' → v.Alive s' := by
    intro f a v s s' hf ha hcall
    refine (calls_le handlers hf ?_ hcall).2
    rintro _ ⟨⟩
    exact ha
  -- a value that cannot be shown has no contents to compare
  have hno : ∀ {v e s s'}, v.Alive s → Context.ShowFails ((localExecutor handlers).contexts scope) v s e s' →
      ¬ ∃ w, v.contents s = some (.ok w) := by
    rintro v e s s' hv hfails ⟨w, hw⟩
    obtain ⟨u, hshow⟩ := (shows_iff handlers scope hv).mpr hw
    exact (((localExecutor handlers).contexts_growing scope).materializeValue v).not_both hshow hfails
  refine Run.EndUpTo.mono_error (Run.EndAlike.upTo ?_) fun _ _ he => congrArg Status.code he
  cases h with
  | fails h =>
      cases h' with
      | fails h' => exact .of_settles hx hy (.of_finallyFails hx h) (.of_finallyFails hy h') rfl
  | lateFailure h hle hfails =>
      cases h' with
      | lateFailure h' hle' hfails' =>
          have hv := halive hf ha h
          have hv' := halive hf' ha' h'
          exact .of_settles hx hy (.of_finally hx h) (.of_finally hy h')
            ⟨hle, hle', hv, hv', .inr ⟨hno hv hfails, hno hv' hfails'⟩⟩
  | data h hle hd =>
      cases h' with
      | data h' hle' hd' =>
          exact .of_settles hx hy (.of_finally hx h) (.of_finally hy h')
            ⟨hle, hle', hd.alive, hd'.alive, .inl ⟨_, hd, hd'⟩⟩

section

variable {x : ExecutorValue} {fn : Value} {F : DataFunction} {name : String} {m : Meta} {es : List Value}
  (hscope : scope.Alive s) (hcomputation : hasComputation fn = true)
  (hfn : (localData handlers scope).Denotes s fn F) (hx : scope.resolve name = .ok x)

include hscope hcomputation hfn hx

theorem appliedAlike_of_denotes (hholds : DataEquivalence.upToStructs.Holds x (createStruct es) s)
    (hdata : ∀ e ∈ es, e.Materialized) {f : ExecutorValue} {u' : InlineState} (hu : s ≤ u)
    (hf : (localExecutor handlers).Evaluates fn scope u f u') {i : Nat} (hi : i < 2 ^ 31) {e : Value}
    (he : es[i]? = some e) : AppliedAlike handlers scope SameData f u' s e
      (createCall fn (createSelection (createReference name) (Int32.ofNat i))) := by
  intro u₁ w hu₁ hw
  have hgrowing := (localExecutor handlers).contexts_growing scope
  have hargument : ∀ g, Run.Growing fun n => (localExecutor handlers).evaluate n
      (createSelection (createReference name) (Int32.ofNat i)) scope >>= fun a =>
        (localExecutor handlers).constCreateCall n g (some a) :=
    fun g => (evaluate_growing _ scope).bind fun a => constCreateCall_growing g (some a)
  have hmaterialized := hdata e (List.mem_of_getElem? he)
  -- the function computes `F`, whenever it is evaluated
  obtain ⟨_, _, hcreate, hle, himplements⟩ := hfn hu
  obtain ⟨rfl, rfl⟩ := ((creates_iff hcomputation).mp hcreate).unique hf
  obtain ⟨f', w₁, hcreate', hw₁, himplements'⟩ := hfn hw
  have hfalive := (creates_le handlers (hscope.of_le hu) hcreate).2
  have hfalive' := (creates_le handlers (hscope.of_le hw) hcreate').2
  -- the element, made anew and selected
  obtain ⟨a, u₂, ha, hae, hu₂⟩ := (localData handlers scope).creates (w := e) (d := e)
    ⟨⟨hmaterialized, hmaterialized⟩, rfl⟩ u₁
  rw [← toNat_ofNat hi] at he
  have hxw := hholds.of_le (hw.trans hw₁)
  obtain ⟨b, w₂, hb, hbe⟩ := hxw.selection he
  have hw₂ := (createSelectionInternal_yields handlers hxw.alive _).of_returns (le_refl w₁) hb |>.1
  refine .of_left (hgrowing.createValue e) (fun a => hgrowing.createCall _ (some a)) ha ?_
  refine .trans_same ?_ (evaluateCall_endSame {} fn _ scope w).same_symm
  refine .of_right (evaluate_growing fn scope) hargument ((creates_iff hcomputation).mp hcreate') ?_
  refine .of_right (evaluate_growing _ scope) (fun a => constCreateCall_growing f' (some a))
    (Evaluates.selection (.reference hx) hb) ?_
  have hcall := sameData_of_callGives (hfalive.of_le (hu₁.trans hu₂)) hae.alive (hfalive'.of_le hw₂) hbe.alive
    (himplements e (hu₁.trans hu₂) hae) (himplements' e hw₂ hbe)
  exact hcall.mono fun _ _ _ _ h => ⟨hu₂.trans h.1, (hw₁.trans hw₂).trans h.2.1, h.2.2⟩

theorem pointwise_of_denotes (hget : HasParallelMap handlers)
    (hcontents : x.contents s = some (.ok (.struct m es))) (hlength : es.length ≤ 2 ^ 31)
    (hdata : ∀ e ∈ es, e.Materialized) : Run.EndUpTo Status.SameCode (Since SameData s s)
      (fun n => (localExecutor handlers).evaluate n
        (createCall (createParallelMap fn) (createReference name)) scope) s
      (fun n => (localExecutor handlers).evaluate n
        (createStruct (callsOnElements fn (createReference name) es.length)) scope) s := by
  have halive := hscope.resolve hx
  have hholds : DataEquivalence.upToStructs.Holds x (createStruct es) s :=
    ⟨halive, _, hcontents, ⟨.struct hdata, .struct hdata⟩, rfl⟩
  have hevaluates : ∀ u, s ≤ u → ∃ f u', (localExecutor handlers).Evaluates fn scope u f u' ∧ u ≤ u' := by
    intro u hu
    obtain ⟨f, u', hcreate, hle, -⟩ := hfn hu
    exact ⟨f, u', (creates_iff hcomputation).mp hcreate, hle⟩
  -- the function denotes the same each time that it is evaluated
  have hpointwise := pointwise_of_applied (R := SameData) (fun h hs ht => h.mono hs ht) hget hcomputation hx
    halive hcontents (fun _ u hu => ?_) (fun u hu => ?_) fun u f u' hu hf => ?_
  · refine hpointwise.mono ?_
    rintro _ s' _ t' ⟨hs, ht, vs, vs', rfl, rfl, hvs⟩
    exact ⟨hs, ht, .struct hvs⟩
  · obtain ⟨f, u', hf, -⟩ := hevaluates u hu
    exact ⟨f, u', hf⟩
  · obtain ⟨f, u', hf, -⟩ := hevaluates u hu
    obtain ⟨f', s', hf', -⟩ := hevaluates s (le_refl s)
    refine Run.EndUpTo.mono_error (Run.EndAlike.upTo ?_) fun _ _ he => congrArg Status.code he
    exact .of_settles (evaluate_growing fn scope) (evaluate_growing fn scope)
      (.of_finally (evaluate_growing fn scope) hf) (.of_finally (evaluate_growing fn scope) hf') trivial
  · obtain ⟨_, _, hf', hle⟩ := hevaluates u hu
    obtain ⟨rfl, rfl⟩ := hf'.unique hf
    refine ⟨hle, forall₂_callsOnElements fun i e he => ?_⟩
    obtain ⟨hi, -⟩ := List.getElem?_eq_some_iff.mp he
    exact appliedAlike_of_denotes hscope hcomputation hfn hx hholds hdata hu hf (hi.trans_le hlength) he

end

end

/-! ## Elements that are not set -/

/-- An element that is not set is not made anew. -/
theorem parallelMapLoop_notSet [ProtoText] {handlers : IntrinsicHandlerSet} {scope : Scope} {n : Nat}
    {f : ExecutorValue} {vs : List ExecutorValue} : ∀ {es : List Value} {s s' : InlineState},
    Run.Returns (parallelMapLoop ((localExecutor handlers).contexts scope n) f es) s vs s' →
      ∀ m, .notSet m ∉ es
  | [], _, _, _, _ => List.not_mem_nil
  | e :: es, s, s', h, m => by
      obtain ⟨a, s₁, ha, h⟩ := h.of_bind
      obtain ⟨v, s₂, -, h⟩ := h.of_bind
      obtain ⟨vs', s₃, hrest, -⟩ := h.of_bind
      intro hmem
      rcases List.mem_cons.mp hmem with rfl | hmem
      · obtain ⟨_, hl⟩ := ha
        cases hl
      · exact parallelMapLoop_notSet hrest m hmem

/-! ### The theorem -/

/-- **`ParallelMap` is the structure of the single calls** where its elements are made anew as they were: then
the two end alike, and return values that are alike, for functions of any kind. For functions of data, all
elements may be data, and what is returned is the same up to the metadata of structures. But with an element
that is not set, it does not return. -/
theorem parallelMap_pointwise [ProtoText] (handlers : IntrinsicHandlerSet) (hget : HasParallelMap handlers)
    (scope : Scope) (name : String) (x : ExecutorValue) (fn : Value) (m : Meta) (es : List Value)
    (s : InlineState) (hscope : scope.Alive s) (hx : scope.resolve name = .ok x)
    (hfn : hasComputation fn = true) (hcontents : x.contents s = some (.ok (.struct m es)))
    (hlength : es.length ≤ 2 ^ 31) :
    let map : Nat → Exec InlineState ExecutorValue := fun n => (localExecutor handlers).evaluate n
      (createCall (createParallelMap fn) (createReference name)) scope
    let calls : Nat → Exec InlineState ExecutorValue := fun n => (localExecutor handlers).evaluate n
      (createStruct (callsOnElements fn (createReference name) es.length)) scope
    (∀ N : Set String, (∀ handler ∈ handlers, handler.Keeps (Value.ClosedOver N)) → fn.ClosedOver N →
      scope.Likewise N N s s scope →
      (es = [] → ∃ f s', (localExecutor handlers).Evaluates fn scope s f s') →
      x.RemakesElements handlers N scope s es → (∀ e ∈ es, ∀ m, e ≠ .notSet m) →
      Run.EndUpTo Status.SameCode (LikewiseSince N s s) map s calls s) ∧
    (∀ F : DataFunction, (localData handlers scope).Denotes s fn F → (∀ e ∈ es, e.Materialized) →
      Run.EndUpTo Status.SameCode (Since SameData s s) map s calls s) ∧
    ∀ m', .notSet m' ∈ es → ¬ ∃ y s', Run.Finally map s y s' := by
  refine ⟨fun N hhandlers hclosed hlike hempty hes hset =>
      pointwise_of_remakes hhandlers hclosed hlike hget hfn hx hcontents hlength hempty hes hset,
    fun F hdenotes hdata =>
      pointwise_of_denotes hscope hfn hdenotes hx hget hcontents hlength hdata, ?_⟩
  -- the loop creates each element, and an empty message cannot be created
  rintro m' hmem ⟨y, s', hreturns⟩
  obtain ⟨u, -, hmap⟩ := evaluate_parallelMap_endSame hget hfn hx (hscope.resolve hx) hcontents
  obtain ⟨_, _, ⟨n, hreturns⟩, -⟩ := hmap.returns hreturns
  obtain ⟨f, u₁, -, hreturns⟩ := hreturns.of_bind
  obtain ⟨vs, u₂, hloop, -⟩ := hreturns.of_bind
  exact parallelMapLoop_notSet hloop m' hmem

/-- A handler set with one handler. -/
def parallelMapOnly : IntrinsicHandlerSet := [⟨"parallel_map", .controlFlow .parallelMap⟩]

/-- A custom function that gives its string back, but for one. -/
def refuseB (v : Value) : StatusOr Value :=
  if v.str = "b" then .error (.notFound "no b") else .ok (.ofStr v.str)

def refusingHandlers : IntrinsicHandlerSet :=
  [⟨"custom_function", .inline (customFunction { pairConfig with customFunctionMap := fun _ => some refuseB })⟩,
    ⟨"parallel_map", .controlFlow .parallelMap⟩]

def refusing : Value := .intrinsic {} "custom_function" (some (.ofStr "/refuse_b"))

theorem denotes_refusing [ProtoText] (scope : Scope) (s : InlineState) :
    (localData refusingHandlers scope).Denotes s refusing fun d => .ok (refuseB d) := by
  refine denotes_inline rfl rfl rfl fun {w d} h => ⟨refuseB w, rfl, ?_⟩
  have hstr : w.str = d.str := by
    rw [← Value.str_bareStructs w, h.2, Value.str_bareStructs]
  unfold refuseB
  rw [hstr]
  split
  · rfl
  · exact DataEquivalence.upToStructs.scalar {} _

/-- The value cannot be materialized, for this reason. -/
def ExecutorValue.failsWith (e : Status) (v : ExecutorValue) (s : InlineState) : Bool :=
  match v.contents s with
  | some (.error e') => e' == e
  | _ => false

theorem ExecutorValue.contents_of_failsWith {e : Status} {v : ExecutorValue} {s : InlineState}
    (h : v.failsWith e s = true) : v.contents s = some (.error e) := by
  unfold failsWith at h
  split at h
  · next e' he' => rw [he', eq_of_beq h]
  · cases h

/-- Mapped over three strings, the second of which is refused: what the map returns does not materialize, as
what the calls return does not. -/
theorem parallelMap_pointwise_refusing :
    let _ := ProtoText.silent
    let s : InlineState :=
      BaseState.track ⟨.empty, ()⟩ (.ok (.ofStruct [.ofStr "a", .ofStr "b", .ofStr "c"]))
    let scope : Scope := [("x", .embedded 0)]
    let exec := localExecutor refusingHandlers
    let map (n : Nat) := exec.evaluate n (createCall (createParallelMap refusing) (createReference "x")) scope
    let calls (n : Nat) :=
      exec.evaluate n (createStruct (callsOnElements refusing (createReference "x") 3)) scope
    Run.EndUpTo Status.SameCode (LikewiseSince ∅ s s) map s calls s ∧
    Run.EndUpTo Status.SameCode (Since SameData s s) map s calls s ∧
    ∃ y s', Run.Finally map s y s' ∧ y.contents s' = some (.error (.notFound "no b")) := by
  intro _ s scope exec map calls
  have htracked : s.table.trackedValues 0 = some (.ok (.ofStruct [.ofStr "a", .ofStr "b", .ofStr "c"])) :=
    BaseState.tracked_track ⟨.empty, ()⟩ _
  have hscope : scope.Alive s := List.forall_mem_singleton.mpr (.embedded htracked)
  -- the function gives strings, which capture nothing
  have hkeeps : ∀ handler ∈ refusingHandlers, handler.Keeps (Value.ClosedOver ∅) := by
    refine List.forall_mem_cons.mpr ⟨fun intr arg result _ _ hresult => ?_,
      List.forall_mem_singleton.mpr trivial⟩
    have hrefuse : refuseB arg = .ok result := Option.some.inj hresult
    unfold refuseB at hrefuse
    split at hrefuse <;> cases hrefuse
    exact .scalar
  have hlike : Scope.Likewise ∅ ∅ s s scope scope :=
    ⟨hscope, hscope, fun _ h => (nomatch h), fun _ h => (nomatch h)⟩
  have hstrings : ∀ e ∈ [Value.ofStr "a", .ofStr "b", .ofStr "c"], ∃ c, e = .ofStr c := by
    intro e he
    simp only [List.mem_cons, List.not_mem_nil, or_false] at he
    rcases he with rfl | rfl | rfl <;> exact ⟨_, rfl⟩
  obtain ⟨hlikewise, hsame, -⟩ := parallelMap_pointwise refusingHandlers rfl scope "x" _ refusing {}
    [.ofStr "a", .ofStr "b", .ofStr "c"] s hscope rfl rfl htracked (by decide)
  refine ⟨hlikewise ∅ hkeeps (.intrinsic ?_) hlike (fun h => (nomatch h))
    (.embedded htracked fun e he => ?_) (fun e he m heq => ?_),
    hsame _ (denotes_refusing scope s) (fun e he => ?_), ?_⟩
  · rintro _ ⟨⟩
    exact .scalar
  · obtain ⟨c, rfl⟩ := hstrings e he
    exact .scalar
  · obtain ⟨c, rfl⟩ := hstrings e he
    cases heq
  · obtain ⟨c, rfl⟩ := hstrings e he
    exact .scalar
  · obtain ⟨y, s', hreturns, hcontents⟩ := exists_returns (x := map 9) (s := s) (ExecutorValue.failsWith
      (.notFound "no b")) (by decide +kernel)
    exact ⟨y, s', ⟨9, hreturns⟩, ExecutorValue.contents_of_failsWith hcontents⟩

/-- **What becomes of elements that are not made anew as they were**: one that is not set makes the map fail
where the calls return; a structure that the child holds loses its label; and a selection past its end, which
the child does not mind, fails the map. -/
theorem parallelMap_disagrees :
    let _ := ProtoText.silent
    let exec := localExecutor parallelMapOnly
    let scope : Scope := [("x", .struct [.embedded 0])]
    let s₀ : InlineState := ⟨.empty, ()⟩
    let map (fn : Value) (n : Nat) : Exec InlineState ExecutorValue :=
      exec.evaluate n (createCall (createParallelMap fn) (createReference "x")) scope
    let calls (fn : Value) (n : Nat) : Exec InlineState ExecutorValue :=
      exec.evaluate n (createStruct (callsOnElements fn (createReference "x") 1)) scope
    let comesTo (run : Nat → Exec InlineState ExecutorValue) (e w : Value) : Prop :=
      ∃ y s', Run.Finally run (s₀.track (.ok e)) y s' ∧ y.contents s' = some (.ok w)
    let failsOn (run : Nat → Exec InlineState ExecutorValue) (e : Value) : Prop :=
      ∃ status s', Run.FinallyFails run (s₀.track (.ok e)) status s'
    (failsOn (map (constantFunction {} "q" (.str "c"))) (.notSet {}) ∧
      comesTo (calls (constantFunction {} "q" (.str "c"))) (.notSet {}) (.ofStruct [.ofStr "c"])) ∧
    (comesTo (map (identityFunction {} "q")) labelledStruct (.ofStruct [.ofStruct []]) ∧
      comesTo (calls (identityFunction {} "q")) labelledStruct (.ofStruct [labelledStruct])) ∧
    failsOn (map ignoresSixth) (.ofStruct []) ∧
    comesTo (calls ignoresSixth) (.ofStruct []) (.ofStruct [.ofStr "c"]) := by
  intro _ exec scope s₀ map calls comesTo failsOn
  refine ⟨⟨⟨_, _, 9, _, rfl⟩, _, _, ⟨9, _, rfl⟩, rfl⟩, ⟨⟨_, _, ⟨9, _, rfl⟩, rfl⟩, _, _, ⟨9, _, rfl⟩, rfl⟩,
    ⟨_, _, 9, _, rfl⟩, _, _, ⟨9, _, rfl⟩, rfl⟩

end GenC
