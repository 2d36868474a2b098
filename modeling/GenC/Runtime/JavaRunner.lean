import GenC.Runtime.RunnerCalls

/-!
# Runners in Java

`java/runtime/Runner.java`, over the functions of `c/runtime/c_api.cc`. These hand out pointers to owned ids that
nobody deletes, and a null pointer stands for any error. A runner never gives up the id of its computation, and
disposes of the others itself (`JavaSession.run_couples`).

The bytes of a message are modelled by the message.
-/

namespace GenC

open Lib Run

/-! ## The C API -/

/-- A pointer to an object that is on the heap for good. It may be null. -/
abbrev Pointer (α : Type) : Type := Option α

/-- `BufferToMessage`, of a buffer that may be without data. -/
def bufferToMessage (buffer : Option Value) : Value := buffer.getD Value.defaultInstance

namespace CApi

section

variable {Id σ : Type} (executor : Executor Id σ)

/-- A new object for what is returned, and a null pointer for an error. -/
def pointerTo (x : Exec σ Id) : Exec σ (Pointer Id) := do
  match ← x.attempt with
  | .ok id => pure (some id)
  | .error _ => pure none

/-- `GC_create_value` -/
def createValue (value : Option Value) : Exec σ (Pointer Id) :=
  pointerTo (executor.createValue (bufferToMessage value))

/-- `GC_create_call` -/
def createCall (function arg : Id) : Exec σ (Pointer Id) := pointerTo (executor.createCall function (some arg))

/-- `GC_materialize`: the buffer stays as it was created if there is an error. -/
def materialize (value : Id) : Exec σ (Option Value) := do
  match ← (executor.materialize value (some Value.defaultInstance) >>= fun result => result.get).attempt with
  | .ok valueProto => pure (some valueProto)
  | .error _ => pure none

/-- `GC_dispose` -/
def dispose (value : Id) : Exec σ Unit := executor.releaseAll [value]

/-- `GC_GetValue` -/
def getValue : Pointer Id → Exec σ Id
  | some ownedValueId => pure ownedValueId
  | none => Run.crash .deadObject

end

end CApi

/-! ## The runner -/

namespace JavaRunner

variable {Id σ : Type} (executor : Executor Id σ)

/-- The constructor, up to `computationVal`. -/
def create (computation : Value) : Exec σ (Pointer Id) := CApi.createValue executor (some computation)

def call (computationVal : Pointer Id) (str : String) : Exec σ String := do
  let argVal ← CApi.createValue executor (some (Value.ofStr str))
  let function ← CApi.getValue computationVal
  let arg ← CApi.getValue argVal
  let resultVal ← CApi.createCall executor function arg
  let resultId ← CApi.getValue resultVal
  let result ← CApi.materialize executor resultId
  CApi.dispose executor arg
  CApi.dispose executor resultId
  -- `parseFrom` of no bytes is the default instance.
  pure (bufferToMessage result).str

end JavaRunner

/-! ## Sessions -/

/-- A step of a program that uses runners. It refers to them by the order in which they were made. -/
inductive JavaOp (Computation : Type) where
  | create (computation : Computation)
  | call (runner : Nat) (str : String)

def JavaOp.map {C D : Type} (f : C → D) : JavaOp C → JavaOp D
  | .create computation => .create (f computation)
  | .call runner str => .call runner str

/-- What comes of a step. -/
inductive JavaReply where
  | created
  | returned (str : String)
  | noRunner
  deriving DecidableEq

namespace JavaSession

section

variable {Id σ : Type} (executor : Executor Id σ)

def step (runners : List (Pointer Id)) : JavaOp Value → Exec σ (List (Pointer Id) × JavaReply)
  | .create computation => do
      let computationVal ← JavaRunner.create executor computation
      pure (runners ++ [computationVal], .created)
  | .call i str =>
      match runners[i]? with
      | some computationVal => do
          let result ← JavaRunner.call executor computationVal str
          pure (runners, .returned result)
      | none => pure (runners, .noRunner)

/-- The runners that were made, and what came of each step. -/
def run (runners : List (Pointer Id)) : List (JavaOp Value) → Exec σ (List (Pointer Id) × List JavaReply)
  | [] => pure (runners, [])
  | op :: ops => do
      let stepped ← step executor runners op
      let rest ← run stepped.1 ops
      pure (rest.1, stepped.2 :: rest.2)

end

end JavaSession

/-! ## On ids, as on values -/

section

open BaseState

variable {V σ α β : Type} (impl : ExecutorImpl σ V) {t : HandleTable V} {owned : ValueId → Option V}

namespace CApi

/-- Either there is a new object on both sides, or there is none on either. -/
theorem pointerTo_bind_couples {x : Exec σ V} {y : Exec (BaseState (HandleTable V) σ) ValueId}
    {f : Pointer V → Exec σ α} {g : Pointer ValueId → Exec (BaseState (HandleTable V) σ) β}
    {R : α → β → σ → BaseState (HandleTable V) σ → Prop} {E : σ → BaseState (HandleTable V) σ → Prop}
    (hxy : Couples (Linked t owned) x y (Issues t owned) (Linked t owned))
    (hsome : ∀ v id, owned id = none →
      Couples (Linked t (Function.update owned id (some v))) (f (some v)) (g (some id)) R E)
    (hnone : Couples (Linked t owned) (f none) (g none) R E) :
    Couples (Linked t owned) (pointerTo x >>= f) (pointerTo y >>= g) R E := by
  simp only [pointerTo, bind_assoc]
  refine hxy.attempt_bind (fun v id => .of_fact (fun _ _ h => h.new) fun hnew => ?_) fun _ => hnone
  exact (hsome v id hnew).conseq (fun _ _ h => h.linked) (fun _ _ _ _ h => h) fun _ _ h => h

/-- Using a null pointer is the same on both sides. -/
theorem getValue_none_couples {f : V → Exec σ α} {g : ValueId → Exec (BaseState (HandleTable V) σ) β}
    {P : σ → BaseState (HandleTable V) σ → Prop} {R : α → β → σ → BaseState (HandleTable V) σ → Prop}
    {E : σ → BaseState (HandleTable V) σ → Prop} :
    Couples P ((getValue none : Exec σ V) >>= f) (getValue none >>= g) R E := fun _ _ _ => .crash

theorem materialize_couples {id : ValueId} {v : V} (hid : owned id = some v) :
    Couples (Linked t owned) (materialize impl.direct v) (materialize (executorBase impl) id) (Keeps t owned Eq)
      fun _ _ => False := by
  refine (ExecutorBase.materialize_get_couples impl hid _).attempt_bind ?_ fun _ => .pure fun _ _ h => ⟨rfl, h⟩
  intro w w'
  refine .of_fact (fun _ _ h => h.1) ?_
  rintro rfl
  exact .pure fun _ _ h => ⟨rfl, h.2⟩

end CApi

/-- The ids of the argument and of the result are not owned any more, whatever the result is. -/
theorem JavaRunner.call_couples {f : Pointer V} {computationVal : Pointer ValueId}
    (hf : Option.Rel (fun v id => owned id = some v) f computationVal) (str : String) :
    Couples (Linked t owned) (call impl.direct f str) (call (executorBase impl) computationVal str) (Keeps t owned Eq)
      fun _ _ => True := by
  unfold call
  refine CApi.pointerTo_bind_couples (ExecutorBase.createValue_couples impl _) (fun x arg harg => ?_) ?_
  · cases hf with
    | none => exact CApi.getValue_none_couples
    | @some f function hf =>
        have hfunction : Function.update owned arg (some x) function = some f := by
          rw [Function.update_of_ne, hf]
          rintro rfl
          rw [hf] at harg
          cases harg
        have hcall := ExecutorBase.createCall_couples impl (t := t) hfunction (.some (Function.update_self ..))
        refine CApi.pointerTo_bind_couples hcall (fun r result hresult => ?_) CApi.getValue_none_couples
        have hne : arg ≠ result := by
          rintro rfl
          rw [Function.update_self] at hresult
          cases hresult
        have hself : Function.update (Function.update owned arg (some x)) result (some r) result = some r :=
          Function.update_self ..
        refine ((CApi.materialize_couples impl hself).conseq (fun _ _ h => h) (fun _ _ _ _ h => h)
          fun _ _ h => h.elim).bind fun w w' => .of_fact (fun _ _ h => h.1) ?_
        rintro rfl
        refine .conseq (P := Linked t _) ?_ (fun _ _ h => h.2) (fun _ _ _ _ h => h) fun _ _ h => h
        -- First the argument goes, then the result.
        refine ExecutorBase.release_couples impl (x := impl.direct.releaseAll [r] >>= fun _ => _) (v := x) ?_ ?_
        · rw [Function.update_of_ne hne, Function.update_self]
        refine ExecutorBase.release_couples impl (v := r) ?_ (.pure fun i s hs => ⟨rfl, ?_⟩)
        · rw [Function.update_of_ne hne.symm, Function.update_self]
        have hrestored : Function.update (Function.update (Function.update (Function.update owned arg (some x)) result
            (some r)) arg none) result none = owned := by
          have hresult' : Function.update (Function.update owned arg (some x)) result none =
              Function.update owned arg (some x) := Function.update_eq_self_iff.mpr hresult.symm
          rw [Function.update_comm hne, Function.update_idem, hresult', Function.update_idem,
            Function.update_eq_self_iff.mpr harg.symm]
        exact hrestored ▸ hs
  · cases hf with
    | none => exact CApi.getValue_none_couples
    | some => exact fun _ _ _ => .crash

namespace JavaSession

/-! ### Sessions -/

/-- The runners own the ids of their computations, and nobody else owns any. -/
structure Owns (owned : ValueId → Option V) (vs : List (Pointer V)) (ids : List (Pointer ValueId)) : Prop where
  runners : List.Forall₂ (Option.Rel fun v id => owned id = some v) vs ids
  only : ∀ id, owned id ≠ none → some id ∈ ids

namespace Owns

variable {vs : List (Pointer V)} {ids : List (Pointer ValueId)}

theorem empty : Owns (fun _ => none : ValueId → Option V) [] [] := ⟨.nil, fun _ h => absurd rfl h⟩

theorem owned_of_mem (h : Owns owned vs ids) {id : ValueId} (hid : some id ∈ ids) : owned id ≠ none := by
  obtain ⟨v?, -, hrel⟩ := exists_of_mem_right h.runners hid
  cases hrel with
  | some howned =>
      rw [howned]
      exact Option.some_ne_none _

theorem null (h : Owns owned vs ids) : Owns owned (vs ++ [none]) (ids ++ [none]) where
  runners := List.rel_append h.runners (.cons .none .nil)
  only id hid := List.mem_append_left _ (h.only id hid)

theorem new (h : Owns owned vs ids) {v : V} {id : ValueId} (hnew : owned id = none) :
    Owns (Function.update owned id (some v)) (vs ++ [some v]) (ids ++ [some id]) where
  runners := by
    refine List.rel_append (h.runners.imp ?_) (.cons (.some (Function.update_self ..)) .nil)
    intro v? id? hrel
    cases hrel with
    | none => exact .none
    | some howned =>
        refine .some ?_
        rw [Function.update_of_ne, howned]
        rintro rfl
        rw [howned] at hnew
        cases hnew
  only id' hid' := by
    -- the new id belongs to the new runner, and every other one to the runner that had it
    by_cases heq : id' = id
    · exact heq ▸ List.mem_append_right _ (List.mem_singleton_self _)
    · rw [Function.update_of_ne heq] at hid'
      exact List.mem_append_left _ (h.only id' hid')

end Owns

/-- What is the case after a step. -/
def After (t : HandleTable V) (vs : List (Pointer V)) (ids : List (Pointer ValueId)) (i : σ)
    (s : BaseState (HandleTable V) σ) : Prop :=
  ∃ owned, Owns owned vs ids ∧ Linked t owned i s

theorem step_couples {vs : List (Pointer V)} {ids : List (Pointer ValueId)} (h : Owns owned vs ids)
    (op : JavaOp Value) :
    Couples (Linked t owned) (step impl.direct vs op) (step (executorBase impl) ids op)
      (fun r r' i s => r.2 = r'.2 ∧ After t r.1 r'.1 i s) fun _ _ => True := by
  cases op with
  | create computation =>
      refine CApi.pointerTo_bind_couples (ExecutorBase.createValue_couples impl computation) (fun v id hnew => ?_) ?_
      · exact .pure fun i s hs => ⟨rfl, _, h.new hnew, hs⟩
      · exact .pure fun i s hs => ⟨rfl, _, h.null, hs⟩
  | call n str =>
      rcases forall₂_getElem? h.runners n with ⟨hv, hid⟩ | ⟨f, computationVal, hv, hid, hf⟩
      · simp only [step, hv, hid]
        exact .pure fun i s hs => ⟨rfl, owned, h, hs⟩
      · simp only [step, hv, hid]
        refine (JavaRunner.call_couples impl hf str).bind fun r r' => .of_fact (fun _ _ h => h.1) ?_
        rintro rfl
        exact .pure fun i s hs => ⟨rfl, owned, h, hs.2⟩

/-- **A session does the same on ids as on values**, and of the ids that it was given only those of the runners are
still in the table. -/
theorem run_couples (ops : List (JavaOp Value)) {vs : List (Pointer V)} {ids : List (Pointer ValueId)} :
    Couples (After t vs ids) (run impl.direct vs ops) (run (executorBase impl) ids ops)
      (fun r r' i s => r.2 = r'.2 ∧ After t r.1 r'.1 i s) fun _ _ => True := by
  induction ops generalizing vs ids with
  | nil => exact .pure fun i s hs => ⟨rfl, hs⟩
  | cons op ops ih =>
      refine .of_exists fun owned => .of_fact (fun _ _ h => h.1) fun howns => ?_
      have hstep := step_couples impl (t := t) howns op
      refine (hstep.conseq (fun _ _ h => h.2) (fun _ _ _ _ h => h) fun _ _ h => h).bind fun r r' => ?_
      refine .of_fact (fun _ _ h => h.1) fun hreply => ?_
      refine (ih.conseq (fun _ _ h => h.2) (fun _ _ _ _ h => h) fun _ _ h => h).bind fun rest rest' => .pure ?_
      rintro i s ⟨hrest, hafter⟩
      exact ⟨by rw [hreply, hrest], hafter⟩

end JavaSession

end

end GenC
