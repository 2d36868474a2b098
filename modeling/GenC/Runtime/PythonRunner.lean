import GenC.Authoring.ToFromValueProto
import GenC.Runtime.RunnerCalls

/-!
# Runners in Python

`python/runtime/runner.py` and `python/runtime/synchronous_context.py`. A runner creates the value of its
computation once, and owns it for as long as it lives. A call creates its arguments, calls, and converts what it
materializes. The ids that it was given on the way are gone once it is over.

A session is a program that makes runners, calls them and drops them, in any order. It does the same on the ids of an
executor as on the values themselves (`PythonSession.run_couples`).
-/

namespace GenC

open Lib Run

/-- What is not part of the repository: how the bindings show a status, and what `Any.Pack` makes of a message. -/
structure PythonBindings where
  str : Status → String
  pack : AnyPb → AnyPb

inductive PyException where
  /-- The `StatusNotOk` of the bindings. -/
  | statusNotOk (status : Status)
  | valueError (message : String)
  | runtimeError (message : String)

/-! ## The runner -/

namespace PythonRunner

section

variable {Id σ : Type} (executor : Executor Id σ) (py : PythonBindings)

/-- `Runner.__init__`: the id of the computation, which the runner owns. -/
def create (compPb : Value) : Option (Executor Id σ) → Exec σ (Except PyException Id)
  | none => pure (.error (.valueError "Executor must be provided."))
  | some executor => do
      match ← (executor.createValue compPb).attempt with
      | .ok compVal => pure (.ok compVal)
      | .error e => pure (.error (.statusNotOk e))

/-- The elements of several arguments. -/
def withElements : List PyArg → (List Id → Exec σ (Except String PyArg)) → Exec σ (Except String PyArg)
  | [], k => k []
  | x :: xs, k =>
      match x.toValueProto with
      | .error message => pure (.error message)
      | .ok valuePb => do
          let element ← executor.createValue valuePb
          executor.releasing [element] (withElements xs fun elements => k (element :: elements))

def withArgument (args : List PyArg) (k : Option Id → Exec σ (Except String PyArg)) :
    Exec σ (Except String PyArg) :=
  match args with
  | [] => k none
  | [x] =>
      match x.toValueProto with
      | .error message => pure (.error message)
      | .ok valuePb => do
          let argVal ← executor.createValue valuePb
          executor.releasing [argVal] (k (some argVal))
  | args => withElements executor args fun elements => do
      let argVal ← executor.createStruct elements
      executor.releasing [argVal] (k (some argVal))

/-- What `__call__` tries. A conversion that raises is an `Except.error`. -/
def tryCall (compVal : Id) (args : List PyArg) : Exec σ (Except String PyArg) :=
  withArgument executor args fun argVal => do
    let resultVal ← executor.createCall compVal argVal
    executor.releasing [resultVal] do
      let result ← executor.materialize resultVal (some Value.defaultInstance)
      let resultPb ← result.get
      pure (resultPb.fromValueProto py.pack)

/-- Whatever was raised, the caller sees a `RuntimeError`. -/
def caught : StatusOr (Except String PyArg) → Except PyException PyArg
  | .error e => .error (.runtimeError (py.str e))
  | .ok (.error message) => .error (.runtimeError message)
  | .ok (.ok x) => .ok x

/-- `Runner.__call__`. -/
def call (compVal : Id) (args : List PyArg) (kwargs : List (String × PyArg)) : Exec σ (Except PyException PyArg) :=
  if kwargs ≠ [] then pure (.error (.valueError "Keyword arguments are not currently supported."))
  else do
    let result ← (tryCall executor py compVal args).attempt
    pure (caught py result)

end

end PythonRunner

/-! ## Sessions -/

/-- A step of a program that uses runners, which it keeps in variables. -/
inductive PythonOp (Computation : Type) where
  | new (name : String) (comp : Computation)
  | call (name : String) (arg : PyArg) (args : List PyArg) (kwargs : List (String × PyArg))
  | del (name : String)
  /-- A call of a `Computation` in a `SynchronousContext`: with a runner of its own. -/
  | invoke (comp : Computation) (arg : PyArg) (args : List PyArg) (kwargs : List (String × PyArg))

def PythonOp.map {C D : Type} (f : C → D) : PythonOp C → PythonOp D
  | .new name comp => .new name (f comp)
  | .call name arg args kwargs => .call name arg args kwargs
  | .del name => .del name
  | .invoke comp arg args kwargs => .invoke (f comp) arg args kwargs

/-- What comes of a step. -/
inductive PythonReply where
  | done
  | returned (result : PyArg)
  | raised (e : PyException)
  /-- There is no runner of this name. -/
  | nameError

def PythonReply.ofResult : Except PyException PyArg → PythonReply
  | .ok result => .returned result
  | .error e => .raised e

namespace PythonSession

section

variable {Id σ : Type} (executor : Executor Id σ) (py : PythonBindings)

/-- What becomes of a runner that nothing refers to. -/
def drop : Option Id → Exec σ Unit
  | none => pure ()
  | some compVal => executor.releaseAll [compVal]

def step (runners : String → Option Id) : PythonOp Value → Exec σ ((String → Option Id) × PythonReply)
  | .new name comp => do
      match ← PythonRunner.create comp (some executor) with
      | .ok compVal => do
          -- The variable may have referred to another runner.
          drop executor (runners name)
          pure (Function.update runners name (some compVal), .done)
      | .error e => pure (runners, .raised e)
  | .call name arg args kwargs =>
      match runners name with
      | some compVal => do
          let result ← PythonRunner.call executor py compVal (arg :: args) kwargs
          pure (runners, .ofResult result)
      | none => pure (runners, .nameError)
  | .del name =>
      match runners name with
      | some compVal => do
          drop executor (some compVal)
          pure (Function.update runners name none, .done)
      | none => pure (runners, .nameError)
  | .invoke comp arg args kwargs => do
      match ← PythonRunner.create comp (some executor) with
      | .ok compVal => do
          let result ← executor.releasing [compVal] (PythonRunner.call executor py compVal (arg :: args) kwargs)
          pure (runners, .ofResult result)
      | .error e => pure (runners, .raised e)

/-- The runners that are left, and what came of each step. -/
def run (runners : String → Option Id) : List (PythonOp Value) → Exec σ ((String → Option Id) × List PythonReply)
  | [] => pure (runners, [])
  | op :: ops => do
      let stepped ← step executor py runners op
      let rest ← run stepped.1 ops
      pure (rest.1, stepped.2 :: rest.2)

end

end PythonSession

/-! ## On ids, as on values -/

section

open BaseState PythonRunner

variable {V σ : Type} (impl : ExecutorImpl σ V) (py : PythonBindings) {t : HandleTable V}
  {owned : ValueId → Option V}

/-- More is owned than before. -/
def OwnsMore (owned owned' : ValueId → Option V) : Prop := ∀ id v, owned id = some v → owned' id = some v

theorem OwnsMore.update {id : ValueId} (hnew : owned id = none) (v : V) :
    OwnsMore owned (Function.update owned id (some v)) := by
  intro id' v' h
  have hne : id' ≠ id := by
    rintro rfl
    rw [hnew] at h
    cases h
  rw [Function.update_of_ne hne, h]

theorem OwnsMore.trans {owned' owned'' : ValueId → Option V} (h : OwnsMore owned owned')
    (h' : OwnsMore owned' owned'') : OwnsMore owned owned'' := fun id v hv => h' id v (h id v hv)

namespace PythonRunner

theorem withElements_couples {args : List PyArg} {k : List V → Exec σ (Except String PyArg)}
    {k' : List ValueId → Exec (BaseState (HandleTable V) σ) (Except String PyArg)}
    (hk : ∀ owned' vs ids, OwnsMore owned owned' → List.Forall₂ (fun v id => owned' id = some v) vs ids →
      Couples (Linked t owned') (k vs) (k' ids) (Keeps t owned' Eq) (Linked t owned')) :
    Couples (Linked t owned) (withElements impl.direct args k) (withElements (executorBase impl) args k')
      (Keeps t owned Eq) (Linked t owned) := by
  induction args generalizing owned k k' with
  | nil => exact hk owned [] [] (fun _ _ h => h) .nil
  | cons x xs ih =>
      simp only [withElements, ExecutorImpl.direct_releasing]
      rcases x.toValueProto with message | valuePb
      · exact .pure fun _ _ h => ⟨rfl, h⟩
      refine Executor.owning_couples impl (ExecutorBase.createValue_couples impl valuePb) fun v id hnew => ?_
      have hmore : OwnsMore owned (Function.update owned id (some v)) := .update hnew v
      refine ih fun owned' vs ids hmore' hids => hk owned' _ _ (hmore.trans hmore') (.cons ?_ hids)
      exact hmore' id v (Function.update_self ..)

theorem withArgument_couples {args : List PyArg} {k : Option V → Exec σ (Except String PyArg)}
    {k' : Option ValueId → Exec (BaseState (HandleTable V) σ) (Except String PyArg)}
    (hk : ∀ owned' x id, OwnsMore owned owned' → Option.Rel (fun v id => owned' id = some v) x id →
      Couples (Linked t owned') (k x) (k' id) (Keeps t owned' Eq) (Linked t owned')) :
    Couples (Linked t owned) (withArgument impl.direct args k) (withArgument (executorBase impl) args k')
      (Keeps t owned Eq) (Linked t owned) := by
  rcases args with _ | ⟨x, _ | ⟨y, xs⟩⟩
  · exact hk owned none none (fun _ _ h => h) .none
  · simp only [withArgument, ExecutorImpl.direct_releasing]
    rcases x.toValueProto with message | valuePb
    · exact .pure fun _ _ h => ⟨rfl, h⟩
    refine Executor.owning_couples impl (ExecutorBase.createValue_couples impl valuePb) fun v id hnew => ?_
    exact hk _ _ _ (.update hnew v) (.some (Function.update_self ..))
  · simp only [withArgument, ExecutorImpl.direct_releasing]
    refine withElements_couples impl fun owned' vs ids hmore hids => ?_
    refine Executor.owning_couples impl (ExecutorBase.createStruct_couples impl hids) fun v id hnew => ?_
    exact hk _ _ _ (hmore.trans (.update hnew v)) (.some (Function.update_self ..))

theorem tryCall_couples {compVal : ValueId} {f : V} (hf : owned compVal = some f) (args : List PyArg) :
    Couples (Linked t owned) (tryCall impl.direct py f args) (tryCall (executorBase impl) py compVal args)
      (Keeps t owned Eq) (Linked t owned) := by
  refine withArgument_couples impl fun owned' x id hmore hx => ?_
  simp only [ExecutorImpl.direct_releasing]
  have hcall := ExecutorBase.createCall_couples impl (t := t) (hmore compVal f hf) hx
  refine Executor.owning_couples impl hcall fun v id' _ => ?_
  have hself : Function.update owned' id' (some v) id' = some v := Function.update_self ..
  have hget := ExecutorBase.materialize_get_couples impl (t := t) hself (some Value.defaultInstance)
  simp only [← bind_assoc]
  refine hget.bind fun resultPb resultPb' => .of_fact (fun _ _ h => h.1) ?_
  rintro rfl
  exact .pure fun _ _ h => ⟨rfl, h.2⟩

theorem call_couples {compVal : ValueId} {f : V} (hf : owned compVal = some f) (args : List PyArg)
    (kwargs : List (String × PyArg)) :
    Couples (Linked t owned) (call impl.direct py f args kwargs) (call (executorBase impl) py compVal args kwargs)
      (Keeps t owned Eq) (Linked t owned) := by
  unfold call
  split
  · exact .pure fun _ _ h => ⟨rfl, h⟩
  refine (tryCall_couples impl py hf args).attempt_bind (fun r r' => .of_fact (fun _ _ h => h.1) ?_) fun e => ?_
  · rintro rfl
    exact .pure fun _ _ h => ⟨rfl, h.2⟩
  · exact .pure fun _ _ h => ⟨rfl, h⟩

end PythonRunner

namespace PythonSession

/-! ### Sessions -/

/-- The variables own the ids of their runners' computations, and nobody else owns any. -/
structure Owns (owned : ValueId → Option V) (vs : String → Option V) (ids : String → Option ValueId) : Prop where
  runners : ∀ name, Option.Rel (fun v id => owned id = some v) (vs name) (ids name)
  distinct : ∀ name name' id, ids name = some id → ids name' = some id → name = name'
  only : ∀ id, owned id ≠ none → ∃ name, ids name = some id

namespace Owns

variable {vs : String → Option V} {ids : String → Option ValueId} {id : ValueId} {v : V} {name : String}

theorem empty : Owns (fun _ => none : ValueId → Option V) (fun _ => none) fun _ => none where
  runners _ := .none
  distinct _ _ _ h := by cases h
  only _ h := absurd rfl h

theorem owned_of_id (h : Owns owned vs ids) (hid : ids name = some id) : ∃ v, vs name = some v ∧ owned id = some v := by
  have hrel := h.runners name
  rw [hid] at hrel
  generalize hv : vs name = v? at hrel
  cases hrel with
  | some howned => exact ⟨_, rfl, howned⟩

/-- Another variable has another id. -/
theorem ne (h : Owns owned vs ids) (hid : ids name = some id) {name' : String} (hname : name' ≠ name) :
    ids name' ≠ some id := fun hid' => hname (h.distinct _ _ _ hid' hid)

theorem bind (h : Owns owned vs ids) (hname : ids name = none) (hnew : owned id = none) (v : V) :
    Owns (Function.update owned id (some v)) (Function.update vs name (some v))
      (Function.update ids name (some id)) where
  runners name' := by
    by_cases heq : name' = name
    · subst heq
      rw [Function.update_self, Function.update_self]
      exact .some (Function.update_self ..)
    rw [Function.update_of_ne heq, Function.update_of_ne heq]
    have hrel := h.runners name'
    generalize vs name' = v?, ids name' = id? at hrel
    cases hrel with
    | none => exact .none
    | some howned => exact .some (OwnsMore.update hnew v _ _ howned)
  distinct name₁ name₂ id' h₁ h₂ := by
    -- The new id was not a variable's.
    have hfresh (name' : String) : ids name' ≠ some id := by
      intro hid
      obtain ⟨v', -, howned⟩ := h.owned_of_id hid
      rw [hnew] at howned
      cases howned
    by_cases heq₁ : name₁ = name <;> by_cases heq₂ : name₂ = name
    · rw [heq₁, heq₂]
    · subst heq₁
      rw [Function.update_self] at h₁
      rw [Function.update_of_ne heq₂, ← h₁] at h₂
      exact absurd h₂ (hfresh name₂)
    · subst heq₂
      rw [Function.update_self] at h₂
      rw [Function.update_of_ne heq₁, ← h₂] at h₁
      exact absurd h₁ (hfresh name₁)
    · rw [Function.update_of_ne heq₁] at h₁
      rw [Function.update_of_ne heq₂] at h₂
      exact h.distinct _ _ _ h₁ h₂
  only id' hid' := by
    by_cases heq : id' = id
    · exact ⟨name, by rw [Function.update_self, heq]⟩
    rw [Function.update_of_ne heq] at hid'
    obtain ⟨name', hname'⟩ := h.only id' hid'
    refine ⟨name', ?_⟩
    rw [Function.update_of_ne, hname']
    rintro rfl
    rw [hname] at hname'
    cases hname'

theorem unbind (h : Owns owned vs ids) (hid : ids name = some id) :
    Owns (Function.update owned id none) (Function.update vs name none) (Function.update ids name none) where
  runners name' := by
    by_cases heq : name' = name
    · subst heq
      rw [Function.update_self, Function.update_self]
      exact .none
    rw [Function.update_of_ne heq, Function.update_of_ne heq]
    -- another runner owns another id, so its own is not given up
    have hne := h.ne hid heq
    have hrel := h.runners name'
    generalize vs name' = v?, ids name' = id? at hrel hne
    cases hrel with
    | none => exact .none
    | some howned =>
        refine .some ?_
        rw [Function.update_of_ne, howned]
        rintro rfl
        exact hne rfl
  distinct name₁ name₂ id' h₁ h₂ := by
    -- a name that is bound afterwards was bound before
    have hold {name' : String} (h' : Function.update ids name none name' = some id') : ids name' = some id' := by
      by_cases heq : name' = name
      · subst heq
        rw [Function.update_self] at h'
        cases h'
      · rwa [Function.update_of_ne heq] at h'
    exact h.distinct _ _ _ (hold h₁) (hold h₂)
  only id' hid' := by
    by_cases heq : id' = id
    · subst heq
      exact absurd (Function.update_self ..) hid'
    rw [Function.update_of_ne heq] at hid'
    obtain ⟨name', hname'⟩ := h.only id' hid'
    refine ⟨name', ?_⟩
    rw [Function.update_of_ne, hname']
    rintro rfl
    rw [hid] at hname'
    exact heq (Option.some.inj hname').symm

end Owns

/-- What is the case after a step. -/
def After (t : HandleTable V) (vs : String → Option V) (ids : String → Option ValueId) (i : σ)
    (s : BaseState (HandleTable V) σ) : Prop :=
  ∃ owned, Owns owned vs ids ∧ Linked t owned i s

theorem create_bind_couples {comp : Value} {f : Except PyException V → Exec σ α}
    {g : Except PyException ValueId → Exec (BaseState (HandleTable V) σ) β}
    {R : α → β → σ → BaseState (HandleTable V) σ → Prop} {E : σ → BaseState (HandleTable V) σ → Prop}
    (hok : ∀ v id, owned id = none →
      Couples (Linked t (Function.update owned id (some v))) (f (.ok v)) (g (.ok id)) R E)
    (herror : ∀ e, Couples (Linked t owned) (f (.error e)) (g (.error e)) R E) :
    Couples (Linked t owned) (create comp (some impl.direct) >>= f) (create comp (some (executorBase impl)) >>= g)
      R E := by
  simp only [create, bind_assoc]
  refine (ExecutorBase.createValue_couples impl comp).attempt_bind (fun v id => ?_) fun e => herror (.statusNotOk e)
  refine .of_fact (fun _ _ h => h.new) fun hnew => ?_
  exact (hok v id hnew).conseq (fun _ _ h => h.linked) (fun _ _ _ _ h => h) fun _ _ h => h

/-- Dropping a runner ends the ownership of its id. -/
theorem drop_couples {id : ValueId} {v : V} {x : Exec σ α} {y : Exec (BaseState (HandleTable V) σ) β}
    {R : α → β → σ → BaseState (HandleTable V) σ → Prop} {E : σ → BaseState (HandleTable V) σ → Prop}
    (hid : owned id = some v) (h : Couples (Linked t (Function.update owned id none)) x y R E) :
    Couples (Linked t owned) (drop impl.direct (some v) >>= fun _ => x)
      (drop (executorBase impl) (some id) >>= fun _ => y) R E := by
  have hdrop : (drop impl.direct (some v) >>= fun _ => x) = x := rfl
  rw [hdrop]
  exact ExecutorBase.release_couples impl hid h

theorem step_couples {vs : String → Option V} {ids : String → Option ValueId} (h : Owns owned vs ids)
    (op : PythonOp Value) :
    Couples (Linked t owned) (step impl.direct py vs op) (step (executorBase impl) py ids op)
      (fun r r' i s => r.2 = r'.2 ∧ After t r.1 r'.1 i s) fun _ _ => True := by
  have hsame (reply : PythonReply) : Couples (Linked t owned) (Pure.pure (vs, reply) : Exec σ _)
      (Pure.pure (ids, reply)) (fun r r' i s => r.2 = r'.2 ∧ After t r.1 r'.1 i s) fun _ _ => True :=
    .pure fun i s hs => ⟨rfl, owned, h, hs⟩
  have hresult {x : Exec σ (Except PyException PyArg)} {y : Exec (BaseState (HandleTable V) σ) _}
      {P : σ → BaseState (HandleTable V) σ → Prop} {E : σ → BaseState (HandleTable V) σ → Prop}
      (hxy : Couples P x y (Keeps t owned Eq) E) :
      Couples P (x >>= fun r => Pure.pure (vs, PythonReply.ofResult r))
        (y >>= fun r => Pure.pure (ids, PythonReply.ofResult r))
        (fun r r' i s => r.2 = r'.2 ∧ After t r.1 r'.1 i s) fun _ _ => True := by
    refine (hxy.conseq (fun _ _ h => h) (fun _ _ _ _ h => h) fun _ _ _ => trivial).bind fun r r' => ?_
    refine .of_fact (fun _ _ h => h.1) ?_
    rintro rfl
    exact (hsame (.ofResult r)).conseq (fun _ _ h => h.2) (fun _ _ _ _ h => h) fun _ _ h => h
  cases op with
  | new name comp =>
      refine create_bind_couples impl (fun v id hnew => ?_) fun e => hsame (.raised e)
      have hrel := h.runners name
      generalize hv : vs name = v?, hid : ids name = id? at hrel
      cases hrel with
      | none => exact .pure fun i s hs => ⟨rfl, _, h.bind hid hnew v, hs⟩
      | @some old oldId howned =>
          -- The old runner goes after the new one has come.
          have hne : oldId ≠ id := by
            rintro rfl
            rw [hnew] at howned
            cases howned
          have hfree : Function.update owned oldId none id = none := by
            rw [Function.update_of_ne hne.symm, hnew]
          have hbound := (h.unbind hid).bind (Function.update_self name none ids) hfree v
          rw [Function.update_idem, Function.update_idem, Function.update_comm hne] at hbound
          refine drop_couples impl (by rw [Function.update_of_ne hne, howned]) (.pure fun i s hs => ?_)
          exact ⟨rfl, _, hbound, hs⟩
  | call name arg args kwargs =>
      have hrel := h.runners name
      generalize hv : vs name = v?, hid : ids name = id? at hrel
      cases hrel with
      | none =>
          simp only [step, hv, hid]
          exact hsame .nameError
      | some howned =>
          simp only [step, hv, hid]
          exact hresult (call_couples impl py howned (arg :: args) kwargs)
  | del name =>
      have hrel := h.runners name
      generalize hv : vs name = v?, hid : ids name = id? at hrel
      cases hrel with
      | none =>
          simp only [step, hv, hid]
          exact hsame .nameError
      | some howned =>
          simp only [step, hv, hid]
          exact drop_couples impl howned (.pure fun i s hs => ⟨rfl, _, h.unbind hid, hs⟩)
  | invoke comp arg args kwargs =>
      refine create_bind_couples impl (fun v id hnew => ?_) fun e => hsame (.raised e)
      simp only [ExecutorImpl.direct_releasing]
      have hself : Function.update owned id (some v) id = some v := Function.update_self ..
      exact hresult (Executor.releasing_couples impl hnew (call_couples impl py hself (arg :: args) kwargs))

/-- **A session does the same on ids as on values.** -/
theorem run_couples (ops : List (PythonOp Value)) {vs : String → Option V} {ids : String → Option ValueId} :
    Couples (After t vs ids) (run impl.direct py vs ops) (run (executorBase impl) py ids ops)
      (fun r r' i s => r.2 = r'.2 ∧ After t r.1 r'.1 i s) fun _ _ => True := by
  induction ops generalizing vs ids with
  | nil => exact .pure fun i s hs => ⟨rfl, hs⟩
  | cons op ops ih =>
      refine .of_exists fun owned => .of_fact (fun _ _ h => h.1) fun howns => ?_
      have hstep := step_couples impl py (t := t) howns op
      refine (hstep.conseq (fun _ _ h => h.2) (fun _ _ _ _ h => h) fun _ _ h => h).bind fun r r' => ?_
      refine .of_fact (fun _ _ h => h.1) fun hreply => ?_
      refine (ih.conseq (fun _ _ h => h.2) (fun _ _ _ _ h => h) fun _ _ h => h).bind fun rest rest' => .pure ?_
      rintro i s ⟨hrest, hafter⟩
      exact ⟨by rw [hreply, hrest], hafter⟩

end PythonSession

end

end GenC
