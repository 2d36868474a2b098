import GenC.Lib.Fuel
import GenC.Lib.TaskPool
import GenC.Runtime.OwnedValueId
import GenC.Runtime.Purity

/-!
# Deterministic executors

An executor is deterministic if its handles name values, and what an operation does is decided by the values
of its operands: that it returns a handle of some value, that it fails, or that it does not end. It does not
matter then in which order unrelated operations are made.

* `Deterministic` says so of an executor whose handles are the ids of the source. `DeterministicImpl`
  says it of an implementation, of which `ExecutorBase` makes such an executor
  (`DeterministicImpl.executor`).
* **`ControlFlowExecutor.localDeterministic`**: the local stack is deterministic, whichever handlers it has.
  Its values are those of `Runtime/Purity.lean`, up to being the same.
-/

namespace GenC

open Lib

/-! ## On handles -/

/-- The answer of `Materialize` to a client with an output. -/
inductive Answers : MaterializeResult → StatusOr Value → Prop where
  | ok (v : Value) : Answers ⟨.ok (), some v⟩ (.ok v)
  | error (e : Status) (output : Option Value) : Answers ⟨.error e, output⟩ (.error e)

/-- An operation ends with a name of the value `r`, or with the error `r`. If `r` is `none`, it does not
end. -/
inductive Denotes {σ β V : Type} (d : Denotation σ β V) (n : Nat) (s : σ) (x : Exec σ β) :
    Option (StatusOr V) → Prop where
  | ends {b s' r} : Run.Returns x.attempt s b s' → d.Inv n s' → d.Ext s s' → d.Matches s' b r →
      Denotes d n s x (some r)
  | stalls : Run.Stalls x s → Denotes d n s x none

theorem Denotes.after {σ β V : Type} {d : Denotation σ β V} {n : Nat} {s : σ} {x : Exec σ α}
    {f : α → Exec σ β} {a : α} {r : Option (StatusOr V)} (hx : Run.Returns x s a s)
    (h : Denotes d n s (f a) r) : Denotes d n s (x >>= f) r := by
  cases h with
  | ends hb hinv hext hmatches => exact .ends (hx.bind_attempt hb) hinv hext hmatches
  | stalls h => exact .stalls (.bind hx h)

/-- A materialization answers `r`. If `r` is `none`, it does not end. -/
inductive Materializes {σ β V : Type} (d : Denotation σ β V) (n : Nat) (s : σ)
    (x : Exec σ MaterializeResult) : Option (StatusOr Value) → Prop where
  | ends {m s' r} : Run.Returns x s m s' → d.Inv n s' → d.Ext s s' → Answers m r →
      Materializes d n s x (some r)
  | stalls : Run.Stalls x s → Materializes d n s x none

/-- The ids of `executor` name values of type `V`, and each operation is a function of the values of its
operands, where it ends; whether it does is decided by them as well. What the ids name does not change,
whatever else is created. -/
structure Deterministic {σ : Type} (executor : Executor UInt64 σ) (V : Type) extends
    Denotation σ UInt64 V where
  createValue : Value → Option (StatusOr V)
  createCall : V → Option V → Option (StatusOr V)
  createStruct : List V → Option (StatusOr V)
  createSelection : V → UInt32 → Option (StatusOr V)
  materialize : V → Option (StatusOr Value)
  valid : ∀ {s id v}, Rel s id v → id ≠ OwnedValueId.invalidId
  createValue_denotes : ∀ {n s} (val : Value), Inv (n + 1) s →
    Denotes toDenotation n s (executor.createValue val) (createValue val)
  createCall_denotes : ∀ {n s function f argument a}, Inv (n + 1) s → Rel s function f →
    Option.Rel (Rel s) argument a →
    Denotes toDenotation n s (executor.createCall function argument) (createCall f a)
  createStruct_denotes : ∀ {n s members vs}, Inv (n + 1) s → List.Forall₂ (Rel s) members vs →
    Denotes toDenotation n s (executor.createStruct members) (createStruct vs)
  createSelection_denotes : ∀ {n s source v} (index : UInt32), Inv (n + 1) s → Rel s source v →
    Denotes toDenotation n s (executor.createSelection source index) (createSelection v index)
  materialize_answers : ∀ {n s id v} (output : Value), Inv (n + 1) s → Rel s id v →
    Materializes toDenotation n s (executor.materialize id (some output)) (materialize v)

/-! ## On values -/

/-- From `s`, the run makes what stands for the value `r`, or fails with the error `r`. If `r` is `none`, it
does not end. -/
inductive Computes {σ V W : Type} [LE σ] (Is : σ → V → W → Prop) (x : Exec σ V) (s : σ) :
    Option (StatusOr W) → Prop where
  | returns {v s' w} : Run.Returns x s v s' → s ≤ s' → Is s' v w → Computes Is x s (some (.ok w))
  | fails {e s'} : Run.Fails x s e s' → s ≤ s' → Computes Is x s (some (.error e))
  | stalls : Run.Stalls x s → Computes Is x s none

/-- What an implementation's values stand for, as its state grows. -/
structure DeterministicImpl {σ V : Type} [Preorder σ] (impl : ExecutorImpl σ V) (W : Type) where
  Is : σ → V → W → Prop
  is_mono : ∀ {s s' v w}, s ≤ s' → Is s v w → Is s' v w
  createValue : Value → Option (StatusOr W)
  createCall : W → Option W → Option (StatusOr W)
  createStruct : List W → Option (StatusOr W)
  createSelection : W → UInt32 → Option (StatusOr W)
  materialize : W → StatusOr Value
  createValue_computes : ∀ val s, Computes Is (impl.createExecutorValue val) s (createValue val)
  createCall_computes : ∀ {s f w a w'}, Is s f w → Option.Rel (Is s) a w' →
    Computes Is (impl.createCall f a) s (createCall w w')
  createStruct_computes : ∀ {s vs ws}, List.Forall₂ (Is s) vs ws →
    Computes Is (impl.createStruct vs) s (createStruct ws)
  createSelection_computes : ∀ {s v w} (index : UInt32), Is s v w →
    Computes Is (impl.createSelection v index) s (createSelection w index)
  materialize_answers : ∀ {s v w} (output : Value), Is s v w →
    ∃ m s', Run.Returns (impl.materialize v (some output)) s m s' ∧ s ≤ s' ∧ Answers m (materialize w)

namespace DeterministicImpl

section

variable {σ V W : Type} [Preorder σ] {impl : ExecutorImpl σ V} (D : DeterministicImpl impl W)

/-- An id names what the value under it stands for. There are ids for so many values only. -/
def names : Denotation (BaseState (TrackedValues V) σ) UInt64 W where
  Inv n s := ∃ h : HandleTable V, s.table.Refines h ∧ h.nextValueId + n < 2 ^ 64
  Ext s s' := (∀ {id v}, s.table.trackedValues id = some v → s'.table.trackedValues id = some v) ∧
    s.impl ≤ s'.impl
  Rel s id w := id ≠ OwnedValueId.invalidId ∧ ∃ v, s.table.trackedValues id = some v ∧ D.Is s.impl v w
  inv_succ := fun ⟨h, hr, hlt⟩ => ⟨h, hr, Nat.lt_of_succ_lt hlt⟩
  ext_refl s := ⟨id, le_refl s.impl⟩
  rel_mono := fun ⟨hext, hle⟩ ⟨hid, v, hv, his⟩ => ⟨hid, v, hext hv, D.is_mono hle his⟩

variable {n : Nat} {s : BaseState (TrackedValues V) σ}

/-- A value that is made gets an id that names it. -/
theorem trackValue_denotes (hinv : D.names.Inv (n + 1) s) {x : Exec σ V} {r : Option (StatusOr W)}
    (hx : Computes D.Is x s.impl r) :
    Denotes D.names n s
      (ExecutorBase.onImpl x >>= ExecutorBase.trackValue : Exec (BaseState (TrackedValues V) σ) UInt64)
      r := by
  obtain ⟨h, hr, hlt⟩ := hinv
  cases hx with
  | stalls hx => exact .stalls (hx.zoom.bind_left _)
  | @fails e s' hx hle =>
      refine .ends (Run.Fails.bind_left (.zoom hx)).attempt ⟨h, hr, Nat.lt_of_succ_lt hlt⟩ ⟨id, hle⟩ (.error e)
  | @returns v s' w hx hle his =>
      have hnext : h.nextValueId < 2 ^ 64 := Nat.lt_of_le_of_lt (Nat.le_add_right _ _) hlt
      -- the wrapped counter agrees with the count of handles, as there are fewer than `2 ^ 64`
      have hnat : s.table.nextValueId.toNat = h.nextValueId := by
        rw [hr.next]
        exact UInt64.toNat_ofNat_of_lt' hnext
      have hr' := hr.trackValue hnext v
      have htrack : Run.Returns
          (ExecutorBase.trackValue v : Exec (BaseState (TrackedValues V) σ) UInt64) { s with impl := s' }
          s.table.nextValueId ⟨(s.table.trackValue v).2, s'⟩ := .step rfl
      refine .ends (hx.zoom.bind htrack).attempt ⟨_, hr', ?_⟩ ⟨?_, hle⟩ (.ok ⟨?_, v, ?_, his⟩)
      · show h.nextValueId + 1 + n < 2 ^ 64
        rw [Nat.add_assoc, Nat.add_comm 1 n]
        exact hlt
      · intro id u hid
        show (s.table.trackValue v).2.trackedValues id = some u
        rw [hr'.tracked]
        rw [hr.tracked] at hid
        exact HandleTable.trackedValues_trackValue_of_some hid
      -- the last number is the invalid id, and one more handle would still have fit
      · intro (heq : s.table.nextValueId = OwnedValueId.invalidId)
        have hinvalid : h.nextValueId = 2 ^ 64 - 1 := by
          rw [← hnat, heq]
          rfl
        have hlt' : 2 ^ 64 - 1 + (n + 1) < 2 ^ 64 := hinvalid ▸ hlt
        omega
      · show (s.table.trackValue v).2.trackedValues s.table.nextValueId = some v
        rw [hr'.tracked, hnat]
        exact HandleTable.trackedValues_trackValue_self v h

omit [Preorder σ] in
theorem lookup_returns {id : UInt64} {v : V} (name : String) (h : s.table.trackedValues id = some v) :
    Run.Returns (ExecutorBase.getTracked name id) s v s :=
  .step (by rw [show ValueTable.getTracked s.table id = some v from h])

theorem lookupAll_returns {members : List UInt64} {ws : List W} (name : String)
    (h : List.Forall₂ (D.names.Rel s) members ws) :
    ∃ vs, Run.Returns (ExecutorBase.getAllTracked name members) s vs s ∧
      List.Forall₂ (D.Is s.impl) vs ws := by
  induction h with
  | nil => exact ⟨[], .pure _ _, .nil⟩
  | cons hw _ ih =>
      obtain ⟨-, v, hv, his⟩ := hw
      obtain ⟨vs, hvs, hall⟩ := ih
      exact ⟨v :: vs, (lookup_returns name hv).bind (hvs.bind (.pure _ _)), .cons his hall⟩

/-! ### The executor -/

/-- Behind a table, a deterministic implementation is a deterministic executor. -/
def executor : Deterministic (executorBase impl : Executor UInt64 (BaseState (TrackedValues V) σ)) W where
  toDenotation := D.names
  createValue := D.createValue
  createCall := D.createCall
  createStruct := D.createStruct
  createSelection := D.createSelection
  materialize w := some (D.materialize w)
  valid h := h.1
  createValue_denotes val hinv := D.trackValue_denotes hinv (D.createValue_computes val _)
  createCall_denotes {n s function f argument a} hinv hf ha := by
    obtain ⟨-, v, hv, his⟩ := hf
    refine .after (lookup_returns _ hv) ?_
    cases ha with
    | none =>
        exact .after (.pure none s) (D.trackValue_denotes hinv (D.createCall_computes his .none))
    | some ha =>
        obtain ⟨-, u, hu, hisArg⟩ := ha
        exact .after ((lookup_returns _ hu).bind (.pure _ _))
          (D.trackValue_denotes hinv (D.createCall_computes his (.some hisArg)))
  createStruct_denotes {n s members ws} hinv hws := by
    obtain ⟨vs, hvs, hall⟩ := D.lookupAll_returns impl.executorName hws
    exact .after hvs (D.trackValue_denotes hinv (D.createStruct_computes hall))
  createSelection_denotes {n s source w} index hinv hw := by
    obtain ⟨-, v, hv, his⟩ := hw
    exact .after (lookup_returns _ hv) (D.trackValue_denotes hinv (D.createSelection_computes index his))
  materialize_answers {n s id w} output hinv hw := by
    obtain ⟨-, v, hv, his⟩ := hw
    obtain ⟨m, s', hm, hle, hanswers⟩ := D.materialize_answers output his
    obtain ⟨h, hr, hlt⟩ := hinv
    exact .ends ((lookup_returns _ hv).attempt.bind hm.zoom) ⟨h, hr, Nat.lt_of_succ_lt hlt⟩ ⟨fun h => h, hle⟩
      hanswers

end

end DeterministicImpl

/-! ## The local stack

What a value of the local stack stands for is what is the same in all states. -/

theorem ExecutorValue.Same.trans {s t u : InlineState} {v v' v'' : ExecutorValue} (h : v.Same s t v')
    (h' : v'.Same t u v'') : v.Same s u v'' := by
  have hlengths {scope scope' : Scope} (hnames : scope.map Prod.fst = scope'.map Prod.fst) :
      scope.length = scope'.length := by
    simpa using congrArg List.length hnames
  induction h generalizing v'' with
  | embedded hr hr' =>
      cases h' with
      | embedded hq hq' =>
          obtain rfl := Option.some.inj (hr'.symm.trans hq)
          exact .embedded hr hq'
  -- the elements in the middle are found at the same positions
  | struct hlength _ ih =>
      cases h' with
      | struct hlength' h' =>
          refine .struct (hlength.trans hlength') fun p hp => ?_
          obtain ⟨b, hab, hbc⟩ := exists_mem_zip_zip hlength hp
          exact ih _ hab (h' _ hbc)
  | lambda hnames _ ih =>
      cases h' with
      | lambda hnames' h' =>
          refine .lambda (hnames.trans hnames') fun p hp => ?_
          obtain ⟨b, hab, hbc⟩ := exists_mem_zip_zip (hlengths hnames) hp
          exact ih _ hab (h' _ hbc)
  | intrinsic hnames _ ih =>
      cases h' with
      | intrinsic hnames' h' =>
          refine .intrinsic (hnames.trans hnames') fun p hp => ?_
          obtain ⟨b, hab, hbc⟩ := exists_mem_zip_zip (hlengths hnames) hp
          exact ih _ hab (h' _ hbc)

/-- A value of the local stack, in a state that has it. -/
structure LiveValue where
  state : InlineState
  value : ExecutorValue
  alive : value.Alive state

instance LiveValue.setoid : Setoid LiveValue where
  r x y := x.value.Same x.state y.state y.value
  iseqv := ⟨fun x => .refl x.alive, ExecutorValue.Same.symm, ExecutorValue.Same.trans⟩

/-- A value of the local stack, wherever it is. -/
abbrev LocalValue : Type := Quotient LiveValue.setoid

namespace LocalValue

/-- In `s`, `v` is the value `q`. -/
def Is (s : InlineState) (v : ExecutorValue) (q : LocalValue) : Prop := ∃ h : v.Alive s, q = ⟦⟨s, v, h⟩⟧

variable {s s' t : InlineState} {v v' : ExecutorValue} {q : LocalValue}

theorem is_mono (hle : s ≤ s') (h : Is s v q) : Is s' v q := by
  obtain ⟨halive, rfl⟩ := h
  exact ⟨halive.of_le hle, Quotient.sound ((ExecutorValue.Same.refl halive).mono (le_refl s) hle)⟩

theorem same_of_is (h : Is s v q) (h' : Is t v' q) : v.Same s t v' := by
  obtain ⟨halive, rfl⟩ := h
  obtain ⟨halive', heq⟩ := h'
  exact Quotient.exact heq

theorem same_all {vs vs' : List ExecutorValue} {qs : List LocalValue} (h : List.Forall₂ (Is s) vs qs)
    (h' : List.Forall₂ (Is t) vs' qs) : List.Forall₂ (ExecutorValue.Same s t) vs vs' := by
  induction h generalizing vs' with
  | nil =>
      cases h'
      exact .nil
  | cons hv _ ih =>
      cases h' with
      | cons hv' h' => exact .cons (same_of_is hv hv') (ih h')

/-! ### What pure runs compute -/

variable {x y : Exec InlineState ExecutorValue} {r r' : Option (StatusOr LocalValue)}

/-- A run computes something, be it that it does not end. -/
theorem exists_computes (h : Run.Yields Crash.Any s x fun v s => v.Alive s) : ∃ r, Computes Is x s r := by
  rcases hx : (x s).2 with v | e | k | _
  · have hreturns := Run.Returns.of_eq hx
    obtain ⟨hle, halive⟩ := h.of_returns (le_refl s) hreturns
    exact ⟨_, .returns hreturns hle ⟨halive, rfl⟩⟩
  · have hfails := Run.Fails.of_eq hx
    exact ⟨_, .fails hfails (h.of_fails (le_refl s) hfails)⟩
  · exact ⟨_, .stalls (.inl ⟨k, hx⟩)⟩
  · exact ⟨_, .stalls (.inr hx)⟩

theorem of_returns (hx : Run.Returns x s v s') (h : Computes Is x s r) :
    ∃ q, r = some (.ok q) ∧ Is s' v q := by
  cases h with
  | returns hreturns _ hq =>
      obtain ⟨rfl, rfl⟩ := hreturns.unique hx
      exact ⟨_, rfl, hq⟩
  | fails hfails _ => exact (hx.not_fails hfails).elim
  | stalls hstalls => exact (hstalls.not_returns hx).elim

theorem of_fails {e : Status} (hx : Run.Fails x s e s') (h : Computes Is x s r) : r = some (.error e) := by
  cases h with
  | returns hreturns _ _ => exact (hreturns.not_fails hx).elim
  | fails hfails _ => rw [(hfails.unique hx).1]
  | stalls hstalls => exact (hstalls.not_fails hx).elim

theorem of_stalls (hx : Run.Stalls x s) (h : Computes Is x s r) : r = none := by
  cases h with
  | returns hreturns _ _ => exact (hx.not_returns hreturns).elim
  | fails hfails _ => exact (hx.not_fails hfails).elim
  | stalls _ => rfl

/-- Pure runs compute the same. -/
theorem computes_unique (h : Purity.Simulates (s, t) Purity.Same x y) (hx : Computes Is x s r)
    (hy : Computes Is y t r') : r = r' := by
  obtain ⟨w, -, hend⟩ := h (s, t) (le_refl _) s t rfl
  generalize hxs : (x s).2 = o, hyt : (y t).2 = o' at hend
  cases hend with
  | @ok v v' s' t' hw hsame =>
      obtain ⟨q, rfl, halive, rfl⟩ := of_returns (.of_eq hxs) hx
      obtain ⟨q', rfl, halive', rfl⟩ := of_returns (.of_eq hyt) hy
      subst hw
      exact congrArg (some ∘ Except.ok) (Quotient.sound hsame)
  | error _ he => rw [of_fails (.of_eq hxs) hx, of_fails (.of_eq hyt) hy, he]
  | @crash k => rw [of_stalls (.inl ⟨k, hxs⟩) hx, of_stalls (.inl ⟨k, hyt⟩) hy]
  | outOfFuel => rw [of_stalls (.inr hxs) hx, of_stalls (.inr hyt) hy]

open Classical in
/-- What a pure run on some values computes, in whichever state they are. -/
noncomputable def lift (x : List ExecutorValue → Exec InlineState ExecutorValue) (qs : List LocalValue) :
    Option (StatusOr LocalValue) :=
  if h : ∃ r s vs, List.Forall₂ (Is s) vs qs ∧ Computes Is (x vs) s r then h.choose else none

theorem lift_computes (x : List ExecutorValue → Exec InlineState ExecutorValue) {vs : List ExecutorValue}
    {qs : List LocalValue}
    (hpure : ∀ {s t vs vs'}, List.Forall₂ (ExecutorValue.Same s t) vs vs' →
      Purity.Simulates (s, t) Purity.Same (x vs) (x vs'))
    (hyields : Run.Yields Crash.Any s (x vs) fun v s => v.Alive s) (hvs : List.Forall₂ (Is s) vs qs) :
    Computes Is (x vs) s (lift x qs) := by
  obtain ⟨r, hr⟩ := exists_computes hyields
  have hexists : ∃ r s vs, List.Forall₂ (Is s) vs qs ∧ Computes Is (x vs) s r := ⟨r, s, vs, hvs, hr⟩
  obtain ⟨t, vs', hvs', hr'⟩ := hexists.choose_spec
  rw [lift, dif_pos hexists, computes_unique (hpure (same_all hvs' hvs)) hr' hr]
  exact hr

/-- What is materialized of a value. -/
def materialize (q : LocalValue) : StatusOr Value :=
  Quotient.lift (fun x : LiveValue => (x.value.contents x.state).getD (.error unembeddable))
    (fun _ _ h => congrArg (Option.getD · _) (ExecutorValue.Same.contents h)) q

end LocalValue

section

variable [ProtoText] (handlers : IntrinsicHandlerSet) (fuel : Nat)

namespace ControlFlowExecutor

/-! ### Calls and selections -/

/-- `CreateCall` on the values of its operands. -/
def callOn : List ExecutorValue → Exec InlineState ExecutorValue
  | [function] => (localExecutor handlers).constCreateCall fuel function none
  | [function, argument] => (localExecutor handlers).constCreateCall fuel function (some argument)
  | _ => Run.outOfFuel

theorem callOn_pure {s t : InlineState} {vs vs' : List ExecutorValue}
    (h : List.Forall₂ (ExecutorValue.Same s t) vs vs') :
    Purity.Simulates (s, t) Purity.Same (callOn handlers fuel vs) (callOn handlers fuel vs') := by
  have hpure := knot_pure handlers fuel
  cases h with
  | nil => exact Purity.relator.outOfFuel
  | cons hf h =>
      cases h with
      | nil => exact hpure.createCall hf .none
      | cons ha h =>
          cases h with
          | nil => exact hpure.createCall hf (.some ha)
          | cons _ _ => exact Purity.relator.outOfFuel

theorem callOn_yields {s : InlineState} {vs : List ExecutorValue} (h : ∀ v ∈ vs, ExecutorValue.Alive s v) :
    Run.Yields Crash.Any s (callOn handlers fuel vs) fun v s => v.Alive s := by
  have hyields := impl_yields handlers fuel
  match vs, h with
  | [], _ => exact .outOfFuel
  | [f], h => exact hyields.createCall (h f List.mem_cons_self) fun _ ha => absurd ha (Option.not_mem_none _)
  | [f, a], h =>
      refine hyields.createCall (h f List.mem_cons_self) fun v hv => ?_
      obtain rfl := Option.some.inj hv
      exact h a (List.mem_cons_of_mem _ List.mem_cons_self)
  | _ :: _ :: _ :: _, _ => exact .outOfFuel

/-- `CreateSelection` on the value of its operand. -/
def selectionOn (index : UInt32) : List ExecutorValue → Exec InlineState ExecutorValue
  | [source] => (localExecutor handlers).createSelectionInternal source index
  | _ => Run.outOfFuel

theorem selectionOn_pure (index : UInt32) {s t : InlineState} {vs vs' : List ExecutorValue}
    (h : List.Forall₂ (ExecutorValue.Same s t) vs vs') :
    Purity.Simulates (s, t) Purity.Same (selectionOn handlers index vs) (selectionOn handlers index vs') := by
  cases h with
  | nil => exact Purity.relator.outOfFuel
  | cons hv h =>
      cases h with
      | nil => exact createSelectionInternal_pure handlers hv index
      | cons _ _ => exact Purity.relator.outOfFuel

/-- **The local stack is deterministic.** Whether an operation ends is decided as all else is. -/
noncomputable def localDeterministic : DeterministicImpl ((localExecutor handlers).impl fuel) LocalValue where
  Is := LocalValue.Is
  is_mono := LocalValue.is_mono
  createValue val := LocalValue.lift
    (fun _ => (localExecutor handlers).constCreateExecutorValue ((localExecutor handlers).knot fuel) val) []
  createCall f a := LocalValue.lift (callOn handlers fuel) (f :: a.toList)
  createStruct := LocalValue.lift fun vs => pure (.struct vs)
  createSelection v index := LocalValue.lift (selectionOn handlers index) [v]
  materialize := LocalValue.materialize
  createValue_computes val s := LocalValue.lift_computes (fun _ => _)
    (fun _ => constCreateExecutorValue_pure handlers (knot_pure handlers fuel) val)
    ((impl_yields handlers fuel).createExecutorValue val s) .nil
  createCall_computes {s f q a b} hf ha := by
    have hcall : (localExecutor handlers).constCreateCall fuel f a = callOn handlers fuel (f :: a.toList) := by
      cases a <;> rfl
    have hargs : List.Forall₂ (LocalValue.Is s) a.toList b.toList := by
      cases ha with
      | none => exact .nil
      | some ha => exact .cons ha .nil
    have halive : ∀ v ∈ f :: a.toList, ExecutorValue.Alive s v := fun v hv =>
      let ⟨_, _, h, _⟩ := exists_of_mem_left (List.Forall₂.cons hf hargs) hv
      h
    show Computes _ ((localExecutor handlers).constCreateCall fuel f a) s _
    rw [hcall]
    exact LocalValue.lift_computes _ (callOn_pure handlers fuel) (callOn_yields handlers fuel halive)
      (.cons hf hargs)
  createStruct_computes {s vs qs} hvs := by
    refine LocalValue.lift_computes _ (fun h => ?_) ?_ hvs
    · exact Purity.relator.pure fun _ hw => .struct' (h.imp fun _ _ h => h.mono hw.1 hw.2)
    · refine (impl_yields handlers fuel).createStruct fun v hv => ?_
      obtain ⟨_, _, h, _⟩ := exists_of_mem_left hvs hv
      exact h
  createSelection_computes {s v q} index hv := by
    refine LocalValue.lift_computes (selectionOn handlers index) (selectionOn_pure handlers index) ?_
      (.cons hv .nil)
    exact (impl_yields handlers fuel).createSelection index hv.1
  materialize_answers {s v q} output hv := by
    obtain ⟨halive, rfl⟩ := hv
    obtain ⟨m, s', hs', hreturns, hm⟩ := constMaterialize_spec handlers halive (some output)
    refine ⟨m, s', hreturns, hs', ?_⟩
    show Answers m ((v.contents s).getD (.error unembeddable))
    rcases hr : v.contents s with _ | r <;> simp only [hr] at hm <;> subst hm
    · exact .error _ _
    · cases r with
      | ok val => exact .ok val
      | error e => exact .error e _

end ControlFlowExecutor

end

end GenC
