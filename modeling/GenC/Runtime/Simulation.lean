import GenC.Runtime.Executor

/-!
# Simulation between executor implementations

Two implementations of `ExecutorBase`'s virtual methods may work on different values: futures and what
they end with, or remote references and what they refer to. A `Correspondence` says which values stand
for which, and `Correspondence.Simulates` that each method takes corresponding values to corresponding
values, or fails alike, or does not end on either side.

**`Simulates.perform_agree`**: then the two executors answer every call alike.
-/

namespace GenC

open Lib

/-! ## Related tables -/

/-- Two tables with the same ids, which stand for values related by `R`. -/
structure HandleTable.Related {V W : Type} (R : V → W → Prop) (s : HandleTable V)
    (t : HandleTable W) : Prop where
  next : s.nextValueId = t.nextValueId
  tracked : ∀ id, Option.Rel R (s.trackedValues id) (t.trackedValues id)

namespace HandleTable.Related

variable {V W : Type} {R R' : V → W → Prop} {s : HandleTable V} {t : HandleTable W}

theorem empty : (HandleTable.empty : HandleTable V).Related R HandleTable.empty :=
  ⟨rfl, fun _ => .none⟩

theorem mono (h : s.Related R t) (hR : ∀ v w, R v w → R' v w) : s.Related R' t where
  next := h.next
  tracked id := by
    have hid := h.tracked id
    generalize s.trackedValues id = x at hid
    generalize t.trackedValues id = y at hid
    cases hid with
    | some hvw => exact .some (hR _ _ hvw)
    | none => exact .none

theorem trackValue (h : s.Related R t) {v : V} {w : W} (hvw : R v w) :
    (s.trackValue v).2.Related R (t.trackValue w).2 where
  next := congrArg (· + 1) h.next
  tracked id := by
    by_cases hid : id = s.nextValueId
    · have hs : (s.trackValue v).2.trackedValues id = some v :=
        hid ▸ trackedValues_trackValue_self v s
      have ht : (t.trackValue w).2.trackedValues id = some w :=
        (hid.trans h.next) ▸ trackedValues_trackValue_self w t
      rw [hs, ht]
      exact .some hvw
    · rw [trackedValues_trackValue_of_ne hid, trackedValues_trackValue_of_ne (h.next ▸ hid)]
      exact h.tracked id

theorem erase (h : s.Related R t) (id : ValueId) : (s.erase id).Related R (t.erase id) where
  next := h.next
  tracked id' := by
    by_cases hid : id' = id
    · rw [hid, trackedValues_erase_self, trackedValues_erase_self]
      exact .none
    · rw [trackedValues_erase_of_ne hid, trackedValues_erase_of_ne hid]
      exact h.tracked id'

/-- An id is in both tables or in neither. -/
theorem cases (h : s.Related R t) (id : ValueId) :
    (s.trackedValues id = none ∧ t.trackedValues id = none) ∨
      ∃ v w, s.trackedValues id = some v ∧ t.trackedValues id = some w ∧ R v w := by
  have hid := h.tracked id
  revert hid
  cases s.trackedValues id <;> cases t.trackedValues id <;> rintro (hvw | _)
  · exact .inl ⟨rfl, rfl⟩
  · exact .inr ⟨_, _, rfl, rfl, hvw⟩

end HandleTable.Related

/-! ## Implementations that always end -/

structure ExecutorImpl.Ends {σ V : Type} (impl : ExecutorImpl σ V) : Prop where
  createValue : ∀ val, Run.Ends (impl.createExecutorValue val)
  createCall : ∀ function argument, Run.Ends (impl.createCall function argument)
  createStruct : ∀ members, Run.Ends (impl.createStruct members)
  createSelection : ∀ source index, Run.Ends (impl.createSelection source index)
  materialize : ∀ v output, Run.Ends (impl.materialize v output)

namespace ExecutorImpl.Ends

open ExecutorBase

variable {σ V : Type} {impl : ExecutorImpl σ V}

theorem getTracked_ends (name : String) (id : ValueId) :
    Run.Ends (getTracked name id : Exec (BaseState (HandleTable V) σ) V) := .step _

theorem getTrackedArgument_ends (name : String) (argument : Option ValueId) :
    Run.Ends (getTrackedArgument name argument : Exec (BaseState (HandleTable V) σ) (Option V)) := by
  cases argument with
  | none => exact .pure _
  | some argument => exact .bind (getTracked_ends name argument) fun _ => .pure _

theorem getAllTracked_ends (name : String) (members : List ValueId) :
    Run.Ends (getAllTracked name members : Exec (BaseState (HandleTable V) σ) (List V)) := by
  induction members with
  | nil => exact .pure _
  | cons member _ ih => exact .bind (getTracked_ends name member) fun _ => .bind ih fun _ => .pure _

theorem trackValue_ends {x : Exec σ V} (hx : Run.Ends x) :
    Run.Ends (onImpl x >>= trackValue : Exec (BaseState (HandleTable V) σ) ValueId) :=
  .bind hx.zoom fun _ => .step _

variable (h : impl.Ends)

include h

theorem createValue_ends (val : Value) :
    Run.Ends ((executorBase impl : Executor ValueId (BaseState (HandleTable V) σ)).createValue val) :=
  trackValue_ends (h.createValue val)

theorem createCall_ends (function : ValueId) (argument : Option ValueId) : Run.Ends
    ((executorBase impl : Executor ValueId (BaseState (HandleTable V) σ)).createCall function argument) :=
  .bind (getTracked_ends _ function) fun f =>
    .bind (getTrackedArgument_ends _ argument) fun a => trackValue_ends (h.createCall f a)

theorem createStruct_ends (members : List ValueId) :
    Run.Ends ((executorBase impl : Executor ValueId (BaseState (HandleTable V) σ)).createStruct members) :=
  .bind (getAllTracked_ends _ members) fun vs => trackValue_ends (h.createStruct vs)

theorem createSelection_ends (source : ValueId) (index : UInt32) : Run.Ends
    ((executorBase impl : Executor ValueId (BaseState (HandleTable V) σ)).createSelection source index) :=
  .bind (getTracked_ends _ source) fun v => trackValue_ends (h.createSelection v index)

theorem materialize_ends (id : ValueId) (output : Option Value) : Run.Ends
    ((executorBase impl : Executor ValueId (BaseState (HandleTable V) σ)).materialize id output) := by
  refine .bind (getTracked_ends _ id).attempt fun r => ?_
  cases r with
  | ok v => exact (h.materialize v output).zoom
  | error e => exact .pure _

omit h in
theorem dispose_ends (id : ValueId) :
    Run.Ends ((executorBase impl : Executor ValueId (BaseState (HandleTable V) σ)).dispose id) := .step _

/-- Then the executor answers every call. -/
theorem perform (call : Executor.ApiCall ValueId) :
    Run.Ends ((executorBase impl : Executor ValueId (BaseState (HandleTable V) σ)).perform call) := by
  cases call with
  | createValue val => exact .bind (h.createValue_ends val).attempt fun _ => .pure _
  | createCall function argument =>
      exact .bind (h.createCall_ends function argument).attempt fun _ => .pure _
  | createStruct members => exact .bind (h.createStruct_ends members).attempt fun _ => .pure _
  | createSelection source index =>
      exact .bind (h.createSelection_ends source index).attempt fun _ => .pure _
  | materialize id output => exact .bind (h.materialize_ends id output).attempt fun _ => .pure _
  | dispose id => exact .bind (dispose_ends id).attempt fun _ => .pure _

end ExecutorImpl.Ends

/-! ## Correspondences -/

/-- What the values of one implementation have to do with those of another. A world says what is known
of them so far; it grows as values are created. -/
structure Correspondence (σ V τ W : Type) where
  World : Type
  Le : World → World → Prop
  /-- What the states satisfy, with `n` calls to come. -/
  Inv : Nat → World → σ → τ → Prop
  Rel : World → V → W → Prop
  /-- Materializing the value does not block. -/
  Ready : V → σ → Prop
  /-- The outputs that a client may pass. -/
  Output : Option Value → Prop
  /-- How the results of a materialization compare. -/
  Same : MaterializeResult → MaterializeResult → Prop
  /-- Whether nothing is asked of the first side where the second does not end. -/
  lax : Prop
  inv_succ : ∀ {n w s t}, Inv (n + 1) w s t → Inv n w s t
  rel_mono : ∀ {w w' v r}, Le w w' → Rel w v r → Rel w' v r
  same_refl : ∀ m, Same m m

namespace Correspondence

variable {σ V τ W : Type} (c : Correspondence σ V τ W)

/-- Corresponding values have been created. -/
def Created (n : Nat) (w : c.World) (v : V) (r : W) (s : σ) (t : τ) : Prop :=
  ∃ w', c.Le w w' ∧ c.Inv n w' s t ∧ c.Rel w' v r

/-- Each method of `impl` does to its values what that of `ref` does to the corresponding ones. -/
structure Simulates (impl : ExecutorImpl σ V) (ref : ExecutorImpl τ W) : Prop where
  name : impl.executorName = ref.executorName
  createValue : ∀ {n w} (val : Value), Run.Agree c.lax (c.Inv (n + 1) w) (impl.createExecutorValue val)
    (ref.createExecutorValue val) (c.Created n w) (c.Inv n w)
  createCall : ∀ {n w f f' a a'}, c.Rel w f f' → Option.Rel (c.Rel w) a a' →
    Run.Agree c.lax (c.Inv (n + 1) w) (impl.createCall f a) (ref.createCall f' a') (c.Created n w)
      (c.Inv n w)
  createStruct : ∀ {n w vs rs}, List.Forall₂ (c.Rel w) vs rs →
    Run.Agree c.lax (c.Inv (n + 1) w) (impl.createStruct vs) (ref.createStruct rs) (c.Created n w)
      (c.Inv n w)
  createSelection : ∀ {n w v r} (index : UInt32), c.Rel w v r →
    Run.Agree c.lax (c.Inv (n + 1) w) (impl.createSelection v index) (ref.createSelection r index)
      (c.Created n w) (c.Inv n w)
  materialize : ∀ {n w v r valPb}, c.Rel w v r → c.Output valPb →
    Run.Agree c.lax (fun s t => c.Inv (n + 1) w s t ∧ c.Ready v s) (impl.materialize v valPb)
      (ref.materialize r valPb) (fun m m' s t => c.Same m m' ∧ ∃ w', c.Le w w' ∧ c.Inv n w' s t)
      (fun _ _ => False)

/-- Corresponding states of two executors. -/
def Linked (n : Nat) (w : c.World) (s : BaseState (HandleTable V) σ)
    (t : BaseState (HandleTable W) τ) : Prop :=
  c.Inv n w s.impl t.impl ∧ s.table.Related (c.Rel w) t.table

variable {c} {n : Nat} {w w' : c.World} {s : BaseState (HandleTable V) σ}
  {t : BaseState (HandleTable W) τ}

theorem Linked.succ (h : c.Linked (n + 1) w s t) : c.Linked n w s t := ⟨c.inv_succ h.1, h.2⟩

/-- Ids keep their meaning in a larger world. -/
theorem Linked.world (h : s.table.Related (c.Rel w) t.table) (hle : c.Le w w')
    (hinv : c.Inv n w' s.impl t.impl) : c.Linked n w' s t :=
  ⟨hinv, h.mono fun _ _ => c.rel_mono hle⟩

end Correspondence

/-! ## Call by call -/

namespace ExecutorBase

variable {σ V τ W : Type}

section Lookups

variable (lax : Prop) {R : V → W → Prop}
  {P : BaseState (HandleTable V) σ → BaseState (HandleTable W) τ → Prop}

theorem getTracked_agree (hP : ∀ s t, P s t → s.table.Related R t.table) (name : String)
    (id : ValueId) :
    Run.Agree lax P (getTracked name id) (getTracked name id) (fun v r s t => P s t ∧ R v r) P := by
  intro s t hst
  rcases (hP s t hst).cases id with ⟨hs, ht⟩ | ⟨v, r, hs, ht, hvr⟩
  · exact .inr (.inl ⟨_, s, t, getTracked_fails name hs, getTracked_fails name ht, hst⟩)
  · exact .inl ⟨v, r, s, t, getTracked_returns hs, getTracked_returns ht, hst, hvr⟩

theorem getTrackedArgument_agree (hP : ∀ s t, P s t → s.table.Related R t.table) (name : String)
    (argument : Option ValueId) :
    Run.Agree lax P (getTrackedArgument name argument) (getTrackedArgument name argument)
      (fun v r s t => P s t ∧ Option.Rel R v r) P := by
  cases argument with
  | none => exact .pure fun s t hst => ⟨hst, .none⟩
  | some argument =>
      exact (getTracked_agree lax hP name argument).bind fun _ _ =>
        .pure fun s t hst => ⟨hst.1, .some hst.2⟩

theorem getAllTracked_agree (hP : ∀ s t, P s t → s.table.Related R t.table) (name : String)
    (members : List ValueId) :
    Run.Agree lax P (getAllTracked name members) (getAllTracked name members)
      (fun vs rs s t => P s t ∧ List.Forall₂ R vs rs) P := by
  induction members generalizing P with
  | nil => exact .pure fun s t hst => ⟨hst, .nil⟩
  | cons member members ih =>
      refine (getTracked_agree lax hP name member).bind fun v r => ?_
      have hmembers := ih (P := fun s t => P s t ∧ R v r) fun s t h => hP s t h.1
      refine (hmembers.conseq (fun _ _ h => h) (fun _ _ _ _ h => h) fun _ _ h => h.1).bind
        fun vs rs => ?_
      exact .pure fun s t h => ⟨h.1.1, .cons h.1.2 h.2⟩

end Lookups

end ExecutorBase

namespace Executor

/-- Two responses that are the same, but for what a client may not look at. -/
inductive Response.Same {Id : Type} (same : MaterializeResult → MaterializeResult → Prop) :
    Response Id → Response Id → Prop where
  | created (r : StatusOr Id) : Same same (.created r) (.created r)
  | materialized {r r'} : same r r' → Same same (.materialized (.ok r)) (.materialized (.ok r'))
  | failed (e : Status) : Same same (.materialized (.error e)) (.materialized (.error e))
  | disposed (r : StatusOr Unit) : Same same (.disposed r) (.disposed r)

end Executor

namespace Correspondence

open ExecutorBase Executor

variable {σ V τ W : Type} {c : Correspondence σ V τ W}

/-- The call has an output that it may have. -/
def Permits (c : Correspondence σ V τ W) : ApiCall ValueId → Prop
  | .materialize _ valPb => c.Output valPb
  | _ => True

/-- The call does not block. -/
def Unblocked (c : Correspondence σ V τ W) (call : ApiCall ValueId)
    (s : BaseState (HandleTable V) σ) : Prop :=
  match call with
  | .materialize id _ => ∀ v, s.table.trackedValues id = some v → c.Ready v s.impl
  | _ => True

/-! ### Values that are tracked -/

variable {n : Nat} {w : c.World}

/-- A value is created on both sides, and gets the same id. -/
theorem trackValue_agree {x : Exec σ V} {y : Exec τ W}
    (h : Run.Agree c.lax (c.Inv (n + 1) w) x y (c.Created n w) (c.Inv n w)) :
    Run.Agree c.lax (c.Linked (n + 1) w) (onImpl x >>= trackValue) (onImpl y >>= trackValue)
      (fun id id' s t => id = id' ∧ ∃ w, c.Linked n w s t) (c.Linked n w) := by
  rintro ⟨table, impl⟩ ⟨table', impl'⟩ ⟨hinv, htable⟩
  rcases h impl impl' hinv with ⟨v, r, s, t, hx, hy, w', hle, hinv', hrel⟩ | ⟨e, s, t, hx, hy, hinv'⟩ |
    ⟨hy, hx⟩
  · have hx' : Run.Returns (onImpl x) (⟨table, impl⟩ : BaseState (HandleTable V) σ) v ⟨table, s⟩ :=
      hx.zoom
    have hy' : Run.Returns (onImpl y) (⟨table', impl'⟩ : BaseState (HandleTable W) τ) r ⟨table', t⟩ :=
      hy.zoom
    -- the tables hand out the same numbers, and the world of the new value extends that of the old ones
    have htable' : table.Related (c.Rel w') table' := htable.mono fun _ _ => c.rel_mono hle
    exact .inl ⟨_, _, _, _, hx'.bind (trackValue_returns _ _), hy'.bind (trackValue_returns _ _),
      htable.next, w', hinv', htable'.trackValue hrel⟩
  · have hx' : Run.Fails (onImpl x) (⟨table, impl⟩ : BaseState (HandleTable V) σ) e ⟨table, s⟩ :=
      .zoom hx
    have hy' : Run.Fails (onImpl y) (⟨table', impl'⟩ : BaseState (HandleTable W) τ) e ⟨table', t⟩ :=
      .zoom hy
    exact .inr (.inl ⟨e, _, _, hx'.bind_left, hy'.bind_left, hinv', htable⟩)
  · have hx' (h : Run.Stalls x impl) :
        Run.Stalls (onImpl x) (⟨table, impl⟩ : BaseState (HandleTable V) σ) := h.zoom
    have hy' : Run.Stalls (onImpl y) (⟨table', impl'⟩ : BaseState (HandleTable W) τ) := hy.zoom
    exact .inr (.inr ⟨hy'.bind_left _, hx.imp_right fun h => (hx' h).bind_left _⟩)

/-- What two runs respond, once their errors are values. -/
theorem respond_agree {α : Type} {P : BaseState (HandleTable V) σ → BaseState (HandleTable W) τ → Prop}
    {x : Exec (BaseState (HandleTable V) σ) α} {y : Exec (BaseState (HandleTable W) τ) α}
    {f : StatusOr α → Response ValueId} (hf : ∀ r, Response.Same c.Same (f r) (f r))
    (h : Run.Agree c.lax P x y (fun a b s t => a = b ∧ ∃ w, c.Linked n w s t) (c.Linked n w)) :
    Run.Agree c.lax P (do return f (← x.attempt)) (do return f (← y.attempt))
      (fun r r' s t => Response.Same c.Same r r' ∧ ∃ w, c.Linked n w s t) fun _ _ => False := by
  refine h.attempt.bind fun r r' => .pure fun s t hrr => ?_
  cases r <;> cases r'
  · obtain ⟨rfl, hlinked⟩ := hrr
    exact ⟨hf _, w, hlinked⟩
  · exact hrr.elim
  · exact hrr.elim
  · obtain ⟨rfl, hlinked⟩ := hrr
    exact ⟨hf _, hlinked⟩

namespace Simulates

variable {impl : ExecutorImpl σ V} {ref : ExecutorImpl τ W} (h : c.Simulates impl ref)

include h

theorem createCall_agree (function : ValueId) (argument : Option ValueId) :
    Run.Agree c.lax (c.Linked (n + 1) w) ((executorBase impl).createCall function argument)
      ((executorBase ref).createCall function argument)
      (fun id id' s t => id = id' ∧ ∃ w, c.Linked n w s t) (c.Linked n w) := by
  show Run.Agree _ _ (ExecutorBase.createCall impl function argument)
    (ExecutorBase.createCall ref function argument) _ _
  rw [ExecutorBase.createCall, ExecutorBase.createCall, ← h.name]
  have hfunction := getTracked_agree c.lax (P := c.Linked (n + 1) w) (fun _ _ h => h.2)
    impl.executorName function
  refine (hfunction.conseq (fun _ _ h => h) (fun _ _ _ _ h => h) fun _ _ h => h.succ).bind
    fun f f' => Run.Agree.of_fact fun hf => ?_
  have hargument := getTrackedArgument_agree c.lax (P := c.Linked (n + 1) w) (fun _ _ h => h.2)
    impl.executorName argument
  refine (hargument.conseq (fun _ _ h => h) (fun _ _ _ _ h => h) fun _ _ h => h.succ).bind
    fun a a' => Run.Agree.of_fact fun ha => ?_
  exact trackValue_agree (h.createCall hf ha)

theorem createStruct_agree (members : List ValueId) :
    Run.Agree c.lax (c.Linked (n + 1) w) ((executorBase impl).createStruct members)
      ((executorBase ref).createStruct members)
      (fun id id' s t => id = id' ∧ ∃ w, c.Linked n w s t) (c.Linked n w) := by
  show Run.Agree _ _ (ExecutorBase.createStruct impl members)
    (ExecutorBase.createStruct ref members) _ _
  rw [ExecutorBase.createStruct, ExecutorBase.createStruct, ← h.name]
  have hmembers := getAllTracked_agree c.lax (P := c.Linked (n + 1) w) (fun _ _ h => h.2)
    impl.executorName members
  refine (hmembers.conseq (fun _ _ h => h) (fun _ _ _ _ h => h) fun _ _ h => h.succ).bind
    fun vs rs => Run.Agree.of_fact fun hvs => ?_
  exact trackValue_agree (h.createStruct hvs)

theorem createSelection_agree (source : ValueId) (index : UInt32) :
    Run.Agree c.lax (c.Linked (n + 1) w) ((executorBase impl).createSelection source index)
      ((executorBase ref).createSelection source index)
      (fun id id' s t => id = id' ∧ ∃ w, c.Linked n w s t) (c.Linked n w) := by
  show Run.Agree _ _ (ExecutorBase.createSelection impl source index)
    (ExecutorBase.createSelection ref source index) _ _
  rw [ExecutorBase.createSelection, ExecutorBase.createSelection, ← h.name]
  have hsource := getTracked_agree c.lax (P := c.Linked (n + 1) w) (fun _ _ h => h.2)
    impl.executorName source
  refine (hsource.conseq (fun _ _ h => h) (fun _ _ _ _ h => h) fun _ _ h => h.succ).bind
    fun v r => Run.Agree.of_fact fun hv => ?_
  exact trackValue_agree (h.createSelection index hv)

theorem materialize_agree (id : ValueId) {valPb : Option Value} (hpermits : c.Output valPb) :
    Run.Agree c.lax (fun s t => c.Linked (n + 1) w s t ∧ c.Unblocked (.materialize id valPb) s)
      ((executorBase impl).materialize id valPb) ((executorBase ref).materialize id valPb)
      (fun m m' s t => c.Same m m' ∧ ∃ w, c.Linked n w s t) (fun _ _ => False) := by
  show Run.Agree _ _ (ExecutorBase.materialize impl id valPb)
    (ExecutorBase.materialize ref id valPb) _ _
  rw [ExecutorBase.materialize, ExecutorBase.materialize, ← h.name]
  rintro s t ⟨hlinked, hready⟩
  -- the handle is unknown to both tables, or holds related values
  rcases hlinked.2.cases id with ⟨hs, ht⟩ | ⟨v, r, hs, ht, hvr⟩
  · have hs' := (getTracked_fails impl.executorName hs).attempt
    have ht' := (getTracked_fails impl.executorName ht).attempt
    exact .inl ⟨_, _, s, t, hs'.bind (.pure _ _), ht'.bind (.pure _ _), c.same_refl _, w, hlinked.succ⟩
  · have hs' : Run.Returns (getTracked impl.executorName id).attempt s _ s :=
      (getTracked_returns hs).attempt
    have ht' : Run.Returns (getTracked impl.executorName id).attempt t _ t :=
      (getTracked_returns ht).attempt
    rcases h.materialize hvr hpermits s.impl t.impl ⟨hlinked.1, hready v hs⟩ with
      ⟨m, m', s', t', hx, hy, hsame, w', hle, hinv⟩ | ⟨_, _, _, _, _, hfalse⟩ | ⟨hy, hx⟩
    · exact .inl ⟨m, m', _, _, hs'.bind hx.zoom, ht'.bind hy.zoom, hsame, w',
        .world hlinked.2 hle hinv⟩
    · exact hfalse.elim
    · exact .inr (.inr ⟨.bind ht' hy.zoom, hx.imp_right fun h => .bind hs' h.zoom⟩)

theorem dispose_agree (id : ValueId) :
    Run.Agree c.lax (c.Linked (n + 1) w) ((executorBase impl).dispose id) ((executorBase ref).dispose id)
      (fun _ _ => c.Linked n w) (c.Linked n w) := by
  show Run.Agree _ _ (ExecutorBase.dispose impl.executorName id)
    (ExecutorBase.dispose ref.executorName id) _ _
  rw [← h.name]
  intro s t hlinked
  rcases hlinked.2.cases id with ⟨hs, ht⟩ | ⟨v, r, hs, ht, -⟩
  · exact .inr (.inl ⟨_, s, t, dispose_fails impl.executorName hs, dispose_fails impl.executorName ht,
      hlinked.succ⟩)
  · exact .inl ⟨(), (), _, _, dispose_ok impl.executorName hs, dispose_ok impl.executorName ht,
      hlinked.succ.1, hlinked.2.erase id⟩

/-! ### Calls -/

/-- **Call by call.** Corresponding executors give the same response to a call that does not block, and
go on to correspond, or neither gives one. -/
theorem perform_agree (call : ApiCall ValueId) (hpermits : c.Permits call) :
    Run.Agree c.lax (fun s t => c.Linked (n + 1) w s t ∧ c.Unblocked call s)
      ((executorBase impl).perform call) ((executorBase ref).perform call)
      (fun r r' s t => Response.Same c.Same r r' ∧ ∃ w, c.Linked n w s t) fun _ _ => False := by
  cases call with
  | createValue val =>
      have hcreate := trackValue_agree (h.createValue (n := n) (w := w) val)
      exact (respond_agree Response.Same.created hcreate).conseq (fun _ _ h => h.1) (fun _ _ _ _ h => h)
        fun _ _ h => h
  | createCall function argument =>
      exact (respond_agree Response.Same.created (h.createCall_agree function argument)).conseq
        (fun _ _ h => h.1) (fun _ _ _ _ h => h) fun _ _ h => h
  | createStruct members =>
      exact (respond_agree Response.Same.created (h.createStruct_agree members)).conseq
        (fun _ _ h => h.1) (fun _ _ _ _ h => h) fun _ _ h => h
  | createSelection source index =>
      exact (respond_agree Response.Same.created (h.createSelection_agree source index)).conseq
        (fun _ _ h => h.1) (fun _ _ _ _ h => h) fun _ _ h => h
  -- a failed materialization is a response as well
  | materialize id valPb =>
      refine (h.materialize_agree id hpermits).attempt.bind fun r r' => .pure fun s t hrr => ?_
      cases r <;> cases r'
      · exact hrr.2.elim
      · exact hrr.elim
      · exact hrr.elim
      · exact ⟨.materialized hrr.1, hrr.2⟩
  | dispose id =>
      have hdispose : Run.Agree c.lax (c.Linked (n + 1) w) ((executorBase impl).dispose id)
          ((executorBase ref).dispose id) (fun a b s t => a = b ∧ ∃ w, c.Linked n w s t)
          (c.Linked n w) :=
        (h.dispose_agree id).conseq (fun _ _ h => h) (fun _ _ _ _ h => ⟨rfl, w, h⟩) fun _ _ h => h
      exact (respond_agree Response.Same.disposed hdispose).conseq (fun _ _ h => h.1) (fun _ _ _ _ h => h)
        fun _ _ h => h

/-- **Call after call**, when none blocks. -/
theorem performAll_agree (hready : ∀ v s, c.Ready v s) (calls : List (ApiCall ValueId))
    (hpermits : ∀ call ∈ calls, c.Permits call) (w : c.World) :
    Run.Agree c.lax (c.Linked calls.length w) ((executorBase impl).performAll calls)
      ((executorBase ref).performAll calls)
      (fun rs rs' s t => List.Forall₂ (Response.Same c.Same) rs rs' ∧ ∃ w, c.Linked 0 w s t)
      fun _ _ => False := by
  -- on the calls, in a world that grows with every value that is created
  induction calls generalizing w with
  | nil => exact .pure fun s t hlinked => ⟨.nil, w, hlinked⟩
  | cons call calls ih =>
      have hcall := h.perform_agree (n := calls.length) (w := w) call
        (hpermits call (List.mem_cons_self ..))
      refine (hcall.conseq (fun s t hlinked => ⟨hlinked, ?_⟩) (fun _ _ _ _ h => h)
        fun _ _ h => h).bind fun r r' => ?_
      · cases call with
        | materialize id valPb => exact fun v _ => hready v _
        | _ => trivial
      · rintro s t ⟨hsame, w', hlinked⟩
        have hcalls := ih (fun call hcall => hpermits call (List.mem_cons_of_mem _ hcall)) w'
        refine (hcalls.bind (R := fun rs rs' s t =>
          List.Forall₂ (Response.Same c.Same) rs rs' ∧ ∃ w, c.Linked 0 w s t) fun rs rs' => ?_) s t
            hlinked
        exact .pure fun s t hrs => ⟨.cons hsame hrs.1, hrs.2⟩

end Simulates

end Correspondence

end GenC
