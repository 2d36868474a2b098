import GenC.Intrinsics.Parametricity
import GenC.Runtime.LiveHandles

/-!
# The local stack is pure

What an evaluation does depends on what its scope holds, and not on the handles by which it does, nor on
anything else that is in the tables. Two values are the `Same`, each in a state of its own, if they are
built alike over handles with equal contents; evaluating the same IR in scopes that are the same, from any
two states, gives values that are the same, or the same error (`ControlFlowExecutor.knot_pure`).
-/

namespace GenC

open Lib

/-! ## Values that are the same -/

/-- `v` in `s` is what `v'` is in `t`. -/
inductive ExecutorValue.Same (s t : InlineState) : ExecutorValue → ExecutorValue → Prop where
  | embedded {id id' : ValueId} {r : StatusOr Value} (h : s.table.trackedValues id = some r)
      (h' : t.table.trackedValues id' = some r) : Same s t (.embedded id) (.embedded id')
  | struct {vs vs' : List ExecutorValue} (hlength : vs.length = vs'.length)
      (h : ∀ p ∈ vs.zip vs', Same s t p.1 p.2) : Same s t (.struct vs) (.struct vs')
  | lambda {lambdaPb : Lambda} {scope scope' : List (String × ExecutorValue)}
      (hnames : scope.map Prod.fst = scope'.map Prod.fst)
      (h : ∀ p ∈ scope.zip scope', Same s t p.1.2 p.2.2) :
      Same s t (.lambda lambdaPb scope) (.lambda lambdaPb scope')
  | intrinsic {intrinsicPb : Intrinsic} {handler : IntrinsicHandler}
      {scope scope' : List (String × ExecutorValue)} (hnames : scope.map Prod.fst = scope'.map Prod.fst)
      (h : ∀ p ∈ scope.zip scope', Same s t p.1.2 p.2.2) :
      Same s t (.intrinsic intrinsicPb handler scope) (.intrinsic intrinsicPb handler scope')

/-- Scopes with the same names, bound to values that are the same. -/
def Scope.Same (s t : InlineState) : Scope → Scope → Prop :=
  List.Forall₂ fun b b' => b.1 = b'.1 ∧ b.2.Same s t b'.2

/-- The states of two runs. Values of later states are compared there. -/
abbrev Purity.Simulates {α β : Type} (w : InlineState × InlineState)
    (R : InlineState × InlineState → α → β → Prop) (x : Exec InlineState α) (y : Exec InlineState β) :
    Prop :=
  Run.Simulates (fun w s t => w = (s, t)) Eq w R x y

/-- Values that are the same in the two states. -/
abbrev Purity.Same (w : InlineState × InlineState) (v v' : ExecutorValue) : Prop := v.Same w.1 w.2 v'

/-- The relator of pure runs. -/
abbrev Purity.relator : Relator Event Crash Status InlineState InlineState :=
  .simulation Event Crash (W := InlineState × InlineState) (fun w s t => w = (s, t)) Eq fun _ => rfl

variable {s s' t t' : InlineState} {w w' : InlineState × InlineState} {v v' : ExecutorValue}
  {scope scope' : Scope}

theorem Scope.same_iff : scope.Same s t scope' ↔ scope.map Prod.fst = scope'.map Prod.fst ∧
    ∀ p ∈ scope.zip scope', p.1.2.Same s t p.2.2 := by
  unfold Scope.Same
  constructor
  · intro h
    induction h with
    | nil => exact ⟨rfl, List.forall_mem_nil _⟩
    | cons h _ ih =>
        refine ⟨?_, List.forall_mem_cons.mpr ⟨h.2, ih.2⟩⟩
        rw [List.map_cons, List.map_cons, h.1, ih.1]
  · rintro ⟨hnames, h⟩
    induction scope generalizing scope' with
    | nil =>
        obtain rfl := List.map_eq_nil_iff.mp hnames.symm
        exact .nil
    | cons b scope ih =>
        cases scope' with
        | nil => cases hnames
        | cons b' scope' =>
            obtain ⟨hname, hnames⟩ := List.cons.inj hnames
            obtain ⟨hb, h⟩ := List.forall_mem_cons.mp h
            exact .cons ⟨hname, hb⟩ (ih hnames h)

namespace ExecutorValue.Same

theorem lambda' {lambdaPb : Lambda} (h : scope.Same s t scope') :
    Same s t (.lambda lambdaPb scope) (.lambda lambdaPb scope') :=
  .lambda (Scope.same_iff.mp h).1 (Scope.same_iff.mp h).2

theorem intrinsic' {intr : Intrinsic} {handler : IntrinsicHandler} (h : scope.Same s t scope') :
    Same s t (.intrinsic intr handler scope) (.intrinsic intr handler scope') :=
  .intrinsic (Scope.same_iff.mp h).1 (Scope.same_iff.mp h).2

theorem struct' {vs vs' : List ExecutorValue} (h : List.Forall₂ (Same s t) vs vs') :
    Same s t (.struct vs) (.struct vs') := by
  obtain ⟨hlength, h⟩ := List.forall₂_iff_zip.mp h
  exact .struct hlength fun p hp => h hp

theorem mono (hs : s ≤ s') (ht : t ≤ t') (h : v.Same s t v') : v.Same s' t' v' := by
  induction h with
  | embedded h h' => exact .embedded (BaseState.Frame.tracked hs h) (BaseState.Frame.tracked ht h')
  | struct hlength _ ih => exact .struct hlength ih
  | lambda hnames _ ih => exact .lambda hnames ih
  | intrinsic hnames _ ih => exact .intrinsic hnames ih

/-- A value is the same in all states in which it is alive. -/
theorem refl (h : v.Alive s) : v.Same s s v := by
  have hzip : ∀ {α : Type} {l : List α}, ∀ p ∈ l.zip l, p.1 = p.2 ∧ p.1 ∈ l := by
    intro α l p hp
    induction l with
    | nil => cases hp
    | cons a l ih =>
        rcases List.mem_cons.mp hp with rfl | hp
        · exact ⟨rfl, List.mem_cons_self⟩
        · exact ⟨(ih hp).1, List.mem_cons_of_mem a (ih hp).2⟩
  induction h with
  | embedded h => exact .embedded h h
  | struct _ ih => exact .struct rfl fun p hp => (hzip p hp).1 ▸ ih p.1 (hzip p hp).2
  | lambda _ ih => exact .lambda rfl fun p hp => (hzip p hp).1 ▸ ih p.1 (hzip p hp).2
  | intrinsic _ ih => exact .intrinsic rfl fun p hp => (hzip p hp).1 ▸ ih p.1 (hzip p hp).2

theorem symm (h : v.Same s t v') : v'.Same t s v := by
  induction h with
  | embedded h h' => exact .embedded h' h
  | struct hlength _ ih => exact .struct hlength.symm fun p hp => ih p.swap (mem_zip_swap hp)
  | lambda hnames _ ih => exact .lambda hnames.symm fun p hp => ih p.swap (mem_zip_swap hp)
  | intrinsic hnames _ ih => exact .intrinsic hnames.symm fun p hp => ih p.swap (mem_zip_swap hp)

theorem alive (h : v.Same s t v') : v.Alive s := by
  -- scopes with the same names have the same length
  have hlengths : ∀ {scope scope' : Scope}, scope.map Prod.fst = scope'.map Prod.fst →
      scope.length = scope'.length := by
    intro scope scope' hnames
    simpa using congrArg List.length hnames
  induction h with
  | embedded h _ => exact .embedded h
  | struct hlength _ ih =>
      refine .struct fun v hv => ?_
      obtain ⟨v', hv'⟩ := exists_mem_zip hlength.le hv
      exact ih _ hv'
  | lambda hnames _ ih =>
      refine .lambda fun b hb => ?_
      obtain ⟨b', hb'⟩ := exists_mem_zip (hlengths hnames).le hb
      exact ih _ hb'
  | intrinsic hnames _ ih =>
      refine .intrinsic fun b hb => ?_
      obtain ⟨b', hb'⟩ := exists_mem_zip (hlengths hnames).le hb
      exact ih _ hb'

/-- Values that are the same materialize to the same. -/
theorem contents (h : v.Same s t v') : v.contents s = v'.contents t := by
  induction h with
  | embedded h h' =>
      rw [ExecutorValue.contents, ExecutorValue.contents, h, h']
  | @struct vs vs' hlength h ih =>
      rw [ExecutorValue.contents, ExecutorValue.contents]
      refine congrArg (Option.map _) ?_
      have hall : List.Forall₂ (fun v v' => v.contents s = v'.contents t) vs vs' :=
        List.forall₂_iff_zip.mpr ⟨hlength, fun hp => ih _ hp⟩
      clear hlength h ih
      induction hall with
      | nil => rfl
      | cons hv _ ih => rw [contentsAll, contentsAll, hv, ih]
  | lambda => rfl
  | intrinsic => rfl

theorem debugString (h : v.Same s t v') : v.debugString = v'.debugString := by
  cases h <;> rfl

end ExecutorValue.Same

namespace Scope.Same

theorem mono (hs : s ≤ s') (ht : t ≤ t') (h : scope.Same s t scope') : scope.Same s' t' scope' :=
  h.imp fun _ _ h => ⟨h.1, h.2.mono hs ht⟩

theorem refl (h : scope.Alive s) : scope.Same s s scope :=
  List.forall₂_same.mpr fun b hb => ⟨rfl, .refl (h b hb)⟩

theorem cons (h : scope.Same s t scope') (name : String) (hv : v.Same s t v') :
    Scope.Same s t ((name, v) :: scope) ((name, v') :: scope') :=
  List.Forall₂.cons ⟨rfl, hv⟩ h

theorem resolve (h : scope.Same s t scope') (name : String) :
    Except.Related Eq (ExecutorValue.Same s t) (scope.resolve name) (scope'.resolve name) := by
  induction h with
  | nil => rfl
  | @cons b b' _ _ h _ ih =>
      obtain ⟨bound, v⟩ := b
      obtain ⟨bound', v'⟩ := b'
      obtain ⟨rfl, hv⟩ := h
      rw [Scope.resolve, Scope.resolve]
      split
      · exact hv
      · exact ih

theorem debugString (h : scope.Same s t scope') : scope.debugString = scope'.debugString := by
  induction h with
  | nil => rfl
  | @cons b b' _ _ h _ ih =>
      obtain ⟨bound, v⟩ := b
      obtain ⟨bound', v'⟩ := b'
      obtain ⟨rfl, hv⟩ := h
      rw [Scope.debugString, Scope.debugString, ih, hv.debugString]

end Scope.Same

/-! ## The child -/

namespace Purity

variable {α β : Type} {R : InlineState × InlineState → α → β → Prop} {x : Exec InlineState α}
  {y : Exec InlineState β}

/-- Two runs that end alike from any two later states. -/
theorem of_ends (h : ∀ s t, w ≤ (s, t) →
    (∃ a b s' t', Run.Returns x s a s' ∧ Run.Returns y t b t' ∧ (s, t) ≤ (s', t') ∧ R (s', t') a b) ∨
      ∃ e s' t', Run.Fails x s e s' ∧ Run.Fails y t e t' ∧ (s, t) ≤ (s', t')) : Simulates w R x y := by
  rintro w₁ hw s t rfl
  rcases h s t hw with ⟨a, b, s', t', ⟨_, hx⟩, ⟨_, hy⟩, hle, hR⟩ | ⟨e, s', t', ⟨_, hx⟩, ⟨_, hy⟩, hle⟩
  · rw [hx, hy]
    exact ⟨(s', t'), hle, .ok rfl hR⟩
  · rw [hx, hy]
    exact ⟨(s', t'), hle, .error rfl rfl⟩

end Purity

section

variable [ProtoText] (handlers : IntrinsicHandlerSet)

/-- A call in the child depends on what the handles hold. -/
theorem InlineExecutor.createCall_end {f a : ValueId} {rf ra : StatusOr Value}
    (hf : s.table.trackedValues f = some rf) (ha : s.table.trackedValues a = some ra) :
    ((inlineExecutor handlers).createCall f (some a) s).2 =
      match (InlineExecutor.createCall handlers rf (some ra) ()).2 with
      | .ok r _ => .ok s.table.nextValueId (s.track r)
      | .error e _ => .error e s
      | .crash k => .crash k
      | .outOfFuel => .outOfFuel := by
  have hargument : Run.Returns (ExecutorBase.getTrackedArgument "InlineExecutor" (some a)) s (some ra) s :=
    (ExecutorBase.getTracked_returns ha).bind (.pure _ _)
  refine ((ExecutorBase.getTracked_returns hf).bind_end.trans hargument.bind_end).trans ?_
  rw [Run.bind_apply]
  unfold ExecutorBase.onImpl Run.zoom
  rcases hcall : InlineExecutor.createCall handlers rf (some ra) () with ⟨l, r | e | k | _⟩ <;>
    simp only [show (InlineExecutor.impl handlers).createCall rf (some ra) s.impl = _ from hcall]
  rfl

namespace ControlFlowExecutor

/-! ### Calls of the child -/

/-- A value of the executor that calls it, embedded for as long as the call takes. -/
theorem callEmbedded_end {f : ValueId} {a : ExecutorValue} {rf : StatusOr Value}
    (hf : s.table.trackedValues f = some rf) (ha : a.Alive s) : ∃ s', s ≤ s' ∧
      match a.contents s with
      | none => Run.Fails ((localExecutor handlers).callEmbedded f (some a)) s unembeddable s'
      | some ra => match (InlineExecutor.createCall handlers rf (some ra) ()).2 with
        | .ok r _ => ∃ id, s'.table.trackedValues id = some r ∧
            Run.Returns ((localExecutor handlers).callEmbedded f (some a)) s (.embedded id) s'
        | .error e _ => Run.Fails ((localExecutor handlers).callEmbedded f (some a)) s e s'
        | .crash k => ((localExecutor handlers).callEmbedded f (some a) s).2 = .crash k
        | .outOfFuel => ((localExecutor handlers).callEmbedded f (some a) s).2 = .outOfFuel := by
  obtain ⟨s₁, hs₁, ⟨ra, id, slot, hra, hembed, hslot, hid⟩ | ⟨hnone, hembed⟩⟩ := embed_spec handlers a ha
  · have hcall := InlineExecutor.createCall_end handlers (BaseState.Frame.tracked hs₁ hf) hid
    simp only [hra]
    generalize (InlineExecutor.createCall handlers rf (some ra) ()).2 = o at hcall ⊢
    rcases o with r | e | k | _
    · obtain ⟨s₂, hrelease, hnext, hkept⟩ :=
        Executor.releasing_returns (InlineExecutor.impl handlers) slot.toList (Run.Returns.of_eq hcall)
      have hid : s₁.table.nextValueId ∉ slot.toList := fun hmem =>
        absurd (hslot _ hmem).2 (Nat.lt_irrefl _)
      refine ⟨s₂, (hs₁.trans (.track s₁ r)).of_released hslot hnext hkept, s₁.table.nextValueId, ?_, ?_⟩
      · rw [hkept _ hid]
        exact s₁.tracked_track r
      · exact hembed.bind (hrelease.bind (.pure _ _))
    · obtain ⟨s₂, hrelease, hs₂⟩ := releaseAll_frame handlers hs₁ hslot
      refine ⟨s₂, hs₂, .bind hembed (Run.Fails.bind_left ?_)⟩
      exact .bind (Run.Fails.of_eq hcall).attempt (.bind hrelease (.throw e s₂))
    -- after the end of the process nothing is released
    · refine ⟨s, le_refl s, hembed.bind_end.trans ?_⟩
      exact Run.bind_end_crash (Run.bind_end_crash (Run.attempt_end_crash hcall))
    · refine ⟨s, le_refl s, hembed.bind_end.trans ?_⟩
      exact Run.bind_end_outOfFuel (Run.bind_end_outOfFuel (Run.attempt_end_outOfFuel hcall))
  · refine ⟨s₁, hs₁, ?_⟩
    rw [hnone]
    exact hembed.bind_left

/-- Handles with equal contents, called on values with equal contents, end alike. -/
theorem callEmbedded_matched {f f' : ValueId} {a a' : ExecutorValue} {rf : StatusOr Value}
    (hf : s.table.trackedValues f = some rf) (hf' : t.table.trackedValues f' = some rf) (ha : a.Alive s)
    (ha' : a'.Alive t) (hcontents : a.contents s = a'.contents t) : ∃ w', (s, t) ≤ w' ∧
      Outcome.Matched (fun s t => w' = (s, t)) Eq
        (fun v v' => ∃ id id' r, v = .embedded id ∧ v' = .embedded id' ∧
          w'.1.table.trackedValues id = some r ∧ w'.2.table.trackedValues id' = some r ∧
          ∃ ra, a.contents s = some ra ∧ (InlineExecutor.createCall handlers rf (some ra) ()).2 = .ok r ())
        ((localExecutor handlers).callEmbedded f (some a) s).2
        ((localExecutor handlers).callEmbedded f' (some a') t).2 := by
  obtain ⟨s', hs', hs⟩ := callEmbedded_end handlers hf ha
  obtain ⟨t', ht', ht⟩ := callEmbedded_end handlers hf' ha'
  rw [← hcontents] at ht
  refine ⟨(s', t'), ⟨hs', ht'⟩, ?_⟩
  -- The child is called with what the argument holds, the same on both sides, and ends there in the same
  -- way.
  rcases hra : a.contents s with _ | ra <;> simp only [hra] at hs ht
  · obtain ⟨_, hx⟩ := hs
    obtain ⟨_, hy⟩ := ht
    rw [hx, hy]
    exact .error rfl rfl
  rcases ho : (InlineExecutor.createCall handlers rf (some ra) ()).2 with r | e | k | _ <;>
    simp only [ho] at hs ht
  · obtain ⟨id, hid, _, hx⟩ := hs
    obtain ⟨id', hid', _, hy⟩ := ht
    rw [hx, hy]
    exact .ok rfl ⟨id, id', r, rfl, rfl, hid, hid', ra, rfl, ho⟩
  · obtain ⟨_, hx⟩ := hs
    obtain ⟨_, hy⟩ := ht
    rw [hx, hy]
    exact .error rfl rfl
  · rw [hs, ht]
    exact .crash
  · rw [hs, ht]
    exact .outOfFuel

/-- The child takes no calls without an argument. -/
theorem callEmbedded_none {f : ValueId} {rf : StatusOr Value} (hf : s.table.trackedValues f = some rf) :
    Run.Fails ((localExecutor handlers).callEmbedded f none) s
      (.invalidArgument "An argument is always required.") s := by
  refine Run.Fails.bind_left (.bind (ExecutorBase.getTracked_returns hf) ?_)
  exact .bind (.pure none s) (Run.Fails.bind_left (Run.Fails.zoom (.throw _ ())))

theorem callEmbedded_pure {f f' : ValueId} {a a' : Option ExecutorValue}
    (hf : Purity.Same w (.embedded f) (.embedded f')) (ha : Option.Rel (Purity.Same w) a a') :
    Purity.Simulates w Purity.Same ((localExecutor handlers).callEmbedded f a)
      ((localExecutor handlers).callEmbedded f' a') := by
  rintro w₁ hw s t rfl
  have hf := hf.mono hw.1 hw.2
  obtain ⟨rf, hfs, hft⟩ : ∃ r, s.table.trackedValues f = some r ∧ t.table.trackedValues f' = some r := by
    cases hf with
    | embedded h h' => exact ⟨_, h, h'⟩
  cases ha with
  | none =>
      obtain ⟨_, hx⟩ := callEmbedded_none handlers hfs
      obtain ⟨_, hy⟩ := callEmbedded_none handlers hft
      rw [hx, hy]
      exact ⟨(s, t), le_refl _, .error rfl rfl⟩
  | @some a a' ha =>
      -- the function holds the same on both sides, and so does the argument
      have ha := ha.mono hw.1 hw.2
      obtain ⟨w', hw', hend⟩ :=
        callEmbedded_matched handlers hfs hft ha.alive ha.symm.alive ha.contents
      refine ⟨w', hw', hend.mono (fun _ _ h => h) fun v v' => ?_⟩
      rintro ⟨id, id', r, rfl, rfl, hid, hid', -⟩
      exact .embedded hid hid'

theorem createChildValue_pure (v : Value) :
    Purity.Simulates w Purity.Same ((localExecutor handlers).createChildValue v)
      ((localExecutor handlers).createChildValue v) :=
  Purity.of_ends fun s t _ => .inl ⟨_, _, s.track (.ok v), t.track (.ok v),
    (InlineExecutor.createValue_returns handlers v s).bind (.pure _ _),
    (InlineExecutor.createValue_returns handlers v t).bind (.pure _ _),
    ⟨BaseState.Frame.track s _, BaseState.Frame.track t _⟩,
    .embedded (s.tracked_track _) (t.tracked_track _)⟩

theorem constMaterialize_pure {v v' : ExecutorValue} (hv : Purity.Same w v v') (output : Option Value) :
    Purity.Simulates w (fun _ m m' => m = m') ((localExecutor handlers).constMaterialize v output)
      ((localExecutor handlers).constMaterialize v' output) := by
  refine Purity.of_ends fun s t hw => ?_
  have hv := hv.mono hw.1 hw.2
  obtain ⟨m, s', hs', hx, hm⟩ := constMaterialize_spec handlers hv.alive output
  obtain ⟨m', t', ht', hy, hm'⟩ := constMaterialize_spec handlers hv.symm.alive output
  refine .inl ⟨m, m', s', t', hx, hy, ⟨hs', ht'⟩, ?_⟩
  rw [← hv.contents] at hm'
  rcases hr : v.contents s with _ | r <;> simp only [hr] at hm hm'
  · exact hm.trans hm'.symm
  · exact hm.trans hm'.symm

theorem createSelectionInternal_pure {v v' : ExecutorValue} (hv : Purity.Same w v v') (index : UInt32) :
    Purity.Simulates w Purity.Same ((localExecutor handlers).createSelectionInternal v index)
      ((localExecutor handlers).createSelectionInternal v' index) := by
  cases hv with
  | embedded h h' =>
      refine Purity.of_ends fun s t hw => .inl ⟨_, _, _, _,
        (InlineExecutor.createSelection_holds handlers (BaseState.Frame.tracked hw.1 h) index).bind (.pure _ _),
        (InlineExecutor.createSelection_holds handlers (BaseState.Frame.tracked hw.2 h') index).bind
          (.pure _ _),
        ⟨BaseState.Frame.track s _, BaseState.Frame.track t _⟩,
        .embedded (s.tracked_track _) (t.tracked_track _)⟩
  -- the two structures have elements at the same positions
  | @struct vs vs' hlength h =>
      have hall : List.Forall₂ (ExecutorValue.Same w.1 w.2) vs vs' :=
        List.forall₂_iff_zip.mpr ⟨hlength, fun hp => h _ hp⟩
      dsimp only [createSelectionInternal]
      rcases forall₂_getElem? hall index.toNat with ⟨hnone, hnone'⟩ | ⟨v, v', hv, hv', h⟩
      · rw [hnone, hnone', hlength]
        exact Purity.relator.throw rfl
      · rw [hv, hv']
        exact Purity.relator.pure fun _ hw => h.mono hw.1 hw.2
  | lambda => exact Purity.relator.throw rfl
  | intrinsic => exact Purity.relator.throw rfl

end ControlFlowExecutor

/-! ## The evaluator -/

/-- The knot does the same in scopes that are the same, on values that are the same. -/
structure Knot.Pure (k : Knot InlineState) : Prop where
  evaluate : ∀ v {scope scope' w}, Scope.Same w.1 w.2 scope scope' →
    Purity.Simulates w Purity.Same (k.evaluate v scope) (k.evaluate v scope')
  createCall : ∀ {f f' a a' w}, Purity.Same w f f' → Option.Rel (Purity.Same w) a a' →
    Purity.Simulates w Purity.Same (k.createCall f a) (k.createCall f' a')

namespace ControlFlowExecutor

variable {k : Knot InlineState} (hk : k.Pure)

include hk

theorem constCreateExecutorValue_pure (v : Value) :
    Purity.Simulates w Purity.Same ((localExecutor handlers).constCreateExecutorValue k v)
      ((localExecutor handlers).constCreateExecutorValue k v) := by
  unfold constCreateExecutorValue
  split
  · exact createChildValue_pure handlers _
  · exact Purity.relator.throw rfl
  · exact hk.evaluate _ .nil

/-- A handler cannot tell in which of two scopes that are the same its intrinsic was created. -/
theorem context_pure (hscope : scope.Same w.1 w.2 scope') :
    ((localExecutor handlers).context k scope).Related Purity.relator True (fun _ => True) Purity.Same w
      ((localExecutor handlers).context k scope') where
  keeps hw h := h.mono hw.1 hw.2
  createValue {w' v} hw _ := by
    show Purity.Simulates w' _ (if hasComputation v then _ else _) (if hasComputation v then _ else _)
    split
    · exact hk.evaluate v (hscope.mono hw.1 hw.2)
    · exact constCreateExecutorValue_pure handlers hk v
  createCall _ hf ha _ := hk.createCall hf ha
  createStruct _ hvs := Purity.relator.pure fun _ hw => .struct' (hvs.imp fun _ _ h => h.mono hw.1 hw.2)
  materialize output _ hv _ :=
    (constMaterialize_pure handlers hv output).mono (le_refl _) fun _ _ _ _ h => ⟨h, fun _ _ => trivial⟩

theorem constCreateCallStep_pure (fuel : Nat) {f f' : ExecutorValue} {a a' : Option ExecutorValue}
    (hf : Purity.Same w f f') (ha : Option.Rel (Purity.Same w) a a') :
    Purity.Simulates w Purity.Same ((localExecutor handlers).constCreateCallStep fuel k f a)
      ((localExecutor handlers).constCreateCallStep fuel k f' a') := by
  cases hf with
  | embedded h h' => exact callEmbedded_pure handlers (.embedded h h') ha
  | struct => exact Purity.relator.throw rfl
  | @lambda lambdaPb scope scope' hnames h =>
      have hscope := Scope.same_iff.mpr ⟨hnames, h⟩
      cases ha with
      | none => exact hk.evaluate _ hscope
      | some ha => exact hk.evaluate _ (hscope.cons lambdaPb.parameterName ha)
  | @intrinsic intr handler scope scope' hnames h =>
      have hscope := Scope.same_iff.mpr ⟨hnames, h⟩
      -- the event says whether there is an argument
      have hargument : a.isSome = a'.isSome := by cases ha <;> rfl
      show Purity.Simulates w _ (_ >>= _) (_ >>= _)
      rw [hargument]
      refine Purity.relator.bind (R := fun _ i i' => i = i') (Purity.relator.ofExcept fun _ _ => ?_)
        fun w₁ h₁ interface _ => ?_
      · cases handler.getControlFlowInterface <;> exact rfl
      · rintro rfl
        refine Purity.relator.bind (Purity.relator.tell _) fun w₂ h₂ _ _ _ => ?_
        have h₀₂ := h₁.trans h₂
        refine ControlFlowHandler.executeCall_related
          (context_pure handlers hk (hscope.mono h₀₂.1 h₀₂.2)) ⟨trivial, fun _ _ _ => trivial⟩ fuel ?_ trivial
          ?_ fun _ => trivial
        · cases interface <;> simp [ControlFlowHandler.Keeps]
        · cases ha with
          | some ha => exact .some (ha.mono h₀₂.1 h₀₂.2)
          | none => exact .none

/-! ### One kind of IR each -/

omit [ProtoText] in
theorem evaluateLocals_pure (names : String) : ∀ (locals : List (String × Value)) {scope scope' : Scope}
    {w : InlineState × InlineState}, scope.Same w.1 w.2 scope' →
      Purity.Simulates w (fun w => Scope.Same w.1 w.2) (evaluateLocals k names locals scope)
        (evaluateLocals k names locals scope')
  | [], _, _, _, h => Purity.relator.pure fun _ hw => h.mono hw.1 hw.2
  | (name, localPb) :: locals, _, _, _, h => by
      have hlocal := (hk.evaluate localPb h).mapError fun e e' (he : e = e') =>
        congrArg (Status.withSuffix ·
          ("while evaluating local [" ++ name ++ "] in block locals [" ++ names ++ "]"))
          he
      exact Purity.relator.bind hlocal fun w₁ h₁ _ _ hv =>
        evaluateLocals_pure names locals ((h.mono h₁.1 h₁.2).cons name hv)

omit [ProtoText] in
theorem evaluateElements_pure : ∀ (elements : List Value) {scope scope' : Scope}
    {w : InlineState × InlineState}, scope.Same w.1 w.2 scope' →
      Purity.Simulates w (fun w => List.Forall₂ (Purity.Same w)) (evaluateElements k elements scope)
        (evaluateElements k elements scope')
  | [], _, _, _, _ => Purity.relator.pure fun _ _ => .nil
  | e :: es, _, _, _, h => by
      refine Purity.relator.bind (hk.evaluate e h) fun w₁ h₁ _ _ hv => ?_
      refine Purity.relator.bind (evaluateElements_pure es (h.mono h₁.1 h₁.2)) fun w₂ h₂ _ _ hvs => ?_
      refine Purity.relator.pure fun w₃ h₃ => .cons ?_ (hvs.imp fun _ _ h => h.mono h₃.1 h₃.2)
      exact hv.mono (h₂.trans h₃).1 (h₂.trans h₃).2

omit hk in
theorem evaluateIntrinsic_pure (valuePb : Value) (intr : Intrinsic) (hscope : scope.Same w.1 w.2 scope') :
    Purity.Simulates w Purity.Same ((localExecutor handlers).evaluateIntrinsic valuePb intr scope)
      ((localExecutor handlers).evaluateIntrinsic valuePb intr scope') := by
  refine Purity.relator.bind_same (Purity.relator.ofExcept_same _) fun w₁ h₁ handler => ?_
  refine Purity.relator.bind_same (runCheckWellFormed_related _ handler intr) fun w₂ h₂ _ => ?_
  cases handler.interface with
  | inline => exact createChildValue_pure handlers _
  | controlFlow =>
      refine Purity.relator.bind_same (runCheckWellFormed_related _ handler intr) fun w₃ h₃ _ => ?_
      refine Purity.relator.pure fun w₄ h₄ => ?_
      have hle := ((h₁.trans h₂).trans h₃).trans h₄
      exact .intrinsic' (hscope.mono hle.1 hle.2)

theorem evaluateStep_pure (v : Value) (hscope : scope.Same w.1 w.2 scope') :
    Purity.Simulates w Purity.Same ((localExecutor handlers).evaluateStep k v scope)
      ((localExecutor handlers).evaluateStep k v scope') := by
  cases v with
  | notSet m => exact createChildValue_pure handlers _
  | scalar m s => exact createChildValue_pure handlers _
  | call m function argument =>
      refine Purity.relator.bind (hk.evaluate function hscope) fun w₁ h₁ f f' hf => ?_
      cases argument with
      | none => exact hk.createCall hf .none
      | some argument =>
          refine Purity.relator.bind (hk.evaluate argument (hscope.mono h₁.1 h₁.2))
            fun w₂ h₂ a a' ha => ?_
          exact hk.createCall (hf.mono h₂.1 h₂.2) (.some ha)
  | lambda m parameterName result =>
      exact Purity.relator.pure fun _ hw => .lambda' (hscope.mono hw.1 hw.2)
  | reference m name =>
      -- the error shows the names in scope, which are the same
      have hresolve : Purity.Simulates w Purity.Same (Run.ofExcept (scope.resolve name))
          (Run.ofExcept (scope'.resolve name)) :=
        Purity.relator.ofExcept fun w' hw => (hscope.mono hw.1 hw.2).resolve name
      exact hresolve.mapError fun e e' he => by rw [he, hscope.debugString]
  | struct m elements =>
      exact Purity.relator.bind (evaluateElements_pure hk elements hscope) fun w₁ h₁ _ _ hvs =>
        Purity.relator.pure fun _ hw => .struct' (hvs.imp fun _ _ h => h.mono hw.1 hw.2)
  | selection m source index =>
      exact Purity.relator.bind (hk.evaluate source hscope) fun _ _ _ _ hv =>
        createSelectionInternal_pure handlers hv _
  | block m locals result =>
      exact Purity.relator.bind (evaluateLocals_pure hk _ locals hscope) fun _ _ _ _ hscope =>
        hk.evaluate result hscope
  | intrinsic m uri staticParameter => exact evaluateIntrinsic_pure handlers _ _ hscope

omit hk in
/-- **The local stack is pure.** -/
theorem knot_pure : ∀ fuel : Nat, ((localExecutor handlers).knot fuel).Pure
  | 0 => ⟨fun _ _ _ _ _ => Purity.relator.outOfFuel, fun _ _ => Purity.relator.outOfFuel⟩
  | fuel + 1 => ⟨fun v _ _ _ hscope => evaluateStep_pure handlers (knot_pure fuel) v hscope,
      fun hf ha => constCreateCallStep_pure handlers (knot_pure fuel) fuel hf ha⟩

end ControlFlowExecutor

end

end GenC
