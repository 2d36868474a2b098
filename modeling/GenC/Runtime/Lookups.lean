import GenC.Lib.EndAlike
import GenC.Runtime.Keeping
import GenC.Runtime.Purity

/-!
# What lookups decide

Evaluation depends on a scope through the names that the IR may look up in it, and on these only through
what they are bound to. Two values, each in a state of its own, are `Likewise` over a set of names if they
are built alike over handles with equal contents, and their functions find alike in their scopes what these
names stand for. The scopes may bind other names, and in another order.

**`ControlFlowExecutor.knot_likewise`**: IR over the names does the same in scopes that agree on them, from
any two states, and so do functions that are alike. Errors are of the same code.
-/

namespace GenC

open Lib

variable {N M M' : Set String} {s s' t t' : InlineState} {v v' : ExecutorValue} {scope scope' : Scope}

/-! ## Values that are alike -/

/-- What `v` is in `s`, `v'` is in `t`, as far as names in `N` go. -/
inductive ExecutorValue.Likewise (N : Set String) (s t : InlineState) :
    ExecutorValue → ExecutorValue → Prop where
  | embedded {id id' : ValueId} {r : StatusOr Value} (h : s.table.trackedValues id = some r)
      (h' : t.table.trackedValues id' = some r) (hr : InlineExecutor.Holds N r) :
      Likewise N s t (.embedded id) (.embedded id')
  | struct {vs vs' : List ExecutorValue} (hlength : vs.length = vs'.length)
      (h : ∀ p ∈ vs.zip vs', Likewise N s t p.1 p.2) : Likewise N s t (.struct vs) (.struct vs')
  | lambda {lambdaPb : Lambda} {scope scope' : Scope}
      (hbody : lambdaPb.result.Over N {lambdaPb.parameterName}) (halive : scope.Alive s)
      (halive' : scope'.Alive t)
      (hbound : ∀ x ∈ N, (∃ v, scope.resolve x = .ok v) ↔ ∃ v', scope'.resolve x = .ok v')
      (h : ∀ x ∈ N, ∀ v v', scope.resolve x = .ok v → scope'.resolve x = .ok v' → Likewise N s t v v') :
      Likewise N s t (.lambda lambdaPb scope) (.lambda lambdaPb scope')
  | intrinsic {intrinsicPb : Intrinsic} {handler : IntrinsicHandler} {scope scope' : Scope}
      (hparameter : ∀ v ∈ intrinsicPb.staticParameter, v.ClosedOver N)
      (hkeeps : handler.Keeps (Value.ClosedOver N)) (halive : scope.Alive s) (halive' : scope'.Alive t)
      (hbound : ∀ x ∈ N, (∃ v, scope.resolve x = .ok v) ↔ ∃ v', scope'.resolve x = .ok v')
      (h : ∀ x ∈ N, ∀ v v', scope.resolve x = .ok v → scope'.resolve x = .ok v' → Likewise N s t v v') :
      Likewise N s t (.intrinsic intrinsicPb handler scope) (.intrinsic intrinsicPb handler scope')

/-- The scopes bind alike the names of `M`. -/
structure Scope.Likewise (N M : Set String) (s t : InlineState) (scope scope' : Scope) : Prop where
  alive : scope.Alive s
  alive' : scope'.Alive t
  bound : ∀ x ∈ M, (∃ v, scope.resolve x = .ok v) ↔ ∃ v', scope'.resolve x = .ok v'
  values : ∀ x ∈ M, ∀ v v', scope.resolve x = .ok v → scope'.resolve x = .ok v' → v.Likewise N s t v'

namespace ExecutorValue.Likewise

theorem lambda' {lambdaPb : Lambda} (hbody : lambdaPb.result.Over N {lambdaPb.parameterName})
    (h : scope.Likewise N N s t scope') : Likewise N s t (.lambda lambdaPb scope) (.lambda lambdaPb scope') :=
  .lambda hbody h.alive h.alive' h.bound h.values

theorem intrinsic' {intr : Intrinsic} {handler : IntrinsicHandler}
    (hparameter : ∀ v ∈ intr.staticParameter, v.ClosedOver N) (hkeeps : handler.Keeps (Value.ClosedOver N))
    (h : scope.Likewise N N s t scope') :
    Likewise N s t (.intrinsic intr handler scope) (.intrinsic intr handler scope') :=
  .intrinsic hparameter hkeeps h.alive h.alive' h.bound h.values

theorem struct' {vs vs' : List ExecutorValue} (h : List.Forall₂ (Likewise N s t) vs vs') :
    Likewise N s t (.struct vs) (.struct vs') := by
  obtain ⟨hlength, h⟩ := List.forall₂_iff_zip.mp h
  exact .struct hlength fun p hp => h hp

theorem elements {vs vs' : List ExecutorValue} (h : Likewise N s t (.struct vs) (.struct vs')) :
    List.Forall₂ (Likewise N s t) vs vs' := by
  cases h with
  | struct hlength h => exact List.forall₂_iff_zip.mpr ⟨hlength, fun hp => h _ hp⟩

theorem mono (hs : s ≤ s') (ht : t ≤ t') (h : v.Likewise N s t v') : v.Likewise N s' t' v' := by
  induction h with
  | embedded h h' hr =>
      exact .embedded (BaseState.Frame.tracked hs h) (BaseState.Frame.tracked ht h') hr
  | struct hlength _ ih => exact .struct hlength ih
  | lambda hbody halive halive' hbound _ ih =>
      exact .lambda hbody (halive.of_le hs) (halive'.of_le ht) hbound ih
  | intrinsic hparameter hkeeps halive halive' hbound _ ih =>
      exact .intrinsic hparameter hkeeps (halive.of_le hs) (halive'.of_le ht) hbound ih

theorem symm (h : v.Likewise N s t v') : v'.Likewise N t s v := by
  induction h with
  | embedded h h' hr => exact .embedded h' h hr
  | struct hlength _ ih => exact .struct hlength.symm fun p hp => ih p.swap (mem_zip_swap hp)
  | lambda hbody halive halive' hbound _ ih =>
      exact .lambda hbody halive' halive (fun x hx => (hbound x hx).symm)
        fun x hx v v' hv hv' => ih x hx v' v hv' hv
  | intrinsic hparameter hkeeps halive halive' hbound _ ih =>
      exact .intrinsic hparameter hkeeps halive' halive (fun x hx => (hbound x hx).symm)
        fun x hx v v' hv hv' => ih x hx v' v hv' hv

theorem alive (h : v.Likewise N s t v') : v.Alive s := by
  induction h with
  | embedded h => exact .embedded h
  | struct hlength _ ih =>
      refine .struct fun v hv => ?_
      obtain ⟨v', hv'⟩ := exists_mem_zip hlength.le hv
      exact ih _ hv'
  | lambda _ halive => exact .lambda halive
  | intrinsic _ _ halive => exact .intrinsic halive

/-- Values that were there before, and are alike now, were alike. -/
theorem of_le (hs : s ≤ s') (ht : t ≤ t') (h : v.Likewise N s' t' v') (hv : v.Alive s) (hv' : v'.Alive t) :
    v.Likewise N s t v' := by
  induction h with
  | embedded h h' hr =>
      cases hv with
      | embedded hs₀ =>
      cases hv' with
      | embedded ht₀ =>
      -- a handle that was alive before holds what it held
      have hr₀ := (BaseState.Frame.tracked hs hs₀).symm.trans h
      have hr₀' := (BaseState.Frame.tracked ht ht₀).symm.trans h'
      exact .embedded (hr₀ ▸ hs₀) (hr₀' ▸ ht₀) hr
  | struct hlength _ ih =>
      exact .struct hlength fun p hp => ih p hp (hv.fields _ (List.of_mem_zip hp).1)
        (hv'.fields _ (List.of_mem_zip hp).2)
  | lambda hbody _ _ hbound _ ih =>
      cases hv with
      | lambda halive =>
      cases hv' with
      | lambda halive' =>
      refine .lambda hbody halive halive' hbound fun x hx v v' hv hv' => ?_
      exact ih x hx v v' hv hv' (Scope.Alive.resolve halive hv) (Scope.Alive.resolve halive' hv')
  | intrinsic hparameter hkeeps _ _ hbound _ ih =>
      cases hv with
      | intrinsic halive =>
      cases hv' with
      | intrinsic halive' =>
      refine .intrinsic hparameter hkeeps halive halive' hbound fun x hx v v' hv hv' => ?_
      exact ih x hx v v' hv hv' (Scope.Alive.resolve halive hv) (Scope.Alive.resolve halive' hv')

/-- Values that are alike materialize to the same, which is IR over the names. -/
theorem contents (h : v.Likewise N s t v') : v.contents s = v'.contents t ∧
    ∀ r, v.contents s = some r → InlineExecutor.Holds N r := by
  induction h with
  | embedded h h' hr =>
      rw [ExecutorValue.contents, ExecutorValue.contents, h, h']
      refine ⟨rfl, ?_⟩
      rintro _ ⟨⟩
      exact hr
  | @struct vs vs' hlength h ih =>
      have hall : List.Forall₂ (fun v v' => v.contents s = v'.contents t ∧
          ∀ r, v.contents s = some r → InlineExecutor.Holds N r) vs vs' :=
        List.forall₂_iff_zip.mpr ⟨hlength, fun hp => ih _ hp⟩
      have hfields : contentsAll s vs = contentsAll t vs' ∧
          ∀ rs, contentsAll s vs = some rs → ∀ r ∈ rs, InlineExecutor.Holds N r := by
        -- the fields are compared one by one
        clear hlength h ih
        induction hall with
        | nil =>
            refine ⟨rfl, ?_⟩
            rintro _ ⟨⟩
            exact List.forall_mem_nil _
        | @cons v v' vs vs' hv _ ih =>
            rw [contentsAll, contentsAll, hv.1, ih.1]
            refine ⟨rfl, fun rs hrs => ?_⟩
            rcases hr : v'.contents t with _ | r <;> rcases hrs' : contentsAll t vs' with _ | rs' <;>
              rw [hr, hrs'] at hrs <;> cases hrs
            exact List.forall_mem_cons.mpr ⟨hv.2 r (hv.1.trans hr), ih.2 rs' (ih.1.trans hrs')⟩
      rw [ExecutorValue.contents, ExecutorValue.contents, hfields.1]
      refine ⟨rfl, fun r hr => ?_⟩
      obtain ⟨rs, hrs, rfl⟩ := Option.map_eq_some_iff.mp hr
      exact InlineExecutor.structTask_holds (hfields.2 rs (hfields.1.trans hrs))
  | lambda hbody =>
      refine ⟨rfl, ?_⟩
      rintro _ ⟨⟩ w ⟨⟩
      exact .lambda hbody
  | intrinsic => exact ⟨rfl, fun _ h => (nomatch h)⟩

end ExecutorValue.Likewise

namespace Scope.Likewise

theorem mono (hs : s ≤ s') (ht : t ≤ t') (h : scope.Likewise N M s t scope') :
    scope.Likewise N M s' t' scope' where
  alive := h.alive.of_le hs
  alive' := h.alive'.of_le ht
  bound := h.bound
  values x hx v v' hv hv' := (h.values x hx v v' hv hv').mono hs ht

theorem subset (h : scope.Likewise N M s t scope') (hM : M' ⊆ M) : scope.Likewise N M' s t scope' where
  alive := h.alive
  alive' := h.alive'
  bound x hx := h.bound x (hM hx)
  values x hx := h.values x (hM hx)

theorem symm (h : scope.Likewise N M s t scope') : scope'.Likewise N M t s scope where
  alive := h.alive'
  alive' := h.alive
  bound x hx := (h.bound x hx).symm
  values x hx v v' hv hv' := (h.values x hx v' v hv' hv).symm

/-- A new name hides what it was bound to before. -/
theorem cons (h : scope.Likewise N M s t scope') {name : String} (hv : v.Likewise N s t v') :
    Scope.Likewise N (insert name M) s t ((name, v) :: scope) ((name, v') :: scope') where
  alive := h.alive.cons hv.alive
  alive' := h.alive'.cons hv.symm.alive
  bound x hx := by
    rw [Scope.resolve, Scope.resolve]
    by_cases hname : name = x
    · rw [if_pos hname, if_pos hname]
      exact ⟨fun _ => ⟨v', rfl⟩, fun _ => ⟨v, rfl⟩⟩
    · rw [if_neg hname, if_neg hname]
      exact h.bound x (hx.resolve_left fun heq => hname heq.symm)
  -- the new binding hides the older ones of its name, and no others
  values x hx w w' hw hw' := by
    rw [Scope.resolve] at hw hw'
    by_cases hname : name = x
    · rw [if_pos hname] at hw hw'
      cases hw
      cases hw'
      exact hv
    · rw [if_neg hname] at hw hw'
      exact h.values x (hx.resolve_left fun heq => hname heq.symm) w w' hw hw'

end Scope.Likewise

/-- What is not bound is not found. -/
theorem Scope.sameCode_of_resolve {name : String} : ∀ {scope scope' : Scope} {e e' : Status},
    scope.resolve name = .error e → scope'.resolve name = .error e' → e.SameCode e' := by
  have hcode : ∀ {scope : Scope} {e : Status}, scope.resolve name = .error e →
      e = .notFound ("Could not find reference [" ++ name ++ "]") := by
    intro scope e h
    induction scope with
    | nil => exact (Except.error.inj h).symm
    | cons b scope ih =>
        rw [Scope.resolve] at h
        split at h
        · cases h
        · exact ih h
  intro scope scope' e e' h h'
  rw [hcode h, hcode h']
  rfl

/-! ## The child -/

/-- Runs that end alike, with errors of the same code. -/
abbrev Lookups.Simulates {α β : Type} (w : InlineState × InlineState)
    (R : InlineState × InlineState → α → β → Prop) (x : Exec InlineState α) (y : Exec InlineState β) :
    Prop :=
  Run.Simulates (fun w s t => w = (s, t)) Status.SameCode w R x y

/-- Values that are alike in the two states. -/
abbrev Lookups.Alike (N : Set String) (w : InlineState × InlineState) (v v' : ExecutorValue) : Prop :=
  v.Likewise N w.1 w.2 v'

/-- What was made from `s` and from `t` on is alike. -/
def LikewiseSince (N : Set String) (s t : InlineState) (v : ExecutorValue) (s' : InlineState)
    (v' : ExecutorValue) (t' : InlineState) : Prop :=
  s ≤ s' ∧ t ≤ t' ∧ v.Likewise N s' t' v'

theorem Lookups.endUpTo_of_simulates {x y : Nat → Exec InlineState ExecutorValue}
    (h : ∀ n, Lookups.Simulates (s, t) (Lookups.Alike N) (x n) (y n)) :
    Run.EndUpTo Status.SameCode (LikewiseSince N s t) x s y t := by
  refine (Run.EndUpTo.of_simulates h rfl).mono ?_
  rintro a s' b t' ⟨_, hle, rfl, hab⟩
  exact ⟨hle.1, hle.2, hab⟩

/-- The relator of such runs. -/
abbrev Lookups.relator : Relator Event Crash Status InlineState InlineState :=
  .simulation Event Crash (W := InlineState × InlineState) (fun w s t => w = (s, t)) Status.SameCode
    fun _ => rfl

section

variable [ProtoText] {handlers : IntrinsicHandlerSet}
  (hhandlers : ∀ handler ∈ handlers, handler.Keeps (Value.ClosedOver N))
  {w : InlineState × InlineState}

omit [ProtoText] in
/-- Pure runs are such runs. -/
theorem Purity.Simulates.lookups {α β : Type} {R : InlineState × InlineState → α → β → Prop}
    {x : Exec InlineState α} {y : Exec InlineState β} (h : Purity.Simulates w R x y) :
    Lookups.Simulates w R x y := by
  intro w₁ hw s t hs
  obtain ⟨w', hw', hend⟩ := h w₁ hw s t hs
  exact ⟨w', hw', hend.mono (fun _ _ he => congrArg Status.code he) fun _ _ h => h⟩

namespace ControlFlowExecutor

include hhandlers in
theorem callEmbedded_likewise {f f' : ValueId} {a a' : Option ExecutorValue}
    (hf : Lookups.Alike N w (.embedded f) (.embedded f')) (ha : Option.Rel (Lookups.Alike N w) a a') :
    Lookups.Simulates w (Lookups.Alike N) ((localExecutor handlers).callEmbedded f a)
      ((localExecutor handlers).callEmbedded f' a') := by
  rintro w₁ hw s t rfl
  have hf := hf.mono hw.1 hw.2
  obtain ⟨rf, hfs, hft, hrf⟩ : ∃ r, s.table.trackedValues f = some r ∧
      t.table.trackedValues f' = some r ∧ InlineExecutor.Holds N r := by
    cases hf with
    | embedded h h' hr => exact ⟨_, h, h', hr⟩
  cases ha with
  | none =>
      obtain ⟨_, hx⟩ := callEmbedded_none handlers hfs
      obtain ⟨_, hy⟩ := callEmbedded_none handlers hft
      rw [hx, hy]
      exact ⟨(s, t), le_refl _, .error rfl rfl⟩
  | @some a a' ha =>
      have ha := ha.mono hw.1 hw.2
      obtain ⟨hcontents, hholds⟩ := ha.contents
      obtain ⟨w', hw', hend⟩ := callEmbedded_matched handlers hfs hft ha.alive ha.symm.alive hcontents
      refine ⟨w', hw', hend.mono (fun _ _ he => congrArg Status.code he) fun v v' => ?_⟩
      rintro ⟨id, id', r, rfl, rfl, hid, hid', ra, hra, hr⟩
      have hra' : ∀ r ∈ some ra, InlineExecutor.Holds N r := by
        rintro _ ⟨⟩
        exact hholds ra hra
      -- what the child gives is closed again, since its handlers keep closed values closed
      have hcall := (InlineExecutor.impl_keeps hhandlers).createCall hrf hra' () trivial
      simp only [show (InlineExecutor.impl handlers).createCall rf (some ra) =
        InlineExecutor.createCall handlers rf (some ra) from rfl, hr] at hcall
      exact .embedded hid hid' hcall

theorem createChildValue_likewise {v : Value} (hv : v.ClosedOver N) :
    Lookups.Simulates w (Lookups.Alike N) ((localExecutor handlers).createChildValue v)
      ((localExecutor handlers).createChildValue v) := by
  have hholds : InlineExecutor.Holds N (.ok v) := by
    rintro _ ⟨⟩
    exact hv
  exact Purity.Simulates.lookups (Purity.of_ends fun s t _ => .inl ⟨_, _, s.track (.ok v), t.track (.ok v),
    (InlineExecutor.createValue_returns handlers v s).bind (.pure _ _),
    (InlineExecutor.createValue_returns handlers v t).bind (.pure _ _),
    ⟨BaseState.Frame.track s _, BaseState.Frame.track t _⟩,
    .embedded (s.tracked_track _) (t.tracked_track _) hholds⟩)

/-- Values that are alike materialize to the same. -/
theorem constMaterialize_likewise {v v' : ExecutorValue} (hv : Lookups.Alike N w v v') {output : Option Value}
    (houtput : ∀ pb ∈ output, pb.ClosedOver N) :
    Lookups.Simulates w (fun _ m m' => m = m' ∧ ∀ pb ∈ m.output, pb.ClosedOver N)
      ((localExecutor handlers).constMaterialize v output)
      ((localExecutor handlers).constMaterialize v' output) := by
  refine Purity.Simulates.lookups (Purity.of_ends fun s t hw => ?_)
  have hv := hv.mono hw.1 hw.2
  obtain ⟨hcontents, hholds⟩ := hv.contents
  obtain ⟨m, s', hs', hx, hm⟩ := constMaterialize_spec handlers hv.alive output
  obtain ⟨m', t', ht', hy, hm'⟩ := constMaterialize_spec handlers hv.symm.alive output
  refine .inl ⟨m, m', s', t', hx, hy, ⟨hs', ht'⟩, ?_⟩
  rw [← hcontents] at hm'
  -- the output stays as it was, or becomes what both values hold
  rcases hr : v.contents s with _ | e | pb <;> simp only [hr] at hm hm' <;> subst hm hm'
  · exact ⟨rfl, houtput⟩
  · exact ⟨rfl, houtput⟩
  · refine ⟨rfl, fun w hw => ?_⟩
    obtain ⟨_, -, rfl⟩ := Option.map_eq_some_iff.mp hw
    exact hholds _ hr pb rfl

theorem createSelectionInternal_likewise {v v' : ExecutorValue} (hv : Lookups.Alike N w v v') (index : UInt32) :
    Lookups.Simulates w (Lookups.Alike N) ((localExecutor handlers).createSelectionInternal v index)
      ((localExecutor handlers).createSelectionInternal v' index) := by
  cases hv with
  | embedded h h' hr =>
      exact Purity.Simulates.lookups (Purity.of_ends fun s t hw => .inl ⟨_, _, _, _,
        (InlineExecutor.createSelection_holds handlers (BaseState.Frame.tracked hw.1 h) index).bind (.pure _ _),
        (InlineExecutor.createSelection_holds handlers (BaseState.Frame.tracked hw.2 h') index).bind
          (.pure _ _),
        ⟨BaseState.Frame.track s _, BaseState.Frame.track t _⟩,
        .embedded (s.tracked_track _) (t.tracked_track _)
          (InlineExecutor.createSelection_holds_over hr index)⟩)
  -- the two structures have elements at the same positions
  | @struct vs vs' hlength h =>
      have hall : List.Forall₂ (Lookups.Alike N w) vs vs' :=
        List.forall₂_iff_zip.mpr ⟨hlength, fun hp => h _ hp⟩
      dsimp only [createSelectionInternal]
      rcases forall₂_getElem? hall index.toNat with ⟨hnone, hnone'⟩ | ⟨v, v', hv, hv', h⟩
      · rw [hnone, hnone', hlength]
        exact Lookups.relator.throw rfl
      · rw [hv, hv']
        exact Lookups.relator.pure fun _ hw => h.mono hw.1 hw.2
  | lambda => exact Lookups.relator.throw rfl
  | intrinsic => exact Lookups.relator.throw rfl

end ControlFlowExecutor

end

/-! ## The evaluator -/

/-- The knot does the same in scopes that agree on the names, on values that are alike. Calls without an
argument do so if all names are among them. -/
structure Knot.Likewise (N : Set String) (k : Knot InlineState) : Prop where
  evaluate : ∀ {v B scope scope' w}, v.Over N B → Scope.Likewise N (N ∪ B) w.1 w.2 scope scope' →
    Lookups.Simulates w (Lookups.Alike N) (k.evaluate v scope) (k.evaluate v scope')
  createCall : ∀ {f f' a a' w}, Lookups.Alike N w f f' → Option.Rel (Lookups.Alike N w) a a' →
    (a = none → ∀ x, x ∈ N) →
      Lookups.Simulates w (Lookups.Alike N) (k.createCall f a) (k.createCall f' a')

namespace ControlFlowExecutor

section

variable [ProtoText] {handlers : IntrinsicHandlerSet} {w : InlineState × InlineState}
  {k : Knot InlineState} (hk : k.Likewise N)

include hk

variable (handlers) in
/-- A handler finds in its scope what it would have found in the other. -/
theorem context_likewise (hscope : scope.Likewise N N w.1 w.2 scope') :
    ((localExecutor handlers).context k scope).Related Lookups.relator (∀ x, x ∈ N) (Value.ClosedOver N)
      (Lookups.Alike N) w ((localExecutor handlers).context k scope') where
  keeps hw h := h.mono hw.1 hw.2
  createValue {w' v} hw hv := by
    show Lookups.Simulates w' _ (if hasComputation v then _ else _) (if hasComputation v then _ else _)
    split
    · exact hk.evaluate hv ((hscope.mono hw.1 hw.2).subset (Set.union_empty N).subset)
    · next hcomputation =>
        cases v with
        | scalar => exact createChildValue_likewise hv
        | notSet => exact Lookups.relator.throw rfl
        | _ => exact absurd rfl hcomputation
  createCall _ hf ha habsent := hk.createCall hf ha habsent
  createStruct _ hvs :=
    Lookups.relator.pure fun _ hw => .struct' (hvs.imp fun _ _ h => h.mono hw.1 hw.2)
  materialize output _ hv houtput := constMaterialize_likewise hv houtput

theorem constCreateCallStep_likewise (hhandlers : ∀ handler ∈ handlers, handler.Keeps (Value.ClosedOver N))
    (fuel : Nat) {f f' : ExecutorValue} {a a' : Option ExecutorValue} (hf : Lookups.Alike N w f f')
    (ha : Option.Rel (Lookups.Alike N w) a a') (habsent : a = none → ∀ x, x ∈ N) :
    Lookups.Simulates w (Lookups.Alike N) ((localExecutor handlers).constCreateCallStep fuel k f a)
      ((localExecutor handlers).constCreateCallStep fuel k f' a') := by
  cases hf with
  | embedded h h' hr => exact callEmbedded_likewise hhandlers (.embedded h h' hr) ha
  | struct => exact Lookups.relator.throw rfl
  | @lambda lambdaPb scope scope' hbody halive halive' hbound h =>
      have hscope : scope.Likewise N N w.1 w.2 scope' := ⟨halive, halive', hbound, h⟩
      cases ha with
      | some ha =>
          refine hk.evaluate hbody ((hscope.cons ha).subset ?_)
          rw [Set.union_comm, Set.singleton_union]
      | none =>
          -- then the parameter is looked up in the scope
          exact hk.evaluate hbody (hscope.subset fun x _ => habsent rfl x)
  | @intrinsic intr handler scope scope' hparameter hkeeps halive halive' hbound h =>
      have hscope : scope.Likewise N N w.1 w.2 scope' := ⟨halive, halive', hbound, h⟩
      have hargument : a.isSome = a'.isSome := by cases ha <;> rfl
      show Lookups.Simulates w _ (_ >>= _) (_ >>= _)
      rw [hargument]
      refine Lookups.relator.bind (R := fun _ i i' => i = i' ∧ i.Keeps (Value.ClosedOver N))
        (Lookups.relator.ofExcept fun _ _ => ?_) fun w₁ h₁ interface _ => ?_
      · unfold IntrinsicHandler.Keeps at hkeeps
        unfold IntrinsicHandler.getControlFlowInterface
        cases h : handler.interface with
        | inline => exact rfl
        | controlFlow =>
          rw [h] at hkeeps
          exact ⟨rfl, hkeeps⟩
      · rintro ⟨rfl, hinterface⟩
        refine Lookups.relator.bind (Lookups.relator.tell _) fun w₂ h₂ _ _ _ => ?_
        have h₀₂ := h₁.trans h₂
        have hgood : intr.parameter.ClosedOver N := by
          unfold Intrinsic.parameter
          cases hs : intr.staticParameter with
          | none => exact .notSet
          | some v => exact hparameter v hs
        refine ControlFlowHandler.executeCall_related
          (context_likewise handlers hk (hscope.mono h₀₂.1 h₀₂.2)) Value.closedOver_inherited fuel
          hinterface hgood
          ?_ habsent
        cases ha with
        | some ha => exact .some (ha.mono h₀₂.1 h₀₂.2)
        | none => exact .none

/-! ### One kind of IR each -/

omit [ProtoText] in
/-- The locals are bound alike, one after the other. -/
theorem evaluateLocals_likewise (names : String) {m : Meta} {result : Value} :
    ∀ {locals : List (String × Value)} {B : Set String} {scope scope' : Scope}
      {w : InlineState × InlineState}, (Value.block m locals result).Over N B →
      scope.Likewise N (N ∪ B) w.1 w.2 scope' →
      Lookups.Simulates w (fun w scope scope' => ∃ B, result.Over N B ∧ scope.Likewise N (N ∪ B) w.1 w.2 scope')
        (evaluateLocals k names locals scope) (evaluateLocals k names locals scope')
  | [], B, _, _, _, h, hscope => by
      cases h with
      | block_nil h => exact Lookups.relator.pure fun _ hw => ⟨B, h, hscope.mono hw.1 hw.2⟩
  | (name, localPb) :: locals, B, _, _, w, h, hscope => by
      cases h with
      | block_cons hlocal h =>
          have hfirst := (hk.evaluate hlocal hscope).mapError
            (f := (Status.withSuffix ·
              ("while evaluating local [" ++ name ++ "] in block locals [" ++ names ++ "]")))
            (g := (Status.withSuffix ·
              ("while evaluating local [" ++ name ++ "] in block locals [" ++ names ++ "]")))
            fun _ _ he => he
          refine Lookups.relator.bind hfirst fun w₁ h₁ v v' hv => ?_
          refine evaluateLocals_likewise names h ?_
          -- the local is bound alike from here on
          rw [Set.union_insert]
          exact (hscope.mono h₁.1 h₁.2).cons hv

omit [ProtoText] in
theorem evaluateBlock_likewise {m : Meta} {locals : List (String × Value)} {result : Value}
    {B : Set String} (h : (Value.block m locals result).Over N B)
    (hscope : scope.Likewise N (N ∪ B) w.1 w.2 scope') :
    Lookups.Simulates w (Lookups.Alike N) (evaluateBlock k locals result scope)
      (evaluateBlock k locals result scope') := by
  refine Lookups.relator.bind (evaluateLocals_likewise hk _ h hscope) fun w₁ h₁ scope scope' => ?_
  rintro ⟨B', hresult, hscope⟩
  exact hk.evaluate hresult hscope

omit [ProtoText] in
theorem evaluateElements_likewise {B : Set String} : ∀ {elements : List Value} {scope scope' : Scope}
    {w : InlineState × InlineState}, (∀ e ∈ elements, e.Over N B) →
      scope.Likewise N (N ∪ B) w.1 w.2 scope' →
      Lookups.Simulates w (fun w => List.Forall₂ (Lookups.Alike N w)) (evaluateElements k elements scope)
        (evaluateElements k elements scope')
  | [], _, _, _, _, _ => Lookups.relator.pure fun _ _ => .nil
  | _ :: _, _, _, _, h, hscope => by
      obtain ⟨he, hes⟩ := List.forall_mem_cons.mp h
      refine Lookups.relator.bind (hk.evaluate he hscope) fun w₁ h₁ _ _ hv => ?_
      refine Lookups.relator.bind (evaluateElements_likewise hes (hscope.mono h₁.1 h₁.2))
        fun w₂ h₂ _ _ hvs => ?_
      refine Lookups.relator.pure fun w₃ h₃ => .cons ?_ (hvs.imp fun _ _ h => h.mono h₃.1 h₃.2)
      exact hv.mono (h₂.trans h₃).1 (h₂.trans h₃).2

omit [ProtoText] hk in
/-- What is found in one scope is found in the other; the errors show the scopes. -/
theorem evaluateReference_likewise {name : String} (hscope : scope.Likewise N M w.1 w.2 scope')
    (hname : name ∈ M) : Lookups.Simulates w (Lookups.Alike N) (evaluateReference name scope)
      (evaluateReference name scope') := by
  have hresolved : Lookups.Simulates w (Lookups.Alike N) (Run.ofExcept (scope.resolve name))
      (Run.ofExcept (scope'.resolve name)) := by
    refine Lookups.relator.ofExcept fun w' hw => ?_
    rcases hv : scope.resolve name with e | v <;> rcases hv' : scope'.resolve name with e' | v'
    · exact Scope.sameCode_of_resolve hv hv'
    · obtain ⟨v, hbound⟩ := (hscope.bound name hname).mpr ⟨v', hv'⟩
      rw [hv] at hbound
      cases hbound
    · obtain ⟨v', hbound⟩ := (hscope.bound name hname).mp ⟨v, hv⟩
      rw [hv'] at hbound
      cases hbound
    · exact (hscope.values name hname v v' hv hv').mono hw.1 hw.2
  exact hresolved.mapError fun _ _ he => he

omit hk

variable (hhandlers : ∀ handler ∈ handlers, handler.Keeps (Value.ClosedOver N))

include hhandlers

theorem evaluateIntrinsic_likewise {m : Meta} {uri : String} {staticParameter : Option Value}
    (h : ∀ v ∈ staticParameter, v.ClosedOver N) (hscope : scope.Likewise N N w.1 w.2 scope') :
    Lookups.Simulates w (Lookups.Alike N)
      ((localExecutor handlers).evaluateIntrinsic (.intrinsic m uri staticParameter) ⟨uri, staticParameter⟩
        scope)
      ((localExecutor handlers).evaluateIntrinsic (.intrinsic m uri staticParameter) ⟨uri, staticParameter⟩
        scope') := by
  refine Lookups.relator.bind (R := fun _ i i' => i = i' ∧ i.Keeps (Value.ClosedOver N))
    (Lookups.relator.ofExcept fun _ _ => ?_) fun w₁ h₁ handler _ => ?_
  · show Except.Related _ _ (handlers.getHandler uri) (handlers.getHandler uri)
    cases hget : handlers.getHandler uri with
    | error e => exact rfl
    | ok handler => exact ⟨rfl, hhandlers handler (IntrinsicHandlerSet.mem_of_getHandler hget)⟩
  · rintro ⟨rfl, hkeeps⟩
    -- the check does not look at the scope
    refine Lookups.relator.bind_same (runCheckWellFormed_related _ handler _) fun w₂ h₂ _ => ?_
    cases handler.interface with
    | inline => exact createChildValue_likewise (.intrinsic h)
    | controlFlow =>
        refine Lookups.relator.bind_same (runCheckWellFormed_related _ handler _) fun w₃ h₃ _ => ?_
        refine Lookups.relator.pure fun w₄ h₄ => ?_
        have hle := ((h₁.trans h₂).trans h₃).trans h₄
        exact .intrinsic' h hkeeps (hscope.mono hle.1 hle.2)

include hk in
theorem evaluateStep_likewise {v : Value} {B : Set String} (hv : v.Over N B)
    (hscope : scope.Likewise N (N ∪ B) w.1 w.2 scope') :
    Lookups.Simulates w (Lookups.Alike N) ((localExecutor handlers).evaluateStep k v scope)
      ((localExecutor handlers).evaluateStep k v scope') := by
  -- closures and intrinsics take along the captured names only
  have hcaptured : scope.Likewise N N w.1 w.2 scope' := hscope.subset Set.subset_union_left
  cases hv with
  | notSet => exact createChildValue_likewise .notSet
  | scalar => exact createChildValue_likewise .scalar
  | @call _ m function argument hf ha habsent =>
      refine Lookups.relator.bind (hk.evaluate hf hscope) fun w₁ h₁ _ _ hf => ?_
      cases argument with
      | none => exact hk.createCall hf .none fun _ => habsent rfl
      | some argument =>
          refine Lookups.relator.bind (hk.evaluate (ha argument rfl) (hscope.mono h₁.1 h₁.2))
            fun w₂ h₂ _ _ ha => ?_
          exact hk.createCall (hf.mono h₂.1 h₂.2) (.some ha) fun hnone => (nomatch hnone)
  | lambda h =>
      exact Lookups.relator.pure fun _ hw => .lambda' h (hcaptured.mono hw.1 hw.2)
  | reference h => exact evaluateReference_likewise hscope h
  | struct h =>
      exact Lookups.relator.bind (evaluateElements_likewise hk h hscope) fun _ _ _ _ hvs =>
        Lookups.relator.pure fun _ hw => .struct' (hvs.imp fun _ _ h => h.mono hw.1 hw.2)
  | selection h =>
      exact Lookups.relator.bind (hk.evaluate h hscope) fun _ _ _ _ hv =>
        createSelectionInternal_likewise hv _
  | @block_nil _ m _ h => exact evaluateBlock_likewise hk (.block_nil (m := m) h) hscope
  | block_cons hlocal h => exact evaluateBlock_likewise hk (.block_cons hlocal h) hscope
  | intrinsic h => exact evaluateIntrinsic_likewise hhandlers h hcaptured

/-- **IR over the names does the same in scopes that agree on them**, and so do calls. -/
theorem knot_likewise : ∀ fuel : Nat, ((localExecutor handlers).knot fuel).Likewise N
  | 0 => ⟨fun _ _ => Lookups.relator.outOfFuel, fun _ _ _ => Lookups.relator.outOfFuel⟩
  | fuel + 1 =>
      ⟨fun hv hscope => evaluateStep_likewise (knot_likewise fuel) hhandlers hv hscope,
        fun hf ha habsent =>
          constCreateCallStep_likewise (knot_likewise fuel) hhandlers fuel hf ha habsent⟩

end

end ControlFlowExecutor

end GenC
