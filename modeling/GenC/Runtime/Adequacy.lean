import GenC.Runtime.Evaluation
import GenC.Runtime.Program

/-!
# Adequacy of the evaluator

Whatever piece of data a closed program evaluates to by substitution, the local stack computes it
with environments (`adequacy`).

The proof is a simulation. `Rep` relates the closed values of the calculus to the four
representations of the evaluator: data to an embedded id or a structure, an intrinsic to an
embedded id, and a function to a closure whose scope represents a substitution.
-/

namespace GenC

open Lib

/-! ## Representation -/

/-- An evaluator's value represents a closed value of the calculus, in a state of the child. -/
inductive Rep (handlers : IntrinsicHandlerSet) (s : InlineState) : Program → ExecutorValue → Prop where
  | scalar {id : ValueId} {v : Value} {c : Scalar}
      (h : s.table.trackedValues id = some (.ok v)) (hv : v.toData = some (.scalar c)) :
      Rep handlers s (.const c) (.embedded id)
  | data {id : ValueId} {v : Value} {ds : List (Data Scalar)}
      (h : s.table.trackedValues id = some (.ok v)) (hv : v.toData = some (.tuple ds)) :
      Rep handlers s (.tuple (Term.ofDataAll ds)) (.embedded id)
  | prim {id : ValueId} {m : Meta} {uri : String} {staticParameter : Option Value}
      {interface : InlineHandler}
      (h : s.table.trackedValues id = some (.ok (.intrinsic m uri staticParameter)))
      (hi : handlers.inlineHandler? ⟨uri, staticParameter⟩ = some interface) :
      Rep handlers s (.prim ⟨uri, staticParameter⟩) (.embedded id)
  | struct_nil : Rep handlers s (.tuple []) (.struct [])
  | struct_cons {t : Program} {ts : List Program} {v : ExecutorValue} {vs : List ExecutorValue}
      (hv : Rep handlers s t v) (hvs : Rep handlers s (.tuple ts) (.struct vs)) :
      Rep handlers s (.tuple (t :: ts)) (.struct (v :: vs))
  | lambda {x : String} {b : Value} {eb : Program} {γ : Term.Subst Intrinsic Scalar} {scope : Scope}
      (hb : b.toTerm handlers = some eb)
      (hclosed : (Term.lam x (eb.close (Function.update γ x none))).Closed)
      (hresolve : ∀ y t, γ y = some t → ∃ v, scope.resolve y = .ok v)
      (hrep : ∀ y t v, γ y = some t → scope.resolve y = .ok v → Rep handlers s t v) :
      Rep handlers s (.lam x (eb.close (Function.update γ x none))) (.lambda ⟨x, b⟩ scope)

/-- A scope represents a substitution. -/
def RepScope (handlers : IntrinsicHandlerSet) (s : InlineState) (γ : Term.Subst Intrinsic Scalar)
    (scope : Scope) : Prop :=
  ∀ x t, γ x = some t → ∃ v, scope.resolve x = .ok v ∧ Rep handlers s t v

namespace Rep

variable {handlers : IntrinsicHandlerSet} {s s' : InlineState} {t : Program} {v : ExecutorValue}

theorem grows (h : Rep handlers s t v) (hs : s.Grows s') : Rep handlers s' t v := by
  induction h with
  | scalar h hv => exact .scalar (hs.kept h) hv
  | data h hv => exact .data (hs.kept h) hv
  | prim h hi => exact .prim (hs.kept h) hi
  | struct_nil => exact .struct_nil
  | struct_cons _ _ ihv ihvs => exact .struct_cons ihv ihvs
  | lambda hb hclosed hresolve _ ih => exact .lambda hb hclosed hresolve ih

/-- Only closed terms are represented. -/
theorem closed (h : Rep handlers s t v) : t.Closed := by
  induction h with
  | @scalar id v c => exact Term.closed_ofData (.scalar c)
  | @data id v ds => exact Term.closed_ofData (.tuple ds)
  | prim => intro x hx; cases hx
  | struct_nil =>
      intro x hx
      cases hx with
      | tuple he => cases he
  | struct_cons _ _ ihv ihvs =>
      intro x hx
      cases hx with
      | tuple he hx =>
          rcases List.mem_cons.mp he with rfl | he
          · exact ihv x hx
          · exact ihvs x (.tuple he hx)
  | lambda _ hclosed => exact hclosed

theorem isValue (h : Rep handlers s t v) : t.IsValue := by
  induction h with
  | @scalar id v c => exact .const
  | @data id v ds => exact Term.isValue_ofData (.tuple ds)
  | prim => exact .prim
  | struct_nil => exact .tuple (by simp)
  | struct_cons _ _ ihv ihvs =>
      cases ihvs with
      | tuple h => exact .tuple (List.forall_mem_cons.mpr ⟨ihv, h⟩)
  | lambda => exact .lam

/-- A tracked piece of data represents itself. -/
theorem embedded {id : ValueId} {w : Value} {d : Data Scalar}
    (h : s.table.trackedValues id = some (.ok w)) (hw : w.toData = some d) :
    Rep handlers s (Term.ofData d) (.embedded id) := by
  cases d with
  | scalar c => exact .scalar h hw
  | tuple ds => exact .data h hw

end Rep

namespace RepScope

variable {handlers : IntrinsicHandlerSet} {s s' : InlineState} {γ : Term.Subst Intrinsic Scalar}
  {scope : Scope}

theorem grows (h : RepScope handlers s γ scope) (hs : s.Grows s') :
    RepScope handlers s' γ scope := by
  intro x t ht
  obtain ⟨v, hv, hrep⟩ := h x t ht
  exact ⟨v, hv, hrep.grows hs⟩

theorem closed (h : RepScope handlers s γ scope) : Term.ClosedSubst γ := by
  intro x t ht
  obtain ⟨v, _, hrep⟩ := h x t ht
  exact hrep.closed

/-- Binding a name hides the outer bindings of that name, and no others. -/
theorem cons (h : RepScope handlers s γ scope) {x : String} {u : Program} {v : ExecutorValue}
    (hv : Rep handlers s u v) :
    RepScope handlers s (Function.update γ x (some u)) ((x, v) :: scope) := by
  intro y t ht
  by_cases hy : y = x
  · subst hy
    rw [Function.update_self] at ht
    cases ht
    exact ⟨v, if_pos rfl, hv⟩
  · rw [Function.update_of_ne hy] at ht
    obtain ⟨w, hw, hrep⟩ := h y t ht
    exact ⟨w, (if_neg (Ne.symm hy)).trans hw, hrep⟩

end RepScope

/-! ## Data in the child -/

/-- The child holds the data `d` under `id`. -/
def Holds (s : InlineState) (id : ValueId) (d : Data Scalar) : Prop :=
  ∃ v, s.table.trackedValues id = some (.ok v) ∧ v.toData = some d

theorem Holds.grows {s s' : InlineState} {id : ValueId} {d : Data Scalar} (h : Holds s id d)
    (hs : s.Grows s') : Holds s' id d := by
  obtain ⟨v, hv, hd⟩ := h
  exact ⟨v, hs.kept hv, hd⟩

namespace Rep

variable {handlers : IntrinsicHandlerSet} {s : InlineState} {v : ExecutorValue}

/-- Data is represented in the child, or field by field. -/
theorem of_data {d : Data Scalar} (h : Rep handlers s (Term.ofData d) v) :
    (∃ id, v = .embedded id ∧ Holds s id d) ∨
      ∃ vs ds, v = .struct vs ∧ d = .tuple ds ∧
        Rep handlers s (.tuple (Term.ofDataAll ds)) (.struct vs) := by
  -- the term is an index of the relation, so it is made a variable first
  generalize ht : (Term.ofData d : Program) = t at h
  -- structures of handles represent tuples, and only those
  have htuple : ∀ {ts}, Term.ofData d = (.tuple ts : Program) → ∃ ds, d = .tuple ds ∧
      ts = Term.ofDataAll ds := by
    intro ts hts
    cases d with
    | scalar => cases hts
    | tuple ds => exact ⟨ds, rfl, (Term.tuple.inj hts).symm⟩
  cases h with
  | @scalar id v c h hv =>
      have hd : d = .scalar c := Term.ofData_injective ht
      exact .inl ⟨id, rfl, v, h, hd ▸ hv⟩
  | @data id v ds h hv =>
      have hd : d = .tuple ds := Term.ofData_injective ht
      exact .inl ⟨id, rfl, v, h, hd ▸ hv⟩
  | prim => cases d <;> cases ht
  | struct_nil =>
      obtain ⟨ds, rfl, hds⟩ := htuple ht
      exact .inr ⟨_, ds, rfl, rfl, hds ▸ .struct_nil⟩
  | struct_cons hv hvs =>
      obtain ⟨ds, rfl, hds⟩ := htuple ht
      exact .inr ⟨_, ds, rfl, rfl, hds ▸ .struct_cons hv hvs⟩
  | lambda => cases d <;> cases ht

theorem struct_nil_inv {ts : List Program} (h : Rep handlers s (.tuple ts) (.struct [])) :
    ts = [] := by
  cases h with
  | struct_nil => rfl

theorem struct_cons_inv {ts : List Program} {vs : List ExecutorValue}
    (h : Rep handlers s (.tuple ts) (.struct (v :: vs))) :
    ∃ t ts', ts = t :: ts' ∧ Rep handlers s t v ∧ Rep handlers s (.tuple ts') (.struct vs) := by
  cases h with
  | struct_cons hv hvs => exact ⟨_, _, rfl, hv, hvs⟩

/-- A field of a represented struct is represented. -/
theorem getElem? : ∀ {i : Nat} {ts : List Program} {vs : List ExecutorValue}
    {t : Program}, Rep handlers s (.tuple ts) (.struct vs) → ts[i]? = some t →
      ∃ v, vs[i]? = some v ∧ Rep handlers s t v
  | i, ts, [], t, h, ht => by
      rw [h.struct_nil_inv] at ht
      cases ht
  | i, ts, v :: vs, t, h, ht => by
      obtain ⟨t', ts', rfl, hv, hvs⟩ := h.struct_cons_inv
      cases i with
      | zero => cases ht; exact ⟨v, rfl, hv⟩
      | succ i =>
          obtain ⟨w, hw, hrep⟩ := getElem? hvs ht
          exact ⟨w, hw, hrep⟩

end Rep

/-- The data held under the ids of a struct's fields makes up the struct. -/
theorem Holds.struct {s : InlineState} {ids : List ValueId} {ds : List (Data Scalar)}
    (h : List.Forall₂ (Holds s) ids ds) : ∃ vs,
      List.Forall₂ (fun id v => s.table.trackedValues id = some (.ok v)) ids vs ∧
      (Value.struct {} vs).toData = some (.tuple ds) := by
  induction h with
  | nil => exact ⟨[], .nil, rfl⟩
  | cons hheld _ ih =>
      obtain ⟨v, hv, hd⟩ := hheld
      obtain ⟨vs, hvs, hds⟩ := ih
      refine ⟨v :: vs, .cons hv hvs, ?_⟩
      obtain ⟨ds', hds', heq⟩ := Option.map_eq_some_iff.mp hds
      cases heq
      rw [Value.toData, Value.toData.toDataAll, hd, hds']
      rfl

/-- The slots of temporaries made since the state whose next id was `n`. -/
def SlotsSince (n : ValueId) (slots : List ValueId) (s : InlineState) : Prop :=
  ∀ id ∈ slots, n ≤ id ∧ id < s.table.nextValueId

theorem SlotsSince.grows {n : ValueId} {slots : List ValueId} {s s' : InlineState}
    (h : SlotsSince n slots s) (hs : s.table.nextValueId ≤ s'.table.nextValueId) :
    SlotsSince n slots s' :=
  fun id hid => ⟨(h id hid).1, (h id hid).2.trans_le hs⟩

/-- Releasing temporaries made since `s` does not touch what `s` tracks. -/
theorem grows_of_released {slots : List ValueId} {s s₁ s₂ : InlineState} (hs : s.Grows s₁)
    (hslots : SlotsSince s.table.nextValueId slots s₁)
    (hnext : s₁.table.nextValueId = s₂.table.nextValueId)
    (hkept : ∀ id, id ∉ slots → s₂.table.trackedValues id = s₁.table.trackedValues id) :
    s.Grows s₂ where
  next := hnext ▸ hs.next
  kept {id v} hid := by
    rw [hkept id fun hmem => ?_]
    · exact hs.kept hid
    · exact absurd (HandleTable.lt_nextValueId hid) (Nat.not_lt.mpr (hslots id hmem).1)

/-! ### Embedding -/

section

variable [ProtoText] (handlers : IntrinsicHandlerSet)

mutual

/-- Data is embedded as data, with a temporary for each structure. -/
theorem embed_returns : ∀ (v : ExecutorValue) {s : InlineState} {d : Data Scalar},
    Rep handlers s (Term.ofData d) v → ∃ id slot s',
      Run.Returns ((localExecutor handlers).embed v) s (id, slot) s' ∧ s.Grows s' ∧
      SlotsSince s.table.nextValueId slot.toList s' ∧ Holds s' id d
  | .embedded id, s, d, h => by
      rcases h.of_data with ⟨_, ⟨⟩, hd⟩ | ⟨_, _, hv, _⟩
      case inr => cases hv
      exact ⟨id, none, s, .pure _ _, .refl s, by rintro _ ⟨⟩, hd⟩
  | .struct vs, s, d, h => by
      rcases h.of_data with ⟨_, hv, _⟩ | ⟨_, ds, ⟨⟩, rfl, hds⟩
      case inl => cases hv
      obtain ⟨ids, slots, s₁, hfields, hgrows, hslots, hids⟩ :=
        embedFields_returns vs hds (Nat.le_refl _) (fun _ h => absurd h List.not_mem_nil) .nil
      obtain ⟨ws, hws, hdata⟩ := Holds.struct hids
      -- the struct is created from the values of its fields, and their slots are released
      have hcreate := InlineExecutor.createStruct_returns handlers hws
      obtain ⟨s₂, hrelease, hnext, hkept⟩ :=
        Executor.releasing_returns (InlineExecutor.impl handlers) slots hcreate
      have hgrows' := hgrows.trans (s₁.grows_track (.ok (.struct {} ws)))
      refine ⟨s₁.table.nextValueId, some s₁.table.nextValueId, s₂,
        hfields.bind (hrelease.bind (.pure _ _)),
        grows_of_released hgrows' (hslots.grows (Nat.le_succ _)) hnext hkept, ?_, ?_⟩
      · intro id hid
        rw [List.mem_singleton.mp hid, ← hnext]
        exact ⟨hgrows.next, Nat.lt_succ_self _⟩
      · refine ⟨_, ?_, hdata⟩
        rw [hkept _ fun hmem => absurd (hslots _ hmem).2 (Nat.lt_irrefl _)]
        exact s₁.tracked_track _
  | .lambda lambdaPb scope, s, d, h => by
      rcases h.of_data with ⟨_, hv, _⟩ | ⟨_, _, hv, _⟩ <;> cases hv
  | .intrinsic intr handler scope, s, d, h => by
      rcases h.of_data with ⟨_, hv, _⟩ | ⟨_, _, hv, _⟩ <;> cases hv

theorem embedFields_returns : ∀ (vs : List ExecutorValue) {n : ValueId} {s : InlineState}
    {ds ds₀ : List (Data Scalar)} {ids slots : List ValueId},
    Rep handlers s (.tuple (Term.ofDataAll ds)) (.struct vs) → n ≤ s.table.nextValueId →
    SlotsSince n slots s → List.Forall₂ (Holds s) ids ds₀ → ∃ ids' slots' s',
      Run.Returns ((localExecutor handlers).embedFields vs ids slots) s (ids', slots') s' ∧
      s.Grows s' ∧ SlotsSince n slots' s' ∧ List.Forall₂ (Holds s') ids' (ds₀ ++ ds)
  | [], n, s, ds, ds₀, ids, slots, h, _, hslots, hids => by
      obtain rfl : ds = [] := by
        cases ds with
        | nil => rfl
        | cons => cases h.struct_nil_inv
      rw [List.append_nil]
      exact ⟨ids, slots, s, .pure _ _, .refl s, hslots, hids⟩
  | v :: vs, n, s, ds, ds₀, ids, slots, h, hn, hslots, hids => by
      obtain ⟨t, ts, heq, hv, hvs⟩ := h.struct_cons_inv
      obtain ⟨d, ds', rfl, rfl, rfl⟩ : ∃ d ds', ds = d :: ds' ∧ t = Term.ofData d ∧
          ts = Term.ofDataAll ds' := by
        cases ds with
        | nil => cases heq
        | cons d ds' => cases heq; exact ⟨d, ds', rfl, rfl, rfl⟩
      obtain ⟨id, slot, s₁, hembed, hgrows, hslot, hid⟩ := embed_returns v hv
      have hids₁ : List.Forall₂ (Holds s₁) (ids ++ [id]) (ds₀ ++ [d]) :=
        List.rel_append (hids.imp fun _ _ h => h.grows hgrows) (.cons hid .nil)
      -- a slot that is new for the first field is to be released as well
      have hslots₁ : SlotsSince n (slots ++ slot.toList) s₁ := by
        intro i hi
        rcases List.mem_append.mp hi with hi | hi
        · exact hslots.grows hgrows.next i hi
        · exact ⟨hn.trans (hslot i hi).1, (hslot i hi).2⟩
      obtain ⟨ids', slots', s', hfields, hgrows', hslots', hids'⟩ :=
        embedFields_returns vs (hvs.grows hgrows) (hn.trans hgrows.next) hslots₁ hids₁
      refine ⟨ids', slots', s', hembed.attempt.bind hfields, hgrows.trans hgrows', hslots', ?_⟩
      rwa [List.append_assoc] at hids'

end

/-! ## Calls and selections -/

/-- The inline executor applies an intrinsic to data as its handler does. -/
theorem callTask_returns {m : Meta} {uri : String} {staticParameter : Option Value}
    {interface : InlineHandler} {arg r : Value}
    (hi : handlers.inlineHandler? ⟨uri, staticParameter⟩ = some interface)
    (hr : interface.executeCall ⟨uri, staticParameter⟩ arg = some (.ok r)) :
    Run.Returns (InlineExecutor.callTask handlers (.intrinsic m uri staticParameter) arg) () r () := by
  obtain ⟨handler, hget, hinterface, hwf⟩ := inlineHandler?_eq_some hi
  refine (Run.Returns.ofExcept hget ()).bind (Run.Returns.bind (a := ()) (t := ()) ?_ ?_)
  · refine (Run.Returns.tell _ ()).bind ?_
    rw [IntrinsicHandler.checkWellFormed, hinterface]
    rw [show Checked.run (interface.checkWellFormed ⟨uri, staticParameter⟩) =
      Checked.run (some (.ok ())) from congrArg _ hwf]
    exact .ofExcept rfl ()
  · have hget' : handler.getInlineInterface = .ok interface := by
      rw [IntrinsicHandler.getInlineInterface, hinterface]
    refine (Run.Returns.ofExcept hget' ()).bind ((Run.Returns.tell _ ()).bind ?_)
    rw [hr]
    exact .ofExcept rfl ()

/-- Applying a represented intrinsic to represented data. -/
theorem callEmbedded_returns {δ : Intrinsic → Data Scalar → Option (Data Scalar)}
    (hδ : Interprets handlers δ) {s : InlineState} {intr : Intrinsic} {f a : ExecutorValue}
    {d d' : Data Scalar} (hf : Rep handlers s (.prim intr) f) (ha : Rep handlers s (Term.ofData d) a)
    (hd : δ intr d = some d') : ∃ r s', (localExecutor handlers).Calls f a s r s' ∧ s.Grows s' ∧
      Rep handlers s' (Term.ofData d') r := by
  cases hf with
  | @prim id m uri staticParameter interface h hi =>
      -- The argument is embedded, the child is called, and the temporary handle of the argument let go.
      obtain ⟨aid, slot, s₁, hembed, hgrows, hslot, w, hw, hwd⟩ := embed_returns handlers a ha
      obtain ⟨r, hr, hrd⟩ := hδ _ _ _ hd _ hi w hwd
      have hcall := InlineExecutor.createCall_returns handlers (hgrows.kept h) hw
        (callTask_returns handlers (m := m) hi hr)
      obtain ⟨s₂, hrelease, hnext, hkept⟩ :=
        Executor.releasing_returns (InlineExecutor.impl handlers) slot.toList hcall
      have hgrows' := hgrows.trans (s₁.grows_track (.ok r))
      refine ⟨.embedded s₁.table.nextValueId, s₂, .embedded ?_, grows_of_released hgrows'
        (hslot.grows (Nat.le_succ _)) hnext hkept, Rep.embedded (w := r) ?_ hrd⟩
      · exact hembed.bind (hrelease.bind (.pure _ _))
      -- the handle of the result is younger than the one that was let go
      · rw [hkept _ fun hmem => absurd (hslot _ hmem).2 (Nat.lt_irrefl _)]
        exact s₁.tracked_track _

theorem createSelection_returns {s : InlineState} {ts : List Program} {t : Program}
    {v : ExecutorValue} {index : Int32} (hv : Rep handlers s (.tuple ts) v)
    (hi : 0 ≤ index.toInt) (ht : ts[index.toInt.toNat]? = some t) :
    ∃ r s', Run.Returns ((localExecutor handlers).createSelectionInternal v index.toUInt32) s r s' ∧
      s.Grows s' ∧ Rep handlers s' t r := by
  rw [← toUInt32_toNat_of_nonneg hi] at ht
  -- An embedded structure is selected from by the child, a structure of handles by the executor.
  cases v with
  | embedded id =>
      cases hv with
      | @data id w ds h hw =>
          rw [Term.ofDataAll_eq_map, List.getElem?_map] at ht
          obtain ⟨d, hd, rfl⟩ := Option.map_eq_some_iff.mp ht
          cases w with
          | struct m es =>
              obtain ⟨ds', hds, heq⟩ := Option.map_eq_some_iff.mp hw
              cases heq
              obtain ⟨e, he, hed⟩ := toDataAll_getElem? hds hd
              refine ⟨.embedded s.table.nextValueId, s.track (.ok e), ?_, s.grows_track _,
                Rep.embedded (s.tracked_track _) hed⟩
              exact (InlineExecutor.createSelection_returns handlers h he).bind (.pure _ _)
          | _ => cases hw
  | struct vs =>
      obtain ⟨r, hr, hrep⟩ := hv.getElem? ht
      refine ⟨r, s, ?_, .refl s, hrep⟩
      rw [ControlFlowExecutor.createSelectionInternal, hr]
      exact .pure _ _
  | lambda lambdaPb scope => cases hv
  | intrinsic intr handler scope => cases hv

/-! ## The simulation -/

/-- `v` evaluates to a representation of `t`, in every scope under which it stands for `e`. -/
def Simulates (v : Value) (e t : Program) : Prop :=
  ∀ {p : Program} {γ : Term.Subst Intrinsic Scalar} {scope : Scope} {s : InlineState},
    v.toTerm handlers = some p → p.close γ = e → RepScope handlers s γ scope →
      ∃ r s', (localExecutor handlers).Evaluates v scope s r s' ∧ s.Grows s' ∧ Rep handlers s' t r

/-- The same for the values that `Shape` covers. -/
def SimulatesShaped (e t : Program) : Prop :=
  ∀ (v : Value) (p : Program) (γ : Term.Subst Intrinsic Scalar) (scope : Scope) (s : InlineState),
    Shape handlers v p → p.close γ = e → RepScope handlers s γ scope →
      ∃ r s', (localExecutor handlers).Evaluates v scope s r s' ∧ s.Grows s' ∧ Rep handlers s' t r

variable {handlers} {δ : Intrinsic → Data Scalar → Option (Data Scalar)}

/-- A reference is looked up, whatever it stands for, and a block without locals is its result. -/
theorem SimulatesShaped.simulates {e t : Program} (h : SimulatesShaped handlers e t)
    (heval : Term.Eval δ e t) (hclosed : e.Closed) : ∀ v : Value, Simulates handlers v e t := by
  intro v p γ scope s hp hγ hs
  -- A reference and a block without locals have no shape of their own: their term is that of something
  -- else.
  rcases shape_of_toTerm hp with htransparent | hshape
  · cases htransparent with
    | @reference m x =>
        cases hp
        cases hx : γ x with
        | none =>
            rw [Term.close, hx] at hγ
            exact (hclosed x (hγ ▸ .var)).elim
        | some u =>
            rw [Term.close, hx] at hγ
            obtain ⟨r, hr, hrep⟩ := hs x u hx
            -- what a name stands for is a value already, so it evaluates to itself
            have ht : t = e := heval.eq_of_isValue (hγ ▸ hrep.isValue)
            exact ⟨r, s, .reference hr, .refl s, ht ▸ hγ ▸ hrep⟩
    | @block m b =>
        obtain ⟨r, s', heval', hgrows, hrep⟩ := simulates h heval hclosed b hp hγ hs
        exact ⟨r, s', .block_nil heval', hgrows, hrep⟩
  · exact h _ _ _ _ _ hshape hγ hs
termination_by v => v

/-! ### One case for each rule -/

theorem simulates_const (c : Scalar) : SimulatesShaped handlers (.const c) (.const c) := by
  intro v p γ scope s hshape hγ hs
  cases hshape with
  | scalar =>
      cases hγ
      exact ⟨_, _, .child rfl (InlineExecutor.createValue_returns handlers _ s),
        s.grows_track _, .scalar (s.tracked_track _) rfl⟩
  | _ => cases hγ

theorem simulates_prim (intr : Intrinsic) : SimulatesShaped handlers (.prim intr) (.prim intr) := by
  intro v p γ scope s hshape hγ hs
  cases hshape with
  | intrinsic hi =>
      cases hγ
      obtain ⟨handler, hget, hinterface, hwf⟩ := inlineHandler?_eq_some hi
      refine ⟨_, _, .inline hget hinterface ?_ (InlineExecutor.createValue_returns handlers _ s),
        s.grows_track _, .prim (s.tracked_track _) hi⟩
      rw [IntrinsicHandler.checkWellFormed, hinterface]
      exact hwf
  | _ => cases hγ

/-- A function becomes a closure over the whole scope. -/
theorem simulates_lam {x : String} {body : Program} (hclosed : (Term.lam x body).Closed) :
    SimulatesShaped handlers (.lam x body) (.lam x body) := by
  intro v p γ scope s hshape hγ hs
  cases hshape with
  | lambda hb =>
      cases hγ
      refine ⟨_, s, .lambda, .refl s, .lambda hb hclosed (fun y t ht => ?_) fun y t v ht hv => ?_⟩
      · obtain ⟨v, hv, -⟩ := hs y t ht
        exact ⟨v, hv⟩
      · obtain ⟨w, hw, hrep⟩ := hs y t ht
        cases hv.symm.trans hw
        exact hrep
  | _ => cases hγ

/-- Applying a closure evaluates its body in its own scope, extended with the argument. -/
theorem simulates_app_lam {f a body u t : Program} {x : String}
    (hf : ∀ v, Simulates handlers v f (.lam x body)) (ha : ∀ v, Simulates handlers v a u)
    (hb : ∀ v, Simulates handlers v (Term.subst x u body) t) :
    SimulatesShaped handlers (.app f a) t := by
  intro v p γ scope s hshape hγ hs
  cases hshape with
  | call hpf hpa =>
      cases hγ
      obtain ⟨rf, s₁, hef, hg₁, hrf⟩ := hf _ hpf rfl hs
      obtain ⟨ra, s₂, hea, hg₂, hra⟩ := ha _ hpa rfl (hs.grows hg₁)
      -- the closure has to be kept alive while the argument is evaluated
      cases hrf.grows hg₂ with
      | @lambda _ b eb γ' scope' hpb _ hresolve hrep =>
          have hs' : RepScope handlers s₂ γ' scope' := fun y t ht => by
            obtain ⟨v, hv⟩ := hresolve y t ht
            exact ⟨v, hv, hrep y t v ht hv⟩
          -- what the body means in the longer scope, is the body with the argument substituted
          have hbody := Term.subst_close_hide hs'.closed x u eb
          obtain ⟨r, s₃, heb, hg₃, hr⟩ := hb _ hpb hbody.symm (hs'.cons hra)
          exact ⟨r, s₃, .call hef hea (.lambda heb), hg₁.trans (hg₂.trans hg₃), hr⟩
  | _ => cases hγ

theorem simulates_app_prim (hδ : Interprets handlers δ) {f a : Program} {intr : Intrinsic}
    {d d' : Data Scalar} (hf : ∀ v, Simulates handlers v f (.prim intr))
    (ha : ∀ v, Simulates handlers v a (Term.ofData d)) (hd : δ intr d = some d') :
    SimulatesShaped handlers (.app f a) (Term.ofData d') := by
  intro v p γ scope s hshape hγ hs
  cases hshape with
  | call hpf hpa =>
      cases hγ
      obtain ⟨rf, s₁, hef, hg₁, hrf⟩ := hf _ hpf rfl hs
      obtain ⟨ra, s₂, hea, hg₂, hra⟩ := ha _ hpa rfl (hs.grows hg₁)
      obtain ⟨r, s₃, hcall, hg₃, hr⟩ := callEmbedded_returns handlers hδ (hrf.grows hg₂) hra hd
      exact ⟨r, s₃, .call hef hea hcall, hg₁.trans (hg₂.trans hg₃), hr⟩
  | _ => cases hγ

theorem simulates_tuple_nil : SimulatesShaped handlers (.tuple []) (.tuple []) := by
  intro v p γ scope s hshape hγ hs
  cases hshape with
  | struct_nil => exact ⟨_, s, .struct_nil, .refl s, .struct_nil⟩
  | _ => cases hγ

theorem simulates_tuple_cons {e t : Program} {es ts : List Program}
    (he : ∀ v, Simulates handlers v e t)
    (hes : ∀ v, Simulates handlers v (.tuple es) (.tuple ts)) :
    SimulatesShaped handlers (.tuple (e :: es)) (.tuple (t :: ts)) := by
  intro v p γ scope s hshape hγ hs
  cases hshape with
  | struct_cons hv hvs =>
      cases hγ
      obtain ⟨r, s₁, hev, hg₁, hr⟩ := he _ hv rfl hs
      obtain ⟨rs, s₂, hevs, hg₂, hrs⟩ := hes _ hvs rfl (hs.grows hg₁)
      obtain ⟨vs, rfl⟩ := hevs.struct_inv
      exact ⟨_, s₂, .struct_cons hev hevs, hg₁.trans hg₂, .struct_cons (hr.grows hg₂) hrs⟩
  | _ => cases hγ

theorem simulates_sel {e t : Program} {ts : List Program} {i : Int}
    (he : ∀ v, Simulates handlers v e (.tuple ts)) (hi : 0 ≤ i) (ht : ts[i.toNat]? = some t) :
    SimulatesShaped handlers (.sel e i) t := by
  intro v p γ scope s hshape hγ hs
  cases hshape with
  | selection hv =>
      cases hγ
      obtain ⟨r, s₁, hev, hg₁, hr⟩ := he _ hv rfl hs
      obtain ⟨r', s₂, hsel, hg₂, hr'⟩ := createSelection_returns handlers hr hi ht
      exact ⟨r', s₂, .selection hev hsel, hg₁.trans hg₂, hr'⟩
  | _ => cases hγ

/-- The first local of a block extends the scope of the others and of the result. -/
theorem simulates_letIn {x : String} {e body u t : Program} (he : ∀ v, Simulates handlers v e u)
    (hb : ∀ v, Simulates handlers v (Term.subst x u body) t) :
    SimulatesShaped handlers (.letIn x e body) t := by
  intro v p γ scope s hshape hγ hs
  cases hshape with
  | @block _ _ _ _ _ _ eb hv hr =>
      cases hγ
      obtain ⟨ru, s₁, hev, hg₁, hru⟩ := he _ hv rfl hs
      have hbody := Term.subst_close_hide hs.closed x u eb
      obtain ⟨r, s₂, hrest, hg₂, hrep⟩ := hb _ hr hbody.symm ((hs.grows hg₁).cons hru)
      exact ⟨r, s₂, .block_cons hev hrest, hg₁.trans hg₂, hrep⟩
  | _ => cases hγ

/-! ### Every rule -/

/-- **Evaluation in a scope simulates evaluation by substitution.** -/
theorem eval_simulates (hδ : Interprets handlers δ) {e t : Program} (h : Term.Eval δ e t) :
    e.Closed → ∀ v, Simulates handlers v e t := by
  -- on the derivation of the big-step semantics, with closedness handed down to the parts
  induction h with
  | const => exact fun hc => (simulates_const _).simulates (.const (δ := δ)) hc
  | prim => exact fun hc => (simulates_prim _).simulates (.prim (δ := δ)) hc
  | lam => exact fun hc => (simulates_lam hc).simulates (.lam (δ := δ)) hc
  | app_lam hf ha hb ihf iha ihb =>
      intro hc
      have hcf : Term.Closed _ := fun y hy => hc y (.app_left hy)
      have hca : Term.Closed _ := fun y hy => hc y (.app_right hy)
      have hcb := Term.closed_subst (hf.closed hcf) (ha.closed hca)
      exact (simulates_app_lam (ihf hcf) (iha hca) (ihb hcb)).simulates (.app_lam hf ha hb) hc
  | app_prim hf ha hd ihf iha =>
      intro hc
      have hcf : Term.Closed _ := fun y hy => hc y (.app_left hy)
      have hca : Term.Closed _ := fun y hy => hc y (.app_right hy)
      exact (simulates_app_prim hδ (ihf hcf) (iha hca) hd).simulates (.app_prim hf ha hd) hc
  | tuple_nil => exact fun hc => simulates_tuple_nil.simulates (.tuple_nil (δ := δ)) hc
  | tuple_cons he hes ihe ihes =>
      intro hc
      obtain ⟨hce, hces⟩ := hc.of_tuple_cons
      exact (simulates_tuple_cons (ihe hce) (ihes hces)).simulates (.tuple_cons he hes) hc
  | sel he hi ht ihe =>
      intro hc
      exact (simulates_sel (ihe fun y hy => hc y (.sel hy)) hi ht).simulates (.sel he hi ht) hc
  | letIn he hb ihe ihb =>
      intro hc
      have hce : Term.Closed _ := fun y hy => hc y (.letIn_bound hy)
      have hcb := Term.closed_subst hc.of_letIn (he.closed hce)
      exact (simulates_letIn (ihe hce) (ihb hcb)).simulates (.letIn he hb) hc

/-! ## The theorem -/

/-- Represented data is materialized as itself. -/
theorem constMaterialize_returns {s : InlineState} {r : ExecutorValue} {d : Data Scalar}
    (h : Rep handlers s (Term.ofData d) r) (pb : Value) : ∃ w s',
      Run.Returns ((localExecutor handlers).constMaterialize r (some pb)) s ⟨.ok (), some w⟩ s' ∧
      w.toData = some d := by
  obtain ⟨id, slot, s₁, hembed, -, -, w, hw, hd⟩ := embed_returns handlers r h
  obtain ⟨s₂, hrelease, -, -⟩ := Executor.releasing_returns (InlineExecutor.impl handlers) slot.toList
    (InlineExecutor.materialize_returns handlers pb hw)
  exact ⟨w, s₂, hembed.attempt.bind hrelease, hd⟩

/-- **Adequacy.** If a closed program evaluates to a piece of data by substitution then, from any
state of a local stack and with enough fuel, creating the value succeeds and materializing it yields
that piece of data. -/
theorem adequacy (hδ : Interprets handlers δ) {v : Value} {p : Program} {d : Data Scalar}
    (hv : v.toTerm handlers = some p) (hclosed : p.Closed) (heval : Term.Eval δ p (Term.ofData d))
    (s : ControlFlowState InlineState) : ∃ fuel id s₁ w s₂, w.toData = some d ∧ ∀ n ≥ fuel,
      Run.Returns ((controlFlowExecutor (localExecutor handlers) n).createValue v) s id s₁ ∧
      Run.Returns ((controlFlowExecutor (localExecutor handlers) n).materialize id
        (some .defaultInstance)) s₁ ⟨.ok (), some w⟩ s₂ := by
  have hscope : RepScope handlers s.impl (fun _ => none) [] := fun x t ht => by cases ht
  obtain ⟨r, c₁, hr, -, hrep⟩ :=
    eval_simulates hδ heval hclosed v hv (hclosed.close_eq _) hscope
  obtain ⟨w, c₂, hmat, hw⟩ := constMaterialize_returns hrep .defaultInstance
  obtain ⟨fuel, hcreate⟩ := hr.constCreateExecutorValue fun m hm => by rw [hm] at hv; cases hv
  let s₁ : ControlFlowState InlineState := BaseState.track { s with impl := c₁ } r
  refine ⟨fuel, s.table.nextValueId, s₁, w, { s₁ with impl := c₂ }, hw, fun n hn => ⟨?_, ?_⟩⟩
  · exact (hcreate n hn).zoom.bind (ExecutorBase.trackValue_returns r _)
  · exact (ExecutorBase.getTracked_returns (BaseState.tracked_track _ r)).attempt.bind hmat.zoom

end

/-! ### A program -/

/-- The handler set of a stack that can negate. -/
def notHandlers : IntrinsicHandlerSet :=
  createCompleteHandlerSet (fun _ => none) [("logical_not", logicalNot)]

def notMeaning (intr : Intrinsic) (d : Data Scalar) : Option (Data Scalar) :=
  match d with
  | .scalar (.boolean b) => if intr.uri = "logical_not" then some (.scalar (.boolean !b)) else none
  | _ => none

theorem notHandlers_interprets : Interprets notHandlers notMeaning := by
  rintro ⟨uri, staticParameter⟩ d d' hd interface hi v hv
  unfold notMeaning at hd
  split at hd
  · next b =>
      split at hd
      · next huri =>
          obtain rfl : uri = "logical_not" := huri
          obtain rfl : logicalNot = interface := Option.some.inj hi
          cases hd
          cases v with
          | scalar m c =>
              cases hv
              exact ⟨_, rfl, rfl⟩
          | struct m es => obtain ⟨ds, -, h⟩ := Option.map_eq_some_iff.mp hv; cases h
          | _ => cases hv
      · cases hd
  · cases hd

/-- `Call(Lambda x. Struct[x, Call(logical_not, x)], true)`. -/
def pairWithNot : Value :=
  .call {} (.lambda {} "x" (.struct {} [.reference {} "x",
    .call {} (.intrinsic {} "logical_not" none) (some (.reference {} "x"))])) (some (.ofBool true))

def pairWithNotTerm : Program :=
  .app (.lam "x" (.tuple [.var "x", .app (.prim ⟨"logical_not", none⟩) (.var "x")]))
    (.const (.boolean true))

theorem adequacy_pairWithNot : letI := ProtoText.silent
    ∃ fuel id s₁ w s₂,
      w.toData = some (.tuple [.scalar (.boolean true), .scalar (.boolean false)]) ∧ ∀ n ≥ fuel,
      Run.Returns ((controlFlowExecutor (localExecutor notHandlers) n).createValue pairWithNot)
        localInitial id s₁ ∧
      Run.Returns ((controlFlowExecutor (localExecutor notHandlers) n).materialize id
        (some .defaultInstance)) s₁ ⟨.ok (), some w⟩ s₂ := by
  let _ := ProtoText.silent
  have hv : pairWithNot.toTerm notHandlers = some pairWithNotTerm := rfl
  refine adequacy notHandlers_interprets hv ?_ ?_ localInitial
  -- the term is closed: each occurrence of a name is under the lambda that binds it
  · intro x hx
    cases hx with
    | app_left h =>
        cases h with
        | lam hne hb =>
            cases hb with
            | tuple he h =>
                simp only [List.mem_cons, List.not_mem_nil, or_false] at he
                rcases he with rfl | rfl
                · cases h
                  exact hne rfl
                · cases h with
                  | app_left h => cases h
                  | app_right h => cases h; exact hne rfl
    | app_right h => cases h
  · have htrue : Term.Eval notMeaning (.const (.boolean true))
        (Term.ofData (.scalar (.boolean true))) := .const
    have hnot : Term.Eval notMeaning
        (.app (.prim ⟨"logical_not", none⟩) (.const (.boolean true)))
        (Term.ofData (.scalar (.boolean false))) := .app_prim .prim htrue rfl
    exact .app_lam .lam .const (.tuple_cons .const (.tuple_cons hnot .tuple_nil))

end GenC
