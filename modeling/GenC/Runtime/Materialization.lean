import GenC.Runtime.ControlFlowExecutor

/-!
# What a value materializes to

A value of the control-flow executor is a tree over handles of its child. `ExecutorValue.contents` reads
off what the child holds for it, and **`constMaterialize_spec`** says that this is what `Materialize`
gives, by way of temporaries in the child. A `Frame` leads from one state of the child to a later one in
which every handle that was issued holds what it held.

To materialize a value no function is called (`constMaterialize_silent`).
-/

namespace GenC

open Lib

/-! ## Frames -/

namespace BaseState

variable {V σ : Type}

/-- Ids are only added: those that were issued hold what they held. -/
structure Frame (s s' : BaseState (HandleTable V) σ) : Prop where
  next : s.table.nextValueId ≤ s'.table.nextValueId
  same : ∀ {id}, id < s.table.nextValueId → s'.table.trackedValues id = s.table.trackedValues id

namespace Frame

variable {s s' s'' : BaseState (HandleTable V) σ}

theorem refl (s : BaseState (HandleTable V) σ) : s.Frame s := ⟨Nat.le_refl _, fun _ => rfl⟩

theorem trans (h : s.Frame s') (h' : s'.Frame s'') : s.Frame s'' :=
  ⟨h.next.trans h'.next, fun hid => (h'.same (hid.trans_le h.next)).trans (h.same hid)⟩

theorem tracked (h : s.Frame s') {id : ValueId} {v : V} (hid : s.table.trackedValues id = some v) :
    s'.table.trackedValues id = some v :=
  (h.same (HandleTable.lt_nextValueId hid)).trans hid

theorem track (s : BaseState (HandleTable V) σ) (v : V) : s.Frame (s.track v) :=
  ⟨Nat.le_succ _, fun hid => HandleTable.trackedValues_trackValue_of_ne (Nat.ne_of_lt hid)⟩

end Frame

/-- The slots of temporaries made between `s₀` and `s`. -/
def Since (s₀ s : BaseState (HandleTable V) σ) (slots : List ValueId) : Prop :=
  ∀ id ∈ slots, s₀.table.nextValueId ≤ id ∧ id < s.table.nextValueId

theorem Since.frame {s₀ s s' : BaseState (HandleTable V) σ} {slots : List ValueId}
    (h : s₀.Since s slots) (hs : s.Frame s') : s₀.Since s' slots :=
  fun id hid => ⟨(h id hid).1, (h id hid).2.trans_le hs.next⟩

/-- Releasing temporaries made since `s₀` touches nothing that `s₀` has. -/
theorem Frame.of_released {s₀ s s₁ s' : BaseState (HandleTable V) σ} {slots : List ValueId}
    (h : s₀.Frame s) (hslots : s₀.Since s₁ slots)
    (hnext : s.table.nextValueId = s'.table.nextValueId)
    (hkept : ∀ id, id ∉ slots → s'.table.trackedValues id = s.table.trackedValues id) :
    s₀.Frame s' where
  next := hnext ▸ h.next
  same {id} hid := by
    rw [hkept id fun hmem => absurd hid (Nat.not_lt.mpr (hslots id hmem).1), h.same hid]

end BaseState

/-! ## Contents -/

namespace ExecutorValue

/-- Every handle in the value, at any depth, is one that the child tracks. -/
inductive Alive (s : InlineState) : ExecutorValue → Prop where
  | embedded {id : ValueId} {r : StatusOr Value} (h : s.table.trackedValues id = some r) :
      Alive s (.embedded id)
  | struct {fields : List ExecutorValue} (h : ∀ v ∈ fields, Alive s v) : Alive s (.struct fields)
  | lambda {lambdaPb : Lambda} {scope : List (String × ExecutorValue)}
      (h : ∀ b ∈ scope, Alive s b.2) : Alive s (.lambda lambdaPb scope)
  | intrinsic {intrinsicPb : Intrinsic} {handler : IntrinsicHandler}
      {scope : List (String × ExecutorValue)} (h : ∀ b ∈ scope, Alive s b.2) :
      Alive s (.intrinsic intrinsicPb handler scope)

theorem Alive.frame {s s' : InlineState} (hs : s.Frame s') {v : ExecutorValue} (h : v.Alive s) :
    v.Alive s' := by
  induction h with
  | embedded h => exact .embedded (hs.tracked h)
  | struct _ ih => exact .struct ih
  | lambda _ ih => exact .lambda ih
  | intrinsic _ ih => exact .intrinsic ih

theorem Alive.fields {s : InlineState} {fields : List ExecutorValue} (h : Alive s (.struct fields)) :
    ∀ v ∈ fields, v.Alive s := by
  cases h with
  | struct h => exact h

mutual

/-- What the child holds for a value. An intrinsic cannot be handed to it. -/
def contents (s : InlineState) : ExecutorValue → Option (StatusOr Value)
  | .embedded childValueId => s.table.trackedValues childValueId
  | .struct fields => (contentsAll s fields).map InlineExecutor.structTask
  | .lambda lambdaPb _ => some (.ok (.lambda {} lambdaPb.parameterName lambdaPb.result))
  | .intrinsic _ _ _ => none

def contentsAll (s : InlineState) : List ExecutorValue → Option (List (StatusOr Value))
  | [] => some []
  | field :: fields =>
      match contents s field, contentsAll s fields with
      | some r, some rs => some (r :: rs)
      | _, _ => none

end

/-- Field by field. -/
theorem contentsAll_eq_some_iff {s : InlineState} : ∀ {fields : List ExecutorValue}
    {rs : List (StatusOr Value)}, contentsAll s fields = some rs ↔
      List.Forall₂ (fun v r => contents s v = some r) fields rs
  | [], rs => by
      rw [contentsAll]
      constructor
      · rintro ⟨⟩
        exact .nil
      · rintro ⟨⟩
        rfl
  | field :: fields, rs => by
      rw [contentsAll]
      constructor
      · intro h
        split at h
        · next hfield hfields =>
            cases h
            exact .cons hfield (contentsAll_eq_some_iff.mp hfields)
        · cases h
      · rintro (_ | ⟨hfield, hfields⟩)
        rw [hfield, contentsAll_eq_some_iff.mpr hfields]

mutual

/-- The contents of a value that is alive do not change. -/
theorem contents_frame {s s' : InlineState} (hs : s.Frame s') : ∀ {v : ExecutorValue}, v.Alive s →
    contents s' v = contents s v
  | .embedded _, h => by
      cases h with
      | embedded h => rw [contents, contents, h, hs.tracked h]
  | .struct fields, h => by rw [contents, contents, contentsAll_frame hs h.fields]
  | .lambda _ _, _ => rfl
  | .intrinsic _ _ _, _ => rfl

theorem contentsAll_frame {s s' : InlineState} (hs : s.Frame s') : ∀ {fields : List ExecutorValue},
    (∀ v ∈ fields, v.Alive s) → contentsAll s' fields = contentsAll s fields
  | [], _ => rfl
  | field :: fields, h => by
      obtain ⟨hfield, hfields⟩ := List.forall_mem_cons.mp h
      rw [contentsAll, contentsAll, contents_frame hs hfield, contentsAll_frame hs hfields]

end

end ExecutorValue

/-! ## Embedding -/

section

variable [ProtoText] (handlers : IntrinsicHandlerSet)

open ExecutorValue

/-- Releasing what was made since `s₀`, in any state after it. -/
theorem releaseAll_frame {s₀ s₁ s : InlineState} {slots : List ValueId} (hs : s₀.Frame s)
    (hslots : s₀.Since s₁ slots) : ∃ s',
      Run.Returns ((inlineExecutor handlers).releaseAll slots) s () s' ∧ s₀.Frame s' := by
  obtain ⟨s', hrelease, hnext, hkept⟩ :=
    Executor.releaseAll_returns (InlineExecutor.impl handlers) slots s
  exact ⟨s', hrelease, hs.of_released hslots hnext hkept⟩

/-- What `Embed` says of an intrinsic. -/
def unembeddable : Status := .internal "Tried to embed an unsupported value type."

/-- How an embedding ends: with a handle for the contents, or with an error when there are none. -/
def Embeds (s : InlineState) (v : ExecutorValue) : Prop :=
  ∃ s', s.Frame s' ∧
    ((∃ r id slot, contents s v = some r ∧
        Run.Returns ((localExecutor handlers).embed v) s (id, slot) s' ∧ s.Since s' slot.toList ∧
        s'.table.trackedValues id = some r) ∨
      contents s v = none ∧ Run.Fails ((localExecutor handlers).embed v) s unembeddable s')

mutual

theorem embed_spec : ∀ (v : ExecutorValue) {s : InlineState}, v.Alive s → Embeds handlers s v
  | .embedded id, s, h => by
      cases h with
      | @embedded _ r h =>
          exact ⟨s, .refl s, .inl ⟨r, id, none, h, .pure _ _, fun _ h => (nomatch h), h⟩⟩
  | .struct fields, s, h => by
      obtain ⟨s₁, hs₁, hfields⟩ := embedFields_spec fields h.fields (.refl s)
        (fun _ h => absurd h List.not_mem_nil) .nil
      rcases hfields with ⟨rs, ids, slots, hrs, hreturns, hslots, hids⟩ | ⟨hnone, hfails⟩
      · have hcreate := InlineExecutor.createStruct_holds handlers hids
        obtain ⟨s₂, hrelease, hnext, hkept⟩ :=
          Executor.releasing_returns (InlineExecutor.impl handlers) slots hcreate
        have hs₂ : s.Frame s₂ := (hs₁.trans (.track s₁ _)).of_released hslots hnext hkept
        -- the id of the struct is newer than those of the temporaries
        have hid : s₁.table.nextValueId ∉ slots := fun hmem =>
          absurd (hslots _ hmem).2 (Nat.lt_irrefl _)
        refine ⟨s₂, hs₂, .inl ⟨InlineExecutor.structTask rs, s₁.table.nextValueId,
          some s₁.table.nextValueId, ?_, hreturns.bind (hrelease.bind (.pure _ _)), ?_, ?_⟩⟩
        · rw [contents, hrs]
          rfl
        · intro id hmem
          rw [List.mem_singleton.mp hmem, ← hnext]
          exact ⟨hs₁.next, Nat.lt_succ_self _⟩
        · rw [hkept _ hid]
          exact s₁.tracked_track _
      · refine ⟨s₁, hs₁, .inr ⟨?_, hfails.bind_left⟩⟩
        rw [contents, hnone]
        rfl
  | .lambda lambdaPb scope, s, h => by
      refine ⟨s.track (.ok (.lambda {} lambdaPb.parameterName lambdaPb.result)), .track s _, .inl
        ⟨_, s.table.nextValueId, some s.table.nextValueId, rfl, ?_, ?_, s.tracked_track _⟩⟩
      · exact (InlineExecutor.createValue_returns handlers _ s).bind (.pure _ _)
      · intro id hid
        rw [List.mem_singleton.mp hid]
        exact ⟨Nat.le_refl _, Nat.lt_succ_self _⟩
  | .intrinsic intr handler scope, s, h =>
      ⟨s, .refl s, .inr ⟨rfl, .throw _ _⟩⟩

theorem embedFields_spec : ∀ (fields : List ExecutorValue) {s₀ s : InlineState}
    {ids slots : List ValueId} {rs₀ : List (StatusOr Value)}, (∀ v ∈ fields, v.Alive s) →
    s₀.Frame s → s₀.Since s slots →
    List.Forall₂ (fun id r => s.table.trackedValues id = some r) ids rs₀ → ∃ s', s₀.Frame s' ∧
      ((∃ rs ids' slots', contentsAll s fields = some rs ∧
          Run.Returns ((localExecutor handlers).embedFields fields ids slots) s (ids', slots') s' ∧
          s₀.Since s' slots' ∧
          List.Forall₂ (fun id r => s'.table.trackedValues id = some r) ids' (rs₀ ++ rs)) ∨
        (contentsAll s fields = none ∧
          Run.Fails ((localExecutor handlers).embedFields fields ids slots) s unembeddable s'))
  | [], s₀, s, ids, slots, rs₀, _, hs, hslots, hids => by
      refine ⟨s, hs, .inl ⟨[], ids, slots, rfl, .pure _ _, hslots, ?_⟩⟩
      rwa [List.append_nil]
  | field :: fields, s₀, s, ids, slots, rs₀, h, hs, hslots, hids => by
      obtain ⟨hfield, hfields⟩ := List.forall_mem_cons.mp h
      obtain ⟨s₁, hs₁, hembed⟩ := embed_spec field hfield
      rcases hembed with ⟨r, id, slot, hr, hreturns, hslot, hid⟩ | ⟨hnone, hfails⟩
      -- the field is embedded: its id goes with the others, and its slot, if it is new, is to be released
      · have hids₁ : List.Forall₂ (fun id r => s₁.table.trackedValues id = some r) (ids ++ [id])
            (rs₀ ++ [r]) :=
          List.rel_append (hids.imp fun _ _ h => hs₁.tracked h) (.cons hid .nil)
        have hslots₁ : s₀.Since s₁ (slots ++ slot.toList) := by
          intro i hi
          rcases List.mem_append.mp hi with hi | hi
          · exact hslots.frame hs₁ i hi
          · exact ⟨hs.next.trans (hslot i hi).1, (hslot i hi).2⟩
        obtain ⟨s₂, hs₂, hrest⟩ := embedFields_spec fields (fun v hv => (hfields v hv).frame hs₁)
          (hs.trans hs₁) hslots₁ hids₁
        rw [contentsAll_frame hs₁ hfields] at hrest
        refine ⟨s₂, hs₂, ?_⟩
        rcases hrest with ⟨rs, ids', slots', hrs, hrest, hslots', hids'⟩ | ⟨hnone, hfails⟩
        · rw [List.append_assoc] at hids'
          refine .inl ⟨r :: rs, ids', slots', ?_, hreturns.attempt.bind hrest, hslots', hids'⟩
          rw [contentsAll, hr, hrs]
        · refine .inr ⟨?_, .bind hreturns.attempt hfails⟩
          rw [contentsAll, hr, hnone]
      -- it cannot be embedded: the slots so far are released before the error is returned
      · obtain ⟨s₂, hrelease, hs₂⟩ := releaseAll_frame handlers (hs.trans hs₁) hslots
        refine ⟨s₂, hs₂, .inr ⟨?_, ?_⟩⟩
        · rw [contentsAll, hnone]
        · exact .bind hfails.attempt (.bind hrelease (.throw unembeddable s₂))

end

/-! ### Materializing -/

/-- **`Materialize` gives the contents of a value**, or fails if there are none. -/
theorem constMaterialize_spec {v : ExecutorValue} {s : InlineState} (h : v.Alive s)
    (output : Option Value) : ∃ m s', s.Frame s' ∧
      Run.Returns ((localExecutor handlers).constMaterialize v output) s m s' ∧
      match contents s v with
      | some r => m = InlineExecutor.materialize r output
      | none => m = ⟨.error unembeddable, output⟩ := by
  obtain ⟨s₁, hs₁, hembed⟩ := embed_spec handlers v h
  rcases hembed with ⟨r, id, slot, hr, hreturns, hslot, hid⟩ | ⟨hnone, hfails⟩
  · obtain ⟨s₂, hrelease, hnext, hkept⟩ :=
      Executor.releasing_returns (InlineExecutor.impl handlers) slot.toList
        (InlineExecutor.materialize_holds handlers output hid)
    refine ⟨_, s₂, hs₁.of_released hslot hnext hkept, hreturns.attempt.bind hrelease, ?_⟩
    rw [hr]
  · refine ⟨⟨.error unembeddable, output⟩, s₁, hs₁, hfails.attempt.bind (.pure _ _), ?_⟩
    rw [hnone]

/-- A value whose contents are good is materialized as them. -/
theorem constMaterialize_ok {v : ExecutorValue} {s : InlineState} {w : Value} (h : v.Alive s)
    (hw : contents s v = some (.ok w)) (pb : Value) : ∃ s', s.Frame s' ∧
      Run.Returns ((localExecutor handlers).constMaterialize v (some pb)) s ⟨.ok (), some w⟩ s' := by
  obtain ⟨m, s', hs', hreturns, hm⟩ := constMaterialize_spec handlers h (some pb)
  rw [hw] at hm
  obtain rfl : m = InlineExecutor.materialize (.ok w) (some pb) := hm
  exact ⟨s', hs', hreturns⟩

/-- Any other value cannot be materialized. -/
theorem constMaterialize_error {v : ExecutorValue} {s : InlineState} (h : v.Alive s)
    (hw : ∀ w, contents s v ≠ some (.ok w)) (output : Option Value) : ∃ e s', s.Frame s' ∧
      Run.Returns ((localExecutor handlers).constMaterialize v output) s ⟨.error e, output⟩ s' := by
  obtain ⟨m, s', hs', hreturns, hm⟩ := constMaterialize_spec handlers h output
  rcases hv : contents s v with _ | e | w <;> rw [hv] at hm
  · subst hm
    exact ⟨unembeddable, s', hs', hreturns⟩
  · obtain rfl : m = InlineExecutor.materialize (.error e) output := hm
    exact ⟨e, s', hs', hreturns⟩
  · exact (hw w hv).elim

/-- What was materialized were the contents. -/
theorem contents_of_constMaterialize {v : ExecutorValue} {s s' : InlineState} {w : Value}
    {pb : Value} (h : v.Alive s)
    (hm : Run.Returns ((localExecutor handlers).constMaterialize v (some pb)) s ⟨.ok (), some w⟩ s') :
    contents s v = some (.ok w) ∧ s.Frame s' := by
  obtain ⟨m, s₁, hs₁, hreturns, hspec⟩ := constMaterialize_spec handlers h (some pb)
  obtain ⟨rfl, rfl⟩ := hreturns.unique hm
  refine ⟨?_, hs₁⟩
  rcases hv : contents s v with _ | e | w' <;> rw [hv] at hspec
  · cases hspec
  · cases hspec
  · cases hspec
    rfl

end

/-! ## Nothing is called -/

section

variable [ProtoText] (handlers : IntrinsicHandlerSet)

theorem createValue_silent (v : Value) : Run.Silent ((inlineExecutor handlers).createValue v) :=
  (Run.Silent.pure _).zoom.bind fun _ => .step _

omit [ProtoText] in
theorem getAllTracked_silent {V σ : Type} (name : String) : ∀ members : List ValueId,
    Run.Silent (ExecutorBase.getAllTracked name members : Exec (BaseState (HandleTable V) σ) (List V))
  | [] => .pure _
  | _ :: members => (Run.Silent.step _).bind fun _ =>
      (getAllTracked_silent name members).bind fun _ => .pure _

theorem createStruct_silent (ids : List ValueId) :
    Run.Silent ((inlineExecutor handlers).createStruct ids) :=
  (getAllTracked_silent _ ids).bind fun _ => (Run.Silent.pure _).zoom.bind fun _ => .step _

theorem materialize_silent (id : ValueId) (pb : Option Value) :
    Run.Silent ((inlineExecutor handlers).materialize id pb) :=
  (Run.Silent.step _).attempt.bind fun r => by
    cases r with
    | ok v => exact (Run.Silent.pure _).zoom
    | error e => exact .pure _

theorem releaseAll_silent : ∀ ids : List ValueId,
    Run.Silent ((inlineExecutor handlers).releaseAll ids)
  | [] => .pure _
  | _ :: ids => (Run.Silent.step _).attempt.bind fun _ => releaseAll_silent ids

theorem releasing_silent (ids : List ValueId) {x : Exec InlineState α} (hx : Run.Silent x) :
    Run.Silent ((inlineExecutor handlers).releasing ids x) :=
  hx.attempt.bind fun r => by
    cases r with
    | ok a => exact (releaseAll_silent handlers ids).bind fun _ => .pure _
    | error e => exact (releaseAll_silent handlers ids).bind fun _ => .throw _

mutual

theorem embed_silent : ∀ v : ExecutorValue, Run.Silent ((localExecutor handlers).embed v)
  | .embedded _ => .pure _
  | .struct fields => (embedFields_silent fields [] []).bind fun _ =>
      (releasing_silent handlers _ (createStruct_silent handlers _)).bind fun _ => .pure _
  | .lambda _ _ => (createValue_silent handlers _).bind fun _ => .pure _
  | .intrinsic _ _ _ => .throw _

theorem embedFields_silent : ∀ (fields : List ExecutorValue) (ids slots : List ValueId),
    Run.Silent ((localExecutor handlers).embedFields fields ids slots)
  | [], _, _ => .pure _
  | field :: fields, ids, slots => (embed_silent field).attempt.bind fun r => by
      cases r with
      | ok r => exact embedFields_silent fields _ _
      | error e => exact (releaseAll_silent handlers slots).bind fun _ => .throw _

end

theorem constMaterialize_silent (v : ExecutorValue) (pb : Option Value) :
    Run.Silent ((localExecutor handlers).constMaterialize v pb) :=
  (embed_silent handlers v).attempt.bind fun r => by
    cases r with
    | ok r => exact releasing_silent handlers _ (materialize_silent handlers _ _)
    | error e => exact .pure _

end

end GenC
