import Mathlib.Algebra.Group.Nat.Defs
import GenC.Runtime.ExecutorService
import GenC.Runtime.InlineExecutor

/-!
# Handle accounting of the executor service

An `ExecutorService` over an executor that nobody else uses hands out references and takes them back.
A `Ledger` is the account of it: the ids that were returned in OK responses, and those of them that were
disposed of. `Ledger.Accepts` says what each kind of request may do to it.

**`handle_accounting`**: after any history of requests, well formed or not, the executor tracks exactly
the ids that were returned and not disposed of, and every request was answered as the ledger has it.
-/

namespace GenC

open Lib

/-! ## The ledger -/

structure Ledger where
  returned : Set UInt64
  disposed : Set UInt64

/-- Whether a request is for a new value. -/
def ExecutorRequest.Creates : ExecutorRequest → Prop
  | .createValue _ | .createCall _ | .createStruct _ | .createSelection _ => True
  | .materialize _ | .dispose _ => False

/-- The reference in the response to a request for a new value. -/
def ExecutorResponse.ref : ExecutorResponse → Option ValueRef
  | .createValue response => response.valueRef
  | .createCall response => response.resultRef
  | .createStruct response => response.structRef
  | .createSelection response => response.selectionRef
  | .materialize _ | .dispose _ => none

namespace Ledger

def empty : Ledger := ⟨∅, ∅⟩

/-- The references that are out. -/
def live (L : Ledger) : Set UInt64 := L.returned \ L.disposed

def issue (L : Ledger) (id : UInt64) : Ledger := { L with returned := insert id L.returned }

/-- Every entry of the batch that names a live id disposes of it. -/
def dispose (L : Ledger) (refs : List ValueRef) : Ledger :=
  { L with disposed := L.disposed ∪ {id ∈ L.live | ∃ ref ∈ refs, refToValueId ref = .ok id} }

/-- No entry of the batch is unparsable, unknown, disposed of before, or there twice. -/
def AllGood (L : Ledger) (refs : List ValueRef) : Prop :=
  ∃ ids, List.Forall₂ (fun ref id => refToValueId ref = .ok id) refs ids ∧ ids.Nodup ∧
    ∀ id ∈ ids, id ∈ L.live

/-- The request may be answered in this way, and the ledger goes on to be `L'`. -/
inductive Accepts (L : Ledger) : ExecutorRequest → GrpcReply ExecutorResponse → Ledger → Prop where
  /-- A new id, which the reference that is returned parses back to. -/
  | created {request reply ref id} : request.Creates → reply.status.ok = true →
      reply.response.ref = some ref → refToValueId ref = .ok id → id ∉ L.returned →
      Accepts L request reply (L.issue id)
  /-- An error adds nothing. -/
  | rejected {request reply} : request.Creates → reply.status.ok = false →
      Accepts L request reply L
  | materialized {request reply} : Accepts L (.materialize request) reply L
  /-- A batch disposes of what it can, and is OK if it could dispose of every entry. -/
  | disposed {request reply} : (reply.status.ok = true ↔ L.AllGood request.valueRef) →
      Accepts L (.dispose request) reply (L.dispose request.valueRef)

/-- The requests were answered in this way, one after the other. -/
inductive AcceptsAll :
    Ledger → List ExecutorRequest → List (GrpcReply ExecutorResponse) → Ledger → Prop where
  | nil {L} : AcceptsAll L [] [] L
  | cons {L L' L'' request reply requests replies} : L.Accepts request reply L' →
      AcceptsAll L' requests replies L'' →
      AcceptsAll L (request :: requests) (reply :: replies) L''

/-! ### Batches, entry by entry -/

/-- One id is disposed of. -/
def disposeId (L : Ledger) (id : UInt64) : Ledger := { L with disposed := insert id L.disposed }

variable {L : Ledger}

theorem live_disposeId (id : UInt64) : (L.disposeId id).live = L.live \ {id} := by
  ext id'
  simp only [live, disposeId, Set.mem_sdiff, Set.mem_insert_iff, Set.mem_singleton_iff, not_or]
  tauto

theorem dispose_nil (L : Ledger) : L.dispose [] = L := by
  have hset : {id ∈ L.live | ∃ ref ∈ ([] : List ValueRef), refToValueId ref = .ok id} = ∅ := by
    ext id
    exact ⟨fun ⟨_, ref, href, _⟩ => absurd href List.not_mem_nil, fun h => h.elim⟩
  rw [dispose, hset, Set.union_empty]

/-- An entry that names no live id changes nothing. -/
theorem dispose_cons_of_bad {ref : ValueRef} {refs : List ValueRef}
    (h : ∀ id, refToValueId ref = .ok id → id ∉ L.live) : L.dispose (ref :: refs) = L.dispose refs := by
  have hset : {id ∈ L.live | ∃ r ∈ ref :: refs, refToValueId r = .ok id} =
      {id ∈ L.live | ∃ r ∈ refs, refToValueId r = .ok id} := by
    ext id
    constructor
    · rintro ⟨hlive, r, hr, hid⟩
      rcases List.mem_cons.mp hr with rfl | hr
      · exact (h id hid hlive).elim
      · exact ⟨hlive, r, hr, hid⟩
    · rintro ⟨hlive, r, hr, hid⟩
      exact ⟨hlive, r, List.mem_cons_of_mem _ hr, hid⟩
  rw [dispose, dispose, hset]

theorem dispose_cons_of_good {ref : ValueRef} {refs : List ValueRef} {id : UInt64}
    (href : refToValueId ref = .ok id) (hid : id ∈ L.live) :
    L.dispose (ref :: refs) = (L.disposeId id).dispose refs := by
  have hset : L.disposed ∪ {id ∈ L.live | ∃ r ∈ ref :: refs, refToValueId r = .ok id} =
      insert id L.disposed ∪ {id' ∈ (L.disposeId id).live | ∃ r ∈ refs, refToValueId r = .ok id'} := by
    ext id'
    rw [live_disposeId]
    constructor
    -- disposed in this batch: by the first reference, or by one of the others if it is another id
    · rintro (hold | ⟨hlive, r, hr, hid'⟩)
      · exact .inl (.inr hold)
      · by_cases heq : id' = id
        · exact .inl (.inl heq)
        · rcases List.mem_cons.mp hr with rfl | hr
          · exact (heq (Except.ok.inj (hid'.symm.trans href))).elim
          · exact .inr ⟨⟨hlive, heq⟩, r, hr, hid'⟩
    · rintro ((rfl | hold) | ⟨⟨hlive, -⟩, r, hr, hid'⟩)
      · exact .inr ⟨hid, ref, List.mem_cons_self .., href⟩
      · exact .inl hold
      · exact .inr ⟨hlive, r, List.mem_cons_of_mem _ hr, hid'⟩
  show Ledger.mk L.returned _ = Ledger.mk L.returned _
  rw [hset]
  rfl

theorem allGood_cons_of_bad {ref : ValueRef} {refs : List ValueRef}
    (h : ∀ id, refToValueId ref = .ok id → id ∉ L.live) : ¬L.AllGood (ref :: refs) := by
  rintro ⟨ids, hids, -, hlive⟩
  cases hids with
  | cons href _ => exact h _ href (hlive _ (List.mem_cons_self ..))

theorem allGood_cons_of_good {ref : ValueRef} {refs : List ValueRef} {id : UInt64}
    (href : refToValueId ref = .ok id) (hid : id ∈ L.live) :
    L.AllGood (ref :: refs) ↔ (L.disposeId id).AllGood refs := by
  constructor
  · rintro ⟨ids, hids, hnodup, hlive⟩
    cases hids with
    | @cons _ id' _ ids href' hids =>
        obtain rfl : id = id' := Except.ok.inj (href.symm.trans href')
        obtain ⟨hnot, hnodup⟩ := List.nodup_cons.mp hnodup
        refine ⟨ids, hids, hnodup, fun id' hid' => ?_⟩
        rw [live_disposeId]
        -- the ids are distinct, so the others are still live after the first has been disposed of
        exact ⟨hlive id' (List.mem_cons_of_mem _ hid'), fun heq => hnot (heq ▸ hid')⟩
  · rintro ⟨ids, hids, hnodup, hlive⟩
    simp only [live_disposeId] at hlive
    refine ⟨id :: ids, .cons href hids, List.nodup_cons.mpr ⟨fun hmem => ?_, hnodup⟩, ?_⟩
    -- the rest names live ids only, and the first is not live any more
    · exact (hlive id hmem).2 rfl
    · intro id' hid'
      rcases List.mem_cons.mp hid' with rfl | hid'
      · exact hid
      · exact (hlive id' hid').1

end Ledger

/-! ## The service keeps to the ledger -/

section Service

variable {V σ : Type}

/-- The table holds the ids that are out, and will not issue any that was. -/
structure Ledger.Matches (L : Ledger) (t : TrackedValues V) (h : HandleTable V) : Prop where
  refines : t.Refines h
  next : h.nextValueId < 2 ^ 64
  returned : ∀ id, id ∈ L.returned ↔ id.toNat < h.nextValueId
  disposed : L.disposed ⊆ L.returned
  live : ∀ id, id ∈ L.live ↔ id.toNat ∈ h.ids

namespace Ledger

variable {L : Ledger} {t : TrackedValues V} {h : HandleTable V}

theorem matches_empty : empty.Matches (TrackedValues.empty : TrackedValues V) HandleTable.empty where
  refines := TrackedValues.refines_empty
  next := Nat.two_pow_pos 64
  returned _ := ⟨fun h => h.elim, fun h => absurd h (Nat.not_lt_zero _)⟩
  disposed _ h := h.elim
  live _ := ⟨fun h => h.1.elim, fun h => absurd rfl h⟩

/-- What is live is what is tracked. -/
theorem Matches.live_iff (hL : L.Matches t h) (id : UInt64) :
    id ∈ L.live ↔ t.trackedValues id ≠ none := by
  rw [hL.live, hL.refines.tracked]
  rfl

theorem Matches.toNat_next (hL : L.Matches t h) : t.nextValueId.toNat = h.nextValueId := by
  rw [hL.refines.next]
  exact UInt64.toNat_ofNat_of_lt' hL.next

theorem Matches.next_notMem (hL : L.Matches t h) : t.nextValueId ∉ L.returned := fun hmem => by
  have hlt := (hL.returned _).mp hmem
  rw [hL.toNat_next] at hlt
  exact Nat.lt_irrefl _ hlt

/-- A new id, as long as it is one that a reference can be made of. -/
theorem Matches.issue (hL : L.Matches t h) (v : V) (hvalid : t.nextValueId ≠ OwnedValueId.invalidId) :
    (L.issue t.nextValueId).Matches (t.trackValue v).2 (h.trackValue v).2 where
  refines := hL.refines.trackValue hL.next v
  next := by
    -- the id that has no successor is the one that cannot be referred to
    have hne : h.nextValueId ≠ 2 ^ 64 - 1 := fun heq =>
      hvalid (UInt64.toNat_inj.mp (hL.toNat_next.trans heq))
    have hlt : h.nextValueId < 2 ^ 64 := hL.next
    exact Nat.lt_of_le_of_ne hlt fun heq => hne (Nat.eq_sub_of_add_eq heq)
  returned id := by
    have heq : id = t.nextValueId ↔ id.toNat = h.nextValueId := by
      rw [← hL.toNat_next, UInt64.toNat_inj]
    show id ∈ insert t.nextValueId L.returned ↔ id.toNat < h.nextValueId + 1
    rw [Set.mem_insert_iff, hL.returned, heq, Nat.lt_succ_iff_lt_or_eq, or_comm]
  disposed := hL.disposed.trans (Set.subset_insert ..)
  live id := by
    have heq : id = t.nextValueId ↔ id.toNat = h.nextValueId := by
      rw [← hL.toNat_next, UInt64.toNat_inj]
    have hlive : id ∈ (L.issue t.nextValueId).live ↔ id = t.nextValueId ∨ id ∈ L.live := by
      constructor
      · rintro ⟨rfl | hreturned, hdisposed⟩
        · exact .inl rfl
        · exact .inr ⟨hreturned, hdisposed⟩
      · rintro (rfl | ⟨hreturned, hdisposed⟩)
        · exact ⟨.inl rfl, fun hmem => hL.next_notMem (hL.disposed hmem)⟩
        · exact ⟨.inr hreturned, hdisposed⟩
    rw [hlive, heq, hL.live, HandleTable.ids_trackValue, Set.mem_insert_iff]

theorem Matches.erase (hL : L.Matches t h) {id : UInt64} (hid : id ∈ L.live) :
    (L.disposeId id).Matches (t.erase id) (h.erase id.toNat) where
  refines := hL.refines.erase id
  next := hL.next
  returned := hL.returned
  disposed := Set.insert_subset hid.1 hL.disposed
  live id' := by
    rw [live_disposeId, HandleTable.ids_erase, Set.mem_sdiff, Set.mem_sdiff, hL.live,
      Set.mem_singleton_iff, Set.mem_singleton_iff, UInt64.toNat_inj]

/-- The state of a service that keeps to the ledger. -/
def Kept (L : Ledger) (s : BaseState (TrackedValues V) σ) : Prop := ∃ h, L.Matches s.table h

end Ledger

/-! ### Request by request -/

namespace ExecutorService

open ExecutorBase

variable {L : Ledger} (impl : ExecutorImpl σ V)

/-- A reference that is made is made of a valid id: with any other the process dies. -/
theorem ownedRef_triple {σ : Type} {P : σ → Prop} (id : UInt64) {E : Status → σ → Prop} :
    Run.Triple P (ownedRef id)
      (fun ref s => ref = valueIdToRef id ∧ id ≠ OwnedValueId.invalidId ∧ P s) E := by
  unfold ownedRef
  split
  · exact .crash
  · next hvalid => exact .pure fun s hs => ⟨rfl, hvalid, hs⟩

/-- A creator ends with a new reference, or with an error that adds nothing. -/
def Replied (L : Ledger) (fill : ValueRef → α) (reply : GrpcReply α)
    (s : BaseState (TrackedValues V) σ) : Prop :=
  (reply.status.ok = false ∧ L.Kept s) ∨
    ∃ id, reply = ⟨.OK, fill (valueIdToRef id)⟩ ∧ id ∉ L.returned ∧ (L.issue id).Kept s

theorem respond_triple {x : Exec (BaseState (TrackedValues V) σ) UInt64} {unfilled : α}
    {fill : ValueRef → α} {E : Status → BaseState (TrackedValues V) σ → Prop}
    (hx : ∀ P : TrackedValues V → Prop, Run.Triple (fun s => P s.table) x
      (fun id s => Issued P id s.table) (fun _ s => P s.table)) :
    Run.Triple L.Kept (respond x unfilled fill) (Replied L fill) E := by
  refine (hx fun t => ∃ h, L.Matches t h).attempt.bind fun r => ?_
  cases r with
  | error e => exact .pure fun s hs => .inl ⟨ok_abslToGrpcStatus_error e, hs⟩
  | ok id =>
      refine (ownedRef_triple id).bind fun ref => .pure ?_
      rintro s ⟨rfl, hvalid, t, v, ⟨h, hL⟩, htrack⟩
      obtain ⟨rfl, htable⟩ := Prod.mk.inj htrack
      refine .inr ⟨_, rfl, hL.next_notMem, (h.trackValue v).2, ?_⟩
      rw [← htable]
      exact hL.issue v hvalid

/-- A request that fails before it reaches the executor. -/
theorem error_triple (e : Status) (unfilled : α) (fill : ValueRef → α)
    {E : Status → BaseState (TrackedValues V) σ → Prop} :
    Run.Triple L.Kept (pure (.error e unfilled) : Exec _ _) (Replied L fill) E :=
  .pure fun _ hs => .inl ⟨ok_abslToGrpcStatus_error e, hs⟩

theorem createValue_triple (request : CreateValueRequest)
    {E : Status → BaseState (TrackedValues V) σ → Prop} :
    Run.Triple L.Kept (createValue (executorBase impl) request)
      (Replied L fun ref => CreateValueResponse.mk (some ref)) E :=
  respond_triple fun P => createValue_table impl P _

theorem createCall_triple (request : CreateCallRequest)
    {E : Status → BaseState (TrackedValues V) σ → Prop} :
    Run.Triple L.Kept (createCall (executorBase impl) request)
      (Replied L fun ref => CreateCallResponse.mk (some ref)) E := by
  unfold createCall
  split
  · exact error_triple _ _ _
  · split
    · exact error_triple _ _ _
    · exact respond_triple fun P => createCall_table impl P _ _

theorem createStruct_triple (request : CreateStructRequest)
    {E : Status → BaseState (TrackedValues V) σ → Prop} :
    Run.Triple L.Kept (createStruct (executorBase impl) request)
      (Replied L fun ref => CreateStructResponse.mk (some ref)) E := by
  unfold createStruct
  split
  · exact error_triple _ _ _
  · exact respond_triple fun P => createStruct_table impl P _

theorem createSelection_triple (request : CreateSelectionRequest)
    {E : Status → BaseState (TrackedValues V) σ → Prop} :
    Run.Triple L.Kept (createSelection (executorBase impl) request)
      (Replied L fun ref => CreateSelectionResponse.mk (some ref)) E := by
  unfold createSelection
  split
  · exact error_triple _ _ _
  · exact respond_triple fun P => createSelection_table impl P _ _

theorem materialize_triple (request : MaterializeRequest)
    {E : Status → BaseState (TrackedValues V) σ → Prop} :
    Run.Triple L.Kept (materialize (executorBase impl) request) (fun _ => L.Kept) E := by
  unfold materialize
  split
  · exact .pure fun _ hs => hs
  · refine (materialize_table impl (fun t => ∃ h, L.Matches t h) _ _).attempt.bind fun r => ?_
    cases r <;> exact .pure fun _ hs => hs

/-- By induction on the batch. An entry that fails leaves the ledger as it is, and the rest of the batch
goes on from there. -/
theorem disposeAll_triple (refs : List ValueRef) {E : Status → BaseState (TrackedValues V) σ → Prop} :
    ∀ {L : Ledger}, Run.Triple L.Kept (disposeAll (executorBase impl) refs)
      (fun errorStrings s => (errorStrings = [] ↔ L.AllGood refs) ∧ (L.dispose refs).Kept s) E := by
  induction refs with
  | nil =>
      intro L
      refine .pure fun s hs => ⟨iff_of_true rfl ⟨[], .nil, .nil, by simp⟩, ?_⟩
      rwa [L.dispose_nil]
  | cons ref refs ih =>
      intro L
      -- an entry that fails has its string, whatever becomes of the rest
      have hbad : (∀ id, refToValueId ref = .ok id → id ∉ L.live) → ∀ e : Status,
          Run.Triple L.Kept
            (do return e.toString :: (← disposeAll (executorBase impl) refs))
            (fun errorStrings s => (errorStrings = [] ↔ L.AllGood (ref :: refs)) ∧
              (L.dispose (ref :: refs)).Kept s) E := by
        intro h e
        refine ih.bind fun errorStrings => .pure fun s hs => ⟨?_, ?_⟩
        · exact iff_of_false (by simp) (Ledger.allGood_cons_of_bad h)
        · rw [Ledger.dispose_cons_of_bad h]
          exact hs.2
      unfold disposeAll
      split
      · next e he =>
          exact hbad (fun id hid => by rw [he] at hid; cases hid) e
      · next id hid =>
          refine (dispose_table impl (fun t => ∃ h, L.Matches t h) id).attempt.bind fun r => ?_
          cases r with
          | ok u =>
              refine .of_fact (p := id ∈ L.live) ?_ fun hlive => ?_
              · rintro s ⟨t, ⟨h, hL⟩, htracked, -⟩
                exact (hL.live_iff id).mpr htracked
              · rw [Ledger.dispose_cons_of_good hid hlive, Ledger.allGood_cons_of_good hid hlive]
                refine ih.pre ?_
                rintro s ⟨t, ⟨h, hL⟩, -, htable⟩
                exact ⟨h.erase id.toNat, htable ▸ hL.erase hlive⟩
          | error e =>
              refine .of_fact (p := id ∉ L.live) ?_ fun hlive => ?_
              · rintro s ⟨⟨h, hL⟩, htracked⟩ hmem
                exact (hL.live_iff id).mp hmem htracked
              · refine (hbad (fun id' hid' => ?_) e).pre fun s hs => hs.1
                rwa [← Except.ok.inj (hid.symm.trans hid')]

theorem dispose_triple (request : DisposeRequest) {E : Status → BaseState (TrackedValues V) σ → Prop} :
    Run.Triple L.Kept (dispose (executorBase impl) request)
      (fun reply s => (reply.status.ok = true ↔ L.AllGood request.valueRef) ∧
        (L.dispose request.valueRef).Kept s) E := by
  refine (disposeAll_triple impl request.valueRef).bind fun errorStrings => ?_
  cases errorStrings with
  | nil => exact .pure fun s hs => ⟨iff_of_true rfl (hs.1.mp rfl), hs.2⟩
  | cons errorString errorStrings =>
      refine .pure fun s hs => ⟨?_, hs.2⟩
      have hnot : ¬L.AllGood request.valueRef := fun h => List.cons_ne_nil _ _ (hs.1.mpr h)
      exact iff_of_false (by rw [GrpcReply.error, GrpcReply.ofStatus, ok_abslToGrpcStatus_error]; simp)
        hnot

/-! ### Every request -/

/-- What one request does to the ledger. -/
theorem serve_triple (request : ExecutorRequest) {E : Status → BaseState (TrackedValues V) σ → Prop} :
    Run.Triple L.Kept ((executorService (executorBase impl)).serve request)
      (fun reply s => ∃ L', L.Accepts request reply L' ∧ L'.Kept s) E := by
  -- a creator's response holds the reference that it was given
  have hcreate : ∀ {α} {x : Exec (BaseState (TrackedValues V) σ) (GrpcReply α)} {fill : ValueRef → α}
      {toResponse : α → ExecutorResponse}, request.Creates →
      (∀ ref, (toResponse (fill ref)).ref = some ref) → Run.Triple L.Kept x (Replied L fill) E →
      Run.Triple L.Kept (do return (← x).map toResponse)
        (fun reply s => ∃ L', L.Accepts request reply L' ∧ L'.Kept s) E := by
    intro α x fill toResponse hkind hfill hx
    refine hx.bind fun reply => .pure fun s hs => ?_
    rcases hs with ⟨hok, hs⟩ | ⟨id, rfl, hid, hs⟩
    · exact ⟨L, .rejected hkind hok, hs⟩
    · exact ⟨L.issue id, .created hkind rfl (hfill _) (refToValueId_valueIdToRef id) hid, hs⟩
  cases request with
  | createValue request =>
      exact hcreate trivial (fun _ => rfl) (createValue_triple impl request)
  | createCall request => exact hcreate trivial (fun _ => rfl) (createCall_triple impl request)
  | createStruct request => exact hcreate trivial (fun _ => rfl) (createStruct_triple impl request)
  | createSelection request =>
      exact hcreate trivial (fun _ => rfl) (createSelection_triple impl request)
  | materialize request =>
      exact (materialize_triple impl request).bind fun reply =>
        .pure fun s hs => ⟨L, .materialized, hs⟩
  | dispose request =>
      exact (dispose_triple impl request).bind fun reply =>
        .pure fun s hs => ⟨_, .disposed hs.1, hs.2⟩

theorem serveAll_triple (requests : List ExecutorRequest)
    {E : Status → BaseState (TrackedValues V) σ → Prop} : ∀ {L : Ledger},
    Run.Triple L.Kept ((executorService (executorBase impl)).serveAll requests)
      (fun replies s => ∃ L', L.AcceptsAll requests replies L' ∧ L'.Kept s) E := by
  induction requests with
  | nil => exact .pure fun s hs => ⟨_, .nil, hs⟩
  | cons request requests ih =>
      refine (serve_triple impl request).bind fun reply => ?_
      rintro s ⟨L', haccepts, hs⟩
      have hrest : Run.Triple L'.Kept
          (do return reply :: (← (executorService (executorBase impl)).serveAll requests))
          (fun replies s => ∃ L'', Ledger.AcceptsAll _ (request :: requests) replies L'' ∧ L''.Kept s)
          E :=
        ih.bind fun replies => .pure fun s ⟨L'', hall, hs⟩ => ⟨L'', .cons haccepts hall, hs⟩
      exact hrest s hs

end ExecutorService

/-- **Handle accounting.** Over an executor that is empty to start with and used by nobody else, a
history of requests is answered as a ledger has it, and what the executor tracks in the end are the ids
that the ledger has out. -/
theorem handle_accounting (impl : ExecutorImpl σ V) {requests : List ExecutorRequest}
    {replies : List (GrpcReply ExecutorResponse)} {s : σ} {s' : BaseState (TrackedValues V) σ}
    (h : Run.Returns ((executorService (executorBase impl)).serveAll requests)
      ⟨TrackedValues.empty, s⟩ replies s') :
    ∃ L, Ledger.empty.AcceptsAll requests replies L ∧
      ∀ id, id ∈ L.live ↔ s'.table.trackedValues id ≠ none := by
  obtain ⟨events, hrun⟩ := h
  have hkept : Ledger.empty.Kept (⟨TrackedValues.empty, s⟩ : BaseState (TrackedValues V) σ) :=
    ⟨HandleTable.empty, Ledger.matches_empty⟩
  obtain ⟨L, haccepts, t, hL⟩ :=
    (ExecutorService.serveAll_triple impl requests (E := fun _ _ => True)).ok hkept hrun
  exact ⟨L, haccepts, hL.live_iff⟩

end Service

/-- A value is created over an inline executor, and a batch names it twice. -/
theorem handle_accounting_disposedTwice :
    ∃ L, Ledger.empty.AcceptsAll
        [.createValue {}, .dispose ⟨[valueIdToRef 0, valueIdToRef 0]⟩]
        [⟨.OK, .createValue ⟨some (valueIdToRef 0)⟩⟩,
          .error (.internal "NOT_FOUND: InlineExecutor value not found: 0, cannot dispose.")
            (.dispose {})] L ∧
      ∀ id, id ∉ L.live := by
  let _ := ProtoText.silent
  let impl := InlineExecutor.impl []
  let service : ExecutorServiceInterface (BaseState (TrackedValues (StatusOr Value)) Unit) :=
    executorService (executorBase impl)
  let created : TrackedValues (StatusOr Value) :=
    (TrackedValues.trackValue (.ok .defaultInstance) .empty).2
  let disposed := created.erase 0
  let refs := [valueIdToRef 0, valueIdToRef 0]
  let reply : GrpcReply DisposeResponse :=
    .error (.internal "NOT_FOUND: InlineExecutor value not found: 0, cannot dispose.") {}
  have hcreate : Run.Returns (service.serve (.createValue {})) ⟨.empty, ()⟩
      ⟨.OK, .createValue ⟨some (valueIdToRef 0)⟩⟩ ⟨created, ()⟩ :=
    (ExecutorService.respond_ok (Run.Returns.attempt ⟨[], rfl⟩) (by decide) _ _).bind (.pure _ _)
  -- the second disposal of the batch fails, and the first one stays done
  have herrors : Run.Returns (ExecutorService.disposeAll (executorBase impl) refs) ⟨created, ()⟩
      ["NOT_FOUND: InlineExecutor value not found: 0, cannot dispose."] ⟨disposed, ()⟩ := by
    simp only [refs, ExecutorService.disposeAll, refToValueId_valueIdToRef]
    exact ⟨[], rfl⟩
  have hreply : Run.Returns (service.dispose ⟨refs⟩) ⟨created, ()⟩ reply ⟨disposed, ()⟩ :=
    Run.Returns.bind herrors (.pure _ _)
  have hdispose : Run.Returns (service.serve (.dispose ⟨refs⟩)) ⟨created, ()⟩
      (reply.map .dispose) ⟨disposed, ()⟩ := hreply.bind (.pure _ _)
  have hnil : Run.Returns (service.serveAll []) ⟨disposed, ()⟩ [] ⟨disposed, ()⟩ := .pure _ _
  have hrest : Run.Returns (service.serveAll [.dispose ⟨refs⟩]) ⟨created, ()⟩
      [reply.map .dispose] ⟨disposed, ()⟩ := hdispose.bind (hnil.bind (.pure _ _))
  have hhistory : Run.Returns (service.serveAll [.createValue {}, .dispose ⟨refs⟩]) ⟨.empty, ()⟩
      [_, reply.map .dispose] ⟨disposed, ()⟩ := hcreate.bind (hrest.bind (.pure _ _))
  obtain ⟨L, haccepts, hlive⟩ := handle_accounting impl hhistory
  refine ⟨L, haccepts, fun id hid => (hlive id).mp hid ?_⟩
  show Function.update created.trackedValues 0 none id = none
  by_cases h : id = 0
  · rw [h, Function.update_self]
  · rw [Function.update_of_ne h]
    exact Function.update_of_ne h ..

end GenC
