import Mathlib.Algebra.Group.Nat.Defs
import Mathlib.Data.List.Nodup
import Mathlib.Logic.Relation
import GenC.Runtime.InlineExecutor

/-!
# Owned ids and the 64-bit handle table

`OwnedValueId` and the table of `ExecutorBase`, `runtime/executor.h`, as a C++ client sees them: ids
are `uint64_t`s that circulate as plain integers, and some of them are held by owner objects, which
can be moved, assigned, told to forget and destroyed.

* `TrackedValues` is the table as it is in the source. `History.ledger` is what it is for: a list of values in
  the order they were issued, some of which have been disposed of. `TrackedValues.Refines` relates it
  to a `HandleTable`, whose ids never run out.
* `World` is a client's view: an executor over that table, and the owner objects.
* **`handleTable_invariant`** is what holds after any sequence of operations.
-/

namespace GenC

open Lib

variable {V σ : Type}

/-- Below 2^64, different numbers are different ids. -/
theorem ofNat_injOn {m n : Nat} (hm : m < 2 ^ 64) (hn : n < 2 ^ 64)
    (h : UInt64.ofNat m = UInt64.ofNat n) : m = n := by
  have hnat : (UInt64.ofNat m).toNat = (UInt64.ofNat n).toNat := congrArg UInt64.toNat h
  rwa [UInt64.toNat_ofNat_of_lt' hm, UInt64.toNat_ofNat_of_lt' hn] at hnat

/-! ## The table of the source -/

/-- `next_value_id_` and `tracked_values_`. -/
structure TrackedValues (V : Type) where
  nextValueId : UInt64
  trackedValues : UInt64 → Option V

namespace TrackedValues

def empty : TrackedValues V := ⟨0, fun _ => none⟩

/-- `emplace` of a hash map: a key that is already there keeps its value. -/
def emplace (id : UInt64) (v : V) (values : UInt64 → Option V) : UInt64 → Option V :=
  match values id with
  | some _ => values
  | none => Function.update values id (some v)

/-- `next_value_id_++` wraps around. -/
def trackValue (v : V) (t : TrackedValues V) : UInt64 × TrackedValues V :=
  (t.nextValueId,
    { nextValueId := t.nextValueId + 1
      trackedValues := emplace t.nextValueId v t.trackedValues })

def erase (id : UInt64) (t : TrackedValues V) : TrackedValues V :=
  { t with trackedValues := Function.update t.trackedValues id none }

instance : ValueTable (TrackedValues V) UInt64 V where
  trackValue := trackValue
  getTracked := trackedValues
  erase := erase

/-- `t` behaves as the table `h`, whose ids are natural numbers. -/
structure Refines (t : TrackedValues V) (h : HandleTable V) : Prop where
  next : t.nextValueId = UInt64.ofNat h.nextValueId
  tracked : ∀ id : UInt64, t.trackedValues id = h.trackedValues id.toNat

theorem refines_empty : (empty : TrackedValues V).Refines HandleTable.empty := ⟨rfl, fun _ => rfl⟩

variable {t : TrackedValues V} {h : HandleTable V}

/-- Until the ids run out, a fresh id is fresh in the map too, so `emplace` inserts. -/
theorem Refines.trackValue (hr : t.Refines h) (hlt : h.nextValueId < 2 ^ 64) (v : V) :
    (t.trackValue v).2.Refines (h.trackValue v).2 := by
  have hnat : t.nextValueId.toNat = h.nextValueId := by
    rw [hr.next]
    exact UInt64.toNat_ofNat_of_lt' hlt
  -- the counter has not wrapped around, so the id is new and `emplace` inserts
  have hfree : t.trackedValues t.nextValueId = none := by
    rw [hr.tracked, hnat]
    exact h.fresh _ (Nat.le_refl _)
  refine ⟨?_, fun id => ?_⟩
  · show t.nextValueId + 1 = UInt64.ofNat (h.nextValueId + 1)
    rw [hr.next, UInt64.ofNat_add]
    rfl
  · show emplace t.nextValueId v t.trackedValues id = (h.trackValue v).2.trackedValues id.toNat
    rw [emplace, hfree]
    by_cases hid : id = t.nextValueId
    · subst hid
      rw [hnat]
      exact (Function.update_self ..).trans (HandleTable.trackedValues_trackValue_self v h).symm
    · have hne : id.toNat ≠ h.nextValueId := fun heq => hid (UInt64.toNat_inj.mp (heq.trans hnat.symm))
      rw [HandleTable.trackedValues_trackValue_of_ne hne, ← hr.tracked]
      exact Function.update_of_ne hid ..

theorem Refines.erase (hr : t.Refines h) (id : UInt64) : (t.erase id).Refines (h.erase id.toNat) := by
  refine ⟨hr.next, fun id' => ?_⟩
  by_cases hid : id' = id
  · rw [hid, HandleTable.trackedValues_erase_self]
    exact Function.update_self ..
  · have hne : id'.toNat ≠ id.toNat := fun heq => hid (UInt64.toNat_inj.mp heq)
    rw [HandleTable.trackedValues_erase_of_ne hne, ← hr.tracked]
    exact Function.update_of_ne hid ..

end TrackedValues

/-! ## What the table has been through -/

/-- A table that remembers which values it issued, with their ids, and which ids it erased. No code
reads the two lists. -/
structure Recorded (τ Id V : Type) where
  table : τ
  issued : List (Id × V)
  disposed : List Id

instance {τ Id V : Type} [ValueTable τ Id V] : ValueTable (Recorded τ Id V) Id V where
  trackValue v r :=
    let (id, table) := ValueTable.trackValue v r.table
    (id, { r with table, issued := r.issued ++ [(id, v)] })
  getTracked r id := ValueTable.getTracked r.table id
  erase id r := { r with table := ValueTable.erase id r.table, disposed := id :: r.disposed }

/-- The table of the source, with its history. -/
abbrev History (V : Type) : Type := Recorded (TrackedValues V) UInt64 V

namespace History

def empty : History V := ⟨TrackedValues.empty, [], []⟩

def issuedIds (r : History V) : List UInt64 := r.issued.map (·.1)

def Disposed (id : UInt64) (r : History V) : Prop := id ∈ r.disposed

/-- What the table should hold: the values issued so far, in order, but for those disposed of. -/
def ledger (r : History V) : HandleTable V where
  nextValueId := r.issued.length
  trackedValues n := if UInt64.ofNat n ∈ r.disposed then none else (r.issued[n]?).map (·.2)
  fresh n hn := by
    rw [List.getElem?_eq_none hn]
    split <;> rfl

/-- The table holds what it should, and its ids were issued in numeric order. -/
structure Sound (r : History V) : Prop where
  ids : r.issuedIds = (List.range r.issued.length).map UInt64.ofNat
  refines : r.table.Refines r.ledger
  disposed : ∀ id ∈ r.disposed, id ∈ r.issuedIds

theorem sound_empty : (empty : History V).Sound where
  ids := rfl
  refines := TrackedValues.refines_empty
  disposed _ h := by cases h

variable {r : History V}

theorem Sound.getElem?_issued (hs : r.Sound) {n : Nat} {id : UInt64} {v : V}
    (h : r.issued[n]? = some (id, v)) : id = UInt64.ofNat n := by
  have hmap : r.issuedIds[n]? = some id := by rw [issuedIds, List.getElem?_map, h]; rfl
  rw [hs.ids, List.getElem?_map, Option.map_eq_some_iff] at hmap
  obtain ⟨m, hm, rfl⟩ := hmap
  rw [(List.getElem?_eq_some_iff.mp hm).2.symm, List.getElem_range]

/-- The value issued with `id` is the one at position `id`. -/
theorem Sound.mem_issued_iff (hs : r.Sound) (hlt : r.issued.length ≤ 2 ^ 64) {id : UInt64} {v : V} :
    (id, v) ∈ r.issued ↔ (r.issued[id.toNat]?).map (·.2) = some v := by
  constructor
  · intro h
    obtain ⟨n, hn⟩ := List.mem_iff_getElem?.mp h
    have hnlt : n < r.issued.length := (List.getElem?_eq_some_iff.mp hn).1
    have hid : id.toNat = n := by
      rw [hs.getElem?_issued hn]
      exact UInt64.toNat_ofNat_of_lt' (Nat.lt_of_lt_of_le hnlt hlt)
    rw [hid, hn]
    rfl
  · intro h
    obtain ⟨⟨id', v'⟩, hn, rfl⟩ := Option.map_eq_some_iff.mp h
    have hid : id' = id := (hs.getElem?_issued hn).trans (UInt64.ofNat_toNat ..)
    exact hid ▸ List.mem_iff_getElem?.mpr ⟨_, hn⟩

/-- The table holds exactly the issued values that were not disposed of. -/
theorem Sound.tracked_iff (hs : r.Sound) (hlt : r.issued.length ≤ 2 ^ 64) {id : UInt64} {v : V} :
    r.table.trackedValues id = some v ↔ (id, v) ∈ r.issued ∧ id ∉ r.disposed := by
  rw [hs.refines.tracked, hs.mem_issued_iff hlt]
  show (if UInt64.ofNat id.toNat ∈ r.disposed then none else _) = some v ↔ _
  rw [UInt64.ofNat_toNat]
  split
  · next hd => exact ⟨fun h => (Option.some_ne_none v h.symm).elim, fun h => (h.2 hd).elim⟩
  · next hd => exact ⟨fun h => ⟨h, hd⟩, fun h => h.1⟩

theorem Sound.mem_issuedIds_iff (hs : r.Sound) {id : UInt64} :
    id ∈ r.issuedIds ↔ ∃ n < r.issued.length, UInt64.ofNat n = id := by
  rw [hs.ids, List.mem_map]
  simp only [List.mem_range]

/-- The id issued next has not been issued yet. -/
theorem Sound.nextValueId_notMem (hs : r.Sound) (hlt : r.issued.length < 2 ^ 64) :
    r.table.nextValueId ∉ r.issuedIds := by
  intro h
  obtain ⟨n, hn, heq⟩ := hs.mem_issuedIds_iff.mp h
  have hnext : UInt64.ofNat n = UInt64.ofNat r.issued.length := heq.trans hs.refines.next
  exact Nat.ne_of_lt hn (ofNat_injOn (hn.trans hlt) hlt hnext)

theorem Sound.nodup_issuedIds (hs : r.Sound) (hlt : r.issued.length ≤ 2 ^ 64) :
    r.issuedIds.Nodup := by
  rw [hs.ids]
  refine List.Nodup.map_on (fun m hm n hn heq => ?_) List.nodup_range
  have hm' : m < 2 ^ 64 := Nat.lt_of_lt_of_le (List.mem_range.mp hm) hlt
  have hn' : n < 2 ^ 64 := Nat.lt_of_lt_of_le (List.mem_range.mp hn) hlt
  exact ofNat_injOn hm' hn' heq

/-! ### The ledger -/

theorem ledger_trackValue (hs : r.Sound) (hlt : r.issued.length < 2 ^ 64) (v : V) :
    (ValueTable.trackValue v r).2.ledger = (r.ledger.trackValue v).2 := by
  -- what has been disposed of was issued before
  have hfresh : UInt64.ofNat r.issued.length ∉ r.disposed := fun h =>
    hs.nextValueId_notMem hlt (hs.refines.next ▸ hs.disposed _ h)
  refine HandleTable.ext ?_ (funext fun n => ?_)
  · exact List.length_append ..
  · show (if UInt64.ofNat n ∈ r.disposed then none else ((r.issued ++ [_])[n]?).map (·.2)) = _
    by_cases hn : n = r.issued.length
    · subst hn
      rw [if_neg hfresh, List.getElem?_concat_length]
      exact (HandleTable.trackedValues_trackValue_self v r.ledger).symm
    · rw [HandleTable.trackedValues_trackValue_of_ne hn]
      show _ = if UInt64.ofNat n ∈ r.disposed then none else (r.issued[n]?).map (·.2)
      rcases Nat.lt_or_gt_of_ne hn with hlt' | hgt
      · rw [List.getElem?_append_left hlt']
      · have hlen : (r.issued ++ [(r.table.nextValueId, v)]).length ≤ n := by
          rw [List.length_append]
          exact hgt
        have hlong : (r.issued ++ [(r.table.nextValueId, v)])[n]? = none :=
          List.getElem?_eq_none hlen
        have hshort : r.issued[n]? = none := List.getElem?_eq_none (Nat.le_of_lt hgt)
        rw [hshort]
        split
        · rfl
        · exact congrArg _ hlong

theorem ledger_erase (hlt : r.issued.length ≤ 2 ^ 64) (id : UInt64) :
    (History.ledger (ValueTable.erase id r)) = r.ledger.erase id.toNat := by
  refine HandleTable.ext rfl (funext fun n => ?_)
  show (if UInt64.ofNat n ∈ id :: r.disposed then none else (r.issued[n]?).map (·.2)) = _
  by_cases hn : n = id.toNat
  · rw [hn, UInt64.ofNat_toNat, if_pos (List.mem_cons_self ..), HandleTable.trackedValues_erase_self]
  · rw [HandleTable.trackedValues_erase_of_ne hn]
    show _ = if UInt64.ofNat n ∈ r.disposed then none else (r.issued[n]?).map (·.2)
    by_cases hbig : n < 2 ^ 64
    · have hne : UInt64.ofNat n ≠ id := by
        intro heq
        rw [← heq, UInt64.toNat_ofNat_of_lt' hbig] at hn
        exact hn rfl
      simp only [List.mem_cons, hne, false_or]
    · -- past the last id there is no value, disposed of or not
      have hnone : r.issued[n]? = none :=
        List.getElem?_eq_none (hlt.trans (Nat.le_of_not_lt hbig))
      rw [hnone]
      split <;> split <;> rfl

theorem Sound.trackValue (hs : r.Sound) (hlt : r.issued.length < 2 ^ 64) (v : V) :
    History.Sound (ValueTable.trackValue v r).2 where
  ids := by
    show (Recorded.issued (ValueTable.trackValue v r).2).map (·.1) = _
    have hissued : Recorded.issued (ValueTable.trackValue v r).2 =
        r.issued ++ [(r.table.nextValueId, v)] := rfl
    rw [hissued, List.length_append, List.length_singleton, List.range_succ, List.map_append,
      List.map_append, List.map_singleton, List.map_singleton, ← hs.ids, hs.refines.next]
    rfl
  refines := by
    rw [ledger_trackValue hs hlt]
    exact hs.refines.trackValue hlt v
  disposed id hid := by
    show id ∈ (r.issued ++ [(r.table.nextValueId, v)]).map (·.1)
    rw [List.map_append]
    exact List.mem_append_left _ (hs.disposed id hid)

theorem Sound.erase (hs : r.Sound) (hlt : r.issued.length ≤ 2 ^ 64) {id : UInt64}
    (hid : id ∈ r.issuedIds) : History.Sound (ValueTable.erase id r) where
  ids := hs.ids
  refines := by
    rw [ledger_erase hlt]
    exact hs.refines.erase id
  disposed id' hid' := by
    rcases List.mem_cons.mp hid' with rfl | hid'
    · exact hid
    · exact hs.disposed id' hid'

end History

/-! ## Owner objects -/

/-- `exec_`, which either points to the executor or is empty, and `id_`. -/
structure OwnedValueId where
  exec : Bool
  id : UInt64

namespace OwnedValueId

/-- `INVALID_ID`, the largest `ValueId`. -/
def invalidId : UInt64 := UInt64.ofNat (2 ^ 64 - 1)

def forget (x : OwnedValueId) : OwnedValueId := { x with id := invalidId }

/-- What a move leaves behind. -/
def movedFrom : OwnedValueId := ⟨false, invalidId⟩

end OwnedValueId

open OwnedValueId (invalidId movedFrom)

/-! ### Clients -/

/-- An executor and the owner objects of its clients, by name. The last two fields record which ids
a client disposed of by a call, and on which ids an owner called `Dispose`. -/
structure World (V σ : Type) where
  base : BaseState (History V) σ
  owners : Nat → Option OwnedValueId
  disposedByClient : List UInt64
  releasedByOwners : List UInt64

/-- What a client can do. Ids are plain integers and owners are named. -/
inductive ClientOp where
  | createValue (owner : Nat) (val : Value)
  | createCall (owner : Nat) (function : UInt64) (argument : Option UInt64)
  | createStruct (owner : Nat) (members : List UInt64)
  | createSelection (owner : Nat) (source : UInt64) (index : UInt32)
  | materialize (value : UInt64) (valuePb : Option Value)
  | dispose (value : UInt64)
  | move (dst src : Nat)
  | moveAssign (dst src : Nat)
  | forget (owner : Nat)
  | release (owner : Nat)
  | destroy (owner : Nat)

namespace World

def init (impl : σ) : World V σ := ⟨⟨History.empty, impl⟩, fun _ => none, [], []⟩

def issuedIds (w : World V σ) : List UInt64 := w.base.table.issuedIds

/-- An owner that has been constructed and not yet destroyed. -/
def owner (o : Nat) : Exec (World V σ) OwnedValueId := fun w =>
  match w.owners o with
  | some x => ([], .ok x w)
  | none => ([], .crash .deadObject)

/-- An owner's storage before its construction. -/
def storage (o : Nat) : Exec (World V σ) Unit := fun w =>
  match w.owners o with
  | none => ([], .ok () w)
  | some _ => ([], .crash .deadObject)

def setOwner (o : Nat) (x : Option OwnedValueId) : Exec (World V σ) Unit :=
  Run.step fun w => (.ok (), { w with owners := Function.update w.owners o x })

def onBase (x : Exec (BaseState (History V) σ) α) : Exec (World V σ) α :=
  x.zoom (·.base) fun base w => { w with base }

/-- Construct an owner from what a `Create*` call returns. -/
def create (o : Nat) (x : Exec (BaseState (History V) σ) UInt64) : Exec (World V σ) Unit := do
  storage o
  let id ← onBase x
  setOwner o (some ⟨true, id⟩)

variable (impl : ExecutorImpl σ V)

/-- `Dispose` called by a client. -/
def dispose (id : UInt64) : Exec (World V σ) Unit := do
  onBase ((executorBase impl).dispose id)
  Run.step fun w => (.ok (), { w with disposedByClient := id :: w.disposedByClient })

/-- `exec_strong->Dispose(id_).IgnoreError()`. -/
def disposeOwned (id : UInt64) : Exec (World V σ) Unit := do
  let _ ← (onBase ((executorBase impl).dispose id)).attempt
  Run.step fun w => (.ok (), { w with releasedByOwners := id :: w.releasedByOwners })

def release (o : Nat) : Exec (World V σ) Unit := do
  let x ← owner o
  if x.id ≠ invalidId then
    if x.exec then
      disposeOwned impl x.id
    setOwner o (some x.forget)

/-- The move constructor. -/
def move (dst src : Nat) : Exec (World V σ) Unit := do
  storage dst
  let other ← owner src
  setOwner dst (some other)
  setOwner src (some movedFrom)

/-- The move assignment. When both sides are one object, `other` is read after its release. -/
def moveAssign (dst src : Nat) : Exec (World V σ) Unit := do
  release impl dst
  let other ← owner src
  setOwner dst (some other)
  setOwner src (some movedFrom)

/-- The destructor. -/
def destroy (o : Nat) : Exec (World V σ) Unit := do
  release impl o
  setOwner o none

def perform : ClientOp → Exec (World V σ) Unit
  | .createValue o val => create o ((executorBase impl).createValue val)
  | .createCall o function argument => create o ((executorBase impl).createCall function argument)
  | .createStruct o members => create o ((executorBase impl).createStruct members)
  | .createSelection o source index => create o ((executorBase impl).createSelection source index)
  | .materialize value valuePb => do
      let r ← onBase ((executorBase impl).materialize value valuePb)
      Run.ofExcept r.status
  | .dispose value => dispose impl value
  | .move dst src => move dst src
  | .moveAssign dst src => moveAssign impl dst src
  | .forget o => do
      let x ← owner o
      setOwner o (some x.forget)
  | .release o => release impl o
  | .destroy o => destroy impl o

/-! ### Runs -/

/-- One operation, that succeeds or returns an error. -/
inductive Step : World V σ → World V σ → Prop where
  | ok {op l w w'} : perform impl op w = (l, .ok () w') → Step w w'
  | error {op l e w w'} : perform impl op w = (l, .error e w') → Step w w'

/-- A sequence of operations. -/
abbrev Reaches : World V σ → World V σ → Prop := Relation.ReflTransGen (Step impl)

/-! ### The invariant -/

/-- The table is sound; what an owner holds was issued, has no other owner, and no owner has disposed
of it; and every disposal was the client's or an owner's. -/
structure Sound (w : World V σ) : Prop where
  history : w.base.table.Sound
  exec : ∀ {o x}, w.owners o = some x → x.id ≠ invalidId → x.exec = true
  held : ∀ {o x}, w.owners o = some x → x.id ≠ invalidId →
    x.id ∈ w.issuedIds ∧ x.id ∉ w.releasedByOwners
  sole : ∀ {o o' x x'}, w.owners o = some x → w.owners o' = some x' → x.id ≠ invalidId →
    x'.id = x.id → o' = o
  released : w.releasedByOwners.Nodup
  released_issued : ∀ id ∈ w.releasedByOwners, id ∈ w.issuedIds
  disposed : ∀ id ∈ w.base.table.disposed, id ∈ w.disposedByClient ∨ id ∈ w.releasedByOwners

/-- No owner holds `id`. -/
def Unowned (w : World V σ) (id : UInt64) : Prop :=
  ∀ o x, w.owners o = some x → x.id ≠ id

theorem sound_init (impl : σ) : (init impl : World V σ).Sound where
  history := History.sound_empty
  exec h := by cases h
  held h := by cases h
  sole h := by cases h
  released := List.nodup_nil
  released_issued _ h := by cases h
  disposed _ h := by cases h

variable {w : World V σ}

/-- After setting an owner to `x`, an owner is that one, or another as it was. -/
theorem update_eq_some {owners : Nat → Option OwnedValueId} {o o' : Nat} {x y : OwnedValueId}
    (h : Function.update owners o (some x) o' = some y) :
    (o' = o ∧ y = x) ∨ (o' ≠ o ∧ owners o' = some y) := by
  by_cases ho : o' = o
  · rw [ho, Function.update_self] at h
    exact .inl ⟨ho, (Option.some.inj h).symm⟩
  · rw [Function.update_of_ne ho] at h
    exact .inr ⟨ho, h⟩

/-- An owner may always be emptied. -/
theorem Sound.empty (hs : w.Sound) (o : Nat) {y : Option OwnedValueId}
    (hy : ∀ x, y = some x → x.id = invalidId) :
    Sound { w with owners := Function.update w.owners o y } := by
  have hold : ∀ {o' x}, Function.update w.owners o y o' = some x → x.id ≠ invalidId →
      w.owners o' = some x := by
    intro o' x hx hid
    by_cases ho : o' = o
    · rw [ho, Function.update_self] at hx
      exact (hid (hy x hx)).elim
    · rwa [Function.update_of_ne ho] at hx
  exact
    { hs with
      exec := fun hx hid => hs.exec (hold hx hid) hid
      held := fun hx hid => hs.held (hold hx hid) hid
      sole := fun hx hx' hid heq => hs.sole (hold hx hid) (hold hx' (heq ▸ hid)) hid heq }

/-- An owner may take over an id that nobody owns. -/
theorem Sound.adopt (hs : w.Sound) (o : Nat) {x : OwnedValueId} (hexec : x.exec = true)
    (hissued : x.id ∈ w.issuedIds) (hreleased : x.id ∉ w.releasedByOwners) (hfree : w.Unowned x.id) :
    Sound { w with owners := Function.update w.owners o (some x) } := by
  refine { hs with exec := ?_, held := ?_, sole := ?_ }
  · intro o' y hy hid
    rcases update_eq_some hy with ⟨-, rfl⟩ | ⟨-, hy⟩
    · exact hexec
    · exact hs.exec hy hid
  · intro o' y hy hid
    rcases update_eq_some hy with ⟨-, rfl⟩ | ⟨-, hy⟩
    · exact ⟨hissued, hreleased⟩
    · exact hs.held hy hid
  -- two owners of one id: the new one and another would own what nobody owned
  · intro o₁ o₂ y₁ y₂ hy₁ hy₂ hid heq
    rcases update_eq_some hy₁ with ⟨ho₁, rfl⟩ | ⟨-, h₁⟩ <;>
      rcases update_eq_some hy₂ with ⟨ho₂, rfl⟩ | ⟨-, h₂⟩
    · rw [ho₁, ho₂]
    · exact (hfree _ _ h₂ heq).elim
    · exact (hfree _ _ h₁ heq.symm).elim
    · exact hs.sole h₁ h₂ hid heq

/-! ### Disposing -/

/-- `r'` is what a call of `Dispose(id)` makes of `r`. -/
def Erases (id : UInt64) (r r' : History V) : Prop :=
  (ValueTable.getTracked r id ≠ none ∧ r' = ValueTable.erase id r) ∨
    (ValueTable.getTracked r id = none ∧ r' = r)

theorem Erases.issued {id : UInt64} {r r' : History V} (h : Erases id r r') : r'.issued = r.issued := by
  rcases h with ⟨-, rfl⟩ | ⟨-, rfl⟩ <;> rfl

theorem Erases.sound {id : UInt64} {r r' : History V} (h : Erases id r r') (hs : r.Sound)
    (hlt : r.issued.length ≤ 2 ^ 64) :
    r'.Sound ∧ ∀ id' ∈ r'.disposed, id' = id ∨ id' ∈ r.disposed := by
  rcases h with ⟨htracked, rfl⟩ | ⟨-, rfl⟩
  · obtain ⟨v, hv⟩ := Option.ne_none_iff_exists'.mp htracked
    have hissued : id ∈ r.issuedIds := List.mem_map_of_mem ((hs.tracked_iff hlt).mp hv).1
    exact ⟨hs.erase hlt hissued, fun id' h => List.mem_cons.mp h⟩
  · exact ⟨hs, fun id' h => .inr h⟩

/-- The client disposes of an id, owned or not. -/
theorem Sound.dispose (hs : w.Sound) (hlt : w.base.table.issued.length ≤ 2 ^ 64) {id : UInt64}
    {base : BaseState (History V) σ} (h : Erases id w.base.table base.table) :
    Sound { w with base, disposedByClient := id :: w.disposedByClient } := by
  obtain ⟨hhistory, hdisposed⟩ := h.sound hs.history hlt
  have hids : ∀ id ∈ w.issuedIds, id ∈ base.table.issuedIds := by
    intro id hmem
    rwa [History.issuedIds, h.issued]
  refine { hs with history := hhistory, held := ?_, released_issued := ?_, disposed := ?_ }
  · intro o x hx hid
    exact ⟨hids _ (hs.held hx hid).1, (hs.held hx hid).2⟩
  · intro id' hid'
    exact hids _ (hs.released_issued id' hid')
  · intro id' hid'
    rcases hdisposed id' hid' with rfl | hid'
    · exact .inl (List.mem_cons_self ..)
    · exact (hs.disposed id' hid').imp_left (List.mem_cons_of_mem _)

/-- An owner that has just been emptied disposes of what it held. -/
theorem Sound.disposeOwned (hs : w.Sound) (hlt : w.base.table.issued.length ≤ 2 ^ 64) {id : UInt64}
    {base : BaseState (History V) σ} (h : Erases id w.base.table base.table)
    (hid : id ∈ w.issuedIds) (hreleased : id ∉ w.releasedByOwners) (hfree : w.Unowned id) :
    Sound { w with base, releasedByOwners := id :: w.releasedByOwners } := by
  obtain ⟨hhistory, hdisposed⟩ := h.sound hs.history hlt
  -- nothing is issued on the way
  have hids : ∀ id ∈ w.issuedIds, id ∈ base.table.issuedIds := by
    intro id hmem
    rwa [History.issuedIds, h.issued]
  refine { hs with
    history := hhistory
    held := ?_
    released := List.nodup_cons.mpr ⟨hreleased, hs.released⟩
    released_issued := ?_
    disposed := ?_ }
  · intro o x hx hx'
    refine ⟨hids _ (hs.held hx hx').1, fun hmem => ?_⟩
    rcases List.mem_cons.mp hmem with heq | hmem
    · exact hfree o x hx heq
    · exact (hs.held hx hx').2 hmem
  · intro id' hid'
    rcases List.mem_cons.mp hid' with rfl | hid'
    · exact hids _ hid
    · exact hids _ (hs.released_issued id' hid')
  · intro id' hid'
    rcases hdisposed id' hid' with rfl | hid'
    · exact .inr (List.mem_cons_self ..)
    · exact (hs.disposed id' hid').imp_right (List.mem_cons_of_mem _)

/-- A value is tracked, and a new owner holds its id. -/
theorem Sound.issue (hs : w.Sound) (hlt : w.base.table.issued.length < 2 ^ 64 - 1) (o : Nat) (v : V)
    {base : BaseState (History V) σ} {id : UInt64}
    (h : ValueTable.trackValue v w.base.table = (id, base.table)) :
    Sound { w with base, owners := Function.update w.owners o (some ⟨true, id⟩) } := by
  have hlt' : w.base.table.issued.length < 2 ^ 64 := by omega
  obtain ⟨hid, htable⟩ := Prod.mk.inj h
  have hfresh : id ∉ w.issuedIds := by
    rw [← hid]
    exact hs.history.nextValueId_notMem hlt'
  have hissuedIds : base.table.issuedIds = w.issuedIds ++ [id] := by
    rw [← htable, ← hid]
    exact List.map_append ..
  have hids : ∀ id ∈ w.issuedIds, id ∈ base.table.issuedIds := by
    intro id hmem
    rw [hissuedIds]
    exact List.mem_append_left _ hmem
  have hbase : Sound { w with base } :=
    { hs with
      history := by
        rw [← htable]
        exact hs.history.trackValue hlt' v
      held := fun hx hx' =>
        ⟨hids _ (hs.held hx hx').1, (hs.held hx hx').2⟩
      released_issued := fun id' hid' => hids _ (hs.released_issued id' hid')
      disposed := by
        rw [← htable]
        exact hs.disposed }
  refine hbase.adopt o rfl ?_ ?_ ?_
  · show id ∈ base.table.issuedIds
    rw [hissuedIds]
    exact List.mem_append_right _ (List.mem_singleton_self id)
  · exact fun hmem => hfresh (hs.released_issued id hmem)
  · intro o' x hx heq
    by_cases hx' : x.id = invalidId
    -- the new id would be the invalid one, but the counter has not come that far
    · have hlast : UInt64.ofNat w.base.table.issued.length = UInt64.ofNat (2 ^ 64 - 1) :=
        calc UInt64.ofNat w.base.table.issued.length
          _ = w.base.table.table.nextValueId := hs.history.refines.next.symm
          _ = id := hid
          _ = x.id := heq.symm
          _ = invalidId := hx'
      exact Nat.ne_of_lt hlt (ofNat_injOn hlt' (by decide) hlast)
    -- any other id that is held has been issued, and the new one had not
    · have hissued : x.id ∈ w.issuedIds := (hs.held hx hx').1
      rw [show x.id = id from heq] at hissued
      exact hfresh hissued

/-! ### Every operation keeps it -/

/-- As long as the ids last, the world is sound. -/
def Inv (w : World V σ) : Prop := w.base.table.issued.length < 2 ^ 64 - 1 → w.Sound

/-- The implementation's own state is its own business. -/
theorem Inv.of_table (hw : Inv w) {base : BaseState (History V) σ}
    (h : base.table = w.base.table) : Inv { w with base } := by
  obtain ⟨table, impl⟩ := base
  subst h
  exact fun hlt => { hw hlt with }

theorem owner_triple {P : World V σ → Prop} {E : Status → World V σ → Prop} (o : Nat) :
    Run.Triple P (owner o) (fun x w => P w ∧ w.owners o = some x) E := by
  intro w hw
  simp only [owner]
  cases h : w.owners o with
  | none => trivial
  | some x => exact ⟨hw, h⟩

theorem storage_triple {P : World V σ → Prop} {E : Status → World V σ → Prop} (o : Nat) :
    Run.Triple P (storage o) (fun _ w => P w ∧ w.owners o = none) E := by
  intro w hw
  simp only [storage]
  cases h : w.owners o with
  | none => exact ⟨hw, h⟩
  | some x => trivial

/-- An operation of the executor, seen from the world it is part of. -/
theorem onBase_triple {x : Exec (BaseState (History V) σ) α} {Q : α → History V → Prop}
    {E : History V → Prop} {w₀ : World V σ}
    (hx : Run.Triple (fun s => s.table = w₀.base.table) x (fun a s => Q a s.table)
      (fun _ s => E s.table)) :
    Run.Triple (· = w₀) (onBase x)
      (fun a w => ∃ base, Q a base.table ∧ w = { w₀ with base })
      (fun _ w => ∃ base, E base.table ∧ w = { w₀ with base }) := by
  refine .zoom fun w hw => ?_
  subst hw
  exact hx.conseq (fun s hs => by rw [hs]) (fun a s hs => ⟨s, hs, rfl⟩) fun e s hs => ⟨s, hs, rfl⟩

variable (impl : ExecutorImpl σ V)

/-- `Dispose` erases the id, or fails and changes nothing. -/
theorem dispose_erases (id : UInt64) (r : History V) :
    Run.Triple (fun s => s.table = r) ((executorBase impl).dispose id)
      (fun _ s => Erases id r s.table)
      (fun _ (s : BaseState (History V) σ) => s.table = r ∧ Erases id r s.table) := by
  refine (ExecutorBase.dispose_table impl (· = r) id).conseq (fun _ h => h) ?_ ?_
  · rintro _ s ⟨_, rfl, htracked, hs⟩
    exact .inl ⟨htracked, hs⟩
  · rintro _ s ⟨rfl, hnone⟩
    exact ⟨rfl, .inr ⟨hnone, rfl⟩⟩

/-! ### Letting go -/

/-- The owner `o` of `w₀` has been emptied, and what it held disposed of. -/
inductive Released (w₀ : World V σ) (o : Nat) : World V σ → Prop where
  | idle {x} : w₀.owners o = some x → x.id = invalidId → Released w₀ o w₀
  | expired {x} : w₀.owners o = some x → x.exec = false →
      Released w₀ o { w₀ with owners := Function.update w₀.owners o (some x.forget) }
  | disposed {x base} : w₀.owners o = some x → x.id ≠ invalidId →
      Erases x.id w₀.base.table base.table →
      Released w₀ o
        { w₀ with
          base
          owners := Function.update w₀.owners o (some x.forget)
          releasedByOwners := x.id :: w₀.releasedByOwners }

theorem release_triple (o : Nat) (w₀ : World V σ) {E : Status → World V σ → Prop} :
    Run.Triple (· = w₀) (release impl o) (fun _ w => Released w₀ o w) E := by
  refine (owner_triple o).bind fun x => .of_fact (fun w hw => hw.1 ▸ hw.2) fun hx => ?_
  split
  · next hid =>
    split
    -- the executor is asked to dispose, and the outcome of that is ignored
    · refine Run.Triple.bind (Q := fun _ w => ∃ base, Erases x.id w₀.base.table base.table ∧
        w = { w₀ with base, releasedByOwners := x.id :: w₀.releasedByOwners }) ?_ fun _ => ?_
      · have hdispose := onBase_triple (Q := fun _ => Erases x.id w₀.base.table)
          (E := Erases x.id w₀.base.table)
          ((dispose_erases impl x.id w₀.base.table).conseq (fun _ h => h) (fun _ _ h => h)
            fun _ _ h => h.2)
        refine (hdispose.pre fun _ h => h.1).attempt.bind fun r => .step fun w hw => ?_
        cases r <;> obtain ⟨base, herases, rfl⟩ := hw <;> exact ⟨base, herases, rfl⟩
      · refine .step fun w hw => ?_
        obtain ⟨base, herases, rfl⟩ := hw
        exact .disposed hx hid herases
    · next hexec =>
      refine .step fun w hw => ?_
      obtain ⟨rfl, -⟩ := hw
      exact .expired hx (Bool.eq_false_iff.mpr hexec)
  · next hid =>
    refine .pure fun w hw => ?_
    obtain ⟨rfl, -⟩ := hw
    exact .idle hx (Decidable.not_not.mp hid)

/-- Releasing an owner keeps the invariant, and leaves the owner empty. -/
theorem Released.inv {w₀ w : World V σ} {o : Nat} (h : Released w₀ o w) (hw : Inv w₀) :
    Inv w ∧ ∀ x, w.owners o = some x → x.id = invalidId := by
  cases h with
  | @idle x hx hid =>
      refine ⟨hw, fun y hy => ?_⟩
      rw [hx] at hy
      exact Option.some.inj hy ▸ hid
  | @expired x hx hexec =>
      refine ⟨fun hlt => (hw hlt).empty o fun y hy => ?_, fun y hy => ?_⟩
      · exact Option.some.inj hy ▸ rfl
      · rcases update_eq_some hy with ⟨-, rfl⟩ | ⟨ho, -⟩
        · rfl
        · exact (ho rfl).elim
  | @disposed x base hx hid herases =>
      refine ⟨fun hlt => ?_, fun y hy => ?_⟩
      · have hlt₀ : w₀.base.table.issued.length < 2 ^ 64 - 1 := herases.issued ▸ hlt
        have hs := hw hlt₀
        have hempty := hs.empty o (y := some x.forget) fun y hy => Option.some.inj hy ▸ rfl
        refine hempty.disposeOwned (by show w₀.base.table.issued.length ≤ _; omega) herases
          (hs.held hx hid).1 (hs.held hx hid).2 fun o' y hy heq => ?_
        -- another owner of the id would have been one before
        rcases update_eq_some hy with ⟨-, rfl⟩ | ⟨ho, hy⟩
        · exact hid heq.symm
        · exact ho (hs.sole hx hy hid heq)
      · rcases update_eq_some hy with ⟨-, rfl⟩ | ⟨ho, -⟩
        · rfl
        · exact (ho rfl).elim

/-- Moving the id of `src` into `dst`, which is empty or the same object. -/
theorem Sound.move (hs : w.Sound) {dst src : Nat} {x : OwnedValueId} (hx : w.owners src = some x)
    (hdst : ∀ y, w.owners dst = some y → y.id = invalidId) :
    Sound { w with
      owners := Function.update (Function.update w.owners dst (some x)) src (some movedFrom) } := by
  have hemptied : ∀ y, some movedFrom = some y → y.id = invalidId := fun y hy =>
    Option.some.inj hy ▸ rfl
  by_cases hid : x.id = invalidId
  · exact Sound.empty (hs.empty dst fun y hy => Option.some.inj hy ▸ hid) src hemptied
  have hne : dst ≠ src := by
    rintro rfl
    exact hid (hdst x hx)
  rw [Function.update_comm hne]
  refine (hs.empty src hemptied).adopt dst (hs.exec hx hid) (hs.held hx hid).1 (hs.held hx hid).2 ?_
  intro o y hy heq
  rcases update_eq_some hy with ⟨-, rfl⟩ | ⟨ho, hy⟩
  · exact hid heq.symm
  · exact ho (hs.sole hx hy hid heq)

/-- The second half of both moves. -/
theorem move_triple (dst src : Nat) {E : Status → World V σ → Prop} :
    Run.Triple (fun w => Inv w ∧ ∀ x, w.owners dst = some x → x.id = invalidId)
      (owner src >>= fun other => setOwner dst (some other) >>= fun _ => setOwner src (some movedFrom))
      (fun _ => Inv) E := by
  refine (owner_triple src).bind fun x => ?_
  intro w ⟨⟨hw, hdst⟩, hx⟩
  exact fun hlt => (hw hlt).move hx hdst

/-- All that may have changed is the implementation's own state. -/
def Unchanged (w₀ w : World V σ) : Prop :=
  ∃ base, base.table = w₀.base.table ∧ w = { w₀ with base }

theorem Unchanged.inv {w₀ w : World V σ} (h : Unchanged w₀ w) (hw : Inv w₀) : Inv w := by
  obtain ⟨base, htable, rfl⟩ := h
  exact hw.of_table htable

theorem create_triple (o : Nat) {x : Exec (BaseState (History V) σ) UInt64} {w₀ : World V σ}
    (hw₀ : Inv w₀)
    (hx : Run.Triple (fun s => s.table = w₀.base.table) x
      (fun id s => ExecutorBase.Issued (· = w₀.base.table) id s.table)
      (fun _ s => s.table = w₀.base.table)) :
    Run.Triple (· = w₀) (create o x) (fun _ => Inv) (fun _ => Unchanged w₀) := by
  refine ((storage_triple o).conseq (fun _ h => h) (fun _ _ h => h.1) fun _ _ h => h).bind fun _ => ?_
  have hbase := onBase_triple (Q := fun id r => ExecutorBase.Issued (· = w₀.base.table) id r)
    (E := (· = w₀.base.table)) hx
  refine hbase.bind fun id => .step fun w hw => ?_
  obtain ⟨base, ⟨_, v, rfl, hissued⟩, rfl⟩ := hw
  intro hlt
  have htable := (Prod.mk.inj hissued).2
  -- the bound is on the ids issued afterwards, one more than before
  have hlen : w₀.base.table.issued.length < base.table.issued.length := by
    rw [← htable]
    show _ < (w₀.base.table.issued ++ [_]).length
    rw [List.length_append]
    exact Nat.lt_succ_self _
  have hlt₀ : w₀.base.table.issued.length < 2 ^ 64 - 1 := hlen.trans hlt
  exact (hw₀ hlt₀).issue hlt₀ o v hissued

theorem materialize_triple (value : UInt64) (valuePb : Option Value) {w₀ : World V σ} :
    Run.Triple (· = w₀) (perform impl (.materialize value valuePb)) (fun _ => Unchanged w₀)
      (fun _ => Unchanged w₀) := by
  have hbase := onBase_triple (Q := fun _ r => r = w₀.base.table)
    (E := (· = w₀.base.table))
    (ExecutorBase.materialize_table impl (· = w₀.base.table) value valuePb)
  refine hbase.bind fun r => .ofExcept fun w hw => ?_
  cases r.status <;> exact hw

theorem dispose_triple (value : UInt64) {w₀ : World V σ} (hw₀ : Inv w₀) :
    Run.Triple (· = w₀) (dispose impl value) (fun _ => Inv) (fun _ => Unchanged w₀) := by
  have hbase := onBase_triple (Q := fun _ => Erases value w₀.base.table)
    (E := (· = w₀.base.table))
    ((dispose_erases impl value w₀.base.table).conseq (fun _ h => h) (fun _ _ h => h)
      fun _ _ h => h.1)
  refine hbase.bind fun _ => .step fun w hw hlt => ?_
  obtain ⟨base, herases, rfl⟩ := hw
  have hlt₀ : w₀.base.table.issued.length < 2 ^ 64 - 1 := herases.issued ▸ hlt
  exact (hw₀ hlt₀).dispose (by omega) herases

theorem release_inv (o : Nat) {w₀ : World V σ} (hw₀ : Inv w₀) {E : Status → World V σ → Prop} :
    Run.Triple (· = w₀) (release impl o)
      (fun _ w => Inv w ∧ ∀ x, w.owners o = some x → x.id = invalidId) E :=
  (release_triple impl o w₀).conseq (fun _ h => h) (fun _ _ h => h.inv hw₀) fun _ _ h => h

/-! ### All of them -/

/-- Every operation keeps the invariant, and one that fails leaves the table and the owners alone. -/
theorem perform_triple (op : ClientOp) {w₀ : World V σ} (hw₀ : Inv w₀) :
    Run.Triple (· = w₀) (perform impl op) (fun _ => Inv) (fun _ => Unchanged w₀) := by
  cases op with
  | createValue o val =>
      exact create_triple o hw₀ (ExecutorBase.createValue_table impl (· = w₀.base.table) val)
  | createCall o function argument =>
      exact create_triple o hw₀
        (ExecutorBase.createCall_table impl (· = w₀.base.table) function argument)
  | createStruct o members =>
      exact create_triple o hw₀ (ExecutorBase.createStruct_table impl (· = w₀.base.table) members)
  | createSelection o source index =>
      exact create_triple o hw₀
        (ExecutorBase.createSelection_table impl (· = w₀.base.table) source index)
  | materialize value valuePb =>
      exact (materialize_triple impl value valuePb).conseq (fun _ h => h) (fun _ _ h => h.inv hw₀)
        fun _ _ h => h
  | dispose value => exact dispose_triple impl value hw₀
  -- the destination is new storage, so it owns nothing that would be lost
  | move dst src =>
      refine ((storage_triple dst).conseq (fun _ h => h) ?_ fun _ _ h => h).bind
        fun _ => move_triple dst src
      rintro _ w ⟨rfl, hdst⟩
      exact ⟨hw₀, fun x hx => by rw [hdst] at hx; cases hx⟩
  | moveAssign dst src => exact (release_inv impl dst hw₀).bind fun _ => move_triple dst src
  | forget o =>
      refine (owner_triple o).bind fun x => .step fun w hw hlt => ?_
      obtain ⟨rfl, -⟩ := hw
      exact (hw₀ hlt).empty o fun y hy => Option.some.inj hy ▸ rfl
  | release o =>
      exact (release_inv impl o hw₀).conseq (fun _ h => h) (fun _ _ h => h.1) fun _ _ h => h
  | destroy o =>
      refine (release_inv impl o hw₀).bind fun _ => .step fun w hw hlt => ?_
      exact (hw.1 hlt).empty o fun y hy => by cases hy

theorem Step.inv {w w' : World V σ} (h : Step impl w w') (hw : Inv w) : Inv w' := by
  cases h with
  | ok hop => exact (perform_triple impl _ hw).ok rfl hop
  | error hop => exact ((perform_triple impl _ hw).error rfl hop).inv hw

theorem Reaches.inv {w w' : World V σ} (h : Reaches impl w w') (hw : Inv w) : Inv w' := by
  induction h with
  | refl => exact hw
  | tail _ hstep ih => exact hstep.inv impl ih

/-! ### What has been disposed of stays so -/

/-- Once disposed of, an id stays on record. -/
abbrev Keeps (id : UInt64) (w : World V σ) : Prop := w.base.table.Disposed id

theorem onBase_keeps {id : UInt64} {x : Exec (BaseState (History V) σ) α}
    (hx : Run.Triple (fun s => s.table.Disposed id) x (fun _ s => s.table.Disposed id)
      (fun _ s => s.table.Disposed id)) :
    Run.Triple (Keeps id) (onBase x) (fun _ => Keeps id) (fun _ => Keeps id) :=
  .zoom fun w hw => hx.pre fun s hs => by rw [hs]; exact hw

theorem create_keeps {id : UInt64} (o : Nat) {x : Exec (BaseState (History V) σ) UInt64}
    (hx : Run.Triple (fun s => s.table.Disposed id) x
      (fun id' s => ExecutorBase.Issued (History.Disposed id) id' s.table)
      (fun _ s => s.table.Disposed id)) :
    Run.Triple (Keeps id) (create o x) (fun _ => Keeps id) (fun _ => Keeps id) := by
  refine ((storage_triple o).conseq (fun _ h => h) (fun _ _ h => h.1) fun _ _ h => h).bind fun _ => ?_
  refine (onBase_keeps (hx.conseq (fun _ h => h) ?_ fun _ _ h => h)).bind fun _ => .step fun _ h => h
  rintro id' s ⟨r, v, hr, hissued⟩
  rw [← (Prod.mk.inj hissued).2]
  exact hr

theorem dispose_keeps {id : UInt64} (value : UInt64) :
    Run.Triple (Keeps id) (onBase ((executorBase impl).dispose value)) (fun _ => Keeps id)
      (fun _ => Keeps id) := by
  refine onBase_keeps ((ExecutorBase.dispose_table impl (History.Disposed id)
    value).conseq (fun _ h => h) ?_ fun _ _ h => h.1)
  rintro _ s ⟨r, hr, -, hs⟩
  rw [hs]
  exact List.mem_cons_of_mem _ hr

theorem release_keeps {id : UInt64} (o : Nat) :
    Run.Triple (Keeps id) (release impl o) (fun _ => Keeps id) (fun _ => Keeps id) := by
  refine ((owner_triple o).conseq (fun _ h => h) (fun _ _ h => h.1) fun _ _ h => h).bind fun x => ?_
  have hset : Run.Triple (fun w : World V σ => Keeps id w) (setOwner o (some x.forget))
      (fun _ => Keeps id) (fun _ => Keeps id) := .step fun _ h => h
  split
  · split
    · refine Run.Triple.bind ?_ fun _ => hset
      refine (dispose_keeps impl x.id).attempt.bind fun r => .step fun w hw => ?_
      cases r <;> exact hw
    · exact hset
  · exact .pure fun _ h => h

theorem move_keeps {id : UInt64} (dst src : Nat) :
    Run.Triple (fun w : World V σ => Keeps id w)
      (owner src >>= fun other => setOwner dst (some other) >>= fun _ => setOwner src (some movedFrom))
      (fun _ => Keeps id) (fun _ => Keeps id) := by
  refine (owner_triple src).bind fun x => ?_
  exact fun w hw => hw.1

theorem perform_keeps {id : UInt64} (op : ClientOp) :
    Run.Triple (Keeps id) (perform impl op) (fun _ => Keeps id) (fun _ => Keeps id) := by
  cases op with
  | createValue o val => exact create_keeps o (ExecutorBase.createValue_table impl (History.Disposed id) val)
  | createCall o function argument =>
      exact create_keeps o (ExecutorBase.createCall_table impl (History.Disposed id) function argument)
  | createStruct o members =>
      exact create_keeps o (ExecutorBase.createStruct_table impl (History.Disposed id) members)
  | createSelection o source index =>
      exact create_keeps o (ExecutorBase.createSelection_table impl (History.Disposed id) source index)
  | materialize value valuePb =>
      refine (onBase_keeps (ExecutorBase.materialize_table impl (History.Disposed id)
        value valuePb)).bind fun r => .ofExcept fun w hw => ?_
      -- the status comes out after the table has been read
      cases r.status <;> exact hw
  | dispose value => exact (dispose_keeps impl value).bind fun _ => .step fun _ h => h
  | move dst src =>
      exact ((storage_triple dst).conseq (fun _ h => h) (fun _ _ h => h.1) fun _ _ h => h).bind
        fun _ => move_keeps dst src
  | moveAssign dst src => exact (release_keeps impl dst).bind fun _ => move_keeps dst src
  | forget o => exact (owner_triple o).bind fun x => .step fun _ h => h.1
  | release o => exact release_keeps impl o
  | destroy o => exact (release_keeps impl o).bind fun _ => .step fun _ h => h

theorem Reaches.keeps {id : UInt64} {w w' : World V σ} (h : Reaches impl w w') (hw : Keeps id w) :
    Keeps id w' := by
  induction h with
  | refl => exact hw
  | tail _ hstep ih =>
      cases hstep with
      | ok hop => exact (perform_keeps impl _).ok ih hop
      | error hop => exact (perform_keeps impl _).error ih hop

/-! ### The handle table -/

/-- The value an id resolves to. -/
def resolve (w : World V σ) (id : UInt64) : Option V := ValueTable.getTracked w.base.table id

/-- An id that does not resolve is reported as not found. -/
theorem getTracked_of_resolve_eq_none {w : World V σ} {id : UInt64} (h : w.resolve id = none)
    (name : String) :
    (ExecutorBase.getTracked name id : Exec _ V) w.base =
      ([], .error (.notFound (name ++ " value not found: " ++ toString id)) w.base) := by
  have hnone : ValueTable.getTracked w.base.table id = none := h
  simp only [ExecutorBase.getTracked, Run.step, hnone]

/-- **The handle table.** In every world reached by a client, with fewer than 2^64 - 1 values issued:

* issued ids are distinct, and none is `INVALID_ID`;
* the table holds exactly the issued ids that have not been disposed of;
* what an owner holds and no client disposed of resolves to the value it was issued for;
* what has been disposed of is not found, now and in every world reached from here;
* an id has at most one owner, and owners dispose of it at most once;
* an operation that fails leaves the table as it was. -/
theorem handleTable_invariant (impl : ExecutorImpl σ V) {s : σ} {w : World V σ}
    (hreach : Reaches impl (init s) w) (hlt : w.base.table.issued.length < 2 ^ 64 - 1) :
    (w.issuedIds.Nodup ∧ invalidId ∉ w.issuedIds) ∧
    (∀ id v, w.resolve id = some v ↔ (id, v) ∈ w.base.table.issued ∧ id ∉ w.base.table.disposed) ∧
    (∀ o x, w.owners o = some x → x.id ≠ invalidId → x.id ∉ w.disposedByClient →
      ∃ v, (x.id, v) ∈ w.base.table.issued ∧ w.resolve x.id = some v) ∧
    (∀ id ∈ w.base.table.disposed, ∀ w', Reaches impl w w' →
      w'.base.table.issued.length < 2 ^ 64 - 1 → ∀ name,
        (ExecutorBase.getTracked name id : Exec _ V) w'.base =
          ([], .error (.notFound (name ++ " value not found: " ++ toString id)) w'.base)) ∧
    (∀ o o' x x', w.owners o = some x → w.owners o' = some x' → x.id ≠ invalidId → x'.id = x.id →
      o' = o) ∧
    w.releasedByOwners.Nodup ∧
    (∀ op l e w', perform impl op w = (l, .error e w') → w'.base.table = w.base.table) := by
  have hinv : Inv w := hreach.inv impl fun _ => sound_init s
  have hs : w.Sound := hinv hlt
  have hle : w.base.table.issued.length ≤ 2 ^ 64 := by omega
  have htracked : ∀ id v, w.resolve id = some v ↔ (id, v) ∈ w.base.table.issued ∧ id ∉ w.base.table.disposed :=
    fun _ _ => hs.history.tracked_iff hle
  refine ⟨⟨hs.history.nodup_issuedIds hle, fun hmem => ?_⟩, htracked, ?_, ?_,
    fun _ _ _ _ => hs.sole, hs.released, ?_⟩
  -- the invalid id is the last one, and is not reached
  · obtain ⟨n, hn, heq⟩ := hs.history.mem_issuedIds_iff.mp hmem
    have hn' : n < 2 ^ 64 - 1 := hn.trans hlt
    exact Nat.ne_of_lt hn' (ofNat_injOn (by omega) (by decide) heq)
  · intro o x hx hid hclient
    obtain ⟨hissued, hreleased⟩ := hs.held hx hid
    -- only its owner or the client could have disposed of it
    have hkept : x.id ∉ w.base.table.disposed := fun hmem =>
      (hs.disposed x.id hmem).elim hclient hreleased
    obtain ⟨⟨id, v⟩, hv, heq⟩ := List.mem_map.mp hissued
    have hv' : (x.id, v) ∈ w.base.table.issued := heq ▸ hv
    exact ⟨v, hv', (htracked x.id v).mpr ⟨hv', hkept⟩⟩
  · intro id hid w' hw' hlt' name
    have hs' : w'.Sound := hw'.inv impl hinv hlt'
    have hid' : id ∈ w'.base.table.disposed := hw'.keeps impl hid
    refine getTracked_of_resolve_eq_none (Option.eq_none_iff_forall_ne_some.mpr fun v hv => ?_) name
    exact ((hs'.history.tracked_iff (by omega)).mp hv).2 hid'
  · intro op l e w' hop
    obtain ⟨base, htable, rfl⟩ := (perform_triple impl op hinv).error rfl hop
    exact htable

/-- Two values, and the owner of the first takes over the second. -/
theorem handleTable_invariant_moveAssign :
    ∃ w : World (StatusOr Value) Unit, w.base.table.disposed = [0] ∧ w.releasedByOwners.Nodup ∧
      (∀ id v, w.resolve id = some v ↔
        (id, v) ∈ w.base.table.issued ∧ id ∉ w.base.table.disposed) := by
  let _ := ProtoText.silent
  have h₁ : Reaches (InlineExecutor.impl []) (init ()) _ :=
    .tail .refl (.ok (rfl : perform _ (.createValue 0 (.ofStr "a")) _ = ([], .ok () _)))
  have h₂ : Reaches (InlineExecutor.impl []) (init ()) _ :=
    h₁.tail (.ok (rfl : perform _ (.createValue 1 (.ofStr "b")) _ = ([], .ok () _)))
  have h₃ : Reaches (InlineExecutor.impl []) (init ()) _ :=
    h₂.tail (.ok (rfl : perform _ (.moveAssign 0 1) _ = ([], .ok () _)))
  have hinv := handleTable_invariant (InlineExecutor.impl []) h₃ (by decide)
  exact ⟨_, rfl, hinv.2.2.2.2.2.1, hinv.2.1⟩

end World

end GenC
