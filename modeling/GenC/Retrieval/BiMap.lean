import Mathlib.Data.Finmap
import Mathlib.Data.PEquiv

/-!
# The bidirectional map

`modules/retrieval/bi_map.h`: two hash maps, one from keys to values and one from values to keys, that
every operation updates together under the lock of the map.

* `BiMap.Inverse` — the two are inverse to each other, a partial equivalence of Mathlib.
* `BiMap.Operation.run` — a sequence of operations.
* `BiMap.pairs` — what the map is for: a set of pairs, no two of which share a key or a value.

**`bijection_kept`**: the two maps are inverse after every sequence of operations, and each operation does
to the set of pairs what its name says, or nothing where it answers `false`.
-/

namespace GenC

variable {K V : Type}

structure BiMap (K V : Type) where
  keyToValue : Finmap fun _ : K => V
  valueToKey : Finmap fun _ : V => K

namespace BiMap

/-- `BiMap::BiMap`. -/
def empty : BiMap K V := { keyToValue := ∅, valueToKey := ∅ }

/-- `BiMap::size`. -/
def size (m : BiMap K V) : Nat := m.keyToValue.keys.card

variable [DecidableEq K] [DecidableEq V]

/-- `BiMap::FindByKey`. -/
def findByKey (m : BiMap K V) (key : K) : Option V := m.keyToValue.lookup key

/-- `BiMap::FindByValue`. -/
def findByValue (m : BiMap K V) (value : V) : Option K := m.valueToKey.lookup value

def insert (key : K) (value : V) (m : BiMap K V) : Bool × BiMap K V :=
  if key ∈ m.keyToValue ∨ value ∈ m.valueToKey then (false, m)
  else
    (true,
      { keyToValue := m.keyToValue.insert key value
        valueToKey := m.valueToKey.insert value key })

def upsert (key : K) (value : V) (m : BiMap K V) : Bool × BiMap K V :=
  let itKey := m.keyToValue.lookup key
  let itValue := m.valueToKey.lookup value
  if itKey.isSome ∧ itValue.isSome then (false, m)
  else
    -- the partners that the key or the value had until now
    let valueToKey :=
      match itKey with
      | some second => if second ≠ value then m.valueToKey.erase second else m.valueToKey
      | none => m.valueToKey
    let keyToValue :=
      match itValue with
      | some second => if second ≠ key then m.keyToValue.erase second else m.keyToValue
      | none => m.keyToValue
    (true, { keyToValue := keyToValue.insert key value, valueToKey := valueToKey.insert value key })

def removeByKey (key : K) (m : BiMap K V) : Bool × BiMap K V :=
  match m.keyToValue.lookup key with
  | none => (false, m)
  | some second =>
      (true, { keyToValue := m.keyToValue.erase key, valueToKey := m.valueToKey.erase second })

def removeByValue (value : V) (m : BiMap K V) : Bool × BiMap K V :=
  match m.valueToKey.lookup value with
  | none => (false, m)
  | some second =>
      (true, { keyToValue := m.keyToValue.erase second, valueToKey := m.valueToKey.erase value })

/-- The two maps are inverse to each other. -/
def Inverse (m : BiMap K V) : Prop := ∀ key value,
  m.valueToKey.lookup value = some key ↔ m.keyToValue.lookup key = some value

/-- What is stored. -/
def pairs (m : BiMap K V) : Set (K × V) := {p | m.findByKey p.1 = some p.2}

end BiMap

inductive BiMap.Operation (K V : Type) where
  | insert (key : K) (value : V)
  | upsert (key : K) (value : V)
  | removeByKey (key : K)
  | removeByValue (value : V)
deriving Repr

namespace BiMap.Operation

variable [DecidableEq K] [DecidableEq V]

def apply : Operation K V → BiMap K V → Bool × BiMap K V
  | insert key value => BiMap.insert key value
  | upsert key value => BiMap.upsert key value
  | removeByKey key => BiMap.removeByKey key
  | removeByValue value => BiMap.removeByValue value

/-- The map after a sequence of operations on a new one. -/
def run (operations : List (Operation K V)) : BiMap K V :=
  operations.foldl (fun m operation => (operation.apply m).2) .empty

end BiMap.Operation

/-! ## Lookups -/

section

variable {α β : Type} [DecidableEq α]

private theorem lookup_insert_ite (m : Finmap fun _ : α => β) (a a' : α) (b : β) :
    (m.insert a b).lookup a' = if a' = a then some b else m.lookup a' := by
  split
  case isTrue heq =>
    rw [heq]
    exact Finmap.lookup_insert m
  case isFalse hne => exact Finmap.lookup_insert_of_ne m hne

private theorem lookup_erase_ite (m : Finmap fun _ : α => β) (a a' : α) :
    (m.erase a).lookup a' = if a' = a then none else m.lookup a' := by
  split
  case isTrue heq =>
    rw [heq]
    exact Finmap.lookup_erase a m
  case isFalse hne => exact Finmap.lookup_erase_ne hne

end

namespace BiMap

variable [DecidableEq K] [DecidableEq V] {m : BiMap K V} {key : K} {value : V} {p : K × V}

omit [DecidableEq V] in
theorem mem_pairs : p ∈ m.pairs ↔ m.keyToValue.lookup p.1 = some p.2 := Iff.rfl

/-! ## The invariant -/

theorem empty_inverse : (empty : BiMap K V).Inverse := by
  intro key value
  simp [empty]

/-- The partial equivalence that two inverse maps are. -/
def Inverse.toPEquiv (h : m.Inverse) : PEquiv K V where
  toFun := m.findByKey
  invFun := m.findByValue
  inv := h

/-- No two keys have one value. -/
theorem Inverse.key_unique (h : m.Inverse) {key' : K} (hkey : m.keyToValue.lookup key = some value)
    (hkey' : m.keyToValue.lookup key' = some value) : key = key' :=
  h.toPEquiv.inj hkey hkey'

/-- There are as many keys as values. -/
theorem Inverse.size_eq (h : m.Inverse) : m.keyToValue.keys.card = m.valueToKey.keys.card := by
  have hfind : ∀ key ∈ m.keyToValue.keys, ∃ value, m.keyToValue.lookup key = some value := by
    intro key hmem
    exact Finmap.mem_iff.mp (Finmap.mem_keys.mp hmem)
  choose partner hpartner using hfind
  -- every key has its value, no two keys share one, and every value has a key
  apply Finset.card_bij partner
  · intro key hmem
    have hback := (h key (partner key hmem)).mpr (hpartner key hmem)
    exact Finmap.mem_keys.mpr (Finmap.mem_of_lookup_eq_some hback)
  · intro key hmem key' hmem' heq
    have hkey' := hpartner key' hmem'
    rw [← heq] at hkey'
    exact h.key_unique (hpartner key hmem) hkey'
  · intro value hmem
    obtain ⟨key, hkey⟩ := Finmap.mem_iff.mp (Finmap.mem_keys.mp hmem)
    have hvalue := (h key value).mp hkey
    have hmem' : key ∈ m.keyToValue.keys := Finmap.mem_keys.mpr (Finmap.mem_of_lookup_eq_some hvalue)
    have hsame := hpartner key hmem'
    rw [hvalue] at hsame
    exact ⟨key, hmem', (Option.some.inj hsame).symm⟩

/-! ## Each operation -/

theorem insert_fst : (m.insert key value).1 = true ↔
    m.findByKey key = none ∧ m.findByValue value = none := by
  unfold findByKey findByValue
  rw [Finmap.lookup_eq_none, Finmap.lookup_eq_none, ← not_or]
  unfold insert
  split <;> simp_all

theorem upsert_fst : (m.upsert key value).1 = false ↔
    (m.findByKey key).isSome ∧ (m.findByValue value).isSome := by
  unfold upsert findByKey findByValue
  simp only
  split <;> simp_all

theorem removeByKey_fst : (m.removeByKey key).1 = true ↔ ∃ value, (key, value) ∈ m.pairs := by
  unfold removeByKey
  cases hlookup : m.keyToValue.lookup key <;> simp [mem_pairs, hlookup]

theorem removeByValue_fst (h : m.Inverse) :
    (m.removeByValue value).1 = true ↔ ∃ key, (key, value) ∈ m.pairs := by
  have hmem : ∀ key, (key, value) ∈ m.pairs ↔ m.valueToKey.lookup value = some key :=
    fun key => (h key value).symm
  unfold removeByValue
  simp only [hmem]
  cases m.valueToKey.lookup value <;> simp

/-- Where it succeeds, `Insert` is `Upsert`, which then has nothing to remove. -/
theorem insert_eq_upsert (htrue : (m.insert key value).1 = true) :
    m.insert key value = m.upsert key value := by
  obtain ⟨hkey, hvalue⟩ := insert_fst.mp htrue
  rw [findByKey] at hkey
  rw [findByValue] at hvalue
  have hnew : ¬(key ∈ m.keyToValue ∨ value ∈ m.valueToKey) := by
    rw [not_or, ← Finmap.lookup_eq_none, ← Finmap.lookup_eq_none]
    exact ⟨hkey, hvalue⟩
  rw [insert, if_neg hnew]
  simp [upsert, hkey, hvalue]

/-- The lookups at the given key and value are what `Upsert` goes by: where both find something it stops,
else the one partner found is erased on the side where it was stored. -/
theorem upsert_inverse (h : m.Inverse) : (m.upsert key value).2.Inverse := by
  intro key' value'
  have hother := h key' value'
  have hkey := h key value'
  have hvalue := h key' value
  unfold upsert
  simp only
  split
  case isTrue => exact hother
  case isFalse =>
    simp only [lookup_insert_ite]
    grind [lookup_erase_ite]

theorem upsert_pairs (h : m.Inverse) (htrue : (m.upsert key value).1 = true) :
    (m.upsert key value).2.pairs = {p ∈ m.pairs | p.1 ≠ key ∧ p.2 ≠ value} ∪ {(key, value)} := by
  ext ⟨key', value'⟩
  have hother := h key' value'
  have hkey := h key value'
  have hvalue := h key' value
  unfold upsert at htrue ⊢
  simp only at htrue ⊢
  grind [mem_pairs, lookup_insert_ite, lookup_erase_ite]

/-- The pair that `Upsert` removes is the only one that shares the key or the value. -/
theorem upsert_removed (h : m.Inverse) (htrue : (m.upsert key value).1 = true) :
    {p ∈ m.pairs | p.1 = key ∨ p.2 = value}.Subsingleton := by
  have hone : ¬((m.findByKey key).isSome ∧ (m.findByValue value).isSome) := by
    rw [← upsert_fst, htrue]
    simp
  rintro ⟨key₁, value₁⟩ ⟨hmem₁, hshare₁⟩ ⟨key₂, value₂⟩ ⟨hmem₂, hshare₂⟩
  rw [mem_pairs] at hmem₁ hmem₂
  have hback₁ := (h key₁ value₁).mpr hmem₁
  have hback₂ := (h key₂ value₂).mpr hmem₂
  unfold findByKey findByValue at hone
  -- one pair cannot share the key and another one the value
  grind

theorem insert_pairs (h : m.Inverse) (htrue : (m.insert key value).1 = true) :
    (m.insert key value).2.pairs = m.pairs ∪ {(key, value)} := by
  obtain ⟨hkey, hvalue⟩ := insert_fst.mp htrue
  have heq := insert_eq_upsert htrue
  rw [heq] at htrue ⊢
  rw [upsert_pairs h htrue]
  have hall : {p ∈ m.pairs | p.1 ≠ key ∧ p.2 ≠ value} = m.pairs := by
    ext ⟨key', value'⟩
    have hback := h key' value'
    unfold findByKey at hkey
    unfold findByValue at hvalue
    grind [mem_pairs]
  rw [hall]

theorem insert_inverse (h : m.Inverse) : (m.insert key value).2.Inverse := by
  cases hfst : (m.insert key value).1 with
  | true =>
      rw [insert_eq_upsert hfst]
      exact upsert_inverse h
  | false =>
      unfold insert at hfst ⊢
      grind

theorem removeByKey_of_mem (hmem : (key, value) ∈ m.pairs) : m.removeByKey key =
    (true, { keyToValue := m.keyToValue.erase key, valueToKey := m.valueToKey.erase value }) := by
  rw [mem_pairs] at hmem
  rw [removeByKey, hmem]

theorem removeByValue_of_mem (h : m.Inverse) (hmem : (key, value) ∈ m.pairs) : m.removeByValue value =
    (true, { keyToValue := m.keyToValue.erase key, valueToKey := m.valueToKey.erase value }) := by
  rw [mem_pairs, ← h] at hmem
  rw [removeByValue, hmem]

/-- The pair that goes, goes from both maps. -/
theorem erase_inverse (h : m.Inverse) (hmem : (key, value) ∈ m.pairs) :
    ({ keyToValue := m.keyToValue.erase key, valueToKey := m.valueToKey.erase value } : BiMap K V).Inverse := by
  intro key' value'
  have hother := h key' value'
  have hkey := h key value'
  have hvalue := h key' value
  simp only [lookup_erase_ite]
  grind [mem_pairs]

theorem erase_pairs (h : m.Inverse) (hmem : (key, value) ∈ m.pairs) :
    ({ keyToValue := m.keyToValue.erase key, valueToKey := m.valueToKey.erase value } : BiMap K V).pairs
      = m.pairs \ {(key, value)} := by
  ext ⟨key', value'⟩
  have hvalue := h key' value
  simp only [mem_pairs, Set.mem_sdiff, Set.mem_singleton_iff, lookup_erase_ite]
  grind [mem_pairs]

end BiMap

/-! ## Sequences of operations -/

namespace BiMap.Operation

open BiMap

variable [DecidableEq K] [DecidableEq V] {m : BiMap K V} {operation : Operation K V}

theorem apply_of_false (hfalse : (operation.apply m).1 = false) : (operation.apply m).2 = m := by
  cases operation with
  | insert key value =>
      unfold apply BiMap.insert at hfalse ⊢
      grind
  | upsert key value =>
      unfold apply BiMap.upsert at hfalse ⊢
      grind
  | removeByKey key =>
      unfold apply BiMap.removeByKey at hfalse ⊢
      grind
  | removeByValue value =>
      unfold apply BiMap.removeByValue at hfalse ⊢
      grind

theorem apply_inverse (h : m.Inverse) : (operation.apply m).2.Inverse := by
  cases hfst : (operation.apply m).1 with
  | false =>
      rw [apply_of_false hfst]
      exact h
  | true =>
      cases operation with
      | insert key value => exact insert_inverse h
      | upsert key value => exact upsert_inverse h
      | removeByKey key =>
          obtain ⟨value, hmem⟩ := removeByKey_fst.mp hfst
          rw [apply, removeByKey_of_mem hmem]
          exact erase_inverse h hmem
      | removeByValue value =>
          obtain ⟨key, hmem⟩ := (removeByValue_fst h).mp hfst
          rw [apply, removeByValue_of_mem h hmem]
          exact erase_inverse h hmem

theorem run_inverse (operations : List (Operation K V)) : (run operations).Inverse := by
  have hfold : ∀ m : BiMap K V, m.Inverse →
      (operations.foldl (fun m operation => (operation.apply m).2) m).Inverse := by
    induction operations with
    | nil => exact fun m h => h
    | cons operation operations ih => exact fun m h => ih _ (apply_inverse h)
  exact hfold .empty empty_inverse

end BiMap.Operation

/-- Whatever operations were made on it, the map stays a bijection: its two maps are inverse to each other and
of one size. An operation that answers `false` changes nothing. `Insert` wants both the key and the
value new; `Upsert` wants one of them new, and removes the one pair that shared the other; each
`Remove` takes the one pair it names. -/
theorem bijection_kept [DecidableEq K] [DecidableEq V] (operations : List (BiMap.Operation K V)) :
    let m := BiMap.Operation.run operations
    (m.Inverse ∧ m.keyToValue.keys.card = m.valueToKey.keys.card ∧ m.size = m.keyToValue.keys.card) ∧
    (∀ operation : BiMap.Operation K V, (operation.apply m).1 = false → (operation.apply m).2 = m) ∧
    (∀ key value,
      ((m.insert key value).1 = true ↔ m.findByKey key = none ∧ m.findByValue value = none) ∧
      ((m.insert key value).1 = true → (m.insert key value).2.pairs = m.pairs ∪ {(key, value)})) ∧
    (∀ key value,
      ((m.upsert key value).1 = false ↔ (m.findByKey key).isSome ∧ (m.findByValue value).isSome) ∧
      ((m.upsert key value).1 = true →
        (m.upsert key value).2.pairs = {p ∈ m.pairs | p.1 ≠ key ∧ p.2 ≠ value} ∪ {(key, value)} ∧
        {p ∈ m.pairs | p.1 = key ∨ p.2 = value}.Subsingleton)) ∧
    (∀ key,
      ((m.removeByKey key).1 = true ↔ ∃ value, (key, value) ∈ m.pairs) ∧
      ∀ value, (key, value) ∈ m.pairs → (m.removeByKey key).2.pairs = m.pairs \ {(key, value)}) ∧
    (∀ value,
      ((m.removeByValue value).1 = true ↔ ∃ key, (key, value) ∈ m.pairs) ∧
      ∀ key, (key, value) ∈ m.pairs → (m.removeByValue value).2.pairs = m.pairs \ {(key, value)}) := by
  intro m
  have h : m.Inverse := BiMap.Operation.run_inverse operations
  refine ⟨⟨h, h.size_eq, rfl⟩, fun operation => BiMap.Operation.apply_of_false, ?_, ?_, ?_, ?_⟩
  · intro key value
    exact ⟨BiMap.insert_fst, BiMap.insert_pairs h⟩
  · intro key value
    exact ⟨BiMap.upsert_fst, fun htrue => ⟨BiMap.upsert_pairs h htrue, BiMap.upsert_removed h htrue⟩⟩
  · intro key
    refine ⟨BiMap.removeByKey_fst, fun value hmem => ?_⟩
    rw [BiMap.removeByKey_of_mem hmem]
    exact BiMap.erase_pairs h hmem
  · intro value
    refine ⟨BiMap.removeByValue_fst h, fun key hmem => ?_⟩
    rw [BiMap.removeByValue_of_mem h hmem]
    exact BiMap.erase_pairs h hmem

/-- A new value takes the place of the old one, on both sides. -/
example : (BiMap.Operation.run [.insert 1 "one", .upsert 1 "updated_one"]).findByValue "one" = none := by
  decide

end GenC
