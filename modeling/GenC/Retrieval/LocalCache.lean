import GenC.Lib.Run
import Mathlib.Data.Finmap
import Mathlib.Data.List.DropRight
import Mathlib.Data.Set.Card
import Mathlib.Logic.Function.Basic

/-!
# The local cache

`modules/retrieval/local_cache.h`: a hash map from keys to vectors of messages, each cut to a largest number
of messages by erasing the earliest when the next one comes.

* `LocalCache.Logs` — what the cache is for: for each key, the messages put for it since it was last removed.
* `LocalCache.Holds` — every key holds the end of its log.
* `LocalCache.Operation.InWindow` — where an operation stays inside its vector.

**`bounded_log_iff`**: a sequence of operations leaves and answers what the logs say, and meets no undefined
behaviour, exactly if each operation is in the window: a cache that is put into has room for one message at
least, and nobody asks for the last `n` messages with a negative `n`, or with an `n` that a length cast to an
`int` misplaces.
-/

namespace GenC

open Lib

variable {K V : Type}

structure LocalCache (K V : Type) where
  cache : Finmap fun _ : K => List V
  maxMessagesPerKey : UInt64

namespace LocalCache

/-- What the language leaves undefined. -/
inductive Undefined where
  /-- `messages.erase(messages.begin())`, without messages. -/
  | eraseOfEmpty
  /-- `messages.end() - n`, before the first message or after the last. -/
  | iteratorOutside
deriving Repr, DecidableEq

/-- `messages.erase(messages.begin())`. -/
def eraseBegin : List V → Except Undefined (List V)
  | [] => .error .eraseOfEmpty
  | _ :: messages => .ok messages

/-- `std::vector<V>(messages.end() - n, messages.end())`. -/
def fromEndMinus (messages : List V) (n : Int32) : Except Undefined (List V) :=
  let begin : Int := messages.length - n.toInt
  if 0 ≤ begin ∧ begin ≤ messages.length then .ok (messages.drop begin.toNat)
  else .error .iteratorOutside

/-- `LocalCache::LocalCache`. -/
def new (maxMessagesPerKey : UInt64) : LocalCache K V := { cache := ∅, maxMessagesPerKey }

variable [DecidableEq K]

def put (key : K) (message : V) (c : LocalCache K V) : Except Undefined (LocalCache K V) := do
  -- `cache_[key]` makes an empty vector where there is none
  let messages := (c.cache.lookup key).getD []
  let messages ←
    if messages.length ≥ c.maxMessagesPerKey.toNat then eraseBegin messages else pure messages
  return { c with cache := c.cache.insert key (messages ++ [message]) }

def get (key : K) (n : Option Int32) (c : LocalCache K V) : Except Undefined (List V) :=
  match c.cache.lookup key with
  | none => .ok []
  | some messages =>
      match n with
      | some n =>
          -- `static_cast<int>` keeps the low 32 bits of the length
          if n < Int32.ofNat messages.length then fromEndMinus messages n else .ok messages
      | none => .ok messages

/-- `LocalCache::Exists`. -/
def existsKey (key : K) (c : LocalCache K V) : Bool := decide (key ∈ c.cache)

omit [DecidableEq K] in
/-- `LocalCache::size`. -/
def size (c : LocalCache K V) : Nat := c.cache.keys.card

def remove (key : K) (c : LocalCache K V) : LocalCache K V := { c with cache := c.cache.erase key }

/-- The messages of a key. -/
def messages (c : LocalCache K V) (key : K) : List V := (c.cache.lookup key).getD []

inductive Operation (K V : Type) where
  | put (key : K) (message : V)
  | get (key : K) (n : Option Int32)
  | existsKey (key : K)
  | size
  | remove (key : K)
deriving Repr

inductive Response (V : Type) where
  | done
  | messages (messages : List V)
  | found (found : Bool)
  | size (size : Nat)
deriving Repr, DecidableEq

namespace Operation

def apply : Operation K V → LocalCache K V → Except Undefined (Response V × LocalCache K V)
  | put key message, c => return (.done, ← c.put key message)
  | get key n, c => return (.messages (← c.get key n), c)
  | existsKey key, c => return (.found (c.existsKey key), c)
  | size, c => return (.size c.size, c)
  | remove key, c => return (.done, c.remove key)

/-- The answers to a sequence of operations, and the cache after it. -/
def run : List (Operation K V) → LocalCache K V → Except Undefined (List (Response V) × LocalCache K V)
  | [], c => return ([], c)
  | operation :: operations, c => do
      let (response, c) ← operation.apply c
      let (responses, c) ← run operations c
      return (response :: responses, c)

end Operation

/-! ### A cache with room -/

theorem get_none (key : K) (c : LocalCache K V) : c.get key none = .ok (c.messages key) := by
  unfold get messages
  cases c.cache.lookup key <;> rfl

@[simp] theorem messages_remove (key : K) (c : LocalCache K V) : (c.remove key).messages key = [] := by
  simp [remove, messages]

/-- Where there is room, `Put` only adds. -/
theorem put_of_room {c : LocalCache K V} {key : K} (message : V)
    (h : (c.messages key).length < c.maxMessagesPerKey.toNat) :
    ∃ c', c.put key message = .ok c' ∧ c'.messages key = c.messages key ++ [message] ∧
      c'.maxMessagesPerKey = c.maxMessagesPerKey := by
  have hroom : ¬((c.cache.lookup key).getD []).length ≥ c.maxMessagesPerKey.toNat := Nat.not_le.mpr h
  refine ⟨{ c with cache := c.cache.insert key (c.messages key ++ [message]) }, ?_, ?_, rfl⟩
  · unfold put
    simp only [if_neg hroom]
    rfl
  · simp [messages]

/-! ## What the cache is for -/

/-- The messages put for each key since it was last removed. -/
abbrev Logs (K V : Type) := K → List V

namespace Logs

variable (limit : UInt64) (logs : Logs K V)

/-- The logs after an operation. -/
def after : Operation K V → Logs K V
  | .put key message => Function.update logs key (logs key ++ [message])
  | .remove key => Function.update logs key []
  | .get _ _ | .existsKey _ | .size => logs

/-- The logs after a sequence of operations. -/
def afterAll (operations : List (Operation K V)) : Logs K V := operations.foldl after logs

omit [DecidableEq K] in
/-- The last messages of a log, as many as there is room for. -/
def held (key : K) : List V := (logs key).rtake limit.toNat

open Classical in
omit [DecidableEq K] in
/-- What an operation should answer. -/
noncomputable def answer : Operation K V → Response V
  | .put _ _ | .remove _ => .done
  | .get key none => .messages (logs.held limit key)
  | .get key (some n) => .messages ((logs.held limit key).rtake n.toInt.toNat)
  | .existsKey key => .found (decide (logs.held limit key ≠ []))
  | .size => .size {key | logs.held limit key ≠ []}.ncard

/-- What a sequence of operations should answer. -/
noncomputable def answers : Logs K V → List (Operation K V) → List (Response V)
  | _, [] => []
  | logs, operation :: operations => logs.answer limit operation :: answers (logs.after operation) operations

end Logs

/-- The operation stays inside the vector of its key. A negative `n` does not, on a key with messages; a
length of 2 ^ 31 or more, cast to an `int`, can also miss an `n` that is less than the length. -/
def Operation.InWindow (limit : UInt64) (logs : Logs K V) : Operation K V → Prop
  | .put _ _ => 0 < limit
  | .get key (some n) =>
      let stored := (logs.held limit key).length
      stored = 0 ∨ 0 ≤ n.toInt ∧ (n < Int32.ofNat stored ∨ stored ≤ n.toInt)
  | .get _ none | .existsKey _ | .size | .remove _ => True

/-- Every operation of a sequence is in the window, at its turn. -/
def Operation.AllInWindow (limit : UInt64) : Logs K V → List (Operation K V) → Prop
  | _, [] => True
  | logs, operation :: operations =>
      operation.InWindow limit logs ∧ AllInWindow limit (logs.after operation) operations

/-! ## The window -/

omit [DecidableEq K] in
/-- Erasing the first message, if there is no room, makes room for one more. -/
theorem rtake_concat_of_pos {n : Nat} (hn : 0 < n) (log : List V) (message : V) :
    (log ++ [message]).rtake n
      = (if (log.rtake n).length ≥ n then (log.rtake n).tail else log.rtake n) ++ [message] := by
  unfold List.rtake
  rw [List.length_append, List.length_singleton, List.drop_append_of_le_length (by omega), List.length_drop]
  congr 1
  split
  case isTrue hfull =>
    rw [List.tail_drop]
    congr 1
    omega
  case isFalse hroom =>
    congr 1
    omega

omit [DecidableEq K] in
theorem rtake_eq_self_iff {n : Nat} {log : List V} : log.rtake n = log ↔ log.length ≤ n := by
  constructor
  · intro h
    have hlength := congrArg List.length h
    rw [List.rtake, List.length_drop] at hlength
    omega
  · intro h
    rw [List.rtake, Nat.sub_eq_zero_of_le h, List.drop_zero]

omit [DecidableEq K] in
/-- The cast to an `int` never makes a length larger. -/
theorem toInt_ofNat_le (n : Nat) : (Int32.ofNat n).toInt ≤ n := by
  rw [← Int32.ofInt_eq_ofNat, Int32.toInt_ofInt, Int.bmod_def, Int32.size]
  omega

omit [DecidableEq K] in
/-- The iterator is inside the vector exactly for an `n` up to the length, and then gives the last `n`. -/
theorem fromEndMinus_eq_ok {messages result : List V} {n : Int32} :
    fromEndMinus messages n = .ok result ↔
      0 ≤ n.toInt ∧ n.toInt ≤ messages.length ∧ result = messages.rtake n.toInt.toNat := by
  unfold fromEndMinus List.rtake
  have hdrop : 0 ≤ n.toInt → n.toInt ≤ messages.length →
      ((messages.length : Int) - n.toInt).toNat = messages.length - n.toInt.toNat := by omega
  by_cases hn : 0 ≤ n.toInt ∧ n.toInt ≤ messages.length
  · rw [if_pos (by omega), hdrop hn.1 hn.2]
    simp only [Except.ok.injEq, hn, true_and]
    exact eq_comm
  · rw [if_neg (by omega)]
    simp only [reduceCtorEq, false_iff]
    omega

omit [DecidableEq K] in
theorem map_messages_eq_ok {x : Except Undefined (List V)} {messages : List V} :
    (Response.messages <$> x) = .ok (.messages messages) ↔ x = .ok messages := by
  cases x with
  | ok result =>
      constructor <;>
      · intro h
        cases h
        rfl
  | error e => exact iff_of_false (fun h => nomatch h) fun h => nomatch h

/-- A cache whose keys hold the ends of their logs. -/
structure Holds (limit : UInt64) (logs : Logs K V) (c : LocalCache K V) : Prop where
  limit_eq : c.maxMessagesPerKey = limit
  /-- There are no empty vectors. -/
  lookup_eq : ∀ key, c.cache.lookup key =
    if logs.held limit key = [] then none else some (logs.held limit key)

namespace Holds

variable {limit : UInt64} {logs : Logs K V} {c : LocalCache K V}

theorem new : (LocalCache.new limit : LocalCache K V).Holds limit fun _ => [] where
  limit_eq := rfl
  lookup_eq key := by simp [LocalCache.new, Logs.held]

theorem messages_eq (h : c.Holds limit logs) (key : K) : c.messages key = logs.held limit key := by
  rw [messages, h.lookup_eq]
  split <;> simp_all

theorem mem_iff (h : c.Holds limit logs) (key : K) : key ∈ c.cache ↔ logs.held limit key ≠ [] := by
  rw [← Finmap.lookup_isSome, h.lookup_eq]
  split <;> simp_all

theorem existsKey_eq (h : c.Holds limit logs) (key : K) :
    .found (c.existsKey key) = logs.answer limit (.existsKey key) := by
  unfold existsKey Logs.answer
  congr 1
  exact decide_eq_decide.mpr (h.mem_iff key)

theorem size_eq (h : c.Holds limit logs) : .size c.size = logs.answer limit .size := by
  have hkeys : {key | logs.held limit key ≠ []} = (c.cache.keys : Set K) := by
    ext key
    rw [Finset.mem_coe, Finmap.mem_keys, h.mem_iff]
    rfl
  rw [Logs.answer, hkeys, Set.ncard_coe_finset]
  rfl

theorem remove (h : c.Holds limit logs) (key : K) :
    (c.remove key).Holds limit (logs.after (.remove key)) where
  limit_eq := h.limit_eq
  lookup_eq key' := by
    show (c.cache.erase key).lookup key' = _
    rw [Logs.after]
    unfold Logs.held
    by_cases hkey : key' = key
    · subst hkey
      simp
    · rw [Finmap.lookup_erase_ne hkey, Function.update_of_ne hkey]
      exact h.lookup_eq key'

/-- What `put` does to the vector of the key. -/
theorem put_eq (h : c.Holds limit logs) (key : K) (message : V) :
    c.put key message =
      (if (logs.held limit key).length ≥ limit.toNat then eraseBegin (logs.held limit key)
        else pure (logs.held limit key)) >>= fun messages =>
          return { c with cache := c.cache.insert key (messages ++ [message]) } := by
  rw [LocalCache.put, ← h.messages_eq, ← h.limit_eq, messages]
  split <;> rfl

theorem put (h : c.Holds limit logs) (hlimit : 0 < limit) (key : K) (message : V) :
    ∃ c', c.put key message = .ok c' ∧ c'.Holds limit (logs.after (.put key message)) := by
  have hpos : 0 < limit.toNat := UInt64.lt_iff_toNat_lt.mp hlimit
  have hroom := rtake_concat_of_pos hpos (logs key) message
  have herase : (if (logs.held limit key).length ≥ limit.toNat then eraseBegin (logs.held limit key)
      else pure (logs.held limit key)) = .ok (if (logs.held limit key).length ≥ limit.toNat
        then (logs.held limit key).tail else logs.held limit key) := by
    split
    case isTrue hfull =>
      cases hheld : logs.held limit key with
      | nil =>
          -- a full vector is not empty
          rw [hheld, List.length_nil] at hfull
          omega
      | cons first messages => rfl
    case isFalse => rfl
  rw [h.put_eq, herase]
  refine ⟨_, rfl, h.limit_eq, fun key' => ?_⟩
  show (c.cache.insert key _).lookup key' = _
  rw [Logs.after]
  unfold Logs.held
  by_cases hkey : key' = key
  · subst hkey
    rw [Finmap.lookup_insert, Function.update_self, hroom,
      if_neg (List.append_ne_nil_of_right_ne_nil _ (List.cons_ne_nil _ _))]
  · rw [Finmap.lookup_insert_of_ne _ hkey, Function.update_of_ne hkey]
    exact h.lookup_eq key'

/-- Without room, the first `put` erases from an empty vector. -/
theorem put_of_zero (h : c.Holds limit logs) (hlimit : ¬ 0 < limit) (key : K) (message : V) :
    c.put key message = .error .eraseOfEmpty := by
  have hzero : limit.toNat = 0 := by
    rw [UInt64.lt_iff_toNat_lt] at hlimit
    exact Nat.eq_zero_of_not_pos hlimit
  have hheld : logs.held limit key = [] := by rw [Logs.held, hzero, List.rtake_zero]
  rw [h.put_eq, hheld, hzero]
  rfl

/-- A `get` answers with the end of the log exactly inside the window. -/
theorem get_iff (h : c.Holds limit logs) (key : K) (n : Option Int32) :
    (Response.messages <$> c.get key n) = .ok (logs.answer limit (.get key n)) ↔
      (Operation.get key n).InWindow limit logs := by
  unfold LocalCache.get
  rw [h.lookup_eq]
  -- an empty log answers anything, and otherwise the index has to stay inside of the window
  by_cases hheld : logs.held limit key = []
  · cases n <;> simp [hheld, Operation.InWindow, Logs.answer]
  · have hlength := List.length_pos_iff.mpr hheld
    have hcast := toInt_ofNat_le (logs.held limit key).length
    rw [if_neg hheld]
    cases n with
    | none => exact iff_of_true rfl trivial
    | some n =>
        simp only [Operation.InWindow, Logs.answer, Int32.lt_iff_toInt_lt, map_messages_eq_ok]
        split
        case isTrue hlt =>
          simp only [fromEndMinus_eq_ok, and_true]
          omega
        case isFalse hge =>
          rw [Except.ok.injEq, eq_comm, rtake_eq_self_iff]
          omega

/-- An operation in the window answers with what the logs say and keeps them. -/
theorem apply (h : c.Holds limit logs) {operation : Operation K V} (hwindow : operation.InWindow limit logs) :
    ∃ c', operation.apply c = .ok (logs.answer limit operation, c') ∧
      c'.Holds limit (logs.after operation) := by
  cases operation with
  | put key message =>
      obtain ⟨c', hput, hholds⟩ := h.put hwindow key message
      exact ⟨c', by rw [Operation.apply, hput]; rfl, hholds⟩
  | get key n =>
      refine ⟨c, ?_, h⟩
      have hget := (h.get_iff key n).mpr hwindow
      obtain ⟨messages, hmessages⟩ : ∃ messages, c.get key n = .ok messages := by
        cases hmessages : c.get key n with
        | ok messages => exact ⟨messages, rfl⟩
        | error e => rw [hmessages] at hget; exact nomatch hget
      rw [hmessages] at hget
      rw [Operation.apply, hmessages]
      exact congrArg (· >>= fun r => .ok (r, c)) hget
  | existsKey key => exact ⟨c, by rw [Operation.apply, h.existsKey_eq]; rfl, h⟩
  | size => exact ⟨c, by rw [Operation.apply, h.size_eq]; rfl, h⟩
  | remove key => exact ⟨c.remove key, rfl, h.remove key⟩

/-- An operation that answers with what the logs say is in the window. -/
theorem inWindow (h : c.Holds limit logs) {operation : Operation K V} {c' : LocalCache K V}
    (happly : operation.apply c = .ok (logs.answer limit operation, c')) :
    operation.InWindow limit logs := by
  cases operation with
  | put key message =>
      by_contra hlimit
      rw [Operation.apply, h.put_of_zero hlimit] at happly
      exact nomatch happly
  | get key n =>
      refine (h.get_iff key n).mp ?_
      rw [Operation.apply] at happly
      cases hget : c.get key n with
      | ok messages =>
          rw [hget] at happly
          exact congrArg (Prod.fst <$> ·) happly
      | error e =>
          rw [hget] at happly
          exact nomatch happly
  | existsKey key => trivial
  | size => trivial
  | remove key => trivial

/-- The answers that the logs say, from then on, are given exactly inside the window. -/
theorem run_iff (h : c.Holds limit logs) (operations : List (Operation K V)) :
    (∃ c', Operation.run operations c = .ok (logs.answers limit operations, c') ∧
      ∀ key, c'.messages key = (logs.afterAll operations).held limit key) ↔
      Operation.AllInWindow limit logs operations := by
  induction operations generalizing c logs with
  | nil => exact iff_of_true ⟨c, rfl, h.messages_eq⟩ trivial
  | cons operation operations ih =>
      constructor
      · rintro ⟨c', hrun, hheld⟩
        obtain ⟨⟨response, c₁⟩, happly, hrun⟩ := ok_of_bind hrun
        obtain ⟨⟨responses, c₂⟩, hrest, hrun⟩ := ok_of_bind hrun
        cases hrun
        have hwindow := h.inWindow happly
        -- the operation is a function: it left the cache that it leaves in the window
        obtain ⟨c₁', happly', hholds⟩ := h.apply hwindow
        rw [happly] at happly'
        cases happly'
        exact ⟨hwindow, (ih hholds).mp ⟨c', hrest, hheld⟩⟩
      · rintro ⟨hwindow, hall⟩
        obtain ⟨c₁, happly, hholds⟩ := h.apply hwindow
        obtain ⟨c', hrun, hheld⟩ := (ih hholds).mpr hall
        refine ⟨c', ?_, hheld⟩
        rw [Operation.run, happly]
        show (Operation.run operations c₁ >>= _) = _
        rw [hrun]
        rfl

end Holds

/-- The operations, on a new cache, are defined, answer what the logs say and leave each key with the end of
its log. -/
def IsBoundedLog (limit : UInt64) (operations : List (Operation K V)) : Prop :=
  let logs : Logs K V := fun _ => []
  ∃ c, Operation.run operations (.new limit) = .ok (logs.answers limit operations, c) ∧
    ∀ key, c.messages key = (logs.afterAll operations).held limit key

/-- **A bounded log per key**, exactly inside the window: each key holds the last messages put for it since it
was removed, as many as there is room for; `Get` answers with all of them or with the last `n`. -/
theorem bounded_log_iff (limit : UInt64) (operations : List (Operation K V)) :
    IsBoundedLog limit operations ↔ Operation.AllInWindow limit (fun _ => []) operations :=
  Holds.new.run_iff operations

/-- A cache without room erases from an empty vector at the first `Put`, and the last -1 messages begin after
the end. -/
theorem not_isBoundedLog :
    Operation.run [.put "key" "v1"] (.new 0) = .error .eraseOfEmpty ∧
    ¬ IsBoundedLog 0 [.put "key" "v1"] ∧
    Operation.run [.put "key" "v1", .get "key" (some (-1))] (.new 2) = .error .iteratorOutside ∧
    ¬ IsBoundedLog 2 [.put "key" "v1", .get "key" (some (-1))] := by
  have herase : Operation.run [.put "key" "v1"] (.new 0) = .error .eraseOfEmpty := rfl
  have hget : Operation.run [.put "key" "v1", .get "key" (some (-1))] (.new 2)
      = .error .iteratorOutside := rfl
  refine ⟨herase, ?_, hget, ?_⟩
  · rintro ⟨c, hrun, -⟩
    rw [herase] at hrun
    exact nomatch hrun
  · rintro ⟨c, hrun, -⟩
    rw [hget] at hrun
    exact nomatch hrun

/-- The earliest message gives way. -/
example : Prod.fst <$>
    Operation.run [.put "key" "v1", .put "key" "v2", .put "key" "v3", .get "key" none] (.new 2)
      = .ok [.done, .done, .done, .messages ["v2", "v3"]] := rfl

end LocalCache

end GenC
