import Mathlib.Algebra.Order.Ring.Nat
import Mathlib.Data.List.Forall2
import Mathlib.Algebra.BigOperators.Group.List.Basic
import GenC.Lib.Transition

/-!
# Task pools

A pool of tasks over a shared state. A task captures the futures of tasks spawned before it. When it
runs it waits for them one after the other, gives up with the error of the first that failed, and
otherwise does its work on what it got: one atomic access to the shared state. What it returns is
stored, and can be read from its future any number of times.

* `TaskPool.Step` — the tasks of a pool advance in any order that respects the waits.
* `Denotation`, `TaskPool.Sound` — results as names of values, whose meaning the shared state gives.
  If every job computes the value that its captured futures' values call for, then so does every
  task, in whatever order they run: **`Sound.step`**, **`Sound.future`**.
* **`Sound.exists_not_waiting`** (no set of unfinished tasks waits on itself), **`Sound.progress`** and
  **`Step.measure_lt`** (every run of the pool ends, and ends with all tasks finished).
-/

namespace GenC.Lib

variable {σ ε β V : Type}

/-! ## Jobs, tasks and pools -/

/-- What a task is to do. Its work yields nothing if the process ends there. -/
structure Job (σ ε β : Type) where
  captured : List Nat
  work : List β → σ → Option (Except ε β × σ)

inductive TaskPhase (ε β : Type) where
  | scheduled
  /-- It has some results, and is waiting for the rest. -/
  | waiting (got : List β) (rest : List Nat)
  | returning (result : Except ε β)
  | finished (result : Except ε β)

structure Task (σ ε β : Type) where
  job : Job σ ε β
  phase : TaskPhase ε β
  /-- How often the body has been entered. No code reads it. -/
  runs : Nat

/-- One step of a task that sees the futures `future`. -/
inductive Task.Step (future : Nat → Option (Except ε β)) :
    Task σ ε β → σ → Task σ ε β → σ → Prop where
  | start {t s} : t.phase = .scheduled →
      Step future t s { t with phase := .waiting [] t.job.captured, runs := t.runs + 1 } s
  | get {t s got j rest b} : t.phase = .waiting got (j :: rest) → future j = some (.ok b) →
      Step future t s { t with phase := .waiting (got ++ [b]) rest } s
  | fail {t s got j rest e} : t.phase = .waiting got (j :: rest) → future j = some (.error e) →
      Step future t s { t with phase := .returning (.error e) } s
  | work {t s got r s'} : t.phase = .waiting got [] → t.job.work got s = some (r, s') →
      Step future t s { t with phase := .returning r } s'
  | finish {t s r} : t.phase = .returning r →
      Step future t s { t with phase := .finished r } s

structure TaskPool (σ ε β : Type) where
  tasks : List (Task σ ε β)
  shared : σ

namespace TaskPool

def empty (s : σ) : TaskPool σ ε β := ⟨[], s⟩

/-- The result of a task, once it is there. -/
def future (p : TaskPool σ ε β) (i : Nat) : Option (Except ε β) :=
  match p.tasks[i]? with
  | some ⟨_, .finished r, _⟩ => some r
  | _ => none

/-- Schedule a job. The future of its task is named by the task's number. -/
def spawn (job : Job σ ε β) (p : TaskPool σ ε β) : Nat × TaskPool σ ε β :=
  (p.tasks.length, { p with tasks := p.tasks ++ [⟨job, .scheduled, 0⟩] })

inductive Step : TaskPool σ ε β → TaskPool σ ε β → Prop where
  | task {p i t t' s'} : p.tasks[i]? = some t → Task.Step p.future t p.shared t' s' →
      Step p { tasks := p.tasks.set i t', shared := s' }

/-- The `i`-th task has not finished. -/
def Pending (p : TaskPool σ ε β) (i : Nat) : Prop := i < p.tasks.length ∧ p.future i = none

/-- The `i`-th task is blocked on the future of the `j`-th. -/
def WaitsOn (p : TaskPool σ ε β) (i j : Nat) : Prop :=
  p.Pending j ∧ ∃ t got rest, p.tasks[i]? = some t ∧ t.phase = .waiting got (j :: rest)

theorem future_eq_some {p : TaskPool σ ε β} {i : Nat} {r : Except ε β} (h : p.future i = some r) :
    ∃ t, p.tasks[i]? = some t ∧ t.phase = .finished r := by
  unfold future at h
  split at h
  · next job r' runs heq =>
    cases h
    exact ⟨_, heq, rfl⟩
  · cases h

theorem future_of_finished {p : TaskPool σ ε β} {i : Nat} {t : Task σ ε β} {r : Except ε β}
    (h : p.tasks[i]? = some t) (hphase : t.phase = .finished r) : p.future i = some r := by
  obtain ⟨job, phase, runs⟩ := t
  cases hphase
  rw [future, h]

end TaskPool

/-! ## Waiting in order -/

section InOrder

variable {value : Nat → Except ε V}

/-- All of `js` have values, in order. -/
theorem mapM_eq_ok_iff {js : List Nat} {vs : List V} :
    js.mapM value = .ok vs ↔ List.Forall₂ (fun j v => value j = .ok v) js vs := by
  induction js generalizing vs with
  | nil => cases vs <;> simp [pure, Except.pure]
  | cons j js ih =>
      rw [List.mapM_cons]
      cases hj : value j with
      | error e => cases vs <;> simp [bind, Except.bind, hj]
      | ok v =>
          cases hjs : js.mapM value with
          | error e => cases vs <;> simp [bind, Except.bind, ← ih, hjs, hj]
          | ok ws => cases vs <;> simp [bind, Except.bind, pure, Except.pure, ← ih, hjs, hj]

/-- The first failing future decides. -/
theorem mapM_eq_error {done rest : List Nat} {vs : List V} {j : Nat} {e : ε}
    (hdone : done.mapM value = .ok vs) (hj : value j = .error e) :
    (done ++ j :: rest).mapM value = .error e := by
  rw [List.mapM_append, hdone, List.mapM_cons, hj]
  rfl

/-- A failure is the first future's, or that of a later one. -/
theorem of_mapM_cons_error {j : Nat} {js : List Nat} {e : ε}
    (h : (j :: js).mapM value = .error e) :
    value j = .error e ∨ ∃ v, value j = .ok v ∧ js.mapM value = .error e := by
  rw [List.mapM_cons] at h
  cases hj : value j with
  | error e' =>
      rw [hj] at h
      cases h
      exact .inl rfl
  | ok v =>
      refine .inr ⟨v, rfl, ?_⟩
      rw [hj] at h
      cases hjs : js.mapM value with
      | error e' => rw [hjs] at h; cases h; rfl
      | ok vs => rw [hjs] at h; cases h

theorem mapM_concat {done : List Nat} {vs : List V} {j : Nat} {v : V}
    (hdone : done.mapM value = .ok vs) (hj : value j = .ok v) :
    (done ++ [j]).mapM value = .ok (vs ++ [v]) := by
  rw [List.mapM_append, hdone, List.mapM_cons, hj]
  rfl

theorem mapM_congr {value' : Nat → Except ε V} {js : List Nat} (h : ∀ j ∈ js, value' j = value j) :
    js.mapM value' = js.mapM value := by
  induction js with
  | nil => rfl
  | cons j js ih =>
      rw [List.mapM_cons, List.mapM_cons, h j (List.mem_cons_self ..),
        ih fun k hk => h k (List.mem_cons_of_mem _ hk)]

end InOrder

/-! ## What results stand for -/

/-- A result `b` names a value, as long as the shared state says so. The state may be extended, and
names keep their meaning. `Inv n` is what the shared state satisfies with `n` accesses to come: a state
may be good for so many accesses only. -/
structure Denotation (σ β V : Type) where
  Inv : Nat → σ → Prop
  Ext : σ → σ → Prop
  Rel : σ → β → V → Prop
  inv_succ : ∀ {n s}, Inv (n + 1) s → Inv n s
  ext_refl : ∀ s, Ext s s
  rel_mono : ∀ {s s' b v}, Ext s s' → Rel s b v → Rel s' b v

/-- Results that are values themselves, over a state that says nothing. -/
def Denotation.values (V : Type) : Denotation Unit V V where
  Inv _ _ := True
  Ext _ _ := True
  Rel _ b v := b = v
  inv_succ _ := trivial
  ext_refl _ := trivial
  rel_mono _ h := h

namespace Denotation

variable (d : Denotation σ β V)

theorem inv_of_le {m n : Nat} {s : σ} (hle : m ≤ n) (h : d.Inv n s) : d.Inv m s := by
  induction hle with
  | refl => exact h
  | step _ ih => exact ih (d.inv_succ h)

/-- A result is a name of the value, or the same error. -/
inductive Matches (s : σ) : Except ε β → Except ε V → Prop where
  | ok {b v} : d.Rel s b v → Matches s (.ok b) (.ok v)
  | error (e) : Matches s (.error e) (.error e)

variable {d}

theorem Matches.mono {s s' : σ} {r : Except ε β} {x : Except ε V} (hext : d.Ext s s')
    (h : d.Matches s r x) : d.Matches s' r x := by
  cases h with
  | ok hrel => exact .ok (d.rel_mono hext hrel)
  | error e => exact .error e

theorem matches_values {s : Unit} {r x : Except ε V} :
    Denotation.Matches (.values V) s r x ↔ r = x := by
  constructor
  · intro h
    cases h with
    | ok hrel => exact congrArg _ hrel
    | error e => rfl
  · rintro rfl
    cases r with
    | ok v => exact .ok rfl
    | error e => exact .error e

end Denotation

/-- The job of the `i`-th task computes `value i` from the values of the tasks before it: it fails
with the first error among those it captured, and its work does the rest. -/
structure Job.Implements (d : Denotation σ β V) (value : Nat → Except ε V) (i : Nat)
    (job : Job σ ε β) : Prop where
  captured : ∀ j ∈ job.captured, j < i
  error : ∀ {e}, job.captured.mapM value = .error e → value i = .error e
  work : ∀ {got vs n s}, job.captured.mapM value = .ok vs → d.Inv (n + 1) s →
    List.Forall₂ (d.Rel s) got vs →
    ∃ r s', job.work got s = some (r, s') ∧ d.Inv n s' ∧ d.Ext s s' ∧ d.Matches s' r (value i)

/-- A sum with one of its summands set apart, to be replaced. -/
theorem sum_map_set {α : Type} (f : α → Nat) {l : List α} {i : Nat} {a : α} (h : l[i]? = some a) :
    ∃ k, (l.map f).sum = f a + k ∧ ∀ a', ((l.set i a').map f).sum = f a' + k := by
  induction l generalizing i with
  | nil => cases h
  | cons b l ih =>
      cases i with
      | zero =>
          obtain rfl : b = a := Option.some.inj h
          exact ⟨(l.map f).sum, by simp, by simp⟩
      | succ i =>
          obtain ⟨k, hk, hset⟩ := ih (i := i) h
          refine ⟨f b + k, ?_, fun a' => ?_⟩
          · rw [List.map_cons, List.sum_cons, hk, Nat.add_left_comm]
          · rw [List.set_cons_succ, List.map_cons, List.sum_cons, hset, Nat.add_left_comm]

/-- How often a task has yet to access the shared state. -/
def Task.toCome (t : Task σ ε β) : Nat :=
  match t.phase with
  | .scheduled => 1
  | .waiting _ _ => 1
  | .returning _ => 0
  | .finished _ => 0

/-- The phase of the `i`-th task agrees with what it is to compute. -/
def Task.PhaseSound (d : Denotation σ β V) (value : Nat → Except ε V) (i : Nat) (s : σ)
    (t : Task σ ε β) : Prop :=
  match t.phase with
  | .scheduled => t.runs = 0
  | .waiting got rest => t.runs = 1 ∧ ∃ done vs, t.job.captured = done ++ rest ∧
      done.mapM value = .ok vs ∧ List.Forall₂ (d.Rel s) got vs
  | .returning r => t.runs = 1 ∧ d.Matches s r (value i)
  | .finished r => t.runs = 1 ∧ d.Matches s r (value i)

namespace TaskPool

/-- How often the tasks have yet to access the shared state. -/
def toCome (p : TaskPool σ ε β) : Nat := (p.tasks.map Task.toCome).sum

/-- Every task does what it is to do, and is on its way to what it is to compute. There may be `n`
accesses besides those of the tasks. -/
structure Sound (d : Denotation σ β V) (value : Nat → Except ε V) (n : Nat) (p : TaskPool σ ε β) :
    Prop where
  inv : d.Inv (p.toCome + n) p.shared
  implements : ∀ {i : Nat} {t : Task σ ε β}, p.tasks[i]? = some t → t.job.Implements d value i
  phase : ∀ {i : Nat} {t : Task σ ε β}, p.tasks[i]? = some t → t.PhaseSound d value i p.shared

variable {d : Denotation σ β V} {value value' : Nat → Except ε V} {n : Nat} {p p' : TaskPool σ ε β}

theorem sound_empty {s : σ} (h : d.Inv n s) : (empty s : TaskPool σ ε β).Sound d value n where
  inv := (Nat.zero_add n).symm ▸ h
  implements h := by cases h
  phase h := by cases h

/-- A future that is there holds what its task was to compute. -/
theorem Sound.future (hs : p.Sound d value n) {i : Nat} {r : Except ε β} (h : p.future i = some r) :
    d.Matches p.shared r (value i) := by
  obtain ⟨t, ht, hphase⟩ := future_eq_some h
  have hsound := hs.phase ht
  rw [Task.PhaseSound, hphase] at hsound
  exact hsound.2

end TaskPool

theorem Task.PhaseSound.mono {d : Denotation σ β V} {value : Nat → Except ε V} {i : Nat} {s s' : σ}
    {t : Task σ ε β} (hext : d.Ext s s') (h : t.PhaseSound d value i s) :
    t.PhaseSound d value i s' := by
  obtain ⟨job, phase, runs⟩ := t
  cases phase with
  | scheduled => exact h
  | waiting got rest =>
      obtain ⟨hruns, done, vs, hdone, hvs, hgot⟩ := h
      exact ⟨hruns, done, vs, hdone, hvs, hgot.imp fun _ _ => d.rel_mono hext⟩
  | returning r => exact ⟨h.1, h.2.mono hext⟩
  | finished r => exact ⟨h.1, h.2.mono hext⟩

/-- A step of one task, among futures that hold what they should. -/
theorem Task.Step.sound {d : Denotation σ β V} {value : Nat → Except ε V} {i : Nat} {s s' : σ}
    {t t' : Task σ ε β} {future : Nat → Option (Except ε β)} (h : Task.Step future t s t' s')
    {n : Nat} (hinv : d.Inv (t.toCome + n) s) (hjob : t.job.Implements d value i)
    (hphase : t.PhaseSound d value i s)
    (hfuture : ∀ {j r}, future j = some r → d.Matches s r (value j)) :
    d.Inv (t'.toCome + n) s' ∧ d.Ext s s' ∧ t'.job = t.job ∧ t'.PhaseSound d value i s' := by
  obtain ⟨job, phase, runs⟩ := t
  cases h with
  | start h =>
      obtain rfl : phase = .scheduled := h
      obtain rfl : runs = 0 := hphase
      exact ⟨hinv, d.ext_refl _, rfl, rfl, [], [], rfl, rfl, .nil⟩
  | @get got j rest b h hj =>
      obtain rfl : phase = .waiting got (j :: rest) := h
      obtain ⟨hruns, done, vs, hdone, hvs, hgot⟩ := hphase
      have hvalue := hfuture hj
      cases hv : value j with
      | error e => rw [hv] at hvalue; cases hvalue
      | ok v =>
          rw [hv] at hvalue
          cases hvalue with
          | ok hrel =>
              refine ⟨hinv, d.ext_refl _, rfl, hruns, done ++ [j], vs ++ [v], ?_, ?_, ?_⟩
              · rw [List.append_assoc]
                exact hdone
              · exact mapM_concat hvs hv
              · exact List.rel_append hgot (.cons hrel .nil)
  | @fail got j rest e h hj =>
      obtain rfl : phase = .waiting got (j :: rest) := h
      obtain ⟨hruns, done, vs, hdone, hvs, -⟩ := hphase
      have hvalue := hfuture hj
      cases hv : value j with
      | ok v => rw [hv] at hvalue; cases hvalue
      | error e' =>
          rw [hv] at hvalue
          cases hvalue
          have hi : value i = .error e := hjob.error (hdone ▸ mapM_eq_error hvs hv)
          -- the access that the work would have been is not used
          have hinv' : d.Inv (n + 1) s := Nat.add_comm 1 n ▸ hinv
          refine ⟨(Nat.zero_add n).symm ▸ d.inv_succ hinv', d.ext_refl _, rfl, hruns, ?_⟩
          rw [hi]
          exact .error e
  | @work got r _ h hwork =>
      obtain rfl : phase = .waiting got [] := h
      obtain ⟨hruns, done, vs, hdone, hvs, hgot⟩ := hphase
      have hcaptured : job.captured.mapM value = .ok vs := by
        rw [show job.captured = done ++ [] from hdone, List.append_nil]
        exact hvs
      have hinv : d.Inv (n + 1) s := Nat.add_comm 1 n ▸ hinv
      obtain ⟨r', s'', hwork', hinv', hext, hmatches⟩ := hjob.work hcaptured hinv hgot
      obtain ⟨rfl, rfl⟩ := Prod.mk.inj (Option.some.inj (hwork'.symm.trans hwork))
      exact ⟨(Nat.zero_add n).symm ▸ hinv', hext, rfl, hruns, hmatches⟩
  | @finish r h =>
      obtain rfl : phase = .returning r := h
      exact ⟨hinv, d.ext_refl _, rfl, hphase⟩

namespace TaskPool

variable {d : Denotation σ β V} {value value' : Nat → Except ε V} {n : Nat} {p p' : TaskPool σ ε β}

/-- In whatever order the tasks advance, they go on to compute what they should. -/
theorem Sound.step (hs : p.Sound d value n) (h : Step p p') :
    p'.Sound d value n ∧ d.Ext p.shared p'.shared := by
  cases h with
  | @task i t t' s' ht htask =>
      -- only the work of the task that makes the step changes
      obtain ⟨k, hk, hset⟩ := sum_map_set Task.toCome ht
      have hinv : d.Inv (t.toCome + (k + n)) p.shared := by
        rw [← Nat.add_assoc, ← hk]
        exact hs.inv
      obtain ⟨hinv, hext, hjob, hphase⟩ :=
        htask.sound hinv (hs.implements ht) (hs.phase ht) hs.future
      refine ⟨⟨?_, ?_, ?_⟩, hext⟩
      · rw [toCome, hset, Nat.add_assoc]
        exact hinv
      · intro j u hu
        rcases of_getElem?_set hu with ⟨rfl, rfl⟩ | ⟨-, hu⟩
        · rw [hjob]
          exact hs.implements ht
        · exact hs.implements hu
      · intro j u hu
        rcases of_getElem?_set hu with ⟨rfl, rfl⟩ | ⟨-, hu⟩
        · exact hphase
        · exact (hs.phase hu).mono hext

/-- What the tasks are to compute depends on the tasks there are. -/
theorem Sound.congr (hs : p.Sound d value n) (h : ∀ i < p.tasks.length, value' i = value i) :
    p.Sound d value' n where
  inv := hs.inv
  implements {i t} ht := by
    have hi := hs.implements ht
    have hvalue : value' i = value i := h i (getElem?_lt ht)
    have hcaptured : t.job.captured.mapM value' = t.job.captured.mapM value :=
      mapM_congr fun j hj => h j ((hi.captured j hj).trans (getElem?_lt ht))
    exact
      { captured := hi.captured
        error := fun he => hvalue.trans (hi.error (hcaptured.symm.trans he))
        work := fun hvs hinv hgot => hvalue ▸ hi.work (hcaptured.symm.trans hvs) hinv hgot }
  phase {i t} ht := by
    have hi := hs.implements ht
    have hphase := hs.phase ht
    have hvalue : value' i = value i := h i (getElem?_lt ht)
    obtain ⟨job, phase, runs⟩ := t
    cases phase with
    | scheduled => exact hphase
    | waiting got rest =>
        obtain ⟨hruns, done, vs, hdone, hvs, hgot⟩ := hphase
        refine ⟨hruns, done, vs, hdone, ?_, hgot⟩
        rw [mapM_congr fun j hj => h j ((hi.captured j (hdone ▸ List.mem_append_left _ hj)).trans
          (getElem?_lt ht))]
        exact hvs
    | returning r => exact ⟨hphase.1, hvalue ▸ hphase.2⟩
    | finished r => exact ⟨hphase.1, hvalue ▸ hphase.2⟩

/-- A new task, whose job computes what is asked of it. -/
theorem Sound.spawn (hs : p.Sound d value (n + 1)) {job : Job σ ε β}
    (hjob : job.Implements d value p.tasks.length) : (p.spawn job).2.Sound d value n where
  inv := by
    -- a new task has one handle to come
    have htoCome : (p.spawn job).2.toCome = p.toCome + 1 := by
      rw [toCome, TaskPool.spawn, List.map_append, List.sum_append]
      rfl
    rw [htoCome, Nat.add_assoc, Nat.add_comm 1 n]
    exact hs.inv
  implements {i t} ht := by
    rcases of_getElem?_concat ht with ht | ⟨rfl, rfl⟩
    · exact hs.implements ht
    · exact hjob
  phase {i t} ht := by
    rcases of_getElem?_concat ht with ht | ⟨rfl, rfl⟩
    · exact hs.phase ht
    · exact rfl

/-- An access to the shared state that is not a task's. -/
theorem Sound.access (hs : p.Sound d value n) {m : Nat} {s' : σ} (hinv : d.Inv (p.toCome + m) s')
    (hext : d.Ext p.shared s') : ({ p with shared := s' } : TaskPool σ ε β).Sound d value m where
  inv := hinv
  implements ht := hs.implements ht
  phase ht := (hs.phase ht).mono hext

theorem Sound.succ (hs : p.Sound d value (n + 1)) : p.Sound d value n :=
  hs.access (d.inv_succ hs.inv) (d.ext_refl _)

/-- No body is entered twice, and none ends that was not entered. -/
theorem Sound.runs (hs : p.Sound d value n) {i : Nat} {t : Task σ ε β} (ht : p.tasks[i]? = some t) :
    t.runs ≤ 1 ∧ ∀ r, t.phase = .finished r → t.runs = 1 := by
  have hphase := hs.phase ht
  obtain ⟨job, phase, runs⟩ := t
  cases phase with
  | scheduled => exact ⟨(show runs = 0 from hphase) ▸ Nat.zero_le 1, fun _ h => nomatch h⟩
  | waiting got rest => exact ⟨Nat.le_of_eq hphase.1, fun _ h => nomatch h⟩
  | returning r => exact ⟨Nat.le_of_eq hphase.1, fun _ h => nomatch h⟩
  | finished r => exact ⟨Nat.le_of_eq hphase.1, fun _ _ => hphase.1⟩

/-! ## Every run of a pool ends -/

/-- A task that waits, waits for one spawned before it. -/
theorem Sound.waitsOn_lt (hs : p.Sound d value n) {i j : Nat} (h : p.WaitsOn i j) : j < i := by
  obtain ⟨-, t, got, rest, ht, hphase⟩ := h
  have hsound := hs.phase ht
  rw [Task.PhaseSound, hphase] at hsound
  obtain ⟨-, done, -, hdone, -⟩ := hsound
  apply (hs.implements ht).captured
  rw [hdone]
  exact List.mem_append_right _ (List.mem_cons_self ..)

/-- No set of tasks waits on itself. -/
theorem Sound.exists_not_waiting (hs : p.Sound d value n) {X : Set Nat} (hX : X.Nonempty) :
    ∃ i ∈ X, ∀ j ∈ X, ¬p.WaitsOn i j := by
  -- the task that was spawned first
  obtain ⟨i, hi, hmin⟩ := WellFounded.has_min (r := (· < ·)) Nat.lt_wfRel.wf X hX
  exact ⟨i, hi, fun j hj hwait => hmin j hj (hs.waitsOn_lt hwait)⟩

/-- As long as a task is unfinished, some task can advance. -/
theorem Sound.progress (hs : p.Sound d value n) {k : Nat} (hk : p.Pending k) : ∃ p', Step p p' := by
  -- an unfinished task that waits for none of the unfinished ones
  obtain ⟨i, ⟨hlt, hnone⟩, hmin⟩ := hs.exists_not_waiting (X := {i | p.Pending i}) ⟨k, hk⟩
  obtain ⟨t, ht⟩ : ∃ t, p.tasks[i]? = some t := ⟨_, List.getElem?_eq_getElem hlt⟩
  have hjob := hs.implements ht
  have hphase := hs.phase ht
  cases htp : t.phase with
  | scheduled => exact ⟨_, .task ht (.start htp)⟩
  | returning r => exact ⟨_, .task ht (.finish htp)⟩
  | finished r =>
      rw [future_of_finished ht htp] at hnone
      cases hnone
  | waiting got rest =>
      rw [Task.PhaseSound, htp] at hphase
      obtain ⟨-, done, vs, hdone, hvs, hgot⟩ := hphase
      cases rest with
      | nil =>
          rw [List.append_nil] at hdone
          have hinv : d.Inv (p.toCome - 1 + n + 1) p.shared := by
            obtain ⟨l, hl, -⟩ := sum_map_set Task.toCome ht
            have htoCome : t.toCome = 1 := by rw [Task.toCome, htp]
            have hpool : p.toCome - 1 + n + 1 = p.toCome + n := by
              rw [toCome, hl, htoCome]
              omega
            rw [hpool]
            exact hs.inv
          obtain ⟨r, s', hwork, -⟩ := hjob.work (hdone ▸ hvs) hinv hgot
          exact ⟨_, .task ht (.work htp hwork)⟩
      | cons j rest =>
          have hji : j < i := hjob.captured j (hdone ▸ List.mem_append_right _ (List.mem_cons_self ..))
          cases hj : p.future j with
          | none =>
              have hpending : p.Pending j := ⟨hji.trans hlt, hj⟩
              exact (hmin j hpending ⟨hpending, t, got, rest, ht, htp⟩).elim
          | some r =>
              cases r with
              | ok b => exact ⟨_, .task ht (.get htp hj)⟩
              | error e => exact ⟨_, .task ht (.fail htp hj)⟩

end TaskPool

/-- What a task has yet to do. -/
def Task.remaining (t : Task σ ε β) : Nat :=
  match t.phase with
  | .scheduled => t.job.captured.length + 3
  | .waiting _ rest => rest.length + 2
  | .returning _ => 1
  | .finished _ => 0

theorem Task.Step.remaining_lt {future : Nat → Option (Except ε β)} {s s' : σ} {t t' : Task σ ε β}
    (h : Task.Step future t s t' s') : t'.remaining < t.remaining := by
  obtain ⟨job, phase, runs⟩ := t
  cases h with
  | start h =>
      obtain rfl : phase = .scheduled := h
      exact Nat.lt_succ_self _
  | @get got j rest b h _ =>
      obtain rfl : phase = .waiting got (j :: rest) := h
      exact Nat.lt_succ_self _
  | @fail got j rest e h _ =>
      obtain rfl : phase = .waiting got (j :: rest) := h
      show 1 < rest.length + 1 + 2
      omega
  | @work got r _ h _ =>
      obtain rfl : phase = .waiting got [] := h
      exact Nat.lt_succ_self _
  | @finish r h =>
      obtain rfl : phase = .returning r := h
      exact Nat.lt_succ_self _

namespace TaskPool

variable {d : Denotation σ β V} {value : Nat → Except ε V} {n : Nat} {p p' : TaskPool σ ε β}

def measure (p : TaskPool σ ε β) : Nat := (p.tasks.map Task.remaining).sum

/-- Every step uses some of what there is to do, so there are only so many. -/
theorem Step.measure_lt (h : Step p p') : p'.measure < p.measure := by
  cases h with
  | @task i t t' s' ht htask =>
      obtain ⟨k, hk, hset⟩ := sum_map_set Task.remaining ht
      rw [measure, measure, hk, hset]
      exact Nat.add_lt_add_right htask.remaining_lt k

/-- The tasks can be left alone until none of them can advance. -/
theorem exists_quiescent (p : TaskPool σ ε β) :
    ∃ p', Relation.ReflTransGen Step p p' ∧ ∀ p'', ¬ Step p' p'' := by
  by_cases h : ∃ p', Step p p'
  · obtain ⟨p₁, hstep⟩ := h
    have hlt : p₁.measure < p.measure := hstep.measure_lt
    obtain ⟨p', hsteps, hends⟩ := exists_quiescent p₁
    exact ⟨p', .head hstep hsteps, hends⟩
  · exact ⟨p, .refl, fun p' hstep => h ⟨p', hstep⟩⟩
termination_by p.measure

theorem Step.length_eq (h : Step p p') : p'.tasks.length = p.tasks.length := by
  cases h with
  | task => exact List.length_set ..

end TaskPool

end GenC.Lib
