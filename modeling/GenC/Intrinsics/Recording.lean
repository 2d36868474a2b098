import GenC.Intrinsics.Monotone
import GenC.Intrinsics.Parametricity
import GenC.Lib.Fuel

/-!
# What a handler asks its context for

`ctx.recording` is `ctx` with a record of the operations it was asked for. A handler cannot tell the
difference (`ControlFlowHandler.returns_recording_iff`), so the record of a run in it is that of the run
in `ctx`.

A family of contexts, one for each amount of fuel, gives the operations their meaning: what they return
or fail with, given enough of it.
-/

namespace GenC

open Lib

variable {σ V α : Type}

/-- An operation of a context. A materialization is one with or without an output. -/
inductive Operation (V : Type) where
  | createValue (v : Value)
  | createCall (function : V) (argument : Option V)
  | createStruct (members : List V)
  | createSelection (source : V) (index : UInt32)
  | materialize (value : V) (output : Bool)

/-- `x`, and `op` on the record when it ends. -/
def recorded (op : Operation V) (x : Exec σ α) : Exec (σ × List (Operation V)) α :=
  x.zoom Prod.fst fun s t => (s, t.2 ++ [op])

def Context.recording (ctx : Context σ V) : Context (σ × List (Operation V)) V where
  createValue v := recorded (.createValue v) (ctx.createValue v)
  createCall f a := recorded (.createCall f a) (ctx.createCall f a)
  createStruct members := recorded (.createStruct members) (ctx.createStruct members)
  createSelection source index := recorded (.createSelection source index) (ctx.createSelection source index)
  materialize v output := recorded (.materialize v output.isSome) (ctx.materialize v output)

/-! ## Recorded operations -/

section

variable {op : Operation V} {x : Exec σ α} {s s' : σ} {l l' : List (Operation V)} {a : α} {e : Status}

theorem returns_recorded_iff :
    Run.Returns (recorded op x) (s, l) a (s', l') ↔ Run.Returns x s a s' ∧ l' = l ++ [op] := by
  constructor
  · intro h
    obtain ⟨s'', hx, hs⟩ := h.of_zoom
    obtain ⟨rfl, rfl⟩ := Prod.mk.inj hs
    exact ⟨hx, rfl⟩
  · rintro ⟨hx, rfl⟩
    exact hx.zoom

theorem fails_recorded_iff :
    Run.Fails (recorded op x) (s, l) e (s', l') ↔ Run.Fails x s e s' ∧ l' = l ++ [op] := by
  constructor
  · rintro ⟨events, h⟩
    unfold recorded Run.zoom at h
    rcases hx : x s with ⟨events', b | e' | k | _⟩ <;> simp only [hx] at h <;> cases h
    exact ⟨⟨events, hx⟩, rfl⟩
  · rintro ⟨hx, rfl⟩
    exact hx.zoom

/-- What `get` makes of a materialization leaves the state alone. -/
theorem recorded_bind_get (x : Exec σ MaterializeResult) :
    (recorded op x >>= fun m => m.get) = recorded op (x >>= fun m => m.get) := by
  funext ⟨s, l⟩
  rw [Run.bind_apply]
  unfold recorded Run.zoom
  simp only [Run.bind_apply]
  rcases x s with ⟨events, m | e | k | _⟩ <;> simp only
  rw [MaterializeResult.get, MaterializeResult.get]
  cases m.status <;> simp

theorem Context.recording_materializeValue (ctx : Context σ V) (v : V) :
    ctx.recording.materializeValue v = recorded (.materialize v true) (ctx.materializeValue v) :=
  recorded_bind_get _

end

/-! ## Recording changes nothing -/

/-- States with a record, and the states themselves. -/
def Recorded.relator (σ V : Type) : Relator Event Crash Status (σ × List (Operation V)) σ :=
  .simulation Event Crash (W := Unit) (fun _ s t => s.1 = t) Eq fun _ => rfl

namespace ControlFlowHandler

theorem recorded_related (op : Operation V) (x : Exec σ α) :
    (Recorded.relator σ V).Rel () (fun _ => Eq) (recorded op x) x := by
  rintro w hw ⟨s, l⟩ _ rfl
  refine ⟨(), le_refl _, ?_⟩
  unfold recorded Run.zoom
  rcases x s with ⟨events, a | e | k | _⟩
  · exact .ok rfl rfl
  · exact .error rfl rfl
  · exact .crash
  · exact .outOfFuel

theorem recording_related (ctx : Context σ V) :
    ctx.recording.Related (Recorded.relator σ V) True (fun _ => True) (fun _ => Eq) () ctx where
  keeps _ h := h
  createValue _ _ := recorded_related _ _
  createCall := by
    rintro w f f' a a' - rfl ha -
    obtain rfl : a = a' := by
      cases ha with
      | some h => rw [h]
      | none => rfl
    exact recorded_related _ _
  createStruct := by
    rintro w vs vs' - hvs
    obtain rfl : vs = vs' := by rwa [List.forall₂_eq_eq_eq] at hvs
    exact recorded_related _ _
  materialize := by
    rintro w v v' output - rfl -
    exact (recorded_related _ _).mono (le_refl _) fun _ _ _ _ h => ⟨h, fun _ _ => trivial⟩

variable [ProtoText] {ctx : Context σ V} {handler : ControlFlowHandler} {intr : Intrinsic}
  {arg : Option V} {s s' : σ}

theorem executeCall_recording_related (ctx : Context σ V) (fuel : Nat) (handler : ControlFlowHandler)
    (intr : Intrinsic) (arg : Option V) :
    (Recorded.relator σ V).Rel () (fun _ => Eq) (handler.executeCall ctx.recording fuel intr arg)
      (handler.executeCall ctx fuel intr arg) := by
  have hkeeps : handler.Keeps fun _ => True := by cases handler <;> simp [Keeps]
  have harg : Option.Rel Eq arg arg := by cases arg <;> constructor; rfl
  exact executeCall_related (recording_related ctx) ⟨trivial, fun _ _ _ => trivial⟩ fuel hkeeps trivial
    harg fun _ => trivial

/-- **What a handler returns does not depend on being recorded.** -/
theorem returns_recording_iff {fuel : Nat} {v : V} (l : List (Operation V)) :
    Run.Returns (handler.executeCall ctx fuel intr arg) s v s' ↔
      ∃ l', Run.Returns (handler.executeCall ctx.recording fuel intr arg) (s, l) v (s', l') := by
  obtain ⟨_, _, hend⟩ := executeCall_recording_related ctx fuel handler intr arg () (le_refl _) (s, l) s rfl
  rcases hx : handler.executeCall ctx.recording fuel intr arg (s, l) with ⟨events, o⟩
  rcases hy : handler.executeCall ctx fuel intr arg s with ⟨events', o'⟩
  rw [hx, hy] at hend
  constructor
  · rintro ⟨_, h⟩
    cases hy.symm.trans h
    cases hend with
    | @ok _ _ t _ ht h =>
        obtain rfl := h
        obtain ⟨t, l'⟩ := t
        obtain rfl : t = s' := ht
        exact ⟨l', events, hx⟩
  · rintro ⟨l', _, h⟩
    cases hx.symm.trans h
    cases hend with
    | ok ht h =>
        obtain rfl := h
        obtain rfl := ht
        exact ⟨events', hy⟩

/-- Nor what it fails with. -/
theorem fails_recording_iff {fuel : Nat} {e : Status} (l : List (Operation V)) :
    Run.Fails (handler.executeCall ctx fuel intr arg) s e s' ↔
      ∃ l', Run.Fails (handler.executeCall ctx.recording fuel intr arg) (s, l) e (s', l') := by
  obtain ⟨_, _, hend⟩ := executeCall_recording_related ctx fuel handler intr arg () (le_refl _) (s, l) s rfl
  rcases hx : handler.executeCall ctx.recording fuel intr arg (s, l) with ⟨events, o⟩
  rcases hy : handler.executeCall ctx fuel intr arg s with ⟨events', o'⟩
  rw [hx, hy] at hend
  constructor
  · rintro ⟨_, h⟩
    cases hy.symm.trans h
    cases hend with
    | @error _ _ t _ ht h =>
        obtain rfl := h
        obtain ⟨t, l'⟩ := t
        obtain rfl : t = s' := ht
        exact ⟨l', events, hx⟩
  · rintro ⟨l', _, h⟩
    cases hx.symm.trans h
    cases hend with
    | error ht h =>
        obtain rfl := h
        obtain rfl := ht
        exact ⟨events', hy⟩

end ControlFlowHandler

/-! ## Families of contexts -/

namespace Context

/-- With more fuel the operations do whatever they do with less. -/
def Growing (ctxs : Nat → Context σ V) : Prop := ∀ ⦃n m⦄, n ≤ m → (ctxs n).Le (ctxs m)

theorem recorded_le {op : Operation V} {x y : Exec σ α} (h : Run.Le x y) :
    Run.Le (recorded op x) (recorded op y) := h.zoom

theorem Le.recording {ctx ctx' : Context σ V} (h : ctx.Le ctx') : ctx.recording.Le ctx'.recording where
  createValue v := recorded_le (h.createValue v)
  createCall f a := recorded_le (h.createCall f a)
  createStruct vs := recorded_le (h.createStruct vs)
  createSelection v i := recorded_le (h.createSelection v i)
  materialize v pb := recorded_le (h.materialize v pb)

section

variable (ctxs : Nat → Context σ V)

def Creates (v : Value) (s : σ) (r : V) (s' : σ) : Prop :=
  Run.Finally (fun n => (ctxs n).createValue v) s r s'

def CreateFails (v : Value) (s : σ) (e : Status) (s' : σ) : Prop :=
  Run.FinallyFails (fun n => (ctxs n).createValue v) s e s'

def Calls (f : V) (a : Option V) (s : σ) (r : V) (s' : σ) : Prop :=
  Run.Finally (fun n => (ctxs n).createCall f a) s r s'

def CallFails (f : V) (a : Option V) (s : σ) (e : Status) (s' : σ) : Prop :=
  Run.FinallyFails (fun n => (ctxs n).createCall f a) s e s'

/-- Materializing `v` into a message gives `pb`. -/
def Shows (v : V) (s : σ) (pb : Value) (s' : σ) : Prop :=
  Run.Finally (fun n => (ctxs n).materializeValue v) s pb s'

def ShowFails (v : V) (s : σ) (e : Status) (s' : σ) : Prop :=
  Run.FinallyFails (fun n => (ctxs n).materializeValue v) s e s'

end

section

variable {ctxs : Nat → Context σ V} {s s' : σ} {l l' : List (Operation V)} {v pb : Value} {f r : V}
  {a : Option V} {e : Status}

theorem finally_recorded_iff {x : Nat → Exec σ α} {op : Operation V} {a : α} :
    Run.Finally (fun n => recorded op (x n)) (s, l) a (s', l') ↔ Run.Finally x s a s' ∧ l' = l ++ [op] := by
  simp only [Run.Finally, returns_recorded_iff, exists_and_right]

theorem finallyFails_recorded_iff {x : Nat → Exec σ α} {op : Operation V} :
    Run.FinallyFails (fun n => recorded op (x n)) (s, l) e (s', l') ↔
      Run.FinallyFails x s e s' ∧ l' = l ++ [op] := by
  simp only [Run.FinallyFails, fails_recorded_iff, exists_and_right]

theorem creates_recording_iff : Creates (fun n => (ctxs n).recording) v (s, l) r (s', l') ↔
    Creates ctxs v s r s' ∧ l' = l ++ [.createValue v] := finally_recorded_iff

theorem createFails_recording_iff : CreateFails (fun n => (ctxs n).recording) v (s, l) e (s', l') ↔
    CreateFails ctxs v s e s' ∧ l' = l ++ [.createValue v] := finallyFails_recorded_iff

theorem calls_recording_iff : Calls (fun n => (ctxs n).recording) f a (s, l) r (s', l') ↔
    Calls ctxs f a s r s' ∧ l' = l ++ [.createCall f a] := finally_recorded_iff

theorem callFails_recording_iff : CallFails (fun n => (ctxs n).recording) f a (s, l) e (s', l') ↔
    CallFails ctxs f a s e s' ∧ l' = l ++ [.createCall f a] := finallyFails_recorded_iff

theorem shows_recording_iff : Shows (fun n => (ctxs n).recording) r (s, l) pb (s', l') ↔
    Shows ctxs r s pb s' ∧ l' = l ++ [.materialize r true] := by
  simp only [Shows, recording_materializeValue, finally_recorded_iff]

theorem showFails_recording_iff : ShowFails (fun n => (ctxs n).recording) r (s, l) e (s', l') ↔
    ShowFails ctxs r s e s' ∧ l' = l ++ [.materialize r true] := by
  simp only [ShowFails, recording_materializeValue, finallyFails_recorded_iff]

namespace Growing

variable (h : Growing ctxs)

include h

theorem recording : Growing fun n => (ctxs n).recording := fun _ _ hnm => (h hnm).recording

theorem createValue (v : Value) : Run.Growing fun n => (ctxs n).createValue v :=
  fun _ _ hnm => (h hnm).createValue v

theorem createCall (f : V) (a : Option V) : Run.Growing fun n => (ctxs n).createCall f a :=
  fun _ _ hnm => (h hnm).createCall f a

theorem materialize (v : V) (output : Option Value) : Run.Growing fun n => (ctxs n).materialize v output :=
  fun _ _ hnm => (h hnm).materialize v output

theorem materializeValue (v : V) : Run.Growing fun n => (ctxs n).materializeValue v :=
  fun _ _ hnm => (h hnm).materializeValue v

end Growing

end

end Context

end GenC
