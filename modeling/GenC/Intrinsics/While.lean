import GenC.Intrinsics.Recording

/-!
# The loop of `While`

What the loop does in a family of contexts, with the record of it. It returns after as many iterations as
there are, each of which asks the condition and then calls the body (`finally_whileLoop_iff`), and it
fails where the first of these operations does (`finallyFails_whileLoop_iff`).
-/

namespace GenC

open Lib

variable {σ V : Type}

namespace While

section

variable (ctxs : Nat → Context σ V) (c b : V)

/-- The condition `c` was called on `x`, and what it returned shows `pb`. -/
def Asks (x : V) (s : σ) (v : V) (pb : Value) (s' : σ) : Prop :=
  ∃ u, Context.Calls ctxs c (some x) s v u ∧ Context.Shows ctxs v u pb s'

/-- From `x`, the body `b` was called on each iterate. Before that, the condition shows `true`. An
iterate is listed with what the condition returned for it. -/
inductive Iterates : List (V × V) → V → σ → V → σ → Prop where
  | nil {x : V} {s : σ} : Iterates [] x s x s
  | cons {iterates : List (V × V)} {x v y z : V} {pb : Value} {s s₁ s₂ s₃ : σ}
      (hask : Asks ctxs c x s v pb s₁) (htrue : pb.boolean? = some true)
      (hcall : Context.Calls ctxs b (some x) s₁ y s₂) (hrest : Iterates iterates y s₂ z s₃) :
      Iterates ((x, v) :: iterates) x s z s₃

end

def asking (c x v : V) : List (Operation V) := [.createCall c (some x), .materialize v true]

def iterating (c b : V) (iterates : List (V × V)) : List (Operation V) :=
  iterates.flatMap fun (x, v) => asking c x v ++ [.createCall b (some x)]

/-- What keeps the loop from going on from `x`. -/
inductive Stuck [ProtoText] (ctxs : Nat → Context σ V) (c b x : V) (s : σ) :
    List (Operation V) → Status → σ → Prop where
  | condition {e : Status} {s' : σ} (h : Context.CallFails ctxs c (some x) s e s') :
      Stuck ctxs c b x s [.createCall c (some x)] e s'
  | materialize {v : V} {e : Status} {u s' : σ} (hcall : Context.Calls ctxs c (some x) s v u)
      (h : Context.ShowFails ctxs v u e s') : Stuck ctxs c b x s (asking c x v) e s'
  | notBoolean {v : V} {pb : Value} {s' : σ} (hask : Asks ctxs c x s v pb s')
      (h : pb.boolean? = none) : Stuck ctxs c b x s (asking c x v)
        (.invalidArgument ("Condition does not have boolean: " ++ debugString pb)) s'
  | body {v : V} {pb : Value} {e : Status} {u s' : σ} (hask : Asks ctxs c x s v pb u)
      (htrue : pb.boolean? = some true) (h : Context.CallFails ctxs b (some x) u e s') :
      Stuck ctxs c b x s (asking c x v ++ [.createCall b (some x)]) e s'

end While

open While ControlFlowHandler

variable [ProtoText]

section

variable {ctxs : Nat → Context σ V} (h : Context.Growing ctxs) {c b x y : V} {s s' : σ} {e : Status}
  {l l' : List (Operation V)}

/-- The rest of an iteration, when the condition shows `pb`. -/
def whileRest (ctxs : Nat → Context σ V) (c b x : V) (pb : Value) (n : Nat) : Exec σ V :=
  match pb.boolean? with
  | none => Run.throw (.invalidArgument ("Condition does not have boolean: " ++ debugString pb))
  | some false => pure x
  | some true => do
      let y ← (ctxs n).createCall b (some x)
      whileLoop (ctxs n) c b n y

/-- One iteration, and as much of the others as there is fuel for. -/
def whileStep (ctxs : Nat → Context σ V) (c b x : V) (n : Nat) : Exec σ V := do
  let v ← (ctxs n).createCall c (some x)
  let pb ← (ctxs n).materializeValue v
  whileRest ctxs c b x pb n

include h

theorem whileRest_growing (pb : Value) : Run.Growing (whileRest ctxs c b x pb) := by
  intro n m hnm
  unfold whileRest
  rcases pb.boolean? with _ | _ | _
  · exact .refl _
  · exact .refl _
  · exact (h.createCall b (some x) hnm).bind (whileLoop_le (h hnm) c b hnm)

theorem whileStep_congr (n : Nat) : (∃ m, Run.Le (whileLoop (ctxs n) c b n x) (whileStep ctxs c b x m)) ∧
    ∃ m, Run.Le (whileStep ctxs c b x n) (whileLoop (ctxs m) c b m x) := by
  constructor
  · refine ⟨n, ?_⟩
    cases n with
    | zero => exact .outOfFuel_le _
    | succ n =>
        refine .bind (.refl _) fun v => .bind (.refl _) fun pb => ?_
        -- with the same condition, both stop or both go on
        unfold whileRest
        rcases pb.boolean? with _ | _ | _
        · exact .refl _
        · exact .refl _
        · exact .bind (.refl _) (whileLoop_le (h (le_refl _)) c b (Nat.le_succ n))
  · refine ⟨n + 1, ?_⟩
    have hle := h (Nat.le_succ n)
    refine (hle.createCall c (some x)).bind fun v => (hle.materializeValue v).bind fun pb => ?_
    -- one step back, with fuel to spare for the rest
    unfold whileRest
    rcases pb.boolean? with _ | _ | _
    · exact .refl _
    · exact .refl _
    · exact (hle.createCall b (some x)).bind (whileLoop_le hle c b (le_refl n))

theorem finally_whileLoop_step_iff :
    Run.Finally (fun n => whileLoop (ctxs n) c b n x) s y s' ↔ ∃ v pb u, Asks ctxs c x s v pb u ∧
      Run.Finally (whileRest ctxs c b x pb) u y s' := by
  rw [Run.finally_congr (fun n => (whileStep_congr h n).1) fun n => (whileStep_congr h n).2]
  show Run.Finally (fun n => (ctxs n).createCall c (some x) >>= fun v =>
    (ctxs n).materializeValue v >>= fun pb => whileRest ctxs c b x pb n) s y s' ↔ _
  rw [Run.finally_bind_iff (h.createCall c (some x)) fun v =>
    (h.materializeValue v).bind fun pb => whileRest_growing h pb]
  simp only [Run.finally_bind_iff (h.materializeValue _) fun pb => whileRest_growing h pb]
  constructor
  · rintro ⟨v, u₁, hcall, pb, u, hshow, hrest⟩
    exact ⟨v, pb, u, ⟨u₁, hcall, hshow⟩, hrest⟩
  · rintro ⟨v, pb, u, ⟨u₁, hcall, hshow⟩, hrest⟩
    exact ⟨v, u₁, hcall, pb, u, hshow, hrest⟩

theorem finallyFails_whileLoop_step_iff :
    Run.FinallyFails (fun n => whileLoop (ctxs n) c b n x) s e s' ↔
      Context.CallFails ctxs c (some x) s e s' ∨
        (∃ v u, Context.Calls ctxs c (some x) s v u ∧ Context.ShowFails ctxs v u e s') ∨
          ∃ v pb u, Asks ctxs c x s v pb u ∧ Run.FinallyFails (whileRest ctxs c b x pb) u e s' := by
  rw [Run.finallyFails_congr (fun n => (whileStep_congr h n).1) fun n => (whileStep_congr h n).2]
  show Run.FinallyFails (fun n => (ctxs n).createCall c (some x) >>= fun v =>
    (ctxs n).materializeValue v >>= fun pb => whileRest ctxs c b x pb n) s e s' ↔ _
  rw [Run.finallyFails_bind_iff (h.createCall c (some x)) fun v =>
    (h.materializeValue v).bind fun pb => whileRest_growing h pb]
  simp only [Run.finallyFails_bind_iff (h.materializeValue _) fun pb => whileRest_growing h pb]
  constructor
  · rintro (hcall | ⟨v, u₁, hcall, hshow | ⟨pb, u, hshow, hrest⟩⟩)
    · exact .inl hcall
    · exact .inr (.inl ⟨v, u₁, hcall, hshow⟩)
    · exact .inr (.inr ⟨v, pb, u, ⟨u₁, hcall, hshow⟩, hrest⟩)
  · rintro (hcall | ⟨v, u₁, hcall, hshow⟩ | ⟨v, pb, u, ⟨u₁, hcall, hshow⟩, hrest⟩)
    · exact .inl hcall
    · exact .inr ⟨v, u₁, hcall, .inl hshow⟩
    · exact .inr ⟨v, u₁, hcall, .inr ⟨pb, u, hshow, hrest⟩⟩

omit [ProtoText] in
/-- The condition has one answer. -/
theorem While.Asks.unique {v v' : V} {pb pb' : Value} {u u' : σ} (hask : Asks ctxs c x s v pb u)
    (hask' : Asks ctxs c x s v' pb' u') : v = v' ∧ pb = pb' ∧ u = u' := by
  obtain ⟨u₁, hcall, hshow⟩ := hask
  obtain ⟨u₁', hcall', hshow'⟩ := hask'
  obtain ⟨rfl, rfl⟩ := (h.createCall c (some x)).unique hcall hcall'
  obtain ⟨rfl, rfl⟩ := (h.materializeValue v).unique hshow hshow'
  exact ⟨rfl, rfl, rfl⟩

/-- Once the condition was asked, the loop is the rest of the iteration. -/
theorem finally_whileLoop_of_asks_iff {v : V} {pb : Value} {u : σ} (hask : Asks ctxs c x s v pb u) :
    Run.Finally (fun n => whileLoop (ctxs n) c b n x) s y s' ↔
      Run.Finally (whileRest ctxs c b x pb) u y s' := by
  refine (finally_whileLoop_step_iff h).trans ?_
  constructor
  · rintro ⟨v', pb', u', hask', hrest⟩
    obtain ⟨rfl, rfl, rfl⟩ := While.Asks.unique h hask hask'
    exact hrest
  · exact fun hrest => ⟨v, pb, u, hask, hrest⟩

theorem finallyFails_whileLoop_of_asks_iff {v : V} {pb : Value} {u : σ} (hask : Asks ctxs c x s v pb u) :
    Run.FinallyFails (fun n => whileLoop (ctxs n) c b n x) s e s' ↔
      Run.FinallyFails (whileRest ctxs c b x pb) u e s' := by
  refine (finallyFails_whileLoop_step_iff h).trans ?_
  obtain ⟨u₁, hcall, hshow⟩ := hask
  constructor
  · rintro (hfails | ⟨v', u', hcall', hfails⟩ | ⟨v', pb', u', hask', hrest⟩)
    · exact ((h.createCall c (some x)).not_both hcall hfails).elim
    · obtain ⟨rfl, rfl⟩ := (h.createCall c (some x)).unique hcall hcall'
      exact ((h.materializeValue v).not_both hshow hfails).elim
    · obtain ⟨rfl, rfl, rfl⟩ := While.Asks.unique h ⟨u₁, hcall, hshow⟩ hask'
      exact hrest
  · exact fun hrest => .inr (.inr ⟨v, pb, u, ⟨u₁, hcall, hshow⟩, hrest⟩)

/-- After its iterations the loop goes on from the last iterate. -/
theorem finally_whileLoop_of_iterates {iterates : List (V × V)} {z : V} {t : σ}
    (hiterates : Iterates ctxs c b iterates x s z t)
    (hz : Run.Finally (fun n => whileLoop (ctxs n) c b n z) t y s') :
    Run.Finally (fun n => whileLoop (ctxs n) c b n x) s y s' := by
  induction hiterates with
  | nil => exact hz
  | @cons _ x v y' _ pb s u₁ u₂ _ hask htrue hcall _ ih =>
      refine (finally_whileLoop_step_iff h).mpr ⟨v, pb, u₁, hask, ?_⟩
      unfold whileRest
      rw [htrue]
      exact (Run.finally_bind_iff (h.createCall b (some x)) fun y n m hnm =>
        whileLoop_le (h hnm) c b hnm y).mpr ⟨y', u₂, hcall, ih hz⟩

theorem finallyFails_whileLoop_of_iterates {iterates : List (V × V)} {z : V} {t : σ}
    (hiterates : Iterates ctxs c b iterates x s z t)
    (hz : Run.FinallyFails (fun n => whileLoop (ctxs n) c b n z) t e s') :
    Run.FinallyFails (fun n => whileLoop (ctxs n) c b n x) s e s' := by
  induction hiterates with
  | nil => exact hz
  | @cons _ x v y' _ pb s u₁ u₂ _ hask htrue hcall _ ih =>
      refine (finallyFails_whileLoop_step_iff h).mpr (.inr (.inr ⟨v, pb, u₁, hask, ?_⟩))
      unfold whileRest
      rw [htrue]
      exact (Run.finallyFails_bind_iff (h.createCall b (some x)) fun y n m hnm =>
        whileLoop_le (h hnm) c b hnm y).mpr (.inr ⟨y', u₂, hcall, ih hz⟩)

/-- **The loop returns the first iterate on which the condition shows `false`.** -/
theorem finally_whileLoop_iff :
    Run.Finally (fun n => whileLoop (ctxs n) c b n x) s y s' ↔ ∃ iterates t v pb,
      Iterates ctxs c b iterates x s y t ∧ Asks ctxs c y t v pb s' ∧ pb.boolean? = some false := by
  constructor
  · rintro ⟨m, hreturns⟩
    -- the context is that of `m`, however little fuel of the loop is left
    suffices hloop : ∀ (n : Nat) {x : V} {s : σ}, Run.Returns (whileLoop (ctxs m) c b n x) s y s' →
        ∃ iterates t v pb, Iterates ctxs c b iterates x s y t ∧ Asks ctxs c y t v pb s' ∧
          pb.boolean? = some false from hloop m hreturns
    intro n
    induction n with
    | zero =>
        rintro x s ⟨_, hl⟩
        cases hl
    | succ n ih =>
        intro x s hreturns
        obtain ⟨v, u₁, hcall, hreturns⟩ := hreturns.of_bind
        obtain ⟨pb, u, hshow, hreturns⟩ := hreturns.of_bind
        have hask : Asks ctxs c x s v pb u := ⟨u₁, ⟨m, hcall⟩, m, hshow⟩
        split at hreturns
        · obtain ⟨_, hl⟩ := hreturns
          cases hl
        · next hfalse =>
            obtain ⟨rfl, rfl⟩ := hreturns.unique (.pure x u)
            exact ⟨[], s, v, pb, .nil, hask, hfalse⟩
        · next htrue =>
            obtain ⟨x', u₂, hcall, hreturns⟩ := hreturns.of_bind
            obtain ⟨iterates, t, v', pb', hiterates, hend⟩ := ih hreturns
            exact ⟨(x, v) :: iterates, t, v', pb', .cons hask htrue ⟨m, hcall⟩ hiterates, hend⟩
  · rintro ⟨iterates, t, v, pb, hiterates, hask, hfalse⟩
    refine finally_whileLoop_of_iterates h hiterates ?_
    refine (finally_whileLoop_step_iff h).mpr ⟨v, pb, s', hask, ?_⟩
    unfold whileRest
    rw [hfalse]
    exact Run.finally_pure_iff.mpr ⟨rfl, rfl⟩

/-- **The loop fails where it first cannot go on.** -/
theorem finallyFails_whileLoop_iff :
    Run.FinallyFails (fun n => whileLoop (ctxs n) c b n x) s e s' ↔ ∃ iterates z t l,
      Iterates ctxs c b iterates x s z t ∧ Stuck ctxs c b z t l e s' := by
  constructor
  · rintro ⟨m, hfails⟩
    suffices hloop : ∀ (n : Nat) {x : V} {s : σ}, Run.Fails (whileLoop (ctxs m) c b n x) s e s' →
        ∃ iterates z t l, Iterates ctxs c b iterates x s z t ∧ Stuck ctxs c b z t l e s' from
      hloop m hfails
    intro n
    -- induction on the fuel, for any state and value to go on from
    induction n with
    | zero =>
        rintro x s ⟨_, hl⟩
        cases hl
    | succ n ih =>
        intro x s hfails
        rcases hfails.of_bind with hcall | ⟨v, u₁, hcall, hfails⟩
        · exact ⟨[], x, s, _, .nil, .condition ⟨m, hcall⟩⟩
        rcases hfails.of_bind with hshow | ⟨pb, u, hshow, hfails⟩
        · exact ⟨[], x, s, _, .nil, .materialize ⟨m, hcall⟩ ⟨m, hshow⟩⟩
        have hask : Asks ctxs c x s v pb u := ⟨u₁, ⟨m, hcall⟩, m, hshow⟩
        split at hfails
        · next hnone =>
            obtain ⟨rfl, rfl⟩ := hfails.unique (.throw _ u)
            exact ⟨[], x, s, _, .nil, .notBoolean hask hnone⟩
        · obtain ⟨_, hl⟩ := hfails
          cases hl
        -- only this round goes on, and then the failure is that of the body or of a later round
        · next htrue =>
            rcases hfails.of_bind with hcall | ⟨x', u₂, hcall, hfails⟩
            · exact ⟨[], x, s, _, .nil, .body hask htrue ⟨m, hcall⟩⟩
            · obtain ⟨iterates, z, t, l, hiterates, hend⟩ := ih hfails
              exact ⟨(x, v) :: iterates, z, t, l, .cons hask htrue ⟨m, hcall⟩ hiterates, hend⟩
  · rintro ⟨iterates, z, t, l, hiterates, hstuck⟩
    refine finallyFails_whileLoop_of_iterates h hiterates ?_
    refine (finallyFails_whileLoop_step_iff h).mpr ?_
    cases hstuck with
    | condition hcall => exact .inl hcall
    | materialize hcall hshow => exact .inr (.inl ⟨_, _, hcall, hshow⟩)
    | notBoolean hask hnone =>
        refine .inr (.inr ⟨_, _, s', hask, ?_⟩)
        unfold whileRest
        rw [hnone]
        exact Run.finallyFails_throw_iff.mpr ⟨rfl, rfl⟩
    | body hask htrue hcall =>
        refine .inr (.inr ⟨_, _, _, hask, ?_⟩)
        unfold whileRest
        rw [htrue]
        exact (Run.finallyFails_bind_iff (h.createCall b (some z)) fun y n m hnm =>
          whileLoop_le (h hnm) c b hnm y).mpr (.inl hcall)

/-- The loop starts once its two functions are created. -/
theorem finally_whileExecuteCall_iff {intr : Intrinsic} {condition body : Value}
    (hintr : intr.parameter.elements = [condition, body]) :
    Run.Finally (fun n => whileExecuteCall (ctxs n) n intr (some x)) s y s' ↔ ∃ c b s₀ s₁,
      Context.Creates ctxs condition s c s₀ ∧ Context.Creates ctxs body s₀ b s₁ ∧
        Run.Finally (fun n => whileLoop (ctxs n) c b n x) s₁ y s' := by
  have hloop : ∀ c b, Run.Growing fun n => whileLoop (ctxs n) c b n x :=
    fun c b _ _ hnm => whileLoop_le (h hnm) c b hnm x
  unfold whileExecuteCall
  simp only [hintr, elementAt, engaged, List.getElem?_cons_zero, List.getElem?_cons_succ, pure_bind]
  rw [Run.finally_bind_iff (h.createValue condition) fun c => (h.createValue body).bind (hloop c)]
  simp only [Run.finally_bind_iff (h.createValue body) (hloop _)]
  constructor
  · rintro ⟨c, s₀, hc, b, s₁, hb, hend⟩
    exact ⟨c, b, s₀, s₁, hc, hb, hend⟩
  · rintro ⟨c, b, s₀, s₁, hc, hb, hend⟩
    exact ⟨c, s₀, hc, b, s₁, hb, hend⟩

theorem finallyFails_whileExecuteCall_iff {intr : Intrinsic} {condition body : Value}
    (hintr : intr.parameter.elements = [condition, body]) :
    Run.FinallyFails (fun n => whileExecuteCall (ctxs n) n intr (some x)) s e s' ↔
      Context.CreateFails ctxs condition s e s' ∨
        (∃ c s₀, Context.Creates ctxs condition s c s₀ ∧ Context.CreateFails ctxs body s₀ e s') ∨
          ∃ c b s₀ s₁, Context.Creates ctxs condition s c s₀ ∧ Context.Creates ctxs body s₀ b s₁ ∧
            Run.FinallyFails (fun n => whileLoop (ctxs n) c b n x) s₁ e s' := by
  have hloop : ∀ c b, Run.Growing fun n => whileLoop (ctxs n) c b n x :=
    fun c b _ _ hnm => whileLoop_le (h hnm) c b hnm x
  unfold whileExecuteCall
  simp only [hintr, elementAt, engaged, List.getElem?_cons_zero, List.getElem?_cons_succ, pure_bind]
  rw [Run.finallyFails_bind_iff (h.createValue condition) fun c => (h.createValue body).bind (hloop c)]
  simp only [Run.finallyFails_bind_iff (h.createValue body) (hloop _)]
  constructor
  · rintro (hc | ⟨c, s₀, hc, hb | ⟨b, s₁, hb, hend⟩⟩)
    · exact .inl hc
    · exact .inr (.inl ⟨c, s₀, hc, hb⟩)
    · exact .inr (.inr ⟨c, b, s₀, s₁, hc, hb, hend⟩)
  · rintro (hc | ⟨c, s₀, hc, hb⟩ | ⟨c, b, s₀, s₁, hc, hb, hend⟩)
    · exact .inl hc
    · exact .inr ⟨c, s₀, hc, .inl hb⟩
    · exact .inr ⟨c, s₀, hc, .inr ⟨b, s₁, hb, hend⟩⟩

end

/-! ## The record -/

section

variable {ctxs : Nat → Context σ V} {c b x y v : V} {pb : Value} {s s' : σ} {e : Status}
  {l l' : List (Operation V)}

omit [ProtoText]

theorem While.asks_recording_iff : Asks (fun n => (ctxs n).recording) c x (s, l) v pb (s', l') ↔
    Asks ctxs c x s v pb s' ∧ l' = l ++ asking c x v := by
  constructor
  · rintro ⟨⟨u, l₁⟩, hcall, hshow⟩
    obtain ⟨hcalled, rfl⟩ := Context.calls_recording_iff.mp hcall
    obtain ⟨hshown, rfl⟩ := Context.shows_recording_iff.mp hshow
    exact ⟨⟨u, hcalled, hshown⟩, List.append_assoc ..⟩
  · rintro ⟨⟨u, hcall, hshow⟩, rfl⟩
    refine ⟨(u, l ++ [.createCall c (some x)]), Context.calls_recording_iff.mpr ⟨hcall, rfl⟩, ?_⟩
    exact Context.shows_recording_iff.mpr ⟨hshow, by simp [asking]⟩

theorem While.iterates_recording_iff {iterates : List (V × V)} :
    Iterates (fun n => (ctxs n).recording) c b iterates x (s, l) y (s', l') ↔
      Iterates ctxs c b iterates x s y s' ∧ l' = l ++ iterating c b iterates := by
  constructor
  · intro h
    generalize hs : (s, l) = p, hs' : (s', l') = p' at h
    induction h generalizing s l with
    | nil =>
        cases hs
        cases hs'
        exact ⟨.nil, (List.append_nil _).symm⟩
    | @cons iterates x v y z pb p u₁ u₂ u₃ hask htrue hcall _ ih =>
        subst hs
        obtain ⟨u₁, l₁⟩ := u₁
        obtain ⟨u₂, l₂⟩ := u₂
        obtain ⟨hasked, rfl⟩ := asks_recording_iff.mp hask
        obtain ⟨hcalled, rfl⟩ := Context.calls_recording_iff.mp hcall
        obtain ⟨hrest, rfl⟩ := ih rfl hs'
        refine ⟨.cons hasked htrue hcalled hrest, ?_⟩
        simp [iterating]
  · rintro ⟨h, rfl⟩
    induction h generalizing l with
    | nil => rw [iterating, List.flatMap_nil, List.append_nil]; exact .nil
    | @cons iterates x v y z pb s u₁ u₂ u₃ hask htrue hcall _ ih =>
        refine .cons (asks_recording_iff.mpr ⟨hask, rfl⟩) htrue
          (Context.calls_recording_iff.mpr ⟨hcall, rfl⟩) ?_
        have hrest := ih (l := l ++ asking c x v ++ [.createCall b (some x)])
        simpa [iterating] using hrest

end

theorem While.stuck_recording_iff {ctxs : Nat → Context σ V} {c b x : V} {s s' : σ} {e : Status}
    {l l' record : List (Operation V)} :
    Stuck (fun n => (ctxs n).recording) c b x (s, l) record e (s', l') ↔
      Stuck ctxs c b x s record e s' ∧ l' = l ++ record := by
  constructor
  · intro h
    -- an index has to be a variable for `cases`
    generalize hs' : (s', l') = p' at h
    cases h with
    | condition h =>
        subst hs'
        obtain ⟨hfails, rfl⟩ := Context.callFails_recording_iff.mp h
        exact ⟨.condition hfails, rfl⟩
    | @materialize v _ u _ hcall h =>
        subst hs'
        obtain ⟨u, l₁⟩ := u
        obtain ⟨hcalled, rfl⟩ := Context.calls_recording_iff.mp hcall
        obtain ⟨hfails, rfl⟩ := Context.showFails_recording_iff.mp h
        exact ⟨.materialize hcalled hfails, List.append_assoc ..⟩
    | notBoolean hask h =>
        subst hs'
        obtain ⟨hasked, rfl⟩ := asks_recording_iff.mp hask
        exact ⟨.notBoolean hasked h, rfl⟩
    | @body v pb _ u _ hask htrue h =>
        subst hs'
        obtain ⟨u, l₁⟩ := u
        obtain ⟨hasked, rfl⟩ := asks_recording_iff.mp hask
        obtain ⟨hfails, rfl⟩ := Context.callFails_recording_iff.mp h
        exact ⟨.body hasked htrue hfails, List.append_assoc ..⟩
  · rintro ⟨h, rfl⟩
    cases h with
    | condition h => exact .condition (Context.callFails_recording_iff.mpr ⟨h, rfl⟩)
    | materialize hcall h =>
        refine .materialize (Context.calls_recording_iff.mpr ⟨hcall, rfl⟩) ?_
        exact Context.showFails_recording_iff.mpr ⟨h, by simp [asking]⟩
    | notBoolean hask h => exact .notBoolean (asks_recording_iff.mpr ⟨hask, rfl⟩) h
    | body hask htrue h =>
        refine .body (asks_recording_iff.mpr ⟨hask, rfl⟩) htrue ?_
        exact Context.callFails_recording_iff.mpr ⟨h, (List.append_assoc ..).symm⟩

end GenC
