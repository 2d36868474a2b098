import GenC.Intrinsics.While

/-!
# The loops of the breakable chains

Both chains take turns: a turn gives the state to go on from, and whether to go on at all. So they are one
loop, `turns`, over different turns (`breakableChainLoop_eq_turns`, `conditionalRound_eq_turns`), and the
rounds of `RepeatedConditionalChain` are turns once more (`conditionalRounds_eq_turns`).

What the loops come to follows from what a turn comes to, with the record of it (`Described.turns`). Nothing
is asked of the functions here.
-/

namespace GenC

open Lib

variable {σ V F α β : Type}

/-! ## Described runs -/

/-- The runs return what `R` says and fail with what `E` says, which list the operations that the runs ask
for on the way. -/
structure Described (x : Nat → Exec (σ × List (Operation V)) α)
    (R : σ → α → List (Operation V) → σ → Prop) (E : σ → Status → List (Operation V) → σ → Prop) :
    Prop where
  growing : Run.Growing x
  finally_iff : ∀ {s l a s' l'}, Run.Finally x (s, l) a (s', l') ↔
    ∃ record, R s a record s' ∧ l' = l ++ record
  finallyFails_iff : ∀ {s l e s' l'}, Run.FinallyFails x (s, l) e (s', l') ↔
    ∃ record, E s e record s' ∧ l' = l ++ record

namespace Described

variable {x : Nat → Exec (σ × List (Operation V)) α} {f : Nat → α → Exec (σ × List (Operation V)) β}
  {R R' : σ → α → List (Operation V) → σ → Prop} {E E' : σ → Status → List (Operation V) → σ → Prop}
  {Rf : α → σ → β → List (Operation V) → σ → Prop} {Ef : α → σ → Status → List (Operation V) → σ → Prop}

theorem of_iff {P : σ → α → σ → Prop} {Q : σ → Status → σ → Prop} {record : List (Operation V)}
    (hx : Run.Growing x)
    (hP : ∀ {s l a s' l'}, Run.Finally x (s, l) a (s', l') ↔ P s a s' ∧ l' = l ++ record)
    (hQ : ∀ {s l e s' l'}, Run.FinallyFails x (s, l) e (s', l') ↔ Q s e s' ∧ l' = l ++ record) :
    Described x (fun s a l s' => P s a s' ∧ l = record) fun s e l s' => Q s e s' ∧ l = record where
  growing := hx
  finally_iff := hP.trans ⟨fun ⟨h, hl⟩ => ⟨record, ⟨h, rfl⟩, hl⟩, fun ⟨_, ⟨h, hr⟩, hl⟩ => ⟨h, hr ▸ hl⟩⟩
  finallyFails_iff := hQ.trans ⟨fun ⟨h, hl⟩ => ⟨record, ⟨h, rfl⟩, hl⟩, fun ⟨_, ⟨h, hr⟩, hl⟩ => ⟨h, hr ▸ hl⟩⟩

theorem congr (h : Described x R E) (hR : ∀ {s a l s'}, R s a l s' ↔ R' s a l s')
    (hE : ∀ {s e l s'}, E s e l s' ↔ E' s e l s') : Described x R' E' where
  growing := h.growing
  finally_iff := h.finally_iff.trans (exists_congr fun _ => and_congr_left' hR)
  finallyFails_iff := h.finallyFails_iff.trans (exists_congr fun _ => and_congr_left' hE)

/-- Without a record to start with, the record is that of the run. -/
theorem finally_nil_iff (h : Described x R E) {s s' : σ} {a : α} {record : List (Operation V)} :
    Run.Finally x (s, []) a (s', record) ↔ R s a record s' := by
  refine h.finally_iff.trans ⟨?_, fun hR => ⟨record, hR, rfl⟩⟩
  rintro ⟨_, hR, rfl⟩
  exact hR

theorem finallyFails_nil_iff (h : Described x R E) {s s' : σ} {e : Status} {record : List (Operation V)} :
    Run.FinallyFails x (s, []) e (s', record) ↔ E s e record s' := by
  refine h.finallyFails_iff.trans ⟨?_, fun hE => ⟨record, hE, rfl⟩⟩
  rintro ⟨_, hE, rfl⟩
  exact hE

theorem pure (a : α) : Described (fun _ => Pure.pure a) (fun (s : σ) b (l : List (Operation V)) s' =>
    b = a ∧ l = [] ∧ s' = s) fun _ _ _ _ => False where
  growing := .const _
  finally_iff := by
    refine Run.finally_pure_iff.trans ?_
    constructor
    · rintro ⟨rfl, hs⟩
      cases hs
      exact ⟨[], ⟨rfl, rfl, rfl⟩, (List.append_nil _).symm⟩
    · rintro ⟨_, ⟨rfl, rfl, rfl⟩, rfl⟩
      exact ⟨rfl, by rw [List.append_nil]⟩
  finallyFails_iff := ⟨fun h => (Run.not_finallyFails_pure h).elim, fun ⟨_, h, _⟩ => h.elim⟩

/-- One run after another. -/
theorem bind (h : Described x R E) (hf : ∀ a, Described (fun n => f n a) (Rf a) (Ef a)) :
    Described (fun n => x n >>= f n)
      (fun s b l s' => ∃ a u l₁ l₂, R s a l₁ u ∧ Rf a u b l₂ s' ∧ l = l₁ ++ l₂)
      (fun s e l s' => E s e l s' ∨ ∃ a u l₁ l₂, R s a l₁ u ∧ Ef a u e l₂ s' ∧ l = l₁ ++ l₂) where
  growing := h.growing.bind fun a => (hf a).growing
  finally_iff := by
    intro s l b s' l'
    rw [Run.finally_bind_iff h.growing fun a => (hf a).growing]
    constructor
    · rintro ⟨a, ⟨u, k⟩, hx, hb⟩
      obtain ⟨l₁, hR, rfl⟩ := h.finally_iff.mp hx
      obtain ⟨l₂, hRf, rfl⟩ := (hf a).finally_iff.mp hb
      exact ⟨l₁ ++ l₂, ⟨a, u, l₁, l₂, hR, hRf, rfl⟩, List.append_assoc ..⟩
    · rintro ⟨_, ⟨a, u, l₁, l₂, hx, hb, rfl⟩, rfl⟩
      exact ⟨a, (u, l ++ l₁), h.finally_iff.mpr ⟨l₁, hx, rfl⟩,
        (hf a).finally_iff.mpr ⟨l₂, hb, (List.append_assoc ..).symm⟩⟩
  finallyFails_iff := by
    intro s l e s' l'
    rw [Run.finallyFails_bind_iff h.growing fun a => (hf a).growing]
    constructor
    · rintro (hx | ⟨a, ⟨u, k⟩, hx, he⟩)
      · obtain ⟨l₁, hE, rfl⟩ := h.finallyFails_iff.mp hx
        exact ⟨l₁, .inl hE, rfl⟩
      · obtain ⟨l₁, hR, rfl⟩ := h.finally_iff.mp hx
        obtain ⟨l₂, hEf, rfl⟩ := (hf a).finallyFails_iff.mp he
        exact ⟨l₁ ++ l₂, .inr ⟨a, u, l₁, l₂, hR, hEf, rfl⟩, List.append_assoc ..⟩
    · rintro ⟨_, hx | ⟨a, u, l₁, l₂, hx, he, rfl⟩, rfl⟩
      · exact .inl (h.finallyFails_iff.mpr ⟨_, hx, rfl⟩)
      · exact .inr ⟨a, (u, l ++ l₁), h.finally_iff.mpr ⟨l₁, hx, rfl⟩,
          (hf a).finallyFails_iff.mpr ⟨l₂, he, (List.append_assoc ..).symm⟩⟩

end Described

namespace Context.Growing

variable {ctxs : Nat → Context σ V} (h : Growing ctxs)

include h

theorem createValue_described (v : Value) : Described (fun n => (ctxs n).recording.createValue v)
    (fun s r l s' => Creates ctxs v s r s' ∧ l = [.createValue v])
    (fun s e l s' => CreateFails ctxs v s e s' ∧ l = [.createValue v]) :=
  .of_iff (h.recording.createValue v) creates_recording_iff createFails_recording_iff

theorem createCall_described (f : V) (a : Option V) :
    Described (fun n => (ctxs n).recording.createCall f a)
      (fun s r l s' => Calls ctxs f a s r s' ∧ l = [.createCall f a])
      (fun s e l s' => CallFails ctxs f a s e s' ∧ l = [.createCall f a]) :=
  .of_iff (h.recording.createCall f a) calls_recording_iff callFails_recording_iff

theorem materializeValue_described (v : V) :
    Described (fun n => (ctxs n).recording.materializeValue v)
      (fun s pb l s' => Shows ctxs v s pb s' ∧ l = [.materialize v true])
      (fun s e l s' => ShowFails ctxs v s e s' ∧ l = [.materialize v true]) :=
  .of_iff (h.recording.materializeValue v) shows_recording_iff showFails_recording_iff

end Context.Growing

/-! ## Turns -/

/-- A turn on each of `fs`: what it gives is the state to go on from, and whether it was the last one. -/
def turns (turn : F → V → Exec σ (V × Bool)) : List F → V → Exec σ (V × Bool)
  | [], x => pure (x, false)
  | f :: fs, x => do
      let (y, stop) ← turn f x
      if stop then pure (y, true) else turns turn fs y

/-- Turns that end with a state, and with whether they were stopped. -/
inductive Turns (R : F → V → σ → V × Bool → List (Operation V) → σ → Prop) :
    List F → V → σ → V × Bool → List (Operation V) → σ → Prop where
  | nil {x : V} {s : σ} : Turns R [] x s (x, false) [] s
  | stop {f : F} {fs : List F} {x y : V} {l : List (Operation V)} {s s' : σ}
      (h : R f x s (y, true) l s') : Turns R (f :: fs) x s (y, true) l s'
  | next {f : F} {fs : List F} {x y : V} {p : V × Bool} {l l' : List (Operation V)} {s u s' : σ}
      (h : R f x s (y, false) l u) (hrest : Turns R fs y u p l' s') :
      Turns R (f :: fs) x s p (l ++ l') s'

/-- Turns of which one fails. The ones after it are not taken. -/
inductive TurnsFail (R : F → V → σ → V × Bool → List (Operation V) → σ → Prop)
    (E : F → V → σ → Status → List (Operation V) → σ → Prop) :
    List F → V → σ → Status → List (Operation V) → σ → Prop where
  | here {f : F} {fs : List F} {x : V} {e : Status} {l : List (Operation V)} {s s' : σ}
      (h : E f x s e l s') : TurnsFail R E (f :: fs) x s e l s'
  | next {f : F} {fs : List F} {x y : V} {e : Status} {l l' : List (Operation V)} {s u s' : σ}
      (h : R f x s (y, false) l u) (hrest : TurnsFail R E fs y u e l' s') :
      TurnsFail R E (f :: fs) x s e (l ++ l') s'

/-- **Turns come to what the turns one after another come to.** By induction on the list. -/
theorem Described.turns {turn : Nat → F → V → Exec (σ × List (Operation V)) (V × Bool)}
    {R : F → V → σ → V × Bool → List (Operation V) → σ → Prop}
    {E : F → V → σ → Status → List (Operation V) → σ → Prop}
    (h : ∀ f x, Described (fun n => turn n f x) (R f x) (E f x)) (fs : List F) (x : V) :
    Described (fun n => GenC.turns (turn n) fs x) (Turns R fs x) (TurnsFail R E fs x) := by
  induction fs generalizing x with
  | nil =>
      refine (Described.pure (x, false)).congr ⟨?_, ?_⟩ ⟨False.elim, fun h => nomatch h⟩
      · rintro ⟨rfl, rfl, rfl⟩
        exact .nil
      · rintro ⟨⟩
        exact ⟨rfl, rfl, rfl⟩
  | cons f fs ih =>
      -- after the turn, there is nothing left to do or there are the other turns
      have hrest : ∀ p : V × Bool, Described
          (fun n => if p.2 then Pure.pure (p.1, true) else GenC.turns (turn n) fs p.1)
          (fun s q l s' => if p.2 then q = (p.1, true) ∧ l = [] ∧ s' = s else Turns R fs p.1 s q l s')
          (fun s e l s' => p.2 = false ∧ TurnsFail R E fs p.1 s e l s') := by
        rintro ⟨y, _ | _⟩
        · exact (ih y).congr Iff.rfl ⟨fun h => ⟨rfl, h⟩, And.right⟩
        · exact (Described.pure (y, true)).congr Iff.rfl ⟨False.elim, fun h => nomatch h.1⟩
      refine ((h f x).bind hrest).congr ⟨?_, ?_⟩ ⟨?_, ?_⟩
      · rintro ⟨⟨y, _ | _⟩, u, l₁, l₂, hturn, hend, rfl⟩
        · exact .next hturn hend
        · obtain ⟨rfl, rfl, rfl⟩ := hend
          rw [List.append_nil]
          exact .stop hturn
      · intro hturns
        cases hturns with
        | stop hturn => exact ⟨(_, true), _, _, [], hturn, ⟨rfl, rfl, rfl⟩, (List.append_nil _).symm⟩
        | next hturn hrest => exact ⟨(_, false), _, _, _, hturn, hrest, rfl⟩
      · rintro (hfails | ⟨⟨y, _⟩, u, l₁, l₂, hturn, ⟨rfl, hend⟩, rfl⟩)
        · exact .here hfails
        · exact .next hturn hend
      · intro hturns
        cases hturns with
        | here hfails => exact .inl hfails
        | next hturn hrest => exact .inr ⟨(_, false), _, _, _, hturn, ⟨rfl, hrest⟩, rfl⟩

open While ControlFlowHandler

/-- `f` was called on `x`, or what it returned was materialized, and that failed. -/
inductive AskFails (ctxs : Nat → Context σ V) (f x : V) (s : σ) :
    Status → List (Operation V) → σ → Prop where
  | call {e : Status} {s' : σ} (h : Context.CallFails ctxs f (some x) s e s') :
      AskFails ctxs f x s e [.createCall f (some x)] s'
  | materialize {v : V} {e : Status} {u s' : σ} (hcall : Context.Calls ctxs f (some x) s v u)
      (h : Context.ShowFails ctxs v u e s') : AskFails ctxs f x s e (asking f x v) s'

/-- Calling `f` on `x` and materializing what it returns. -/
def ask (ctx : Context σ V) (f x : V) : Exec σ (V × Value) := do
  let v ← ctx.createCall f (some x)
  let pb ← ctx.materializeValue v
  pure (v, pb)

theorem ask_described {ctxs : Nat → Context σ V} (h : Context.Growing ctxs) (f x : V) :
    Described (fun n => ask (ctxs n).recording f x)
      (fun s a l s' => Asks ctxs f x s a.1 a.2 s' ∧ l = asking f x a.1)
      (fun s e l s' => AskFails ctxs f x s e l s') := by
  refine ((h.createCall_described f (some x)).bind fun v =>
    (h.materializeValue_described v).bind fun pb => .pure (v, pb)).congr ⟨?_, ?_⟩ ⟨?_, ?_⟩
  · rintro ⟨v, u, _, _, ⟨hcall, rfl⟩, ⟨pb, _, _, _, ⟨hshow, rfl⟩, ⟨rfl, rfl, rfl⟩, rfl⟩, rfl⟩
    exact ⟨⟨u, hcall, hshow⟩, rfl⟩
  · rintro ⟨⟨u, hcall, hshow⟩, rfl⟩
    exact ⟨_, u, _, _, ⟨hcall, rfl⟩, ⟨_, _, _, _, ⟨hshow, rfl⟩, ⟨rfl, rfl, rfl⟩, rfl⟩, rfl⟩
  · rintro (⟨hcall, rfl⟩ | ⟨v, u, _, _, ⟨hcall, rfl⟩, ⟨hshow, rfl⟩ | ⟨_, _, _, _, _, hfalse, _⟩, rfl⟩)
    · exact .call hcall
    · exact .materialize hcall hshow
    · exact hfalse.elim
  · intro hfails
    cases hfails with
    | call hcall => exact .inl ⟨hcall, rfl⟩
    | materialize hcall hshow => exact .inr ⟨_, _, _, _, ⟨hcall, rfl⟩, .inl ⟨hshow, rfl⟩, rfl⟩

/-! ## `BreakableChain` -/

namespace BreakableChain

/-- What is made of the answer `v`, which shows `pb`: it is handed on as it is, unless it is a Boolean. -/
def next (x v : V) (pb : Value) : V × Bool :=
  match pb.boolean? with
  | none => (v, false)
  | some stop => (x, stop)

/-- The function is created, and called on the state. -/
def Turn (ctxs : Nat → Context σ V) (fnPb : Value) (x : V) (s : σ) (p : V × Bool)
    (l : List (Operation V)) (s' : σ) : Prop :=
  ∃ f v pb u, Context.Creates ctxs fnPb s f u ∧ Asks ctxs f x u v pb s' ∧ p = next x v pb ∧
    l = .createValue fnPb :: asking f x v

/-- It cannot be created, or cannot be asked. -/
inductive TurnFails (ctxs : Nat → Context σ V) (fnPb : Value) (x : V) (s : σ) :
    Status → List (Operation V) → σ → Prop where
  | create {e : Status} {s' : σ} (h : Context.CreateFails ctxs fnPb s e s') :
      TurnFails ctxs fnPb x s e [.createValue fnPb] s'
  | ask {f : V} {e : Status} {l : List (Operation V)} {u s' : σ}
      (hcreate : Context.Creates ctxs fnPb s f u) (h : AskFails ctxs f x u e l s') :
      TurnFails ctxs fnPb x s e (.createValue fnPb :: l) s'

def turn (ctx : Context σ V) (fnPb : Value) (x : V) : Exec σ (V × Bool) := do
  let f ← ctx.createValue fnPb
  let (v, pb) ← ask ctx f x
  pure (next x v pb)

theorem turn_described {ctxs : Nat → Context σ V} (h : Context.Growing ctxs) (fnPb : Value) (x : V) :
    Described (fun n => turn (ctxs n).recording fnPb x) (Turn ctxs fnPb x) (TurnFails ctxs fnPb x) := by
  refine ((h.createValue_described fnPb).bind fun f => (ask_described h f x).bind fun a =>
    .pure (next x a.1 a.2)).congr ⟨?_, ?_⟩ ⟨?_, ?_⟩
  · rintro ⟨f, u, _, _, ⟨hcreate, rfl⟩, ⟨⟨v, pb⟩, _, _, _, ⟨hask, rfl⟩, ⟨rfl, rfl, rfl⟩, rfl⟩, rfl⟩
    exact ⟨f, v, pb, u, hcreate, hask, rfl, by simp⟩
  · rintro ⟨f, v, pb, u, hcreate, hask, rfl, rfl⟩
    exact ⟨f, u, _, _, ⟨hcreate, rfl⟩, ⟨(v, pb), _, _, _, ⟨hask, rfl⟩, ⟨rfl, rfl, rfl⟩, rfl⟩, by simp⟩
  · rintro (⟨hcreate, rfl⟩ | ⟨f, u, _, _, ⟨hcreate, rfl⟩, hask | ⟨_, _, _, _, _, hfalse, _⟩, rfl⟩)
    · exact .create hcreate
    · exact .ask hcreate hask
    · exact hfalse.elim
  · intro hfails
    cases hfails with
    | create hcreate => exact .inl ⟨hcreate, rfl⟩
    | ask hcreate hask => exact .inr ⟨_, _, _, _, ⟨hcreate, rfl⟩, .inl hask, rfl⟩

end BreakableChain

theorem breakableChainLoop_eq_turns (ctx : Context σ V) (fns : List Value) (x : V) :
    breakableChainLoop ctx fns x = turns (BreakableChain.turn ctx) fns x >>= fun p => pure p.1 := by
  induction fns generalizing x with
  | nil => rfl
  | cons fnPb fns ih =>
      simp only [breakableChainLoop, turns, BreakableChain.turn, ask, bind_assoc, pure_bind]
      congr 1; funext f; congr 1; funext v; congr 1; funext pb
      unfold BreakableChain.next
      rcases pb.boolean? with _ | _ | _ <;> simp [ih]

/-! ## `RepeatedConditionalChain` -/

namespace RepeatedConditionalChain

/-- The function is called on the state. What it gives is made anew, unless it is a Boolean. -/
inductive Turn (ctxs : Nat → Context σ V) (f x : V) (s : σ) :
    V × Bool → List (Operation V) → σ → Prop where
  | renews {v y : V} {pb : Value} {u s' : σ} (hask : Asks ctxs f x s v pb u) (h : pb.boolean? = none)
      (hcreate : Context.Creates ctxs pb u y s') :
      Turn ctxs f x s (y, false) (asking f x v ++ [.createValue pb]) s'
  | keeps {v : V} {pb : Value} {stop : Bool} {s' : σ} (hask : Asks ctxs f x s v pb s')
      (h : pb.boolean? = some stop) : Turn ctxs f x s (x, stop) (asking f x v) s'

inductive TurnFails (ctxs : Nat → Context σ V) (f x : V) (s : σ) :
    Status → List (Operation V) → σ → Prop where
  | ask {e : Status} {l : List (Operation V)} {s' : σ} (h : AskFails ctxs f x s e l s') :
      TurnFails ctxs f x s e l s'
  | renew {v : V} {pb : Value} {e : Status} {u s' : σ} (hask : Asks ctxs f x s v pb u)
      (hb : pb.boolean? = none) (h : Context.CreateFails ctxs pb u e s') :
      TurnFails ctxs f x s e (asking f x v ++ [.createValue pb]) s'

/-- The state to go on from, when the answer shows `pb`. -/
def next (ctx : Context σ V) (x : V) (pb : Value) : Exec σ (V × Bool) :=
  match pb.boolean? with
  | none => do
      let y ← ctx.createValue pb
      pure (y, false)
  | some stop => pure (x, stop)

def turn (ctx : Context σ V) (f x : V) : Exec σ (V × Bool) := do
  let (_, pb) ← ask ctx f x
  next ctx x pb

theorem next_described {ctxs : Nat → Context σ V} (h : Context.Growing ctxs) (x : V) (pb : Value) :
    Described (fun n => next (ctxs n).recording x pb)
      (fun s p l s' => match pb.boolean? with
        | none => p.2 = false ∧ Context.Creates ctxs pb s p.1 s' ∧ l = [.createValue pb]
        | some stop => p = (x, stop) ∧ l = [] ∧ s' = s)
      (fun s e l s' => pb.boolean? = none ∧ Context.CreateFails ctxs pb s e s' ∧ l = [.createValue pb]) := by
  unfold next
  rcases pb.boolean? with _ | stop
  · refine ((h.createValue_described pb).bind fun y => .pure (y, false)).congr ⟨?_, ?_⟩ ⟨?_, ?_⟩
    · rintro ⟨y, _, _, _, ⟨hcreate, rfl⟩, ⟨rfl, rfl, rfl⟩, rfl⟩
      exact ⟨rfl, hcreate, rfl⟩
    · rintro ⟨hstop, hcreate, rfl⟩
      exact ⟨_, _, _, _, ⟨hcreate, rfl⟩, ⟨Prod.ext rfl hstop, rfl, rfl⟩, rfl⟩
    · rintro (⟨hcreate, rfl⟩ | ⟨_, _, _, _, _, hfalse, _⟩)
      · exact ⟨rfl, hcreate, rfl⟩
      · exact hfalse.elim
    · rintro ⟨-, hcreate, rfl⟩
      exact .inl ⟨hcreate, rfl⟩
  · exact (Described.pure (x, stop)).congr Iff.rfl ⟨False.elim, fun h => nomatch h.1⟩

theorem turn_described {ctxs : Nat → Context σ V} (h : Context.Growing ctxs) (f x : V) :
    Described (fun n => turn (ctxs n).recording f x) (Turn ctxs f x) (TurnFails ctxs f x) := by
  refine ((ask_described h f x).bind fun a => next_described h x a.2).congr (fun {_ p _ _} => ⟨?_, ?_⟩)
    ⟨?_, ?_⟩
  -- the answer is no Boolean and renews the state, or it is one and keeps it
  · rintro ⟨⟨v, pb⟩, u, _, l₂, ⟨hask, rfl⟩, hnext, rfl⟩
    rcases hb : pb.boolean? with _ | stop <;> simp only [hb] at hnext
    · obtain ⟨y, _⟩ := p
      obtain ⟨rfl, hcreate, rfl⟩ := hnext
      exact .renews hask hb hcreate
    · obtain ⟨rfl, rfl, rfl⟩ := hnext
      rw [List.append_nil]
      exact .keeps hask hb
  · intro hturn
    cases hturn with
    | @renews v y pb u _ hask hb hcreate =>
        refine ⟨(v, pb), u, _, _, ⟨hask, rfl⟩, ?_, rfl⟩
        simp only [hb, true_and, and_true]
        exact hcreate
    | @keeps v pb stop _ hask hb =>
        refine ⟨(v, pb), _, _, [], ⟨hask, rfl⟩, ?_, (List.append_nil _).symm⟩
        simp only [hb, and_self]
  · rintro (hask | ⟨⟨v, pb⟩, u, _, _, ⟨hask, rfl⟩, ⟨hb, hcreate, rfl⟩, rfl⟩)
    · exact .ask hask
    · exact .renew hask hb hcreate
  · intro hfails
    cases hfails with
    | ask hask => exact .inl hask
    | renew hask hb hcreate => exact .inr ⟨(_, _), _, _, _, ⟨hask, rfl⟩, ⟨hb, hcreate, rfl⟩, rfl⟩

end RepeatedConditionalChain

theorem conditionalRound_eq_turns (ctx : Context σ V) (fs : List V) (x : V) :
    conditionalRound ctx fs x = turns (RepeatedConditionalChain.turn ctx) fs x := by
  induction fs generalizing x with
  | nil => rfl
  | cons f fs ih =>
      simp only [conditionalRound, turns, RepeatedConditionalChain.turn, ask, bind_assoc, pure_bind]
      congr 1; funext v; congr 1; funext pb
      unfold RepeatedConditionalChain.next
      rcases pb.boolean? with _ | _ | _ <;> simp [ih]

/-- A round that stops stops the rounds. -/
theorem conditionalRounds_eq_turns (ctx : Context σ V) (fs : List V) (n : Nat) (x : V) :
    conditionalRounds ctx fs n x =
      turns (fun (_ : Unit) => conditionalRound ctx fs) (List.replicate n ()) x >>= fun p => pure p.1 := by
  induction n generalizing x with
  | zero => rfl
  | succ n ih =>
      simp only [conditionalRounds, List.replicate_succ, turns, bind_assoc]
      congr 1; funext ⟨y, stop⟩
      cases stop <;> simp [ih]

/-! ## The calls -/

namespace Context

/-- Each of the values is created, one after the other. -/
inductive CreatesAll (ctxs : Nat → Context σ V) : List Value → σ → List V → σ → Prop where
  | nil {s : σ} : CreatesAll ctxs [] s [] s
  | cons {v : Value} {vs : List Value} {r : V} {rs : List V} {s u s' : σ} (h : Creates ctxs v s r u)
      (hrest : CreatesAll ctxs vs u rs s') : CreatesAll ctxs (v :: vs) s (r :: rs) s'

inductive CreateAllFails (ctxs : Nat → Context σ V) :
    List Value → σ → Status → List (Operation V) → σ → Prop where
  | here {v : Value} {vs : List Value} {e : Status} {s s' : σ} (h : CreateFails ctxs v s e s') :
      CreateAllFails ctxs (v :: vs) s e [.createValue v] s'
  | next {v : Value} {vs : List Value} {r : V} {e : Status} {l : List (Operation V)} {s u s' : σ}
      (h : Creates ctxs v s r u) (hrest : CreateAllFails ctxs vs u e l s') :
      CreateAllFails ctxs (v :: vs) s e (.createValue v :: l) s'

theorem Growing.createValues_described {ctxs : Nat → Context σ V} (h : Growing ctxs) (vs : List Value) :
    Described (fun n => (ctxs n).recording.createValues vs)
      (fun s rs l s' => CreatesAll ctxs vs s rs s' ∧ l = vs.map .createValue) (CreateAllFails ctxs vs) := by
  induction vs with
  | nil =>
      refine (Described.pure []).congr ⟨?_, ?_⟩ ⟨False.elim, fun h => nomatch h⟩
      · rintro ⟨rfl, rfl, rfl⟩
        exact ⟨.nil, rfl⟩
      · rintro ⟨⟨⟩, rfl⟩
        exact ⟨rfl, rfl, rfl⟩
  | cons v vs ih =>
      refine ((h.createValue_described v).bind fun r => ih.bind fun rs => .pure (r :: rs)).congr
        ⟨?_, ?_⟩ ⟨?_, ?_⟩
      · rintro ⟨r, u, _, _, ⟨hr, rfl⟩, ⟨rs, _, _, _, ⟨hrs, rfl⟩, ⟨rfl, rfl, rfl⟩, rfl⟩, rfl⟩
        exact ⟨.cons hr hrs, by simp⟩
      · rintro ⟨hall, rfl⟩
        cases hall with
        | cons hr hrs =>
            exact ⟨_, _, _, _, ⟨hr, rfl⟩, ⟨_, _, _, _, ⟨hrs, rfl⟩, ⟨rfl, rfl, rfl⟩, rfl⟩, by simp⟩
      · rintro (⟨hr, rfl⟩ | ⟨r, u, _, _, ⟨hr, rfl⟩, hrs | ⟨_, _, _, _, _, hfalse, _⟩, rfl⟩)
        · exact .here hr
        · exact .next hr hrs
        · exact hfalse.elim
      · intro hfails
        cases hfails with
        | here hr => exact .inl ⟨hr, rfl⟩
        | next hr hrs => exact .inr ⟨_, _, _, _, ⟨hr, rfl⟩, .inl hrs, rfl⟩

end Context

/-- Whether the turns were stopped is of no interest once they are over. -/
theorem Described.state {x : Nat → Exec (σ × List (Operation V)) (V × Bool)}
    {R : σ → V × Bool → List (Operation V) → σ → Prop} {E : σ → Status → List (Operation V) → σ → Prop}
    (h : Described x R E) : Described (fun n => x n >>= fun p => Pure.pure p.1)
      (fun s y l s' => ∃ stopped, R s (y, stopped) l s') E := by
  refine (h.bind fun p => .pure p.1).congr ⟨?_, ?_⟩ ⟨?_, .inl⟩
  · rintro ⟨⟨y, stopped⟩, _, _, _, hR, ⟨rfl, rfl, rfl⟩, rfl⟩
    rw [List.append_nil]
    exact ⟨stopped, hR⟩
  · rintro ⟨stopped, hR⟩
    exact ⟨(_, stopped), _, _, [], hR, ⟨rfl, rfl, rfl⟩, (List.append_nil _).symm⟩
  · rintro (hE | ⟨_, _, _, _, _, hfalse, _⟩)
    · exact hE
    · exact hfalse.elim

section

variable {ctxs : Nat → Context σ V} (h : Context.Growing ctxs)

include h

/-- **`BreakableChain` takes its turns on the argument.** -/
theorem breakableChainExecuteCall_described (intr : Intrinsic) (x : V) :
    Described (fun n => breakableChainExecuteCall (ctxs n).recording intr (some x))
      (fun s y l s' => ∃ stopped,
        Turns (BreakableChain.Turn ctxs) intr.parameter.elements x s (y, stopped) l s')
      (TurnsFail (BreakableChain.Turn ctxs) (BreakableChain.TurnFails ctxs) intr.parameter.elements x) := by
  simp only [breakableChainExecuteCall, engaged, pure_bind, breakableChainLoop_eq_turns]
  exact (Described.turns (BreakableChain.turn_described h) _ x).state

namespace RepeatedConditionalChain

/-- The turns of one round. -/
abbrev Round (ctxs : Nat → Context σ V) (fs : List V) :
    V → σ → V × Bool → List (Operation V) → σ → Prop := Turns (Turn ctxs) fs

abbrev RoundFails (ctxs : Nat → Context σ V) (fs : List V) :
    V → σ → Status → List (Operation V) → σ → Prop := TurnsFail (Turn ctxs) (TurnFails ctxs) fs

/-- At most `n` rounds. -/
def Rounds (ctxs : Nat → Context σ V) (fs : List V) (n : Nat) :
    V → σ → V × Bool → List (Operation V) → σ → Prop :=
  Turns (fun (_ : Unit) => Round ctxs fs) (List.replicate n ())

def RoundsFail (ctxs : Nat → Context σ V) (fs : List V) (n : Nat) :
    V → σ → Status → List (Operation V) → σ → Prop :=
  TurnsFail (fun (_ : Unit) => Round ctxs fs) (fun _ => RoundFails ctxs fs) (List.replicate n ())

theorem round_described (fs : List V) (x : V) :
    Described (fun n => conditionalRound (ctxs n).recording fs x) (Round ctxs fs x)
      (RoundFails ctxs fs x) := by
  simp only [conditionalRound_eq_turns]
  exact .turns (turn_described h) fs x

end RepeatedConditionalChain

open RepeatedConditionalChain in
/-- **`RepeatedConditionalChain` creates its functions and takes its rounds.** -/
theorem repeatedConditionalChainExecuteCall_described {intr : Intrinsic} {n : Value} {fns : List Value}
    (hintr : intr.parameter.elements = n :: fns) (x : V) :
    Described (fun k => repeatedConditionalChainExecuteCall (ctxs k).recording intr (some x))
      (fun s y l s' => ∃ fs u l', Context.CreatesAll ctxs fns s fs u ∧
        (∃ stopped, Rounds ctxs fs n.int32.toInt.toNat x u (y, stopped) l' s') ∧
        l = fns.map .createValue ++ l')
      (fun s e l s' => Context.CreateAllFails ctxs fns s e l s' ∨ ∃ fs u l',
        Context.CreatesAll ctxs fns s fs u ∧ RoundsFail ctxs fs n.int32.toInt.toNat x u e l' s' ∧
        l = fns.map .createValue ++ l') := by
  simp only [repeatedConditionalChainExecuteCall, hintr, elementAt, engaged, List.getElem?_cons_zero,
    List.drop_one, List.tail_cons, pure_bind, conditionalRounds_eq_turns]
  have hrounds := fun fs => (Described.turns (fun (_ : Unit) => round_described h fs)
    (List.replicate n.int32.toInt.toNat ()) x).state
  refine ((h.createValues_described fns).bind hrounds).congr ⟨?_, ?_⟩ ⟨?_, ?_⟩
  · rintro ⟨fs, u, _, l', ⟨hfs, rfl⟩, hend, rfl⟩
    exact ⟨fs, u, l', hfs, hend, rfl⟩
  · rintro ⟨fs, u, l', hfs, hend, rfl⟩
    exact ⟨fs, u, _, l', ⟨hfs, rfl⟩, hend, rfl⟩
  · rintro (hfs | ⟨fs, u, _, l', ⟨hfs, rfl⟩, hend, rfl⟩)
    · exact .inl hfs
    · exact .inr ⟨fs, u, l', hfs, hend, rfl⟩
  · rintro (hfs | ⟨fs, u, l', hfs, hend, rfl⟩)
    · exact .inl hfs
    · exact .inr ⟨fs, u, _, l', ⟨hfs, rfl⟩, hend, rfl⟩

end

end GenC
