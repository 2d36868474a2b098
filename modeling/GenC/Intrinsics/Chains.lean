import GenC.Intrinsics.Recording
import GenC.Proto.Data

/-!
# Chains of functions of data

What a list of functions makes of data, as folds over the data: `chainFold` stops at the first result that
is `true`, `roundsFold` repeats that, and `serialFold` hands on whatever it is given.

A function of a context is a function of data if what it gives depends on the data that its argument
holds, and on nothing else (`DataModel.Gives`). With such functions the loop of `BreakableChain` is
`chainFold`, and the loop of `RepeatedConditionalChain` is `roundsFold`. Neither calls more functions than
its fold needs.
-/

namespace GenC

open Lib

variable {σ V α β : Type}

/-! ## Folds over data -/

/-- What a function makes of data: the call may fail, and so may materializing what it returned. -/
abbrev DataFunction : Type := Value → StatusOr (StatusOr Value)

/-- What is known once the result is materialized. -/
def DataFunction.outcome (F : DataFunction) (d : Value) : StatusOr Value :=
  match F d with
  | .ok r => r
  | .error e => .error e

/-- The functions one after another. A result that is not a Boolean replaces the state, `false` keeps it,
and `true` stops with the state before it. -/
def chainFold : List DataFunction → Value → StatusOr (Value × Bool)
  | [], d => .ok (d, false)
  | F :: Fs, d =>
    match F.outcome d with
    | .error e => .error e
    | .ok r =>
      match r.boolean? with
      | none => chainFold Fs r
      | some true => .ok (d, true)
      | some false => chainFold Fs d

/-- How many of the functions are called. -/
def chainLength : List DataFunction → Value → Nat
  | [], _ => 0
  | F :: Fs, d =>
    match F.outcome d with
    | .error _ => 1
    | .ok r =>
      match r.boolean? with
      | none => chainLength Fs r + 1
      | some true => 1
      | some false => chainLength Fs d + 1

/-- The data that they are called on. -/
def chainInputs : List DataFunction → Value → List Value
  | [], _ => []
  | F :: Fs, d =>
    d :: match F.outcome d with
      | .error _ => []
      | .ok r =>
        match r.boolean? with
        | none => chainInputs Fs r
        | some true => []
        | some false => chainInputs Fs d

/-- As many rounds of the fold, unless one of them stops. -/
def roundsFold (Fs : List DataFunction) : Nat → Value → StatusOr Value
  | 0, d => .ok d
  | n + 1, d =>
    match chainFold Fs d with
    | .error e => .error e
    | .ok (r, true) => .ok r
    | .ok (r, false) => roundsFold Fs n r

/-- How many of the functions are called, in each of the rounds. -/
def roundsLengths (Fs : List DataFunction) : Nat → Value → List Nat
  | 0, _ => []
  | n + 1, d =>
    match chainFold Fs d with
    | .ok (r, false) => chainLength Fs d :: roundsLengths Fs n r
    | _ => [chainLength Fs d]

/-- The data that they are called on, in one round after the other. -/
def roundsInputs (Fs : List DataFunction) : Nat → Value → List Value
  | 0, _ => []
  | n + 1, d =>
    match chainFold Fs d with
    | .ok (r, false) => chainInputs Fs d ++ roundsInputs Fs n r
    | _ => chainInputs Fs d

/-- The functions one after another, each on what the one before it gave. -/
def serialFold : List DataFunction → Value → StatusOr (StatusOr Value)
  | [], d => .ok (.ok d)
  | F :: Fs, d =>
    match F d with
    | .ok (.ok r) => serialFold Fs r
    | r => r

/-- Each function that is called fails, or gives data that is not a Boolean. -/
def PassesOn : List DataFunction → Value → Prop
  | [], _ => True
  | F :: Fs, d =>
    match F d with
    | .error _ => True
    | .ok (.error _) => False
    | .ok (.ok r) => r.boolean? = none ∧ PassesOn Fs r

theorem roundsFold_one (Fs : List DataFunction) (d : Value) :
    roundsFold Fs 1 d = (chainFold Fs d).map Prod.fst := by
  unfold roundsFold
  rcases chainFold Fs d with e | ⟨r, _ | _⟩ <;> rfl

/-- Where there are no Booleans there is nothing to stop at, and the two folds agree. -/
theorem PassesOn.folds : ∀ {Fs : List DataFunction} {d : Value}, PassesOn Fs d →
    (∃ e, serialFold Fs d = .error e ∧ chainFold Fs d = .error e) ∨
      ∃ r, serialFold Fs d = .ok (.ok r) ∧ chainFold Fs d = .ok (r, false)
  | [], d, _ => .inr ⟨d, rfl, rfl⟩
  | F :: Fs, d, h => by
      rw [PassesOn] at h
      rw [serialFold, chainFold, DataFunction.outcome]
      rcases hF : F d with e | e | r <;> rw [hF] at h
      · exact .inl ⟨e, rfl, rfl⟩
      · exact h.elim
      · obtain ⟨hb, hrest⟩ := h
        simp only [hb]
        exact hrest.folds

theorem passesOn_append {Gs : List DataFunction} : ∀ {Fs : List DataFunction} {d : Value},
    PassesOn (Fs ++ Gs) d ↔ PassesOn Fs d ∧ ∀ r, serialFold Fs d = .ok (.ok r) → PassesOn Gs r
  | [], d => ⟨fun h => ⟨trivial, fun r hr => by cases hr; exact h⟩, fun h => h.2 d rfl⟩
  | F :: Fs, d => by
      rw [List.cons_append, PassesOn, PassesOn, serialFold]
      rcases hF : F d with e | e | r <;> simp only
      · exact ⟨fun _ => ⟨trivial, fun r hr => (nomatch hr)⟩, fun _ => trivial⟩
      · exact ⟨fun h => h.elim, fun h => h.1⟩
      · rw [passesOn_append, and_assoc]

/-! ## Runs with a record -/

/-- The runs end with `r` and ask for `record` on the way. -/
def Performs (x : Nat → Exec (σ × List (Operation V)) α) (s : σ) (r : StatusOr α) (s' : σ)
    (record : List (Operation V)) : Prop :=
  ∀ l, Run.Settles x (s, l) r (s', l ++ record)

/-- The functions that were called. -/
def called : List (Operation V) → List V :=
  List.filterMap fun
    | .createCall f _ => some f
    | _ => none

@[simp] theorem called_append (l l' : List (Operation V)) : called (l ++ l') = called l ++ called l' :=
  List.filterMap_append

/-- What they were called on. -/
def inputs : List (Operation V) → List V :=
  List.filterMap fun
    | .createCall _ a => a
    | _ => none

@[simp] theorem inputs_append (l l' : List (Operation V)) : inputs (l ++ l') = inputs l ++ inputs l' :=
  List.filterMap_append

namespace Performs

variable {x : Nat → Exec (σ × List (Operation V)) α} {f : Nat → α → Exec (σ × List (Operation V)) β}
  {s u s' : σ} {a : α} {e : Status} {r : StatusOr β} {record record' : List (Operation V)}

theorem pure (a : α) (s : σ) : Performs (V := V) (fun _ => Pure.pure a) s (.ok a) s [] := by
  intro l
  rw [List.append_nil]
  exact .pure a (s, l)

theorem bind (ha : Performs x s (.ok a) u record) (h : Performs (fun n => f n a) u r s' record') :
    Performs (fun n => x n >>= f n) s r s' (record ++ record') := by
  intro l
  rw [← List.append_assoc]
  exact (ha l).bind (h (l ++ record))

theorem bind_error (h : Performs x s (.error e) s' record) :
    Performs (fun n => x n >>= f n) s (.error e) s' record := fun l => (h l).bind_error

end Performs

namespace Context

variable {ctxs : Nat → Context σ V} {v pb : Value} {f r : V} {a : Option V} {s s' : σ} {e : Status}

theorem Creates.performs (h : Creates ctxs v s r s') (hgrowing : Growing ctxs) :
    Performs (fun n => (ctxs n).recording.createValue v) s (.ok r) s' [.createValue v] :=
  fun _ => .of_finally (hgrowing.recording.createValue v) (creates_recording_iff.mpr ⟨h, rfl⟩)

theorem Calls.performs (h : Calls ctxs f a s r s') (hgrowing : Growing ctxs) :
    Performs (fun n => (ctxs n).recording.createCall f a) s (.ok r) s' [.createCall f a] :=
  fun _ => .of_finally (hgrowing.recording.createCall f a) (calls_recording_iff.mpr ⟨h, rfl⟩)

theorem CallFails.performs (h : CallFails ctxs f a s e s') (hgrowing : Growing ctxs) :
    Performs (fun n => (ctxs n).recording.createCall f a) s (.error e) s' [.createCall f a] :=
  fun _ => .of_finallyFails (hgrowing.recording.createCall f a) (callFails_recording_iff.mpr ⟨h, rfl⟩)

theorem Shows.performs (h : Shows ctxs r s pb s') (hgrowing : Growing ctxs) :
    Performs (fun n => (ctxs n).recording.materializeValue r) s (.ok pb) s' [.materialize r true] :=
  fun _ => .of_finally (hgrowing.recording.materializeValue r) (shows_recording_iff.mpr ⟨h, rfl⟩)

theorem ShowFails.performs (h : ShowFails ctxs r s e s') (hgrowing : Growing ctxs) :
    Performs (fun n => (ctxs n).recording.materializeValue r) s (.error e) s' [.materialize r true] :=
  fun _ => .of_finallyFails (hgrowing.recording.materializeValue r) (showFails_recording_iff.mpr ⟨h, rfl⟩)

end Context

/-! ## Values that hold data -/

/-- How the values of a family of contexts hold data, while one state comes after another. -/
structure DataModel [Preorder σ] (ctxs : Nat → Context σ V) (e : DataEquivalence) where
  growing : Context.Growing ctxs
  holds : V → Value → σ → Prop
  holds_of_le : ∀ {v d s s'}, holds v d s → s ≤ s' → holds v d s'
  boolean? : ∀ {w d}, e.same w d → w.boolean? = d.boolean?
  shows : ∀ {v d s}, holds v d s → ∃ w s', Context.Shows ctxs v s w s' ∧ e.same w d ∧ s ≤ s'
  creates : ∀ {w d}, e.same w d → ∀ s, ∃ v s', Context.Creates ctxs w s v s' ∧ holds v d s' ∧ s ≤ s'

namespace DataModel

variable [Preorder σ] {ctxs : Nat → Context σ V} {e : DataEquivalence} (M : DataModel ctxs e)

/-- A call of `f` on `a` comes to `r`. -/
inductive CallGives (f a : V) (s : σ) : StatusOr (StatusOr Value) → Prop where
  | fails {e : Status} {s' : σ} (h : Context.CallFails ctxs f (some a) s e s') :
      CallGives f a s (.error e)
  | lateFailure {v : V} {e : Status} {u s' : σ} (hcall : Context.Calls ctxs f (some a) s v u)
      (hle : s ≤ u) (h : Context.ShowFails ctxs v u e s') : CallGives f a s (.ok (.error e))
  | data {v : V} {r : Value} {s' : σ} (hcall : Context.Calls ctxs f (some a) s v s') (hle : s ≤ s')
      (h : M.holds v r s') : CallGives f a s (.ok (.ok r))

/-- From `s` on, `f` gives `r` on whatever holds `d`. -/
def Gives (f : V) (d : Value) (r : StatusOr (StatusOr Value)) (s : σ) : Prop :=
  ∀ ⦃u a⦄, s ≤ u → M.holds a d u → M.CallGives f a u r

/-- From `s` on, `f` computes `F`. -/
def Implements (f : V) (F : DataFunction) (s : σ) : Prop := ∀ d, M.Gives f d (F d) s

/-- From `s` on, `fn` evaluates to a function that computes `F`. -/
def Denotes (s : σ) (fn : Value) (F : DataFunction) : Prop :=
  ∀ ⦃u⦄, s ≤ u → ∃ f u', Context.Creates ctxs fn u f u' ∧ u ≤ u' ∧ M.Implements f F u'

/-- At some point, `fn` evaluates to `f`. -/
def Created (ctxs : Nat → Context σ V) (fn : Value) (f : V) : Prop :=
  ∃ s s', Context.Creates ctxs fn s f s'

variable {M} {s s' u : σ} {d : Value} {x f : V} {F : DataFunction} {fn : Value} {fs : List V}
  {Fs : List DataFunction} {fns : List Value}

theorem Gives.of_le {r : StatusOr (StatusOr Value)} (h : M.Gives f d r s) (hs : s ≤ s') :
    M.Gives f d r s' := fun _ _ hu ha => h (hs.trans hu) ha

theorem Implements.of_le (h : M.Implements f F s) (hs : s ≤ s') : M.Implements f F s' :=
  fun d => (h d).of_le hs

theorem Denotes.of_le (h : M.Denotes s fn F) (hs : s ≤ s') : M.Denotes s' fn F :=
  fun _ hu => h (hs.trans hu)

/-! ### Calling and materializing -/

/-- What is left of a loop after a call whose result materializes. -/
theorem Implements.next (hf : M.Implements f F s) (hx : M.holds x d s) {r : Value}
    (hr : F.outcome d = .ok r) : ∃ v w u, M.holds v r u ∧ e.same w r ∧ s ≤ u ∧
      ∀ {α : Type} {k : Nat → V → Value → Exec (σ × List (Operation V)) α} {o : StatusOr α} {s' : σ}
        {l : List (Operation V)}, Performs (fun n => k n v w) u o s' l → Performs (fun n => do
          let v ← (ctxs n).recording.createCall f (some x)
          let w ← (ctxs n).recording.materializeValue v
          k n v w) s o s' ([.createCall f (some x)] ++ ([.materialize v true] ++ l)) := by
  have hgives := hf d (le_refl s) hx
  unfold DataFunction.outcome at hr
  rcases hFd : F d with e' | e' | r' <;> rw [hFd] at hgives hr <;> cases hr
  cases hgives with
  | @data v _ u hcall hle hv =>
      obtain ⟨w, u', hshow, hsame, hle'⟩ := M.shows hv
      refine ⟨v, w, u', M.holds_of_le hv hle', hsame, hle.trans hle', fun hk => ?_⟩
      exact (hcall.performs M.growing).bind ((hshow.performs M.growing).bind hk)

/-- A call that fails, or whose result does not materialize, ends the loop. -/
theorem Implements.stops (hf : M.Implements f F s) (hx : M.holds x d s) {e' : Status}
    (hr : F.outcome d = .error e') {k : Nat → V → Value → Exec (σ × List (Operation V)) α} :
    ∃ s' record, called record = [f] ∧ Performs (fun n => do
      let v ← (ctxs n).recording.createCall f (some x)
      let w ← (ctxs n).recording.materializeValue v
      k n v w) s (.error e') s' record := by
  have hgives := hf d (le_refl s) hx
  unfold DataFunction.outcome at hr
  rcases hFd : F d with e' | e' | r' <;> rw [hFd] at hgives hr <;> cases hr
  · cases hgives with
    | fails h => exact ⟨_, _, rfl, (h.performs M.growing).bind_error⟩
  · cases hgives with
    | lateFailure hcall _ h =>
        exact ⟨_, _, rfl, (hcall.performs M.growing).bind (h.performs M.growing).bind_error⟩

/-! ### `BreakableChain` -/

section

variable {s₀ : σ}

/-- By induction on the functions. -/
theorem breakableChainLoop_spec (hfns : List.Forall₂ (M.Denotes s₀) fns Fs) (hs : s₀ ≤ s)
    (hx : M.holds x d s) : ∃ o s' record,
      Performs (fun n => ControlFlowHandler.breakableChainLoop (ctxs n).recording fns x) s o s' record ∧
      Except.Related Eq (fun y r => M.holds y r.1 s' ∧ s ≤ s') o (chainFold Fs d) ∧
      List.Forall₂ (Created ctxs) (fns.take (chainLength Fs d)) (called record) := by
  induction hfns generalizing s x d with
  | nil => exact ⟨.ok x, s, [], .pure x s, ⟨hx, le_refl s⟩, .nil⟩
  | @cons fn F fns Fs hfn _ ih =>
      obtain ⟨f, u, hcreate, hu, hf⟩ := hfn hs
      have hcreated : Created ctxs fn f := ⟨s, u, hcreate⟩
      have hcreates := hcreate.performs M.growing
      have hx' := M.holds_of_le hx hu
      rcases hr : F.outcome d with e' | r <;> simp only [chainFold, chainLength, hr]
      · obtain ⟨s', record, hcalled, hstops⟩ := hf.stops hx' hr
        refine ⟨.error e', s', _, hcreates.bind hstops, rfl, ?_⟩
        rw [called_append, hcalled]
        exact .cons hcreated .nil
      obtain ⟨v, w, u', hv, hsame, hu', hnext⟩ := hf.next hx' hr
      have hle : s ≤ u' := hu.trans hu'
      have hw := M.boolean? hsame
      -- the three ways on: a new state, the old one, and the end of the chain
      rcases hb : r.boolean? with _ | _ | _ <;> rw [hb] at hw <;> simp only
      · obtain ⟨o, s', record, hloop, ho, hcalled⟩ := ih (hs.trans hle) hv
        refine ⟨o, s', _, hcreates.bind (hnext ?_), ?_, .cons hcreated hcalled⟩
        · simp only [hw]
          exact hloop
        · exact ho.mono fun _ _ h => ⟨h.1, hle.trans h.2⟩
      · obtain ⟨o, s', record, hloop, ho, hcalled⟩ := ih (hs.trans hle) (M.holds_of_le hx hle)
        refine ⟨o, s', _, hcreates.bind (hnext ?_), ?_, .cons hcreated hcalled⟩
        · simp only [hw]
          exact hloop
        · exact ho.mono fun _ _ h => ⟨h.1, hle.trans h.2⟩
      · refine ⟨.ok x, u', _, hcreates.bind (hnext (l := []) ?_), ⟨M.holds_of_le hx hle, hle⟩,
          .cons hcreated .nil⟩
        simp only [hw]
        exact .pure x u'

/-! ### `RepeatedConditionalChain` -/

theorem createValues_spec (hfns : List.Forall₂ (M.Denotes s₀) fns Fs) (hs : s₀ ≤ s) :
    ∃ fs s' record, Performs (fun n => (ctxs n).recording.createValues fns) s (.ok fs) s' record ∧ s ≤ s' ∧
      List.Forall₂ (fun f F => M.Implements f F s') fs Fs ∧ List.Forall₂ (Created ctxs) fns fs ∧
      called record = [] := by
  induction hfns generalizing s with
  | nil => exact ⟨[], s, [], .pure [] s, le_refl s, .nil, .nil, rfl⟩
  | @cons fn F fns Fs hfn _ ih =>
      obtain ⟨f, u, hcreate, hu, hf⟩ := hfn hs
      obtain ⟨fs, s', record, hcreates, hs', hfs, hcreated, hcalled⟩ := ih (hs.trans hu)
      refine ⟨f :: fs, s', _, (hcreate.performs M.growing).bind (hcreates.bind (.pure _ s')),
        hu.trans hs', .cons (hf.of_le hs') hfs, .cons ⟨s, u, hcreate⟩ hcreated, ?_⟩
      rw [called_append, called_append, hcalled]
      rfl

/-- One round, by induction on the functions. -/
theorem conditionalRound_spec (hfs : List.Forall₂ (fun f F => M.Implements f F s₀) fs Fs) (hs : s₀ ≤ s)
    (hx : M.holds x d s) : ∃ o s' record,
      Performs (fun n => ControlFlowHandler.conditionalRound (ctxs n).recording fs x) s o s' record ∧
      Except.Related Eq (fun y r => M.holds y.1 r.1 s' ∧ s ≤ s' ∧ y.2 = r.2 ∧
        List.Forall₂ (fun a d => M.holds a d s') (inputs record) (chainInputs Fs d)) o (chainFold Fs d) ∧
      called record = fs.take (chainLength Fs d) := by
  induction hfs generalizing s x d with
  | nil => exact ⟨.ok (x, false), s, [], .pure _ s, ⟨hx, le_refl s, rfl, .nil⟩, rfl⟩
  | @cons f F fs Fs hf _ ih =>
      replace hf := hf.of_le hs
      rcases hr : F.outcome d with e' | r <;> simp only [chainFold, chainLength, chainInputs, hr]
      · obtain ⟨s', record, hcalled, hstops⟩ := hf.stops hx hr
        exact ⟨.error e', s', record, hstops, rfl, hcalled⟩
      obtain ⟨v, w, u, hv, hsame, hle, hnext⟩ := hf.next hx hr
      have hw := M.boolean? hsame
      rcases hb : r.boolean? with _ | _ | _ <;> rw [hb] at hw <;> simp only
      · -- the state is made anew from what was materialized
        obtain ⟨v', u', hcreate, hv', hle'⟩ := M.creates hsame u
        have hs' : s ≤ u' := hle.trans hle'
        obtain ⟨o, s', record, hround, ho, hcalled⟩ := ih (hs.trans hs') hv'
        refine ⟨o, s', _, hnext (l := [Operation.createValue w] ++ record) ?_,
          ho.mono fun _ _ ⟨hy, hs'', hstop, hinputs⟩ => ?_, ?_⟩
        · simp only [hw]
          exact (hcreate.performs M.growing).bind hround
        · have hle'' := hs'.trans hs''
          exact ⟨hy, hle'', hstop, .cons (M.holds_of_le hx hle'') hinputs⟩
        · rw [called_append, called_append, called_append, hcalled]
          rfl
      · obtain ⟨o, s', record, hround, ho, hcalled⟩ := ih (hs.trans hle) (M.holds_of_le hx hle)
        refine ⟨o, s', _, hnext ?_, ho.mono fun _ _ ⟨hy, hs', hstop, hinputs⟩ => ?_,
          congrArg (f :: ·) hcalled⟩
        · simp only [hw]
          exact hround
        · exact ⟨hy, hle.trans hs', hstop, .cons (M.holds_of_le hx (hle.trans hs')) hinputs⟩
      · have hx' := M.holds_of_le hx hle
        refine ⟨.ok (x, true), u, _, hnext (l := []) ?_, ⟨hx', hle, rfl, .cons hx' .nil⟩, rfl⟩
        simp only [hw]
        exact .pure _ u

/-- By induction on the number of rounds. -/
theorem conditionalRounds_spec (hfs : List.Forall₂ (fun f F => M.Implements f F s₀) fs Fs) (n : Nat)
    (hs : s₀ ≤ s) (hx : M.holds x d s) : ∃ o s' record,
      Performs (fun k => ControlFlowHandler.conditionalRounds (ctxs k).recording fs n x) s o s' record ∧
      Except.Related Eq (fun y r => M.holds y r s' ∧ s ≤ s' ∧
        List.Forall₂ (fun a d => M.holds a d s') (inputs record) (roundsInputs Fs n d)) o (roundsFold Fs n d) ∧
      called record = (roundsLengths Fs n d).flatMap (fs.take ·) := by
  induction n generalizing s x d with
  | zero => exact ⟨.ok x, s, [], .pure x s, ⟨hx, le_refl s, .nil⟩, rfl⟩
  | succ n ih =>
      obtain ⟨o, u, record, hround, ho, hcalled⟩ := conditionalRound_spec hfs hs hx
      rcases hr : chainFold Fs d with e' | ⟨r, stopped⟩ <;> rw [hr] at ho <;>
        simp only [roundsFold, roundsLengths, roundsInputs, hr]
      · cases o with
        | ok => cases ho
        | error e =>
            obtain rfl : e = e' := ho
            exact ⟨.error e, u, record, hround.bind_error, rfl, by simpa using hcalled⟩
      cases o with
      | error => cases ho
      | ok p =>
          obtain ⟨y, b⟩ := p
          obtain ⟨hy, hle, rfl, hinputs⟩ := ho
          cases b with
          -- the round was stopped, and no other one follows
          | true =>
              refine ⟨.ok y, u, record ++ [], hround.bind (.pure y u), ⟨hy, hle, ?_⟩, ?_⟩
              · rw [List.append_nil]
                exact hinputs
              · simpa using hcalled
          | false =>
              obtain ⟨o, s', record', hrounds, ho, hcalled'⟩ := ih (hs.trans hle) hy
              refine ⟨o, s', _, hround.bind hrounds, ho.mono fun _ _ ⟨hz, hle', hinputs'⟩ => ?_, ?_⟩
              · refine ⟨hz, hle.trans hle', ?_⟩
                rw [inputs_append]
                exact List.rel_append (hinputs.imp fun _ _ ha => M.holds_of_le ha hle') hinputs'
              · rw [called_append, hcalled, hcalled']
                rfl

/-! ### `SerialChain` and `Repeat` -/

/-- Nothing is materialized on the way, so it matters that what the functions give is data. -/
theorem serialChainLoop_spec (hfns : List.Forall₂ (M.Denotes s₀) fns Fs) (hs : s₀ ≤ s)
    (hx : M.holds x d s) (hpass : PassesOn Fs d) : ∃ o s' record,
      Performs (fun n => ControlFlowHandler.serialChainLoop (ctxs n).recording fns x) s o s' record ∧
      Except.Related Eq (fun y r => M.holds y r.1 s' ∧ s ≤ s') o (chainFold Fs d) := by
  induction hfns generalizing s x d with
  | nil => exact ⟨.ok x, s, [], .pure x s, hx, le_refl s⟩
  | @cons fn F fns Fs hfn _ ih =>
      obtain ⟨f, u, hcreate, hu, hf⟩ := hfn hs
      have hcreates := hcreate.performs M.growing
      have hgives := hf d (le_refl u) (M.holds_of_le hx hu)
      rw [PassesOn] at hpass
      rw [chainFold, DataFunction.outcome]
      rcases hF : F d with e' | e' | r <;> rw [hF] at hpass hgives <;> simp only
      · cases hgives with
        | fails h => exact ⟨.error e', _, _, hcreates.bind (h.performs M.growing).bind_error, rfl⟩
      -- a result that is no data is not passed on
      · cases hpass
      · cases hgives with
        | @data v _ u' hcall hle hv =>
            have hle' := hu.trans hle
            obtain ⟨hb, hpass⟩ := hpass
            obtain ⟨o, s', record, hloop, ho⟩ := ih (hs.trans hle') hv hpass
            refine ⟨o, s', _, hcreates.bind ((hcall.performs M.growing).bind hloop), ?_⟩
            simp only [hb]
            exact ho.mono fun _ _ h => ⟨h.1, hle'.trans h.2⟩

/-- A body that gives what a chain would give, as often as the rounds are. -/
theorem repeatLoop_spec (hf : ∀ d, PassesOn Fs d → M.Gives f d (serialFold Fs d) s₀) (n : Nat)
    (hs : s₀ ≤ s) (hx : M.holds x d s) (hpass : PassesOn (List.replicate n Fs).flatten d) : ∃ o s' record,
      Performs (fun k => ControlFlowHandler.repeatLoop (ctxs k).recording f n x) s o s' record ∧
      Except.Related Eq (fun y r => M.holds y r s' ∧ s ≤ s') o (roundsFold Fs n d) := by
  induction n generalizing s x d with
  | zero => exact ⟨.ok x, s, [], .pure x s, hx, le_refl s⟩
  | succ n ih =>
      rw [List.replicate_succ, List.flatten_cons] at hpass
      obtain ⟨hround, hrest⟩ := passesOn_append.mp hpass
      have hgives := hf d hround hs hx
      rw [roundsFold]
      -- where all results are passed on, the serial chain folds as the breakable one does
      rcases hround.folds with ⟨e', hserial, hchain⟩ | ⟨r, hserial, hchain⟩ <;>
        rw [hserial] at hgives <;> rw [hchain]
      · cases hgives with
        | fails h => exact ⟨.error e', _, _, (h.performs M.growing).bind_error, rfl⟩
      · cases hgives with
        | @data v _ u hcall hle hv =>
            obtain ⟨o, s', record, hloop, ho⟩ := ih (hs.trans hle) hv (hrest r hserial)
            exact ⟨o, s', _, (hcall.performs M.growing).bind hloop,
              ho.mono fun _ _ h => ⟨h.1, hle.trans h.2⟩⟩

end

end DataModel

end GenC
