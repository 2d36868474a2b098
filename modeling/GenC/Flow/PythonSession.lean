import GenC.Flow.Program
import GenC.Runtime.PythonRunner

/-!
# Sessions, and what they mean

What a Python program gets from its runners is what the computations mean, whatever else it does with other runners of
the same executor.

The computations are flows: functions are written out where they are used, and names stand for data. The arguments are
Python data without IR in it, and there is at least one of them: a call without an argument (`runner()`) is left out,
as a flow is a function of one datum.

* `Flow.pyCall`, `PythonSession.meaning` — what a call, and what a session, is to give.
* `PythonRunner.call_follows` — one call on a function that realizes the flow.
-/

namespace GenC

open Lib ControlFlowExecutor

/-! ## The meaning -/

/-- There is no IR in it, which would be evaluated. -/
inductive PyArg.IsData : PyArg → Prop where
  | none : IsData .none
  | str (s : String) : IsData (.str s)
  | bool (b : Bool) : IsData (.bool b)
  | int (i : Int) : IsData (.int i)
  | float (f : Float) : IsData (.float f)
  | list {xs : List PyArg} (h : ∀ x ∈ xs, IsData x) : IsData (.list xs)
  | dict {items : List (String × PyArg)} (h : ∀ item ∈ items, IsData item.2) : IsData (.dict items)
  | message (packed : AnyPb) : IsData (.message packed)
  | other (type : String) : IsData (.other type)

theorem PyArg.toValueProtoAll_materialized {xs : List PyArg}
    (h : ∀ x ∈ xs, ∀ {v}, x.toValueProto = .ok v → v.Materialized) :
    ∀ {vs}, toValueProtoAll xs = .ok vs → ∀ v ∈ vs, v.Materialized := by
  induction xs with
  | nil =>
      intro vs hvs
      cases hvs
      exact List.forall_mem_nil _
  | cons x xs ih =>
      intro vs hvs
      obtain ⟨v, hx, hvs⟩ := ok_of_bind hvs
      obtain ⟨vs', hxs, hvs⟩ := ok_of_bind hvs
      cases hvs
      exact List.forall_mem_cons.mpr ⟨h x List.mem_cons_self hx, ih (fun x hx => h x (List.mem_cons_of_mem _ hx)) hxs⟩

theorem Value.Materialized.setLabel {v : Value} (h : v.Materialized) (label : String) :
    (v.setLabel label).Materialized := by
  cases h with
  | scalar => exact .scalar
  | struct h => exact .struct h

theorem PyArg.toValueProtoItems_materialized {items : List (String × PyArg)}
    (h : ∀ item ∈ items, ∀ {v}, item.2.toValueProto = .ok v → v.Materialized) :
    ∀ {vs}, toValueProtoItems items = .ok vs → ∀ v ∈ vs, v.Materialized := by
  induction items with
  | nil =>
      intro vs hvs
      cases hvs
      exact List.forall_mem_nil _
  | cons item items ih =>
      intro vs hvs
      obtain ⟨v, hitem, hvs⟩ := ok_of_bind hvs
      obtain ⟨vs', hitems, hvs⟩ := ok_of_bind hvs
      cases hvs
      exact List.forall_mem_cons.mpr ⟨(h item List.mem_cons_self hitem).setLabel item.1,
        ih (fun item hitem => h item (List.mem_cons_of_mem _ hitem)) hitems⟩

/-- What is converted then, is data. -/
theorem PyArg.IsData.materialized {x : PyArg} (h : x.IsData) :
    ∀ {valuePb}, x.toValueProto = .ok valuePb → valuePb.Materialized := by
  induction h with
  | none | other =>
      intro valuePb hv
      cases hv
  | str | bool | float | message =>
      intro valuePb hv
      cases hv
      exact .scalar
  | int i =>
      intro valuePb hv
      -- an integer that does not fit is an error, and no value
      replace hv : intField i = .ok valuePb := hv
      unfold intField at hv
      split at hv <;> cases hv
      exact .scalar
  | @list xs _ ih =>
      intro valuePb hv
      replace hv : (toValueProtoAll xs >>= fun vs => Pure.pure (Value.ofStruct vs)) = .ok valuePb := hv
      obtain ⟨vs, hvs, hv⟩ := ok_of_bind hv
      cases hv
      exact .struct (toValueProtoAll_materialized ih hvs)
  | @dict items _ ih =>
      intro valuePb hv
      replace hv : (toValueProtoItems items >>= fun vs => Pure.pure (Value.ofStruct vs)) = .ok valuePb := hv
      obtain ⟨vs, hvs, hv⟩ := ok_of_bind hv
      cases hv
      exact .struct (toValueProtoItems_materialized ih hvs)

/-! ### The meaning of a session -/

/-- The data of the arguments. -/
def PyArg.data : List PyArg → Except String (List Datum)
  | [] => .ok []
  | x :: xs => do return .ofValue (← x.toValueProto) :: (← data xs)

/-- One argument is passed as it is, and several as a structure. -/
def PyArg.datum (arg : PyArg) : List PyArg → Except String Datum
  | [] => do return .ofValue (← arg.toValueProto)
  | args => do return .node (← data (arg :: args))

/-- What is made of a conversion. -/
def Meaning.converted {α β : Type} (r : Except String α) (q : α → Meaning (Except String β)) :
    Meaning (Except String β) :=
  match r with
  | .error message => pure (.error message)
  | .ok a => q a

section

variable [ProtoText] {handlers : IntrinsicHandlerSet} (py : PythonBindings)

/-- A call of the function from Python. -/
def Flow.pyCall (f : Flow handlers) (arg : PyArg) (args : List PyArg) (kwargs : List (String × PyArg)) :
    Meaning (Except PyException PyArg) :=
  if kwargs ≠ [] then pure (.error (.valueError "Keyword arguments are not currently supported."))
  else do
    let result ← Behavior.attempt (Meaning.converted (arg.datum args) fun d => do
      let d ← (f.action []).call d
      let resultPb ← d.shown
      pure (resultPb.fromValueProto py.pack))
    pure (PythonRunner.caught py result)

namespace PythonSession

def stepMeaning (runners : String → Option (Flow handlers)) :
    PythonOp (Flow handlers) → Meaning ((String → Option (Flow handlers)) × PythonReply)
  | .new name f => do
      match ← (f.action []).create.attempt with
      | .ok () => pure (Function.update runners name (some f), .done)
      | .error e => pure (runners, .raised (.statusNotOk e))
  | .call name arg args kwargs =>
      match runners name with
      | some f => do
          let result ← f.pyCall py arg args kwargs
          pure (runners, .ofResult result)
      | none => pure (runners, .nameError)
  | .del name =>
      match runners name with
      | some _ => pure (Function.update runners name none, .done)
      | none => pure (runners, .nameError)
  | .invoke f arg args kwargs => do
      match ← (f.action []).create.attempt with
      | .ok () => do
          let result ← f.pyCall py arg args kwargs
          pure (runners, .ofResult result)
      | .error e => pure (runners, .raised (.statusNotOk e))

/-- What comes of the steps of a session. -/
def meaning (runners : String → Option (Flow handlers)) : List (PythonOp (Flow handlers)) →
    Meaning ((String → Option (Flow handlers)) × List PythonReply)
  | [] => pure (runners, [])
  | op :: ops => do
      let stepped ← stepMeaning py runners op
      let rest ← meaning stepped.1 ops
      pure (rest.1, stepped.2 :: rest.2)

end PythonSession

end

/-! ## Calls -/

section

variable [ProtoText] {handlers : IntrinsicHandlerSet} (py : PythonBindings) {s : InlineState}

omit [ProtoText] in
theorem PyArg.data_cons (x : PyArg) (xs : List PyArg) (q : List Datum → Meaning (Except String PyArg)) :
    Meaning.converted (data (x :: xs)) q = Meaning.converted x.toValueProto fun valuePb =>
      Meaning.converted (data xs) fun ds => q (.ofValue valuePb :: ds) := by
  rw [data]
  rcases x.toValueProto with message | valuePb
  · rfl
  rcases data xs with message | ds
  · rfl
  · rfl

theorem direct_createValue (n : Nat) (valuePb : Value) :
    ((localExecutor handlers).impl n).direct.createValue valuePb =
      ((localExecutor handlers).contexts [] n).createValue valuePb :=
  createExecutorValue_eq_contexts (localExecutor handlers) n valuePb

namespace PythonRunner

theorem withElements_growing {args : List PyArg} {k : Nat → List ExecutorValue → Exec InlineState (Except String PyArg)}
    (hk : ∀ vs, Run.Growing fun n => k n vs) :
    Run.Growing fun n => withElements ((localExecutor handlers).impl n).direct args (k n) := by
  induction args generalizing k with
  | nil => exact hk []
  | cons x xs ih =>
      simp only [withElements, ExecutorImpl.direct_releasing]
      rcases x.toValueProto with message | valuePb
      · exact .const _
      simp only [direct_createValue]
      exact (createValue_growing [] valuePb).bind fun v => ih fun vs => hk (v :: vs)

/-- The elements hold the data of the arguments. -/
theorem withElements_follows {R : InlineState → Except String PyArg → Except String PyArg → Prop} {args : List PyArg}
    {k : Nat → List ExecutorValue → Exec InlineState (Except String PyArg)}
    {q : List Datum → Meaning (Except String PyArg)} (hdata : ∀ x ∈ args, x.IsData)
    (hR : ∀ s' message, s ≤ s' → R s' (.error message) (.error message))
    (hk : ∀ vs, Run.Growing fun n => k n vs)
    (hkq : ∀ s' vs ds, s ≤ s' → List.Forall₂ (ExecutorValue.Reads s') vs ds →
      Run.Follows R (fun n => k n vs) s' (q ds)) :
    Run.Follows R (fun n => withElements ((localExecutor handlers).impl n).direct args (k n)) s
      (Meaning.converted (PyArg.data args) q) := by
  -- the elements are created one after the other, each held while the next are
  induction args generalizing s k q with
  | nil => exact hkq s [] [] (le_refl s) .nil
  | cons x xs ih =>
      rw [PyArg.data_cons]
      simp only [withElements, ExecutorImpl.direct_releasing]
      have hx := hdata x List.mem_cons_self
      rcases hv : x.toValueProto with message | valuePb
      · exact .pure (hR s message (le_refl s))
      simp only [direct_createValue]
      show Run.Follows R _ s (Meaning.converted (PyArg.data xs) fun ds => q (.ofValue valuePb :: ds))
      rw [← pure_bind (Datum.ofValue valuePb) fun d => Meaning.converted (PyArg.data xs) fun ds => q (d :: ds)]
      refine .bind (createValue_growing [] valuePb) (fun v => withElements_growing fun vs => hk (v :: vs))
        (createValue_data [] (hx.materialized hv) s) fun v s₁ d hs₁ hd => ?_
      refine ih (fun x hx => hdata x (List.mem_cons_of_mem _ hx)) (fun s' message hs' => hR s' message (hs₁.trans hs'))
        (fun vs => hk (v :: vs)) fun s' vs ds hs' hds => ?_
      exact hkq s' (v :: vs) (d :: ds) (hs₁.trans hs') (.cons (hd.of_le hs') hds)

theorem withArgument_growing {args : List PyArg}
    {k : Nat → Option ExecutorValue → Exec InlineState (Except String PyArg)} (hk : ∀ x, Run.Growing fun n => k n x) :
    Run.Growing fun n => withArgument ((localExecutor handlers).impl n).direct args (k n) := by
  rcases args with _ | ⟨x, _ | ⟨y, xs⟩⟩
  · exact hk none
  · simp only [withArgument, ExecutorImpl.direct_releasing]
    rcases x.toValueProto with message | valuePb
    · exact .const _
    simp only [direct_createValue]
    exact (createValue_growing [] valuePb).bind fun v => hk (some v)
  · simp only [withArgument, ExecutorImpl.direct_releasing]
    exact withElements_growing fun vs => (Run.Growing.const _).bind fun v => hk (some v)

theorem withArgument_follows {R : InlineState → Except String PyArg → Except String PyArg → Prop} {arg : PyArg}
    {args : List PyArg} {k : Nat → Option ExecutorValue → Exec InlineState (Except String PyArg)}
    {q : Datum → Meaning (Except String PyArg)} (hdata : ∀ x ∈ arg :: args, x.IsData)
    (hR : ∀ s' message, s ≤ s' → R s' (.error message) (.error message)) (hk : ∀ x, Run.Growing fun n => k n x)
    (hkq : ∀ s' v d, s ≤ s' → v.Reads s' d → Run.Follows R (fun n => k n (some v)) s' (q d)) :
    Run.Follows R (fun n => withArgument ((localExecutor handlers).impl n).direct (arg :: args) (k n)) s
      (Meaning.converted (arg.datum args) q) := by
  rcases args with _ | ⟨y, xs⟩
  · simp only [withArgument, ExecutorImpl.direct_releasing, PyArg.datum]
    have harg := hdata arg List.mem_cons_self
    rcases hv : arg.toValueProto with message | valuePb
    · exact .pure (hR s message (le_refl s))
    simp only [direct_createValue]
    show Run.Follows R _ s (q (.ofValue valuePb))
    rw [← pure_bind (Datum.ofValue valuePb) q]
    refine .bind (createValue_growing [] valuePb) (fun v => hk (some v)) (createValue_data [] (harg.materialized hv) s)
      fun v s₁ d hs₁ hd => ?_
    exact hkq s₁ v d hs₁ hd
  · simp only [withArgument, ExecutorImpl.direct_releasing]
    -- two arguments at least are packed into a struct
    have hnode : Meaning.converted (arg.datum (y :: xs)) q =
        Meaning.converted (PyArg.data (arg :: y :: xs)) fun ds => q (.node ds) := by
      rw [PyArg.datum]
      · rcases PyArg.data (arg :: y :: xs) with message | ds <;> rfl
      · exact List.cons_ne_nil y xs
    rw [hnode]
    refine withElements_follows hdata hR (fun vs => (Run.Growing.const _).bind fun v => hk (some v))
      fun s' vs ds hs' hds => ?_
    exact hkq s' (.struct vs) (.node ds) hs' (ExecutorValue.Reads.struct_iff.mpr hds)

/-! ### A call of a runner -/

variable {f : Flow handlers} {g : ExecutorValue}

theorem call_growing (g : ExecutorValue) (args : List PyArg) (kwargs : List (String × PyArg)) :
    Run.Growing fun n => call ((localExecutor handlers).impl n).direct py g args kwargs := by
  unfold call
  split
  · exact .const _
  refine .bind (.attempt (withArgument_growing fun x => ?_)) fun _ => .const _
  simp only [ExecutorImpl.direct_releasing]
  refine (constCreateCall_growing g x).bind fun r => ?_
  simp only [← bind_assoc]
  exact (materializeValue_growing [] r).bind fun _ => .const _

/-- A function that realizes what the flow means, is called from Python as the flow is. -/
theorem call_follows (hg : g.Realizes handlers s (f.action [])) {arg : PyArg} {args : List PyArg}
    (hdata : ∀ x ∈ arg :: args, x.IsData) (kwargs : List (String × PyArg)) :
    Run.Follows (fun _ r r' => r = r')
      (fun n => call ((localExecutor handlers).impl n).direct py g (arg :: args) kwargs) s
      (f.pyCall py arg args kwargs) := by
  unfold call Flow.pyCall
  split
  · exact .pure rfl
  have hcall (x : Option ExecutorValue) : Run.Growing fun n =>
      ((localExecutor handlers).impl n).direct.createCall g x >>= fun resultVal =>
        ((localExecutor handlers).impl n).direct.materialize resultVal (some Value.defaultInstance) >>= fun result =>
          result.get >>= fun resultPb => (Pure.pure (resultPb.fromValueProto py.pack) : Exec InlineState _) := by
    refine (constCreateCall_growing g x).bind fun r => ?_
    simp only [← bind_assoc]
    exact (materializeValue_growing [] r).bind fun _ => .const _
  -- what is tried: embed the argument, call, show the result and convert it
  have htry : Run.Follows (fun _ r r' => r = r')
      (fun n => tryCall ((localExecutor handlers).impl n).direct py g (arg :: args)) s
      (Meaning.converted (arg.datum args) fun d => (f.action []).call d >>= fun d => d.shown >>= fun resultPb =>
        pure (resultPb.fromValueProto py.pack)) := by
    unfold tryCall
    simp only [ExecutorImpl.direct_releasing]
    refine withArgument_follows hdata (fun _ _ _ => rfl) hcall fun s' v d hs' hv => ?_
    refine .bind (constCreateCall_growing g (some v)) (fun r => ?_) (hg hs' hv) fun r s₁ d' hs₁ hr => ?_
    · simp only [← bind_assoc]
      exact (materializeValue_growing [] r).bind fun _ => .const _
    simp only [← bind_assoc]
    have hconvert (resultPb : Value) : Run.Growing fun _ =>
        (Pure.pure (resultPb.fromValueProto py.pack) : Exec InlineState (Except String PyArg)) := .const _
    refine .bind (materializeValue_growing [] r) hconvert (materializeValue_follows [] hr) fun w s₂ w' _ hw => ?_
    exact hw.1 ▸ .pure rfl
  have hcaught (r : StatusOr (Except String PyArg)) : Run.Growing fun _ =>
      (Pure.pure (caught py r) : Exec InlineState (Except PyException PyArg)) := .const _
  refine .bind (.attempt ?_) hcaught htry.attempt fun r s' r' _ hr => ?_
  · exact withArgument_growing fun x => by
      simp only [ExecutorImpl.direct_releasing]
      exact hcall x
  -- results that are followed are equal, also where they are errors
  have heq : r = r' := by
    rcases r with e | r <;> rcases r' with e' | r'
    · exact congrArg _ hr
    · exact hr.elim
    · exact hr.elim
    · exact congrArg _ hr
  exact heq ▸ .pure rfl

end PythonRunner

/-! ## Sessions -/

namespace PythonSession

variable {vs : String → Option ExecutorValue} {fs : String → Option (Flow handlers)}

/-- The variables have functions that realize what their flows mean. -/
def Realized (s : InlineState) (vs : String → Option ExecutorValue) (fs : String → Option (Flow handlers)) : Prop :=
  ∀ name, Option.Rel (fun v f => v.Realizes handlers s (f.action [])) (vs name) (fs name)

theorem Realized.of_le {s' : InlineState} (h : Realized s vs fs) (hs : s ≤ s') : Realized s' vs fs := by
  intro name
  have hrel := h name
  generalize vs name = v?, fs name = f? at hrel
  cases hrel with
  | none => exact .none
  | some hv => exact .some (hv.of_le hs)

theorem Realized.update {v : Option ExecutorValue} {f : Option (Flow handlers)} (h : Realized s vs fs) (name : String)
    (hv : Option.Rel (fun v f => v.Realizes handlers s (f.action [])) v f) :
    Realized s (Function.update vs name v) (Function.update fs name f) := by
  intro name'
  by_cases heq : name' = name
  · subst heq
    rw [Function.update_self, Function.update_self]
    exact hv
  · rw [Function.update_of_ne heq, Function.update_of_ne heq]
    exact h name'

section Create

variable {α β : Type} {k : Nat → Except PyException ExecutorValue → Exec InlineState α}
  (hk : ∀ r, Run.Growing fun n => k n r)

include hk

theorem create_bind_growing (comp : Value) : Run.Growing fun n =>
    PythonRunner.create comp (some ((localExecutor handlers).impl n).direct) >>= k n := by
  simp only [PythonRunner.create, bind_assoc, direct_createValue]
  refine (createValue_growing [] comp).attempt.bind fun r => ?_
  cases r with
  | error e => exact hk (.error (.statusNotOk e))
  | ok v => exact hk (.ok v)

theorem create_bind_follows {R : InlineState → α → β → Prop} {q : StatusOr Unit → Meaning β}
    (hh : handlers.Standard) (f : Flow handlers)
    (hok : ∀ s' g, s ≤ s' → g.Realizes handlers s' (f.action []) →
      Run.Follows R (fun n => k n (.ok g)) s' (q (.ok ())))
    (herror : ∀ s' e, s ≤ s' → Run.Follows R (fun n => k n (.error (.statusNotOk e))) s' (q (.error e))) :
    Run.Follows R (fun n => PythonRunner.create f.toPb (some ((localExecutor handlers).impl n).direct) >>= k n) s
      ((f.action []).create.attempt >>= q) := by
  have hbuilds : Builds handlers [] s f.toPb (f.action []) :=
    setLabel_toPb f ▸ f.builds hh (ρ := []) List.Forall₂.nil ""
  simp only [PythonRunner.create, bind_assoc, direct_createValue]
  refine .bind (createValue_growing [] f.toPb).attempt (fun r => ?_) (hbuilds (le_refl s)).attempt
    fun r s' r' hs' hr => ?_
  · cases r with
    | error e => exact hk (.error (.statusNotOk e))
    | ok v => exact hk (.ok v)
  -- both are errors, with the same status, or neither is
  rcases r with e | g <;> rcases r' with e' | _
  · obtain rfl : e = e' := hr
    exact herror s' e hs'
  · exact hr.elim
  · exact hr.elim
  · exact hok s' g hs' hr

end Create

theorem step_growing (op : PythonOp Value) :
    Run.Growing fun n => step ((localExecutor handlers).impl n).direct py vs op := by
  have hreply (name : String → Option ExecutorValue) {r : Except PyException PyArg} :
      Run.Growing fun _ => (Pure.pure (name, PythonReply.ofResult r) : Exec InlineState _) := .const _
  cases op with
  -- a name that is bound again drops the runner that it had
  | new name comp =>
      refine create_bind_growing (fun r => ?_) comp
      rcases r with e | v
      · exact .const _
      rcases vs name with _ | old <;> exact .const _
  | call name arg args kwargs =>
      simp only [step]
      rcases vs name with _ | g
      · exact .const _
      · exact (PythonRunner.call_growing py g (arg :: args) kwargs).bind fun _ => hreply vs
  | del name =>
      simp only [step]
      rcases vs name with _ | g <;> exact .const _
  | invoke comp arg args kwargs =>
      refine create_bind_growing (fun r => ?_) comp
      rcases r with e | g
      · exact .const _
      simp only [ExecutorImpl.direct_releasing]
      exact (PythonRunner.call_growing py g (arg :: args) kwargs).bind fun _ => hreply vs

theorem run_growing (ops : List (PythonOp Value)) :
    Run.Growing fun n => run ((localExecutor handlers).impl n).direct py vs ops := by
  induction ops generalizing vs with
  | nil => exact .const _
  | cons op ops ih => exact (step_growing py op).bind fun stepped => ih.bind fun _ => .const _

/-! ### Steps -/

/-- What is passed from Python is data. -/
def OnData : PythonOp (Flow handlers) → Prop
  | .call _ arg args _ => ∀ x ∈ arg :: args, x.IsData
  | .invoke _ arg args _ => ∀ x ∈ arg :: args, x.IsData
  | _ => True

theorem step_follows (hh : handlers.Standard) (h : Realized s vs fs) {op : PythonOp (Flow handlers)}
    (hop : OnData op) :
    Run.Follows (fun s' r r' => Realized s' r.1 r'.1 ∧ r.2 = r'.2)
      (fun n => step ((localExecutor handlers).impl n).direct py vs (op.map Flow.toPb)) s (stepMeaning py fs op) := by
  have hcall {s' : InlineState} (hs' : s ≤ s') {g : ExecutorValue} {f : Flow handlers}
      (hg : g.Realizes handlers s' (f.action [])) {arg : PyArg} {args : List PyArg}
      (hdata : ∀ x ∈ arg :: args, x.IsData) (kwargs : List (String × PyArg)) :
      Run.Follows (fun s' r r' => Realized s' r.1 r'.1 ∧ r.2 = r'.2)
        (fun n => PythonRunner.call ((localExecutor handlers).impl n).direct py g (arg :: args) kwargs >>= fun r =>
          Pure.pure (vs, PythonReply.ofResult r)) s'
        (f.pyCall py arg args kwargs >>= fun r => pure (fs, PythonReply.ofResult r)) := by
    have hreply (r : Except PyException PyArg) :
        Run.Growing fun _ => (Pure.pure (vs, PythonReply.ofResult r) : Exec InlineState _) := .const _
    refine .bind (PythonRunner.call_growing py g (arg :: args) kwargs) hreply
      (PythonRunner.call_follows py hg hdata kwargs) fun r s₁ r' hs₁ hr => ?_
    exact .pure ⟨h.of_le (hs'.trans hs₁), congrArg PythonReply.ofResult hr⟩
  cases op with
  | new name f =>
      refine create_bind_follows (fun r => ?_) hh f (fun s' g hs' hg => ?_) fun s' e hs' => ?_
      · rcases r with e | v
        · exact .const _
        rcases vs name with _ | old <;> exact .const _
      · -- Whatever the variable referred to is dropped, which does nothing to values.
        have hdrop : ∀ n, drop ((localExecutor handlers).impl n).direct (vs name) = pure () := by
          intro n
          rcases vs name with _ | old <;> rfl
        simp only [hdrop, pure_bind]
        exact .pure ⟨(h.of_le hs').update name (.some hg), rfl⟩
      · exact .pure ⟨h.of_le hs', rfl⟩
  | call name arg args kwargs =>
      simp only [PythonOp.map, step, stepMeaning]
      have hname := h name
      generalize vs name = v?, fs name = f? at hname
      cases hname with
      | none => exact .pure ⟨h, rfl⟩
      | some hg => exact hcall (le_refl s) hg hop kwargs
  | del name =>
      simp only [PythonOp.map, step, stepMeaning]
      have hname := h name
      generalize vs name = v?, fs name = f? at hname
      cases hname with
      | none => exact .pure ⟨h, rfl⟩
      | some => exact .pure ⟨h.update name .none, rfl⟩
  | invoke f arg args kwargs =>
      refine create_bind_follows (fun r => ?_) hh f (fun s' g hs' hg => ?_) fun s' e hs' => ?_
      · rcases r with e | g
        · exact .const _
        simp only [ExecutorImpl.direct_releasing]
        exact (PythonRunner.call_growing py g (arg :: args) kwargs).bind fun _ => .const _
      · simp only [ExecutorImpl.direct_releasing]
        exact hcall hs' hg hop kwargs
      · exact .pure ⟨h.of_le hs', rfl⟩

theorem rest_growing (reply : PythonReply) (ops : List (PythonOp Value)) :
    Run.Growing fun n => run ((localExecutor handlers).impl n).direct py vs ops >>= fun rest =>
      Pure.pure (rest.1, reply :: rest.2) := by
  have hreplies (rest : (String → Option ExecutorValue) × List PythonReply) :
      Run.Growing fun _ => (Pure.pure (rest.1, reply :: rest.2) : Exec InlineState _) := .const _
  exact (run_growing py ops).bind hreplies

/-- By induction on the steps. The functions of the variables stay what they are. -/
theorem run_follows (hh : handlers.Standard) {ops : List (PythonOp (Flow handlers))} (h : Realized s vs fs)
    (hops : ∀ op ∈ ops, OnData op) :
    Run.Follows (fun s' r r' => Realized s' r.1 r'.1 ∧ r.2 = r'.2)
      (fun n => run ((localExecutor handlers).impl n).direct py vs (ops.map (PythonOp.map Flow.toPb))) s
      (meaning py fs ops) := by
  induction ops generalizing s vs fs with
  | nil => exact .pure ⟨h, rfl⟩
  | cons op ops ih =>
      have hstep := step_follows py hh h (hops op List.mem_cons_self)
      refine .bind (step_growing py (op.map Flow.toPb)) (fun stepped => rest_growing py stepped.2 _) hstep ?_
      rintro stepped s' stepped' _ ⟨hrealized, hreply⟩
      have hrest := ih hrealized fun op hop => hops op (List.mem_cons_of_mem _ hop)
      have hreplies (rest : (String → Option ExecutorValue) × List PythonReply) :
          Run.Growing fun _ => (Pure.pure (rest.1, stepped.2 :: rest.2) : Exec InlineState _) := .const _
      refine .bind (run_growing py _) hreplies hrest ?_
      rintro rest s'' rest' _ ⟨hrealized', hreplies'⟩
      exact .pure ⟨hrealized', by rw [hreply, hreplies']⟩

/-- **Sessions do what they mean.** Whatever runners there are, and however often each is called: the replies are just
those of the meaning, and the executor's table changes for nothing but the runners that are left. -/
theorem session_runs_as_meant (hh : handlers.Standard) (ops : List (PythonOp (Flow handlers)))
    (hops : ∀ op ∈ ops, OnData op) (s : ControlFlowState InlineState) :
    let session := fun n => run (controlFlowExecutor (localExecutor handlers) n) py (fun _ => none)
      (ops.map (PythonOp.map Flow.toPb))
    (∀ replies, (∃ ids s', Run.Finally session s (ids, replies) s') ↔
      ∃ fs, Run.Finally (meaning py (fun _ => none) ops).run () (fs, replies) ()) ∧
    ∀ ids replies s', Run.Finally session s (ids, replies) s' → s.impl ≤ s'.impl ∧
      ∀ id, (∀ name, ids name ≠ some id) → s'.table.trackedValues id = s.table.trackedValues id := by
  intro session
  -- the executor couples with its implementation, which follows the meaning
  have hcouples (n : Nat) : Run.Couples (After s.table (fun _ => none) fun _ => none)
      (run ((localExecutor handlers).impl n).direct py (fun _ => none) (ops.map (PythonOp.map Flow.toPb)))
      (run (executorBase ((localExecutor handlers).impl n)) py (fun _ => none) (ops.map (PythonOp.map Flow.toPb)))
      (fun r r' i s' => r.2 = r'.2 ∧ After s.table r.1 r'.1 i s') fun _ _ => True :=
    run_couples _ py _
  have hafter : After (V := ExecutorValue) s.table (fun _ => none) (fun _ => none) s.impl s :=
    ⟨_, .empty, .refl s⟩
  have hnone : Realized s.impl (fun _ => none) fun _ => (none : Option (Flow handlers)) := fun _ => .none
  have hfollows := run_follows py hh hnone hops
  refine ⟨fun replies => ⟨?_, ?_⟩, ?_⟩
  · rintro ⟨ids, s', hrun⟩
    obtain ⟨r, i, hi, hreplies, -⟩ := Run.Couples.of_returns hcouples hafter hrun
    obtain ⟨-, r', hmeans, -, hreplies'⟩ := hfollows.returns hi
    obtain rfl : r'.2 = replies := hreplies'.symm.trans hreplies
    exact ⟨r'.1, hmeans⟩
  · rintro ⟨fs, hmeans⟩
    obtain ⟨r, i, hi, -, hreplies⟩ := hfollows.of_returns hmeans
    obtain ⟨r', s', hrun, hreplies', -⟩ := Run.Couples.returns hcouples hafter hi
    obtain rfl : r'.2 = replies := hreplies'.symm.trans hreplies
    exact ⟨r'.1, s', hrun⟩
  · intro ids replies s' hrun
    obtain ⟨r, i, hi, -, owned, howns, hlinked⟩ := Run.Couples.of_returns hcouples hafter hrun
    refine ⟨hlinked.impl ▸ (hfollows.returns hi).1, fun id hid => ?_⟩
    -- an id that is owned is that of a runner that is still there
    have hnone : owned id = none := by
      by_contra howned
      obtain ⟨name, hname⟩ := howns.only id howned
      exact hid name hname
    rw [hlinked.tracked, hnone]
    rfl

end PythonSession

end

/-! ### A session -/

/-- One runner is called twice, and another one in between. -/
def negationSession [ProtoText] : List (PythonOp (Flow (completeHandlerSet .empty .offline))) :=
  [.new "negate" .negation, .call "negate" (.bool true) [] [], .invoke .negation (.str "a") [] [],
    .call "negate" (.bool false) [] [], .del "negate", .call "negate" (.str "b") [] []]

theorem negation_session_runs :
    let _ := ProtoText.silent
    ∃ ids s', Run.Finally (fun n => PythonSession.run (controlFlowExecutor
      (localExecutor (completeHandlerSet .empty .offline)) n) ⟨fun _ => "", id⟩ (fun _ => none)
        (negationSession.map (PythonOp.map Flow.toPb))) ⟨.empty, .empty, ()⟩
      (ids, [.done, .returned (.bool false), .returned (.str "a"), .returned (.bool true), .done, .nameError]) s' := by
  intro _
  have hdata : ∀ op ∈ negationSession, PythonSession.OnData op := by
    simp [negationSession, PythonSession.OnData, PyArg.IsData.bool, PyArg.IsData.str]
  have hruns := PythonSession.session_runs_as_meant ⟨fun _ => "", id⟩
    (completeHandlerSet_standard HandlerSetConfig.empty_extends) negationSession hdata ⟨.empty, .empty, ()⟩
  exact (hruns.1 _).mpr ⟨_, 1, _, rfl⟩

end GenC
