import GenC.Flow.PythonSession
import GenC.Runtime.JavaRunner

/-!
# Java sessions, and what they mean

An error is not reported to Java: one of the materialization is an empty string, and any other is a null pointer that
the next call is made with.
-/

namespace GenC

open Lib ControlFlowExecutor

variable [ProtoText] {handlers : IntrinsicHandlerSet}

/-! ## The meaning -/

/-- A call of the function from Java. -/
def Flow.javaCall (f : Flow handlers) (str : String) : Meaning String := do
  match ← ((f.action []).call (.ofValue (.ofStr str))).attempt with
  | .error _ => .crash .deadObject
  | .ok d => do
      match ← d.shown.attempt with
      | .error _ => pure ""
      | .ok result => pure result.str

namespace JavaSession

/-- A runner whose computation was not created has no function. -/
def stepMeaning (runners : List (Option (Flow handlers))) :
    JavaOp (Flow handlers) → Meaning (List (Option (Flow handlers)) × JavaReply)
  | .create f => do
      match ← (f.action []).create.attempt with
      | .ok () => pure (runners ++ [some f], .created)
      | .error _ => pure (runners ++ [none], .created)
  | .call i str =>
      match runners[i]? with
      | some (some f) => do
          let result ← f.javaCall str
          pure (runners, .returned result)
      | some none => .crash .deadObject
      | none => pure (runners, .noRunner)

/-- What comes of the steps of a session. -/
def meaning (runners : List (Option (Flow handlers))) :
    List (JavaOp (Flow handlers)) → Meaning (List (Option (Flow handlers)) × List JavaReply)
  | [] => pure (runners, [])
  | op :: ops => do
      let stepped ← stepMeaning runners op
      let rest ← meaning stepped.1 ops
      pure (rest.1, stepped.2 :: rest.2)

end JavaSession

/-! ## Calls -/

variable {s : InlineState} {vs : List (Pointer ExecutorValue)} {fs : List (Option (Flow handlers))}

namespace CApi

omit [ProtoText] in
theorem pointerTo_bind_growing {α : Type} {x : Nat → Exec InlineState ExecutorValue}
    {k : Nat → Pointer ExecutorValue → Exec InlineState α} (hx : Run.Growing x) (hk : ∀ p, Run.Growing fun n => k n p) :
    Run.Growing fun n => pointerTo (x n) >>= k n := by
  simp only [pointerTo, bind_assoc]
  refine hx.attempt.bind fun r => ?_
  cases r with
  | error e => exact hk none
  | ok v => exact hk (some v)

theorem materialize_growing (v : ExecutorValue) :
    Run.Growing fun n => materialize ((localExecutor handlers).impl n).direct v :=
  have hgrowing : Run.Growing fun n => ((localExecutor handlers).contexts [] n).materializeValue v :=
    materializeValue_growing [] v
  hgrowing.attempt.bind fun _ => .const _

omit [ProtoText] in
theorem pointerTo_bind_follows {α β γ : Type} {Q : InlineState → ExecutorValue → β → Prop}
    {R : InlineState → α → γ → Prop} {x : Nat → Exec InlineState ExecutorValue} {p : Meaning β}
    {k : Nat → Pointer ExecutorValue → Exec InlineState α} {q : StatusOr β → Meaning γ} (hx : Run.Growing x)
    (hk : ∀ p, Run.Growing fun n => k n p) (h : Run.Follows Q x s p)
    (hsome : ∀ s' v b, s ≤ s' → Q s' v b → Run.Follows R (fun n => k n (some v)) s' (q (.ok b)))
    (hnone : ∀ s' e, s ≤ s' → Run.Follows R (fun n => k n none) s' (q (.error e))) :
    Run.Follows R (fun n => pointerTo (x n) >>= k n) s (p.attempt >>= q) := by
  simp only [pointerTo, bind_assoc]
  refine .bind hx.attempt (fun r => ?_) h.attempt fun r s' r' hs' hr => ?_
  · cases r with
    | error e => exact hk none
    | ok v => exact hk (some v)
  rcases r with e | v <;> rcases r' with e' | b
  · exact hnone s' e' hs'
  · exact hr.elim
  · exact hr.elim
  · exact hsome s' v b hs' hr

/-- The object for data is there. -/
theorem createValue_bind_follows {α β : Type} {R : InlineState → α → β → Prop} {w : Value} (hw : w.Materialized)
    {k : Nat → Pointer ExecutorValue → Exec InlineState α} {p : Meaning β} (hk : ∀ p, Run.Growing fun n => k n p)
    (h : ∀ s' v, s ≤ s' → v.Reads s' (.ofValue w) → Run.Follows R (fun n => k n (some v)) s' p) :
    Run.Follows R (fun n => createValue ((localExecutor handlers).impl n).direct (some w) >>= k n) s p := by
  have hdata : Run.Follows ExecutorValue.Reads (fun n => ((localExecutor handlers).contexts [] n).createValue w) s
      (pure (.ofValue w)) := createValue_data [] hw s
  obtain ⟨v, s', hv, hreads⟩ := hdata.of_returns (b := .ofValue w) ⟨0, [], rfl⟩
  simp only [createValue, pointerTo, bind_assoc, direct_createValue]
  refine .skip (createValue_growing [] w).attempt (fun r => ?_) (Run.finally_attempt_ok_iff.mpr hv)
    (hdata.returns hv).1 (h s' v (hdata.returns hv).1 hreads)
  cases r with
  | error e => exact hk none
  | ok v => exact hk (some v)

omit [ProtoText] in
theorem getValue_none_follows {α β : Type} {R : InlineState → α → β → Prop}
    {k : Nat → ExecutorValue → Exec InlineState α} :
    Run.Follows R (fun n => (getValue none : Exec InlineState ExecutorValue) >>= k n) s
      (.crash .deadObject : Meaning β) := by
  have hcrash : ∀ n, ((getValue none >>= k n) s).2 = .crash .deadObject := fun _ => rfl
  exact .crash hcrash

theorem materialize_bind_follows {α β : Type} {R : InlineState → α → β → Prop} {v : ExecutorValue} {d : Datum}
    {k : Nat → Option Value → Exec InlineState α} {q : StatusOr Value → Meaning β} (hv : v.Reads s d)
    (hk : ∀ m, Run.Growing fun n => k n m)
    (hsome : ∀ s' w, s ≤ s' → Run.Follows R (fun n => k n (some w)) s' (q (.ok w)))
    (hnone : ∀ s' e, s ≤ s' → Run.Follows R (fun n => k n none) s' (q (.error e))) :
    Run.Follows R (fun n => materialize ((localExecutor handlers).impl n).direct v >>= k n) s
      (d.shown.attempt >>= q) := by
  simp only [materialize, bind_assoc]
  have hgrowing : Run.Growing fun n => ((localExecutor handlers).contexts [] n).materializeValue v :=
    materializeValue_growing [] v
  refine .bind hgrowing.attempt (fun r => ?_) (materializeValue_follows [] hv).attempt fun r s' r' hs' hr => ?_
  · cases r with
    | error e => exact hk none
    | ok w => exact hk (some w)
  -- the C API gives a null pointer for every error
  rcases r with e | w <;> rcases r' with e' | w'
  · exact hnone s' e' hs'
  · exact hr.elim
  · exact hr.elim
  · obtain rfl : w = w' := hr.1
    exact hsome s' w hs'

end CApi

namespace JavaRunner

/-! ### A call of a runner -/

variable {f : Flow handlers} {g : ExecutorValue}

theorem materialized_growing (v : ExecutorValue) (x : ExecutorValue) :
    Run.Growing fun n => CApi.materialize ((localExecutor handlers).impl n).direct v >>= fun result =>
      CApi.dispose ((localExecutor handlers).impl n).direct x >>= fun _ =>
        CApi.dispose ((localExecutor handlers).impl n).direct v >>= fun _ =>
          (Pure.pure (bufferToMessage result).str : Exec InlineState String) := by
  have hstr (result : Option Value) : Run.Growing fun _ =>
      (Pure.pure (bufferToMessage result).str : Exec InlineState String) := .const _
  exact (CApi.materialize_growing v).bind hstr

theorem call_growing (p : Pointer ExecutorValue) (str : String) :
    Run.Growing fun n => call ((localExecutor handlers).impl n).direct p str := by
  refine CApi.pointerTo_bind_growing (createValue_growing [] (.ofStr str)) fun argVal => ?_
  rcases p with _ | g
  · exact .const (Run.crash Crash.deadObject)
  rcases argVal with _ | x
  · exact .const (Run.crash Crash.deadObject)
  refine CApi.pointerTo_bind_growing (constCreateCall_growing g (some x)) fun resultVal => ?_
  rcases resultVal with _ | r
  · exact .const (Run.crash Crash.deadObject)
  · exact materialized_growing r x

/-- A function that realizes what the flow means, is called from Java as the flow is. -/
theorem call_follows (hg : g.Realizes handlers s (f.action [])) (str : String) :
    Run.Follows (fun _ r r' => r = r') (fun n => call ((localExecutor handlers).impl n).direct (some g) str) s
      (f.javaCall str) := by
  -- a null pointer is read as an object, which crashes
  have hcalled (argVal : Pointer ExecutorValue) : Run.Growing fun n =>
      CApi.getValue argVal >>= fun arg =>
        CApi.createCall ((localExecutor handlers).impl n).direct g arg >>= fun resultVal =>
          CApi.getValue resultVal >>= fun resultId =>
            CApi.materialize ((localExecutor handlers).impl n).direct resultId >>= fun result =>
              CApi.dispose ((localExecutor handlers).impl n).direct arg >>= fun _ =>
                CApi.dispose ((localExecutor handlers).impl n).direct resultId >>= fun _ =>
                  (Pure.pure (bufferToMessage result).str : Exec InlineState String) := by
    rcases argVal with _ | x
    · exact .const (Run.crash Crash.deadObject)
    refine CApi.pointerTo_bind_growing (constCreateCall_growing g (some x)) fun resultVal => ?_
    rcases resultVal with _ | r
    · exact .const (Run.crash Crash.deadObject)
    · exact materialized_growing r x
  refine CApi.createValue_bind_follows .scalar hcalled fun s' x hs' hx => ?_
  refine CApi.pointerTo_bind_follows (constCreateCall_growing g (some x)) (fun resultVal => ?_) (hg hs' hx)
    (fun s₁ r d _ hr => ?_) fun s₁ e _ => CApi.getValue_none_follows
  · rcases resultVal with _ | r
    · exact .const (Run.crash Crash.deadObject)
    · exact materialized_growing r x
  · refine CApi.materialize_bind_follows hr (fun m => .const _) (fun s₂ w _ => ?_) fun s₂ e _ => ?_
    · exact .pure rfl
    · exact .pure rfl

/-- Without a function, the call does not return. -/
theorem call_none_follows {β : Type} {R : InlineState → String → β → Prop} (str : String) :
    Run.Follows R (fun n => call ((localExecutor handlers).impl n).direct none str) s
      (.crash .deadObject : Meaning β) := by
  refine CApi.createValue_bind_follows .scalar (fun argVal => .const _) fun s' v _ _ => ?_
  exact CApi.getValue_none_follows

end JavaRunner

/-! ## Sessions -/

namespace JavaSession

/-- The runners have functions that realize what their flows mean. -/
def Realized (s : InlineState) (vs : List (Pointer ExecutorValue)) (fs : List (Option (Flow handlers))) : Prop :=
  List.Forall₂ (Option.Rel fun v f => v.Realizes handlers s (f.action [])) vs fs

theorem Realized.of_le {s' : InlineState} (h : Realized s vs fs) (hs : s ≤ s') : Realized s' vs fs := by
  refine h.imp fun v? f? hrel => ?_
  cases hrel with
  | none => exact .none
  | some hv => exact .some (hv.of_le hs)

theorem Realized.append {v : Pointer ExecutorValue} {f : Option (Flow handlers)} (h : Realized s vs fs)
    (hv : Option.Rel (fun v f => v.Realizes handlers s (f.action [])) v f) : Realized s (vs ++ [v]) (fs ++ [f]) :=
  List.rel_append h (.cons hv .nil)

theorem step_growing (op : JavaOp Value) :
    Run.Growing fun n => step ((localExecutor handlers).impl n).direct vs op := by
  cases op with
  | create computation =>
      have hcreate : Run.Growing fun n =>
          ((localExecutor handlers).impl n).direct.createValue (bufferToMessage (some computation)) := by
        simp only [direct_createValue]
        exact createValue_growing [] _
      exact CApi.pointerTo_bind_growing hcreate fun p => .const _
  | call i str =>
      simp only [step]
      rcases vs[i]? with _ | p
      · exact .const _
      · have hreply (result : String) : Run.Growing fun _ =>
            (Pure.pure (vs, JavaReply.returned result) : Exec InlineState _) := .const _
        exact (JavaRunner.call_growing p str).bind hreply

theorem run_growing (ops : List (JavaOp Value)) :
    Run.Growing fun n => run ((localExecutor handlers).impl n).direct vs ops := by
  induction ops generalizing vs with
  | nil => exact .const _
  | cons op ops ih => exact (step_growing op).bind fun stepped => ih.bind fun _ => .const _

theorem rest_growing (reply : JavaReply) (ops : List (JavaOp Value)) :
    Run.Growing fun n => run ((localExecutor handlers).impl n).direct vs ops >>= fun rest =>
      (Pure.pure (rest.1, reply :: rest.2) : Exec InlineState _) := by
  have hreplies (rest : List (Pointer ExecutorValue) × List JavaReply) :
      Run.Growing fun _ => (Pure.pure (rest.1, reply :: rest.2) : Exec InlineState _) := .const _
  exact (run_growing ops).bind hreplies

theorem step_follows (hh : handlers.Standard) (h : Realized s vs fs) (op : JavaOp (Flow handlers)) :
    Run.Follows (fun s' r r' => Realized s' r.1 r'.1 ∧ r.2 = r'.2)
      (fun n => step ((localExecutor handlers).impl n).direct vs (op.map Flow.toPb)) s (stepMeaning fs op) := by
  cases op with
  | create f =>
      have hbuilds : Builds handlers [] s f.toPb (f.action []) :=
        setLabel_toPb f ▸ f.builds hh (ρ := []) List.Forall₂.nil ""
      simp only [JavaOp.map, step, JavaRunner.create, CApi.createValue, direct_createValue, bufferToMessage,
        Option.getD_some]
      refine CApi.pointerTo_bind_follows (createValue_growing [] f.toPb) (fun p => .const _) (hbuilds (le_refl s))
        (fun s' g _ hs' hg => ?_) fun s' e hs' => ?_
      · exact .pure ⟨(h.of_le hs').append (.some hg), rfl⟩
      · exact .pure ⟨(h.of_le hs').append .none, rfl⟩
  | call i str =>
      rcases forall₂_getElem? h i with ⟨hv, hf⟩ | ⟨p, f?, hv, hf, hrel⟩
      · simp only [JavaOp.map, step, stepMeaning, hv, hf]
        exact .pure ⟨h, rfl⟩
      simp only [JavaOp.map, step, stepMeaning, hv, hf]
      have hreply (result : String) : Run.Growing fun _ =>
          (Pure.pure (vs, JavaReply.returned result) : Exec InlineState _) := .const _
      cases hrel with
      | none =>
          -- the runner was made with an error, and its null pointer is used here
          have hcrash : (.crash .deadObject : Meaning (List (Option (Flow handlers)) × JavaReply)) =
              (.crash .deadObject : Meaning String) >>= fun result => pure (fs, .returned result) :=
            Behavior.ext_run rfl
          rw [hcrash]
          exact .bind (JavaRunner.call_growing none str) hreply (JavaRunner.call_none_follows str)
            fun r s' r' _ hr => (hr : False).elim
      | some hg =>
          refine .bind (JavaRunner.call_growing _ str) hreply (JavaRunner.call_follows hg str) fun r s' r' hs' hr => ?_
          exact hr ▸ .pure ⟨h.of_le hs', rfl⟩

/-- By induction on the steps. The functions of the runners stay what they are. -/
theorem run_follows (hh : handlers.Standard) (ops : List (JavaOp (Flow handlers))) (h : Realized s vs fs) :
    Run.Follows (fun s' r r' => Realized s' r.1 r'.1 ∧ r.2 = r'.2)
      (fun n => run ((localExecutor handlers).impl n).direct vs (ops.map (JavaOp.map Flow.toPb))) s
      (meaning fs ops) := by
  induction ops generalizing s vs fs with
  | nil => exact .pure ⟨h, rfl⟩
  | cons op ops ih =>
      refine .bind (step_growing (op.map Flow.toPb)) (fun stepped => rest_growing stepped.2 _) (step_follows hh h op) ?_
      rintro stepped s' stepped' _ ⟨hrealized, hreply⟩
      have hreplies (rest : List (Pointer ExecutorValue) × List JavaReply) :
          Run.Growing fun _ => (Pure.pure (rest.1, stepped.2 :: rest.2) : Exec InlineState _) := .const _
      refine .bind (run_growing _) hreplies (ih hrealized) ?_
      rintro rest s'' rest' _ ⟨hrealized', hreplies'⟩
      exact .pure ⟨hrealized', by rw [hreply, hreplies']⟩

/-! ### The theorem -/

/-- **What Java gets, and what it leaves.** The replies of a session are those of the meaning, as far as it returns.
Each runner that was made has put a value into the executor's table, which stays there, and nothing else has changed. -/
theorem java_session_runs_as_meant (hh : handlers.Standard) (ops : List (JavaOp (Flow handlers)))
    (s : ControlFlowState InlineState) :
    let session := fun n => run (controlFlowExecutor (localExecutor handlers) n) [] (ops.map (JavaOp.map Flow.toPb))
    (∀ replies, (∃ ids s', Run.Finally session s (ids, replies) s') ↔
      ∃ fs, Run.Finally (meaning [] ops).run () (fs, replies) ()) ∧
    ∀ ids replies s', Run.Finally session s (ids, replies) s' → s.impl ≤ s'.impl ∧
      (∀ id, some id ∈ ids → s.table.trackedValues id = none ∧ s'.table.trackedValues id ≠ none) ∧
      ∀ id, some id ∉ ids → s'.table.trackedValues id = s.table.trackedValues id := by
  intro session
  -- the executor couples with its implementation, which follows the meaning
  have hcouples (n : Nat) : Run.Couples (After s.table [] [])
      (run ((localExecutor handlers).impl n).direct [] (ops.map (JavaOp.map Flow.toPb)))
      (run (executorBase ((localExecutor handlers).impl n)) [] (ops.map (JavaOp.map Flow.toPb)))
      (fun r r' i s' => r.2 = r'.2 ∧ After s.table r.1 r'.1 i s') fun _ _ => True :=
    run_couples _ _
  have hafter : After (V := ExecutorValue) s.table [] [] s.impl s := ⟨_, .empty, .refl s⟩
  have hnone : Realized s.impl [] ([] : List (Option (Flow handlers))) := .nil
  have hfollows := run_follows hh ops hnone
  refine ⟨fun replies => ⟨?_, ?_⟩, ?_⟩
  · rintro ⟨ids, s', hrun⟩
    obtain ⟨r, i, hi, hreplies, -⟩ := Run.Couples.of_returns hcouples hafter hrun
    obtain ⟨-, r', hmeans, -, hreplies'⟩ := hfollows.returns hi
    obtain rfl : r'.2 = replies := hreplies'.symm.trans hreplies
    exact ⟨r'.1, hmeans⟩
  · rintro ⟨fs, hmeans⟩
    obtain ⟨r, i, hi, -, hreplies⟩ := hfollows.of_returns hmeans
    obtain ⟨r', s', hrun, hreplies', -⟩ := Run.Couples.returns hcouples hafter hi
    obtain rfl : r'.2 = replies := hreplies'.symm.trans hreplies
    exact ⟨r'.1, s', hrun⟩
  · intro ids replies s' hrun
    obtain ⟨r, i, hi, -, owned, howns, hlinked⟩ := Run.Couples.of_returns hcouples hafter hrun
    refine ⟨hlinked.impl ▸ (hfollows.returns hi).1, fun id hid => ?_, fun id hid => ?_⟩
    -- a runner still owns its computation, as nothing disposes of it
    · have howned : owned id ≠ none := howns.owned_of_mem hid
      refine ⟨hlinked.fresh id howned, ?_⟩
      obtain ⟨v, hv⟩ := Option.ne_none_iff_exists'.mp howned
      rw [hlinked.get hv]
      exact Option.some_ne_none v
    · have hnone : owned id = none := by
        by_contra howned
        exact hid (howns.only id howned)
      rw [hlinked.tracked, hnone]
      rfl

end JavaSession

omit [ProtoText] in
/-- Two runners, both of which are still in the table. -/
theorem negation_java_session_runs :
    let _ := ProtoText.silent
    ∃ ids s', Run.Finally (fun n => JavaSession.run (controlFlowExecutor
      (localExecutor (completeHandlerSet .empty .offline)) n) []
        ([.create Flow.negation, .call 0 "a", .create Flow.negation, .call 1 "b"].map (JavaOp.map Flow.toPb)))
      ⟨.empty, .empty, ()⟩ (ids, [.created, .returned "a", .created, .returned "b"]) s' := by
  intro _
  have hruns := JavaSession.java_session_runs_as_meant (completeHandlerSet_standard HandlerSetConfig.empty_extends)
    [.create Flow.negation, .call 0 "a", .create Flow.negation, .call 1 "b"] ⟨.empty, .empty, ()⟩
  exact (hruns.1 _).mpr ⟨_, 1, _, rfl⟩

end GenC
