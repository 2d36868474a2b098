import GenC.Runtime.Deterministic
import GenC.Runtime.RemoteExecutor

/-!
# Remote execution is faithful

An executor behind an `ExecutorService`, driven through a `RemoteExecutor` over a lossless channel,
against a client that calls the same executor directly, one step after the other.

`Deterministic` is what is asked of the executor: its handles name values, and what a step does is decided
by the values of its operands, be it that it returns, that it fails or that it does not end. Then the
values that the steps name are computed by `Deterministic.impl`, which is an executor with no state at all.
Both ways of driving the executor are compared with it, by `Correspondence.Simulates`.

**`remote_faithful`** puts the two together.
-/

namespace GenC

open Lib

/-! ## Behind the service -/

namespace Deterministic

variable {σ V : Type} {executor : Executor UInt64 σ} (D : Deterministic executor V)

/-! ### The values that the steps name -/

/-- What an operation without state ends with, if it does. -/
def result (r : Option α) : Exec Unit α :=
  match r with
  | some a => pure a
  | none => Run.outOfFuel

theorem result_returns {r : Option α} {a : α} (h : r = some a) : Run.Returns (result r) () a () := by
  rw [h]
  exact .pure a ()

theorem result_stalls {r : Option α} (h : r = none) : Run.Stalls (result r) () := by
  rw [h]
  exact .inr rfl

def callValue (f : StatusOr V) (a : Option (StatusOr V)) : Option (StatusOr V) :=
  match f, a with
  | .error e, _ => some (.error e)
  | .ok f, none => D.createCall f none
  | .ok _, some (.error e) => some (.error e)
  | .ok f, some (.ok a) => D.createCall f (some a)

def structValue (members : List (StatusOr V)) : Option (StatusOr V) :=
  match members.mapM id with
  | .error e => some (.error e)
  | .ok vs => D.createStruct vs

def selectionValue (source : StatusOr V) (index : UInt32) : Option (StatusOr V) :=
  match source with
  | .error e => some (.error e)
  | .ok v => D.createSelection v index

/-- A failed materialization empties the output, once the value is there. -/
def materialized (r : StatusOr V) (output : Option Value) : Option MaterializeResult :=
  match r with
  | .error e => some ⟨.error e, output⟩
  | .ok v =>
    match D.materialize v with
    | some (.ok val) => some ⟨.ok (), some val⟩
    | some (.error e) => some ⟨.error e, some Value.defaultInstance⟩
    | none => none

/-- The values of the steps, without the executor. -/
def impl : ExecutorImpl Unit (StatusOr V) where
  executorName := "RemoteExecutor"
  createExecutorValue val := result (D.createValue val)
  createCall f a := result (D.callValue f a)
  createStruct members := result (D.structValue members)
  createSelection source index := result (D.selectionValue source index)
  materialize r output := result (D.materialized r output)

/-! ### Behind the service -/

/-- A reference names what its id names. -/
def wire : Denotation σ ValueRef V where
  Inv := D.Inv
  Ext := D.Ext
  Rel s ref v := ∃ id, ref = valueIdToRef id ∧ D.Rel s id v
  inv_succ := D.inv_succ
  ext_refl := D.ext_refl
  rel_mono hext := fun ⟨id, href, hid⟩ => ⟨id, href, D.rel_mono hext hid⟩

variable {n : Nat} {s : σ}

/-- What a client receives of an operation behind the service. -/
def received (x : Exec σ UInt64) (unfilled : α) (fill : ValueRef → α) : Exec σ (GrpcReply α) := do
  return (← ExecutorService.respond x unfilled fill).received unfilled

theorem received_error {x : Exec σ UInt64} {e : Status} {s' : σ}
    (h : Run.Returns x.attempt s (.error e) s') (unfilled : α) (fill : ValueRef → α) :
    Run.Returns (received x unfilled fill) s ⟨abslToGrpcStatus (.error e), unfilled⟩ s' := by
  have hreceived : GrpcReply.received (.error e unfilled) unfilled =
      ⟨abslToGrpcStatus (.error e), unfilled⟩ := ite_self _
  exact (ExecutorService.respond_error h unfilled fill).bind (hreceived ▸ Run.Returns.pure _ _)

theorem received_ok {x : Exec σ UInt64} {id : UInt64} {s' : σ}
    (h : Run.Returns x.attempt s (.ok id) s') (hvalid : id ≠ OwnedValueId.invalidId) (unfilled : α)
    (fill : ValueRef → α) :
    Run.Returns (received x unfilled fill) s ⟨.OK, fill (valueIdToRef id)⟩ s' :=
  (ExecutorService.respond_ok h hvalid unfilled fill).bind (.pure _ _)

/-- What a task body makes of it. -/
theorem receive_denotes {x : Exec σ UInt64} {r : StatusOr V} (h : Denotes D.toDenotation n s x (some r))
    (unfilled : α) (fill : ValueRef → α) (ref : α → Option ValueRef)
    (hfill : ∀ id, ref (fill id) = some id) :
    ∃ b s', FuturePool.ending
        (received x unfilled fill >>= fun reply => RemoteExecutor.receive reply ref) s = some (b, s') ∧
      D.Inv n s' ∧ D.Ext s s' ∧ D.wire.Matches s' b r := by
  obtain ⟨hx, hinv, hext, hmatches⟩ := h
  rename_i b s'
  -- an error comes through gRPC with its code and message, and a handle as its reference
  cases hmatches with
  | error e =>
      refine ⟨.error e, s', ?_, hinv, hext, .error e⟩
      have hfails : Run.Fails (RemoteExecutor.receive ⟨abslToGrpcStatus (.error e), unfilled⟩ ref)
          s' e s' := by
        rw [RemoteExecutor.receive, grpcToAbslStatus_abslToGrpcStatus]
        exact (Run.Fails.throw _ _).bind_left
      exact FuturePool.ending_eq_some_iff.mpr
        (Run.Fails.bind (received_error hx unfilled fill) hfails).attempt
  | @ok id v hid =>
      refine ⟨.ok (valueIdToRef id), s', ?_, hinv, hext, .ok ⟨id, rfl, hid⟩⟩
      have hreturns : Run.Returns (RemoteExecutor.receive ⟨.OK, fill (valueIdToRef id)⟩ ref) s'
          (valueIdToRef id) s' := by
        have hpure : Run.Returns (pure ((ref (fill (valueIdToRef id))).getD {}) : Exec σ ValueRef) s'
            (valueIdToRef id) s' := by
          rw [hfill]
          exact .pure _ _
        exact (Run.Returns.ofExcept rfl _).bind hpure
      exact FuturePool.ending_eq_some_iff.mpr
        ((received_ok hx (D.valid hid) unfilled fill).bind hreturns).attempt

/-- The remote stub of an executor. -/
abbrev stub (executor : Executor UInt64 σ) : ExecutorServiceInterface σ :=
  channel (executorService executor)

/-! What a request with references that were handed out comes to. -/

theorem stub_createCall (function : UInt64) (argument : Option UInt64) :
    (stub executor).createCall
        { functionRef := some (valueIdToRef function), argumentRef := argument.map valueIdToRef } =
      received (executor.createCall function argument) {} fun ref => ⟨some ref⟩ := by
  have hargument : ExecutorService.refToArgument (argument.map valueIdToRef) = .ok argument := by
    cases argument with
    | none => rfl
    | some argument =>
        rw [Option.map_some, ExecutorService.refToArgument, refToValueId_valueIdToRef]
  show (do return (← ExecutorService.createCall executor _).received {}) = _
  rw [ExecutorService.createCall]
  simp only [Option.getD_some, refToValueId_valueIdToRef, hargument]
  rfl

theorem stub_createStruct (members : List UInt64) :
    (stub executor).createStruct { elementRef := members.map valueIdToRef } =
      received (executor.createStruct members) {} fun ref => ⟨some ref⟩ := by
  show (do return (← ExecutorService.createStruct executor _).received {}) = _
  rw [ExecutorService.createStruct]
  simp only [ExecutorService.refsToValueIds_map]
  rfl

/-- The index comes back from the wire, whichever of the 2^32 it is. -/
theorem stub_createSelection (source : UInt64) (index : UInt32) :
    (stub executor).createSelection
        { sourceRef := some (valueIdToRef source), index := index.toInt32 } =
      received (executor.createSelection source index) {} fun ref => ⟨some ref⟩ := by
  show (do return (← ExecutorService.createSelection executor _).received {}) = _
  rw [ExecutorService.createSelection]
  simp only [Option.getD_some, refToValueId_valueIdToRef, UInt32.toUInt32_toInt32]
  rfl

/-- References that name values are the references of ids that do. -/
theorem wire_all {refs : List ValueRef} {vs : List V} (h : List.Forall₂ (D.wire.Rel s) refs vs) :
    ∃ ids, refs = ids.map valueIdToRef ∧ List.Forall₂ (D.Rel s) ids vs := by
  induction h with
  | nil => exact ⟨[], rfl, .nil⟩
  | cons hid _ ih =>
      obtain ⟨id, rfl, hid⟩ := hid
      obtain ⟨ids, rfl, hids⟩ := ih
      exact ⟨id :: ids, rfl, .cons hid hids⟩

/-! ### The tasks compute the values -/

section Jobs

variable {value : Nat → StatusOr V} {i : Nat}

theorem valueJob_implements (val : Value) (h : D.createValue val = some (value i)) :
    (RemoteExecutor.valueJob (stub executor) val).Implements D.wire value i where
  captured _ hj := by cases hj
  error he := by cases he
  work {got vs n s} _ hinv _ := by
    have hdenotes : Denotes D.toDenotation n s (executor.createValue val) (some (value i)) :=
      h ▸ D.createValue_denotes val hinv
    exact D.receive_denotes hdenotes {} (fun ref => ⟨some ref⟩) CreateValueResponse.valueRef fun _ => rfl

theorem callJob_implements {function : Nat} {argument : Option Nat} (hfunction : function < i)
    (hargument : ∀ j ∈ argument, j < i)
    (h : D.callValue (value function) (argument.map value) = some (value i)) :
    (RemoteExecutor.callJob (stub executor) function argument).Implements D.wire value i := by
  refine ⟨fun j hj => ?_, fun {e} he => ?_, fun {got vs n s} hvs hinv hgot => ?_⟩
  · rcases List.mem_cons.mp hj with rfl | hj
    · exact hfunction
    · exact hargument j (Option.mem_toList.mp hj)
  · -- the function's error comes before the argument's
    rcases of_mapM_cons_error he with hfn | ⟨fn, hfn, hrest⟩
    · rw [hfn] at h
      exact (Option.some.inj h).symm
    · cases argument with
      | none => cases hrest
      | some argument =>
          rcases of_mapM_cons_error hrest with harg | ⟨_, _, hnil⟩
          · rw [hfn, Option.map_some, harg] at h
            exact (Option.some.inj h).symm
          · cases hnil
  · obtain ⟨ids, rfl, hids⟩ := D.wire_all hgot
    cases mapM_eq_ok_iff.mp hvs with
    | @cons _ fn _ _ hfn hrest =>
        cases hids with
        | @cons id _ ids _ hid hids =>
            have hargs : ∃ argId arg, ids.head? = argId ∧ Option.Rel (D.Rel s) argId arg ∧
                D.callValue (value function) (argument.map value) = D.createCall fn arg := by
              cases argument with
              | none =>
                  cases hrest
                  cases hids
                  exact ⟨none, none, rfl, .none, by rw [hfn]; rfl⟩
              | some argument =>
                  cases hrest with
                  | @cons _ arg _ _ harg hnil =>
                      cases hnil
                      cases hids with
                      | @cons argId _ _ _ hargId hnil =>
                          exact ⟨some argId, some arg, rfl, .some hargId, by
                            rw [hfn, Option.map_some, harg]; rfl⟩
            obtain ⟨argId, arg, hhead, hrel, hvalue⟩ := hargs
            have hcall : D.createCall fn arg = some (value i) := hvalue.symm.trans h
            rw [List.map_cons, RemoteExecutor.callJob_work, List.head?_map, hhead,
              RemoteExecutor.createCallTask, stub_createCall]
            exact D.receive_denotes (hcall ▸ D.createCall_denotes hinv hid hrel) {}
              (fun ref => ⟨some ref⟩) CreateCallResponse.resultRef fun _ => rfl

theorem structJob_implements {members : List Nat} (hlt : ∀ j ∈ members, j < i)
    (h : D.structValue (members.map value) = some (value i)) :
    (RemoteExecutor.structJob (stub executor) members).Implements D.wire value i := by
  have hmapM : (members.map value).mapM id = members.mapM value := by
    rw [List.mapM_map]
    rfl
  rw [structValue, hmapM] at h
  refine ⟨hlt, fun {e} he => ?_, fun {got vs n s} hvs hinv hgot => ?_⟩
  · rw [show members.mapM value = .error e from he] at h
    exact (Option.some.inj h).symm
  · obtain ⟨ids, rfl, hids⟩ := D.wire_all hgot
    rw [show members.mapM value = .ok vs from hvs] at h
    have hstruct : D.createStruct vs = some (value i) := h
    -- the references of the members are the handles that the service knows
    have hwork : (RemoteExecutor.structJob (stub executor) members).work (ids.map valueIdToRef) s =
        FuturePool.ending (received (executor.createStruct ids) {} (fun ref => ⟨some ref⟩) >>=
          fun reply => RemoteExecutor.receive reply CreateStructResponse.structRef) s := by
      rw [← stub_createStruct]
      rfl
    rw [hwork]
    exact D.receive_denotes (hstruct ▸ D.createStruct_denotes hinv hids) {}
      (fun ref => ⟨some ref⟩) CreateStructResponse.structRef fun _ => rfl

theorem selectionJob_implements {source : Nat} {index : UInt32} (hlt : source < i)
    (h : D.selectionValue (value source) index = some (value i)) :
    (RemoteExecutor.selectionJob (stub executor) source index).Implements D.wire value i := by
  refine ⟨fun j hj => List.mem_singleton.mp hj ▸ hlt, fun {e} he => ?_, fun {got vs n s} hvs hinv hgot => ?_⟩
  · rcases of_mapM_cons_error he with hsource | ⟨_, _, hnil⟩
    · rw [hsource] at h
      exact (Option.some.inj h).symm
    · cases hnil
  · obtain ⟨ids, rfl, hids⟩ := D.wire_all hgot
    -- the job waits for one value only
    cases mapM_eq_ok_iff.mp hvs with
    | @cons _ v _ _ hv hnil =>
        cases hnil
        cases hids with
        | @cons id _ _ _ hid hnil =>
            cases hnil
            rw [hv] at h
            have hselection : D.createSelection v index = some (value i) := h
            rw [List.map_cons, List.map_nil, RemoteExecutor.selectionJob_work,
              RemoteExecutor.createSelectionTask, stub_createSelection]
            exact D.receive_denotes (hselection ▸ D.createSelection_denotes index hinv hid) {}
              (fun ref => ⟨some ref⟩) CreateSelectionResponse.selectionRef fun _ => rfl

end Jobs

/-! ### Materialization -/

/-- A materialization behind the service. -/
theorem stub_materialize {id : UInt64} {m : MaterializeResult} {s' : σ}
    (h : Run.Returns (executor.materialize id (some Value.defaultInstance)) s m s') :
    Run.Returns ((stub executor).materialize { valueRef := some (valueIdToRef id) }) s
      (GrpcReply.received (.ofStatus m.status ⟨m.output⟩) {}) s' := by
  have hservice : Run.Returns (ExecutorService.materialize executor
      { valueRef := some (valueIdToRef id) }) s (.ofStatus m.status ⟨m.output⟩) s' := by
    rw [ExecutorService.materialize]
    simp only [Option.getD_some, refToValueId_valueIdToRef]
    exact h.attempt.bind (.pure _ _)
  exact hservice.bind (.pure _ _)

theorem materialize_returns {pool : FuturePool σ ValueRef} {future : Nat}
    {b : StatusOr ValueRef} {r : StatusOr V} {m : MaterializeResult} (hb : pool.future future = some b)
    (hmatches : D.wire.Matches pool.shared b r) (hinv : D.Inv (n + 1) pool.shared) (output : Value)
    (hm : D.materialized r (some output) = some m) :
    ∃ shared, Run.Returns (RemoteExecutor.materialize (stub executor) future (some output)) pool m
        { pool with shared } ∧
      D.Inv n shared ∧ D.Ext pool.shared shared := by
  have hwait := FuturePool.wait_returns hb
  cases hmatches with
  | error e =>
      obtain rfl := Option.some.inj hm
      exact ⟨pool.shared, hwait.bind (.pure _ _), D.inv_succ hinv, D.ext_refl _⟩
  | @ok ref v href =>
      obtain ⟨id, rfl, hid⟩ := href
      have hanswers := D.materialize_answers Value.defaultInstance hinv hid
      rw [materialized] at hm
      generalize D.materialize v = answer at hm hanswers
      cases hanswers with
      | stalls => cases hm
      | @ends m' shared r hreturns hinv' hext hanswer =>
          refine ⟨shared, hwait.bind ?_, hinv', hext⟩
          have hcall : Run.Returns (FuturePool.onShared ((stub executor).materialize
              { valueRef := some (valueIdToRef id) })) pool
              (GrpcReply.received (.ofStatus m'.status ⟨m'.output⟩) {}) { pool with shared } :=
            (stub_materialize hreturns).zoom
          refine hcall.bind ?_
          cases hanswer with
          | ok val =>
              obtain rfl := Option.some.inj hm
              exact .pure _ _
          -- the error crosses the wire as a status code with its message
          | error e output' =>
              obtain rfl := Option.some.inj hm
              have hreceived : GrpcReply.received (.ofStatus (.error e) ⟨output'⟩) {} =
                  (⟨abslToGrpcStatus (.error e), {}⟩ : GrpcReply MaterializeResponse) := by
                rw [GrpcReply.received, GrpcReply.ofStatus, ok_abslToGrpcStatus_error]
                rfl
              simp only [hreceived, grpcToAbslStatus_abslToGrpcStatus]
              exact .pure _ _

/-- The remote executor schedules what the steps name. -/
theorem schedules : Schedules D.wire (· ≠ none) (RemoteExecutor.impl (stub executor)) D.impl where
  name := rfl
  createValue {w} val := by
    cases hr : D.createValue val with
    | none => exact .stalls (result_stalls hr)
    | some r =>
        refine .task (result_returns hr) (D.valueJob_implements val ?_)
        rw [valueOf_concat_self, hr]
  createCall {w function argument f a} hf ha := by
    -- a task waits for tasks that were launched before it
    have hargument : ∀ j ∈ argument, j < w.length := by
      rintro j rfl
      cases ha with
      | some ha => exact getElem?_lt ha
    cases hr : D.callValue f a with
    | none => exact .stalls (result_stalls hr)
    | some r =>
        refine .task (result_returns hr) (D.callJob_implements (getElem?_lt hf) hargument ?_)
        have hmap : argument.map (valueOf (w ++ [r])) = a := by
          cases ha with
          | none => rfl
          | some ha => exact congrArg some (valueOf_concat _ ha)
        rw [valueOf_concat_self, valueOf_concat _ hf, hmap, hr]
  createStruct {w members rs} hvs := by
    cases hr : D.structValue rs with
    | none => exact .stalls (result_stalls hr)
    | some r =>
        obtain ⟨hlt, hmap⟩ := valueOf_all r hvs
        refine .task (result_returns hr) (D.structJob_implements hlt ?_)
        rw [valueOf_concat_self, hmap, hr]
  createSelection {w source v} index hv := by
    cases hr : D.selectionValue v index with
    | none => exact .stalls (result_stalls hr)
    | some r =>
        refine .task (result_returns hr) (D.selectionJob_implements (getElem?_lt hv) ?_)
        rw [valueOf_concat_self, valueOf_concat _ hv, hr]
  materialize {n pool future b r valPb} hb hmatches hinv houtput := by
    -- a client that asks for no output is not served alike, and is left out
    obtain ⟨output, rfl⟩ := Option.ne_none_iff_exists'.mp houtput
    cases hm : D.materialized r (some output) with
    | none => exact .inr (result_stalls hm)
    | some m =>
        obtain ⟨shared, hreturns, hinv', hext⟩ := D.materialize_returns hb hmatches hinv output hm
        exact .inl ⟨m, shared, hreturns, result_returns hm, hinv', hext⟩
  blocked {pool future} valPb hnone := by
    have hwait : FuturePool.wait future pool = ([], .outOfFuel) := by rw [FuturePool.wait, hnone]
    show (RemoteExecutor.materialize (stub executor) future valPb pool).2 = _
    simp only [RemoteExecutor.materialize, Run.bind_apply, Run.attempt, hwait]

end Deterministic

/-! ## The executor, directly -/

namespace DirectClient

variable {σ V : Type} (executor : Executor UInt64 σ)

/-- `CreateCall` on what the steps before gave: the function's failure comes before the argument's. -/
def createCall (function : StatusOr UInt64) (argument : Option (StatusOr UInt64)) :
    Exec σ (StatusOr UInt64) :=
  match function, argument with
  | .error e, _ => pure (.error e)
  | .ok function, none => (executor.createCall function none).attempt
  | .ok _, some (.error e) => pure (.error e)
  | .ok function, some (.ok argument) => (executor.createCall function (some argument)).attempt

/-- The first member that failed decides. -/
def createStruct (members : List (StatusOr UInt64)) : Exec σ (StatusOr UInt64) :=
  match members.mapM id with
  | .error e => pure (.error e)
  | .ok members => (executor.createStruct members).attempt

def createSelection (source : StatusOr UInt64) (index : UInt32) : Exec σ (StatusOr UInt64) :=
  match source with
  | .error e => pure (.error e)
  | .ok source => (executor.createSelection source index).attempt

def materialize (value : StatusOr UInt64) (output : Option Value) : Exec σ MaterializeResult :=
  match value with
  | .error e => pure ⟨.error e, output⟩
  | .ok value => executor.materialize value output

/-- A client that makes one step after the other on the executor itself. Its handles stand for the ids
that it was given, or for the failures of its steps, which it hands on to the steps that depend on
them. The name is only seen in the error about a handle that it never handed out. -/
def impl : ExecutorImpl σ (StatusOr UInt64) where
  executorName := "RemoteExecutor"
  createExecutorValue val := (executor.createValue val).attempt
  createCall := createCall executor
  createStruct := createStruct executor
  createSelection := createSelection executor
  materialize := materialize executor

/-- The state of a client that has made no call. -/
def initial {σ : Type} (s : σ) : BaseState (HandleTable (StatusOr UInt64)) σ := ⟨HandleTable.empty, s⟩

end DirectClient

/-! ### The same on values -/

/-- The same status, and the same value if it is OK. What a failed materialization leaves in the output
is not compared. -/
def SameOutcome (m m' : MaterializeResult) : Prop :=
  m.status = m'.status ∧ (m.status = .ok () → m.output = m'.output)

namespace Deterministic

variable {σ V : Type} {executor : Executor UInt64 σ} (D : Deterministic executor V) {n : Nat} {w : σ}

/-- An id stands for what it names, a failure for itself. -/
def direct : Correspondence σ (StatusOr UInt64) Unit (StatusOr V) where
  World := σ
  Le := D.Ext
  Inv n w s _ := s = w ∧ D.Inv n s
  Rel w r r' := D.toDenotation.Matches w r r'
  Ready _ _ := True
  Output output := output ≠ none
  Same := SameOutcome
  lax := False
  inv_succ h := ⟨h.1, D.inv_succ h.2⟩
  rel_mono hext h := h.mono hext
  same_refl _ := ⟨rfl, fun _ => rfl⟩

theorem denotes_agree {x : Exec σ UInt64} {r : Option (StatusOr V)}
    (h : D.Inv (n + 1) w → Denotes D.toDenotation n w x r) :
    Run.Agree False (D.direct.Inv (n + 1) w) x.attempt (result r) (D.direct.Created n w)
      (D.direct.Inv n w) := by
  rintro s ⟨⟩ ⟨rfl, hinv⟩
  cases h hinv with
  | @ends b s' r hx hinv' hext hmatches =>
      exact .inl ⟨b, r, s', (), hx, .pure _ _, s', hext, ⟨rfl, hinv'⟩, hmatches⟩
  | stalls hx => exact .inr (.inr ⟨result_stalls rfl, .inr hx.attempt⟩)

/-- A step that depends on a failure is not made. -/
theorem error_agree (e : Status) :
    Run.Agree False (D.direct.Inv (n + 1) w) (pure (.error e))
      (result (some (.error e)) : Exec Unit (StatusOr V)) (D.direct.Created n w) (D.direct.Inv n w) := by
  rintro s ⟨⟩ ⟨rfl, hinv⟩
  exact .inl ⟨.error e, .error e, s, (), .pure _ _, .pure _ _, s, D.ext_refl s,
    ⟨rfl, D.inv_succ hinv⟩, .error e⟩

/-- Members that stand for values, or the first that failed. -/
theorem matches_all {s : σ} {members : List (StatusOr UInt64)} {rs : List (StatusOr V)}
    (h : List.Forall₂ (D.toDenotation.Matches s) members rs) :
    (∃ e, members.mapM id = .error e ∧ rs.mapM id = .error e) ∨
      ∃ ids vs, members.mapM id = .ok ids ∧ rs.mapM id = .ok vs ∧
        List.Forall₂ (D.Rel s) ids vs := by
  induction h with
  | nil => exact .inr ⟨[], [], rfl, rfl, .nil⟩
  | @cons _ _ members rs hm _ ih =>
      rw [List.mapM_cons, List.mapM_cons]
      cases hm with
      | error e => exact .inl ⟨e, rfl, rfl⟩
      | @ok id v hid =>
          rcases ih with ⟨e, hmembers, hrs⟩ | ⟨ids, vs, hmembers, hrs, hids⟩
          · exact .inl ⟨e, by rw [hmembers]; rfl, by rw [hrs]; rfl⟩
          · exact .inr ⟨id :: ids, v :: vs, by rw [hmembers]; rfl, by rw [hrs]; rfl, .cons hid hids⟩

/-- The direct client makes the steps that `D.impl` evaluates. -/
theorem direct_simulates : D.direct.Simulates (DirectClient.impl executor) D.impl where
  name := rfl
  createValue val := D.denotes_agree fun hinv => D.createValue_denotes val hinv
  createCall {n w f f' a a'} hf ha := by
    cases hf with
    | error e => exact D.error_agree e
    | ok hf =>
        cases ha with
        | none => exact D.denotes_agree fun hinv => D.createCall_denotes hinv hf .none
        | some ha =>
            cases ha with
            | error e => exact D.error_agree e
            | ok ha => exact D.denotes_agree fun hinv => D.createCall_denotes hinv hf (.some ha)
  createStruct {n w members rs} h := by
    show Run.Agree False _ (DirectClient.createStruct executor members) (result (D.structValue rs)) _ _
    rw [DirectClient.createStruct, structValue]
    -- one failed member fails the struct, with the same error on both sides
    rcases D.matches_all h with ⟨e, hmembers, hrs⟩ | ⟨ids, vs, hmembers, hrs, hids⟩
    · rw [hmembers, hrs]
      exact D.error_agree e
    · rw [hmembers, hrs]
      exact D.denotes_agree fun hinv => D.createStruct_denotes hinv hids
  createSelection {n w v r} index h := by
    cases h with
    | error e => exact D.error_agree e
    | ok hid => exact D.denotes_agree fun hinv => D.createSelection_denotes index hinv hid
  materialize {n w v r valPb} h houtput := by
    obtain ⟨output, rfl⟩ := Option.ne_none_iff_exists'.mp houtput
    rintro s ⟨⟩ ⟨⟨rfl, hinv⟩, -⟩
    cases h with
    | error e =>
        exact .inl ⟨_, _, s, (), .pure _ _, .pure _ _, D.direct.same_refl _, s, D.ext_refl s, rfl,
          D.inv_succ hinv⟩
    | @ok id v hid =>
        have hanswers := D.materialize_answers output hinv hid
        show (_ ∨ _ ∨ Run.Stalls (result (D.materialized (.ok v) (some output))) () ∧ _)
        cases hv : D.materialize v with
        | none =>
            rw [hv] at hanswers
            cases hanswers with
            | stalls hx => exact .inr (.inr ⟨result_stalls (by rw [materialized, hv]), .inr hx⟩)
        | some r =>
            rw [hv] at hanswers
            cases hanswers with
            | @ends m s' _ hm hinv' hext hanswer =>
                -- an error comes back as one, and nothing is asked of the output
                cases hanswer with
                | ok val =>
                    have hvalue : D.materialized (.ok v) (some output) = some ⟨.ok (), some val⟩ := by
                      rw [materialized, hv]
                    exact .inl ⟨_, _, s', (), hm, result_returns hvalue, ⟨rfl, fun _ => rfl⟩, s', hext,
                      rfl, hinv'⟩
                | error e output' =>
                    have hvalue : D.materialized (.ok v) (some output) =
                        some ⟨.error e, some Value.defaultInstance⟩ := by
                      rw [materialized, hv]
                    exact .inl ⟨_, _, s', (), hm, result_returns hvalue, ⟨rfl, nofun⟩, s', hext, rfl,
                      hinv'⟩

/-- As far as the direct client gets, so do the values, with the same responses. -/
theorem direct_performAll {made rest : List (Executor.ApiCall ValueId)} {s : σ}
    (hinv : D.Inv (made ++ rest).length s) (hpermits : ∀ call ∈ made ++ rest, D.direct.Permits call)
    {responses t} (h : Run.Returns ((executorBase (DirectClient.impl executor)).performAll made)
      (DirectClient.initial s) responses t) : ∃ responses' t',
    Run.Returns ((executorBase D.impl).performAll made) ExecutorImpl.initial responses' t' ∧
      List.Forall₂ (Executor.Response.Same SameOutcome) responses responses' := by
  have hle : made.length ≤ (made ++ rest).length := by
    rw [List.length_append]
    exact Nat.le_add_right _ _
  have hlinked : D.direct.Linked made.length s (DirectClient.initial s) ExecutorImpl.initial :=
    ⟨⟨rfl, D.inv_of_le hle hinv⟩, .empty⟩
  -- the stack put behind the service, called directly, agrees with the reference as well
  rcases D.direct_simulates.performAll_agree (fun _ _ => trivial) made
      (fun call hcall => hpermits call (List.mem_append_left _ hcall)) s _ _ hlinked with
    ⟨responses₁, responses', t₁, t', hdirect, hvalues, hsame, -⟩ | ⟨_, _, _, _, _, hfalse⟩ | ⟨-, hstalls⟩
  · obtain ⟨rfl, -⟩ := h.unique hdirect
    exact ⟨responses', t', hvalues, hsame⟩
  · exact hfalse.elim
  · exact ((hstalls.resolve_left id).not_returns h).elim

end Deterministic

/-! ## Every schedule -/

/-- A step of a straight-line program, over the handles of earlier steps. -/
inductive ProgramStep where
  | createValue (val : Value)
  | createCall (function : ValueId) (argument : Option ValueId)
  | createStruct (members : List ValueId)
  | createSelection (source : ValueId) (index : UInt32)
  | materialize (value : ValueId) (output : Value)

def ProgramStep.toCall : ProgramStep → Executor.ApiCall ValueId
  | .createValue val => .createValue val
  | .createCall function argument => .createCall function argument
  | .createStruct members => .createStruct members
  | .createSelection source index => .createSelection source index
  | .materialize value output => .materialize value (some output)

/-- **Remote execution is faithful.** The executor is deterministic, and good for as many steps as the
program has. Whatever the client, the tasks and the server have done so far, in whatever order, every call
made has had the response that the direct client has when it makes the steps one by one, as far as the
direct client gets. If it gets to the end of the program:

* so it is for every call made;
* if nothing can be done, then every call is made and every task has finished.

And only finitely many things can be done one after the other. -/
theorem remote_faithful {σ V : Type} {executor : Executor UInt64 σ} (D : Deterministic executor V)
    (program : List ProgramStep) {s₀ : σ} (hs₀ : D.Inv program.length s₀) :
    (∀ s, (schedule (RemoteExecutor.impl (channel (executorService executor))) s₀
        (program.map ProgramStep.toCall)).Reachable s →
      (∀ made rest l responses t, program.map ProgramStep.toCall = made ++ rest ++ s.calls →
        (executorBase (DirectClient.impl executor)).performAll made (DirectClient.initial s₀) =
          (l, .ok responses t) →
        List.Forall₂ (Executor.Response.Same SameOutcome) responses (s.responses.take made.length)) ∧
      ((∃ l responses t, (executorBase (DirectClient.impl executor)).performAll
          (program.map ProgramStep.toCall) (DirectClient.initial s₀) = (l, .ok responses t)) →
        (∃ made l responses t, program.map ProgramStep.toCall = made ++ s.calls ∧
          (executorBase (DirectClient.impl executor)).performAll made (DirectClient.initial s₀) =
            (l, .ok responses t) ∧
          List.Forall₂ (Executor.Response.Same SameOutcome) responses s.responses) ∧
        ((∀ s', ¬ScheduleStep (RemoteExecutor.impl (channel (executorService executor))) s s') →
          s.calls = [] ∧ ∀ i, ¬s.exec.impl.Pending i))) ∧
    WellFounded fun s' s =>
      ScheduleStep (RemoteExecutor.impl (channel (executorService executor))) s s' := by
  refine ⟨fun s hreach => ?_, wellFounded_scheduleStep _⟩
  have hpermits : ∀ call ∈ program.map ProgramStep.toCall,
      (futures D.wire (· ≠ none)).Permits call := by
    intro call hcall
    obtain ⟨step, -, rfl⟩ := List.mem_map.mp hcall
    cases step with
    | materialize value output => exact Option.some_ne_none output
    | _ => trivial
  have hshared : D.wire.Inv (program.map ProgramStep.toCall).length s₀ := (List.length_map ..).symm ▸ hs₀
  -- where the direct client gets, the values get, with the same responses
  have hdirect {made rest : List (Executor.ApiCall ValueId)} {l responses t}
      (hprogram : program.map ProgramStep.toCall = made ++ rest)
      (hmade : (executorBase (DirectClient.impl executor)).performAll made (DirectClient.initial s₀) =
        (l, .ok responses t)) : ∃ responses' t',
      Run.Returns ((executorBase D.impl).performAll made) ExecutorImpl.initial responses' t' ∧
        List.Forall₂ (Executor.Response.Same SameOutcome) responses responses' := by
    rw [hprogram] at hshared hpermits
    exact D.direct_performAll hshared hpermits ⟨l, hmade⟩
  refine ⟨fun made rest l responses t hprogram hmade => ?_, fun ⟨l, responses, t, hends⟩ => ?_⟩
  · obtain ⟨responses', t', hvalues, hsame⟩ := hdirect (hprogram.trans (List.append_assoc ..)) hmade
    rw [← foretold D.schedules hshared hpermits hreach hprogram hvalues]
    exact hsame
  · obtain ⟨responses', t', hvalues, -⟩ := hdirect (List.append_nil _).symm hends
    have hanswers := ExecutorImpl.answers_of_returns hvalues
    -- the pool runs in step with the values, and so with the direct client
    have hinStep := InStep.reachable D.schedules hshared hpermits hanswers hreach
    refine ⟨?_, hinStep.finished D.schedules hpermits hanswers⟩
    obtain ⟨made, t₁, w, hprogram, hmade, -⟩ := hinStep
    rw [hprogram] at hends
    obtain ⟨responses₁, _, u, ⟨l₁, hmade₁⟩, -⟩ := Executor.performAll_append.mp ⟨l, hends⟩
    obtain ⟨responses₂, t₂, hvalues₂, hsame⟩ := hdirect hprogram hmade₁
    obtain ⟨rfl, -⟩ := hmade.unique hvalues₂
    exact ⟨made, l₁, responses₁, u, hprogram, hmade₁, hsame⟩

/-! A local stack, with as much fuel as it takes, and a program whose last step but one does not end. -/

def smallStack [ProtoText] : Executor UInt64 (BaseState (TrackedValues ExecutorValue) InlineState) :=
  executorBase ((localExecutor []).impl 9)

def smallStack.initial : BaseState (TrackedValues ExecutorValue) InlineState :=
  ⟨TrackedValues.empty, HandleTable.empty, ()⟩

/-- A program of five steps, the third of which fails. -/
def failingProgram : List ProgramStep :=
  [.createValue (.ofStr "a"), .createStruct [0, 0], .createSelection 1 2, .createStruct [1, 2],
    .materialize 3 Value.defaultInstance]

/-- After that it calls a function with itself, which does the same. -/
def endlessProgram : List ProgramStep :=
  failingProgram ++
    [.createValue (.lambda {} "f" (.call {} (.reference {} "f") (some (.reference {} "f")))),
      .createCall 4 (some 4), .materialize 5 Value.defaultInstance]

/-- Some schedule of the first program ends, with every call made. In every schedule of the second, the
first calls have had the same responses. -/
theorem remote_faithful_smallStack :
    let _ := ProtoText.silent
    let remote := RemoteExecutor.impl (channel (executorService smallStack))
    let direct := executorBase (DirectClient.impl smallStack)
    (∃ s, (schedule remote smallStack.initial (failingProgram.map ProgramStep.toCall)).Reachable s ∧
      s.calls = [] ∧ ∃ l responses t,
        direct.performAll (failingProgram.map ProgramStep.toCall)
          (DirectClient.initial smallStack.initial) = (l, .ok responses t) ∧
        List.Forall₂ (Executor.Response.Same SameOutcome) responses s.responses) ∧
    (∀ s rest, (schedule remote smallStack.initial (endlessProgram.map ProgramStep.toCall)).Reachable s →
      endlessProgram.map ProgramStep.toCall = failingProgram.map ProgramStep.toCall ++ rest ++ s.calls →
      ∃ l responses t,
        direct.performAll (failingProgram.map ProgramStep.toCall)
          (DirectClient.initial smallStack.initial) = (l, .ok responses t) ∧
        List.Forall₂ (Executor.Response.Same SameOutcome) responses (s.responses.take 5)) ∧
    (direct.performAll (endlessProgram.map ProgramStep.toCall)
      (DirectClient.initial smallStack.initial)).2.isOk = false := by
  intro _ remote direct
  let D : Deterministic smallStack LocalValue :=
    (ControlFlowExecutor.localDeterministic [] 9).executor
  have hinv {n : Nat} (hn : n < 2 ^ 64) : D.Inv n smallStack.initial :=
    ⟨HandleTable.empty, TrackedValues.refines_empty, (Nat.zero_add n).symm ▸ hn⟩
  -- called directly, the program that fails in the middle still answers every call
  have hok : (direct.performAll (failingProgram.map ProgramStep.toCall)
      (DirectClient.initial smallStack.initial)).2.isOk = true := by decide +kernel
  obtain ⟨responses, t, l, hdirect⟩ := Run.isOk_iff.mp hok
  refine ⟨?_, fun s rest hs hprogram => ?_, by decide +kernel⟩
  · obtain ⟨hreachable, hwf⟩ := remote_faithful D failingProgram (hinv (by decide))
    obtain ⟨s, hs, hstuck⟩ := System.exists_stuck (S := schedule remote _ _) hwf (.init rfl)
    obtain ⟨⟨made, l', responses', t', hmade, hdirect', hsame⟩, hfinished⟩ :=
      (hreachable s hs).2 ⟨l, responses, t, hdirect⟩
    have hcalls : s.calls = [] := (hfinished hstuck).1
    rw [hcalls, List.append_nil] at hmade
    exact ⟨s, hs, hcalls, l', responses', t', hmade ▸ hdirect', hsame⟩
  · obtain ⟨hreachable, -⟩ := remote_faithful D endlessProgram (hinv (by decide))
    exact ⟨l, responses, t, hdirect, (hreachable s hs).1 _ rest l responses t hprogram hdirect⟩

end GenC
