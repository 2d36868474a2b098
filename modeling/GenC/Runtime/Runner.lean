import GenC.Runtime.Executor

/-!
# The runner

`runtime/runner.cc`: runs a computation on an argument, with one owned id for each of the
computation, the argument and the result.
-/

namespace GenC

open Lib

/-- The members of a `Runner`. -/
structure Runner (Id σ : Type) where
  computationOrNull : Option Value
  executor : Executor Id σ

namespace Runner

variable {Id σ : Type} (runner : Runner Id σ)

/-- `RunInternal`. The ids are released in the reverse order of their creation. -/
def runInternal (computation arg : Value) : Exec σ Value := do
  let compVal ← runner.executor.createValue computation
  runner.executor.releasing [compVal] do
    let argVal ← runner.executor.createValue arg
    runner.executor.releasing [argVal] do
      let resultVal ← runner.executor.createCall compVal (some argVal)
      runner.executor.releasing [resultVal] do
        let result ← runner.executor.materialize resultVal (some Value.defaultInstance)
        result.get

/-- `Run(arg)`. -/
def run (arg : Value) : Exec σ Value :=
  match runner.computationOrNull with
  | none => Run.throw (.invalidArgument "A computation was not provided in the constructor.")
  | some computation => runner.runInternal computation arg

/-- `Run(computation, arg)`. -/
def runComputation (computation arg : Value) : Exec σ Value :=
  match runner.computationOrNull with
  | some _ => Run.throw (.invalidArgument "A computation was already provided in the constructor.")
  | none => runner.runInternal computation arg

end Runner

/-! ## What a run returns -/

section

variable {V σ : Type} {impl : ExecutorImpl σ V}

/-- What is released is of the executor's own table. -/
theorem Executor.releaseAll_impl :
    ∀ (ids : List ValueId) (s : BaseState (HandleTable V) σ),
      ∃ s', Run.Returns ((executorBase impl).releaseAll ids) s () s' ∧ s'.impl = s.impl
  | [], s => ⟨s, .pure _ _, rfl⟩
  | id :: ids, s => by
      have hdispose : ∃ r s₁, Run.Returns ((executorBase impl).dispose id).attempt s r s₁ ∧
          s₁.impl = s.impl := by
        cases h : s.table.trackedValues id with
        | some v => exact ⟨_, _, (ExecutorBase.dispose_ok impl.executorName h).attempt, rfl⟩
        | none => exact ⟨_, _, (ExecutorBase.dispose_fails impl.executorName h).attempt, rfl⟩
      obtain ⟨r, s₁, hid, himpl₁⟩ := hdispose
      obtain ⟨s', hids, himpl⟩ := releaseAll_impl ids s₁
      exact ⟨s', hid.bind hids, himpl.trans himpl₁⟩

theorem Executor.releasing_impl {α : Type} (ids : List ValueId)
    {x : Exec (BaseState (HandleTable V) σ) α} {s s₁ : BaseState (HandleTable V) σ} {a : α}
    (hx : Run.Returns x s a s₁) :
    ∃ s', Run.Returns ((executorBase impl).releasing ids x) s a s' ∧ s'.impl = s₁.impl := by
  obtain ⟨s', h, himpl⟩ := releaseAll_impl ids s₁
  exact ⟨s', hx.attempt.bind (h.bind (.pure _ _)), himpl⟩

/-- The steps of a run. -/
theorem Runner.runInternal_returns {computationOrNull : Option Value} {computation arg r : Value}
    {compVal argVal resultVal : ValueId} {s t₁ t₂ t₃ t₄ : BaseState (HandleTable V) σ}
    (hcomp : Run.Returns ((executorBase impl).createValue computation) s compVal t₁)
    (harg : Run.Returns ((executorBase impl).createValue arg) t₁ argVal t₂)
    (hresult : Run.Returns ((executorBase impl).createCall compVal (some argVal)) t₂ resultVal t₃)
    (hmaterialize : Run.Returns ((executorBase impl).materialize resultVal (some .defaultInstance)) t₃
      ⟨.ok (), some r⟩ t₄) :
    ∃ s', Run.Returns (Runner.runInternal ⟨computationOrNull, executorBase impl⟩ computation arg) s r s' ∧
      s'.impl = t₄.impl := by
  let executor : Executor ValueId (BaseState (HandleTable V) σ) := executorBase impl
  let materialized (resultVal : ValueId) : Exec (BaseState (HandleTable V) σ) Value :=
    executor.releasing [resultVal] (executor.materialize resultVal (some .defaultInstance) >>= fun m => m.get)
  let called (compVal argVal : ValueId) : Exec (BaseState (HandleTable V) σ) Value :=
    executor.releasing [argVal] (executor.createCall compVal (some argVal) >>= materialized)
  have hget : Run.Returns (executor.materialize resultVal (some .defaultInstance) >>= fun m => m.get) t₃ r t₄ :=
    hmaterialize.bind (.pure r t₄)
  -- the handles are let go from the last to the first, which leaves the executor below as it is
  obtain ⟨t₅, h₅, himpl₅⟩ := Executor.releasing_impl [resultVal] hget
  have hcall : Run.Returns (executor.createCall compVal (some argVal) >>= materialized) t₂ r t₅ :=
    hresult.bind h₅
  obtain ⟨t₆, h₆, himpl₆⟩ := Executor.releasing_impl [argVal] hcall
  have hargument : Run.Returns (executor.createValue arg >>= called compVal) t₁ r t₆ := harg.bind h₆
  obtain ⟨t₇, h₇, himpl₇⟩ := Executor.releasing_impl [compVal] hargument
  exact ⟨t₇, hcomp.bind h₇, himpl₇.trans (himpl₆.trans himpl₅)⟩

end

end GenC
