import GenC.Authoring.TraceScoping
import GenC.Retrieval.BiMap

/-!
# The table of a tracing context

Both tracing contexts, `authoring/tracing_context.cc` and `python/authoring/tracing_context.py`, replace the
IR that they are called with by references to it. What they do is one relation: `Receives` takes the names
issued so far to the reference that a piece of IR receives and to the names issued then.

* The Python context is the one of tracing, and `embed` with it.
* The C++ context, `CcTracingContext`, keeps its names in a bidirectional map, with the IR serialized. It
  returns the call itself, where the Python one names the call too.

**`names_in_order`**: in every run of operations on either context, a name is issued for one piece of IR and
never again, IR receives the same reference exactly if it is the same, and the IR under a name refers to
`arg` and to the names before it.
-/

namespace GenC

open Lib

/-- `has_reference()`. -/
def Value.hasReference : Value → Bool
  | .reference _ _ => true
  | _ => false

/-! ## Names issued -/

/-- `ir` is replaced by a reference: by itself if it is one, by the name that it has, or by the next one. -/
inductive Receives (issued : List (String × Value)) : Value → Value → List (String × Value) → Prop where
  | reference {m : Meta} {name : String} :
      Receives issued (.reference m name) (.reference m name) issued
  | shared {ir : Value} {name : String} (hir : ir.hasReference = false) (h : (name, ir) ∈ issued) :
      Receives issued ir (createReference name) issued
  | fresh {ir : Value} (hir : ir.hasReference = false) (hnew : ∀ item ∈ issued, item.2 ≠ ir) :
      Receives issued ir (createReference (localName issued.length))
        (issued ++ [(localName issued.length, ir)])

/-- One after another. -/
inductive ReceivesAll : List (String × Value) → List Value → List Value → List (String × Value) → Prop where
  | nil {issued : List (String × Value)} : ReceivesAll issued [] [] issued
  | cons {issued issued₁ issued' : List (String × Value)} {ir ref : Value} {irs refs : List Value}
      (h : Receives issued ir ref issued₁) (hall : ReceivesAll issued₁ irs refs issued') :
      ReceivesAll issued (ir :: irs) (ref :: refs) issued'

/-- `ref` is what `ir` is replaced by. -/
def StandsFor (issued : List (String × Value)) (ref ir : Value) : Prop :=
  if ir.hasReference then ref = ir else ∃ name, ref = createReference name ∧ (name, ir) ∈ issued

/-- The names issued are `v_0`, `v_1`, …; each is for IR that refers to `arg` and to the names before it, and
for no other IR. -/
structure WellOrdered (issued : List (String × Value)) : Prop where
  inOrder : WellScoped localName Value.Within {"arg"} issued
  name_iff : ∀ item ∈ issued, ∀ item' ∈ issued, item.1 = item'.1 ↔ item.2 = item'.2

/-- `arg`, and the names issued. -/
abbrev inScopeOf (issued : List (String × Value)) : Set String := visible localName {"arg"} issued.length

variable {issued issued₁ issued' : List (String × Value)} {ir ref : Value} {irs refs : List Value}

namespace StandsFor

theorem mono (h : StandsFor issued ref ir) (hle : issued <+: issued') : StandsFor issued' ref ir := by
  unfold StandsFor at h ⊢
  split
  case isTrue hir => simpa [hir] using h
  case isFalse hir =>
    rw [if_neg hir] at h
    obtain ⟨name, hname, hmem⟩ := h
    exact ⟨name, hname, hle.subset hmem⟩

/-- Two pieces of IR that are not references receive the same reference exactly if they are the same. -/
theorem same_iff {ir' ref' : Value} (hissued : WellOrdered issued) (hir : ir.hasReference = false)
    (hir' : ir'.hasReference = false) (h : StandsFor issued ref ir) (h' : StandsFor issued ref' ir') :
    ref = ref' ↔ ir = ir' := by
  unfold StandsFor at h h'
  rw [hir] at h
  rw [hir'] at h'
  obtain ⟨name, rfl, hmem⟩ := h
  obtain ⟨name', rfl, hmem'⟩ := h'
  rw [← hissued.name_iff _ hmem _ hmem', createReference, createReference, Value.reference.injEq]
  exact and_iff_right rfl

end StandsFor

theorem WellOrdered.nil : WellOrdered [] where
  inOrder _ _ _ h := by cases h
  name_iff := List.forall_mem_nil _

/-- The names in order are the locals of a block that refers to `arg` alone. -/
theorem WellOrdered.block {result : Value} (h : WellOrdered issued)
    (hresult : result.Within (inScopeOf issued)) : (Value.block {} issued result).Within {"arg"} := by
  -- a name in scope is one of the locals before
  have hsub : ∀ k ≤ issued.length, visible localName {"arg"} k ⊆
      {"arg"} ∪ {y | y ∈ (issued.take k).map Prod.fst} := by
    rintro k hk x (hx | ⟨j, hj, rfl⟩)
    · exact .inl hx
    · have hlt : j < issued.length := hj.trans_le hk
      have hname := (h.inOrder j _ _ (List.getElem?_eq_getElem hlt)).1
      refine .inr (List.mem_map.mpr ⟨issued[j], ?_, hname⟩)
      rw [List.mem_take_iff_getElem]
      exact ⟨j, by omega, rfl⟩
  refine Value.within_block (fun k x e hk => ?_) ?_
  · exact (h.inOrder k x e hk).2.mono (hsub k (List.getElem?_eq_some_iff.mp hk).1.le)
  · refine hresult.mono ?_
    have hall := hsub issued.length (Nat.le_refl _)
    rwa [List.take_length] at hall

namespace Receives

theorem isPrefix (h : Receives issued ir ref issued') : issued <+: issued' := by
  cases h with
  | reference => exact List.prefix_rfl
  | shared => exact List.prefix_rfl
  | fresh => exact List.prefix_append _ _

theorem inScopeOf (h : Receives issued ir ref issued') : inScopeOf issued ⊆ inScopeOf issued' :=
  visible_mono h.isPrefix.length_le

theorem standsFor (h : Receives issued ir ref issued') : StandsFor issued' ref ir := by
  unfold StandsFor
  cases h with
  | reference => exact rfl
  | shared hir h =>
      rw [hir]
      exact ⟨_, rfl, h⟩
  | fresh hir hnew =>
      rw [hir]
      exact ⟨_, rfl, List.mem_append_right _ (List.mem_singleton_self _)⟩

/-- Replacing keeps the order of the names. -/
theorem wellOrdered (h : Receives issued ir ref issued') (hissued : WellOrdered issued)
    (hir : ir.Within (GenC.inScopeOf issued)) : WellOrdered issued' := by
  cases h with
  | reference => exact hissued
  | shared => exact hissued
  | fresh _ hnew =>
      refine ⟨Names.fresh.wellScoped hissued.inOrder hir, ?_⟩
      -- the new name is none of those before, and neither is the new IR
      have hname : ∀ item ∈ issued, item.1 ≠ localName issued.length := by
        intro item hitem heq
        obtain ⟨k, hk⟩ := List.mem_iff_getElem?.mp hitem
        have hlt := (List.getElem?_eq_some_iff.mp hk).1
        rw [(hissued.inOrder k _ _ hk).1] at heq
        exact Nat.ne_of_lt hlt (localName_injective heq)
      intro item hitem item' hitem'
      rcases List.mem_append.mp hitem with hitem | hitem <;>
        rcases List.mem_append.mp hitem' with hitem' | hitem'
      · exact hissued.name_iff item hitem item' hitem'
      · rw [List.mem_singleton.mp hitem']
        exact iff_of_false (hname item hitem) (hnew item hitem)
      · rw [List.mem_singleton.mp hitem]
        exact iff_of_false (hname item' hitem').symm (hnew item' hitem').symm
      · rw [List.mem_singleton.mp hitem, List.mem_singleton.mp hitem']
        exact iff_of_true rfl rfl

/-- The reference is within the names issued then. -/
theorem within (h : Receives issued ir ref issued') (hissued : WellOrdered issued)
    (hir : ir.Within (GenC.inScopeOf issued)) : ref.Within (GenC.inScopeOf issued') := by
  cases h with
  | reference => exact hir
  | @shared ir name _ h =>
      obtain ⟨k, hk⟩ := List.mem_iff_getElem?.mp h
      have hname := (hissued.inOrder k _ _ hk).1
      exact .reference (.inr ⟨k, (List.getElem?_eq_some_iff.mp hk).1, hname⟩)
  | fresh =>
      refine .reference (.inr ⟨issued.length, ?_, rfl⟩)
      rw [List.length_append]
      exact Nat.lt_succ_self _

end Receives

namespace ReceivesAll

theorem isPrefix (h : ReceivesAll issued irs refs issued') : issued <+: issued' := by
  induction h with
  | nil => exact List.prefix_rfl
  | cons h _ ih => exact h.isPrefix.trans ih

theorem standsFor (h : ReceivesAll issued irs refs issued') :
    List.Forall₂ (StandsFor issued') refs irs := by
  induction h with
  | nil => exact .nil
  | cons h hall ih => exact .cons (h.standsFor.mono hall.isPrefix) ih

theorem wellOrdered (h : ReceivesAll issued irs refs issued') (hissued : WellOrdered issued)
    (hirs : ∀ ir ∈ irs, ir.Within (inScopeOf issued)) :
    WellOrdered issued' ∧ ∀ ref ∈ refs, ref.Within (inScopeOf issued') := by
  induction h with
  | nil => exact ⟨hissued, List.forall_mem_nil _⟩
  | cons h hall ih =>
      obtain ⟨hir, hirs⟩ := List.forall_mem_cons.mp hirs
      obtain ⟨hissued', hrefs⟩ := ih (h.wellOrdered hissued hir) fun ir hmem =>
        (hirs ir hmem).mono h.inScopeOf
      have href := (h.within hissued hir).mono (visible_mono hall.isPrefix.length_le)
      exact ⟨hissued', List.forall_mem_cons.mpr ⟨href, hrefs⟩⟩

end ReceivesAll

/-! ## Runs -/

/-- A call of `portableIr`. -/
structure TraceCall where
  portableIr : Value
  args : List Value

/-- The IR that is passed. -/
def TraceCall.passed (call : TraceCall) : List Value := call.portableIr :: call.args

/-- What a context in Python is asked to do. -/
inductive TraceOperation where
  | call (call : TraceCall)
  | embed (arg : Value)

/-- The IR that is passed. -/
def TraceOperation.passed : TraceOperation → List Value
  | .call c => c.passed
  | .embed arg => [arg]

section Runs

variable {C Op : Type} (run : List Op → C) (Stores : C → List (String × Value) → Prop)
  (Replaces : List (String × Value) → C → Op → Prop)

/-- The IR that is passed to an operation refers to `arg` and to names issued before the operation. -/
def RefersBack (count : C → Nat) (passed : Op → List Value) (operations : List Op) : Prop :=
  ∀ before operation after, operations = before ++ operation :: after →
    ∀ ir ∈ passed operation, ir.Within (visible localName {"arg"} (count (run before)))

/-- The names issued in a run are well ordered, those issued earlier are still there, and every operation
replaces what it is passed. The same reference stands for the same IR alone, and the names in order are the
locals of a block. -/
def NamesInOrder (operations : List Op) : Prop :=
  ∃ issued, WellOrdered issued ∧ Stores (run operations) issued ∧
    (∀ before after, operations = before ++ after →
      ∃ issued₀, issued₀ <+: issued ∧ Stores (run before) issued₀) ∧
    (∀ before operation after, operations = before ++ operation :: after →
      Replaces issued (run before) operation) ∧
    (∀ ref ir ref' ir', ir.hasReference = false → ir'.hasReference = false →
      StandsFor issued ref ir → StandsFor issued ref' ir' → (ref = ref' ↔ ir = ir')) ∧
    ∀ result : Value, result.Within (inScopeOf issued) → (Value.block {} issued result).Within {"arg"}

variable {run Stores Replaces}

/-- What each operation adds, a run adds up to. -/
theorem namesInOrder_of_step (hnil : Stores (run []) [])
    (hmono : ∀ {issued issued' c operation}, issued <+: issued' → Replaces issued c operation →
      Replaces issued' c operation)
    {operations : List Op}
    (hstep : ∀ before operation after, operations = before ++ operation :: after →
      ∀ issued, WellOrdered issued → Stores (run before) issued →
        ∃ issued', issued <+: issued' ∧ WellOrdered issued' ∧ Stores (run (before ++ [operation])) issued' ∧
          Replaces issued' (run before) operation) :
    NamesInOrder run Stores Replaces operations := by
  suffices h : ∃ issued, WellOrdered issued ∧ Stores (run operations) issued ∧
      (∀ before after, operations = before ++ after →
        ∃ issued₀, issued₀ <+: issued ∧ Stores (run before) issued₀) ∧
      ∀ before operation after, operations = before ++ operation :: after →
        Replaces issued (run before) operation by
    obtain ⟨issued, hissued, hstores, hbefore, hreplaces⟩ := h
    exact ⟨issued, hissued, hstores, hbefore, hreplaces,
      fun ref ir ref' ir' hir hir' => StandsFor.same_iff hissued hir hir', fun result => hissued.block⟩
  -- induction on the run, from its end
  induction operations using List.reverseRecOn with
  | nil =>
      refine ⟨[], .nil, hnil, fun before after h => ?_, fun before operation after h => ?_⟩
      · obtain ⟨rfl, -⟩ := List.append_eq_nil_iff.mp h.symm
        exact ⟨[], List.prefix_rfl, hnil⟩
      · simp at h
  | append_singleton operations last ih =>
      obtain ⟨issued, hissued, hstores, hbefore, hreplaces⟩ := ih fun before operation after h =>
        hstep before operation (after ++ [last]) (by rw [h]; simp)
      obtain ⟨issued', hle, hissued', hstores', hlast⟩ :=
        hstep operations last [] rfl issued hissued hstores
      refine ⟨issued', hissued', hstores', fun before after h => ?_, fun before operation after h => ?_⟩
      · rcases List.eq_nil_or_concat after with rfl | ⟨after, last', rfl⟩
        · rw [List.append_nil] at h
          exact ⟨issued', List.prefix_rfl, h ▸ hstores'⟩
        · rw [List.concat_eq_append, ← List.append_assoc] at h
          obtain ⟨issued₀, hle₀, hstores₀⟩ := hbefore before after (List.append_inj_left' h rfl)
          exact ⟨issued₀, hle₀.trans hle, hstores₀⟩
      · rcases List.eq_nil_or_concat after with rfl | ⟨after, last', rfl⟩
        · obtain ⟨rfl, heq⟩ := List.append_inj' h rfl
          cases heq
          exact hlast
        · have h' : operations ++ [last] = (before ++ operation :: after) ++ [last'] := by simpa using h
          exact hmono hle (hreplaces before operation after (List.append_inj_left' h' rfl))

end Runs

/-! ## The Python context -/

namespace TracingContext

variable [PythonText] {ctx ctx' : TracingContext}

/-- `embed`: a `Computation` of the reference. -/
def embed (ctx : TracingContext) (arg : PyObject) : Except String (PyObject × TracingContext) := do
  let (ref, ctx) ← ctx.replaceWithReference arg
  return (.computation ref, ctx)

/-- The result of an operation, and the context after it. -/
def perform : TraceOperation → TracingContext → Except String (PyObject × TracingContext)
  | .call c, ctx => do
      let (result, ctx) ← ctx.call c.portableIr (c.args.map .value)
      return (.value result, ctx)
  | .embed arg, ctx => ctx.embed (.value arg)

/-- The context after an operation. The one that raises, a call without arguments, does so before it replaces
anything. -/
def next (ctx : TracingContext) (operation : TraceOperation) : TracingContext :=
  match perform operation ctx with
  | .ok (_, ctx') => ctx'
  | .error _ => ctx

/-- A new context after a run. -/
def run (operations : List TraceOperation) : TracingContext := operations.foldl next .empty

/-- The operation comes back with references for the IR that it is passed, and for the call of these. -/
def Replaces (issued : List (String × Value)) (ctx : TracingContext) : TraceOperation → Prop
  | .call c => c.args ≠ [] → ∃ refs f result ctx',
      perform (.call c) ctx = .ok (.value result, ctx') ∧
      List.Forall₂ (StandsFor issued) refs c.args ∧ StandsFor issued f c.portableIr ∧
      StandsFor issued result (createCall f (inputVal refs))
  | .embed arg => ∃ result ctx',
      perform (.embed arg) ctx = .ok (.computation result, ctx') ∧ StandsFor issued result arg

theorem Replaces.mono {operation : TraceOperation} (hle : issued <+: issued')
    (h : Replaces issued ctx operation) : Replaces issued' ctx operation := by
  cases operation with
  | call c =>
      intro hargs
      obtain ⟨refs, f, result, ctx', hperform, hrefs, hf, hresult⟩ := h hargs
      exact ⟨refs, f, result, ctx', hperform, hrefs.imp fun _ _ href => href.mono hle, hf.mono hle,
        hresult.mono hle⟩
  | embed arg =>
      obtain ⟨result, ctx', hperform, hresult⟩ := h
      exact ⟨result, ctx', hperform, hresult.mono hle⟩

/-- IR is always replaced. -/
theorem replaceWithReference_value (ctx : TracingContext) (ir : Value) :
    ∃ ref ctx', ctx.replaceWithReference (.value ir) = .ok (ref, ctx') := by
  rw [replaceWithReference, PyObject.toValueProto]
  split
  · next h => cases h
  · exact ⟨_, _, rfl⟩
  · exact ⟨_, _, rfl⟩

theorem replaceWithReference_receives
    (h : ctx.replaceWithReference (.value ir) = .ok (ref, ctx')) (hdistinct : ctx'.Distinct) :
    Receives ctx.nameToIr ir ref ctx'.nameToIr := by
  obtain ⟨_, ⟨⟩, ⟨m, x, rfl, rfl, rfl⟩ | ⟨hne, hlookUp⟩⟩ := replaceWithReference_cases h
  · exact .reference
  · have hir : ir.hasReference = false := by
      cases ir with
      | reference m x => exact absurd rfl (hne m x)
      | _ => rfl
    unfold lookUp at hlookUp
    rcases ctx.lookup_irStrToName (str ir) with ⟨item, hmem, htext, hlookup⟩ | ⟨hnew, hlookup⟩
    · rw [hlookup] at hlookUp
      cases hlookUp
      -- the text is the one of IR that was looked up
      have hlooked : item.2 ∈ (ctx.look [ir]).looked := List.mem_append_left _ (ctx.subset item hmem)
      have heq : item.2 = ir :=
        hdistinct hlooked (List.mem_append_right _ (List.mem_singleton_self ir)) htext
      exact .shared hir (heq ▸ hmem)
    · rw [hlookup] at hlookUp
      cases hlookUp
      exact .fresh hir fun item hitem heq => hnew item hitem (congrArg str heq)

theorem replaceAll_value (ctx : TracingContext) (irs : List Value) :
    ∃ refs ctx', ctx.replaceAll (irs.map .value) = .ok (refs, ctx') := by
  induction irs generalizing ctx with
  | nil => exact ⟨[], ctx, rfl⟩
  | cons ir irs ih =>
      obtain ⟨ref, ctx₁, hfirst⟩ := ctx.replaceWithReference_value ir
      obtain ⟨refs, ctx', hrest⟩ := ih ctx₁
      refine ⟨ref :: refs, ctx', ?_⟩
      rw [List.map_cons, replaceAll, hfirst, ok_bind]
      show (ctx₁.replaceAll _ >>= _) = _
      rw [hrest]
      rfl

theorem replaceAll_receives (h : ctx.replaceAll (irs.map .value) = .ok (refs, ctx'))
    (hdistinct : ctx'.Distinct) : ReceivesAll ctx.nameToIr irs refs ctx'.nameToIr := by
  induction irs generalizing ctx refs with
  | nil =>
      cases h
      exact .nil
  | cons ir irs ih =>
      obtain ⟨⟨ref, ctx₁⟩, hfirst, h⟩ := ok_of_bind h
      obtain ⟨⟨refs, ctx₂⟩, hrest, h⟩ := ok_of_bind h
      cases h
      exact .cons (replaceWithReference_receives hfirst (hdistinct.of_extends (replaceAll_extends hrest)))
        (ih hrest)

/-- A call with arguments succeeds. -/
theorem call_value (ctx : TracingContext) {c : TraceCall} (hargs : c.args ≠ []) :
    ∃ result ctx', ctx.call c.portableIr (c.args.map .value) = .ok (result, ctx') := by
  obtain ⟨refs, ctx₁, hrefs⟩ := ctx.replaceAll_value c.args
  obtain ⟨f, ctx₂, hfunc⟩ := ctx₁.replaceWithReference_value c.portableIr
  obtain ⟨result, ctx', hcall⟩ := ctx₂.replaceWithReference_value (createCall f (inputVal refs))
  refine ⟨result, ctx', ?_⟩
  have hargs : ¬ (c.args.map PyObject.value).isEmpty = true := by simpa using hargs
  rw [call, if_neg hargs]
  show (ctx.replaceAll _ >>= _) = _
  rw [hrefs, ok_bind]
  show (ctx₁.replaceWithReference _ >>= _) = _
  rw [hfunc, ok_bind]
  exact hcall

theorem extends_next (ctx : TracingContext) (operation : TraceOperation) :
    ctx.Extends (ctx.next operation) := by
  unfold next
  split
  case h_2 => exact .refl ctx
  case h_1 result ctx' h =>
    cases operation with
    | call c =>
        obtain ⟨⟨r, ctx₁⟩, hcall, h⟩ := ok_of_bind h
        cases h
        exact call_extends hcall
    | embed arg =>
        obtain ⟨⟨r, ctx₁⟩, hreplace, h⟩ := ok_of_bind h
        cases h
        exact replaceWithReference_extends hreplace

theorem run_append (before after : List TraceOperation) :
    run (before ++ after) = after.foldl next (run before) := List.foldl_append

theorem run_extends (before after : List TraceOperation) : (run before).Extends (run (before ++ after)) := by
  rw [run_append]
  generalize run before = ctx
  induction after generalizing ctx with
  | nil => exact .refl ctx
  | cons operation after ih => exact (ctx.extends_next operation).trans (ih _)

/-- An operation replaces what it is passed, and keeps the order of the names. -/
theorem next_receives {operation : TraceOperation} (hdistinct : (ctx.next operation).Distinct)
    (hctx : WellOrdered ctx.nameToIr)
    (hpassed : ∀ ir ∈ operation.passed, ir.Within (inScopeOf ctx.nameToIr)) :
    WellOrdered (ctx.next operation).nameToIr ∧
      Replaces (ctx.next operation).nameToIr ctx operation := by
  cases operation with
  | embed arg =>
      obtain ⟨ref, ctx', h⟩ := ctx.replaceWithReference_value arg
      have hperform : perform (.embed arg) ctx = .ok (.computation ref, ctx') := by
        rw [perform, embed, h]
        rfl
      have hnext : ctx.next (.embed arg) = ctx' := by rw [next, hperform]
      rw [hnext] at hdistinct ⊢
      have hreceives := replaceWithReference_receives h hdistinct
      exact ⟨hreceives.wellOrdered hctx (hpassed arg (List.mem_singleton_self arg)),
        ref, ctx', hperform, hreceives.standsFor⟩
  | call c =>
      by_cases hargs : c.args = []
      · have hnext : ctx.next (.call c) = ctx := by
          rw [next, perform, call, hargs]
          rfl
        rw [hnext]
        exact ⟨hctx, fun h => absurd hargs h⟩
      · obtain ⟨result, ctx', hcall⟩ := ctx.call_value hargs
        have hperform : perform (.call c) ctx = .ok (.value result, ctx') := by
          rw [perform, hcall]
          rfl
        have hnext : ctx.next (.call c) = ctx' := by rw [next, hperform]
        rw [hnext] at hdistinct ⊢
        obtain ⟨hir, hirs⟩ := List.forall_mem_cons.mp hpassed
        obtain ⟨refs, ctx₁, f, ctx₂, hrefs, hfunc, hlast⟩ := call_cases hcall
        have hle₁ := replaceWithReference_extends hfunc
        have hdistinct₂ := hdistinct.of_extends (replaceWithReference_extends hlast)
        -- the arguments, the function, and the call
        have hargs' := replaceAll_receives hrefs (hdistinct₂.of_extends hle₁)
        have hfunc' := replaceWithReference_receives hfunc hdistinct₂
        have hcall' := replaceWithReference_receives hlast hdistinct
        obtain ⟨hctx₁, hwithin⟩ := hargs'.wellOrdered hctx hirs
        have hir₁ := hir.mono (visible_mono hargs'.isPrefix.length_le)
        have hctx₂ := hfunc'.wellOrdered hctx₁ hir₁
        have hwithin₂ : (createCall f (inputVal refs)).Within (inScopeOf ctx₂.nameToIr) := by
          refine .call (hfunc'.within hctx₁ hir₁) ?_
          rintro a ⟨⟩
          exact inputVal_within fun ref href => (hwithin ref href).mono hfunc'.inScopeOf
        have hle := hfunc'.isPrefix.trans hcall'.isPrefix
        exact ⟨hcall'.wellOrdered hctx₂ hwithin₂, fun _ => ⟨refs, f, result, ctx', hperform,
          hargs'.standsFor.imp fun _ _ h => h.mono hle, hfunc'.standsFor.mono hcall'.isPrefix,
          hcall'.standsFor⟩⟩

theorem run_namesInOrder {operations : List TraceOperation} (hdistinct : (run operations).Distinct)
    (hpassed : RefersBack run (fun ctx => ctx.nameToIr.length) TraceOperation.passed operations) :
    NamesInOrder run (fun ctx issued => ctx.nameToIr = issued) Replaces operations := by
  apply namesInOrder_of_step
  case hnil => rfl
  case hmono => exact Replaces.mono
  intro before operation after h issued hissued hstores
  subst hstores
  have hrun : run (before ++ [operation]) = (run before).next operation := run_append before [operation]
  have hle : (run (before ++ [operation])).Extends (run operations) := by
    have hsplit : operations = before ++ [operation] ++ after := by rw [h, List.append_cons]
    rw [hsplit]
    exact run_extends _ after
  rw [hrun] at hle
  obtain ⟨hctx, hreplaces⟩ :=
    next_receives (hdistinct.of_extends hle) hissued (hpassed before operation after h)
  exact ⟨_, ((run before).extends_next operation).names, hctx, congrArg _ hrun, hreplaces⟩

end TracingContext

/-! ## The C++ context -/

/-- The names of the IR, serialized. -/
structure CcTracingContext where
  nameToIr : BiMap String String

namespace CcTracingContext

/-- `TracingContext::TracingContext`. -/
def empty : CcTracingContext := { nameToIr := .empty }

variable (format : WireFormat Value)

def replaceWithReference (ir : Value) (ctx : CcTracingContext) : Value × CcTracingContext :=
  if ir.hasReference then (ir, ctx)
  else
    let serializedIr := format.serializeAsString ir
    match ctx.nameToIr.findByValue serializedIr with
    | some name => (createReference name, ctx)
    | none =>
        let name := "v_" ++ toString ctx.nameToIr.size
        -- what `Insert` returns is not looked at
        (createReference name, { nameToIr := (ctx.nameToIr.insert name serializedIr).2 })

/-- The loop of `Call` over its arguments. -/
def replaceAll : List Value → CcTracingContext → List Value × CcTracingContext
  | [], ctx => ([], ctx)
  | arg :: args, ctx =>
      let (ref, ctx) := replaceWithReference format arg ctx
      let (refs, ctx) := replaceAll args ctx
      (ref :: refs, ctx)

/-- `Call`. `ToValue` packs the arguments as the Python context does. -/
def call (c : TraceCall) (ctx : CcTracingContext) : StatusOr (Value × CcTracingContext) :=
  if c.args.isEmpty then .error (.invalidArgument "At least one argument is required.")
  else
    let (processedArgs, ctx) := replaceAll format c.args ctx
    let (processedFunc, ctx) := replaceWithReference format c.portableIr ctx
    .ok (createCall processedFunc (TracingContext.inputVal processedArgs), ctx)

/-- The context after a call. The one that fails does so before it replaces anything. -/
def next (ctx : CcTracingContext) (c : TraceCall) : CcTracingContext :=
  match call format c ctx with
  | .ok (_, ctx') => ctx'
  | .error _ => ctx

/-- A new context after a run. -/
def run (calls : List TraceCall) : CcTracingContext := calls.foldl (next format) empty

/-- The call comes back with references for the IR that it is passed. -/
def Replaces (issued : List (String × Value)) (ctx : CcTracingContext) (c : TraceCall) : Prop :=
  c.args ≠ [] → ∃ refs f ctx', call format c ctx = .ok (createCall f (TracingContext.inputVal refs), ctx') ∧
    List.Forall₂ (StandsFor issued) refs c.args ∧ StandsFor issued f c.portableIr

/-- The map has the serialized IR under the names that were issued for it. -/
structure Stores (ctx : CcTracingContext) (issued : List (String × Value)) : Prop where
  inverse : ctx.nameToIr.Inverse
  mem_pairs_iff : ∀ name text, (name, text) ∈ ctx.nameToIr.pairs ↔
    ∃ ir, (name, ir) ∈ issued ∧ format.serializeAsString ir = text
  carries : ∀ item ∈ issued, format.Carries item.2

variable {format} {ctx : CcTracingContext}

theorem Replaces.mono {c : TraceCall} (hle : issued <+: issued') (h : Replaces format issued ctx c) :
    Replaces format issued' ctx c := by
  intro hargs
  obtain ⟨refs, f, ctx', hcall, hrefs, hf⟩ := h hargs
  exact ⟨refs, f, ctx', hcall, hrefs.imp fun _ _ href => href.mono hle, hf.mono hle⟩

theorem stores_empty : empty.Stores format [] where
  inverse := BiMap.empty_inverse
  mem_pairs_iff name text := by simp [empty, BiMap.empty, BiMap.mem_pairs]
  carries := List.forall_mem_nil _

namespace Stores

/-- IR that arrives as it was sent is not the IR of another text. -/
theorem eq_of_serialize {ir' : Value} (hir : format.Carries ir) (hir' : format.Carries ir')
    (h : format.serializeAsString ir = format.serializeAsString ir') : ir = ir' := by
  unfold WireFormat.Carries at hir hir'
  rw [h, hir'] at hir
  exact (Option.some.inj hir).symm

/-- There are as many names in the map as were issued. -/
theorem size_eq (h : ctx.Stores format issued) (hissued : WellOrdered issued) :
    ctx.nameToIr.size = issued.length := by
  have hkeys : ctx.nameToIr.keyToValue.keys = (issued.map Prod.fst).toFinset := by
    ext name
    rw [Finmap.mem_keys, Finmap.mem_iff, List.mem_toFinset, List.mem_map]
    constructor
    · rintro ⟨text, htext⟩
      obtain ⟨ir, hmem, -⟩ := (h.mem_pairs_iff name text).mp htext
      exact ⟨_, hmem, rfl⟩
    · rintro ⟨⟨_, ir⟩, hmem, rfl⟩
      exact ⟨_, (h.mem_pairs_iff _ _).mpr ⟨ir, hmem, rfl⟩⟩
  -- the names were issued in order, so no two are the same
  have hnames : (issued.map Prod.fst).Nodup := by
    rw [List.nodup_iff_injective_getElem]
    have hname : ∀ i : Fin (issued.map Prod.fst).length, (issued.map Prod.fst)[i] = localName i := by
      intro i
      have hi : i < issued.length := by simpa using i.2
      rw [Fin.getElem_fin, List.getElem_map]
      exact (hissued.inOrder i _ _ (List.getElem?_eq_getElem hi)).1
    exact fun i j heq => Fin.ext (localName_injective ((hname i).symm.trans (heq.trans (hname j))))
  rw [BiMap.size, hkeys, List.toFinset_card_of_nodup hnames, List.length_map]

/-- Another name for another text keeps the map in step with the names. -/
theorem insert {m : BiMap String String} (hinsert : (ctx.nameToIr.insert (localName issued.length)
      (format.serializeAsString ir)) = (true, m)) (h : ctx.Stores format issued) (hir : format.Carries ir) :
    Stores format ⟨m⟩ (issued ++ [(localName issued.length, ir)]) := by
  have htrue : (ctx.nameToIr.insert (localName issued.length)
      (format.serializeAsString ir)).1 = true := by rw [hinsert]
  have hm : m = (ctx.nameToIr.insert (localName issued.length) (format.serializeAsString ir)).2 := by
    rw [hinsert]
  refine ⟨hm ▸ BiMap.insert_inverse h.inverse, fun name text => ?_, ?_⟩
  · show (name, text) ∈ m.pairs ↔ _
    rw [hm, BiMap.insert_pairs h.inverse htrue, Set.mem_union, h.mem_pairs_iff]
    simp only [Set.mem_singleton_iff, List.mem_append, List.mem_singleton, Prod.mk.injEq]
    constructor
    · rintro (⟨ir', hmem, htext⟩ | ⟨rfl, rfl⟩)
      · exact ⟨ir', .inl hmem, htext⟩
      · exact ⟨ir, .inr ⟨rfl, rfl⟩, rfl⟩
    · rintro ⟨ir', hmem | ⟨rfl, rfl⟩, htext⟩
      · exact .inl ⟨ir', hmem, htext⟩
      · exact .inr ⟨rfl, htext.symm⟩
  · intro item hitem
    rcases List.mem_append.mp hitem with hitem | hitem
    · exact h.carries item hitem
    · rw [List.mem_singleton.mp hitem]
      exact hir

/-- The next name is not in the map. -/
theorem findByKey_next (h : ctx.Stores format issued) (hissued : WellOrdered issued) :
    ctx.nameToIr.findByKey (localName issued.length) = none := by
  rw [Option.eq_none_iff_forall_not_mem]
  intro text htext
  obtain ⟨ir', hmem, -⟩ := (h.mem_pairs_iff _ _).mp htext
  obtain ⟨k, hk⟩ := List.mem_iff_getElem?.mp hmem
  have hlt := (List.getElem?_eq_some_iff.mp hk).1
  have heq := localName_injective (hissued.inOrder k _ _ hk).1
  exact Nat.ne_of_gt hlt heq

theorem replaceWithReference (h : ctx.Stores format issued) (hissued : WellOrdered issued)
    (hir : format.Carries ir) :
    ∃ ref ctx' issued', CcTracingContext.replaceWithReference format ir ctx = (ref, ctx') ∧
      Receives issued ir ref issued' ∧ ctx'.Stores format issued' := by
  unfold CcTracingContext.replaceWithReference
  by_cases href : ir.hasReference = true
  · rw [if_pos href]
    obtain ⟨m, name, rfl⟩ : ∃ m name, ir = .reference m name := by
      cases ir with
      | reference m name => exact ⟨m, name, rfl⟩
      | _ => cases href
    exact ⟨_, ctx, issued, rfl, .reference, h⟩
  · rw [if_neg href]
    rw [Bool.not_eq_true] at href
    cases hfind : ctx.nameToIr.findByValue (format.serializeAsString ir) with
    | some name =>
        obtain ⟨ir', hmem, htext⟩ := (h.mem_pairs_iff _ _).mp ((h.inverse _ _).mp hfind)
        -- the table has an entry with this text, which only this IR has
        obtain rfl : ir' = ir := eq_of_serialize (h.carries _ hmem) hir htext
        exact ⟨_, ctx, issued, by simp only [hfind], .shared href hmem, h⟩
    | none =>
        have hnew : ∀ item ∈ issued, item.2 ≠ ir := by
          rintro ⟨name, ir'⟩ hitem rfl
          have hpair := (h.mem_pairs_iff _ _).mpr ⟨ir', hitem, rfl⟩
          rw [BiMap.findByValue, (h.inverse _ _).mpr hpair] at hfind
          cases hfind
        -- the size of the table is the number of the next name
        have hname : "v_" ++ toString ctx.nameToIr.size = localName issued.length := by
          rw [h.size_eq hissued]
          rfl
        have hinsert := BiMap.insert_fst.mpr ⟨h.findByKey_next hissued, hfind⟩
        simp only [hfind, hname]
        exact ⟨_, _, _, rfl, .fresh href hnew, h.insert (Prod.ext hinsert rfl) hir⟩

theorem replaceAll (h : ctx.Stores format issued) (hissued : WellOrdered issued)
    (hirs : ∀ ir ∈ irs, format.Carries ir ∧ ir.Within (inScopeOf issued)) :
    ∃ refs ctx' issued', CcTracingContext.replaceAll format irs ctx = (refs, ctx') ∧
      ReceivesAll issued irs refs issued' ∧ ctx'.Stores format issued' := by
  induction irs generalizing ctx issued with
  | nil => exact ⟨[], ctx, issued, rfl, .nil, h⟩
  | cons ir irs ih =>
      obtain ⟨⟨hcarries, hwithin⟩, hirs⟩ := List.forall_mem_cons.mp hirs
      obtain ⟨ref, ctx₁, issued₁, hfirst, hreceives, hstores⟩ := h.replaceWithReference hissued hcarries
      obtain ⟨refs, ctx', issued', hrest, hall, hstores'⟩ := ih hstores (hreceives.wellOrdered hissued hwithin)
        fun ir hir => ⟨(hirs ir hir).1, (hirs ir hir).2.mono hreceives.inScopeOf⟩
      refine ⟨ref :: refs, ctx', issued', ?_, .cons hreceives hall, hstores'⟩
      simp only [CcTracingContext.replaceAll, hfirst, hrest]

/-- A call replaces what it is passed, and keeps the order of the names. -/
theorem next {c : TraceCall} (h : ctx.Stores format issued) (hissued : WellOrdered issued)
    (hcarries : ∀ ir ∈ c.passed, format.Carries ir)
    (hpassed : ∀ ir ∈ c.passed, ir.Within (inScopeOf issued)) :
    ∃ issued', issued <+: issued' ∧ WellOrdered issued' ∧ (ctx.next format c).Stores format issued' ∧
      Replaces format issued' ctx c := by
  by_cases hargs : c.args = []
  · have hnext : ctx.next format c = ctx := by
      rw [CcTracingContext.next, call, hargs]
      rfl
    rw [hnext]
    exact ⟨issued, List.prefix_rfl, hissued, h, fun hne => absurd hargs hne⟩
  · obtain ⟨hcarriesIr, hcarriesArgs⟩ := List.forall_mem_cons.mp hcarries
    obtain ⟨hir, hirs⟩ := List.forall_mem_cons.mp hpassed
    obtain ⟨refs, ctx₁, issued₁, hargs', hall, hstores₁⟩ :=
      h.replaceAll hissued fun ir hmem => ⟨hcarriesArgs ir hmem, hirs ir hmem⟩
    have hissued₁ := (hall.wellOrdered hissued hirs).1
    obtain ⟨f, ctx', issued', hfunc', hfunc, hstores'⟩ := hstores₁.replaceWithReference hissued₁ hcarriesIr
    have hcall : call format c ctx = .ok (createCall f (TracingContext.inputVal refs), ctx') := by
      rw [call, if_neg (by simpa using hargs)]
      simp only [hargs', hfunc']
    have hnext : ctx.next format c = ctx' := by rw [CcTracingContext.next, hcall]
    rw [hnext]
    refine ⟨issued', hall.isPrefix.trans hfunc.isPrefix, ?_, hstores', fun _ => ⟨refs, f, ctx', hcall,
      hall.standsFor.imp fun _ _ h => h.mono hfunc.isPrefix, hfunc.standsFor⟩⟩
    exact hfunc.wellOrdered hissued₁ (hir.mono (visible_mono hall.isPrefix.length_le))

end Stores

theorem run_namesInOrder {calls : List TraceCall}
    (hcarries : ∀ c ∈ calls, ∀ ir ∈ c.passed, format.Carries ir)
    (hpassed : RefersBack (run format) (fun ctx => ctx.nameToIr.size) TraceCall.passed calls) :
    NamesInOrder (run format) (Stores format) (Replaces format) calls := by
  apply namesInOrder_of_step
  case hnil => exact stores_empty
  case hmono => exact Replaces.mono
  intro before c after h issued hissued hstores
  have hrun : run format (before ++ [c]) = (run format before).next format c :=
    List.foldl_concat ..
  have hc : c ∈ calls := by
    rw [h]
    simp
  rw [hrun]
  refine hstores.next hissued (hcarries c hc) fun ir hir => ?_
  have hwithin : ir.Within (visible localName {"arg"} (run format before).nameToIr.size) :=
    hpassed before c after h ir hir
  rwa [hstores.size_eq hissued] at hwithin

end CcTracingContext

/-- **A well-ordered naming**, by both contexts: for runs whose IR refers to `arg` and to names issued
before, where the text of IR, and its bytes, are those of no other IR. -/
theorem names_in_order [PythonText] (format : WireFormat Value) :
    (∀ calls : List TraceCall, (∀ c ∈ calls, ∀ ir ∈ c.passed, format.Carries ir) →
      RefersBack (CcTracingContext.run format) (fun ctx => ctx.nameToIr.size) TraceCall.passed calls →
        NamesInOrder (CcTracingContext.run format) (CcTracingContext.Stores format)
          (CcTracingContext.Replaces format) calls) ∧
    ∀ operations : List TraceOperation, (TracingContext.run operations).Distinct →
      RefersBack TracingContext.run (fun ctx => ctx.nameToIr.length) TraceOperation.passed operations →
        NamesInOrder TracingContext.run (fun ctx issued => ctx.nameToIr = issued)
          TracingContext.Replaces operations :=
  ⟨fun _ => CcTracingContext.run_namesInOrder, fun _ => TracingContext.run_namesInOrder⟩

/-! ### The call of an intrinsic on the argument -/

/-- The bytes of a reference and of an intrinsic: two fields of a number, a length and a text. -/
def sampleFormat : WireFormat Value where
  serializeAsString
    | .reference _ name => field 'J' (field '\n' name)
    | .intrinsic _ uri none => field 'b' (field '\n' uri)
    | _ => ""
  parseFromString text :=
    match text.toList with
    | 'J' :: _ :: _ :: _ :: name => some (createReference (.ofList name))
    | 'b' :: _ :: _ :: _ :: uri => some (.intrinsic {} (.ofList uri) none)
    | _ => none
where
  field (tag : Char) (text : String) : String := .ofList (tag :: .ofNat text.length :: text.toList)

/-- The texts of an intrinsic and of a call of a reference. -/
@[reducible] def PythonText.ofIntrinsic : PythonText where
  str
    | .intrinsic _ uri _ => "intrinsic \x7b\n  uri: \"" ++ uri ++ "\"\n\x7d\n"
    | .call _ (.reference _ f) (some (.reference _ arg)) =>
        "call \x7b\n  function \x7b\n    reference \x7b\n      name: \"" ++ f ++
        "\"\n    \x7d\n  \x7d\n  argument \x7b\n    reference \x7b\n      name: \"" ++ arg ++
        "\"\n    \x7d\n  \x7d\n\x7d\n"
    | _ => ""

/-- `logical_not(arg)`. -/
def notArg : TraceCall := { portableIr := .intrinsic {} "logical_not" none, args := [createReference "arg"] }

theorem notArg_within {n : Nat} : ∀ ir ∈ notArg.passed, ir.Within (visible localName {"arg"} n) := by
  intro ir hir
  rcases List.mem_cons.mp hir with rfl | hir
  · exact .intrinsic fun v hv => nomatch hv
  · rw [List.mem_singleton.mp hir]
    exact .reference (.inl rfl)

section

attribute [local instance] PythonText.ofIntrinsic

theorem names_in_order_notArg :
    NamesInOrder (CcTracingContext.run sampleFormat) (CcTracingContext.Stores sampleFormat)
      (CcTracingContext.Replaces sampleFormat) [notArg] ∧
    NamesInOrder TracingContext.run (fun ctx issued => ctx.nameToIr = issued)
      TracingContext.Replaces [.call notArg, .embed (createReference "v_1")] := by
  constructor
  · refine (names_in_order sampleFormat).1 [notArg] ?_ ?_
    · intro c hc ir hir
      rw [List.mem_singleton.mp hc] at hir
      rcases List.mem_cons.mp hir with rfl | hir
      · rfl
      · rw [List.mem_singleton.mp hir]
        rfl
    · intro before c after h
      obtain ⟨rfl, heq⟩ | ⟨_, rfl, hrest⟩ := List.cons_eq_append_iff.mp h
      · cases heq
        exact notArg_within
      · simp at hrest
  · refine (names_in_order sampleFormat).2 [.call notArg, .embed (createReference "v_1")] ?_ ?_
    · have hlooked : (TracingContext.run [.call notArg, .embed (createReference "v_1")]).looked =
          [notArg.portableIr, createCall (createReference "v_0") (createReference "arg")] := rfl
      have hne : str notArg.portableIr ≠ str (createCall (createReference "v_0") (createReference "arg")) := by
        decide
      rw [TracingContext.Distinct, hlooked]
      intro ir hir ir' hir' heq
      simp only [List.mem_cons, List.not_mem_nil, or_false, Set.mem_ofPred_eq] at hir hir'
      rcases hir with rfl | rfl <;> rcases hir' with rfl | rfl
      · rfl
      · exact absurd heq hne
      · exact absurd heq.symm hne
      · rfl
    · intro before operation after h
      obtain ⟨rfl, heq⟩ | ⟨before, rfl, hrest⟩ := List.cons_eq_append_iff.mp h
      · cases heq
        exact notArg_within
      · obtain ⟨rfl, heq⟩ | ⟨_, rfl, hrest⟩ := List.cons_eq_append_iff.mp hrest
        · cases heq
          intro ir hir
          rw [List.mem_singleton.mp hir]
          -- two names are issued before
          exact .reference (.inr ⟨1, Nat.one_lt_two, rfl⟩)
        · simp at hrest

end

end GenC
