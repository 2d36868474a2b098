import GenC.Lib.Behavior
import GenC.Runtime.DataFunctions

/-!
# Data, without handles

A value of the control-flow executor that holds data is a tree over handles of the child. What it stands for
is the tree with the contents of the handles in their place: a `Datum`. It says more than the value that it
materializes to (`Datum.outcome`), for a tree can be taken apart where its leaves have failed.
-/

namespace GenC

open Lib

/-- What a program means, apart from the executors that run it. -/
abbrev Meaning (α : Type) : Type := Behavior Event Crash Status α

/-- Data of the control-flow executor: what the child holds, or a structure. -/
inductive Datum where
  | leaf (contents : StatusOr Value)
  | node (elements : List Datum)

instance : Inhabited Datum := ⟨.node []⟩

namespace Datum

mutual

/-- What it materializes to. -/
def outcome : Datum → StatusOr Value
  | .leaf r => r
  | .node ds => InlineExecutor.structTask (outcomes ds)

def outcomes : List Datum → List (StatusOr Value)
  | [] => []
  | d :: ds => d.outcome :: outcomes ds

end

theorem outcomes_eq_map (ds : List Datum) : outcomes ds = ds.map outcome := by
  induction ds with
  | nil => rfl
  | cons d ds ih => rw [outcomes, List.map_cons, ih]

mutual

/-- Data that was created: structs are taken apart. -/
def ofValue : Value → Datum
  | .struct _ es => .node (ofValues es)
  | v => .leaf (.ok v)

def ofValues : List Value → List Datum
  | [] => []
  | e :: es => ofValue e :: ofValues es

end

theorem ofValues_eq_map (es : List Value) : ofValues es = es.map ofValue := by
  induction es with
  | nil => rfl
  | cons e es ih => rw [ofValues, List.map_cons, ih]

theorem ofValue_scalar (m : Meta) (c : Scalar) : ofValue (.scalar m c) = .leaf (.ok (.scalar m c)) := by
  rw [ofValue]
  exact fun _ _ h => by cases h

theorem ofValue_struct (m : Meta) (es : List Value) : ofValue (.struct m es) = .node (es.map ofValue) := by
  rw [ofValue, ofValues_eq_map]

def debugString : Datum → String
  | .leaf _ => "V"
  | .node _ => "<V>"

/-- A literal with another label. -/
def relabel (label : String) : Datum → Datum
  | .leaf (.ok v) => .leaf (.ok (v.setLabel label))
  | d => d

/-- An element: at once of a structure, and in the child of anything else. -/
def select [ProtoText] (d : Datum) (index : UInt32) : Meaning Datum :=
  match d with
  | .leaf r => pure (.leaf (InlineExecutor.createSelection r index))
  | .node ds =>
      match ds[index.toNat]? with
      | some d => pure d
      | none => .throw (.notFound ("Failed to create selection for index [" ++ toString index ++
          "] on structure with length [" ++ toString ds.length ++ "]"))

/-! ## Plain data -/

/-- Whatever did not fail is materialized data. -/
inductive Plain : Datum → Prop where
  | leaf {r : StatusOr Value} (h : ∀ w, r = .ok w → w.Materialized) : Plain (.leaf r)
  | node {ds : List Datum} (h : ∀ d ∈ ds, Plain d) : Plain (.node ds)

namespace Plain

theorem error (e : Status) : Plain (.leaf (.error e)) := .leaf fun _ h => by cases h

theorem ok {w : Value} (h : w.Materialized) : Plain (.leaf (.ok w)) := .leaf fun _ hw => by cases hw; exact h

theorem elements {ds : List Datum} (h : Plain (.node ds)) : ∀ d ∈ ds, d.Plain := by
  cases h with
  | node h => exact h

theorem outcome {d : Datum} (h : d.Plain) : ∀ {w : Value}, d.outcome = .ok w → w.Materialized := by
  induction h with
  | leaf h => exact h _
  | @node ds _ ih =>
      intro w hw
      rw [Datum.outcome, outcomes_eq_map] at hw
      obtain ⟨vs, hvs, rfl⟩ := InlineExecutor.structTask_eq_ok_iff.mp hw
      refine .struct fun v hv => ?_
      obtain ⟨d, hd, hdv⟩ := List.mem_map.mp (hvs ▸ List.mem_map_of_mem hv : Except.ok v ∈ ds.map Datum.outcome)
      exact ih d hd hdv

theorem ofValue {w : Value} (hw : w.Materialized) : (Datum.ofValue w).Plain := by
  induction hw with
  | scalar => rw [ofValue_scalar]; exact .ok .scalar
  | @struct m es _ ih =>
      rw [ofValue_struct]
      refine .node fun d hd => ?_
      obtain ⟨e, he, rfl⟩ := List.mem_map.mp hd
      exact ih e he

end Plain

end Datum

/-! ## Reading a value -/

namespace ExecutorValue

/-- The value is the tree, with handles for its leaves. Functions are not data. -/
inductive Reads (s : InlineState) : ExecutorValue → Datum → Prop where
  | leaf {id : ValueId} {r : StatusOr Value} (h : s.table.trackedValues id = some r)
      (hr : ∀ w, r = .ok w → w.Materialized) : Reads s (.embedded id) (.leaf r)
  | node {vs : List ExecutorValue} {ds : List Datum} (hlength : vs.length = ds.length)
      (h : ∀ p ∈ vs.zip ds, Reads s p.1 p.2) : Reads s (.struct vs) (.node ds)

namespace Reads

variable {s s' : InlineState} {v : ExecutorValue} {vs : List ExecutorValue} {d : Datum} {ds : List Datum}

theorem struct_iff : Reads s (.struct vs) (.node ds) ↔ List.Forall₂ (Reads s) vs ds := by
  rw [List.forall₂_iff_zip]
  constructor
  · intro h
    cases h with
    | node hlength h => exact ⟨hlength, fun hp => h _ hp⟩
  · exact fun h => .node h.1 fun _ hp => h.2 hp

theorem of_le (hs : s ≤ s') (h : Reads s v d) : Reads s' v d := by
  induction h with
  | leaf h hr => exact .leaf (BaseState.Frame.tracked hs h) hr
  | node hlength _ ih => exact .node hlength ih

theorem alive (h : Reads s v d) : v.Alive s := by
  induction h with
  | leaf h => exact .embedded h
  | node hlength _ ih =>
      refine .struct fun v hv => ?_
      obtain ⟨d, hd⟩ := exists_mem_zip hlength.le hv
      exact ih _ hd

theorem plain (h : Reads s v d) : d.Plain := by
  induction h with
  | leaf _ hr => exact .leaf hr
  | @node vs ds hlength _ ih =>
      refine .node fun d hd => ?_
      obtain ⟨v, hv⟩ := exists_mem_zip hlength.ge hd
      exact ih (v, d) (by simpa using mem_zip_swap hv)

/-- What a value materializes to, is what the tree says. -/
theorem contents (h : Reads s v d) : v.contents s = some d.outcome := by
  induction h with
  | leaf h => exact h
  | @node vs ds hlength _ ih =>
      rw [ExecutorValue.contents, Datum.outcome, Datum.outcomes_eq_map]
      refine congrArg (Option.map _) (contentsAll_eq_some_iff.mpr ?_)
      exact List.forall₂_map_right_iff.mpr (List.forall₂_iff_zip.mpr ⟨hlength, fun hp => ih _ hp⟩)

theorem debugString (h : Reads s v d) : v.debugString = d.debugString := by
  cases h <;> rfl

theorem ok {id : ValueId} {w : Value} (h : s.table.trackedValues id = some (.ok w)) (hw : w.Materialized) :
    Reads s (.embedded id) (.leaf (.ok w)) :=
  .leaf h fun _ h' => by cases h'; exact hw

end Reads

end ExecutorValue

/-! ## Environments -/

/-- The data that the names of a scope are bound to. -/
abbrev Env : Type := List (String × Datum)

namespace Env

def resolve (name : String) : Env → StatusOr Datum
  | [] => .error (.notFound ("Could not find reference [" ++ name ++ "]"))
  | (bound, d) :: parent => if bound = name then .ok d else resolve name parent

def debugString : Env → String
  | [] => "[]"
  | (name, d) :: parent => debugString parent ++ "->" ++ "[" ++ name ++ "=" ++ d.debugString ++ "]"

end Env

/-- A scope whose names are bound to data. -/
def Scope.Reads (s : InlineState) : Scope → Env → Prop :=
  List.Forall₂ fun b d => b.1 = d.1 ∧ b.2.Reads s d.2

namespace Scope.Reads

variable {s s' : InlineState} {scope : Scope} {ρ : Env} {v : ExecutorValue} {d : Datum}

theorem of_le (hs : s ≤ s') (h : scope.Reads s ρ) : scope.Reads s' ρ := h.imp fun _ _ h => ⟨h.1, h.2.of_le hs⟩

theorem cons (h : scope.Reads s ρ) (name : String) (hv : v.Reads s d) :
    Scope.Reads s ((name, v) :: scope) ((name, d) :: ρ) :=
  List.Forall₂.cons ⟨rfl, hv⟩ h

theorem resolve (h : scope.Reads s ρ) (name : String) :
    Except.Related Eq (fun v d => v.Reads s d) (scope.resolve name) (Env.resolve name ρ) := by
  induction h with
  | nil => rfl
  | @cons b d _ _ h _ ih =>
      obtain ⟨bound, v⟩ := b
      obtain ⟨bound', d⟩ := d
      obtain ⟨rfl, hv⟩ := h
      rw [Scope.resolve, Env.resolve]
      split
      · exact hv
      · exact ih

theorem debugString (h : scope.Reads s ρ) : scope.debugString = Env.debugString ρ := by
  induction h with
  | nil => rfl
  | @cons b d _ _ h _ ih =>
      obtain ⟨bound, v⟩ := b
      obtain ⟨bound', d⟩ := d
      obtain ⟨rfl, hv⟩ := h
      rw [Scope.debugString, Env.debugString, ih, hv.debugString]

end Scope.Reads

end GenC
