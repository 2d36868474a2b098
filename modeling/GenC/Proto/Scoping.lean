import Mathlib.Data.Set.Insert
import Mathlib.Data.Set.Lattice
import GenC.Proto.Value

/-!
# Free names of IR

`Value.Within B v` says that every name that occurs free in `v` is in `B`: the parameter of a lambda is
bound in its result, and a local of a block in the locals after it and in the result of the block.
`Value.freeNames` lists the names that `B` has to hold (`within_iff`).
-/

namespace GenC

namespace Value

inductive Within : Set String → Value → Prop where
  | notSet {B : Set String} {m : Meta} : Within B (.notSet m)
  | scalar {B : Set String} {m : Meta} {c : Scalar} : Within B (.scalar m c)
  | call {B : Set String} {m : Meta} {function : Value} {argument : Option Value}
      (hf : Within B function) (ha : ∀ a ∈ argument, Within B a) : Within B (.call m function argument)
  | lambda {B : Set String} {m : Meta} {parameterName : String} {result : Value}
      (h : Within (insert parameterName B) result) : Within B (.lambda m parameterName result)
  | reference {B : Set String} {m : Meta} {name : String} (h : name ∈ B) :
      Within B (.reference m name)
  | struct {B : Set String} {m : Meta} {element : List Value} (h : ∀ e ∈ element, Within B e) :
      Within B (.struct m element)
  | selection {B : Set String} {m : Meta} {source : Value} {index : Int32} (h : Within B source) :
      Within B (.selection m source index)
  | block_nil {B : Set String} {m : Meta} {result : Value} (h : Within B result) :
      Within B (.block m [] result)
  | block_cons {B : Set String} {m : Meta} {name : String} {localPb result : Value}
      {locals : List (String × Value)} (hlocal : Within B localPb)
      (h : Within (insert name B) (.block m locals result)) :
      Within B (.block m ((name, localPb) :: locals) result)
  | intrinsic {B : Set String} {m : Meta} {uri : String} {staticParameter : Option Value}
      (h : ∀ v ∈ staticParameter, Within B v) : Within B (.intrinsic m uri staticParameter)

theorem Within.mono {B B' : Set String} {v : Value} (h : v.Within B) (hB : B ⊆ B') : v.Within B' := by
  induction h generalizing B' with
  | notSet => exact .notSet
  | scalar => exact .scalar
  | call _ _ ihf iha => exact .call (ihf hB) fun a ha => iha a ha hB
  | lambda _ ih => exact .lambda (ih (Set.insert_subset_insert hB))
  | reference h => exact .reference (hB h)
  | struct _ ih => exact .struct fun e he => ih e he hB
  | selection _ ih => exact .selection (ih hB)
  | block_nil _ ih => exact .block_nil (ih hB)
  | block_cons _ _ ihlocal ih => exact .block_cons (ihlocal hB) (ih (Set.insert_subset_insert hB))
  | intrinsic _ ih => exact .intrinsic fun v hv => ih v hv hB

theorem within_reference_iff {B : Set String} {m : Meta} {name : String} :
    (Value.reference m name).Within B ↔ name ∈ B := by
  constructor
  · rintro (_ | h)
    assumption
  · exact .reference

/-- Two bounds on the names that are free. -/
theorem Within.inter {B B' : Set String} {v : Value} (h : v.Within B) (h' : v.Within B') : v.Within (B ∩ B') := by
  induction h generalizing B' with
  | notSet => exact .notSet
  | scalar => exact .scalar
  | call _ _ ihf iha =>
      cases h' with
      | call hf ha => exact .call (ihf hf) fun a h => iha a h (ha a h)
  | lambda _ ih =>
      cases h' with
      | lambda h' =>
          refine .lambda ?_
          rw [Set.insert_inter_distrib]
          exact ih h'
  | reference h => exact .reference ⟨h, within_reference_iff.mp h'⟩
  | struct _ ih =>
      cases h' with
      | struct h' => exact .struct fun e he => ih e he (h' e he)
  | selection _ ih =>
      cases h' with
      | selection h' => exact .selection (ih h')
  | block_nil _ ih =>
      cases h' with
      | block_nil h' => exact .block_nil (ih h')
  | block_cons _ _ ihlocal ih =>
      cases h' with
      | block_cons hlocal h' =>
          refine .block_cons (ihlocal hlocal) ?_
          rw [Set.insert_inter_distrib]
          exact ih h'
  | intrinsic _ ih =>
      cases h' with
      | intrinsic h' => exact .intrinsic fun v hv => ih v hv (h' v hv)

/-- A block whose locals are within the names before them. -/
theorem within_block {B : Set String} {m : Meta} {locals : List (String × Value)} {result : Value}
    (hlocals : ∀ (k : Nat) (x : String) (e : Value), locals[k]? = some (x, e) →
      e.Within (B ∪ {y | y ∈ (locals.take k).map Prod.fst}))
    (hresult : result.Within (B ∪ {y | y ∈ locals.map Prod.fst})) :
    (Value.block m locals result).Within B := by
  induction locals generalizing B with
  | nil => exact .block_nil (hresult.mono (by simp))
  | cons d locals ih =>
      obtain ⟨x, e⟩ := d
      have hinsert : ∀ S : List String, B ∪ {y | y ∈ x :: S} = insert x B ∪ {y | y ∈ S} := by
        intro S
        ext y
        simp only [List.mem_cons, Set.mem_union, Set.mem_ofPred_eq, Set.mem_insert_iff]
        tauto
      refine .block_cons ((hlocals 0 x e rfl).mono (by simp)) (ih (fun k y e' hk => ?_) ?_)
      · rw [← hinsert]
        exact hlocals (k + 1) y e' hk
      · rw [← hinsert]
        exact hresult

/-- What is in a block is within its names and those of its locals. -/
theorem Within.of_block {B : Set String} {m : Meta} {locals : List (String × Value)} {result : Value}
    (h : (Value.block m locals result).Within B) :
    (∀ d ∈ locals, d.2.Within (B ∪ {y | y ∈ locals.map Prod.fst})) ∧
      result.Within (B ∪ {y | y ∈ locals.map Prod.fst}) := by
  induction locals generalizing B with
  | nil =>
      cases h with
      | block_nil h => exact ⟨List.forall_mem_nil _, h.mono Set.subset_union_left⟩
  | cons d locals ih =>
      cases h with
      | @block_cons _ _ x e _ _ hlocal h =>
          have hsub : insert x B ∪ {y | y ∈ locals.map Prod.fst} ⊆
              B ∪ {y | y ∈ ((x, e) :: locals).map Prod.fst} := by
            intro y hy
            simp only [Set.mem_union, Set.mem_insert_iff, Set.mem_ofPred_eq, List.map_cons,
              List.mem_cons] at hy ⊢
            tauto
          obtain ⟨hlocals, hresult⟩ := ih h
          refine ⟨List.forall_mem_cons.mpr ⟨hlocal.mono Set.subset_union_left, fun d hd => ?_⟩,
            hresult.mono hsub⟩
          exact (hlocals d hd).mono hsub

/-! ## Listing them -/

mutual

/-- The names that occur free. -/
def freeNames : Value → List String
  | .notSet _ | .scalar _ _ => []
  | .call _ function argument => function.freeNames ++ freeNamesOption argument
  | .lambda _ parameterName result => result.freeNames.filter (· ≠ parameterName)
  | .reference _ name => [name]
  | .struct _ element => freeNamesAll element
  | .selection _ source _ => source.freeNames
  | .block _ locals result => freeNamesLocals result.freeNames locals
  | .intrinsic _ _ staticParameter => freeNamesOption staticParameter

def freeNamesOption : Option Value → List String
  | none => []
  | some v => v.freeNames

def freeNamesAll : List Value → List String
  | [] => []
  | v :: vs => v.freeNames ++ freeNamesAll vs

/-- The names that are free in locals, and in what is in their scope. -/
def freeNamesLocals (inScope : List String) : List (String × Value) → List String
  | [] => inScope
  | (name, localPb) :: locals => localPb.freeNames ++ (freeNamesLocals inScope locals).filter (· ≠ name)

end

theorem mem_insert_of_filter {B : Set String} {name : String} {l : List String}
    (h : ∀ x ∈ l.filter (· ≠ name), x ∈ B) : ∀ x ∈ l, x ∈ insert name B := by
  intro x hx
  by_cases hne : x = name
  · exact .inl hne
  · exact .inr (h x (List.mem_filter.mpr ⟨hx, decide_eq_true hne⟩))

mutual

/-- What is free is all that a bound has to hold. -/
theorem within_of_freeNames : ∀ {v : Value} {B : Set String}, (∀ x ∈ v.freeNames, x ∈ B) → v.Within B
  | .notSet _, _, _ => .notSet
  | .scalar _ _, _, _ => .scalar
  | .call _ _ _, _, h => by
      obtain ⟨hf, ha⟩ := List.forall_mem_append.mp h
      exact .call (within_of_freeNames hf) (within_of_freeNamesOption ha)
  | .lambda _ _ _, _, h => .lambda (within_of_freeNames (mem_insert_of_filter h))
  | .reference _ _, _, h => .reference (List.forall_mem_singleton.mp h)
  | .struct _ _, _, h => .struct (within_of_freeNamesAll h)
  | .selection _ _ _, _, h => .selection (within_of_freeNames h)
  | .block _ _ _, _, h => within_of_freeNamesLocals (fun h => within_of_freeNames h) h
  | .intrinsic _ _ _, _, h => .intrinsic (within_of_freeNamesOption h)

theorem within_of_freeNamesOption : ∀ {a : Option Value} {B : Set String},
    (∀ x ∈ freeNamesOption a, x ∈ B) → ∀ v ∈ a, v.Within B
  | none, _, _ => fun _ h => absurd h (Option.not_mem_none _)
  | some _, _, h => fun _ hv => Option.some.inj hv ▸ within_of_freeNames h

theorem within_of_freeNamesAll : ∀ {es : List Value} {B : Set String},
    (∀ x ∈ freeNamesAll es, x ∈ B) → ∀ e ∈ es, e.Within B
  | [], _, _ => List.forall_mem_nil _
  | _ :: _, _, h => by
      obtain ⟨he, hes⟩ := List.forall_mem_append.mp h
      exact List.forall_mem_cons.mpr ⟨within_of_freeNames he, within_of_freeNamesAll hes⟩

theorem within_of_freeNamesLocals {m : Meta} {result : Value}
    (hresult : ∀ {B : Set String}, (∀ x ∈ result.freeNames, x ∈ B) → result.Within B) :
    ∀ {locals : List (String × Value)} {B : Set String},
      (∀ x ∈ freeNamesLocals result.freeNames locals, x ∈ B) → (Value.block m locals result).Within B
  | [], _, h => .block_nil (hresult h)
  | (_, _) :: _, _, h => by
      obtain ⟨hlocal, h⟩ := List.forall_mem_append.mp h
      exact .block_cons (within_of_freeNames hlocal)
        (within_of_freeNamesLocals hresult (mem_insert_of_filter h))

end

theorem Within.mem {B : Set String} {v : Value} (h : v.Within B) : ∀ x ∈ v.freeNames, x ∈ B := by
  -- the names of lists, of options and under a binder
  have hall : ∀ {B : Set String} {es : List Value}, (∀ e ∈ es, ∀ x ∈ e.freeNames, x ∈ B) →
      ∀ x ∈ freeNamesAll es, x ∈ B := by
    intro B es h
    induction es with
    | nil => exact List.forall_mem_nil _
    | cons e es ih =>
        obtain ⟨he, hes⟩ := List.forall_mem_cons.mp h
        exact List.forall_mem_append.mpr ⟨he, ih hes⟩
  have hoption : ∀ {B : Set String} {a : Option Value}, (∀ v ∈ a, ∀ x ∈ v.freeNames, x ∈ B) →
      ∀ x ∈ freeNamesOption a, x ∈ B := by
    intro B a h
    cases a with
    | none => exact List.forall_mem_nil _
    | some a => exact h a rfl
  have hbound : ∀ {B : Set String} {name : String} {l : List String}, (∀ x ∈ l, x ∈ insert name B) →
      ∀ x ∈ l.filter (· ≠ name), x ∈ B := by
    intro B name l h x hx
    obtain ⟨hx, hne⟩ := List.mem_filter.mp hx
    exact (h x hx).resolve_left (of_decide_eq_true hne)
  -- and then each kind of node puts them together
  induction h with
  | notSet => exact List.forall_mem_nil _
  | scalar => exact List.forall_mem_nil _
  | call _ _ ihf iha => exact List.forall_mem_append.mpr ⟨ihf, hoption iha⟩
  | lambda _ ih => exact hbound ih
  | reference h => exact List.forall_mem_singleton.mpr h
  | struct _ ih => exact hall ih
  | selection _ ih => exact ih
  | block_nil _ ih => exact ih
  | block_cons _ _ ihlocal ih => exact List.forall_mem_append.mpr ⟨ihlocal, hbound ih⟩
  | intrinsic _ ih => exact hoption ih


/-- A bound on the free names has to hold just those that are listed. -/
theorem within_iff {v : Value} {B : Set String} : v.Within B ↔ ∀ x ∈ v.freeNames, x ∈ B :=
  ⟨Within.mem, within_of_freeNames⟩

/-- The parameter of a lambda is not free in it. -/
example : (Value.lambda {} "x" (.call {} (.reference {} "x") (some (.reference {} "y")))).freeNames = ["y"] :=
  rfl

end Value

end GenC
