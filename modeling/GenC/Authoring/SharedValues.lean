import GenC.Authoring.ToFromValueProto
import GenC.Lib.Cells

/-!
# Shared values

`to_value_proto` once more, with the identity of the messages that it is given: a `pb.Value`, or the IR of a
computation, is handed on as it is, and labelled where it is the value of a key in a dictionary.

**`leavesUnchanged_iff`**: the messages are as they were, exactly when each of them has the last key that it is
given as its label already.

**`convert_eq`**: where all keys are there already, `PyArg.toValueProto` is what is computed.
-/

namespace GenC

open Lib

/-! ## Messages -/

namespace Value

/-- The values in a value. -/
def parts : Value → List Value
  | .call _ function argument => function :: argument.toList
  | .lambda _ _ result => [result]
  | .struct _ element => element
  | .selection _ source _ => [source]
  | .block _ locals result => result :: locals.map Prod.snd
  | .intrinsic _ _ staticParameter => staticParameter.toList
  | _ => []

/-- The same value with other values in it, as many as there were. -/
def withParts (us : List Value) : Value → Value
  | .call m function argument => .call m (us.headD function) (argument.map (us.getD 1))
  | .lambda m parameterName result => .lambda m parameterName (us.headD result)
  | .struct m _ => .struct m us
  | .selection m source index => .selection m (us.headD source) index
  | .block m locals result => .block m ((locals.map Prod.fst).zip us.tail) (us.headD result)
  | .intrinsic m uri staticParameter => .intrinsic m uri (staticParameter.map us.headD)
  | v => v

theorem lawfulParts : Cell.LawfulParts parts withParts where
  parts_withParts := by
    intro us v h
    cases v with
    | call m function argument =>
        cases argument with
        | none =>
            obtain ⟨function', rfl⟩ := List.length_eq_one_iff.mp h
            rfl
        | some argument =>
            obtain ⟨function', argument', rfl⟩ := List.length_eq_two.mp h
            rfl
    | lambda | selection =>
        obtain ⟨u, rfl⟩ := List.length_eq_one_iff.mp h
        rfl
    | struct => rfl
    | block m locals result =>
        cases us with
        | nil => cases h
        | cons result' values =>
            -- a block has its result first and then one part for each local
            have hlength : values.length ≤ (locals.map Prod.fst).length := by
              simp only [parts, List.length_cons, List.length_map, Nat.add_right_cancel_iff] at h ⊢
              exact h.le
            exact congrArg (result' :: ·) (List.map_snd_zip hlength)
    | intrinsic m uri staticParameter =>
        cases staticParameter with
        | none => exact (List.length_eq_zero_iff.mp h).symm
        | some staticParameter =>
            obtain ⟨u, rfl⟩ := List.length_eq_one_iff.mp h
            rfl
    | notSet | scalar | reference => exact (List.length_eq_zero_iff.mp h).symm
  withParts_parts v := by
    cases v with
    | call m function argument => cases argument <;> rfl
    | intrinsic m uri staticParameter => cases staticParameter <;> rfl
    | block m locals result =>
        have hlocals : (locals.map Prod.fst).zip (locals.map Prod.snd) = locals :=
          (List.zip_of_prod rfl rfl).symm
        exact congrArg (Value.block m · result) hlocals
    | notSet | scalar | lambda | reference | struct | selection => rfl
  withParts_withParts := by
    intro us us' v h h'
    cases v with
    | call m function argument =>
        cases argument with
        | none =>
            obtain ⟨function', rfl⟩ := List.length_eq_one_iff.mp h'
            rfl
        | some argument =>
            obtain ⟨function', argument', rfl⟩ := List.length_eq_two.mp h'
            rfl
    | lambda | selection =>
        obtain ⟨u, rfl⟩ := List.length_eq_one_iff.mp h'
        rfl
    | block m locals result =>
        cases us with
        | nil => cases h
        | cons result₁ values =>
            have hlength : (locals.map Prod.fst).length ≤ values.length := by
              simp only [parts, List.length_cons, List.length_map, Nat.add_right_cancel_iff] at h ⊢
              exact h.ge
            cases us' with
            | nil => cases h'
            | cons result' values' =>
                -- the names of the locals stay when their values are replaced
                have hnames := List.map_fst_zip hlength
                exact congrArg (fun names => Value.block m (names.zip values') result') hnames
    | intrinsic m uri staticParameter =>
        cases staticParameter with
        | none => rfl
        | some staticParameter =>
            obtain ⟨u, rfl⟩ := List.length_eq_one_iff.mp h'
            rfl
    | notSet | scalar | reference | struct => rfl

theorem parts_setLabel (label : String) (v : Value) : (v.setLabel label).parts = v.parts := by cases v <;> rfl

theorem withParts_setLabel (us : List Value) (label : String) (v : Value) :
    (v.setLabel label).withParts us = (v.withParts us).setLabel label := by cases v <;> rfl

theorem label_withParts (us : List Value) (v : Value) : (v.withParts us).label = v.label := by cases v <;> rfl

theorem label_setLabel (label : String) (v : Value) : (v.setLabel label).label = label := by cases v <;> rfl

theorem setLabel_label (v : Value) : v.setLabel v.label = v := by cases v <;> rfl

theorem setLabel_setLabel (label label' : String) (v : Value) :
    (v.setLabel label).setLabel label' = v.setLabel label' := by cases v <;> rfl

/-! ### Cells -/

def labelCell : Cell Value String where
  get v := some v.label
  set := setLabel

def partCell : Nat → Cell Value Value := Cell.part parts withParts

theorem labelCell_lawful : labelCell.Lawful where
  get_set label _ := congrArg some (label_setLabel label _)
  set_get := by
    intro v label h
    obtain rfl := Option.some.inj h
    exact setLabel_label v
  set_set v label label' := setLabel_setLabel label label' v

theorem labelCell_apart (i : Nat) : labelCell.Apart (partCell i) where
  get_left v u := congrArg some (label_withParts _ v)
  get_right v label := congrArg (·[i]?) (parts_setLabel label v)
  set_comm v label u := by
    show (v.withParts (v.parts.set i u)).setLabel label =
      (v.setLabel label).withParts ((v.setLabel label).parts.set i u)
    rw [parts_setLabel, withParts_setLabel]

end Value

/-- A message of the process. One that is in another is found there by the path to it. -/
structure Ref where
  message : Nat
  path : List Nat
  deriving Repr, DecidableEq

/-- The messages of the process that are not in other ones. -/
abbrev Heap : Type := Nat → Value

namespace Heap

def messageCell (ref : Ref) : Cell Heap Value :=
  (Cell.entry ref.message).comp (Cell.node Cell.whole Value.partCell ref.path)

def labelCell (ref : Ref) : Cell Heap String :=
  (Cell.entry ref.message).comp (Cell.node Value.labelCell Value.partCell ref.path)

/-- What the message is at the moment. -/
def read (heap : Heap) (ref : Ref) : Option Value := (messageCell ref).get heap

/-- `element.label = label` -/
def setLabel (heap : Heap) (ref : Ref) (label : String) : Heap := (labelCell ref).set label heap

/-- The assignments, one after another. -/
abbrev assign (heap : Heap) (labels : List (Ref × String)) : Heap := Cell.assign labelCell labels heap

theorem labelCell_lawful (ref : Ref) : (labelCell ref).Lawful := by
  have hnode := Cell.node_lawful Value.labelCell_lawful (Cell.part_lawful Value.lawfulParts) ref.path
  exact (Cell.entry_lawful ref.message).comp hnode

theorem labelCell_apart {ref ref' : Ref} (h : ref ≠ ref') : (labelCell ref).Apart (labelCell ref') := by
  obtain ⟨message, path⟩ := ref
  obtain ⟨message', path'⟩ := ref'
  by_cases hmessage : message = message'
  · subst hmessage
    have hpath : path ≠ path' := fun hpath => h (congrArg (Ref.mk message) hpath)
    have hnodes := Cell.node_apart (Cell.part_lawful Value.lawfulParts) Value.labelCell_apart
      (Cell.part_apart Value.lawfulParts) hpath
    exact hnodes.comp_right (Cell.entry_lawful message)
  · exact (Cell.entry_apart hmessage).comp_left.symm.comp_left.symm

theorem labelCell_get (ref : Ref) (heap : Heap) :
    (labelCell ref).get heap = (heap.read ref).map Value.label := by
  have hnode := Cell.node_get Value.labelCell Value.partCell ref.path (heap ref.message)
  exact hnode.trans (Option.map_eq_bind ..).symm

end Heap

/-! ## The code -/

/-- What there is no way into: `to_value_proto` makes a new message of it, or fails. -/
inductive PyAtom where
  | none
  | str (s : String)
  | bool (b : Bool)
  | int (i : Int)
  | float (f : Float)
  | message (packed : AnyPb)
  | other (type : String)

def PyAtom.toArg : PyAtom → PyArg
  | .none => .none
  | .str s => .str s
  | .bool b => .bool b
  | .int i => .int i
  | .float f => .float f
  | .message packed => .message packed
  | .other type => .other type

/-- A key of a dictionary as a label, or the exception of the assignment of one that is none. -/
abbrev Key : Type := Except String String

/-- A Python object, with the identity of the protos in it. -/
inductive SharedArg where
  | value (proto : Ref)
  | computation (portableIr : Ref)
  | atom (x : PyAtom)
  | list (xs : List SharedArg)
  | dict (items : List (Key × SharedArg))

/-- What `to_value_proto` returns: a message that there was already, or a new one. -/
inductive Message where
  | held (ref : Ref)
  | made (v : Value)

/-- Python code that reads and writes messages. What it wrote before it fails stays. -/
abbrev Process : Type → Type := ExceptT String (StateM Heap)

namespace Message

/-- What is copied into the message that this one is added to. -/
def copy : Message → Process Value
  | .held ref => do return ((← get).read ref).getD Value.defaultInstance
  | .made v => return v

/-- `element.label = key` -/
def setLabel (element : Message) (key : Key) : Process Message := do
  let label ← liftExcept key
  match element with
  | .held ref =>
    modify fun heap => heap.setLabel ref label
    return .held ref
  | .made v => return .made (v.setLabel label)

end Message

namespace SharedArg

mutual

def toValueProto : SharedArg → Process Message
  | .value proto => return .held proto
  | .computation portableIr => return .held portableIr
  | .atom x => do return .made (← liftExcept x.toArg.toValueProto)
  | .list xs => do
    let elements ← toValueProtoAll xs
    return .made (.ofStruct (← elements.mapM Message.copy))
  | .dict items => do return .made (.ofStruct (← toValueProtoItems items))

/-- `[to_value_proto(x) for x in arg]` -/
def toValueProtoAll : List SharedArg → Process (List Message)
  | [] => return []
  | x :: xs => do
    let element ← toValueProto x
    return element :: (← toValueProtoAll xs)

/-- The elements that the loop over the items appends. -/
def toValueProtoItems : List (Key × SharedArg) → Process (List Value)
  | [] => return []
  | (key, x) :: items => do
    let element ← toValueProto x
    let element ← element.setLabel key
    let copied ← element.copy
    return copied :: (← toValueProtoItems items)

end

/-- What the argument is converted to, copied at the end. -/
def convert (arg : SharedArg) : Process Value := do (← toValueProto arg).copy

/-! ## What is labelled -/

/-- The message that the argument is. -/
def ref? : SharedArg → Option Ref
  | .value proto => some proto
  | .computation portableIr => some portableIr
  | _ => none

mutual

/-- The messages in the argument. -/
def refs : SharedArg → List Ref
  | .value proto => [proto]
  | .computation portableIr => [portableIr]
  | .atom _ => []
  | .list xs => refsAll xs
  | .dict items => refsItems items

def refsAll : List SharedArg → List Ref
  | [] => []
  | x :: xs => x.refs ++ refsAll xs

def refsItems : List (Key × SharedArg) → List Ref
  | [] => []
  | (_, x) :: items => x.refs ++ refsItems items

end

end SharedArg

/-- What is labelled, one message after another, and if there is an exception at the end. -/
structure Effect where
  labels : List (Ref × String)
  raises : Bool

namespace Effect

def none : Effect := ⟨[], false⟩

def andThen (e e' : Effect) : Effect := if e.raises then e else ⟨e.labels ++ e'.labels, e'.raises⟩

theorem andThen_none (e : Effect) : e.andThen none = e := by
  unfold andThen none
  split
  · rfl
  · next hraises => rw [List.append_nil, ← Bool.eq_false_iff.mpr hraises]

theorem mem_andThen {label : Ref × String} {e e' : Effect} (h : label ∈ (e.andThen e').labels) :
    label ∈ e.labels ∨ label ∈ e'.labels := by
  unfold andThen at h
  split at h
  · exact .inl h
  · exact List.mem_append.mp h

/-- A key is assigned. -/
def ofKey (ref? : Option Ref) : Key → Effect
  | .ok label => ⟨ref?.toList.map (·, label), false⟩
  | .error _ => ⟨[], true⟩

theorem mem_ofKey {label : Ref × String} {ref? : Option Ref} {key : Key} (h : label ∈ (ofKey ref? key).labels) :
    ref? = some label.1 := by
  cases key with
  | error error => cases h
  | ok key =>
      obtain ⟨ref, href, rfl⟩ := List.mem_map.mp h
      exact Option.mem_toList.mp href

end Effect

namespace SharedArg

mutual

/-- The keys of messages, in the order of the conversion, up to what cannot be converted. -/
def effect : SharedArg → Effect
  | .value _ | .computation _ => .none
  | .atom x => ⟨[], !x.toArg.toValueProto.isOk⟩
  | .list xs => effectAll xs
  | .dict items => effectItems items

def effectAll : List SharedArg → Effect
  | [] => .none
  | x :: xs => x.effect.andThen (effectAll xs)

def effectItems : List (Key × SharedArg) → Effect
  | [] => .none
  | (key, x) :: items => x.effect.andThen ((Effect.ofKey x.ref? key).andThen (effectItems items))

end

end SharedArg

/-! ## The effect of the code -/

namespace Process

variable {α β : Type} {m : Process α} {e e' : Effect} {post : α → Prop} {post' : β → Prop}

/-- There is an exception, or such a result. -/
def Returns (e : Effect) (post : α → Prop) : Except String α → Prop
  | .ok a => e.raises = false ∧ post a
  | .error _ => e.raises = true

/-- The code has the effect, and returns such a result. -/
def Has (m : Process α) (e : Effect) (post : α → Prop) : Prop :=
  ∀ heap : Heap, (m heap).2 = heap.assign e.labels ∧ Returns e post (m heap).1

theorem Has.pure {a : α} (h : post a) : (pure a : Process α).Has .none post := fun _ => ⟨rfl, rfl, h⟩

theorem bind_ok {f : α → Process β} {heap heap' : Heap} {a : α} (h : m heap = (.ok a, heap')) :
    (m >>= f) heap = f a heap' := by
  show ExceptT.bindCont f (m heap).1 (m heap).2 = f a heap'
  rw [h]
  rfl

theorem bind_error {f : α → Process β} {heap heap' : Heap} {error : String}
    (h : m heap = (.error error, heap')) :
    (m >>= f) heap = (.error error, heap') := by
  show ExceptT.bindCont f (m heap).1 (m heap).2 = (.error error, heap')
  rw [h]
  rfl

theorem Has.bind {f : α → Process β} (h : m.Has e post) (hf : ∀ a, post a → (f a).Has e' post') :
    (m >>= f).Has (e.andThen e') post' := by
  intro heap
  obtain ⟨hheap, hresult⟩ := h heap
  cases hm : m heap with
  | mk result heap' =>
      rw [hm] at hheap hresult
      subst hheap
      cases result with
      | ok a =>
          obtain ⟨hraises, ha⟩ := hresult
          obtain ⟨hheap', hresult'⟩ := hf a ha (heap.assign e.labels)
          have heffect : e.andThen e' = ⟨e.labels ++ e'.labels, e'.raises⟩ := by
            rw [Effect.andThen, hraises, if_neg Bool.false_ne_true]
          have hassign : (heap.assign e.labels).assign e'.labels = heap.assign (e.labels ++ e'.labels) :=
            (Cell.assign_append ..).symm
          rw [bind_ok hm, heffect]
          exact ⟨hheap'.trans hassign, hresult'⟩
      | error error =>
          have hraises : e.raises = true := hresult
          rw [bind_error hm, Effect.andThen, if_pos hraises]
          exact ⟨rfl, hraises⟩

/-- Code that has no effect does not show. -/
theorem Has.bind_none {f : α → Process β} (h : m.Has .none post) (hf : ∀ a, post a → (f a).Has e post') :
    (m >>= f).Has e post' := h.bind hf

theorem Has.bind_pure {f : α → β} (h : m.Has e post) (hf : ∀ a, post a → post' (f a)) :
    (do return f (← m)).Has e post' := by
  have hbind := h.bind fun a ha => Has.pure (hf a ha)
  rw [Effect.andThen_none] at hbind
  exact hbind

theorem has_liftExcept (result : Except String α) :
    (liftExcept result : Process α).Has ⟨[], !result.isOk⟩ fun _ => True := by
  intro heap
  cases result with
  | ok a => exact ⟨rfl, rfl, trivial⟩
  | error error => exact ⟨rfl, rfl⟩

end Process

namespace Message

/-- Which message it is, if there was one already. -/
def ref? : Message → Option Ref
  | .held ref => some ref
  | .made _ => none

theorem has_copy (element : Message) : element.copy.Has .none fun _ => True := by
  intro heap
  cases element with
  | held ref => exact ⟨rfl, rfl, trivial⟩
  | made v => exact ⟨rfl, rfl, trivial⟩

theorem has_setLabel (element : Message) (key : Key) :
    (element.setLabel key).Has (.ofKey element.ref? key) fun _ => True := by
  intro heap
  cases key with
  | error error => exact ⟨rfl, rfl⟩
  | ok label =>
      cases element with
      | held ref => exact ⟨rfl, rfl, trivial⟩
      | made v => exact ⟨rfl, rfl, trivial⟩

theorem has_mapM_copy (elements : List Message) : (elements.mapM copy).Has .none fun _ => True := by
  induction elements with
  | nil => exact Process.Has.pure trivial
  | cons element elements ih =>
      rw [List.mapM_cons]
      exact element.has_copy.bind_none fun v _ => ih.bind_pure fun vs _ => trivial

end Message

namespace SharedArg

mutual

theorem has_toValueProto :
    (arg : SharedArg) → arg.toValueProto.Has arg.effect fun element => element.ref? = arg.ref?
  | .value _ | .computation _ => .pure rfl
  | .atom x => (Process.has_liftExcept x.toArg.toValueProto).bind_pure fun _ _ => rfl
  | .list xs => by
      have hcopied : (SharedArg.list xs).toValueProto.Has ((effectAll xs).andThen .none)
          fun element => element.ref? = none :=
        (has_toValueProtoAll xs).bind fun elements _ =>
          (Message.has_mapM_copy elements).bind_pure fun _ _ => rfl
      rw [Effect.andThen_none] at hcopied
      exact hcopied
  | .dict items => (has_toValueProtoItems items).bind_pure fun _ _ => rfl

theorem has_toValueProtoAll : (xs : List SharedArg) → (toValueProtoAll xs).Has (effectAll xs) fun _ => True
  | [] => .pure trivial
  | x :: xs => (has_toValueProto x).bind fun _ _ => (has_toValueProtoAll xs).bind_pure fun _ _ => trivial

theorem has_toValueProtoItems : (items : List (Key × SharedArg)) →
    (toValueProtoItems items).Has (effectItems items) fun _ => True
  | [] => .pure trivial
  | (key, x) :: items => (has_toValueProto x).bind fun element helement =>
      helement ▸ (element.has_setLabel key).bind fun element' _ => element'.has_copy.bind_none fun _ _ =>
        (has_toValueProtoItems items).bind_pure fun _ _ => trivial

end

theorem convert_heap (arg : SharedArg) (heap : Heap) :
    (arg.convert heap).2 = heap.assign arg.effect.labels := by
  have hconvert := arg.has_toValueProto.bind fun element _ => element.has_copy
  rw [Effect.andThen_none] at hconvert
  exact (hconvert heap).1

theorem ref?_mem {arg : SharedArg} {ref : Ref} (h : arg.ref? = some ref) : ref ∈ arg.refs := by
  cases arg with
  | value proto | computation portableIr =>
      obtain rfl := Option.some.inj h
      exact List.mem_singleton_self _
  | atom | list | dict => cases h

mutual

/-- Only messages of the argument are labelled. -/
theorem mem_refs {label : Ref × String} : {arg : SharedArg} → label ∈ arg.effect.labels → label.1 ∈ arg.refs
  | .value _, h | .computation _, h | .atom _, h => absurd h List.not_mem_nil
  | .list _, h => mem_refsAll h
  | .dict _, h => mem_refsItems h

theorem mem_refsAll {label : Ref × String} : {xs : List SharedArg} → label ∈ (effectAll xs).labels →
    label.1 ∈ refsAll xs
  | [], h => absurd h List.not_mem_nil
  | _ :: _, h => by
      rcases Effect.mem_andThen h with h | h
      · exact List.mem_append_left _ (mem_refs h)
      · exact List.mem_append_right _ (mem_refsAll h)

theorem mem_refsItems {label : Ref × String} : {items : List (Key × SharedArg)} →
    label ∈ (effectItems items).labels → label.1 ∈ refsItems items
  | [], h => absurd h List.not_mem_nil
  | _ :: _, h => by
      rcases Effect.mem_andThen h with h | h
      · exact List.mem_append_left _ (mem_refs h)
      rcases Effect.mem_andThen h with h | h
      · exact List.mem_append_left _ (ref?_mem (Effect.mem_ofKey h))
      · exact List.mem_append_right _ (mem_refsItems h)

end

/-- Every message in the argument is as it was, and whatever is converted afterwards gives what it would have
given before. -/
structure LeavesUnchanged (arg : SharedArg) (heap : Heap) : Prop where
  protos : ∀ ref ∈ arg.refs, Heap.read (arg.convert heap).2 ref = heap.read ref
  results : ∀ other : SharedArg, (other.convert (arg.convert heap).2).1 = (other.convert heap).1

/-- The last key that is given to the message. -/
def lastKey (arg : SharedArg) (ref : Ref) : Option String := Cell.lastTo ref arg.effect.labels

/-- **Messages that are left as they were.** -/
theorem leavesUnchanged_iff {arg : SharedArg} {heap : Heap} (hheld : ∀ ref ∈ arg.refs, (heap.read ref).isSome) :
    arg.LeavesUnchanged heap ↔
      ∀ ref key, arg.lastKey ref = some key → (heap.read ref).map Value.label = some key := by
  constructor
  · intro h ref key hlast
    have hmem : ref ∈ arg.refs := mem_refs (Cell.mem_of_lastTo hlast)
    -- the last label that is written to a message is the one that it keeps
    have hget : (Heap.labelCell ref).get (heap.assign arg.effect.labels) = (Heap.labelCell ref).get heap := by
      rw [Heap.labelCell_get, Heap.labelCell_get, ← convert_heap, h.protos ref hmem]
    have hheld' : ((Heap.labelCell ref).get heap).isSome := by
      rw [Heap.labelCell_get, Option.isSome_map]
      exact hheld ref hmem
    rw [← Heap.labelCell_get]
    exact Cell.get_of_lastTo Heap.labelCell_lawful Heap.labelCell_apart hheld' hget hlast
  · intro h
    have hheap : (arg.convert heap).2 = heap := by
      rw [convert_heap]
      refine Cell.assign_eq_self Heap.labelCell_lawful Heap.labelCell_apart ?_
      intro ref key hlast
      rw [Heap.labelCell_get]
      exact h ref key hlast
    constructor
    · intro ref _
      rw [hheap]
    · intro other
      rw [hheap]

/-- A value with its key as the label may be shared. -/
theorem leavesUnchanged_labelled :
    (list [value ⟨0, []⟩, dict [(.ok "a", value ⟨0, []⟩)]]).LeavesUnchanged fun _ =>
      (Value.ofStr "x").setLabel "a" := by
  refine (leavesUnchanged_iff ?_).mpr ?_
  · intro ref href
    rcases List.mem_cons.mp href with rfl | href
    · rfl
    · obtain rfl := List.mem_singleton.mp href
      rfl
  · intro ref key hlast
    have hmem := List.mem_singleton.mp (Cell.mem_of_lastTo hlast)
    cases hmem
    rfl

/-- A computation under two keys comes out with the second one as the label of its IR. -/
theorem not_leavesUnchanged :
    ¬(dict [(.ok "a", computation ⟨0, []⟩), (.ok "b", computation ⟨0, []⟩)]).LeavesUnchanged fun _ =>
      .intrinsic {} "model_inference" (some (.ofStr "m")) := by
  intro h
  have hlabel := congrArg (Option.map Value.label) (h.protos ⟨0, []⟩ (List.mem_cons_self ..))
  exact absurd hlabel (by decide)

/-! ## Messages that have their keys already -/

mutual

/-- The argument with what its messages are at the moment, if all keys are labels. -/
def toPyArg (heap : Heap) : SharedArg → Option PyArg
  | .value proto => do return .value (← heap.read proto)
  | .computation portableIr => do return .computation (← heap.read portableIr)
  | .atom x => some x.toArg
  | .list xs => do return .list (← toPyArgAll heap xs)
  | .dict items => do return .dict (← toPyArgItems heap items)

def toPyArgAll (heap : Heap) : List SharedArg → Option (List PyArg)
  | [] => some []
  | x :: xs => do return (← toPyArg heap x) :: (← toPyArgAll heap xs)

def toPyArgItems (heap : Heap) : List (Key × SharedArg) → Option (List (String × PyArg))
  | [] => some []
  | (key, x) :: items => do return (← key.toOption, ← toPyArg heap x) :: (← toPyArgItems heap items)

end

end SharedArg

/-- The messages that are labelled have these labels already. -/
def Effect.IsRedundant (e : Effect) (heap : Heap) : Prop :=
  ∀ label ∈ e.labels, (heap.read label.1).map Value.label = some label.2

theorem Effect.IsRedundant.left {e e' : Effect} {heap : Heap} (h : (e.andThen e').IsRedundant heap) :
    e.IsRedundant heap := by
  intro label hlabel
  refine h label ?_
  unfold andThen
  split
  · exact hlabel
  · exact List.mem_append_left _ hlabel

theorem Effect.IsRedundant.right {e e' : Effect} {heap : Heap} (h : (e.andThen e').IsRedundant heap)
    (hraises : e.raises = false) : e'.IsRedundant heap := by
  intro label hlabel
  refine h label ?_
  rw [andThen, hraises, if_neg Bool.false_ne_true]
  exact List.mem_append_right _ hlabel

namespace Message

/-- What a copy would be at the moment. -/
def now (heap : Heap) : Message → Value
  | .held ref => (heap.read ref).getD Value.defaultInstance
  | .made v => v

theorem copy_eq (element : Message) (heap : Heap) : element.copy heap = (.ok (element.now heap), heap) := by
  cases element <;> rfl

theorem mapM_copy_eq (elements : List Message) (heap : Heap) :
    (elements.mapM copy) heap = (.ok (elements.map (now heap)), heap) := by
  induction elements with
  | nil => rfl
  | cons element elements ih =>
      rw [List.mapM_cons, Process.bind_ok (element.copy_eq heap), Process.bind_ok ih]
      rfl

/-- A label that is there already is not seen to be assigned. -/
theorem setLabel_eq {element : Message} {heap : Heap} {key : String}
    (h : (Effect.ofKey element.ref? (.ok key)).IsRedundant heap) :
    ∃ element', element.setLabel (.ok key) heap = (.ok element', heap) ∧
      element'.now heap = (element.now heap).setLabel key := by
  cases element with
  | made v => exact ⟨.made (v.setLabel key), rfl, rfl⟩
  | held ref =>
      have hlabel := h (ref, key) (List.mem_singleton_self _)
      obtain ⟨v, hread, rfl⟩ := Option.map_eq_some_iff.mp hlabel
      have hget : (Heap.labelCell ref).get heap = some v.label := by rw [Heap.labelCell_get, hlabel]
      have hset : heap.setLabel ref v.label = heap := (Heap.labelCell_lawful ref).set_get hget
      refine ⟨.held ref, congrArg (Prod.mk _) hset, ?_⟩
      show (heap.read ref).getD _ = ((heap.read ref).getD _).setLabel v.label
      rw [hread]
      exact v.setLabel_label.symm

end Message

namespace SharedArg

mutual

theorem toValueProto_eq {heap : Heap} : {arg : SharedArg} → {x : PyArg} → arg.toPyArg heap = some x →
    arg.effect.IsRedundant heap →
    ∃ result, arg.toValueProto heap = (result, heap) ∧ result.map (Message.now heap) = x.toValueProto
  | .value proto, x, hx, _ | .computation proto, x, hx, _ => by
      obtain ⟨v, hread, hv⟩ := Option.bind_eq_some_iff.mp hx
      obtain rfl := Option.some.inj hv
      have hnow : (Message.held proto).now heap = v := by rw [Message.now, hread, Option.getD_some]
      exact ⟨.ok (.held proto), rfl, congrArg Except.ok hnow⟩
  | .atom y, x, hx, _ => by
      obtain rfl := Option.some.inj hx
      rw [toValueProto]
      cases y.toArg.toValueProto with
      | ok v => exact ⟨.ok (.made v), rfl, rfl⟩
      | error error => exact ⟨.error error, rfl, rfl⟩
  -- the elements are converted first, and copied into the struct only if none of them fails
  | .list xs, x, hx, h => by
      obtain ⟨ys, hys, hy⟩ := Option.bind_eq_some_iff.mp hx
      obtain rfl := Option.some.inj hy
      obtain ⟨result, heq, hresult⟩ := toValueProtoAll_eq hys h
      have hpure : (PyArg.list ys).toValueProto = (do return .ofStruct (← PyArg.toValueProtoAll ys)) := rfl
      rw [hpure, ← hresult, toValueProto]
      cases result with
      | ok elements =>
          rw [Process.bind_ok heq, Process.bind_ok (Message.mapM_copy_eq elements heap)]
          exact ⟨_, rfl, rfl⟩
      | error error =>
          rw [Process.bind_error heq]
          exact ⟨_, rfl, rfl⟩
  | .dict items, x, hx, h => by
      obtain ⟨ys, hys, hy⟩ := Option.bind_eq_some_iff.mp hx
      obtain rfl := Option.some.inj hy
      have heq := toValueProtoItems_eq hys h
      have hpure : (PyArg.dict ys).toValueProto = (do return .ofStruct (← PyArg.toValueProtoItems ys)) := rfl
      rw [hpure, toValueProto]
      cases hresult : PyArg.toValueProtoItems ys with
      | ok elements =>
          rw [hresult] at heq
          rw [Process.bind_ok heq]
          exact ⟨_, rfl, rfl⟩
      | error error =>
          rw [hresult] at heq
          rw [Process.bind_error heq]
          exact ⟨_, rfl, rfl⟩

theorem toValueProtoAll_eq {heap : Heap} : {xs : List SharedArg} → {ys : List PyArg} →
    toPyArgAll heap xs = some ys → (effectAll xs).IsRedundant heap →
    ∃ result, toValueProtoAll xs heap = (result, heap) ∧
      result.map (List.map (Message.now heap)) = PyArg.toValueProtoAll ys
  | [], ys, hys, _ => by
      obtain rfl := Option.some.inj hys
      exact ⟨.ok [], rfl, rfl⟩
  | x :: xs, ys, hys, h => by
      obtain ⟨y, hy, hys⟩ := Option.bind_eq_some_iff.mp hys
      obtain ⟨ys', hys', hys⟩ := Option.bind_eq_some_iff.mp hys
      obtain rfl := Option.some.inj hys
      obtain ⟨result, heq, hresult⟩ := toValueProto_eq hy h.left
      have hreturns := (x.has_toValueProto heap).2
      rw [heq] at hreturns
      rw [toValueProtoAll, PyArg.toValueProtoAll, ← hresult]
      cases result with
      | error error =>
          rw [Process.bind_error heq]
          exact ⟨_, rfl, rfl⟩
      | ok element =>
          obtain ⟨result', heq', hresult'⟩ := toValueProtoAll_eq hys' (h.right hreturns.1)
          rw [Process.bind_ok heq, ← hresult']
          cases result' with
          | error error =>
              rw [Process.bind_error heq']
              exact ⟨_, rfl, rfl⟩
          | ok elements =>
              rw [Process.bind_ok heq']
              exact ⟨_, rfl, rfl⟩

theorem toValueProtoItems_eq {heap : Heap} : {items : List (Key × SharedArg)} → {ys : List (String × PyArg)} →
    toPyArgItems heap items = some ys → (effectItems items).IsRedundant heap →
    toValueProtoItems items heap = (PyArg.toValueProtoItems ys, heap)
  | [], ys, hys, _ => by
      obtain rfl := Option.some.inj hys
      rfl
  | (key, x) :: items, ys, hys, h => by
      obtain ⟨label, hlabel, hys⟩ := Option.bind_eq_some_iff.mp hys
      obtain ⟨y, hy, hys⟩ := Option.bind_eq_some_iff.mp hys
      obtain ⟨ys', hys', hys⟩ := Option.bind_eq_some_iff.mp hys
      obtain rfl := Option.some.inj hys
      cases key with
      | error error => cases hlabel
      | ok key =>
          obtain rfl := Option.some.inj hlabel
          obtain ⟨result, heq, hresult⟩ := toValueProto_eq hy h.left
          have hreturns := (x.has_toValueProto heap).2
          rw [heq] at hreturns
          rw [toValueProtoItems, PyArg.toValueProtoItems, ← hresult]
          cases result with
          | error error =>
              rw [Process.bind_error heq]
              rfl
          | ok element =>
              obtain ⟨hraises, href⟩ := hreturns
              have hrest := h.right hraises
              -- the label is written to the converted value itself, which is redundant here
              have hkey : (Effect.ofKey element.ref? (.ok key)).IsRedundant heap := href ▸ hrest.left
              obtain ⟨element', hset, hnow⟩ := Message.setLabel_eq hkey
              have heq' := toValueProtoItems_eq hys' (hrest.right rfl)
              rw [Process.bind_ok heq, Process.bind_ok hset, Process.bind_ok (element'.copy_eq heap), hnow]
              cases hresult' : PyArg.toValueProtoItems ys' with
              | error error =>
                  rw [hresult'] at heq'
                  rw [Process.bind_error heq']
                  rfl
              | ok elements =>
                  rw [hresult'] at heq'
                  rw [Process.bind_ok heq']
                  rfl

end

/-- **No label is new.** Then the messages may as well be copied when the argument is made. -/
theorem convert_eq {arg : SharedArg} {x : PyArg} {heap : Heap} (hx : arg.toPyArg heap = some x)
    (h : arg.effect.IsRedundant heap) : arg.convert heap = (x.toValueProto, heap) := by
  obtain ⟨result, heq, hresult⟩ := toValueProto_eq hx h
  rw [← hresult, convert]
  cases result with
  | ok element =>
      rw [Process.bind_ok heq]
      exact element.copy_eq heap
  | error error => exact Process.bind_error heq

end SharedArg

end GenC
