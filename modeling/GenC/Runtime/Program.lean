import GenC.Lib.Lambda
import GenC.Runtime.IntrinsicHandler

/-!
# The IR as a calculus

An IR value built from calls with an argument, lambdas, references, structs, selections and blocks,
over scalars and INLINE intrinsics, is a program of the call-by-value calculus of `Lib/Lambda.lean`
(`Value.toTerm`). A block is a chain of `let`s.

Data is compared up to metadata: `Value.toData` forgets it. The intrinsics are interpreted by an
arbitrary partial function `δ` from data to data, which their handlers implement (`Interprets`).
-/

namespace GenC

open Lib

/-! ## The IR as a calculus -/

/-- The data a value stands for, if it is data. -/
def Value.toData : Value → Option (Data Scalar)
  | .scalar _ s => some (.scalar s)
  | .struct _ es => (toDataAll es).map .tuple
  | _ => none
where
  toDataAll : List Value → Option (List (Data Scalar))
  | [] => some []
  | e :: es =>
      match toData e, toDataAll es with
      | some d, some ds => some (d :: ds)
      | _, _ => none

/-- The field of a struct stands for the field of its data. -/
theorem toDataAll_getElem? : ∀ {i : Nat} {es : List Value} {ds : List (Data Scalar)} {d : Data Scalar},
    Value.toData.toDataAll es = some ds → ds[i]? = some d →
      ∃ e, es[i]? = some e ∧ e.toData = some d
  | i, [], ds, d, h, hd => by
      cases h
      cases hd
  | i, e :: es, ds, d, h, hd => by
      rw [Value.toData.toDataAll] at h
      split at h
      · next d' ds' he hes =>
          cases h
          cases i with
          | zero => cases hd; exact ⟨e, rfl, he⟩
          | succ i =>
              obtain ⟨e', he', hd'⟩ := toDataAll_getElem? hes hd
              exact ⟨e', he', hd'⟩
      · cases h

/-- The handler of an intrinsic that the inline executor can call: registered, INLINE and well
formed. -/
def IntrinsicHandlerSet.inlineHandler? (handlers : IntrinsicHandlerSet) (intr : Intrinsic) :
    Option InlineHandler :=
  match handlers.getHandler intr.uri with
  | .error _ => none
  | .ok handler =>
    match handler.interface with
    | .controlFlow _ => none
    | .inline interface =>
      match interface.checkWellFormed intr with
      | some (.ok ()) => some interface
      | _ => none

/-- A program of the calculus: its primitives are intrinsics, with their static parameter. -/
abbrev Program : Type := Term Intrinsic Scalar

/-- The program an IR value stands for, if it is in the fragment. -/
def Value.toTerm (handlers : IntrinsicHandlerSet) : Value → Option Program
  | .notSet _ => none
  | .scalar _ s => some (.const s)
  | .call _ _ none => none
  | .call _ f (some a) =>
      match toTerm handlers f, toTerm handlers a with
      | some f, some a => some (.app f a)
      | _, _ => none
  | .lambda _ x b => (toTerm handlers b).map (.lam x)
  | .reference _ x => some (.var x)
  | .struct _ es => (toTermAll es).map .tuple
  | .selection _ e i => (toTerm handlers e).map (.sel · i.toInt)
  | .block _ locals r => toTermLocals (toTerm handlers r) locals
  | .intrinsic _ uri staticParameter =>
      if (handlers.inlineHandler? ⟨uri, staticParameter⟩).isSome then
        some (.prim ⟨uri, staticParameter⟩)
      else none
where
  toTermAll : List Value → Option (List Program)
  | [] => some []
  | e :: es =>
      match toTerm handlers e, toTermAll es with
      | some e, some es => some (e :: es)
      | _, _ => none
  toTermLocals (result : Option Program) : List (String × Value) → Option Program
  | [] => result
  | (x, e) :: locals =>
      match toTerm handlers e, toTermLocals result locals with
      | some e, some body => some (.letIn x e body)
      | _, _ => none

/-- The handlers implement `δ`, and do not look at the metadata of their argument. -/
def Interprets (handlers : IntrinsicHandlerSet) (δ : Intrinsic → Data Scalar → Option (Data Scalar)) :
    Prop :=
  ∀ intr d d', δ intr d = some d' → ∀ interface, handlers.inlineHandler? intr = some interface →
    ∀ v, v.toData = some d →
      ∃ v', interface.executeCall intr v = some (.ok v') ∧ v'.toData = some d'

theorem inlineHandler?_eq_some {handlers : IntrinsicHandlerSet} {intr : Intrinsic}
    {interface : InlineHandler} (h : handlers.inlineHandler? intr = some interface) :
    ∃ handler, handlers.getHandler intr.uri = .ok handler ∧
      handler.interface = .inline interface ∧
      interface.checkWellFormed intr = some (.ok ()) := by
  unfold IntrinsicHandlerSet.inlineHandler? at h
  split at h
  · cases h
  · next handler hget =>
      split at h
      · cases h
      · next i hi =>
          split at h
          · next hwf =>
              cases h
              exact ⟨handler, hget, hi, hwf⟩
          · cases h

/-! ### The shape of a value, from the program it stands for -/

/-- A value that is neither a block without locals nor a reference, and its program. -/
inductive Shape (handlers : IntrinsicHandlerSet) : Value → Program → Prop where
  | scalar {m : Meta} {c : Scalar} : Shape handlers (.scalar m c) (.const c)
  | call {m : Meta} {f a : Value} {ef ea : Program} (hf : f.toTerm handlers = some ef)
      (ha : a.toTerm handlers = some ea) : Shape handlers (.call m f (some a)) (.app ef ea)
  | lambda {m : Meta} {x : String} {b : Value} {eb : Program} (hb : b.toTerm handlers = some eb) :
      Shape handlers (.lambda m x b) (.lam x eb)
  | struct_nil {m : Meta} : Shape handlers (.struct m []) (.tuple [])
  | struct_cons {m : Meta} {v : Value} {vs : List Value} {e : Program} {es : List Program}
      (hv : v.toTerm handlers = some e)
      (hvs : (Value.struct m vs).toTerm handlers = some (.tuple es)) :
      Shape handlers (.struct m (v :: vs)) (.tuple (e :: es))
  | selection {m : Meta} {v : Value} {i : Int32} {e : Program} (hv : v.toTerm handlers = some e) :
      Shape handlers (.selection m v i) (.sel e i.toInt)
  | block {m : Meta} {x : String} {v r : Value} {locals : List (String × Value)} {e body : Program}
      (hv : v.toTerm handlers = some e)
      (hr : (Value.block m locals r).toTerm handlers = some body) :
      Shape handlers (.block m ((x, v) :: locals) r) (.letIn x e body)
  | intrinsic {m : Meta} {uri : String} {staticParameter : Option Value} {interface : InlineHandler}
      (h : handlers.inlineHandler? ⟨uri, staticParameter⟩ = some interface) :
      Shape handlers (.intrinsic m uri staticParameter) (.prim ⟨uri, staticParameter⟩)

/-- The two kinds of values that `Shape` leaves out. -/
inductive Value.Transparent : Value → Prop where
  | reference {m : Meta} {x : String} : Transparent (.reference m x)
  | block {m : Meta} {r : Value} : Transparent (.block m [] r)

theorem shape_of_toTerm {handlers : IntrinsicHandlerSet} {v : Value} {e : Program}
    (h : v.toTerm handlers = some e) : v.Transparent ∨ Shape handlers v e := by
  cases v with
  | notSet => cases h
  | scalar m c => cases h; exact .inr .scalar
  | reference => exact .inl .reference
  | call m f a =>
      cases a with
      | none => cases h
      | some a =>
          simp only [Value.toTerm] at h
          split at h
          · next hf ha => cases h; exact .inr (.call hf ha)
          · cases h
  | lambda m x b =>
      obtain ⟨eb, hb, rfl⟩ := Option.map_eq_some_iff.mp h
      exact .inr (.lambda hb)
  | struct m es =>
      obtain ⟨ts, hts, rfl⟩ := Option.map_eq_some_iff.mp h
      -- a struct is taken apart as its first element and the struct of the others
      cases es with
      | nil => cases hts; exact .inr .struct_nil
      | cons v vs =>
          simp only [Value.toTerm.toTermAll] at hts
          split at hts
          · next hv hvs =>
              cases hts
              exact .inr (.struct_cons hv (by rw [Value.toTerm, hvs]; rfl))
          · cases hts
  | selection m v i =>
      obtain ⟨e, he, rfl⟩ := Option.map_eq_some_iff.mp h
      exact .inr (.selection he)
  | block m locals r =>
      -- a block with no locals is its result
      cases locals with
      | nil => exact .inl .block
      | cons l locals =>
          obtain ⟨x, v⟩ := l
          simp only [Value.toTerm, Value.toTerm.toTermLocals] at h
          split at h
          · next hv hr => cases h; exact .inr (.block hv hr)
          · cases h
  | intrinsic m uri staticParameter =>
      simp only [Value.toTerm] at h
      split at h
      · next hi =>
          cases h
          obtain ⟨interface, hi⟩ := Option.isSome_iff_exists.mp hi
          exact .inr (.intrinsic hi)
      · cases h

end GenC
