import GenC.Runtime.RoundTrip
import GenC.Runtime.Selection

/-!
# Data on the local stack

A value holds data if it materializes to something that is taken for the same.
-/

namespace GenC

open Lib

namespace DataEquivalence

variable (e : DataEquivalence)

/-- The value materializes to `d`. -/
structure Holds (v : ExecutorValue) (d : Value) (s : InlineState) : Prop where
  alive : v.Alive s
  contents : ∃ w, v.contents s = some (.ok w) ∧ e.same w d

variable {e}

theorem Holds.of_le {v : ExecutorValue} {d : Value} {s s' : InlineState} (h : e.Holds v d s)
    (hs : s ≤ s') : e.Holds v d s' := by
  obtain ⟨w, hw, hsame⟩ := h.contents
  exact ⟨h.alive.of_le hs, w, (ExecutorValue.contents_frame hs h.alive).trans hw, hsame⟩

theorem Holds.of_same {v : ExecutorValue} {d d' : Value} {s : InlineState} (h : e.Holds v d s)
    (hd : e.same d d') :
    e.Holds v d' s := by
  obtain ⟨w, hw, hsame⟩ := h.contents
  exact ⟨h.alive, w, hw, e.trans hsame hd⟩

/-- What a value holds is one piece of data. -/
theorem Holds.same {v : ExecutorValue} {d d' : Value} {s : InlineState} (h : e.Holds v d s)
    (h' : e.Holds v d' s) : e.same d d' := by
  obtain ⟨w, hw, hsame⟩ := h.contents
  obtain ⟨w', hw', hsame'⟩ := h'.contents
  cases hw.symm.trans hw'
  exact e.trans (e.symm hsame) hsame'

/-- Values that hold the elements make up one that holds the structure. -/
theorem Holds.struct {vs : List ExecutorValue} {ds : List Value} {s : InlineState}
    (h : List.Forall₂ (fun v d => e.Holds v d s) vs ds) : e.Holds (.struct vs) (createStruct ds) s := by
  have hall : (∀ v ∈ vs, v.Alive s) ∧ ∃ ws, ExecutorValue.contentsAll s vs = some (ws.map .ok) ∧
      List.Forall₂ e.same ws ds := by
    induction h with
    | nil => exact ⟨List.forall_mem_nil _, [], rfl, .nil⟩
    | @cons v d vs ds hv _ ih =>
        obtain ⟨halive, ws, hws, hsame⟩ := ih
        obtain ⟨w, hw, hwd⟩ := hv.contents
        refine ⟨List.forall_mem_cons.mpr ⟨hv.alive, halive⟩, w :: ws, ?_, .cons hwd hsame⟩
        rw [ExecutorValue.contentsAll, hw, hws]
        rfl
  obtain ⟨halive, ws, hws, hsame⟩ := hall
  refine ⟨.struct halive, createStruct ws, ?_, e.struct hsame⟩
  rw [ExecutorValue.contents, hws]
  exact congrArg some (InlineExecutor.structTask_eq_ok_iff.mpr ⟨ws, rfl, rfl⟩)

/-- A value that holds a structure, is one that elements can be selected from. -/
theorem Holds.selection [ProtoText] {handlers : IntrinsicHandlerSet} {v : ExecutorValue}
    {ds : List Value} {d : Value} {s : InlineState} {index : UInt32}
    (h : e.Holds v (createStruct ds) s) (hd : ds[index.toNat]? = some d) :
    ∃ u s', Run.Returns ((localExecutor handlers).createSelectionInternal v index) s u s' ∧
      e.Holds u d s' := by
  obtain ⟨w, hw, hsame⟩ := h.contents
  obtain ⟨m, ws, rfl, hall⟩ := e.elements hsame
  have hselects := createSelectionInternal_selects handlers h.alive hw index
  rcases forall₂_getElem? hall index.toNat with ⟨-, hnone⟩ | ⟨w, d', hwi, hdi, hwd⟩
  · rw [hd] at hnone
    cases hnone
  · obtain rfl : d = d' := Option.some.inj (hd.symm.trans hdi)
    rw [SelectsValue, hwi] at hselects
    obtain ⟨u, s', hu, halive, hcontents⟩ := hselects
    exact ⟨u, s', hu, halive, w, hcontents, hwd⟩

end DataEquivalence

end GenC
