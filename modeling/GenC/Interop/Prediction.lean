import Mathlib.Algebra.Group.Int.Defs
import Mathlib.Algebra.Group.Nat.Defs
import GenC.Interop.LlamaCpp
import Mathlib.Order.Defs.LinearOrder
import Mathlib.Data.Set.Basic

/-!
# The prediction loop

The loop of `LlamaCppCall` in `interop/backends/llamacpp.cc`, one iteration at a time, and the batch that it
writes its tokens to.

* `Iteration` — what the loop has before it samples a token; `iterations` lists them.
* `LlamaBatch` — the batch as arrays of a capacity; `generateIn` is `LlamaCppCall` with every access checked.

**`in_bounds_iff`**: the arrays have room for 512 tokens, and the check is for 1024.

**`respects_limit_iff`**: the loop may generate one token more than the limit leaves. So for a prompt that fits
the arrays the limit is kept exactly where there is no loop, or where the model ends by itself in time.

**`picks_best_iff`**: the candidates begin with a zero for each token of the vocabulary. So the sampled token
is the best one where some logit is positive, or where the first one is the best.
-/

namespace GenC.LlamaCpp

open Lib

variable {lib : LlamaLibrary}

/-! ## Iterations -/

/-- The state of the loop before it samples: what was decoded, the last batch, and the counter. -/
structure Iteration where
  cache : List (List BatchEntry)
  batch : List BatchEntry
  nCurrent : Int

namespace Iteration

variable (model : lib.Model) (context : lib.Context)

def logits (it : Iteration) : List UInt32 := lib.logitsIth context it.cache (it.batch.length - 1)

def newTokenId (it : Iteration) : Int32 :=
  lib.sampleTokenGreedy context (candidates model (it.logits context))

/-- The batch of the new token. -/
def next (it : Iteration) : List BatchEntry := [⟨it.newTokenId model context, it.nCurrent, true⟩]

/-- The iteration ends the loop: with the end of the sequence, or because the batch does not decode. -/
def Ends (it : Iteration) : Prop :=
  it.newTokenId model context = lib.eos model ∨ lib.decode context it.cache (it.next model context) = false

/-- The iteration after this one. -/
def following (it : Iteration) : Iteration where
  cache := it.cache ++ [it.next model context]
  batch := it.next model context
  nCurrent := it.nCurrent + 1

/-- The iteration that comes `k` later, if none ends the loop. -/
def after : Nat → Iteration → Iteration
  | 0, it => it
  | k + 1, it => after k (it.following model context)

/-- One of the next `n` iterations would end the loop. -/
def EndsWithin (n : Nat) (it : Iteration) : Prop := ∃ k < n, (it.after model context k).Ends model context

end Iteration

section

variable (model : lib.Model) (context : lib.Context)

/-- The iterations of a loop that may make `remaining` of them. -/
def iterations : Nat → Iteration → List Iteration
  | 0, _ => []
  | remaining + 1, it =>
      it ::
        if it.newTokenId model context = lib.eos model then []
        else if lib.decode context it.cache (it.next model context) then
          iterations remaining (it.following model context)
        else []

/-- The first iteration of a call. -/
def firstIteration (prompt : String) : Iteration where
  cache := [promptBatch (lib.tokenize model prompt)]
  batch := promptBatch (lib.tokenize model prompt)
  nCurrent := (lib.tokenize model prompt).length

/-- How often the loop is entered, at most: `n_current` counts up from the tokens of the prompt. -/
def loopBound (maxTokens : Int32) (prompt : String) : Nat :=
  (maxTokens.toInt + 1 - (lib.tokenize model prompt).length).toNat

/-- The iterations of `LlamaCppCall`: the loop comes after a prompt that is accepted and decoded. -/
def callIterations (maxTokens : Int32) (prompt : String) : List Iteration :=
  if (lib.tokenize model prompt).length ≤ lib.nCtx context ∧
      lib.decode context [] (promptBatch (lib.tokenize model prompt)) then
    iterations model context (loopBound model maxTokens prompt) (firstIteration model prompt)
  else []

end

variable {model : lib.Model} {context : lib.Context} {it : Iteration}

/-- `predict`, one iteration at a time. -/
theorem predict_succ (remaining : Nat) (it : Iteration) :
    predict model context (remaining + 1) it.nCurrent it.cache it.batch =
      if it.newTokenId model context = lib.eos model then .ok []
      else if lib.decode context it.cache (it.next model context) then
        (lib.tokenToPiece model (it.newTokenId model context) :: ·) <$>
          predict model context remaining (it.following model context).nCurrent
            (it.following model context).cache (it.following model context).batch
      else .error (.internal "Failed to eval batch") := by
  rw [predict]
  rfl

theorem predict_of_not_ends (h : ¬ it.Ends model context) (remaining : Nat) :
    predict model context (remaining + 1) it.nCurrent it.cache it.batch =
      (lib.tokenToPiece model (it.newTokenId model context) :: ·) <$>
        predict model context remaining (it.following model context).nCurrent
          (it.following model context).cache (it.following model context).batch := by
  rw [Iteration.Ends, not_or, Bool.not_eq_false] at h
  rw [predict_succ, if_neg h.1, if_pos h.2]

theorem predict_of_ends (h : it.Ends model context) (remaining : Nat) :
    predict model context (remaining + 1) it.nCurrent it.cache it.batch = .ok [] ∨
      ∃ e, predict model context (remaining + 1) it.nCurrent it.cache it.batch = .error e := by
  rw [predict_succ]
  rcases h with h | h
  · exact .inl (if_pos h)
  · by_cases heos : it.newTokenId model context = lib.eos model
    · exact .inl (if_pos heos)
    · rw [if_neg heos, h]
      exact .inr ⟨_, rfl⟩

/-! ## The limit -/

/-- The loop makes all its iterations exactly where none of them ends it. -/
theorem predict_full_iff {n : Nat} :
    (∃ pieces, predict model context n it.nCurrent it.cache it.batch = .ok pieces ∧ pieces.length = n) ↔
      ¬ it.EndsWithin model context n := by
  induction n generalizing it with
  | zero => exact iff_of_true ⟨[], rfl, rfl⟩ fun ⟨k, hk, _⟩ => absurd hk (Nat.not_lt_zero k)
  | succ n ih =>
      -- Either the first iteration ends the prediction, or the others decide.
      by_cases hends : it.Ends model context
      · refine iff_of_false ?_ (not_not_intro ⟨0, n.succ_pos, hends⟩)
        rintro ⟨pieces, hpieces, hlength⟩
        rcases predict_of_ends hends n with h | ⟨e, h⟩
        · rw [h] at hpieces
          cases hpieces
          exact absurd hlength n.succ_ne_zero.symm
        · rw [h] at hpieces
          cases hpieces
      · have hsplit : it.EndsWithin model context (n + 1) ↔
            (it.following model context).EndsWithin model context n := by
          constructor
          · rintro ⟨k, hk, hk'⟩
            cases k with
            | zero => exact absurd hk' hends
            | succ k => exact ⟨k, Nat.lt_of_succ_lt_succ hk, hk'⟩
          · rintro ⟨k, hk, hk'⟩
            exact ⟨k + 1, Nat.succ_lt_succ hk, hk'⟩
        rw [hsplit, ← ih, predict_of_not_ends hends]
        constructor
        · rintro ⟨pieces, hpieces, hlength⟩
          cases hrest : predict model context n _ _ _ with
          | error e =>
              rw [hrest] at hpieces
              cases hpieces
          | ok rest =>
              rw [hrest] at hpieces
              cases hpieces
              exact ⟨rest, rfl, Nat.succ.inj hlength⟩
        · rintro ⟨rest, hrest, hlength⟩
          refine ⟨lib.tokenToPiece model (it.newTokenId model context) :: rest, by rw [hrest]; rfl, ?_⟩
          rw [List.length_cons, hlength]

/-- The loop makes fewer iterations only where the model ends the sequence. -/
theorem predict_stops {n : Nat} {pieces : List String}
    (h : predict model context n it.nCurrent it.cache it.batch = .ok pieces) (hlength : pieces.length < n) :
    (it.after model context pieces.length).newTokenId model context = lib.eos model := by
  induction n generalizing it pieces with
  | zero => exact absurd hlength (Nat.not_lt_zero _)
  | succ n ih =>
      rw [predict_succ] at h
      split at h
      case isTrue heos =>
        cases h
        exact heos
      case isFalse =>
        split at h
        -- one token more, and the loop goes on with the next iteration
        · cases hrest : predict model context n _ _ _ with
          | error e =>
              rw [hrest] at h
              cases h
          | ok rest =>
              rw [hrest] at h
              cases h
              have hrest := ih hrest (Nat.lt_of_succ_lt_succ hlength)
              exact hrest
        · cases h

/-- The counter is the number of tokens that were decoded. -/
theorem nCurrent_eq {n : Nat} (hit : it.nCurrent = it.cache.flatten.length) :
    ∀ it' ∈ iterations model context n it, it'.nCurrent = it'.cache.flatten.length := by
  induction n generalizing it with
  | zero => exact List.forall_mem_nil _
  | succ n ih =>
      rw [iterations, List.forall_mem_cons]
      refine ⟨hit, ?_⟩
      split
      · exact List.forall_mem_nil _
      · split
        · refine ih ?_
          -- one token more, on both sides
          simp [Iteration.following, Iteration.next, hit]
        · exact List.forall_mem_nil _

section

variable (model context) (maxTokens : Int32) (prompt : String)

/-- The pieces that the loop makes of the model's tokens. -/
def responsePieces : StatusOr (List String) :=
  predict model context (loopBound model maxTokens prompt) (firstIteration model prompt).nCurrent
    (firstIteration model prompt).cache (firstIteration model prompt).batch

theorem length_promptBatch (tokens : List Int32) : (promptBatch tokens).length = tokens.length := by
  simp [promptBatch]

/-- They are the response of a prompt that is accepted and decoded. -/
theorem generate_eq (haccepted : (lib.tokenize model prompt).length ≤ lib.nCtx context)
    (hdecode : lib.decode context [] (promptBatch (lib.tokenize model prompt)) = true) :
    generate model context maxTokens prompt =
      (fun pieces => .ofStr (String.join pieces)) <$> responsePieces model context maxTokens prompt := by
  rw [generate, if_neg (Nat.not_lt.mpr haccepted)]
  simp only [hdecode, if_true, length_promptBatch]
  rfl

end

/-! ## The batch -/

/-- An access outside of the arrays of a batch. -/
structure OutOfBounds where
  index : Int
  deriving Repr, DecidableEq

/-- `llama_batch`: arrays of a fixed length, of which `nTokens` entries count. -/
structure LlamaBatch where
  cells : List BatchEntry
  nTokens : Nat

/-- `llama_batch_init`. -/
def llamaBatchInit (capacity : Nat) : LlamaBatch where
  cells := List.replicate capacity ⟨0, 0, false⟩
  nTokens := 0

def LlamaBatch.entries (batch : LlamaBatch) : List BatchEntry := batch.cells.take batch.nTokens

/-- `llama_batch_add`. The sequence of a token is always 0. -/
def llamaBatchAdd (batch : LlamaBatch) (id : Int32) (pos : Int) (logits : Bool) :
    Except OutOfBounds LlamaBatch :=
  if batch.nTokens < batch.cells.length then
    .ok { cells := batch.cells.set batch.nTokens ⟨id, pos, logits⟩, nTokens := batch.nTokens + 1 }
  else .error ⟨batch.nTokens⟩

/-- The loop over the prompt. -/
def addPrompt : LlamaBatch → List (Int32 × Nat) → Except OutOfBounds LlamaBatch
  | batch, [] => .ok batch
  | batch, (token, i) :: tokens => do
      let batch ← llamaBatchAdd batch token i false
      addPrompt batch tokens

/-- `batch.logits[batch.n_tokens - 1] = true`. -/
def markLast (batch : LlamaBatch) : Except OutOfBounds LlamaBatch :=
  let last : Int := batch.nTokens - 1
  if 0 ≤ last ∧ last < batch.cells.length then
    .ok { batch with cells := batch.cells.modify last.toNat fun entry => { entry with logits := true } }
  else .error ⟨last⟩

/-- `predict`, with the batch as arrays. -/
def predictIn (model : lib.Model) (context : lib.Context) :
    Nat → Int → List (List BatchEntry) → LlamaBatch → Except OutOfBounds (StatusOr (List String))
  | 0, _, _, _ => .ok (.ok [])
  | remaining + 1, nCurrent, cache, batch =>
      let newTokenId := lib.sampleTokenGreedy context
        (candidates model (lib.logitsIth context cache (batch.nTokens - 1)))
      if newTokenId = lib.eos model then .ok (.ok [])
      else do
        let batch ← llamaBatchAdd { batch with nTokens := 0 } newTokenId nCurrent true
        if lib.decode context cache batch.entries then
          let pieces ← predictIn model context remaining (nCurrent + 1) (cache ++ [batch.entries]) batch
          .ok ((lib.tokenToPiece model newTokenId :: ·) <$> pieces)
        else .ok (.error (.internal "Failed to eval batch"))

/-- `generate`, with the batch as arrays of a capacity. -/
def generateIn (capacity : Nat) (model : lib.Model) (context : lib.Context) (maxTokens : Int32)
    (prompt : String) : Except OutOfBounds (StatusOr Value) :=
  let tokenizedPrompt := lib.tokenize model prompt
  if lib.nCtx context < tokenizedPrompt.length then
    .ok (.error (.internal "Prompt length is too large for context"))
  else do
    let batch ← addPrompt (llamaBatchInit capacity) tokenizedPrompt.zipIdx
    let batch ← markLast batch
    if lib.decode context [] batch.entries then
      let pieces ← predictIn model context (maxTokens.toInt + 1 - batch.nTokens).toNat batch.nTokens
        [batch.entries] batch
      .ok ((fun pieces => .ofStr (String.join pieces)) <$> pieces)
    else .ok (.error (.internal "llama_decode() of initial prompt failed"))

/-- The default of `llama_n_batch`, for a context whose parameters do not set it. -/
def defaultNBatch : Nat := 512

section

variable {batch : LlamaBatch} {tokens : List Int32}

theorem llamaBatchAdd_of_lt (h : batch.nTokens < batch.cells.length) (id : Int32) (pos : Int)
    (logits : Bool) :
    ∃ batch', llamaBatchAdd batch id pos logits = .ok batch' ∧
      batch'.cells.length = batch.cells.length ∧ batch'.nTokens = batch.nTokens + 1 ∧
      batch'.entries = batch.entries ++ [⟨id, pos, logits⟩] := by
  refine ⟨_, if_pos h, List.length_set, rfl, ?_⟩
  unfold LlamaBatch.entries
  rw [List.take_add_one, List.take_set_of_le (Nat.le_refl _)]
  simp [h]

/-- What fits is added, in order. -/
theorem addPrompt_of_le (h : batch.nTokens + tokens.length ≤ batch.cells.length) :
    ∃ batch', addPrompt batch (tokens.zipIdx batch.nTokens) = .ok batch' ∧
      batch'.cells.length = batch.cells.length ∧ batch'.nTokens = batch.nTokens + tokens.length ∧
      batch'.entries = batch.entries ++
        (tokens.zipIdx batch.nTokens).map fun (token, i) => ⟨token, i, false⟩ := by
  induction tokens generalizing batch with
  | nil => exact ⟨batch, rfl, rfl, rfl, (List.append_nil _).symm⟩
  | cons token tokens ih =>
      rw [List.length_cons] at h
      have hlt : batch.nTokens < batch.cells.length := by omega
      obtain ⟨batch₁, hadd, hlength, hn, hentries⟩ := llamaBatchAdd_of_lt hlt token batch.nTokens false
      have hroom : batch₁.nTokens + tokens.length ≤ batch₁.cells.length := by omega
      obtain ⟨batch', hrest, hlength', hn', hentries'⟩ := ih hroom
      refine ⟨batch', ?_, hlength'.trans hlength, ?_, ?_⟩
      · rw [List.zipIdx_cons, addPrompt, hadd, ← hn]
        exact hrest
      · rw [hn', hn, List.length_cons]
        omega
      · rw [hentries', hentries, hn, List.zipIdx_cons, List.map_cons, List.append_assoc]
        rfl

/-- The first token that does not fit is written after the end. -/
theorem addPrompt_of_gt (hbatch : batch.nTokens ≤ batch.cells.length)
    (h : batch.cells.length < batch.nTokens + tokens.length) :
    addPrompt batch (tokens.zipIdx batch.nTokens) = .error ⟨batch.cells.length⟩ := by
  induction tokens generalizing batch with
  | nil =>
      rw [List.length_nil] at h
      omega
  | cons token tokens ih =>
      rw [List.length_cons] at h
      by_cases hlt : batch.nTokens < batch.cells.length
      · obtain ⟨batch₁, hadd, hlength, hn, -⟩ := llamaBatchAdd_of_lt hlt token batch.nTokens false
        rw [List.zipIdx_cons, addPrompt, hadd, ← hn, ← hlength]
        exact ih (by omega) (by omega)
      · have heq : batch.nTokens = batch.cells.length := by omega
        rw [List.zipIdx_cons, addPrompt, llamaBatchAdd, if_neg hlt, heq]
        rfl

/-- The last token of a batch that has one is marked. -/
theorem markLast_of_pos (hpos : 0 < batch.nTokens) (hle : batch.nTokens ≤ batch.cells.length) :
    ∃ batch', markLast batch = .ok batch' ∧ batch'.cells.length = batch.cells.length ∧
      batch'.nTokens = batch.nTokens ∧
      batch'.entries = batch.entries.modify (batch.nTokens - 1) fun entry => { entry with logits := true } := by
  have hlast : ((batch.nTokens : Int) - 1).toNat = batch.nTokens - 1 := by omega
  refine ⟨_, if_pos (by omega), List.length_modify .., rfl, ?_⟩
  unfold LlamaBatch.entries
  rw [hlast]
  apply List.ext_getElem?
  intro i
  by_cases hi : i < batch.nTokens
  · simp [List.getElem?_modify, hi]
  · simp [hi]

theorem length_entries (hle : batch.nTokens ≤ batch.cells.length) : batch.entries.length = batch.nTokens :=
  List.length_take_of_le hle

/-- The prompt, added and marked. -/
theorem modify_eq_promptBatch (tokens : List Int32) :
    ((tokens.zipIdx.map fun (token, i) => (⟨token, i, false⟩ : BatchEntry)).modify (tokens.length - 1)
      fun entry => { entry with logits := true }) = promptBatch tokens := by
  apply List.ext_getElem?
  intro i
  rw [promptBatch, List.getElem?_modify, List.getElem?_map, List.getElem?_map, List.getElem?_zipIdx]
  cases hi : tokens[i]? with
  | none => simp
  | some token =>
      have hlt := (List.getElem?_eq_some_iff.mp hi).1
      by_cases hlast : tokens.length - 1 = i
      · have heq : i + 1 = tokens.length := by omega
        simp [hlast, heq]
      · have hne : i + 1 ≠ tokens.length := by omega
        simp [hlast, hne]

/-- With room for one token, the loop stays inside. -/
theorem predictIn_eq (hpos : 0 < batch.cells.length) (hle : batch.nTokens ≤ batch.cells.length)
    (remaining : Nat) (nCurrent : Int) (cache : List (List BatchEntry)) :
    predictIn model context remaining nCurrent cache batch
      = .ok (predict model context remaining nCurrent cache batch.entries) := by
  induction remaining generalizing nCurrent cache batch with
  | zero => rfl
  | succ remaining ih =>
      rw [predictIn, predict, length_entries hle]
      split
      case isTrue => rfl
      case isFalse =>
        -- the loop clears the batch before it adds the token, so there is room
        have hzero : ({ batch with nTokens := 0 } : LlamaBatch).nTokens
            < ({ batch with nTokens := 0 } : LlamaBatch).cells.length := hpos
        obtain ⟨batch', hadd, hlength, hn, hentries⟩ := llamaBatchAdd_of_lt hzero
          (lib.sampleTokenGreedy context (candidates model (lib.logitsIth context cache (batch.nTokens - 1))))
          nCurrent true
        have hpos' : 0 < batch'.cells.length := hlength ▸ hpos
        have hle' : batch'.nTokens ≤ batch'.cells.length := by
          rw [hn, hlength]
          exact hpos
        have hentries : batch'.entries = [⟨_, nCurrent, true⟩] := hentries
        rw [hadd, ← hentries]
        show (if lib.decode context cache batch'.entries = true then _ else _) = Except.ok
          (if lib.decode context cache batch'.entries = true then _ else _)
        cases lib.decode context cache batch'.entries with
        | true =>
            rw [if_pos rfl, if_pos rfl, ih hpos' hle']
            rfl
        | false => rfl

/-- Within the capacity, `LlamaCppCall` is what it is on lists. -/
theorem generateIn_eq {capacity : Nat} {maxTokens : Int32} {prompt : String}
    (haccepted : (lib.tokenize model prompt).length ≤ lib.nCtx context)
    (hpos : 1 ≤ (lib.tokenize model prompt).length) (hle : (lib.tokenize model prompt).length ≤ capacity) :
    generateIn capacity model context maxTokens prompt = .ok (generate model context maxTokens prompt) := by
  have hcells : (llamaBatchInit capacity).cells.length = capacity := List.length_replicate
  have hroom : (llamaBatchInit capacity).nTokens + (lib.tokenize model prompt).length
      ≤ (llamaBatchInit capacity).cells.length := by
    rw [hcells]
    exact (Nat.zero_add _).trans_le hle
  obtain ⟨batch, hadd, hlength, hn, hentries⟩ := addPrompt_of_le hroom
  have hn : batch.nTokens = (lib.tokenize model prompt).length := hn.trans (Nat.zero_add _)
  have hadd : addPrompt (llamaBatchInit capacity) (lib.tokenize model prompt).zipIdx = .ok batch := hadd
  have hfits : batch.nTokens ≤ batch.cells.length := by rw [hn, hlength, hcells]; exact hle
  obtain ⟨batch', hmark, hlength', hn', hentries'⟩ := markLast_of_pos (by omega) hfits
  -- in an array that is large enough, the batch is the one of the prompt
  have hbatch : batch'.entries = promptBatch (lib.tokenize model prompt) := by
    rw [hentries', hentries, hn]
    exact modify_eq_promptBatch _
  have hpos' : 0 < batch'.cells.length := by omega
  have hfits' : batch'.nTokens ≤ batch'.cells.length := by omega
  have hn' : batch'.nTokens = (promptBatch (lib.tokenize model prompt)).length := by
    rw [hn', hn, length_promptBatch]
  have haccepted := Nat.not_lt.mpr haccepted
  rw [generateIn, if_neg haccepted, generate, if_neg haccepted]
  rw [hadd]
  show (markLast _ >>= _) = _
  rw [hmark]
  show (if lib.decode context [] batch'.entries = true then _ else _) = Except.ok
    (if lib.decode context [] (promptBatch (lib.tokenize model prompt)) = true then _ else _)
  rw [predictIn_eq hpos' hfits', hbatch, hn']
  cases lib.decode context [] (promptBatch (lib.tokenize model prompt)) with
  | true => rfl
  | false => rfl

/-- A longer prompt is written past the end. -/
theorem generateIn_of_gt {capacity : Nat} {maxTokens : Int32} {prompt : String}
    (haccepted : (lib.tokenize model prompt).length ≤ lib.nCtx context)
    (hgt : capacity < (lib.tokenize model prompt).length) :
    generateIn capacity model context maxTokens prompt = .error ⟨capacity⟩ := by
  have hcells : (llamaBatchInit capacity).cells.length = capacity := List.length_replicate
  have hfull : (llamaBatchInit capacity).cells.length
      < (llamaBatchInit capacity).nTokens + (lib.tokenize model prompt).length := by
    rw [hcells]
    exact hgt.trans_eq (Nat.zero_add _).symm
  have hadd : addPrompt (llamaBatchInit capacity) ((lib.tokenize model prompt).zipIdx 0) = _ :=
    addPrompt_of_gt (Nat.zero_le _) hfull
  rw [generateIn, if_neg (Nat.not_lt.mpr haccepted), hadd, hcells]
  rfl

/-- Without tokens, the mark goes before the first entry. -/
theorem generateIn_of_empty {capacity : Nat} {maxTokens : Int32} {prompt : String}
    (hempty : (lib.tokenize model prompt).length = 0) :
    generateIn capacity model context maxTokens prompt = .error ⟨-1⟩ := by
  rw [generateIn, hempty, if_neg (Nat.not_lt_zero _), List.length_eq_zero_iff.mp hempty]
  rfl

end

/-- A call that stays inside has tokens, and no more than there is room for. -/
theorem fits_of_generateIn {maxTokens : Int32} {prompt : String} {response : StatusOr Value}
    (haccepted : (lib.tokenize model prompt).length ≤ lib.nCtx context)
    (h : generateIn defaultNBatch model context maxTokens prompt = .ok response) :
    1 ≤ (lib.tokenize model prompt).length ∧ (lib.tokenize model prompt).length ≤ defaultNBatch := by
  by_contra hnot
  rcases not_and_or.mp hnot with hnot | hnot
  · rw [generateIn_of_empty (by omega)] at h
    exact nomatch h
  · rw [generateIn_of_gt haccepted (by omega)] at h
    exact nomatch h

/-- **In bounds**, for an accepted prompt: the arrays have room for it. The loop then writes to the first entry
alone. -/
theorem in_bounds_iff {maxTokens : Int32} {prompt : String}
    (haccepted : (lib.tokenize model prompt).length ≤ lib.nCtx context) :
    (∃ response, generateIn defaultNBatch model context maxTokens prompt = .ok response) ↔
      1 ≤ (lib.tokenize model prompt).length ∧ (lib.tokenize model prompt).length ≤ defaultNBatch :=
  ⟨fun ⟨_, h⟩ => fits_of_generateIn haccepted h, fun ⟨hpos, hle⟩ => ⟨_, generateIn_eq haccepted hpos hle⟩⟩

/-! ## The limit of a call -/

section

variable (model context) (maxTokens : Int32) (prompt : String)

/-- `LlamaCppCall` returns a response, and it is made of these pieces. -/
def Responds (pieces : List String) : Prop :=
  generateIn defaultNBatch model context maxTokens prompt = .ok (.ok (.ofStr (String.join pieces))) ∧
    responsePieces model context maxTokens prompt = .ok pieces

/-- The limit counts the prompt. Up to it the model may go on; it stops before at the end of the sequence
alone, an error apart. A prompt that reaches it has no response. Each token is decoded at the position that
is the number of tokens before it, and the call stays inside of the batch. -/
structure RespectsLimit : Prop where
  inside : ∃ response, generateIn defaultNBatch model context maxTokens prompt = .ok response
  limit : (lib.tokenize model prompt).length ≤ maxTokens.toInt →
    ∀ pieces, Responds model context maxTokens prompt pieces →
      (lib.tokenize model prompt).length + pieces.length ≤ maxTokens.toInt ∧
      ((lib.tokenize model prompt).length + pieces.length < maxTokens.toInt →
        ((firstIteration model prompt).after model context pieces.length).newTokenId model context
          = lib.eos model)
  nothing : maxTokens.toInt ≤ (lib.tokenize model prompt).length →
    ∀ pieces, Responds model context maxTokens prompt pieces → pieces = []
  positions : ∀ it ∈ callIterations model context maxTokens prompt, ∀ entry ∈ it.next model context,
    entry.pos = it.cache.flatten.length

variable {model context maxTokens prompt}

/-- A call that returns a response has decoded its prompt. -/
theorem Responds.decoded {pieces : List String} (h : Responds model context maxTokens prompt pieces)
    (haccepted : (lib.tokenize model prompt).length ≤ lib.nCtx context) :
    lib.decode context [] (promptBatch (lib.tokenize model prompt)) = true := by
  obtain ⟨hpos, hle⟩ := fits_of_generateIn haccepted h.1
  have hgenerate := h.1
  rw [generateIn_eq haccepted hpos hle, generate, if_neg (Nat.not_lt.mpr haccepted)] at hgenerate
  by_contra hdecode
  rw [Bool.not_eq_true] at hdecode
  simp only [hdecode, Bool.false_eq_true, if_false] at hgenerate
  cases hgenerate

/-- Within the batch, the response of a prompt that is decoded is what the loop makes. -/
theorem responds_of_pieces {pieces : List String} (haccepted : (lib.tokenize model prompt).length ≤ lib.nCtx context)
    (hpos : 1 ≤ (lib.tokenize model prompt).length) (hle : (lib.tokenize model prompt).length ≤ defaultNBatch)
    (hdecode : lib.decode context [] (promptBatch (lib.tokenize model prompt)) = true)
    (hpieces : responsePieces model context maxTokens prompt = .ok pieces) :
    Responds model context maxTokens prompt pieces := by
  refine ⟨?_, hpieces⟩
  rw [generateIn_eq haccepted hpos hle, generate_eq model context maxTokens prompt haccepted hdecode, hpieces]
  rfl

/-- A prompt that is refused has no response. -/
theorem not_responds_of_refused {pieces : List String}
    (hrefused : lib.nCtx context < (lib.tokenize model prompt).length) :
    ¬ Responds model context maxTokens prompt pieces := by
  rintro ⟨hgenerate, -⟩
  rw [generateIn, if_pos hrefused] at hgenerate
  cases hgenerate

variable (model context maxTokens prompt)

/-- Each token goes to the position that is the number of tokens before it, whatever the limit. -/
theorem positions : ∀ it ∈ callIterations model context maxTokens prompt, ∀ entry ∈ it.next model context,
    entry.pos = it.cache.flatten.length := by
  intro it hit entry hentry
  rw [List.mem_singleton.mp hentry]
  unfold callIterations at hit
  split at hit
  case isTrue =>
    refine nCurrent_eq ?_ it hit
    simp [firstIteration, length_promptBatch]
  case isFalse => cases hit

/-- **The limit**, exactly where the prompt is refused, or where it fits the batch and either is not decoded, is
longer than the limit, or is followed by a token up to the one too many that ends the loop. -/
theorem respects_limit_iff : RespectsLimit model context maxTokens prompt ↔
    lib.nCtx context < (lib.tokenize model prompt).length ∨
      (1 ≤ (lib.tokenize model prompt).length ∧ (lib.tokenize model prompt).length ≤ defaultNBatch) ∧
        (lib.decode context [] (promptBatch (lib.tokenize model prompt)) = false ∨
          maxTokens.toInt < (lib.tokenize model prompt).length ∨
          (firstIteration model prompt).EndsWithin model context (loopBound model maxTokens prompt)) := by
  have hbound : (loopBound model maxTokens prompt : Int) =
      max 0 (maxTokens.toInt + 1 - (lib.tokenize model prompt).length) := by
    unfold loopBound
    omega
  by_cases haccepted : (lib.tokenize model prompt).length ≤ lib.nCtx context
  case neg =>
    have hrefused := Nat.lt_of_not_le haccepted
    refine iff_of_true ⟨⟨_, if_pos hrefused⟩, ?_, ?_, positions model context maxTokens prompt⟩ (.inl hrefused)
    · exact fun _ _ h => absurd h (not_responds_of_refused hrefused)
    · exact fun _ _ h => absurd h (not_responds_of_refused hrefused)
  rw [or_iff_right (Nat.not_lt.mpr haccepted)]
  constructor
  · intro h
    obtain ⟨response, hresponse⟩ := h.inside
    obtain ⟨hpos, hle⟩ := fits_of_generateIn haccepted hresponse
    refine ⟨⟨hpos, hle⟩, ?_⟩
    by_contra hnot
    obtain ⟨hdecode, hnot⟩ := not_or.mp hnot
    obtain ⟨hlong, hends⟩ := not_or.mp hnot
    obtain ⟨pieces, hpieces, hlength⟩ := predict_full_iff.mpr hends
    have hresponds := responds_of_pieces haccepted hpos hle (Bool.not_eq_false _ ▸ hdecode) hpieces
    have hlimit := (h.limit (by omega) pieces hresponds).1
    omega
  · rintro ⟨hbatch, h⟩
    -- not all iterations that the bound allows
    have hlength : ∀ pieces, Responds model context maxTokens prompt pieces →
        maxTokens.toInt < (lib.tokenize model prompt).length ∧ pieces.length = 0 ∨
          pieces.length < loopBound model maxTokens prompt := by
      intro pieces hresponds
      have hle := length_predict_le model context hresponds.2
      rcases h with h | h | h
      · exact absurd (hresponds.decoded haccepted) (by rw [h]; decide)
      · exact .inl ⟨h, by omega⟩
      · refine .inr (Nat.lt_of_le_of_ne hle fun heq => ?_)
        exact predict_full_iff.mp ⟨pieces, hresponds.2, heq⟩ h
    refine ⟨⟨_, generateIn_eq haccepted hbatch.1 hbatch.2⟩, fun hprompt pieces hpieces => ⟨?_, fun hless => ?_⟩,
      fun hprompt pieces hpieces => ?_, positions model context maxTokens prompt⟩
    · have := hlength pieces hpieces
      omega
    · exact predict_stops hpieces.2 (by omega)
    · have := hlength pieces hpieces
      exact List.length_eq_zero_iff.mp (by omega)

end

/-! ## The best token -/

section Greedy

variable {α : Type} [LinearOrder α]

/-- The sampler returns the id of a candidate with a largest logit. -/
def Greedy {C : Type} (value : UInt32 → α) (sampler : C → List (Int32 × UInt32) → Int32) : Prop :=
  ∀ context candidates, candidates ≠ [] → ∃ c ∈ candidates,
    sampler context candidates = c.1 ∧ ∀ c' ∈ candidates, value c'.2 ≤ value c.2

/-- The same library with another sampler. -/
abbrev withSampler (lib : LlamaLibrary) (sampler : lib.Context → List (Int32 × UInt32) → Int32) :
    LlamaLibrary :=
  { lib with sampleTokenGreedy := sampler }

/-- The id is one of a vocabulary of `n` tokens, and no logit is larger than its own. -/
def IsBest (value : UInt32 → α) (n : Nat) (logits : List UInt32) (id : Int32) : Prop :=
  0 ≤ id.toInt ∧ id.toInt < n ∧
    ∀ j < n, value (logits.getD j 0) ≤ value (logits.getD id.toInt.toNat 0)

/-- Some logit is larger than zero, or none is larger than the first. -/
def Tells (value : UInt32 → α) (n : Nat) (logits : List UInt32) : Prop :=
  (∃ j < n, value 0 < value (logits.getD j 0)) ∨ ∀ j < n, value (logits.getD j 0) ≤ value (logits.getD 0 0)

variable {value : UInt32 → α} {logits : List UInt32}

theorem mem_candidates {c : Int32 × UInt32} : c ∈ candidates model logits ↔
    (lib.nVocab model ≠ 0 ∧ c = (0, 0)) ∨ ∃ j < lib.nVocab model, c = (.ofNat j, logits.getD j 0) := by
  unfold candidates
  rw [List.mem_append, List.mem_replicate, List.mem_map]
  refine or_congr Iff.rfl (exists_congr fun j => ?_)
  rw [List.mem_range]
  exact and_congr Iff.rfl eq_comm

/-- The candidates are those of no other logits of the vocabulary. -/
theorem tells_congr {logits' : List UInt32} (h : candidates model logits = candidates model logits') :
    Tells value (lib.nVocab model) logits ↔ Tells value (lib.nVocab model) logits' := by
  have hmap := List.append_cancel_left h
  have hlogit : ∀ j < lib.nVocab model, logits.getD j 0 = logits'.getD j 0 := fun j hj =>
    congrArg Prod.snd (List.map_inj_left.mp hmap j (List.mem_range.mpr hj))
  refine or_congr ?_ ?_
  · exact exists_congr fun j => and_congr_right fun hj => by rw [hlogit j hj]
  · refine forall_congr' fun j => forall_congr' fun hj => ?_
    rw [hlogit j hj, hlogit 0 (Nat.zero_lt_of_lt hj)]

/-- A greedy sampler finds the best token of logits that tell it. -/
theorem isBest_of_tells {C : Type} {sampler : C → List (Int32 × UInt32) → Int32} {c : C}
    (hgreedy : Greedy value sampler) (hpos : 1 ≤ lib.nVocab model) (hbound : lib.nVocab model < 2 ^ 31)
    (h : Tells value (lib.nVocab model) logits) :
    IsBest value (lib.nVocab model) logits (sampler c (candidates model logits)) := by
  have hzero : ((0 : Int32), (0 : UInt32)) ∈ candidates model logits :=
    mem_candidates.mpr (.inl ⟨by omega, rfl⟩)
  obtain ⟨best, hmem, hid, hbest⟩ := hgreedy c (candidates model logits) (List.ne_nil_of_mem hzero)
  have hlogits : ∀ j < lib.nVocab model, value (logits.getD j 0) ≤ value best.2 := fun j hj =>
    hbest (.ofNat j, logits.getD j 0) (mem_candidates.mpr (.inr ⟨j, hj, rfl⟩))
  rw [hid]
  rcases mem_candidates.mp hmem with ⟨-, rfl⟩ | ⟨i, hi, rfl⟩
  · -- a zero: no logit is larger than it, so it is the first one that is the best
    refine ⟨Int.le_refl 0, Int.natCast_pos.mpr hpos, ?_⟩
    rcases h with ⟨j, hj, hlt⟩ | h
    · exact absurd (hlogits j hj) (not_le_of_gt hlt)
    · exact h
  · have htoInt : (Int32.ofNat i).toInt = i := Int32.toInt_ofNat_of_lt (by omega)
    refine ⟨?_, ?_, ?_⟩
    · show 0 ≤ (Int32.ofNat i).toInt
      omega
    · show (Int32.ofNat i).toInt < _
      omega
    · show ∀ j < lib.nVocab model, _ ≤ value (logits.getD (Int32.ofNat i).toInt.toNat 0)
      rw [htoInt, Int.toNat_natCast]
      exact hlogits

open Classical in
/-- The sampler, except that it takes a zero wherever the logits do not tell. -/
noncomputable def misled (value : UInt32 → α) (model : lib.Model)
    (sampler : lib.Context → List (Int32 × UInt32) → Int32) (context : lib.Context)
    (cs : List (Int32 × UInt32)) : Int32 :=
  if ∃ logits, cs = candidates model logits ∧ ¬ Tells value (lib.nVocab model) logits then 0
  else sampler context cs

theorem misled_greedy {sampler : lib.Context → List (Int32 × UInt32) → Int32}
    (hgreedy : Greedy value sampler) (hpos : 1 ≤ lib.nVocab model) :
    Greedy value (misled value model sampler) := by
  intro context cs hne
  unfold misled
  split
  case isFalse => exact hgreedy context cs hne
  case isTrue h =>
    obtain ⟨logits, rfl, htells⟩ := h
    refine ⟨(0, 0), mem_candidates.mpr (.inl ⟨by omega, rfl⟩), rfl, fun c' hc' => ?_⟩
    rcases mem_candidates.mp hc' with ⟨-, rfl⟩ | ⟨j, hj, rfl⟩
    · exact le_refl _
    · exact le_of_not_gt fun hlt => htells (.inl ⟨j, hj, hlt⟩)

theorem misled_of_tells {sampler : lib.Context → List (Int32 × UInt32) → Int32}
    (h : Tells value (lib.nVocab model) logits) :
    misled value model sampler context (candidates model logits)
      = sampler context (candidates model logits) := by
  refine if_neg ?_
  rintro ⟨logits', heq, hnot⟩
  exact hnot ((tells_congr heq).mp h)

/-- A sampler that takes a zero does not find the best token of logits that do not tell it. -/
theorem tells_of_isBest_misled {sampler : lib.Context → List (Int32 × UInt32) → Int32}
    (h : IsBest value (lib.nVocab model) logits
      (misled value model sampler context (candidates model logits))) :
    Tells value (lib.nVocab model) logits := by
  by_contra hnot
  have hzero : misled value model sampler context (candidates model logits) = 0 :=
    if_pos ⟨logits, rfl, hnot⟩
  rw [hzero] at h
  exact hnot (.inr h.2.2)

/-- Samplers that agree on an iteration after the other make the same iterations. -/
theorem iterations_congr {sampler sampler' : lib.Context → List (Int32 × UInt32) → Int32} {n : Nat}
    (h : ∀ it' ∈ @iterations (withSampler lib sampler') model context n it,
      sampler context (candidates model (@Iteration.logits lib context it')) =
        sampler' context (candidates model (@Iteration.logits lib context it'))) :
    @iterations (withSampler lib sampler) model context n it =
      @iterations (withSampler lib sampler') model context n it := by
  induction n generalizing it with
  | zero => rfl
  | succ n ih =>
      obtain ⟨hhead, htail⟩ := List.forall_mem_cons.mp h
      have htoken : @Iteration.newTokenId (withSampler lib sampler) model context it =
          @Iteration.newTokenId (withSampler lib sampler') model context it := hhead
      have hnext : @Iteration.next (withSampler lib sampler) model context it =
          @Iteration.next (withSampler lib sampler') model context it := by
        unfold Iteration.next
        rw [htoken]
      -- the samplers agree on this iteration, so the next one is the same
      have hfollowing : @Iteration.following (withSampler lib sampler) model context it =
          @Iteration.following (withSampler lib sampler') model context it := by
        unfold Iteration.following
        rw [hnext]
      rw [iterations, iterations, htoken, hnext, hfollowing]
      congr 1
      by_cases heos : @Iteration.newTokenId (withSampler lib sampler') model context it = lib.eos model
      · rw [if_pos heos, if_pos heos]
      · rw [if_neg heos] at htail ⊢
        rw [if_neg heos]
        by_cases hdecode : lib.decode context it.cache
            (@Iteration.next (withSampler lib sampler') model context it) = true
        · rw [if_pos hdecode] at htail ⊢
          rw [if_pos hdecode]
          exact ih htail
        · rw [if_neg hdecode, if_neg hdecode]

theorem callIterations_congr {sampler sampler' : lib.Context → List (Int32 × UInt32) → Int32} {maxTokens : Int32}
    {prompt : String}
    (h : ∀ it ∈ @callIterations (withSampler lib sampler') model context maxTokens prompt,
      sampler context (candidates model (@Iteration.logits lib context it)) =
        sampler' context (candidates model (@Iteration.logits lib context it))) :
    @callIterations (withSampler lib sampler) model context maxTokens prompt =
      @callIterations (withSampler lib sampler') model context maxTokens prompt := by
  unfold callIterations at h ⊢
  by_cases hlooped : (lib.tokenize model prompt).length ≤ lib.nCtx context ∧
      lib.decode context [] (promptBatch (lib.tokenize model prompt)) = true
  · rw [if_pos hlooped] at h ⊢
    rw [if_pos hlooped]
    exact iterations_congr h
  · rw [if_neg hlooped, if_neg hlooped]

/-- **The best token**, whichever greedy sampler it is, in all iterations of a call: exactly where all their
logits tell it. -/
theorem picks_best_iff (value : UInt32 → α) (model : lib.Model) (context : lib.Context)
    (hpos : 1 ≤ lib.nVocab model) (hbound : lib.nVocab model < 2 ^ 31) (maxTokens : Int32) (prompt : String) :
    (∀ sampler, Greedy value sampler →
      ∀ it ∈ @callIterations (withSampler lib sampler) model context maxTokens prompt,
        IsBest value (lib.nVocab model) (@Iteration.logits lib context it)
          (@Iteration.newTokenId (withSampler lib sampler) model context it)) ↔
    ∀ sampler, Greedy value sampler →
      ∀ it ∈ @callIterations (withSampler lib sampler) model context maxTokens prompt,
        Tells value (lib.nVocab model) (@Iteration.logits lib context it) := by
  constructor
  · intro h sampler hgreedy
    -- a sampler that is misled wherever it can be finds the best tokens too, so it never is
    have htells : ∀ it ∈ @callIterations (withSampler lib (misled value model sampler)) model context
        maxTokens prompt, Tells value (lib.nVocab model) (@Iteration.logits lib context it) :=
      fun it hit => tells_of_isBest_misled (h _ (misled_greedy hgreedy hpos) it hit)
    have hsame : @callIterations (withSampler lib sampler) model context maxTokens prompt =
        @callIterations (withSampler lib (misled value model sampler)) model context maxTokens prompt :=
      callIterations_congr fun it hit => (misled_of_tells (htells it hit)).symm
    rw [hsame]
    exact htells
  · exact fun h sampler hgreedy it hit =>
      isBest_of_tells hgreedy hpos hbound (h sampler hgreedy it hit)

end Greedy

/-! ### A model of three tokens with low logits -/

/-- The order of floats, by their bits: the sign, and the magnitude. -/
def floatOrder (bits : UInt32) : Int :=
  if bits.toNat < 2 ^ 31 then bits.toNat else -(bits.toNat - 2 ^ 31)

/-- The first candidate with a largest logit. -/
def firstBest : List (Int32 × UInt32) → Int32 × UInt32
  | [] => (0, 0)
  | [c] => c
  | c :: c' :: cs =>
      let best := firstBest (c' :: cs)
      if floatOrder c.2 < floatOrder best.2 then best else c

theorem firstBest_spec {cs : List (Int32 × UInt32)} (h : cs ≠ []) :
    firstBest cs ∈ cs ∧ ∀ c ∈ cs, floatOrder c.2 ≤ floatOrder (firstBest cs).2 := by
  induction cs with
  | nil => exact absurd rfl h
  | cons c cs ih =>
      cases cs with
      | nil => simp [firstBest]
      | cons c' cs =>
          obtain ⟨hmem, hle⟩ := ih (List.cons_ne_nil c' cs)
          rw [firstBest]
          split
          case isTrue hlt => exact ⟨.tail c hmem, List.forall_mem_cons.mpr ⟨hlt.le, hle⟩⟩
          case isFalse hge =>
            exact ⟨.head _, List.forall_mem_cons.mpr ⟨le_refl _, fun d hd => (hle d hd).trans (not_lt.mp hge)⟩⟩

theorem greedy_firstBest : Greedy floatOrder fun (_ : Unit) cs => (firstBest cs).1 := fun _ _ h =>
  ⟨_, (firstBest_spec h).1, rfl, (firstBest_spec h).2⟩

/-- The logits are -2, -1 and -3, and the last token is the end of the sequence. -/
def lowLogits : LlamaLibrary where
  Model := Unit
  Context := Unit
  loadModelFromFile _ := some ()
  newContextWithModel _ _ _ _ := some ()
  tokenize _ prompt := 1 :: prompt.toList.map fun _ => 0
  nCtx _ := 1024
  nVocab _ := 3
  decode _ _ _ := true
  logitsIth _ _ _ := [0xC0000000, 0xBF800000, 0xC0400000]
  sampleTokenGreedy _ cs := (firstBest cs).1
  eos _ := 2
  tokenToPiece _ _ := "a"

theorem picks_best_iff_lowLogits :
    (∀ sampler, Greedy floatOrder sampler →
      ∀ it ∈ @callIterations (withSampler lowLogits sampler) () () 5 "hi",
        IsBest floatOrder 3 (@Iteration.logits lowLogits () it)
          (@Iteration.newTokenId (withSampler lowLogits sampler) () () it)) ↔
    ∀ sampler, Greedy floatOrder sampler →
      ∀ it ∈ @callIterations (withSampler lowLogits sampler) () () 5 "hi",
        Tells floatOrder 3 (@Iteration.logits lowLogits () it) :=
  @picks_best_iff lowLogits Int _ floatOrder () () (by decide) (by decide) 5 "hi"

/-- The second token is the best one, and the first one is picked. -/
theorem picks_zero : ¬ ∀ sampler, Greedy floatOrder sampler →
    ∀ it ∈ @callIterations (withSampler lowLogits sampler) () () 5 "hi",
      IsBest floatOrder 3 (@Iteration.logits lowLogits () it)
        (@Iteration.newTokenId (withSampler lowLogits sampler) () () it) := by
  intro h
  have hfirst := h _ greedy_firstBest _ (.head _)
  exact absurd (hfirst.2.2 1 (by decide)) (by decide)

theorem in_bounds_iff_lowLogits :
    (∃ response, @generateIn lowLogits defaultNBatch () () 5 "hi" = .ok response) ↔
      1 ≤ (lowLogits.tokenize () "hi").length ∧ (lowLogits.tokenize () "hi").length ≤ defaultNBatch :=
  @in_bounds_iff lowLogits () () 5 "hi" (by decide)

/-- A prompt of 600 tokens passes the check, and its token 512 is written after the end. -/
theorem out_of_bounds : ∃ prompt, (lowLogits.tokenize () prompt).length = 600 ∧
    (lowLogits.tokenize () prompt).length ≤ lowLogits.nCtx () ∧
    @generateIn lowLogits defaultNBatch () () 700 prompt = .error ⟨512⟩ := by
  have hlength : (lowLogits.tokenize () (String.ofList (List.replicate 599 'a'))).length = 600 := by
    show (1 :: (String.ofList (List.replicate 599 'a')).toList.map fun _ => (0 : Int32)).length = 600
    rw [List.length_cons, List.length_map, String.toList_ofList, List.length_replicate]
  have haccepted : 600 ≤ lowLogits.nCtx () := by decide
  refine ⟨String.ofList (List.replicate 599 'a'), hlength, hlength ▸ haccepted, ?_⟩
  exact @generateIn_of_gt lowLogits () () _ _ _ (hlength ▸ haccepted) (hlength ▸ by decide)

/-- With a limit of four tokens, three of the prompt are followed by two. -/
theorem exceeds_limit : @Responds lowLogits () () 4 "hi" ["a", "a"] ∧
    (lowLogits.tokenize () "hi").length = 3 ∧ ¬ @RespectsLimit lowLogits () () 4 "hi" := by
  have hresponds : @Responds lowLogits () () 4 "hi" ["a", "a"] :=
    @responds_of_pieces lowLogits () () 4 "hi" _ (by decide) (by decide) (by decide) rfl rfl
  refine ⟨hresponds, rfl, fun h => ?_⟩
  exact absurd (h.limit (by decide) _ hresponds).1 (by decide)

end GenC.LlamaCpp
