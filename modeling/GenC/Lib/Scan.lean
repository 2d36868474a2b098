import Mathlib.Data.List.Basic

/-!
# Scanning a text for tokens

A `Recognizer` says whether a token begins at the head of a text, and how many elements of it come after
the first. `scan` goes over a text once, from left to right: it takes the tokens that it meets, none of
which begins inside another, and keeps what is between them.

* `fill`, `Fills` — a scanned text with values for its tokens, which do not become part of what is scanned.
* `Replaces` — the replacement of keys by values in one such pass, at each place the longest key there is.
  Which value a key that is listed twice stands for is left open.

**`Replaces.fills`**: where the keys are the tokens, replacing them is filling the text.
-/

namespace GenC.Lib

variable {α β : Type}

abbrev Recognizer (α β : Type) := List α → Option (β × Nat)

/-- The text from after the first `skip` elements on, in tokens and what is not in one. -/
def scan (recognize : Recognizer α β) : Nat → List α → List (α ⊕ β)
  | _, [] => []
  | skip + 1, _ :: text => scan recognize skip text
  | 0, a :: text =>
      match recognize (a :: text) with
      | some (token, length) => .inr token :: scan recognize length text
      | none => .inl a :: scan recognize 0 text

/-- The tokens of a scanned text, in order. -/
def tokens (segments : List (α ⊕ β)) : List β := segments.filterMap Sum.getRight?

/-- A scanned text with each token replaced by its value. -/
def fill (value : β → List α) (segments : List (α ⊕ β)) : List α :=
  segments.flatMap (Sum.elim (fun a => [a]) value)

/-- The text is the scanned one with some value in place of each token, one that the token may have. -/
inductive Fills (given : β → List α → Prop) : List (α ⊕ β) → List α → Prop where
  | nil : Fills given [] []
  | keep {a : α} {segments : List (α ⊕ β)} {text : List α} (h : Fills given segments text) :
      Fills given (.inl a :: segments) (a :: text)
  | token {b : β} {value : List α} {segments : List (α ⊕ β)} {text : List α} (hvalue : given b value)
      (h : Fills given segments text) : Fills given (.inr b :: segments) (value ++ text)

theorem Fills.mono {given given' : β → List α → Prop} {segments : List (α ⊕ β)} {text : List α}
    (h : Fills given segments text) (hgiven : ∀ b ∈ tokens segments, ∀ v, given b v → given' b v) :
    Fills given' segments text := by
  induction h with
  | nil => exact .nil
  | keep _ ih => exact .keep (ih fun b hb => hgiven b hb)
  | @token b value segments text hvalue _ ih =>
      have htokens : tokens (.inr b :: segments) = b :: tokens segments := rfl
      rw [htokens, List.forall_mem_cons] at hgiven
      exact .token (hgiven.1 _ hvalue) (ih hgiven.2)

/-- Where each token has one value, that is the text. -/
theorem Fills.eq_fill {value : β → List α} {segments : List (α ⊕ β)} {text : List α}
    (h : Fills (fun b v => v = value b) segments text) : text = fill value segments := by
  induction h with
  | nil => rfl
  | keep _ ih => rw [ih]; rfl
  | token hvalue _ ih => rw [ih, hvalue]; rfl

section

variable {recognize : Recognizer α β} {a : α} {text : List α}

theorem scan_drop (recognize : Recognizer α β) (skip : Nat) (text : List α) :
    scan recognize skip text = scan recognize 0 (text.drop skip) := by
  induction text generalizing skip with
  | nil =>
      rw [List.drop_nil]
      cases skip <;> rfl
  | cons a text ih =>
      cases skip with
      | zero => rfl
      | succ skip => exact ih skip

theorem scan_of_some {b : β} {length : Nat} (h : recognize (a :: text) = some (b, length)) :
    scan recognize 0 (a :: text) = .inr b :: scan recognize 0 (text.drop length) := by
  rw [scan, h, ← scan_drop]

theorem scan_of_none (h : recognize (a :: text) = none) :
    scan recognize 0 (a :: text) = .inl a :: scan recognize 0 text := by
  rw [scan, h]

end

/-- What is found begins somewhere in the text. -/
theorem exists_of_mem_tokens {recognize : Recognizer α β} {b : β} {text : List α}
    (h : b ∈ tokens (scan recognize 0 text)) : ∃ rest length, recognize rest = some (b, length) := by
  induction hlength : text.length using Nat.strongRecOn generalizing text with
  | _ n ih =>
      cases text with
      | nil => cases h
      | cons a text =>
          -- a character is passed over, or a token is found and its text skipped
          cases hrecognize : recognize (a :: text) with
          | none =>
              rw [scan_of_none hrecognize] at h
              exact ih _ (by simp [← hlength]) h rfl
          | some token =>
              obtain ⟨b', length⟩ := token
              rw [scan_of_some hrecognize] at h
              rcases List.mem_cons.mp h with rfl | h
              · exact ⟨_, _, hrecognize⟩
              · exact ih _ (by simp only [List.length_drop, List.length_cons, ← hlength]; omega) h rfl

/-- No token begins inside another one. -/
def Apart (recognize : Recognizer α β) : Prop := ∀ ⦃a text b length⦄,
  recognize (a :: text) = some (b, length) → ∀ k < length, recognize (text.drop k) = none

/-- So the scan misses no token, wherever in the text it is. -/
theorem Apart.mem_tokens {recognize : Recognizer α β} (happart : Apart recognize) {text rest : List α}
    {b : β} {length : Nat} (hsuffix : rest <:+ text) (hne : rest ≠ [])
    (h : recognize rest = some (b, length)) : b ∈ tokens (scan recognize 0 text) := by
  induction hlength : text.length using Nat.strongRecOn generalizing text with
  | _ n ih =>
      cases text with
      | nil => exact (hne (List.suffix_nil.mp hsuffix)).elim
      | cons a text =>
          have hshort : ∀ k, (text.drop k).length < n := by
            intro k
            rw [List.length_drop, ← hlength, List.length_cons]
            omega
          rcases List.suffix_cons_iff.mp hsuffix with rfl | hsuffix
          · rw [scan_of_some h]
            exact List.mem_cons_self ..
          · cases hrecognize : recognize (a :: text) with
            | none =>
                rw [scan_of_none hrecognize]
                exact ih _ (hshort 0) hsuffix rfl
            | some token =>
                obtain ⟨b', length'⟩ := token
                rw [scan_of_some hrecognize]
                refine List.mem_cons_of_mem _ (ih _ (hshort _) ?_ rfl)
                -- the other token does not begin before this one ends
                rw [List.suffix_iff_eq_drop] at hsuffix ⊢
                by_cases hk : text.length - rest.length < length'
                · have hnone := happart hrecognize _ hk
                  rw [← hsuffix, h] at hnone
                  cases hnone
                · rw [List.drop_drop, List.length_drop]
                  have hle : rest.length ≤ text.length := by
                    rw [hsuffix, List.length_drop]
                    omega
                  have hsame : length' + (text.length - length' - rest.length) =
                      text.length - rest.length := by omega
                  rw [hsame]
                  exact hsuffix

/-! ## Replacing -/

/-- A key begins the text. -/
def Begins (key text : List α) : Prop := key ≠ [] ∧ key <+: text

/-- One pass over the text, from left to right: at a place where keys begin, the longest of them is
replaced by a value listed for it, and the pass goes on behind it. -/
inductive Replaces (replacements : List (List α × List α)) : List α → List α → Prop where
  | nil : Replaces replacements [] []
  | keep {a : α} {text result : List α} (hnone : ∀ p ∈ replacements, ¬Begins p.1 (a :: text))
      (h : Replaces replacements text result) : Replaces replacements (a :: text) (a :: result)
  | replace {key value text result : List α} (hmem : (key, value) ∈ replacements) (hne : key ≠ [])
      (hlongest : ∀ p ∈ replacements, Begins p.1 (key ++ text) → p.1.length ≤ key.length)
      (h : Replaces replacements text result) : Replaces replacements (key ++ text) (value ++ result)

/-- Each key is a token, whatever comes after it, and each token of the text is a key. Then the text is
filled with values listed for the keys. -/
theorem Replaces.fills {recognize : Recognizer α β} {given : β → List α → Prop}
    {replacements : List (List α × List α)} {text result : List α}
    (hkeys : ∀ p ∈ replacements, ∀ rest, ∃ b,
      recognize (p.1 ++ rest) = some (b, p.1.length - 1) ∧ given b p.2)
    (h : Replaces replacements text result)
    (htokens : ∀ b ∈ tokens (scan recognize 0 text), ∀ rest length, recognize rest = some (b, length) →
      ∃ p ∈ replacements, Begins p.1 rest) :
    Fills given (scan recognize 0 text) result := by
  induction h with
  | nil => exact .nil
  | @keep a text result hnone _ ih =>
      cases hrecognize : recognize (a :: text) with
      | some token =>
          -- a token would be a key
          obtain ⟨b, length⟩ := token
          rw [scan_of_some hrecognize] at htokens
          obtain ⟨p, hp, hbegins⟩ := htokens b (List.mem_cons_self ..) _ _ hrecognize
          exact (hnone p hp hbegins).elim
      | none =>
          rw [scan_of_none hrecognize] at htokens ⊢
          exact .keep (ih htokens)
  | @replace key value text result hmem hne _ _ ih =>
      obtain ⟨b, hrecognize, hvalue⟩ := hkeys _ hmem text
      cases key with
      | nil => exact (hne rfl).elim
      | cons a key =>
          rw [List.cons_append] at hrecognize htokens ⊢
          have hdrop : (key ++ text).drop ((a :: key).length - 1) = text := by simp
          rw [scan_of_some hrecognize, hdrop] at htokens ⊢
          exact .token hvalue (ih fun b hb => htokens b (List.mem_cons_of_mem _ hb))

/-- The pass puts something in place of every token: nothing is kept at a place where a token begins. -/
inductive Replaces.Each (recognize : Recognizer α β) (replacements : List (List α × List α)) :
    List α → List α → Prop where
  | nil : Each recognize replacements [] []
  | keep {a : α} {text result : List α} (hnone : recognize (a :: text) = none)
      (h : Each recognize replacements text result) :
      Each recognize replacements (a :: text) (a :: result)
  | replace {key value text result : List α} (hmem : (key, value) ∈ replacements)
      (h : Each recognize replacements text result) :
      Each recognize replacements (key ++ text) (value ++ result)

theorem Replaces.each {recognize : Recognizer α β} {replacements : List (List α × List α)}
    {text result : List α} (h : Replaces replacements text result)
    (hkey : ∀ rest, rest <:+ text → rest ≠ [] → recognize rest ≠ none → ∃ p ∈ replacements, Begins p.1 rest) :
    Replaces.Each recognize replacements text result := by
  induction h with
  | nil => exact .nil
  | @keep a text result hnone _ ih =>
      refine .keep ?_ (ih fun rest hrest => hkey rest (hrest.trans (List.suffix_cons a text)))
      by_contra hsome
      obtain ⟨p, hp, hbegins⟩ := hkey _ List.suffix_rfl (List.cons_ne_nil a text) hsome
      exact hnone p hp hbegins
  | replace hmem _ _ _ ih =>
      exact .replace hmem (ih fun rest hrest => hkey rest (hrest.trans (List.suffix_append _ _)))

/-! ### A function that replaces -/

section

variable [DecidableEq α]

/-- The longest key at the head of the text, and of several entries for it the first. -/
def longestKey (text : List α) : List (List α × List α) → Option (List α × List α)
  | [] => none
  | p :: replacements =>
      match longestKey text replacements with
      | some q =>
          if p.1 ≠ [] ∧ p.1.isPrefixOf text ∧ q.1.length ≤ p.1.length then some p else some q
      | none => if p.1 ≠ [] ∧ p.1.isPrefixOf text then some p else none

/-- The value of the key at the head of the text, as a token. -/
def keyAt (replacements : List (List α × List α)) : Recognizer α (List α) := fun text =>
  (longestKey text replacements).map fun p => (p.2, p.1.length - 1)

def replaceAll (replacements : List (List α × List α)) (text : List α) : List α :=
  fill id (scan (keyAt replacements) 0 text)

theorem longestKey_spec (text : List α) (replacements : List (List α × List α)) :
    match longestKey text replacements with
    | some p => p ∈ replacements ∧ Begins p.1 text ∧
        ∀ q ∈ replacements, Begins q.1 text → q.1.length ≤ p.1.length
    | none => ∀ q ∈ replacements, ¬Begins q.1 text := by
  induction replacements with
  | nil => exact fun _ h => (nomatch h)
  | cons p replacements ih =>
      unfold longestKey
      simp only [List.isPrefixOf_iff_prefix]
      cases hrest : longestKey text replacements with
      | some q =>
          rw [hrest] at ih
          grind [Begins]
      | none =>
          rw [hrest] at ih
          grind [Begins]

theorem replaces_replaceAll (replacements : List (List α × List α)) (text : List α) :
    Replaces replacements text (replaceAll replacements text) := by
  induction hlength : text.length using Nat.strongRecOn generalizing text with
  | _ n ih =>
      cases text with
      | nil => exact .nil
      | cons a text =>
          -- at each place the longest key that fits is replaced, or a character is kept
          have hspec := longestKey_spec (a :: text) replacements
          unfold replaceAll
          cases hkey : longestKey (a :: text) replacements with
          | none =>
              rw [hkey] at hspec
              have hat : keyAt replacements (a :: text) = none := by rw [keyAt, hkey, Option.map_none]
              rw [scan_of_none hat]
              exact .keep hspec (ih _ (by simp [← hlength]) text rfl)
          | some p =>
              obtain ⟨key, value⟩ := p
              rw [hkey] at hspec
              obtain ⟨hmem, ⟨hne, rest, hrest⟩, hlongest⟩ := hspec
              have hat : keyAt replacements (a :: text) = some (value, key.length - 1) := by
                rw [keyAt, hkey, Option.map_some]
              rw [scan_of_some hat]
              cases key with
              | nil => exact (hne rfl).elim
              | cons a' key =>
                  rw [List.cons_append] at hrest
                  obtain ⟨rfl, rfl⟩ := List.cons.inj hrest
                  have hdrop : (key ++ rest).drop ((a' :: key).length - 1) = rest := by simp
                  rw [hdrop]
                  have hlt : rest.length < n := by
                    rw [← hlength, List.length_cons, List.length_append]
                    omega
                  exact .replace hmem hne hlongest (ih _ hlt rest rfl)

end

end GenC.Lib
