import Mathlib.Data.List.Infix

/-!
# Regular expressions

Regular expressions with one capturing group, searched as a backtracking search does it: `Regex.allMatches`
lists the matches at the beginning of a text in the order in which they are tried, and `Regex.search` takes
the first one at the leftmost place that has any. Repetition is of single characters.
-/

namespace GenC.Lib

/-! ## Texts in a text -/

section Infix

variable {marker before after input tail : List Char} {separator c head : Char}

/-- An occurrence is before a character that is not in it, or after it. -/
theorem infix_append_cons (h : separator ∉ marker) (hoccurs : marker <:+: before ++ separator :: after) :
    marker <:+: before ∨ marker <:+: after := by
  obtain ⟨left, right, heq⟩ := hoccurs
  rw [List.append_assoc] at heq
  -- the marker ends before the separator or starts after it, or it would have the separator inside
  rcases List.append_eq_append_iff.mp heq with ⟨part, rfl, hright⟩ | ⟨part, rfl, hafter⟩
  · rcases List.append_eq_append_iff.mp hright with ⟨part', rfl, -⟩ | ⟨part', rfl, hcons⟩
    · exact .inl (List.infix_append' left marker part')
    · cases part' with
      | nil =>
          rw [List.append_nil]
          exact .inl (List.suffix_append left part).isInfix
      | cons c part' =>
          rw [(List.cons.inj hcons).1] at h
          exact absurd (List.mem_append_right _ List.mem_cons_self) h
  · cases part with
    | nil =>
        cases marker with
        | nil => exact .inl (List.nil_infix)
        | cons c marker =>
            rw [(List.cons.inj hafter).1] at h
            exact absurd List.mem_cons_self h
    | cons c part =>
        have hafter' : after = part ++ (marker ++ right) := (List.cons.inj hafter).2
        rw [hafter', ← List.append_assoc]
        exact .inr (List.infix_append part marker right)

/-- A text of which the first character does not come again does not begin within itself. -/
theorem not_prefix_append (hhead : head ∉ tail) (h : ¬head :: tail <:+: c :: before) :
    ¬head :: tail <+: c :: before ++ (head :: tail ++ after) := by
  intro hprefix
  rcases List.prefix_or_prefix_of_prefix hprefix (List.prefix_append (c :: before) _) with hle | ⟨part, hpart⟩
  · exact h hle.isInfix
  · rw [← hpart, List.prefix_append_right_inj] at hprefix
    cases part with
    | nil =>
        rw [← hpart, List.append_nil] at h
        exact h (List.infix_refl _)
    | cons d part =>
        -- a marker that starts inside would have its first character twice
        have htail : before ++ d :: part = tail := (List.cons.inj hpart).2
        have hd : d = c := (List.cons_prefix_cons.mp hprefix).1
        have hc : c = head := (List.cons.inj hpart).1
        refine hhead ?_
        rw [← htail, hd, hc]
        exact List.mem_append_right _ List.mem_cons_self

/-- The first occurrence. -/
theorem exists_first (h : marker <:+: input) (hne : marker ≠ []) :
    ∃ before after, input = before ++ (marker ++ after) ∧ ¬marker <:+: before := by
  induction input with
  | nil => exact absurd (List.infix_nil.mp h) hne
  | cons c input ih =>
      by_cases hprefix : marker <+: c :: input
      · obtain ⟨after, hafter⟩ := hprefix
        exact ⟨[], after, hafter.symm, fun h => hne (List.infix_nil.mp h)⟩
      · obtain ⟨before, after, rfl, hnot⟩ := ih ((List.infix_cons_iff.mp h).resolve_left hprefix)
        refine ⟨c :: before, after, rfl, ?_⟩
        intro hoccurs
        rcases List.infix_cons_iff.mp hoccurs with hbefore | hbefore
        · exact hprefix (hbefore.trans (List.prefix_append _ _))
        · exact hnot hbefore

end Infix

/-! ## Expressions -/

structure Match where
  taken : List Char
  /-- What the group took, if it took part. -/
  captured : Option (List Char)
  rest : List Char
  deriving Repr, DecidableEq

inductive Regex where
  | literal (s : List Char)
  | char (p : Char → Bool)
  | concat (r s : Regex)
  /-- `r?` -/
  | optional (r : Regex)
  /-- `p*` -/
  | star (p : Char → Bool)
  /-- `p*?` -/
  | lazyStar (p : Char → Bool)
  /-- `(r)` -/
  | group (r : Regex)

namespace Match

def empty (rest : List Char) : Match := ⟨[], none, rest⟩

def cons (c : Char) (m : Match) : Match := { m with taken := c :: m.taken }

def capture (m : Match) : Match := { m with captured := some m.taken }

/-- A match, and one of what it left. -/
def append (m m' : Match) : Match := ⟨m.taken ++ m'.taken, m'.captured.or m.captured, m'.rest⟩

end Match

namespace Regex

/-- As much as possible first. -/
def starMatches (p : Char → Bool) : List Char → List Match
  | [] => [.empty []]
  | c :: text => (if p c then (starMatches p text).map (·.cons c) else []) ++ [.empty (c :: text)]

/-- As little as possible first. -/
def lazyStarMatches (p : Char → Bool) : List Char → List Match
  | [] => [.empty []]
  | c :: text => .empty (c :: text) :: if p c then (lazyStarMatches p text).map (·.cons c) else []

def allMatches : Regex → List Char → List Match
  | .literal s, input => if s <+: input then [⟨s, none, input.drop s.length⟩] else []
  | .char p, input =>
      match input with
      | [] => []
      | c :: rest => if p c then [⟨[c], none, rest⟩] else []
  | .concat r s, input => (r.allMatches input).flatMap fun m => (s.allMatches m.rest).map m.append
  | .optional r, input => r.allMatches input ++ [.empty input]
  | .star p, input => starMatches p input
  | .lazyStar p, input => lazyStarMatches p input
  | .group r, input => (r.allMatches input).map Match.capture

/-- The match that is tried first. -/
def first (r : Regex) (input : List Char) : Option Match := (r.allMatches input).head?

def search (r : Regex) : List Char → Option Match
  | [] => r.first []
  | c :: input => (r.first (c :: input)).or (search r input)

/-! ## What a match takes -/

/-- The match takes a beginning of the input, and what it captures is part of that. -/
structure IsMatch (input : List Char) (m : Match) : Prop where
  input_eq : m.taken ++ m.rest = input
  captured_infix : ∀ captured ∈ m.captured, captured <:+: m.taken

theorem IsMatch.empty (input : List Char) : IsMatch input (.empty input) := ⟨rfl, nofun⟩

theorem IsMatch.cons {input : List Char} {m : Match} (h : IsMatch input m) (c : Char) :
    IsMatch (c :: input) (m.cons c) where
  input_eq := congrArg (c :: ·) h.input_eq
  captured_infix captured hmem := (h.captured_infix captured hmem).trans (List.suffix_cons c _).isInfix

theorem IsMatch.append {input : List Char} {m m' : Match} (h : IsMatch input m) (h' : IsMatch m.rest m') :
    IsMatch input (m.append m') where
  input_eq := by
    rw [← h.input_eq, ← h'.input_eq]
    exact List.append_assoc ..
  captured_infix captured hmem := by
    rcases Option.or_eq_some_iff.mp hmem with hmem' | ⟨-, hmem'⟩
    · exact (h'.captured_infix captured hmem').trans (List.suffix_append _ _).isInfix
    · exact (h.captured_infix captured hmem').trans (List.prefix_append _ _).isInfix

theorem of_mem_starMatches (p : Char → Bool) {input : List Char} {m : Match} (h : m ∈ starMatches p input) :
    IsMatch input m ∧ m.captured = none ∧ ∀ c ∈ m.taken, p c = true := by
  induction input generalizing m with
  | nil =>
      cases List.mem_singleton.mp h
      exact ⟨.empty [], rfl, nofun⟩
  | cons c input ih =>
      rw [starMatches, List.mem_append, List.mem_singleton] at h
      rcases h with h | rfl
      · split at h
        · next hc =>
            obtain ⟨m, hm, rfl⟩ := List.mem_map.mp h
            obtain ⟨hmatch, hcaptured, htaken⟩ := ih hm
            exact ⟨hmatch.cons c, hcaptured, List.forall_mem_cons.mpr ⟨hc, htaken⟩⟩
        · cases h
      · exact ⟨.empty _, rfl, nofun⟩

theorem of_mem_lazyStarMatches (p : Char → Bool) {input : List Char} {m : Match}
    (h : m ∈ lazyStarMatches p input) : IsMatch input m ∧ m.captured = none ∧ ∀ c ∈ m.taken, p c = true := by
  induction input generalizing m with
  | nil =>
      cases List.mem_singleton.mp h
      exact ⟨.empty [], rfl, nofun⟩
  | cons c input ih =>
      rw [lazyStarMatches, List.mem_cons] at h
      rcases h with rfl | h
      · exact ⟨.empty _, rfl, nofun⟩
      · split at h
        · next hc =>
            obtain ⟨m, hm, rfl⟩ := List.mem_map.mp h
            obtain ⟨hmatch, hcaptured, htaken⟩ := ih hm
            exact ⟨hmatch.cons c, hcaptured, List.forall_mem_cons.mpr ⟨hc, htaken⟩⟩
        · cases h

theorem isMatch_of_mem {r : Regex} {input : List Char} {m : Match} (h : m ∈ r.allMatches input) :
    IsMatch input m := by
  induction r generalizing input m with
  | literal s =>
      rw [allMatches] at h
      split at h
      · next hprefix =>
          cases List.mem_singleton.mp h
          exact ⟨List.prefix_iff_eq_append.mp hprefix, nofun⟩
      · cases h
  | char p =>
      cases input with
      | nil => cases h
      | cons c input =>
          rw [allMatches] at h
          split at h
          · cases List.mem_singleton.mp h
            exact ⟨rfl, nofun⟩
          · cases h
  | concat r s ihr ihs =>
      obtain ⟨m₁, hm₁, h⟩ := List.mem_flatMap.mp h
      obtain ⟨m₂, hm₂, rfl⟩ := List.mem_map.mp h
      exact (ihr hm₁).append (ihs hm₂)
  | optional r ih =>
      rcases List.mem_append.mp h with h | h
      · exact ih h
      · cases List.mem_singleton.mp h
        exact .empty input
  | star p => exact (of_mem_starMatches p h).1
  | lazyStar p => exact (of_mem_lazyStarMatches p h).1
  | group r ih =>
      obtain ⟨m, hm, rfl⟩ := List.mem_map.mp h
      refine ⟨(ih hm).input_eq, ?_⟩
      rintro captured ⟨⟩
      exact List.infix_refl _

/-- The expression takes characters of a class only. -/
def Over (q : Char → Prop) : Regex → Prop
  | .literal s => ∀ c ∈ s, q c
  | .char p | .star p | .lazyStar p => ∀ c, p c = true → q c
  | .concat r s => r.Over q ∧ s.Over q
  | .optional r | .group r => r.Over q

/-- Its group does. -/
def CapturesOver (q : Char → Prop) : Regex → Prop
  | .literal _ | .char _ | .star _ | .lazyStar _ => True
  | .concat r s => r.CapturesOver q ∧ s.CapturesOver q
  | .optional r => r.CapturesOver q
  | .group r => r.Over q

variable {q : Char → Prop}

theorem Over.taken {r : Regex} (hr : r.Over q) {input : List Char} {m : Match} (h : m ∈ r.allMatches input) :
    ∀ c ∈ m.taken, q c := by
  induction r generalizing input m with
  | literal s =>
      rw [allMatches] at h
      split at h
      · cases List.mem_singleton.mp h
        exact hr
      · cases h
  | char p =>
      cases input with
      | nil => cases h
      | cons c input =>
          rw [allMatches] at h
          split at h
          · next hc =>
              cases List.mem_singleton.mp h
              exact List.forall_mem_singleton.mpr (hr c hc)
          · cases h
  | concat r s ihr ihs =>
      obtain ⟨m₁, hm₁, h⟩ := List.mem_flatMap.mp h
      obtain ⟨m₂, hm₂, rfl⟩ := List.mem_map.mp h
      exact List.forall_mem_append.mpr ⟨ihr hr.1 hm₁, ihs hr.2 hm₂⟩
  | optional r ih =>
      rcases List.mem_append.mp h with h | h
      · exact ih hr h
      · cases List.mem_singleton.mp h
        exact List.forall_mem_nil _
  | star p => exact fun c hc => hr c ((of_mem_starMatches p h).2.2 c hc)
  | lazyStar p => exact fun c hc => hr c ((of_mem_lazyStarMatches p h).2.2 c hc)
  | group r ih =>
      obtain ⟨m, hm, rfl⟩ := List.mem_map.mp h
      have htaken := ih hr hm
      exact htaken

theorem CapturesOver.captured {r : Regex} (hr : r.CapturesOver q) {input : List Char} {m : Match}
    (h : m ∈ r.allMatches input) {captured : List Char} (hcaptured : captured ∈ m.captured) :
    ∀ c ∈ captured, q c := by
  induction r generalizing input m with
  | literal s =>
      rw [allMatches] at h
      split at h
      · cases List.mem_singleton.mp h
        cases hcaptured
      · cases h
  | char p =>
      cases input with
      | nil => cases h
      | cons c input =>
          rw [allMatches] at h
          split at h
          · cases List.mem_singleton.mp h
            cases hcaptured
          · cases h
  | concat r s ihr ihs =>
      obtain ⟨m₁, hm₁, h⟩ := List.mem_flatMap.mp h
      obtain ⟨m₂, hm₂, rfl⟩ := List.mem_map.mp h
      -- a group in the second part comes before one in the first
      rcases Option.or_eq_some_iff.mp hcaptured with hcaptured | ⟨-, hcaptured⟩
      · exact ihs hr.2 hm₂ hcaptured
      · exact ihr hr.1 hm₁ hcaptured
  | optional r ih =>
      rcases List.mem_append.mp h with h | h
      · exact ih hr h hcaptured
      · cases List.mem_singleton.mp h
        cases hcaptured
  | star p => cases (of_mem_starMatches p h).2.1.symm.trans hcaptured
  | lazyStar p => cases (of_mem_lazyStarMatches p h).2.1.symm.trans hcaptured
  | group r ih =>
      obtain ⟨m, hm, rfl⟩ := List.mem_map.mp h
      cases hcaptured
      exact Over.taken hr hm

/-! ## What a search finds -/

/-- A search finds what is tried first at some place. -/
theorem exists_of_search {r : Regex} {input : List Char} {m : Match} (h : r.search input = some m) :
    ∃ before after, before ++ after = input ∧ r.first after = some m := by
  induction input with
  | nil => exact ⟨[], [], rfl, h⟩
  | cons c input ih =>
      rcases Option.or_eq_some_iff.mp h with h | ⟨-, h⟩
      · exact ⟨[], c :: input, rfl, h⟩
      · obtain ⟨before, after, rfl, hfirst⟩ := ih h
        exact ⟨c :: before, after, rfl, hfirst⟩

theorem mem_of_first {r : Regex} {input : List Char} {m : Match} (h : r.first input = some m) :
    m ∈ r.allMatches input := List.mem_of_head? h

/-- What is captured is part of the text, and of the class. -/
theorem CapturesOver.search {r : Regex} (hr : r.CapturesOver q) {input captured : List Char} {m : Match}
    (h : r.search input = some m) (hcaptured : captured ∈ m.captured) :
    captured <:+: input ∧ ∀ c ∈ captured, q c := by
  obtain ⟨before, after, rfl, hfirst⟩ := exists_of_search h
  have hmem := mem_of_first hfirst
  have hmatch := isMatch_of_mem hmem
  refine ⟨?_, hr.captured hmem hcaptured⟩
  have hoccurs : captured <:+: after := by
    rw [← hmatch.input_eq]
    exact (hmatch.captured_infix captured hcaptured).trans (List.prefix_append _ _).isInfix
  exact hoccurs.trans (List.suffix_append _ _).isInfix

/-! ## What is tried first

One rule for each expression that another one follows. -/

variable {r s : Regex} {p : Char → Bool} {c : Char} {input marker : List Char}

/-- What is captured first, which is all that a search is for. -/
def captured (r : Regex) (input : List Char) : Option (Option (List Char)) := (r.first input).map Match.captured

theorem captured_concat (r s : Regex) (input : List Char) :
    (concat r s).captured input =
      (r.allMatches input).findSome? fun m => (s.captured m.rest).map (·.or m.captured) := by
  rw [captured, first, allMatches, List.head?_flatMap, List.map_findSome?]
  congr 1
  funext m
  simp only [Function.comp, List.head?_map, captured, first, Option.map_map]
  rfl

theorem captured_literal (marker input : List Char) :
    (concat (.literal marker) s).captured (marker ++ input) = s.captured input := by
  rw [captured_concat, allMatches, if_pos (List.prefix_append _ _), List.drop_left]
  simp

theorem captured_literal_eq_none (h : ¬marker <+: input) :
    (concat (.literal marker) s).captured input = none := by
  rw [captured_concat, allMatches, if_neg h]
  rfl

theorem captured_char (h : p c = true) : (concat (.char p) s).captured (c :: input) = s.captured input := by
  rw [captured_concat, allMatches, if_pos h]
  simp

theorem captured_char_eq_none (h : p c = false) : (concat (.char p) s).captured (c :: input) = none := by
  rw [captured_concat, allMatches, if_neg (Bool.eq_false_iff.mp h)]
  rfl

theorem captured_char_nil : (concat (.char p) s).captured [] = none := by
  rw [captured_concat]
  rfl

theorem captured_star_nil : (concat (.star p) s).captured [] = s.captured [] := by
  rw [captured_concat, allMatches, starMatches]
  simp [Match.empty]

theorem captured_star_of_not (h : p c = false) :
    (concat (.star p) s).captured (c :: input) = s.captured (c :: input) := by
  rw [captured_concat, allMatches, starMatches, h]
  simp [Match.empty]

theorem captured_star (h : p c = true) :
    (concat (.star p) s).captured (c :: input) =
      ((concat (.star p) s).captured input).or (s.captured (c :: input)) := by
  rw [captured_concat, captured_concat, allMatches, allMatches, starMatches, if_pos h, List.findSome?_append,
    List.findSome?_map]
  congr 1
  simp [Match.empty]

theorem captured_optional : (concat (.optional r) s).captured input =
    ((concat r s).captured input).or (s.captured input) := by
  rw [captured_concat, captured_concat, allMatches, List.findSome?_append]
  congr 1
  simp [Match.empty]

theorem captured_group (r s : Regex) (input : List Char) :
    (concat (.group r) s).captured input =
      (r.allMatches input).findSome? fun m => (s.captured m.rest).map (·.or (some m.taken)) := by
  rw [captured_concat, allMatches, List.findSome?_map]
  rfl

/-- `(p*?)q` takes up to the first character of `q`. -/
theorem captured_lazyGroup {q : Char → Bool} {d : Char} {part : List Char}
    (hpart : ∀ c ∈ part, p c = true ∧ q c = false) (hd : q d = true) (rest : List Char) :
    (concat (.group (.lazyStar p)) (.char q)).captured (part ++ d :: rest) = some (some part) := by
  -- the lazy star takes one character after the other until the next one fits
  have hgeneral (taken : List Char) : ((lazyStarMatches p (part ++ d :: rest)).findSome? fun m =>
      ((char q).captured m.rest).map (·.or (some (taken ++ m.taken)))) = some (some (taken ++ part)) := by
    induction part generalizing taken with
    | nil =>
        rw [List.nil_append, lazyStarMatches, List.findSome?_cons]
        simp [Match.empty, captured, first, allMatches, hd]
    | cons c part ih =>
        obtain ⟨⟨hp, hq⟩, hpart⟩ := List.forall_mem_cons.mp hpart
        have hcons := ih hpart (taken ++ [c])
        rw [List.append_assoc, List.singleton_append] at hcons
        rw [List.cons_append, lazyStarMatches, if_pos hp, List.findSome?_cons, List.findSome?_map, ← hcons]
        simp [Match.empty, Match.cons, Function.comp_def, captured, first, allMatches, hq]
  rw [captured_group]
  exact hgeneral []

theorem captured_lazyGroup_eq_none {q : Char → Bool} (h : ∀ c ∈ input, q c = false) :
    (concat (.group (.lazyStar p)) (.char q)).captured input = none := by
  rw [captured_group, List.findSome?_eq_none_iff]
  intro m hm
  have hrest : ∀ c ∈ m.rest, q c = false := by
    intro c hc
    refine h c ?_
    rw [← (of_mem_lazyStarMatches p hm).1.input_eq]
    exact List.mem_append_right _ hc
  rcases hinput : m.rest with _ | ⟨c, rest⟩
  · rfl
  · rw [hinput] at hrest
    simp [captured, first, allMatches, hrest c List.mem_cons_self]

theorem head?_starMatches (p : Char → Bool) (input : List Char) :
    (starMatches p input).head? = some ⟨input.takeWhile p, none, input.dropWhile p⟩ := by
  induction input with
  | nil => rfl
  | cons c input ih =>
      cases hc : p c with
      | true => simp [starMatches, hc, ih, Match.cons]
      | false => simp [starMatches, hc, Match.empty]

/-- `(p+)` takes as many characters as there are. -/
theorem captured_plusGroup (h : p c = true) (input : List Char) :
    (group (.concat (.char p) (.star p))).captured (c :: input) = some (some (c :: input.takeWhile p)) := by
  simp [captured, first, allMatches, h, head?_starMatches, Match.append, Match.capture]

theorem captured_plusGroup_eq_none (h : ∀ c ∈ input.head?, p c = false) :
    (group (.concat (.char p) (.star p))).captured input = none := by
  cases input with
  | nil => rfl
  | cons c input => simp [captured, first, allMatches, h c rfl]

theorem literal_prefix_of_captured {part : List Char}
    (h : (group (.concat (.literal marker) r)).captured input = some (some part)) : marker <+: part := by
  obtain ⟨m, hm, hpart⟩ := Option.map_eq_some_iff.mp h
  obtain ⟨m₁, hm₁, rfl⟩ := List.mem_map.mp (mem_of_first hm)
  cases hpart
  obtain ⟨m₂, hm₂, h⟩ := List.mem_flatMap.mp hm₁
  obtain ⟨m₃, -, rfl⟩ := List.mem_map.mp h
  rw [allMatches] at hm₂
  split at hm₂
  · cases List.mem_singleton.mp hm₂
    exact List.prefix_append _ _
  · cases hm₂

/-! ## Searching -/

/-- What a search captures. -/
def found (r : Regex) (input : List Char) : Option (Option (List Char)) := (r.search input).map Match.captured

theorem found_cons (r : Regex) (c : Char) (input : List Char) :
    r.found (c :: input) = (r.captured (c :: input)).or (r.found input) := Option.map_or

theorem found_of_captured {result : Option (List Char)} (h : r.captured input = some result) :
    r.found input = some result := by
  cases input with
  | nil => exact h
  | cons c input => rw [found_cons, h, Option.some_or]

theorem exists_of_found {result : Option (List Char)} (h : r.found input = some result) :
    ∃ before after, before ++ after = input ∧ r.captured after = some result := by
  obtain ⟨m, hm, rfl⟩ := Option.map_eq_some_iff.mp h
  obtain ⟨before, after, rfl, hfirst⟩ := exists_of_search hm
  refine ⟨before, after, rfl, ?_⟩
  rw [captured, hfirst]
  rfl

/-- The search begins at the first marker. -/
theorem found_append {head : Char} {tail before : List Char} (hhead : head ∉ tail)
    (h : ¬head :: tail <:+: before) (rest : List Char) :
    (concat (.literal (head :: tail)) s).found (before ++ (head :: tail ++ rest)) =
      (concat (.literal (head :: tail)) s).found (head :: tail ++ rest) := by
  induction before with
  | nil => rfl
  | cons c before ih =>
      rw [List.cons_append, found_cons, ← List.cons_append,
        captured_literal_eq_none (not_prefix_append hhead h), Option.none_or]
      exact ih fun hoccurs => h (hoccurs.trans (List.suffix_cons c before).isInfix)

end Regex

end GenC.Lib
