import Mathlib.Tactic.Common
import Tabular.Text.Pattern

/-!
# What patterns match

Matching is a relation between a pattern, a part of a text with what stands before and after it, and
the groups that are captured. A search is any function that finds a matching part if there is one,
and gives its groups; which part it finds if there are several is left open. The search for the
first place, with the preferences of the pattern, is one of them.

## Main definitions

* `Pattern.Matches`: a part of a text matches a pattern.
* `Pattern.Occurs`: some part of a text matches.
* `Pattern.IsSearch`: a function searches for patterns.

## Main results

* `Pattern.mem_ways_iff`: the ways of matching at a place.
* `Pattern.isSearch_search`: the search for the first place is a search.
-/

namespace Tabular.Pattern

/-- The characters `s` of a text, with `before` before them and `after` after them, match the
pattern, and the groups stand for the given characters. -/
inductive Matches : Pattern → List Char → List Char → List Char → Groups → Prop
  | start {after : List Char} : Matches .start [] [] after []
  | finish {before : List Char} : Matches .finish before [] [] []
  | one {isMember : Char → Bool} {before after : List Char} {c : Char} (hc : isMember c = true) :
      Matches (.one isMember) before [c] after []
  | run {isMember : Char → Bool} {before s after : List Char} (hne : s ≠ [])
      (hs : ∀ c ∈ s, isMember c = true) : Matches (.run isMember) before s after []
  | seq {a b : Pattern} {before s t after : List Char} {g h : Groups}
      (first : Matches a before s (t ++ after) g) (second : Matches b (before ++ s) t after h) :
      Matches (.seq a b) before (s ++ t) after (g ++ h)
  | absent {a : Pattern} {before after : List Char} : Matches (.optional a) before [] after []
  | present {a : Pattern} {before s after : List Char} {g : Groups}
      (inner : Matches a before s after g) : Matches (.optional a) before s after g
  | group {a : Pattern} {index : Nat} {before s after : List Char} {g : Groups}
      (inner : Matches a before s after g) :
      Matches (.group index a) before s after ((index, s) :: g)

/-- A part of the text matches, and its groups are the given ones. -/
def Occurs (a : Pattern) (text : List Char) (g : Groups) : Prop :=
  ∃ before s after, text = before ++ s ++ after ∧ a.Matches before s after g

/-- The function searches for patterns: it gives the groups of a part that matches, and it fails
only if no part does. -/
structure IsSearch (search : Pattern → List Char → Option Groups) : Prop where
  occurs : ∀ {a text g}, search a text = some g → a.Occurs text g
  isSome : ∀ {a text g}, a.Occurs text g → (search a text).isSome = true

variable {a b : Pattern} {before s after cs : List Char} {g : Groups} {w : Way}
  {isMember : Char → Bool} {index : Nat}

/-! ### Matching by the form of the pattern -/

theorem matches_start_iff : start.Matches before s after g ↔ before = [] ∧ s = [] ∧ g = [] := by
  constructor
  · rintro ⟨⟩
    exact ⟨rfl, rfl, rfl⟩
  · rintro ⟨rfl, rfl, rfl⟩
    exact .start

theorem matches_finish_iff : finish.Matches before s after g ↔ after = [] ∧ s = [] ∧ g = [] := by
  constructor
  · rintro ⟨⟩
    exact ⟨rfl, rfl, rfl⟩
  · rintro ⟨rfl, rfl, rfl⟩
    exact .finish

theorem matches_one_iff : (one isMember).Matches before s after g ↔
    ∃ c, isMember c = true ∧ s = [c] ∧ g = [] := by
  constructor
  · rintro ⟨⟩
    exact ⟨_, ‹_›, rfl, rfl⟩
  · rintro ⟨c, hc, rfl, rfl⟩
    exact .one hc

theorem matches_run_iff : (run isMember).Matches before s after g ↔
    s ≠ [] ∧ (∀ c ∈ s, isMember c = true) ∧ g = [] := by
  constructor
  · rintro ⟨⟩
    exact ⟨‹_›, ‹_›, rfl⟩
  · rintro ⟨hne, hs, rfl⟩
    exact .run hne hs

theorem matches_seq_iff : (seq a b).Matches before s after g ↔
    ∃ s₁ s₂ g₁ g₂, s = s₁ ++ s₂ ∧ g = g₁ ++ g₂ ∧ a.Matches before s₁ (s₂ ++ after) g₁ ∧
      b.Matches (before ++ s₁) s₂ after g₂ := by
  constructor
  · rintro ⟨⟩
    exact ⟨_, _, _, _, rfl, rfl, ‹_›, ‹_›⟩
  · rintro ⟨s₁, s₂, g₁, g₂, rfl, rfl, hfirst, hsecond⟩
    exact .seq hfirst hsecond

theorem matches_optional_iff : (optional a).Matches before s after g ↔
    (s = [] ∧ g = []) ∨ a.Matches before s after g := by
  constructor
  · intro h
    cases h with
    | absent => exact Or.inl ⟨rfl, rfl⟩
    | present h => exact Or.inr h
  · rintro (⟨rfl, rfl⟩ | h)
    · exact .absent
    · exact .present h

theorem matches_group_iff : (group index a).Matches before s after g ↔
    ∃ g', g = (index, s) :: g' ∧ a.Matches before s after g' := by
  constructor
  · rintro ⟨⟩
    exact ⟨_, rfl, ‹_›⟩
  · rintro ⟨g', rfl, h⟩
    exact .group h

/-! ### Ways of matching -/

theorem mem_runs_iff : w ∈ runs isMember cs ↔ cs = w.taken ++ w.rest ∧ w.taken ≠ [] ∧
    (∀ c ∈ w.taken, isMember c = true) ∧ w.groups = [] := by
  induction cs generalizing w with
  | nil =>
    simp only [runs, List.not_mem_nil, false_iff]
    rintro ⟨hcs, hne, -⟩
    exact hne (List.append_eq_nil_iff.mp hcs.symm).1
  | cons c rest ih =>
    obtain ⟨taken, left, groups⟩ := w
    by_cases hc : isMember c = true
    · simp only [runs, if_pos hc, List.mem_append, List.mem_map, List.mem_singleton, Way.mk.injEq]
      constructor
      · rintro (⟨w, hw, rfl, rfl, rfl⟩ | ⟨rfl, rfl, rfl⟩)
        · obtain ⟨rfl, -, hall, hgroups⟩ := ih.mp hw
          exact ⟨rfl, List.cons_ne_nil _ _, List.forall_mem_cons.mpr ⟨hc, hall⟩, hgroups⟩
        · exact ⟨rfl, List.cons_ne_nil _ _, by simpa using hc, rfl⟩
      · rintro ⟨hcs, hne, hall, rfl⟩
        obtain ⟨d, taken, rfl⟩ := List.exists_cons_of_ne_nil hne
        obtain ⟨rfl, rfl⟩ := List.cons.inj hcs
        by_cases hlast : taken = []
        · exact Or.inr ⟨by rw [hlast], by rw [hlast]; rfl, rfl⟩
        · refine Or.inl ⟨⟨taken, left, []⟩, ih.mpr ⟨rfl, hlast, ?_, rfl⟩, rfl, rfl, rfl⟩
          exact fun d hd => hall d (List.mem_cons_of_mem c hd)
    · simp only [runs, if_neg hc, List.not_mem_nil, false_iff]
      rintro ⟨hcs, hne, hall, -⟩
      obtain ⟨d, taken, rfl⟩ := List.exists_cons_of_ne_nil hne
      obtain ⟨rfl, -⟩ := List.cons.inj hcs
      exact hc (hall c List.mem_cons_self)

/-- The ways at a place are those in which the front of the characters there matches. -/
theorem mem_ways_iff : w ∈ a.ways before.isEmpty cs ↔
    cs = w.taken ++ w.rest ∧ a.Matches before w.taken w.rest w.groups := by
  induction a generalizing before cs w with
  | start =>
    obtain ⟨taken, rest, groups⟩ := w
    simp only [ways, matches_start_iff]
    split_ifs with hbefore
    · rw [List.isEmpty_iff] at hbefore
      simp only [List.mem_singleton, Way.mk.injEq, hbefore, true_and]
      constructor
      · rintro ⟨rfl, rfl, rfl⟩
        exact ⟨rfl, rfl, rfl⟩
      · rintro ⟨rfl, rfl, rfl⟩
        exact ⟨rfl, rfl, rfl⟩
    · simp only [List.not_mem_nil, false_iff]
      rintro ⟨-, rfl, -⟩
      exact hbefore rfl
  | finish =>
    obtain ⟨taken, rest, groups⟩ := w
    simp only [ways, matches_finish_iff]
    split_ifs with hcs
    · rw [List.isEmpty_iff] at hcs
      simp only [List.mem_singleton, Way.mk.injEq, hcs]
      constructor
      · rintro ⟨rfl, rfl, rfl⟩
        exact ⟨rfl, rfl, rfl, rfl⟩
      · rintro ⟨-, rfl, rfl, rfl⟩
        exact ⟨rfl, rfl, rfl⟩
    · simp only [List.not_mem_nil, false_iff]
      rintro ⟨rfl, rfl, rfl, rfl⟩
      exact hcs rfl
  | one isMember =>
    obtain ⟨taken, rest, groups⟩ := w
    rw [matches_one_iff]
    cases cs with
    | nil =>
      simp only [ways, List.not_mem_nil, false_iff]
      rintro ⟨hcs, c, -, rfl, -⟩
      cases hcs
    | cons c cs =>
      simp only [ways]
      split_ifs with hc
      · simp only [List.mem_singleton, Way.mk.injEq]
        constructor
        · rintro ⟨rfl, rfl, rfl⟩
          exact ⟨rfl, c, hc, rfl, rfl⟩
        · rintro ⟨hcs, d, -, rfl, rfl⟩
          obtain ⟨rfl, rfl⟩ := List.cons.inj hcs
          exact ⟨rfl, rfl, rfl⟩
      · simp only [List.not_mem_nil, false_iff]
        rintro ⟨hcs, d, hd, rfl, -⟩
        obtain ⟨rfl, -⟩ := List.cons.inj hcs
        exact hc hd
  | run isMember => rw [ways, mem_runs_iff, matches_run_iff]
  | seq a b iha ihb =>
    obtain ⟨taken, rest, groups⟩ := w
    have hstart (w : Way) : (before.isEmpty && w.taken.isEmpty) = (before ++ w.taken).isEmpty := by
      cases before <;> rfl
    simp only [ways, List.mem_flatMap, List.mem_map, hstart, iha, ihb, matches_seq_iff]
    constructor
    · rintro ⟨w, ⟨rfl, hfirst⟩, w', ⟨hrest, hsecond⟩, hw⟩
      obtain ⟨rfl, rfl, rfl⟩ := Way.mk.inj hw
      rw [hrest] at hfirst ⊢
      exact ⟨by simp, _, _, _, _, rfl, rfl, hfirst, hsecond⟩
    · rintro ⟨rfl, s₁, s₂, g₁, g₂, rfl, rfl, hfirst, hsecond⟩
      exact ⟨⟨s₁, s₂ ++ rest, g₁⟩, ⟨by simp, hfirst⟩, ⟨s₂, rest, g₂⟩, ⟨rfl, hsecond⟩, rfl⟩
  | optional a ih =>
    obtain ⟨taken, rest, groups⟩ := w
    simp only [ways, List.mem_append, ih, List.mem_singleton, Way.mk.injEq, matches_optional_iff]
    constructor
    · rintro (⟨rfl, h⟩ | ⟨rfl, rfl, rfl⟩)
      · exact ⟨rfl, Or.inr h⟩
      · exact ⟨rfl, Or.inl ⟨rfl, rfl⟩⟩
    · rintro ⟨rfl, ⟨rfl, rfl⟩ | h⟩
      · exact Or.inr ⟨rfl, rfl, rfl⟩
      · exact Or.inl ⟨rfl, h⟩
  | group index a ih =>
    obtain ⟨taken, rest, groups⟩ := w
    simp only [ways, List.mem_map, ih, matches_group_iff]
    constructor
    · rintro ⟨w, ⟨rfl, h⟩, hw⟩
      obtain ⟨rfl, rfl, rfl⟩ := Way.mk.inj hw
      exact ⟨rfl, _, rfl, h⟩
    · rintro ⟨rfl, g', rfl, h⟩
      exact ⟨⟨taken, rest, g'⟩, ⟨rfl, h⟩, rfl⟩

/-! ### The search for the first place -/

theorem searchFrom_of_ways_eq_cons {atStart : Bool} {others : List Way}
    (h : a.ways atStart cs = w :: others) : a.searchFrom atStart cs = some w.groups := by
  unfold searchFrom
  rw [h]

theorem searchFrom_of_ways_eq_nil {atStart : Bool} (h : a.ways atStart cs = []) :
    a.searchFrom atStart cs = match cs with
      | [] => none
      | _ :: rest => a.searchFrom false rest := by
  rw [searchFrom.eq_def, h]
  cases cs <;> rfl

/-- The first way at a place is a match there. -/
theorem exists_matches_of_ways_eq_cons {others : List Way}
    (h : a.ways before.isEmpty cs = w :: others) : ∃ passed s after,
      cs = passed ++ s ++ after ∧ a.Matches (before ++ passed) s after w.groups := by
  obtain ⟨hcs, hmatch⟩ := mem_ways_iff.mp (h ▸ List.mem_cons_self)
  exact ⟨[], w.taken, w.rest, hcs, by rwa [List.append_nil]⟩

/-- What is found from a place on is a match there or further on. -/
theorem exists_matches_of_searchFrom (before : List Char)
    (h : a.searchFrom before.isEmpty cs = some g) : ∃ passed s after,
      cs = passed ++ s ++ after ∧ a.Matches (before ++ passed) s after g := by
  induction cs generalizing before with
  | nil =>
    cases hways : a.ways before.isEmpty [] with
    | nil => simp [searchFrom_of_ways_eq_nil hways] at h
    | cons w others =>
      rw [searchFrom_of_ways_eq_cons hways] at h
      exact Option.some.inj h ▸ exists_matches_of_ways_eq_cons hways
  | cons c rest ih =>
    cases hways : a.ways before.isEmpty (c :: rest) with
    | nil =>
      rw [searchFrom_of_ways_eq_nil hways] at h
      have hnext : (before ++ [c]).isEmpty = false := by simp
      obtain ⟨passed, s, after, hrest, hmatch⟩ := ih (before ++ [c]) (hnext ▸ h)
      exact ⟨c :: passed, s, after, by simp [hrest], by simpa using hmatch⟩
    | cons w others =>
      rw [searchFrom_of_ways_eq_cons hways] at h
      exact Option.some.inj h ▸ exists_matches_of_ways_eq_cons hways

/-- Something is found from a place on if there is a match there or further on. -/
theorem isSome_searchFrom (before : List Char) {passed : List Char} (hcs : cs = passed ++ s ++ after)
    (h : a.Matches (before ++ passed) s after g) :
    (a.searchFrom before.isEmpty cs).isSome = true := by
  induction passed generalizing before cs with
  | nil =>
    have hmem : ⟨s, after, g⟩ ∈ a.ways before.isEmpty cs :=
      mem_ways_iff.mpr ⟨by simpa using hcs, by simpa using h⟩
    obtain ⟨w, others, hways⟩ := List.exists_cons_of_ne_nil (List.ne_nil_of_mem hmem)
    rw [searchFrom_of_ways_eq_cons hways]
    rfl
  | cons c passed ih =>
    cases hways : a.ways before.isEmpty cs with
    | nil =>
      subst hcs
      have hnext : (before ++ [c]).isEmpty = false := by simp
      rw [searchFrom_of_ways_eq_nil hways]
      exact hnext ▸ ih (before ++ [c]) rfl (by simpa using h)
    | cons w others =>
      rw [searchFrom_of_ways_eq_cons hways]
      rfl

/-- The search for the first place finds a match if there is one. -/
theorem isSearch_search : IsSearch search where
  occurs h := by
    obtain ⟨passed, s, after, htext, hmatch⟩ := exists_matches_of_searchFrom [] h
    exact ⟨passed, s, after, htext, hmatch⟩
  isSome := by
    rintro a text g ⟨before, s, after, htext, hmatch⟩
    exact isSome_searchFrom [] htext hmatch

end Tabular.Pattern
