import Mathlib.Data.List.TakeWhile
import Mathlib.Tactic.Common
import Tabular.Proofs.Text.Matching
import Tabular.Version

/-!
# The grammar of version texts

A version is written as an optional `v`, two or three numbers divided by dots, and an optional
suffix, with white space around it. This file gives these parts as data that are well formed by
construction. The pattern of version texts accepts exactly what is made of them, and captures the
numbers. Its digits may be of any script; only numbers of ASCII digits with at most 32 bits are then
read.

The search for the pattern is a parameter. No text can be divided into the parts in two ways, so it
does not matter which of several matches a search prefers.

## Main definitions

* `Version.Numeral`: decimal digits, and the number that they write.
* `Version.Suffix`: a sign, and letters, digits, dots and minus signs after it.
* `Version.Spelling`: the parts of a version text, with their characters and their groups.
* `Version.Spelling.IsWrittenIn`: a text is a spelling with white space around it.
* `Version.Spelling.Denotes`: the version of a spelling.

## Main results

* `Text.trimChars_append`, `Text.exists_eq_append_trimChars`: what is left without white space at
  the ends.
* `Version.occurs_pattern_iff`: what the pattern accepts.
* `Version.Spelling.chars_injective`: a text has one spelling at most.
* `Version.ofGroups?_groups_iff`: the version of the groups.
* `Version.parse_exact`: the texts of versions, what they mean, and that writing is read back.
-/

namespace Tabular

/-! ### White space at the ends -/

namespace Text

/-- Visible ASCII characters are no white space. -/
theorem isWhiteSpace_of_visible {c : Char} (hlow : 0x21 ≤ c.toNat) (hhigh : c.toNat ≤ 0x7e) :
    isWhiteSpace c = false := by
  simp only [isWhiteSpace, inRanges, whiteSpaceRanges, List.any_cons, List.any_nil, Bool.or_false,
    Bool.or_eq_false_iff, Bool.and_eq_false_iff, decide_eq_false_iff_not]
  omega

/-- ASCII letters and digits are no white space. -/
theorem isWhiteSpace_of_isAlphanum {c : Char} (h : c.isAlphanum = true) :
    isWhiteSpace c = false := by
  have hcodes : (decide ('A'.val ≤ c.val ∧ c.val ≤ 'Z'.val) ||
      decide ('a'.val ≤ c.val) && decide (c.val ≤ 'z'.val) ||
      decide ('0'.val ≤ c.val) && decide (c.val ≤ '9'.val)) = true := h
  simp only [Bool.or_eq_true, Bool.and_eq_true, decide_eq_true_eq, UInt32.le_iff_toNat_le]
    at hcodes
  change ((65 ≤ c.toNat ∧ c.toNat ≤ 90) ∨ (97 ≤ c.toNat ∧ c.toNat ≤ 122)) ∨
    (48 ≤ c.toNat ∧ c.toNat ≤ 57) at hcodes
  apply isWhiteSpace_of_visible <;> omega

/-- Classes of characters whose ranges lie apart have no character in common. -/
theorem inRanges_eq_false {ranges others : List (Nat × Nat)} {c : Char}
    (hapart : ∀ r ∈ ranges, ∀ q ∈ others, r.2 < q.1 ∨ q.2 < r.1) (hc : inRanges ranges c = true) :
    inRanges others c = false := by
  obtain ⟨r, hr, hcr⟩ := List.any_eq_true.mp hc
  refine List.any_eq_false.mpr fun q hq hcq => ?_
  simp only [Bool.and_eq_true, decide_eq_true_eq] at hcr hcq
  rcases hapart r hr q hq with h | h <;> omega

/-- Decimal digits are no white space. -/
theorem isWhiteSpace_of_isDecimalDigit {c : Char} (h : isDecimalDigit c = true) :
    isWhiteSpace c = false :=
  inRanges_eq_false (by decide) h

/-- ASCII digits are decimal digits. -/
theorem isDecimalDigit_of_isDigit {c : Char} (h : c.isDigit = true) : isDecimalDigit c = true := by
  have hcodes : '0'.toNat ≤ c.toNat ∧ c.toNat ≤ '9'.toNat := by
    simpa [Char.isDigit, UInt32.le_iff_toNat_le] using h
  exact List.any_eq_true.mpr ⟨(0x30, 0x39), List.mem_cons_self, by simpa using hcodes⟩

/-- White space around characters of which none is white space is removed. -/
theorem trimChars_append {before core after : List Char}
    (hbefore : ∀ c ∈ before, isWhiteSpace c = true) (hcore : ∀ c ∈ core, isWhiteSpace c = false)
    (hafter : ∀ c ∈ after, isWhiteSpace c = true) : trimChars (before ++ core ++ after) = core := by
  have hdrop {cs : List Char} (hcs : ∀ c ∈ cs, isWhiteSpace c = false) :
      cs.dropWhile isWhiteSpace = cs := by
    cases cs with
    | nil => rfl
    | cons c rest => rw [List.dropWhile_cons_of_neg (by simp [hcs c List.mem_cons_self])]
  cases core with
  | nil =>
    have hall : ∀ c ∈ before ++ [] ++ after, isWhiteSpace c = true := by
      intro c hc
      rw [List.append_nil, List.mem_append] at hc
      exact hc.elim (hbefore c) (hafter c)
    rw [trimChars, List.dropWhile_eq_nil_iff.mpr hall]
    rfl
  | cons c rest =>
    have hfront : (before ++ c :: rest ++ after).dropWhile isWhiteSpace = c :: rest ++ after := by
      rw [List.append_assoc, List.dropWhile_append_of_pos hbefore, List.cons_append,
        List.dropWhile_cons_of_neg (by simp [hcore c List.mem_cons_self])]
    rw [trimChars, hfront, List.reverse_append,
      List.dropWhile_append_of_pos fun c hc => hafter c (List.mem_reverse.mp hc),
      hdrop fun c hc => hcore c (List.mem_reverse.mp hc), List.reverse_reverse]

/-- Only white space is removed. -/
theorem exists_eq_append_trimChars (cs : List Char) : ∃ before after,
    (∀ c ∈ before, isWhiteSpace c = true) ∧ (∀ c ∈ after, isWhiteSpace c = true) ∧
      cs = before ++ trimChars cs ++ after := by
  have htake (cs : List Char) : ∀ c ∈ cs.takeWhile isWhiteSpace, isWhiteSpace c = true :=
    List.all_eq_true.mp List.all_takeWhile
  refine ⟨cs.takeWhile isWhiteSpace,
    ((cs.dropWhile isWhiteSpace).reverse.takeWhile isWhiteSpace).reverse, htake cs,
    fun c hc => htake _ c (List.mem_reverse.mp hc), ?_⟩
  rw [trimChars, List.append_assoc, ← List.reverse_append, List.takeWhile_append_dropWhile,
    List.reverse_reverse, List.takeWhile_append_dropWhile]

end Text

namespace Version

/-! ### Numbers -/

/-- One or more decimal digits, of any script. -/
@[ext] structure Numeral where
  chars : List Char
  ne_nil : chars ≠ []
  isDecimalDigit : ∀ c ∈ chars, Text.isDecimalDigit c = true

namespace Numeral

/-- The digits are ASCII digits, and they write the number. -/
structure Writes (x : Numeral) (n : UInt32) : Prop where
  isDigit : ∀ c ∈ x.chars, c.isDigit = true
  value_eq : Nat.ofDigitChars 10 x.chars 0 = n.toNat

/-- The decimal digits of a number, without leading zeros. -/
def ofValue (n : UInt32) : Numeral where
  chars := Nat.toDigits 10 n.toNat
  ne_nil := Nat.toDigits_ne_nil
  isDecimalDigit _ hc :=
    Text.isDecimalDigit_of_isDigit (Nat.isDigit_of_mem_toDigits (by decide) (by decide) hc)

theorem writes_ofValue (n : UInt32) : (ofValue n).Writes n where
  isDigit _ hc := Nat.isDigit_of_mem_toDigits (by decide) (by decide) hc
  value_eq := Nat.ofDigitChars_toDigits (by decide) (by decide)

/-- A numeral starts with a digit, and so with none of the marks of a version text. -/
theorem chars_ne_cons {x : Numeral} {c : Char} (hc : Text.isDecimalDigit c = false)
    (rest : List Char) : x.chars ≠ c :: rest := by
  intro h
  have hdigit := x.isDecimalDigit c (h ▸ List.mem_cons_self)
  simp [hc] at hdigit

end Numeral

theorem number?_eq_some_iff {x : Numeral} {n : UInt32} :
    number? x.chars = some n ↔ x.Writes n := by
  have hdigits : number? x.chars =
      if !x.chars.isEmpty && x.chars.all Char.isDigit &&
        Nat.ofDigitChars 10 x.chars 0 < UInt32.size
      then some (UInt32.ofNat (Nat.ofDigitChars 10 x.chars 0)) else none := by
    unfold number?
    split
    · rename_i rest hplus
      exact absurd hplus (Numeral.chars_ne_cons (by decide) rest)
    · rfl
  have hne : x.chars.isEmpty = false := by simpa using x.ne_nil
  rw [hdigits, hne]
  constructor
  · intro h
    split_ifs at h with hread
    simp only [Bool.not_false, Bool.true_and, Bool.and_eq_true, List.all_eq_true,
      decide_eq_true_eq] at hread
    obtain rfl := Option.some.inj h
    exact ⟨hread.1, (UInt32.toNat_ofNat_of_lt' hread.2).symm⟩
  · rintro ⟨hall, hvalue⟩
    have hlt : Nat.ofDigitChars 10 x.chars 0 < UInt32.size := hvalue ▸ n.toNat_lt
    rw [if_pos (by simpa using ⟨hall, hlt⟩), hvalue, UInt32.ofNat_toNat]

/-- The characters do not start with a digit. -/
def NoDigitFirst (cs : List Char) : Prop :=
  ∀ c ∈ cs.head?, Text.isDecimalDigit c = false

/-- A numeral takes all digits there are, so what comes after it determines it. -/
theorem Numeral.append_inj {x y : Numeral} {rest rest' : List Char} (hrest : NoDigitFirst rest)
    (hrest' : NoDigitFirst rest') (h : x.chars ++ rest = y.chars ++ rest') :
    x = y ∧ rest = rest' := by
  have htaken {x : Numeral} {rest : List Char} (hrest : NoDigitFirst rest) :
      (x.chars ++ rest).takeWhile Text.isDecimalDigit = x.chars := by
    have hstop : rest.takeWhile Text.isDecimalDigit = [] := by
      cases rest with
      | nil => rfl
      | cons c rest => exact List.takeWhile_cons_of_neg (by simp [hrest c rfl])
    rw [List.takeWhile_append_of_pos x.isDecimalDigit, hstop, List.append_nil]
  have hchars : x.chars = y.chars := by rw [← htaken hrest, h, htaken hrest']
  exact ⟨Numeral.ext hchars, List.append_cancel_left (hchars ▸ h)⟩

/-! ### Suffixes -/

/-- A minus or plus sign, and a non-empty run of ASCII letters, digits, dots and minus signs. -/
structure Suffix where
  sign : Char
  tag : List Char
  isSign : sign = '-' ∨ sign = '+'
  tag_ne_nil : tag ≠ []
  isTag : ∀ c ∈ tag, c.isAlphanum = true ∨ c = '.' ∨ c = '-'

/-- The characters of an optional suffix. -/
def Suffix.charsOf : Option Suffix → List Char
  | none => []
  | some x => x.sign :: x.tag

theorem Suffix.charsOf_injective {suffix other : Option Suffix}
    (h : charsOf suffix = charsOf other) : suffix = other := by
  cases suffix with
  | none =>
    cases other with
    | none => rfl
    | some => cases h
  | some x =>
    cases other with
    | none => cases h
    | some y =>
      obtain ⟨hsign, htag⟩ := List.cons.inj h
      cases x
      cases y
      subst hsign htag
      rfl

theorem Suffix.isWhiteSpace_of_mem {suffix : Option Suffix} {c : Char}
    (hc : c ∈ charsOf suffix) : Text.isWhiteSpace c = false := by
  cases suffix with
  | none => simp [charsOf] at hc
  | some x =>
    rcases List.mem_cons.mp hc with rfl | hc
    · rcases x.isSign with hsign | hsign <;> rw [hsign] <;> decide
    · rcases x.isTag c hc with htag | rfl | rfl
      · exact Text.isWhiteSpace_of_isAlphanum htag
      · decide
      · decide

theorem noDigitFirst_suffix (suffix : Option Suffix) : NoDigitFirst (Suffix.charsOf suffix) := by
  intro c hc
  cases suffix with
  | none => simp [Suffix.charsOf] at hc
  | some x =>
    obtain rfl : x.sign = c := by simpa [Suffix.charsOf] using hc
    rcases x.isSign with hsign | hsign <;> rw [hsign] <;> decide

/-! ### Spellings -/

/-- The parts of a version text. -/
@[ext] structure Spelling where
  /-- There is a `v` in front. -/
  isMarked : Bool
  major : Numeral
  minor : Numeral
  patch : Option Numeral
  suffix : Option Suffix

/-- The characters of an optional `v`. -/
def markChars (isMarked : Bool) : List Char :=
  if isMarked then ['v'] else []

/-- The characters of an optional patch number, with the dot before it. -/
def patchChars : Option Numeral → List Char
  | none => []
  | some x => '.' :: x.chars

/-- The group of an optional patch number. -/
def patchGroups : Option Numeral → Pattern.Groups
  | none => []
  | some x => [(3, x.chars)]

namespace Spelling

variable {w : Spelling}

/-- The characters of a version text, without white space around it. -/
def chars (w : Spelling) : List Char :=
  markChars w.isMarked ++ (w.major.chars ++
    '.' :: (w.minor.chars ++ (patchChars w.patch ++ Suffix.charsOf w.suffix)))

/-- The groups of a version text. -/
def groups (w : Spelling) : Pattern.Groups :=
  (1, w.major.chars) :: (2, w.minor.chars) :: patchGroups w.patch

/-- The text is the spelling with white space around it. -/
def IsWrittenIn (w : Spelling) (input : String) : Prop :=
  ∃ before after, (∀ c ∈ before, Text.isWhiteSpace c = true) ∧
    (∀ c ∈ after, Text.isWhiteSpace c = true) ∧ input.toList = before ++ w.chars ++ after

/-- The numerals write the numbers of the version, with ASCII digits; the patch is zero if there is
none. -/
structure Denotes (w : Spelling) (v : Version) : Prop where
  major : w.major.Writes v.major
  minor : w.minor.Writes v.minor
  patch : w.patch.elim (v.patch = 0) fun x => x.Writes v.patch

/-- The spelling with three numbers and nothing else. -/
def ofVersion (v : Version) : Spelling where
  isMarked := false
  major := .ofValue v.major
  minor := .ofValue v.minor
  patch := some (.ofValue v.patch)
  suffix := none

theorem denotes_ofVersion (v : Version) : (ofVersion v).Denotes v :=
  ⟨Numeral.writes_ofValue _, Numeral.writes_ofValue _, Numeral.writes_ofValue _⟩

theorem chars_ofVersion (v : Version) : (ofVersion v).chars = v.text.toList := by
  have hdot : (toString ".").toList = ['.'] := rfl
  simp [chars, ofVersion, markChars, patchChars, Suffix.charsOf, Numeral.ofValue, text,
    Nat.toString_eq_repr, Nat.toList_repr, hdot]

/-- No character of a spelling is white space. -/
theorem isWhiteSpace_of_mem_chars {c : Char} (hc : c ∈ w.chars) :
    Text.isWhiteSpace c = false := by
  have hnumeral {x : Numeral} (hc : c ∈ x.chars) : Text.isWhiteSpace c = false :=
    Text.isWhiteSpace_of_isDecimalDigit (x.isDecimalDigit c hc)
  have hparts : (w.isMarked = true ∧ c = 'v') ∨ c ∈ w.major.chars ∨ c = '.' ∨
      c ∈ w.minor.chars ∨ c ∈ patchChars w.patch ∨ c ∈ Suffix.charsOf w.suffix := by
    simpa [chars, markChars] using hc
  rcases hparts with ⟨-, rfl⟩ | hc | rfl | hc | hc | hc
  · decide
  · exact hnumeral hc
  · decide
  · exact hnumeral hc
  · cases hpatch : w.patch with
    | none => simp [hpatch, patchChars] at hc
    | some x =>
      rw [hpatch, patchChars, List.mem_cons] at hc
      rcases hc with rfl | hc
      · decide
      · exact hnumeral hc
  · exact Suffix.isWhiteSpace_of_mem hc

end Spelling

theorem noDigitFirst_dot (cs : List Char) : NoDigitFirst ('.' :: cs) := by
  intro c hc
  obtain rfl : '.' = c := by simpa using hc
  decide

theorem noDigitFirst_tail (patch : Option Numeral) (suffix : Option Suffix) :
    NoDigitFirst (patchChars patch ++ Suffix.charsOf suffix) := by
  cases patch with
  | none => exact noDigitFirst_suffix suffix
  | some x => exact noDigitFirst_dot (x.chars ++ Suffix.charsOf suffix)

/-- A numeral starts with a digit, so a mark before it is seen. -/
theorem markChars_append_inj {isMarked isMarked' : Bool} {x y : Numeral} {rest rest' : List Char}
    (h : markChars isMarked ++ (x.chars ++ rest) = markChars isMarked' ++ (y.chars ++ rest')) :
    isMarked = isMarked' ∧ x.chars ++ rest = y.chars ++ rest' := by
  have hdigit (x : Numeral) (rest rest' : List Char) : x.chars ++ rest ≠ 'v' :: rest' := by
    obtain ⟨d, digits, hchars⟩ := List.exists_cons_of_ne_nil x.ne_nil
    rw [hchars, List.cons_append]
    intro h
    exact Numeral.chars_ne_cons (c := 'v') (by decide) digits ((List.cons.inj h).1 ▸ hchars)
  cases isMarked <;> cases isMarked'
  · exact ⟨rfl, h⟩
  · exact absurd h (hdigit x rest _)
  · exact absurd h.symm (hdigit y rest' _)
  · exact ⟨rfl, (List.cons.inj h).2⟩

/-- A patch number starts with a dot, and a suffix with a sign. -/
theorem patchChars_append_inj {patch patch' : Option Numeral} {suffix suffix' : Option Suffix}
    (h : patchChars patch ++ Suffix.charsOf suffix = patchChars patch' ++ Suffix.charsOf suffix') :
    patch = patch' ∧ suffix = suffix' := by
  have hsign (suffix : Option Suffix) (rest : List Char) : Suffix.charsOf suffix ≠ '.' :: rest := by
    intro h
    cases suffix with
    | none => cases h
    | some x =>
      obtain ⟨hdot, -⟩ := List.cons.inj h
      simpa [hdot] using x.isSign
  cases patch with
  | none =>
    cases patch' with
    | none => exact ⟨rfl, Suffix.charsOf_injective h⟩
    | some y => exact absurd h (hsign suffix _)
  | some x =>
    cases patch' with
    | none => exact absurd h.symm (hsign suffix' _)
    | some y =>
      obtain ⟨rfl, hsuffix⟩ := Numeral.append_inj (noDigitFirst_suffix suffix)
        (noDigitFirst_suffix suffix') (List.cons.inj h).2
      exact ⟨rfl, Suffix.charsOf_injective hsuffix⟩

/-- A text can be divided into the parts of a version in one way at most. -/
theorem Spelling.chars_injective {w w' : Spelling} (h : w.chars = w'.chars) : w = w' := by
  obtain ⟨hmark, h⟩ := markChars_append_inj h
  obtain ⟨hmajor, h⟩ := Numeral.append_inj (noDigitFirst_dot _) (noDigitFirst_dot _) h
  obtain ⟨hminor, h⟩ := Numeral.append_inj (noDigitFirst_tail _ _) (noDigitFirst_tail _ _)
    (List.cons.inj h).2
  obtain ⟨hpatch, hsuffix⟩ := patchChars_append_inj h
  exact Spelling.ext hmark hmajor hminor hpatch hsuffix

/-! ### The pattern -/

section Pieces

open Pattern

variable {before s after : List Char} {g : Groups}

theorem matches_mark_iff :
    (optional (one fun c => c = 'v')).Matches before s after g ↔
      ∃ isMarked, s = markChars isMarked ∧ g = [] := by
  rw [matches_optional_iff, matches_one_iff]
  constructor
  · rintro (⟨rfl, rfl⟩ | ⟨c, hc, rfl, rfl⟩)
    · exact ⟨false, rfl, rfl⟩
    · obtain rfl := of_decide_eq_true hc
      exact ⟨true, rfl, rfl⟩
  · rintro ⟨isMarked, rfl, rfl⟩
    cases isMarked with
    | false => exact Or.inl ⟨rfl, rfl⟩
    | true => exact Or.inr ⟨'v', rfl, rfl, rfl⟩

theorem matches_dot_iff :
    (one fun c => c = '.').Matches before s after g ↔ s = ['.'] ∧ g = [] := by
  rw [matches_one_iff]
  simp

theorem matches_numeral_iff {index : Nat} :
    (group index (run Text.isDecimalDigit)).Matches before s after g ↔
      ∃ x : Numeral, s = x.chars ∧ g = [(index, x.chars)] := by
  rw [matches_group_iff]
  simp only [matches_run_iff]
  constructor
  · rintro ⟨_, rfl, hne, hs, rfl⟩
    exact ⟨⟨s, hne, hs⟩, rfl, rfl⟩
  · rintro ⟨x, rfl, rfl⟩
    exact ⟨[], rfl, x.ne_nil, x.isDecimalDigit, rfl⟩

theorem matches_patch_iff :
    (optional (seq (one fun c => c = '.') (group 3 (run Text.isDecimalDigit)))).Matches
        before s after g ↔
      ∃ patch, s = patchChars patch ∧ g = patchGroups patch := by
  rw [matches_optional_iff, matches_seq_iff]
  constructor
  · rintro (⟨rfl, rfl⟩ | ⟨_, _, _, _, rfl, rfl, hdot, hnumeral⟩)
    · exact ⟨none, rfl, rfl⟩
    · obtain ⟨rfl, rfl⟩ := matches_dot_iff.mp hdot
      obtain ⟨x, rfl, rfl⟩ := matches_numeral_iff.mp hnumeral
      exact ⟨some x, rfl, rfl⟩
  · rintro ⟨patch, rfl, rfl⟩
    cases patch with
    | none => exact Or.inl ⟨rfl, rfl⟩
    | some x =>
      exact Or.inr ⟨['.'], x.chars, [], [(3, x.chars)], rfl, rfl, matches_dot_iff.mpr ⟨rfl, rfl⟩,
        matches_numeral_iff.mpr ⟨x, rfl, rfl⟩⟩

theorem matches_suffix_iff :
    (optional (seq (one fun c => c = '-' || c = '+')
        (run fun c => c.isAlphanum || c = '.' || c = '-'))).Matches before s after g ↔
      ∃ suffix, s = Suffix.charsOf suffix ∧ g = [] := by
  rw [matches_optional_iff, matches_seq_iff]
  constructor
  · rintro (⟨rfl, rfl⟩ | ⟨_, tag, _, _, rfl, rfl, hone, hrun⟩)
    · exact ⟨none, rfl, rfl⟩
    · obtain ⟨sign, hsign, rfl, rfl⟩ := matches_one_iff.mp hone
      obtain ⟨hne, htag, rfl⟩ := matches_run_iff.mp hrun
      exact ⟨some ⟨sign, tag, by simpa using hsign, hne,
        fun c hc => by simpa [or_assoc] using htag c hc⟩, rfl, rfl⟩
  · rintro ⟨suffix, rfl, rfl⟩
    cases suffix with
    | none => exact Or.inl ⟨rfl, rfl⟩
    | some x =>
      refine Or.inr ⟨[x.sign], x.tag, [], [], rfl, rfl, matches_one_iff.mpr ?_,
        matches_run_iff.mpr ⟨x.tag_ne_nil, fun c hc => ?_, rfl⟩⟩
      · exact ⟨x.sign, by simpa using x.isSign, rfl, rfl⟩
      · simpa [or_assoc] using x.isTag c hc

/-- The pattern accepts the spellings, as whole texts, and captures their numbers. -/
theorem occurs_pattern_iff {text : List Char} :
    pattern.Occurs text g ↔ ∃ w : Spelling, text = w.chars ∧ g = w.groups := by
  constructor
  · rintro ⟨before, s, after, rfl, hmatch⟩
    obtain ⟨_, _, _, _, rfl, rfl, hstart, hmarked⟩ := matches_seq_iff.mp hmatch
    obtain ⟨_, _, _, _, rfl, rfl, hmark, hnumbers⟩ := matches_seq_iff.mp hmarked
    obtain ⟨_, _, _, _, rfl, rfl, hmajor, hdotted⟩ := matches_seq_iff.mp hnumbers
    obtain ⟨_, _, _, _, rfl, rfl, hdot, hminors⟩ := matches_seq_iff.mp hdotted
    obtain ⟨_, _, _, _, rfl, rfl, hminor, hpatched⟩ := matches_seq_iff.mp hminors
    obtain ⟨_, _, _, _, rfl, rfl, hpatch, htail⟩ := matches_seq_iff.mp hpatched
    obtain ⟨_, _, _, _, rfl, rfl, hsuffix, hfinish⟩ := matches_seq_iff.mp htail
    obtain ⟨rfl, rfl, rfl⟩ := matches_start_iff.mp hstart
    obtain ⟨isMarked, rfl, rfl⟩ := matches_mark_iff.mp hmark
    obtain ⟨major, rfl, rfl⟩ := matches_numeral_iff.mp hmajor
    obtain ⟨rfl, rfl⟩ := matches_dot_iff.mp hdot
    obtain ⟨minor, rfl, rfl⟩ := matches_numeral_iff.mp hminor
    obtain ⟨patch, rfl, rfl⟩ := matches_patch_iff.mp hpatch
    obtain ⟨suffix, rfl, rfl⟩ := matches_suffix_iff.mp hsuffix
    obtain ⟨rfl, rfl, rfl⟩ := matches_finish_iff.mp hfinish
    exact ⟨⟨isMarked, major, minor, patch, suffix⟩, by simp [Spelling.chars],
      by simp [Spelling.groups]⟩
  · rintro ⟨w, rfl, rfl⟩
    have hmatch : pattern.Matches [] w.chars [] w.groups := by
      have hgroups : w.groups = [] ++ ([] ++ ([(1, w.major.chars)] ++ ([] ++
          ([(2, w.minor.chars)] ++ (patchGroups w.patch ++ ([] ++ [])))))) := by
        simp [Spelling.groups]
      have hchars : w.chars = [] ++ (markChars w.isMarked ++ (w.major.chars ++ (['.'] ++
          (w.minor.chars ++ (patchChars w.patch ++ (Suffix.charsOf w.suffix ++ [])))))) := by
        simp [Spelling.chars]
      rw [hgroups, hchars]
      exact .seq .start <| .seq (matches_mark_iff.mpr ⟨_, rfl, rfl⟩) <|
        .seq (matches_numeral_iff.mpr ⟨_, rfl, rfl⟩) <| .seq (matches_dot_iff.mpr ⟨rfl, rfl⟩) <|
        .seq (matches_numeral_iff.mpr ⟨_, rfl, rfl⟩) <|
        .seq (matches_patch_iff.mpr ⟨_, rfl, rfl⟩) <|
        .seq (matches_suffix_iff.mpr ⟨_, rfl, rfl⟩) .finish
    exact ⟨[], w.chars, [], by simp, hmatch⟩

end Pieces

/-- The groups of a spelling are read as the version that it denotes. -/
theorem ofGroups?_groups_iff {w : Spelling} {v : Version} :
    ofGroups? w.groups = some v ↔ w.Denotes v := by
  have hpatch {n : UInt32} : part? w.groups 3 = some n ↔
      w.patch.elim (n = 0) fun x => x.Writes n := by
    cases hpatch : w.patch with
    | none => simp [part?, Spelling.groups, patchGroups, hpatch, List.lookup_cons, eq_comm]
    | some x =>
      simp [part?, Spelling.groups, patchGroups, hpatch, List.lookup_cons, ← number?_eq_some_iff]
  have hread : ofGroups? w.groups = (number? w.major.chars).bind fun major =>
      (number? w.minor.chars).bind fun minor =>
        (part? w.groups 3).bind fun patch => some ⟨major, minor, patch⟩ := rfl
  simp only [hread, Option.bind_eq_some_iff, number?_eq_some_iff, hpatch, Option.some.injEq]
  constructor
  · rintro ⟨major, hmajor, minor, hminor, patch, hpatch, rfl⟩
    exact ⟨hmajor, hminor, hpatch⟩
  · rintro ⟨hmajor, hminor, hpatch⟩
    exact ⟨v.major, hmajor, v.minor, hminor, v.patch, hpatch, rfl⟩

/-! ### Texts -/

/-- A text is a spelling with white space around it if the spelling is what is left without the
white space. -/
theorem Spelling.isWrittenIn_iff {w : Spelling} {input : String} :
    w.IsWrittenIn input ↔ Text.trimChars input.toList = w.chars := by
  constructor
  · rintro ⟨before, after, hbefore, hafter, hinput⟩
    rw [hinput]
    exact Text.trimChars_append hbefore (fun _ hc => isWhiteSpace_of_mem_chars hc) hafter
  · intro h
    obtain ⟨before, after, hbefore, hafter, hinput⟩ :=
      Text.exists_eq_append_trimChars input.toList
    exact ⟨before, after, hbefore, hafter, h ▸ hinput⟩

section Search

variable {search : Pattern → List Char → Option Pattern.Groups} {input : String}

/-- Every search finds the groups of the one spelling that the text has. -/
theorem search_eq_some_iff (hsearch : Pattern.IsSearch search) {text : List Char}
    {g : Pattern.Groups} :
    search pattern text = some g ↔ ∃ w : Spelling, text = w.chars ∧ g = w.groups := by
  refine ⟨fun h => occurs_pattern_iff.mp (hsearch.occurs h), fun ⟨w, htext, hg⟩ => ?_⟩
  obtain ⟨g', hg'⟩ := Option.isSome_iff_exists.mp
    (hsearch.isSome (occurs_pattern_iff.mpr ⟨w, htext, hg⟩))
  obtain ⟨w', htext', rfl⟩ := occurs_pattern_iff.mp (hsearch.occurs hg')
  obtain rfl := Spelling.chars_injective (htext.symm.trans htext')
  rw [hg', hg]

theorem parseBy_eq_ok_iff (hsearch : Pattern.IsSearch search) {v : Version} :
    parseBy search input = .ok v ↔ ∃ w : Spelling, w.IsWrittenIn input ∧ w.Denotes v := by
  have hread : (search pattern (Text.trimChars input.toList)).bind ofGroups? = some v ↔
      ∃ w : Spelling, w.IsWrittenIn input ∧ w.Denotes v := by
    simp only [Option.bind_eq_some_iff, search_eq_some_iff hsearch, Spelling.isWrittenIn_iff,
      ← ofGroups?_groups_iff]
    constructor
    · rintro ⟨_, ⟨w, htext, rfl⟩, hv⟩
      exact ⟨w, htext, hv⟩
    · rintro ⟨w, htext, hv⟩
      exact ⟨w.groups, ⟨w, htext, rfl⟩, hv⟩
  rw [← hread, parseBy]
  cases (search pattern (Text.trimChars input.toList)).bind ofGroups? <;> simp

theorem parseBy_eq_error_iff (hsearch : Pattern.IsSearch search) {e : BuildError} :
    parseBy search input = .error e ↔ e = .invalidVersion input ∧
      ¬∃ (w : Spelling) (v : Version), w.IsWrittenIn input ∧ w.Denotes v := by
  have hparse : (∃ v, parseBy search input = .ok v) ↔
      ∃ (w : Spelling) (v : Version), w.IsWrittenIn input ∧ w.Denotes v := by
    simp only [parseBy_eq_ok_iff hsearch]
    exact exists_comm
  rw [← hparse, parseBy]
  cases (search pattern (Text.trimChars input.toList)).bind ofGroups? <;> simp [eq_comm]

end Search

/-- Let any search for patterns be given. Reading accepts exactly the texts that are a spelling,
with white space around it, whose numbers consist of ASCII digits and have 32 bits, and gives the
version with these numbers. Every other text is refused with an error that carries it. The text of a
version is read back as that version. -/
theorem parse_exact {search : Pattern → List Char → Option Pattern.Groups}
    (hsearch : Pattern.IsSearch search) :
    (∀ input v, parseBy search input = .ok v ↔
      ∃ w : Spelling, w.IsWrittenIn input ∧ w.Denotes v) ∧
    (∀ input e, parseBy search input = .error e ↔ e = .invalidVersion input ∧
      ¬∃ (w : Spelling) (v : Version), w.IsWrittenIn input ∧ w.Denotes v) ∧
    ∀ v : Version, parseBy search v.text = .ok v := by
  refine ⟨fun _ _ => parseBy_eq_ok_iff hsearch, fun _ _ => parseBy_eq_error_iff hsearch,
    fun v => ?_⟩
  refine (parseBy_eq_ok_iff hsearch).mpr ⟨.ofVersion v, ⟨[], [], ?_⟩, Spelling.denotes_ofVersion v⟩
  simp [Spelling.chars_ofVersion]

/-- The search for the first place reads versions in this way. It also finds the pattern in a text
of Arabic digits, which is refused then, as is a number of more than 32 bits. -/
theorem parse_exact_search :
    (∀ input v, parse input = .ok v ↔ ∃ w : Spelling, w.IsWrittenIn input ∧ w.Denotes v) ∧
    (∀ v : Version, parse v.text = .ok v) ∧
    parse " v6.01-rc.1\t" = .ok ⟨6, 1, 0⟩ ∧
    (Pattern.search pattern "٧.١".toList).isSome = true ∧
    parse "٧.١" = .error (.invalidVersion "٧.١") ∧
    parse "7.4294967296" = .error (.invalidVersion "7.4294967296") := by
  obtain ⟨hread, -, htext⟩ := parse_exact Pattern.isSearch_search
  exact ⟨hread, htext, by decide +kernel⟩

end Version

end Tabular
