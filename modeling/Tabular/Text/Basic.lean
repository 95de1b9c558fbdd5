/-!
# Texts

Character classes are given as lists of inclusive code point ranges, and texts are compared by
their code points from left to right. Property paths are written as texts with a dot between
segments; empty segments carry no meaning and are dropped when a path is read.

## Main definitions

* `Text.inRanges`: membership of a character in a list of ranges.
* `Text.codePointsLE`, `Text.sortsBefore`: the order of texts by code points, a prefix first.
* `Text.concat`: the texts of a list one after the other.
* `Text.splitAt`: the pieces between separators, empty ones included.
* `Text.segments`: the non-empty segments of a dotted text.
-/

namespace Tabular.Text

/-- Whether a character lies in one of the given inclusive code point ranges. -/
def inRanges (ranges : List (Nat × Nat)) (c : Char) : Bool :=
  ranges.any fun (first, last) => first ≤ c.toNat && c.toNat ≤ last

/-- Lexicographic comparison by code point; a proper prefix comes first. -/
def codePointsLE : List Char → List Char → Bool
  | [], _ => true
  | _ :: _, [] => false
  | a :: as, b :: bs =>
    if a.toNat < b.toNat then true
    else if b.toNat < a.toNat then false
    else codePointsLE as bs

/-- `sortsBefore a b` holds when `a` may stand before `b` in a list sorted by code points. -/
def sortsBefore (a b : String) : Bool :=
  codePointsLE a.toList b.toList

/-- The texts of a list, one after the other. -/
def concat : List String → String
  | [] => ""
  | s :: rest => s ++ concat rest

@[simp] theorem concat_nil : concat [] = "" := rfl

@[simp] theorem concat_cons (s : String) (rest : List String) :
    concat (s :: rest) = s ++ concat rest := rfl

theorem concat_append (xs ys : List String) : concat (xs ++ ys) = concat xs ++ concat ys := by
  induction xs with
  | nil => simp
  | cons s rest ih => simp [ih, String.append_assoc]

/-- The pieces of a list of characters between occurrences of a separator. There is always one
piece more than there are separators. -/
def splitAt (separator : Char) : List Char → List (List Char)
  | [] => [[]]
  | c :: rest =>
    match splitAt separator rest with
    | [] => [[c]]
    | piece :: pieces => if c = separator then [] :: piece :: pieces else (c :: piece) :: pieces

/-- The non-empty segments of a dotted text. -/
def segments (s : String) : List String :=
  ((splitAt '.' s.toList).filter fun piece => !piece.isEmpty).map String.ofList

end Tabular.Text
