/-!
# Patterns with groups

A pattern describes a part of a text, character by character. The parts that certain pieces of it
stand for are captured as numbered groups. A search looks for the first place at which a part of the
text matches; of the ways in which parts match there, an optional piece is rather used than not, and
a run of characters is rather longer than shorter.

## Main definitions

* `Pattern`: patterns.
* `Pattern.ways`: the ways in which a pattern matches at a place, the preferred one first.
* `Pattern.search`: the groups of the first match in a text.
-/

namespace Tabular

/-- A description of a part of a text. -/
inductive Pattern where
  /-- Nothing, at the start of the text. -/
  | start
  /-- Nothing, at the end of the text. -/
  | finish
  /-- One character of a class. -/
  | one (isMember : Char → Bool)
  /-- One or more characters of a class. -/
  | run (isMember : Char → Bool)
  /-- One pattern after the other. -/
  | seq (a b : Pattern)
  /-- The pattern or nothing. -/
  | optional (a : Pattern)
  /-- The pattern, as the group of the given number. -/
  | group (index : Nat) (a : Pattern)

namespace Pattern

/-- What the groups of a pattern stand for, by their numbers. -/
abbrev Groups := List (Nat × List Char)

/-- A way in which the front of some characters matches. -/
structure Way where
  taken : List Char
  rest : List Char
  groups : Groups

/-- The ways to take one or more characters of a class, longer ones first. -/
def runs (isMember : Char → Bool) : List Char → List Way
  | [] => []
  | c :: rest =>
    if isMember c then
      (runs isMember rest).map (fun w => { w with taken := c :: w.taken }) ++ [⟨[c], rest, []⟩]
    else []

/-- The ways in which the front of the given characters matches. The flag says whether they start
the text. -/
def ways : Pattern → Bool → List Char → List Way
  | start, atStart, cs => if atStart then [⟨[], cs, []⟩] else []
  | finish, _, cs => if cs.isEmpty then [⟨[], cs, []⟩] else []
  | one _, _, [] => []
  | one isMember, _, c :: rest => if isMember c then [⟨[c], rest, []⟩] else []
  | run isMember, _, cs => runs isMember cs
  | seq a b, atStart, cs =>
    (a.ways atStart cs).flatMap fun w =>
      (b.ways (atStart && w.taken.isEmpty) w.rest).map fun w' =>
        ⟨w.taken ++ w'.taken, w'.rest, w.groups ++ w'.groups⟩
  | optional a, atStart, cs => a.ways atStart cs ++ [⟨[], cs, []⟩]
  | group index a, atStart, cs =>
    (a.ways atStart cs).map fun w => { w with groups := (index, w.taken) :: w.groups }

/-- The groups of the first match in the given characters. -/
def searchFrom (a : Pattern) (atStart : Bool) (cs : List Char) : Option Groups :=
  match a.ways atStart cs, cs with
  | w :: _, _ => some w.groups
  | [], [] => none
  | [], _ :: rest => a.searchFrom false rest

/-- The groups of the first match in a text. -/
def search (a : Pattern) (text : List Char) : Option Groups :=
  a.searchFrom true text

end Pattern

end Tabular
