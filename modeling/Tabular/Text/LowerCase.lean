import Tabular.Text.CaseData
import Tabular.Text.Basic

/-!
# Lower case of a text

The full lower-case form of a text: characters are mapped one by one, the dotted capital I has a
form of two characters, and a capital sigma that ends a word becomes a final sigma.

## Main definitions

* `Text.lowerChar`: the lower-case form of one character.
* `Text.endsWord`: the context condition of the final sigma.
* `Text.lower`: the lower-case form of a text.
-/

namespace Tabular.Text

/-- The code point of the lower-case form of a character with a single-character form. -/
def lowerCodePoint (ranges : List (Nat × Nat × Nat × Nat)) (n : Nat) : Nat :=
  match ranges.find? fun (first, last, step, _) =>
      first ≤ n && n ≤ last && (n - first) % step == 0 with
  | some (first, _, _, lower) => lower + (n - first)
  | none => n

/-- The lower-case form of one character outside its context. -/
def lowerChar (c : Char) : List Char :=
  if c.toNat < 0x80 then [c.toLower]
  else if c.toNat = 0x130 then ['i', Char.ofNat 0x307]
  else [Char.ofNat (lowerCodePoint lowerRanges c.toNat)]

/-- Whether the first character that is not case-ignorable exists and is cased. -/
def meetsCased (cs : List Char) : Bool :=
  match cs.dropWhile (inRanges caseIgnorableRanges) with
  | c :: _ => inRanges casedRanges c
  | [] => false

/-- A letter ends a word when a cased character precedes it and none follows, case-ignorable
characters set aside. `before` lists the preceding characters from right to left. -/
def endsWord (before after : List Char) : Bool :=
  meetsCased before && !meetsCased after

/-- The lower-case forms of the remaining characters, given the preceding ones from right to
left. -/
def lowerFrom (before : List Char) : List Char → List Char
  | [] => []
  | c :: rest =>
    let form :=
      if c.toNat = 0x3a3 then [Char.ofNat (if endsWord before rest then 0x3c2 else 0x3c3)]
      else lowerChar c
    form ++ lowerFrom (c :: before) rest

/-- The full lower-case form of a text. -/
def lower (s : String) : String :=
  String.ofList (lowerFrom [] s.toList)

end Tabular.Text
