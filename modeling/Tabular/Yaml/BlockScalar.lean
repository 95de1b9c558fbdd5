import Tabular.Yaml.Scalar

/-!
# Block scalars

A block scalar consists of the lines after its header that stand at its column or to the right of
it. The column is that of the first line with text, unless the header gives it. In a literal scalar
every line break counts; in a folded one a line feed between two lines of text reads as a space.

## Main definitions

* `Yaml.BlockHeader`: how the scalar ends, and its column.
* `Yaml.indentation?`: the empty lines and the indentation at a place.
* `Yaml.blockScalar?`: the scalar at a place.
-/

namespace Tabular.Yaml

/-- What becomes of the line breaks at the end of a block scalar. -/
inductive Chomping where
  /-- None of them counts. -/
  | strip
  /-- The break of the last line with text counts. -/
  | clip
  /-- All of them count. -/
  | keep
  deriving DecidableEq

/-- The header of a block scalar, with the columns it stands to the right of the block around it. -/
structure BlockHeader where
  chomping : Chomping
  offset : Option Nat

/-- The sign of a header. -/
def chomping? (c : Char) : Option Chomping :=
  if c = '+' then some .keep else if c = '-' then some .strip else none

/-- The digit of a header. -/
def blockOffset? (c : Char) : Option Nat :=
  if c.isDigit then some (c.toNat - '0'.toNat) else none

/-- The header at a place, a sign and a digit in any order, and the place after it. -/
def blockHeader? (c : Cursor) : Option (BlockHeader × Cursor) :=
  let sign := fun c : Cursor => c.rest.head?.bind chomping?
  let digit := fun c : Cursor => c.rest.head?.bind blockOffset?
  let (header, after) :=
    match sign c, digit c with
    | some chomping, _ =>
      match digit c.next with
      | some offset => (BlockHeader.mk chomping (some offset), c.next.next)
      | none => (⟨chomping, none⟩, c.next)
    | none, some offset =>
      match sign c.next with
      | some chomping => (⟨chomping, some offset⟩, c.next.next)
      | none => (⟨.clip, some offset⟩, c.next)
    | none, none => (⟨.clip, none⟩, c)
  if header.offset = some 0 then none else some (header, after)

/-- Empty lines and the indentation of the line after them. -/
structure Indentation where
  /-- The breaks of the empty lines, from right to left. -/
  breaks : List Char
  /-- The greatest column reached. -/
  widest : Nat
  after : Cursor

/-- The empty lines and the indentation at a place, up to a column if one is given. Tabs do not
indent. -/
def indentationFrom (column : Option Nat) (breaks : List Char) (widest : Nat) (m : Mark) :
    List Char → Option Indentation
  | [] => some ⟨breaks, max widest m.column, ⟨m, []⟩⟩
  | c :: rest =>
    let isInside := match column with
      | some n => m.column < n
      | none => true
    if isInside && c = ' ' then indentationFrom column breaks widest (m.after c) rest
    else if isInside && c = '\t' then none
    else if isBreak c then
      indentationFrom column (c :: breaks) (max widest m.column) (m.after c) rest
    else some ⟨breaks, max widest m.column, ⟨m, c :: rest⟩⟩

/-- The empty lines and the indentation at a place. -/
def indentation? (column : Option Nat) (c : Cursor) : Option Indentation :=
  indentationFrom column [] 0 c.mark c.rest

/-- The part of a block scalar that was read. Characters are listed from right to left. -/
structure BlockLines where
  read : List Char
  /-- The break of the last line with text. -/
  lastBreak : Option Char
  /-- The breaks of the empty lines after it. -/
  further : List Char
  /-- Whether that line starts with a blank. -/
  isIndented : Bool

/-- What was read, with the line breaks before a further line. -/
def BlockLines.joined (l : BlockLines) (folds startsBlank : Bool) : List Char :=
  match l.lastBreak with
  | some c =>
    if folds && !l.isIndented && !startsBlank then Gap.fold c l.further ++ l.read
    else l.further ++ c :: l.read
  | none => l.further ++ l.read

/-- The text of the lines, with the breaks at the end that count. -/
def BlockLines.text (l : BlockLines) (chomping : Chomping) : String :=
  let lastBreak := if chomping = .strip then [] else l.lastBreak.toList
  let further := if chomping = .keep then l.further else []
  String.ofList (further ++ lastBreak ++ l.read).reverse

/-- The lines of a block scalar at a column, up to the first that does not reach it. -/
def blockLines (folds : Bool) (column : Nat) :
    Nat → BlockLines → Cursor → Option (BlockLines × Cursor)
  | 0, _, _ => none
  | n + 1, l, c =>
    if c.rest.isEmpty || c.mark.column ≠ column then some (l, c)
    else
      let startsBlank := c.rest.head?.any isBlank
      let line := c.rest.takeWhile fun d => !isBreak d
      let atBreak := c.skip line.length
      (indentation? (some column) atBreak.next).bind fun i =>
        blockLines folds column n
          ⟨line.reverse ++ l.joined folds startsBlank, atBreak.rest.head?, i.breaks, startsBlank⟩
          i.after

/-- The block scalar after its indicator, inside blocks whose content stands at the column `least`
or to the right of it. -/
def blockScalar? (folds : Bool) (least : Nat) (c : Cursor) : Option Scanned := do
  let (header, c) ← blockHeader? c
  let c ← c.nextLine?
  let given := header.offset.map fun n => least - 1 + n
  let i ← indentation? given c
  let column := given.getD (max i.widest (max least 1))
  let (lines, after) ←
    blockLines folds column (c.rest.length + 1) ⟨[], none, i.breaks, false⟩ i.after
  return ⟨lines.text header.chomping, after⟩

end Tabular.Yaml
