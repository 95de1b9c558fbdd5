/-!
# Places in a text

A text is read from front to back with account of the line and column. Texts have three kinds of
line breaks: the line feed, the line separator and the paragraph separator. The other ways to end a
line count as line feeds, and `Yaml.normalizeBreaks` brings a text into this form.

## Main definitions

* `Yaml.normalizeBreaks`, `Yaml.isReadable`: texts that can be read.
* `Yaml.isBlank`, `Yaml.isBreak`, `Yaml.atGap`, `Yaml.atMarker`: what stands at a place.
* `Yaml.Mark`: offset, line and column.
* `Yaml.Cursor`: a mark and the characters after it.
-/

namespace Tabular.Yaml

/-- The characters with every way to end a line but the two separators as one line feed. -/
def normalizeBreaks : List Char → List Char
  | '\r' :: '\n' :: rest => '\n' :: normalizeBreaks rest
  | c :: rest => (if c = '\r' || c.toNat = 0x85 then '\n' else c) :: normalizeBreaks rest
  | [] => []

/-- Characters that a text may contain: no control characters but tabs and line feeds. -/
def isReadable (c : Char) : Bool :=
  c = '\t' || c = '\n' || (0x20 ≤ c.toNat && c.toNat ≤ 0x7e) ||
    (0xa0 ≤ c.toNat && c.toNat ≤ 0xfffd) || 0x10000 ≤ c.toNat

/-- A space or tab. -/
def isBlank (c : Char) : Bool :=
  c = ' ' || c = '\t'

/-- A line feed, line separator or paragraph separator. -/
def isBreak (c : Char) : Bool :=
  c = '\n' || c.toNat = 0x2028 || c.toNat = 0x2029

/-- The character that may open a line without being part of it. -/
def isByteOrderMark (c : Char) : Bool :=
  c.toNat = 0xfeff

/-- Whether a blank, a line break or the end of the text follows. -/
def atGap : List Char → Bool
  | [] => true
  | c :: _ => isBlank c || isBreak c

/-- Whether the characters at the start of a line begin or end a document. -/
def atMarker : List Char → Bool
  | '-' :: '-' :: '-' :: rest => atGap rest
  | '.' :: '.' :: '.' :: rest => atGap rest
  | _ => false

/-- The value of a hexadecimal digit. -/
def hexDigit? (c : Char) : Option Nat :=
  let n := c.toNat
  if '0'.toNat ≤ n && n ≤ '9'.toNat then some (n - '0'.toNat)
  else if 'a'.toNat ≤ n && n ≤ 'f'.toNat then some (n - 'a'.toNat + 10)
  else if 'A'.toNat ≤ n && n ≤ 'F'.toNat then some (n - 'A'.toNat + 10)
  else none

/-- A place in a text. -/
structure Mark where
  /-- The number of bytes before it in UTF-8. -/
  offset : Nat
  line : Nat
  column : Nat

/-- The start of a text. -/
def Mark.start : Mark :=
  ⟨0, 0, 0⟩

/-- The place after a character. -/
def Mark.after (m : Mark) (c : Char) : Mark :=
  if isBreak c then ⟨m.offset + c.utf8Size, m.line + 1, 0⟩
  else ⟨m.offset + c.utf8Size, m.line, m.column + 1⟩

/-- A place in a text and the characters that follow. -/
structure Cursor where
  mark : Mark
  rest : List Char

namespace Cursor

/-- The cursor behind the next character. -/
def next (c : Cursor) : Cursor :=
  match c.rest with
  | [] => c
  | d :: rest => ⟨c.mark.after d, rest⟩

/-- The cursor behind the next `n` characters. -/
def skip : Nat → Cursor → Cursor
  | 0, c => c
  | n + 1, c => skip n c.next

/-- The cursor behind all characters up to the first that does not satisfy `p`. -/
def skipWhile (p : Char → Bool) (c : Cursor) : Cursor :=
  skip (c.rest.takeWhile p).length c

/-- Whether the given character comes next. -/
def at? (c : Cursor) (d : Char) : Bool :=
  c.rest.head? = some d

/-- The start of the next line, if only blanks and a comment are left on this one. -/
def nextLine? (c : Cursor) : Option Cursor :=
  let c := c.skipWhile isBlank
  let c := if c.at? '#' then c.skipWhile fun d => !isBreak d else c
  match c.rest with
  | [] => some c
  | d :: _ => if isBreak d then some c.next else none

end Cursor

end Tabular.Yaml
