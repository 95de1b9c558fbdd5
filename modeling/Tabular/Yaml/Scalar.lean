import Tabular.Yaml.Cursor

/-!
# Quoted and plain scalars

A scalar may continue on further lines. Blanks around line breaks are dropped. A line feed reads as
a space, and if more breaks follow it, as these alone; other breaks stand for themselves.

## Main definitions

* `Yaml.Style`: the ways to write a scalar.
* `Yaml.Gap`: the blanks and breaks between two visible characters.
* `Yaml.singleQuoted?`, `Yaml.doubleQuoted?`, `Yaml.plain?`: the scalar at a place.
-/

namespace Tabular.Yaml

/-- The ways to write a scalar. -/
inductive Style where
  | plain
  | quoted
  | literal
  | folded
  deriving DecidableEq

/-- The blanks and breaks after a visible character. -/
structure Gap where
  /-- The blanks before the first break, from right to left. -/
  blanks : List Char
  /-- The first break, unless it was escaped. -/
  first : Option Char
  /-- The breaks after the first, from right to left. -/
  further : List Char
  /-- Whether the first break was escaped. -/
  isJoined : Bool

namespace Gap

/-- Nothing. -/
def none : Gap :=
  ⟨[], Option.none, [], false⟩

/-- The gap that an escaped break starts. -/
def joined : Gap :=
  ⟨[], Option.none, [], true⟩

/-- Whether the gap spans lines. -/
def spansLines (g : Gap) : Bool :=
  g.isJoined || g.first.isSome

/-- Whether the gap contains anything. -/
def isSome (g : Gap) : Bool :=
  g.spansLines || !g.blanks.isEmpty

/-- The gap with a further blank, which counts before the first break only. -/
def blank (g : Gap) (c : Char) : Gap :=
  if g.spansLines then g else { g with blanks := c :: g.blanks }

/-- The gap with a further break. -/
def lineBreak (g : Gap) (c : Char) : Gap :=
  if g.spansLines then { g with further := c :: g.further }
  else { g with blanks := [], first := some c }

/-- What a break and the breaks after it read as, from right to left. -/
def fold (first : Char) (further : List Char) : List Char :=
  if first = '\n' then
    if further.isEmpty then [' '] else further
  else further ++ [first]

/-- What the gap reads as, from right to left. -/
def reading (g : Gap) : List Char :=
  match g.first with
  | some c => fold c g.further
  | Option.none => if g.isJoined then g.further else g.blanks

end Gap

/-- A scalar and the place after it. -/
structure Scanned where
  text : String
  after : Cursor

/-- The rest of a single-quoted scalar. `read` lists its characters from right to left. -/
def singleQuotedFrom (read : List Char) (gap : Gap) (m : Mark) : List Char → Option Scanned
  | [] => none
  | '\'' :: '\'' :: rest =>
    singleQuotedFrom ('\'' :: (gap.reading ++ read)) .none ((m.after '\'').after '\'') rest
  | '\'' :: rest => some ⟨String.ofList (gap.reading ++ read).reverse, ⟨m.after '\'', rest⟩⟩
  | c :: rest =>
    if isBlank c then singleQuotedFrom read (gap.blank c) (m.after c) rest
    else if isBreak c then
      if atMarker rest then none
      else singleQuotedFrom read (gap.lineBreak c) (m.after c) rest
    else singleQuotedFrom (c :: (gap.reading ++ read)) .none (m.after c) rest

/-- The scalar after an opening single quote; a quote inside is written twice. -/
def singleQuoted? (c : Cursor) : Option Scanned :=
  singleQuotedFrom [] .none c.mark c.rest

/-- The character of a one-letter escape. -/
def escapedChar? (c : Char) : Option Char :=
  match c with
  | '0' => some (Char.ofNat 0)
  | 'a' => some (Char.ofNat 0x7)
  | 'b' => some (Char.ofNat 0x8)
  | 't' | '\t' => some '\t'
  | 'n' => some '\n'
  | 'v' => some (Char.ofNat 0xb)
  | 'f' => some (Char.ofNat 0xc)
  | 'r' => some '\r'
  | 'e' => some (Char.ofNat 0x1b)
  | ' ' | '"' | '/' | '\\' => some c
  | 'N' => some (Char.ofNat 0x85)
  | '_' => some (Char.ofNat 0xa0)
  | 'L' => some (Char.ofNat 0x2028)
  | 'P' => some (Char.ofNat 0x2029)
  | _ => none

/-- The number of hexadecimal digits of a code point escape. -/
def escapeDigits? (c : Char) : Option Nat :=
  match c with
  | 'x' => some 2
  | 'u' => some 4
  | 'U' => some 8
  | _ => none

/-- An unfinished escape of a double-quoted scalar. -/
inductive Escape where
  | nothing
  | backslash
  /-- A code point escape with the digits still missing. -/
  | codePoint (missing value : Nat)

/-- The rest of a double-quoted scalar. `read` lists its characters from right to left. -/
def doubleQuotedFrom (read : List Char) (gap : Gap) (m : Mark) :
    Escape → List Char → Option Scanned
  | _, [] => none
  | .codePoint missing value, c :: rest =>
    (hexDigit? c).bind fun d =>
      let value := 16 * value + d
      match missing with
      | 0 | 1 =>
        if value.isValidChar then
          doubleQuotedFrom (Char.ofNat value :: read) .none (m.after c) .nothing rest
        else none
      | n + 1 => doubleQuotedFrom read gap (m.after c) (.codePoint n value) rest
  | .backslash, c :: rest =>
    let read := gap.reading ++ read
    if isBreak c then
      if atMarker rest then none else doubleQuotedFrom read .joined (m.after c) .nothing rest
    else
      match escapedChar? c, escapeDigits? c with
      | some e, _ => doubleQuotedFrom (e :: read) .none (m.after c) .nothing rest
      | _, some n => doubleQuotedFrom read .none (m.after c) (.codePoint n 0) rest
      | _, _ => none
  | .nothing, c :: rest =>
    if c = '"' then some ⟨String.ofList (gap.reading ++ read).reverse, ⟨m.after c, rest⟩⟩
    else if c = '\\' then doubleQuotedFrom read gap (m.after c) .backslash rest
    else if isBlank c then doubleQuotedFrom read (gap.blank c) (m.after c) .nothing rest
    else if isBreak c then
      if atMarker rest then none
      else doubleQuotedFrom read (gap.lineBreak c) (m.after c) .nothing rest
    else doubleQuotedFrom (c :: (gap.reading ++ read)) .none (m.after c) .nothing rest

/-- The scalar after an opening double quote. -/
def doubleQuoted? (c : Cursor) : Option Scanned :=
  doubleQuotedFrom [] .none c.mark .nothing c.rest

/-- The characters that open, close and divide flow collections. -/
def isFlowMark (c : Char) : Bool :=
  c = ',' || c = '[' || c = ']' || c = '\x7b' || c = '\x7d'

/-- Characters that start something other than a plain scalar. -/
def isIndicator (c : Char) : Bool :=
  isFlowMark c || c = '#' || c = '&' || c = '*' || c = '!' || c = '|' || c = '>' || c = '\'' ||
    c = '"' || c = '%' || c = '@' || c = Char.ofNat 0x60

/-- Whether a plain scalar can start here. A dash may start one if no blank follows, and outside
flow collections a question mark or colon may too. -/
def startsPlain (flow : Bool) : List Char → Bool
  | [] => false
  | c :: rest =>
    if isBlank c || isBreak c then false
    else if c = '-' then !atGap rest
    else if c = '?' || c = ':' then !flow && !atGap rest
    else !isIndicator c

/-- Whether a plain scalar ends before the given characters. -/
def endsPlain (flow : Bool) : List Char → Bool
  | [] => true
  | c :: rest => (c = ':' && atGap rest) || (flow && isFlowMark c)

/-- Whether a colon stands where a flow collection allows none. -/
def isStrayColon (flow : Bool) : List Char → Bool
  | ':' :: d :: _ => flow && (isFlowMark d || d = '?')
  | _ => false

/-- A plain scalar, with whether the gap after it spans lines, and the place after that gap. -/
structure PlainScanned where
  text : String
  endsLine : Bool
  after : Cursor

/-- The rest of a plain scalar. Outside flow collections its further lines stand at the column
`least` or to the right of it; tabs do not reach this column. -/
def plainFrom (flow : Bool) (least : Nat) (read : List Char) (gap : Gap) (m : Mark) :
    List Char → Option PlainScanned
  | [] => some ⟨String.ofList read.reverse, gap.spansLines, ⟨m, []⟩⟩
  | c :: rest =>
    let stops :=
      gap.isSome && (c = '#' || (m.column = 0 && atMarker (c :: rest)) ||
        (!flow && m.column < least))
    if isBreak c then plainFrom flow least read (gap.lineBreak c) (m.after c) rest
    else if isBlank c then
      if c = '\t' && gap.spansLines && m.column < least then none
      else plainFrom flow least read (gap.blank c) (m.after c) rest
    else if stops || endsPlain flow (c :: rest) then
      some ⟨String.ofList read.reverse, gap.spansLines, ⟨m, c :: rest⟩⟩
    else if isStrayColon flow (c :: rest) then none
    else plainFrom flow least (c :: (gap.reading ++ read)) .none (m.after c) rest

/-- The plain scalar at a place that starts one. -/
def plain? (flow : Bool) (least : Nat) (c : Cursor) : Option PlainScanned :=
  plainFrom flow least [] .none c.mark c.rest

end Tabular.Yaml
