import Tabular.Yaml.BlockScalar
import Tabular.Yaml.Tag

/-!
# Tokens of a YAML text

The tokens of a text make its structure explicit: where blocks start and end, and what is a key. A
block starts at a column and ends at the first token to the left of it. A mapping key is known by
the colon after it, which stands on the line of the start of the key and at most 1024 bytes
behind it; the token that marks the key is put before it then.

## Main definitions

* `Yaml.Token`: tokens.
* `Yaml.KeyStart`: places where a key may have started.
* `Yaml.Scan`: the state of a scan.
* `Yaml.Scan.token?`: the next token.
* `Yaml.tokens?`: the tokens of a text.
-/

namespace Tabular.Yaml

/-- A token. -/
inductive Token where
  | directive (directive : Directive)
  | documentStart
  | documentEnd
  | openBlockList
  | openBlockMapping
  | closeBlock
  | openFlowList
  | closeFlowList
  | openFlowMapping
  | closeFlowMapping
  /-- The dash before an item of a block list. -/
  | item
  | comma
  | key
  | value
  | alias (name : String)
  | anchor (name : String)
  | tag (tag : WrittenTag)
  | scalar (text : String) (style : Style)
  deriving DecidableEq

/-- A place where a key may have started. -/
structure KeyStart where
  mark : Mark
  /-- How many tokens come before it. -/
  before : Nat
  /-- Whether only a key can stand there. -/
  isRequired : Bool

/-- Whether a colon at the given place comes too late for the key. -/
def KeyStart.isStale (k : KeyStart) (m : Mark) : Bool :=
  k.mark.line < m.line || k.mark.offset + 1024 < m.offset

/-- The state of a scan. -/
structure Scan where
  cursor : Cursor
  /-- The tokens so far, newest first. -/
  tokens : List Token
  /-- The columns of the open blocks, innermost first. -/
  blocks : List Nat
  /-- The place where a key may have started, outside or in the innermost flow collection. -/
  key : Option KeyStart
  /-- The same for what surrounds each open flow collection, innermost first. -/
  outerKeys : List (Option KeyStart)
  /-- Whether a key may start at the next token. -/
  allowsKey : Bool

namespace Scan

/-- The state at the start of a text. -/
def start (cs : List Char) : Scan :=
  ⟨⟨.start, cs⟩, [], [], none, [], true⟩

/-- Whether a flow collection is open. -/
def inFlow (s : Scan) : Bool :=
  !s.outerKeys.isEmpty

/-- The least column of what stands inside the innermost block. -/
def least (s : Scan) : Nat :=
  match s.blocks with
  | [] => 0
  | column :: _ => column + 1

/-- The state after a token. -/
def emit (s : Scan) (t : Token) (after : Cursor) : Scan :=
  { s with cursor := after, tokens := t :: s.tokens }

/-- The state with a block opened at a column, unless one is open there. -/
def openBlock (s : Scan) (column : Nat) (t : Token) : Scan :=
  if s.inFlow || column < s.least then s
  else { s with tokens := t :: s.tokens, blocks := column :: s.blocks }

/-- The state with the blocks closed that satisfy `p`, from the innermost on. -/
def closeBlocksWhile (p : Nat → Bool) (s : Scan) : Scan :=
  if s.inFlow then s
  else
    { s with
      tokens := (s.blocks.takeWhile p).map (fun _ => .closeBlock) ++ s.tokens
      blocks := s.blocks.dropWhile p }

/-- The state without the start of a key, which must not be required. -/
def dropKey? (s : Scan) : Option Scan :=
  if s.key.any KeyStart.isRequired then none else some { s with key := none }

/-- The state with a key possibly started at the next token, and none allowed right after. -/
def startKey? (s : Scan) : Option Scan :=
  if s.allowsKey then
    s.dropKey?.map fun s => { s with
      key := some ⟨s.cursor.mark, s.tokens.length, !s.inFlow && s.least = s.cursor.mark.column + 1⟩
      allowsKey := false }
  else some s

/-- The start of a key as long as it is not stale; a required one must not be. -/
def freshKey? (m : Mark) : Option KeyStart → Option (Option KeyStart)
  | some k => if !k.isStale m then some (some k) else if k.isRequired then none else some none
  | none => some none

/-- The state without stale starts of keys. -/
def dropStaleKeys? (s : Scan) : Option Scan := do
  let key ← freshKey? s.cursor.mark s.key
  let outerKeys ← s.outerKeys.mapM (freshKey? s.cursor.mark)
  return { s with key, outerKeys }

/-- The next token after blanks, comments and line breaks, and whether a key may start there. Tabs
do not indent a token that may start a key. -/
def seekFrom (flow allowsKey inComment : Bool) (m : Mark) : List Char → Cursor × Bool
  | [] => (⟨m, []⟩, allowsKey)
  | c :: rest =>
    if isBreak c then seekFrom flow (allowsKey || !flow) false (m.after c) rest
    else if inComment || c = '#' then seekFrom flow allowsKey true (m.after c) rest
    else if c = ' ' || (c = '\t' && (flow || !allowsKey)) ||
        (isByteOrderMark c && m.column = 0) then
      seekFrom flow allowsKey false (m.after c) rest
    else (⟨m, c :: rest⟩, allowsKey)

/-- The state at the next token. -/
def seek (s : Scan) : Scan :=
  let (cursor, allowsKey) := seekFrom s.inFlow s.allowsKey false s.cursor.mark s.cursor.rest
  { s with cursor, allowsKey }

/-- The state with all blocks closed and no key started. -/
def closeAll? (s : Scan) : Option Scan :=
  (s.closeBlocksWhile fun _ => true).dropKey?.map fun s => { s with allowsKey := false }

/-- The state after a directive. -/
def directive? (s : Scan) : Option Scan := do
  let s ← s.closeAll?
  let (directive, after) ← Yaml.directive? s.cursor.next
  return s.emit (.directive directive) after

/-- The state after a marker of a document. -/
def marker? (s : Scan) (t : Token) : Option Scan :=
  s.closeAll?.map fun s => s.emit t (s.cursor.skip 3)

/-- The state after the start of a flow collection, which may be a key. -/
def openFlow? (s : Scan) (t : Token) : Option Scan :=
  s.startKey?.map fun s =>
    { s.emit t s.cursor.next with
      key := none
      outerKeys := s.key :: s.outerKeys
      allowsKey := true }

/-- The state after the end of a flow collection. -/
def closeFlow? (s : Scan) (t : Token) : Option Scan :=
  s.dropKey?.map fun s =>
    let s := { s.emit t s.cursor.next with allowsKey := false }
    match s.outerKeys with
    | [] => s
    | key :: outerKeys => { s with key, outerKeys }

/-- The state after a comma. -/
def comma? (s : Scan) : Option Scan :=
  s.dropKey?.map fun s => { s.emit .comma s.cursor.next with allowsKey := true }

/-- The state after the dash of a list item. -/
def item? (s : Scan) : Option Scan :=
  if !s.inFlow && !s.allowsKey then none
  else
    (s.openBlock s.cursor.mark.column .openBlockList).dropKey?.map fun s =>
      { s.emit .item s.cursor.next with allowsKey := true }

/-- The state after the question mark of an explicit key. -/
def explicitKey? (s : Scan) : Option Scan :=
  if !s.inFlow && !s.allowsKey then none
  else
    (s.openBlock s.cursor.mark.column .openBlockMapping).dropKey?.map fun s =>
      { s.emit .key s.cursor.next with allowsKey := !s.inFlow }

/-- The state with a key where one may have started, and a block mapping opened if need be. -/
def insertKey (s : Scan) (k : KeyStart) : Scan :=
  let later := s.tokens.length - k.before
  let before := { s with tokens := s.tokens.drop later }.openBlock k.mark.column .openBlockMapping
  { before with tokens := s.tokens.take later ++ .key :: before.tokens, key := none }

/-- The state after the colon before a value. -/
def value? (s : Scan) : Option Scan :=
  match s.key with
  | some k => some { (s.insertKey k).emit .value s.cursor.next with allowsKey := false }
  | none =>
    if !s.inFlow && !s.allowsKey then none
    else
      let s := s.openBlock s.cursor.mark.column .openBlockMapping
      some { s.emit .value s.cursor.next with allowsKey := !s.inFlow }

/-- The state after an anchor or alias. -/
def anchor? (s : Scan) (token : String → Token) : Option Scan := do
  let s ← s.startKey?
  let (name, after) ← anchorName? s.cursor.next
  return s.emit (token name) after

/-- The state after a tag. -/
def tag? (s : Scan) : Option Scan := do
  let s ← s.startKey?
  let (tag, after) ← writtenTag? s.inFlow s.cursor
  return s.emit (.tag tag) after

/-- The state after a block scalar. -/
def blockScalar? (s : Scan) (style : Style) : Option Scan := do
  let s ← s.dropKey?
  let scalar ← Yaml.blockScalar? (style = .folded) s.least s.cursor.next
  return { s.emit (.scalar scalar.text style) scalar.after with allowsKey := true }

/-- The state after a quoted scalar. -/
def quoted? (s : Scan) (scan : Cursor → Option Scanned) : Option Scan := do
  let s ← s.startKey?
  let scalar ← scan s.cursor.next
  return s.emit (.scalar scalar.text .quoted) scalar.after

/-- The state after a plain scalar. A key may start on a later line. -/
def plain? (s : Scan) : Option Scan := do
  let s ← s.startKey?
  let scalar ← Yaml.plain? s.inFlow s.least s.cursor
  return { s.emit (.scalar scalar.text .plain) scalar.after with allowsKey := scalar.endsLine }

/-- The state after the token that the next characters start. -/
def token? (s : Scan) : Option Scan :=
  let rest := s.cursor.rest
  let atLineStart := s.cursor.mark.column = 0
  let second := rest.drop 1
  match rest with
  | [] => none
  | c :: _ =>
    if atLineStart && c = '%' then s.directive?
    else if atLineStart && atMarker rest then
      s.marker? (if c = '-' then .documentStart else .documentEnd)
    else if c = '[' then s.openFlow? .openFlowList
    else if c = '\x7b' then s.openFlow? .openFlowMapping
    else if c = ']' then s.closeFlow? .closeFlowList
    else if c = '\x7d' then s.closeFlow? .closeFlowMapping
    else if c = ',' then s.comma?
    else if c = '-' && atGap second then s.item?
    else if c = '?' && (s.inFlow || atGap second) then s.explicitKey?
    else if c = ':' && (s.inFlow || atGap second) then s.value?
    else if c = '*' then s.anchor? .alias
    else if c = '&' then s.anchor? .anchor
    else if c = '!' then s.tag?
    else if c = '|' && !s.inFlow then s.blockScalar? .literal
    else if c = '>' && !s.inFlow then s.blockScalar? .folded
    else if c = '\'' then s.quoted? singleQuoted?
    else if c = '"' then s.quoted? doubleQuoted?
    else if startsPlain s.inFlow rest then s.plain?
    else none

/-- The tokens of a text, of which at most the given number is left to scan. -/
def run : Nat → Scan → Option (List Token)
  | 0, _ => none
  | n + 1, s =>
    s.seek.dropStaleKeys?.bind fun s =>
      let s := s.closeBlocksWhile fun column => s.cursor.mark.column < column
      if s.cursor.rest.isEmpty then s.closeAll?.map fun s => s.tokens.reverse
      else s.token?.bind (run n)

end Scan

/-- The tokens of a text. Every token has a character of its own. -/
def tokens? (cs : List Char) : Option (List Token) :=
  Scan.run (cs.length + 1) (.start cs)

end Tabular.Yaml
