import Tabular.Yaml.Cursor

/-!
# Anchors, tags and directives

A node may have an anchor, by which aliases refer to it, and a tag. A tag is written in full between
angle brackets, or as a handle that stands for the front part of the tag, followed by the rest of
it. Directives before a document give its version and the meaning of handles.

## Main definitions

* `Yaml.anchorName?`: the name of an anchor or alias.
* `Yaml.uri?`: tags and parts of tags, with escaped octets.
* `Yaml.WrittenTag`, `Yaml.writtenTag?`: tags as written.
* `Yaml.Directive`, `Yaml.directive?`: directives.
-/

namespace Tabular.Yaml

/-- The characters of anchor names, tag handles and directive names. -/
def isWordChar (c : Char) : Bool :=
  c.isAlphanum || c = '_' || c = '-'

/-- Whether an anchor name may end before the given characters. -/
def endsAnchor (cs : List Char) : Bool :=
  atGap cs || cs.head?.any fun c =>
    c = '?' || c = ':' || c = ',' || c = ']' || c = '\x7d' || c = '%' || c = '@' ||
      c = Char.ofNat 0x60

/-- The name of an anchor or alias after its indicator, and the place after it. -/
def anchorName? (c : Cursor) : Option (String × Cursor) :=
  let name := c.rest.takeWhile isWordChar
  let after := c.skip name.length
  if name.isEmpty || !endsAnchor after.rest then none else some (String.ofList name, after)

/-- The characters that stand for themselves in a tag. A tag in angle brackets or a directive may
contain further ones. -/
def isTagChar (isVerbatim : Bool) (c : Char) : Bool :=
  isWordChar c || c = ';' || c = '/' || c = '?' || c = ':' || c = '@' || c = '&' || c = '=' ||
    c = '+' || c = '$' || c = '.' || c = '!' || c = '~' || c = '*' || c = '\'' || c = '(' ||
    c = ')' || (isVerbatim && (c = ',' || c = '[' || c = ']'))

/-- The number of octets that follow a leading octet of UTF-8. -/
def trailingOctets? (octet : Nat) : Option Nat :=
  if octet < 0x80 then some 0
  else if 0xc0 ≤ octet && octet < 0xe0 then some 1
  else if 0xe0 ≤ octet && octet < 0xf0 then some 2
  else if 0xf0 ≤ octet && octet < 0xf8 then some 3
  else none

/-- The number of octets still due after an octet. -/
def octetsDue? (due octet : Nat) : Option Nat :=
  match due with
  | 0 => trailingOctets? octet
  | n + 1 => if 0x80 ≤ octet && octet < 0xc0 then some n else none

/-- The octets of a tag from a place on, from right to left, and the place after it. An escape is a
percent sign and two digits; the escapes of one character follow each other. -/
def octetsFrom (isVerbatim : Bool) (read : List UInt8) (due : Nat) (m : Mark) :
    List Char → Option (List UInt8 × Cursor)
  | '%' :: a :: b :: rest =>
    match hexDigit? a, hexDigit? b with
    | some high, some low =>
      let octet := 16 * high + low
      (octetsDue? due octet).bind fun due =>
        octetsFrom isVerbatim (octet.toUInt8 :: read) due (((m.after '%').after a).after b) rest
    | _, _ => none
  | c :: rest =>
    if due = 0 && isTagChar isVerbatim c then
      octetsFrom isVerbatim (c.toNat.toUInt8 :: read) 0 (m.after c) rest
    else if due = 0 && c ≠ '%' then some (read, ⟨m, c :: rest⟩)
    else none
  | [] => if due = 0 then some (read, ⟨m, []⟩) else none

/-- A tag or a part of one. The escapes in it may form no text. -/
abbrev Uri := Option String

/-- The text of octets listed from right to left. -/
def Uri.ofOctets (octets : List UInt8) : Uri :=
  String.fromUTF8? ⟨octets.reverse.toArray⟩

/-- The tag part at a place, which is not empty, and the place after it. -/
def uri? (isVerbatim : Bool) (c : Cursor) : Option (Uri × Cursor) :=
  (octetsFrom isVerbatim [] 0 c.mark c.rest).bind fun (octets, after) =>
    if octets.isEmpty then none else some (.ofOctets octets, after)

/-- A tag as written. A handle stands for the front part of a tag; with the empty handle the suffix
is the whole tag. -/
structure WrittenTag where
  handle : String
  suffix : Uri
  deriving DecidableEq

/-- The tag in angle brackets after its two opening characters. -/
def verbatimTag? (c : Cursor) : Option (WrittenTag × Cursor) :=
  (uri? true c).bind fun (suffix, after) =>
    if after.at? '>' then some (⟨"", suffix⟩, after.next) else none

/-- The tag with a handle at an exclamation mark. The handle has a word between two exclamation
marks or is a single one; a single one that nothing follows is a tag of its own. -/
def handledTag? (c : Cursor) : Option (WrittenTag × Cursor) :=
  let word := c.next.rest.takeWhile isWordChar
  let afterWord := c.next.skip word.length
  if afterWord.at? '!' then
    (uri? false afterWord.next).map fun (suffix, after) =>
      (⟨"!" ++ String.ofList word ++ "!", suffix⟩, after)
  else
    (octetsFrom false [] 0 c.next.mark c.next.rest).map fun (octets, after) =>
      if octets.isEmpty then (⟨"", some "!"⟩, after) else (⟨"!", .ofOctets octets⟩, after)

/-- The tag at an exclamation mark and the place after it. A gap ends a tag; in a flow collection a
comma does too. -/
def writtenTag? (flow : Bool) (c : Cursor) : Option (WrittenTag × Cursor) :=
  let tag := if c.next.at? '<' then verbatimTag? c.next.next else handledTag? c
  tag.bind fun (tag, after) =>
    if atGap after.rest || (flow && after.at? ',') then some (tag, after) else none

/-- A directive. -/
inductive Directive where
  | version (major minor : Nat)
  /-- The front part of tags that a handle stands for. -/
  | handle (name : String) (front : Uri)
  deriving DecidableEq

/-- The number of a version, of at most nine digits, and the place after it. -/
def versionNumber? (c : Cursor) : Option (Nat × Cursor) :=
  let digits := c.rest.takeWhile Char.isDigit
  if digits.isEmpty || 9 < digits.length then none
  else
    some (digits.foldl (fun n d => 10 * n + (d.toNat - '0'.toNat)) 0, c.skip digits.length)

/-- The two numbers of a version directive. -/
def versionDirective? (c : Cursor) : Option (Directive × Cursor) := do
  let (major, c) ← versionNumber? c
  guard (c.at? '.')
  let (minor, c) ← versionNumber? c.next
  return (.version major minor, c)

/-- The handle of a handle directive and the place after it. -/
def handleName? (c : Cursor) : Option (String × Cursor) :=
  let word := c.next.rest.takeWhile isWordChar
  let afterWord := c.next.skip word.length
  if !c.at? '!' then none
  else if afterWord.at? '!' then some ("!" ++ String.ofList word ++ "!", afterWord.next)
  else if word.isEmpty then some ("!", afterWord)
  else none

/-- The handle and the front part of a handle directive. -/
def handleDirective? (c : Cursor) : Option (Directive × Cursor) := do
  let (name, c) ← handleName? c
  guard (c.rest.head?.any isBlank)
  let (front, c) ← uri? true (c.skipWhile isBlank)
  guard (atGap c.rest)
  return (.handle name front, c)

/-- The directive after a percent sign, and the start of the next line. -/
def directive? (c : Cursor) : Option (Directive × Cursor) := do
  let name := c.rest.takeWhile isWordChar
  let afterName := c.skip name.length
  guard (atGap afterName.rest)
  let c := afterName.skipWhile isBlank
  let (directive, c) ←
    if name = "YAML".toList then versionDirective? c
    else if name = "TAG".toList then handleDirective? c
    else none
  let c ← c.nextLine?
  return (directive, c)

end Tabular.Yaml
