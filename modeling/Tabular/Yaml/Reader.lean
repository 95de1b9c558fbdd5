import Tabular.Yaml.Node
import Tabular.Yaml.Token

/-!
# Reading YAML texts

The tokens of a text are read as one document. Readers take a number of steps that the number of
tokens bounds.

## Main definitions

* `Yaml.Reading`: what is left to read, and the anchors so far.
* `Yaml.node`: the node at the next token.
* `Yaml.document?`: the document of tokens.
* `Yaml.parse?`: the document of a text.
-/

namespace Tabular.Yaml

/-- What is left to read, the meaning of tag handles, and the slots of the anchors so far. -/
structure Reading where
  tokens : List Token
  handles : List (String × Uri)
  slots : List (String × Nat)

/-- A reader of a part of a document. -/
abbrev Reader := StateT Reading Option

namespace Reader

/-- The next token. -/
def peek : Reader (Option Token) := do
  return (← get).tokens.head?

/-- The next token passed. -/
def skip : Reader Unit :=
  modify fun r => { r with tokens := r.tokens.drop 1 }

/-- Whether the next token is one of the given ones. -/
def atAny (ts : List Token) : Reader Bool := do
  return (← peek).any ts.contains

/-- The given token, which has to come next, passed. -/
def expect (t : Token) : Reader Unit := do
  guard (← atAny [t])
  skip

/-- The slot of a new anchor: the number of names so far. A name that is used again takes a slot
without being counted again, so that the next new name takes the same slot. -/
def newSlot (name : String) : Reader Nat := do
  let r ← get
  let slot := r.slots.length
  set { r with slots := (name, slot) :: r.slots.filter fun (other, _) => other ≠ name }
  return slot

/-- The slot of an anchor that was read. -/
def slotOf (name : String) : Reader Nat := do
  ((← get).slots.lookup name).elim failure pure

/-- The text of a tag. Its handle must have a meaning. -/
def tagText (t : WrittenTag) : Reader Uri := do
  if t.handle = "" then return t.suffix
  else
    let front ← ((← get).handles.lookup t.handle).elim failure pure
    return front.bind fun front => t.suffix.map (front ++ ·)

/-- The anchor at the next token, if there is one. -/
def anchor? : Reader (Option String) := do
  match ← peek with
  | some (.anchor name) => skip; return some name
  | _ => return none

/-- The text of the tag at the next token, if there is one. -/
def tag? : Reader (Option Uri) := do
  match ← peek with
  | some (.tag t) => skip; return some (← tagText t)
  | _ => return none

/-- The anchor and the tag before a node, in any order. -/
def properties : Reader (Option String × Option Uri) := do
  match ← anchor? with
  | some name => return (some name, ← tag?)
  | none =>
    let tag ← tag?
    return (← if tag.isSome then anchor? else pure none, tag)

end Reader

open Reader

/-- The tokens before which a key or value of a block mapping is left out. -/
def entryEnds : List Token :=
  [.key, .value, .closeBlock]

mutual

/-- The node at the next token, in a block or in a flow collection. A list that is an entry of a
block mapping may stand at the column of its key; `compact` allows such a list. -/
def node (block compact : Bool) : Nat → Reader Yaml
  | 0 => failure
  | n + 1 => do
    match ← peek with
    | some (.alias name) =>
      skip
      return .alias (← slotOf name)
    | _ =>
      let (anchor, tag) ← properties
      match anchor with
      | some name =>
        let slot ← newSlot name
        return .anchored slot (← content block compact true tag n)
      | none => content block compact tag.isSome tag n

/-- The content of a node after its anchor and tag. Nothing may follow them. -/
def content (block compact hasProperties : Bool) (tag : Option Uri) : Nat → Reader Yaml
  | 0 => failure
  | n + 1 => do
    match block, compact, ← peek with
    | _, true, some .item => return .list (← compactItems n)
    | _, _, some (.scalar text style) =>
      skip
      return .scalar text style tag.join
    | _, _, some .openFlowList =>
      skip
      return .list (← flowItems true n)
    | _, _, some .openFlowMapping =>
      skip
      return .mapping (← flowEntries true n)
    | true, _, some .openBlockList =>
      skip
      return .list (← blockItems n)
    | true, _, some .openBlockMapping =>
      skip
      return .mapping (← blockEntries n)
    | _, _, _ => if hasProperties then return .scalar "" .plain tag.join else failure

/-- The node at the next token of a block, nothing if that token ends the part. -/
def blockPart (compact : Bool) (ends : List Token) : Nat → Reader Yaml
  | 0 => failure
  | n + 1 => do if ← atAny ends then return absent else node true compact n

/-- The node at the next token of a flow collection, nothing if that token ends the part. -/
def flowPart (ends : List Token) : Nat → Reader Yaml
  | 0 => failure
  | n + 1 => do if ← atAny ends then return absent else node false false n

/-- The items of a block list up to its end. -/
def blockItems : Nat → Reader (List Yaml)
  | 0 => failure
  | n + 1 => do
    if ← atAny [.item] then
      skip
      let item ← blockPart false [.item, .closeBlock] n
      return item :: (← blockItems n)
    else
      expect .closeBlock
      return []

/-- The items of a list at the column of its key. -/
def compactItems : Nat → Reader (List Yaml)
  | 0 => failure
  | n + 1 => do
    if ← atAny [.item] then
      skip
      let item ← blockPart false (.item :: entryEnds) n
      return item :: (← compactItems n)
    else return []

/-- The entries of a block mapping up to its end. -/
def blockEntries : Nat → Reader (List (Yaml × Yaml))
  | 0 => failure
  | n + 1 => do
    if ← atAny [.key] then
      skip
      let key ← blockPart true entryEnds n
      let value ←
        if ← atAny [.value] then
          skip
          blockPart true entryEnds n
        else pure absent
      return (key, value) :: (← blockEntries n)
    else
      expect .closeBlock
      return []

/-- The value of an entry of a flow collection, nothing if the entry ends before it. -/
def flowValue (close : Token) : Nat → Reader Yaml
  | 0 => failure
  | n + 1 => do
    if ← atAny [.value] then
      skip
      flowPart [.comma, close] n
    else return absent

/-- The items of a flow list up to its end. A comma stands before every item but the first, and may
stand before the end. A key starts a mapping of one entry; the token that stands in place of the key
is passed. -/
def flowItems (isFirst : Bool) : Nat → Reader (List Yaml)
  | 0 => failure
  | n + 1 => do
    if ← atAny [.closeFlowList] then
      skip
      return []
    if !isFirst then expect .comma
    if ← atAny [.key] then
      skip
      let key ←
        if ← atAny [.value, .comma, .closeFlowList] then
          skip
          pure absent
        else node false false n
      let value ← flowValue .closeFlowList n
      return .mapping [(key, value)] :: (← flowItems false n)
    else if ← atAny [.closeFlowList] then
      skip
      return []
    else
      let item ← node false false n
      return item :: (← flowItems false n)

/-- The entries of a flow mapping up to its end. -/
def flowEntries (isFirst : Bool) : Nat → Reader (List (Yaml × Yaml))
  | 0 => failure
  | n + 1 => do
    if ← atAny [.closeFlowMapping] then
      skip
      return []
    if !isFirst then expect .comma
    if ← atAny [.key] then
      skip
      let key ← flowPart [.value, .comma, .closeFlowMapping] n
      let value ← flowValue .closeFlowMapping n
      return (key, value) :: (← flowEntries false n)
    else if ← atAny [.closeFlowMapping] then
      skip
      return []
    else
      let key ← node false false n
      return (key, absent) :: (← flowEntries false n)

end

/-- The directives before a document. The version is given once at most and is 1.1 or 1.2, and a
handle is given one meaning at most. -/
def directives? (hasVersion : Bool) (handles : List (String × Uri)) :
    List Token → Option (List (String × Uri) × List Token)
  | .directive (.version major minor) :: rest =>
    if hasVersion || major ≠ 1 || (minor ≠ 1 && minor ≠ 2) then none
    else directives? true handles rest
  | .directive (.handle name front) :: rest =>
    if (handles.lookup name).isSome then none
    else directives? hasVersion ((name, front) :: handles) rest
  | rest => some (handles, rest)

/-- The meaning of handles that no directive changes. -/
def standardHandles : List (String × Uri) :=
  [("!", some "!"), ("!!", some "tag:yaml.org,2002:")]

/-- Whether a token may start a document without a start marker. -/
def Token.startsBare : Token → Bool
  | .directive _ | .documentStart => false
  | _ => true

/-- Whether a token cannot start the content of a document after its start marker. -/
def Token.endsContent : Token → Bool
  | .directive _ | .documentStart | .documentEnd => true
  | _ => false

/-- The content of a document, and the tokens after it. -/
def root? (isMarked : Bool) (handles : List (String × Uri)) (tokens : List Token) :
    Option (Yaml × List Token) :=
  if isMarked && (tokens.head?.all Token.endsContent) then some (absent, tokens)
  else
    ((node true false (4 * tokens.length + 4)).run ⟨tokens, handles ++ standardHandles, []⟩).map
      fun (node, r) => (node, r.tokens)

/-- The document of tokens. Only end markers may follow it. -/
def document? (tokens : List Token) : Option Yaml := do
  let (root, rest) ←
    match tokens with
    | [] => some (absent, [])
    | t :: _ =>
      if t.startsBare then root? false [] tokens
      else
        match ← directives? false [] tokens with
        | (handles, .documentStart :: rest) => root? true handles rest
        | _ => none
  if rest.all (· = .documentEnd) then return root else none

/-- The document of a text. -/
def parse? (text : String) : Option Yaml :=
  let cs := normalizeBreaks text.toList
  if cs.all isReadable then (tokens? cs).bind document? else none

end Tabular.Yaml
