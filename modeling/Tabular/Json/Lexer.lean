import Tabular.Json.Basic

/-!
# Tokens of a JSON text

A JSON text is read character by character. Between tokens only blanks may stand; a quoted string
ends at its closing quote, and a bare run (a number or a literal name) ends at the first character
that cannot belong to one.

## Main definitions

* `Json.Token`: punctuation and scalar values.
* `Json.Lexer.scalarOfBare`: the grammar of numbers and literal names.
* `Json.Lexer.step`: one character.
* `Json.tokens`: the tokens of a text.
-/

namespace Tabular.Json

/-- A token: punctuation or a scalar value. -/
inductive Token where
  | openObject
  | closeObject
  | openArray
  | closeArray
  | comma
  | colon
  | scalar (value : Json)

namespace Lexer

/-- What the characters read so far leave unfinished. Characters of an unfinished token are listed
from right to left. -/
inductive Pending where
  /-- Nothing. -/
  | nothing
  /-- A number or literal name. -/
  | bare (read : List Char)
  /-- A string, with no characters once an escape in it stood for none. -/
  | text (read : Option (List Char))
  /-- An escape in a string. -/
  | escape (read : Option (List Char))
  /-- A code unit escape with the digits still missing, after a leading surrogate if one was
  read. -/
  | unit (read : Option (List Char)) (leading : Option Nat) (missing : Nat) (value : Nat)
  /-- A leading surrogate, which a second escape should follow. -/
  | surrogate (read : Option (List Char)) (leading : Nat)
  /-- A leading surrogate and a backslash. -/
  | surrogateEscape (read : Option (List Char)) (leading : Nat)

/-- The tokens completed so far, newest first, and the unfinished one. -/
structure State where
  done : List Token
  pending : Pending

/-- The blanks of the format. -/
def isBlank (c : Char) : Bool :=
  c = ' ' || c = '\t' || c = '\n' || c = '\r'

/-- The characters of numbers and literal names. -/
def isBare (c : Char) : Bool :=
  c.isAlphanum || c = '+' || c = '-' || c = '.'

/-- The value of a run of decimal digits. -/
def decimalValue (digits : List Char) : Nat :=
  digits.foldl (fun n c => 10 * n + (c.toNat - '0'.toNat)) 0

/-- Whether the characters are an optional fraction followed by an optional exponent. -/
def isFractionExponent (cs : List Char) : Bool :=
  let isExponent : List Char → Bool
    | [] => true
    | c :: rest =>
      (c = 'e' || c = 'E') &&
        match rest with
        | [] => false
        | d :: ds =>
          let digits := if d = '+' || d = '-' then ds else d :: ds
          !digits.isEmpty && digits.all Char.isDigit
  match cs with
  | '.' :: rest =>
    let digits := rest.takeWhile Char.isDigit
    !digits.isEmpty && isExponent (rest.dropWhile Char.isDigit)
  | _ => isExponent cs

/-- The number that the characters after an optional sign write. An integer part has no leading
zero, and a negative zero is not an integer. -/
def unsignedNumber (negative : Bool) (cs : List Char) : Option Json :=
  let digits := cs.takeWhile Char.isDigit
  let rest := cs.dropWhile Char.isDigit
  if digits.isEmpty || (digits.head? = some '0' && digits.length ≠ 1) then none
  else
    let n := decimalValue digits
    if rest.isEmpty && !(negative && n = 0) then
      some (.int (if negative then -(n : Int) else n))
    else if isFractionExponent rest then
      some (.decimal (String.ofList (if negative then '-' :: cs else cs)))
    else none

/-- The value of a bare run, if it is a literal name or a number. -/
def scalarOfBare (cs : List Char) : Option Json :=
  if cs = ['n', 'u', 'l', 'l'] then some .null
  else if cs = ['t', 'r', 'u', 'e'] then some (.bool true)
  else if cs = ['f', 'a', 'l', 's', 'e'] then some (.bool false)
  else match cs with
    | '-' :: rest => unsignedNumber true rest
    | _ => unsignedNumber false cs

/-- A character that stands outside every token or starts one. -/
def start (done : List Token) (c : Char) : Option State :=
  if isBlank c then some ⟨done, .nothing⟩
  else if c = '"' then some ⟨done, .text (some [])⟩
  else if isBare c then some ⟨done, .bare [c]⟩
  else if c = '\x7b' then some ⟨.openObject :: done, .nothing⟩
  else if c = '\x7d' then some ⟨.closeObject :: done, .nothing⟩
  else if c = '[' then some ⟨.openArray :: done, .nothing⟩
  else if c = ']' then some ⟨.closeArray :: done, .nothing⟩
  else if c = ',' then some ⟨.comma :: done, .nothing⟩
  else if c = ':' then some ⟨.colon :: done, .nothing⟩
  else none

/-- The character a one-letter escape stands for. -/
def escaped? (c : Char) : Option Char :=
  if c = '"' || c = '\\' || c = '/' then some c
  else if c = 'b' then some '\x08'
  else if c = 'f' then some '\x0c'
  else if c = 'n' then some '\n'
  else if c = 'r' then some '\r'
  else if c = 't' then some '\t'
  else none

/-- The value of a hexadecimal digit. -/
def hexDigit? (c : Char) : Option Nat :=
  if c.isDigit then some (c.toNat - '0'.toNat)
  else if 'a'.toNat ≤ c.toNat && c.toNat ≤ 'f'.toNat then some (c.toNat - 'a'.toNat + 10)
  else if 'A'.toNat ≤ c.toNat && c.toNat ≤ 'F'.toNat then some (c.toNat - 'A'.toNat + 10)
  else none

/-- The pending string after a complete code unit escape. A leading surrogate waits for its partner;
a surrogate without partner stands for no character. -/
def unitRead (read : Option (List Char)) (leading : Option Nat) (value : Nat) : Pending :=
  let isLeading := 0xd800 ≤ value && value ≤ 0xdbff
  let isTrailing := 0xdc00 ≤ value && value ≤ 0xdfff
  match leading with
  | some high =>
    if isTrailing then
      let point := 0x10000 + (high - 0xd800) * 0x400 + (value - 0xdc00)
      .text (read.map (Char.ofNat point :: ·))
    else .text none
  | none =>
    if isLeading then .surrogate read value
    else if isTrailing then .text none
    else .text (read.map (Char.ofNat value :: ·))

/-- The value of a finished string. -/
def scalarOfText : Option (List Char) → Json
  | some read => .str (String.ofList read.reverse)
  | none => .garbled

/-- The state after a character of a string. -/
def textStep (done : List Token) (read : Option (List Char)) (c : Char) : Option State :=
  if c = '"' then some ⟨.scalar (scalarOfText read) :: done, .nothing⟩
  else if c = '\\' then some ⟨done, .escape read⟩
  else if c.toNat < 0x20 then none
  else some ⟨done, .text (read.map (c :: ·))⟩

/-- The state after a backslash and a character. -/
def escapeStep (done : List Token) (read : Option (List Char)) (c : Char) : Option State :=
  if c = 'u' then some ⟨done, .unit read none 4 0⟩
  else (escaped? c).map fun e => ⟨done, .text (read.map (e :: ·))⟩

/-- The state after one more character, none when no text can continue so. -/
def step (s : State) (c : Char) : Option State :=
  match s.pending with
  | .nothing => start s.done c
  | .bare read =>
    if isBare c then some ⟨s.done, .bare (c :: read)⟩
    else (scalarOfBare read.reverse).bind fun v => start (.scalar v :: s.done) c
  | .text read => textStep s.done read c
  | .escape read => escapeStep s.done read c
  | .unit read leading missing value =>
    (hexDigit? c).map fun d =>
      match missing with
      | 0 | 1 => ⟨s.done, unitRead read leading (16 * value + d)⟩
      | n + 1 => ⟨s.done, .unit read leading n (16 * value + d)⟩
  | .surrogate read leading =>
    if c = '\\' then some ⟨s.done, .surrogateEscape read leading⟩ else textStep s.done none c
  | .surrogateEscape read leading =>
    if c = 'u' then some ⟨s.done, .unit read (some leading) 4 0⟩ else escapeStep s.done none c

/-- The tokens of a text that ends in the given state. -/
def finish (s : State) : Option (List Token) :=
  match s.pending with
  | .nothing => some s.done.reverse
  | .bare read => (scalarOfBare read.reverse).map fun v => (.scalar v :: s.done).reverse
  | _ => none

end Lexer

/-- The tokens of a text, none if some part of it is no token. -/
def tokens (text : String) : Option (List Token) :=
  (text.toList.foldlM Lexer.step ⟨[], .nothing⟩).bind Lexer.finish

end Tabular.Json
