import Tabular.Json.Lexer

/-!
# Reading JSON texts

The tokens of a text are read from left to right with a stack of unfinished arrays and objects.

## Main definitions

* `Json.Reader.Members`: the members of an unfinished object.
* `Json.Reader.step`: one token.
* `Json.parse?`: the value of a text.
-/

namespace Tabular.Json

namespace Reader

/-- The finished members of an object, newest first. A name that stands for no text is none. -/
abbrev Members := List (Option String × Json)

/-- The object with the given members. -/
def objectOf (members : Members) : Json :=
  match members.reverse.mapM fun (name, v) => name.map fun n => (n, v) with
  | some members => .obj members
  | none => .garbled

/-- An unfinished array or object, its finished parts newest first. -/
inductive Frame where
  | array (items : List Json)
  /-- An object whose member of the given name is being read. -/
  | member (members : Members) (name : Option String)

/-- What may come next. -/
inductive Phase where
  /-- A value. -/
  | value
  /-- The first item of an array, or its end. -/
  | firstItem
  /-- The first member of an object, or its end. -/
  | firstMember
  /-- A further member of an object with the given members. -/
  | member (members : Members)
  /-- The colon after a member name. -/
  | colon (members : Members) (name : Option String)
  /-- Whatever may follow a finished value. -/
  | finished (value : Json)

/-- The unfinished arrays and objects, innermost first, and what may come next. -/
structure State where
  stack : List Frame
  phase : Phase

/-- The state after a token that starts a value. -/
def begin (stack : List Frame) : Token → Option State
  | .scalar v => some ⟨stack, .finished v⟩
  | .openArray => some ⟨stack, .firstItem⟩
  | .openObject => some ⟨stack, .firstMember⟩
  | _ => none

/-- The state after a token that follows a finished value. -/
def continue? (stack : List Frame) (v : Json) (t : Token) : Option State :=
  match stack, t with
  | .array items :: rest, .comma => some ⟨.array (v :: items) :: rest, .value⟩
  | .array items :: rest, .closeArray => some ⟨rest, .finished (.arr (v :: items).reverse)⟩
  | .member members name :: rest, .comma => some ⟨rest, .member ((name, v) :: members)⟩
  | .member members name :: rest, .closeObject =>
    some ⟨rest, .finished (objectOf ((name, v) :: members))⟩
  | _, _ => none

/-- The member name that a token writes. -/
def memberName? : Token → Option (Option String)
  | .scalar (.str name) => some (some name)
  | .scalar .garbled => some none
  | _ => none

/-- The state after one more token. -/
def step (s : State) (t : Token) : Option State :=
  match s.phase, t with
  | .value, t => begin s.stack t
  | .firstItem, .closeArray => some ⟨s.stack, .finished (.arr [])⟩
  | .firstItem, t => begin (.array [] :: s.stack) t
  | .firstMember, .closeObject => some ⟨s.stack, .finished (.obj [])⟩
  | .firstMember, t => (memberName? t).map fun name => ⟨s.stack, .colon [] name⟩
  | .member members, t => (memberName? t).map fun name => ⟨s.stack, .colon members name⟩
  | .colon members name, .colon => some ⟨.member members name :: s.stack, .value⟩
  | .colon _ _, _ => none
  | .finished v, t => continue? s.stack v t

/-- The value of a text that ends in the given state. -/
def finish : State → Option Json
  | ⟨[], .finished v⟩ => some v
  | _ => none

end Reader

/-- The value of a JSON text, none if the text is malformed. -/
def parse? (text : String) : Option Json :=
  (tokens text).bind fun ts => (ts.foldlM Reader.step ⟨[], .value⟩).bind Reader.finish

end Tabular.Json
