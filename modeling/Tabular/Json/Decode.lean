import Tabular.Json.Basic
import Tabular.Record

/-!
# Strict decoding of JSON values

A decoder accepts one JSON type, apart from names of alternatives, values that may be absent, and
records. A record is written as an object, or as an array of the values of its members in order, of
which the last ones may be missing. One of several alternatives with parameters is written as a
record with a tag: a member of the object, or the first item of the array.

## Main definitions

* `Json.string?`, `Json.name?`, `Json.bool?`, `Json.natBelow?`, `Json.listOf?`, `Json.nullable?`:
  values of one type.
* `Json.fields?`: the members of a record.
* `Json.tagged?`: the tag of an alternative, and what is left for its parameters.
* `Json.items`, `Json.valuesOf`: the parts of a value, nothing for a value of another type.
* `Json.text?`, `Json.flag?`, `Json.items?`, `Json.maybe?`: members with a default.
-/

namespace Tabular.Json

/-- A text. -/
def string? : Json → Option String
  | .str s => some s
  | _ => none

/-- The name of one of several alternatives: a text, or the only member of an object, which has no
value. -/
def name? : Json → Option String
  | .str name => some name
  | .obj [(name, .null)] => some name
  | _ => none

/-- A truth value. -/
def bool? : Json → Option Bool
  | .bool b => some b
  | _ => none

/-- A natural number below a bound, written as an integer. -/
def natBelow? (bound : Nat) : Json → Option Nat
  | .int (.ofNat n) => if n < bound then some n else none
  | _ => none

/-- A natural number of at most 32 bits. -/
def nat32? : Json → Option Nat :=
  natBelow? 0x100000000

/-- A natural number of at most 64 bits. -/
def nat64? : Json → Option Nat :=
  natBelow? 0x10000000000000000

/-- An array whose items all decode. -/
def listOf? {α : Type} (decode : Json → Option α) : Json → Option (List α)
  | .arr items => items.mapM decode
  | _ => none

/-- A value or `null`. -/
def nullable? {α : Type} (decode : Json → Option α) : Json → Option (Option α)
  | .null => some none
  | v => (decode v).map some

/-- The members of a record whose members have the given names, in that order. The items of an array
are the values of the first members; there may be no more items than members. -/
def fields? (names : List String) : Json → Option (Record Json)
  | .obj members => some members
  | .arr items => if items.length ≤ names.length then some (names.zip items) else none
  | _ => none

/-- The text that tags an alternative, under the given name or in front of an array, and the record
of its parameters. -/
def tagged? (name : String) : Json → Option (String × Json)
  | .obj members => (Record.required? members name string?).map fun tag => (tag, .obj members)
  | .arr (.str tag :: items) => some (tag, .arr items)
  | _ => none

/-- The items of an array. -/
def items : Json → List Json
  | .arr items => items
  | _ => []

/-- The values that a record with members of the given names gives to the member of one name. -/
def valuesOf (names : List String) (name : String) (v : Json) : List Json :=
  ((v.fields? names).map fun r => r.all name).getD []

/-- A text that is empty by default. -/
def text? (r : Record Json) (name : String) : Option String :=
  r.optional? name "" string?

/-- A flag that is false by default. -/
def flag? (r : Record Json) (name : String) : Option Bool :=
  r.optional? name false bool?

/-- A list that is empty by default. -/
def items? {α : Type} (r : Record Json) (name : String) (decode : Json → Option α) :
    Option (List α) :=
  r.optional? name [] (listOf? decode)

/-- A value that is absent by default and may be written as `null`. -/
def maybe? {α : Type} (r : Record Json) (name : String) (decode : Json → Option α) :
    Option (Option α) :=
  r.optional? name none (nullable? decode)

end Tabular.Json
