/-!
# JSON values

A JSON value as its text wrote it: the members of an object keep their order and repetitions, and
a number written as an integer is kept apart from one written with a fraction, an exponent, or as
a negative zero. A string may hold an escape that stands for no character; such a value can be
passed over but not used.

## Main definitions

* `Json`: the values.
* `Json.ofOption`, `Json.strings`: values built from other data.
-/

namespace Tabular

/-- A JSON value. -/
inductive Json where
  | null
  | bool (value : Bool)
  /-- A number written as an integer. -/
  | int (value : Int)
  /-- Any other number, by its text. -/
  | decimal (text : String)
  | str (value : String)
  /-- A string with an escape that stands for no character, or an object with such a member name. -/
  | garbled
  | arr (items : List Json)
  /-- The members in the order written, repetitions included. -/
  | obj (members : List (String × Json))
  deriving Inhabited

namespace Json

/-- A natural number. -/
def nat (n : Nat) : Json :=
  .int n

/-- The value of an option, `null` for none. -/
def ofOption {α : Type} (encode : α → Json) : Option α → Json
  | some a => encode a
  | none => .null

/-- An array of encoded elements. -/
def list {α : Type} (encode : α → Json) (items : List α) : Json :=
  .arr (items.map encode)

/-- An array of texts. -/
def strings (items : List String) : Json :=
  .arr (items.map .str)

/-- The member of the given name when there is a value, and no member otherwise. -/
def member? {α : Type} (name : String) (encode : α → Json) : Option α → List (String × Json)
  | some a => [(name, encode a)]
  | none => []

end Json

end Tabular
