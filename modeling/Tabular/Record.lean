/-!
# Records of named values

The members of a record as a text gave them. A known member may be given at most once; members
nobody asks for are ignored, however often they occur.

## Main definitions

* `Record`: named values.
* `Record.optional?`, `Record.required?`: the value of a member.
-/

namespace Tabular

/-- Named values in the order given. -/
abbrev Record (V : Type) := List (String × V)

namespace Record

variable {V α : Type}

/-- All values given to a member. -/
def all (r : Record V) (name : String) : List V :=
  (r.filter fun m => m.1 = name).map Prod.snd

/-- The value of a member with a default: it may be missing but not repeated. -/
def optional? (r : Record V) (name : String) (default : α) (decode : V → Option α) : Option α :=
  match r.all name with
  | [] => some default
  | [v] => decode v
  | _ => none

/-- The value of a member without default: it is given exactly once. -/
def required? (r : Record V) (name : String) (decode : V → Option α) : Option α :=
  match r.all name with
  | [v] => decode v
  | _ => none

end Record

end Tabular
