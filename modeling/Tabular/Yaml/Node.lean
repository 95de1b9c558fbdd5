import Tabular.Yaml.Scalar

/-!
# YAML documents

A document consists of scalars, lists and mappings. A node with an anchor occupies a slot, and an
alias stands for the node that took its slot last.

## Main definitions

* `Yaml`: documents and their parts.
* `Yaml.nodesAt`: the nodes that take a slot.
* `Yaml.resolve`: the node that a part stands for.
-/

namespace Tabular

/-- A document or a part of one. -/
inductive Yaml where
  /-- A scalar, with the way it is written and the text of its tag. -/
  | scalar (text : String) (style : Yaml.Style) (tag : Option String)
  | list (items : List Yaml)
  | mapping (entries : List (Yaml × Yaml))
  /-- A node that takes a slot. -/
  | anchored (slot : Nat) (node : Yaml)
  /-- The node of a slot. -/
  | alias (slot : Nat)
  deriving Inhabited

namespace Yaml

/-- The scalar that nothing writes. -/
def absent : Yaml :=
  .scalar "" .plain none

mutual

/-- The nodes of a document that take a slot, in the order of their starts. -/
def nodesAt (slot : Nat) : Yaml → List Yaml
  | .scalar _ _ _ | .alias _ => []
  | .list items => nodesAtItems slot items
  | .mapping entries => nodesAtEntries slot entries
  | .anchored taken node =>
    if taken = slot then node :: nodesAt slot node else nodesAt slot node

/-- The nodes of a list that take a slot. -/
def nodesAtItems (slot : Nat) : List Yaml → List Yaml
  | [] => []
  | item :: rest => nodesAt slot item ++ nodesAtItems slot rest

/-- The nodes of a mapping that take a slot. -/
def nodesAtEntries (slot : Nat) : List (Yaml × Yaml) → List Yaml
  | [] => []
  | (key, value) :: rest => nodesAt slot key ++ nodesAt slot value ++ nodesAtEntries slot rest

end

/-- The node that a part of a document stands for. -/
def resolve (document : Yaml) : Yaml → Yaml
  | .alias slot => ((document.nodesAt slot).getLast?).getD absent
  | .anchored _ node => node
  | node => node

end Yaml

end Tabular
