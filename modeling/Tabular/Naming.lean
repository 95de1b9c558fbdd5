import Tabular.Schema.Table
import Tabular.Strategy

/-!
# Names of tables

The name of a table is the concatenation of its parts; the name shown to readers leaves out a part
that the next part repeats.

## Main definitions

* `TableNaming`: a name and its parts.
* `TableNaming.main`, `TableNaming.joinTable`, `TableNaming.suffixed`: the names of tables.
* `TableNaming.descriptorTable`, `TableNaming.enumerationTable`: the names of lookup tables.
* `collapseOverlap`, `displayName`: the name shown to readers.
-/

namespace Tabular

/-- The name of a table and its parts. -/
structure TableNaming where
  tableId : String
  nameGroup : List TableNameComponent
  deriving DecidableEq

/-- The parts without each non-empty part that the next part starts with. -/
def collapseOverlap : List String → String
  | [] => ""
  | [segment] => segment
  | segment :: next :: rest =>
    let shown := if segment ≠ "" && segment.toList.isPrefixOf next.toList then "" else segment
    shown ++ collapseOverlap (next :: rest)

/-- The name of a table as shown to readers. -/
def displayName (nameGroup : List TableNameComponent) : String :=
  collapseOverlap (nameGroup.map TableNameComponent.name)

namespace TableNaming

/-- The main table of an entity. -/
def main (entityName : String) : TableNaming :=
  ⟨entityName, [.own entityName]⟩

/-- The parts of a parent's name as parts of its child's name. -/
def inherited (nameGroup : List TableNameComponent) : List TableNameComponent :=
  nameGroup.map fun c => .parent c.name

/-- The table of a property with several values, named after the parent table, the properties in
between and the property. -/
def joinTable (parentId : String) (parentGroup : List TableNameComponent) (s : Strategy)
    (p : Property) : TableNaming where
  tableId := parentId ++ s.parentContext ++ p.tableName
  nameGroup :=
    inherited parentGroup ++ s.parentPrefixes.map .own ++
      (if p.contextPrefix = "" then [] else [.own p.contextPrefix]) ++ [.own p.name]

/-- The table named after its parent with a suffix. -/
def suffixed (parentId : String) (parentGroup : List TableNameComponent) (suffix : String) :
    TableNaming :=
  ⟨parentId ++ suffix, inherited parentGroup ++ [.synthetic suffix]⟩

/-- The name with a suffix, unless it ends with it. -/
def ensureSuffix (name suffix : String) : String :=
  if suffix.toList.isSuffixOf name.toList then name else name ++ suffix

/-- The table of a descriptor. -/
def descriptorTable (name : String) : String :=
  ensureSuffix name "Descriptor"

/-- The table of an enumeration. -/
def enumerationTable (name : String) : String :=
  ensureSuffix name "Type"

/-- The table of school years. -/
def schoolYearTable : String :=
  "SchoolYearType"

/-- The key column of the table of school years. -/
def schoolYearColumn : String :=
  "SchoolYear"

end TableNaming

end Tabular
