import Tabular.Config
import Tabular.Derive.Tables

/-!
# Tables of enumerations and school years

An enumeration has a table of code values with a key that the database assigns. All school year
enumerations of a namespace share one table.

## Main definitions

* `Config.tableContext`: what a derivation reads in a run.
* `TableSet.storeMain`: committing the tables of an entity and registering the first of them.
* `keyColumn`, `codeValueTable`: tables of code values.
* `enumerationTables`, `schoolYearTables`: the tables of all enumerations and school years.
-/

namespace Tabular

/-- What the derivation of tables reads in a run. -/
def Config.tableContext (c : Config) (m : Model) (s : Schema) : TableContext where
  model := m
  stored := s
  version := c.targetVersion
  coreNamespace := c.coreNamespace
  createDateOnExtensions := c.createDateOnExtensions

/-- The schema with the finished tables of a set, the first of which is the main table of an
entity. -/
def TableSet.storeMain (set : TableSet) (v : Version) (entity : EntityId) (s : Schema) :
    BuildResult Schema := do
  let next ← set.store v s
  match set.keys.head? with
  | some (some key) => return next.setEntityTable entity key
  | _ => return next

/-- The key column of a lookup table, named after the table. -/
def keyColumn (tableId : String) : Column :=
  { Column.ofType (tableId ++ "Id") .integer with
    nameComponents := [.base tableId, .synthetic "Id"]
    isPartOfPrimaryKey := true }

/-- The key column of a lookup table whose values the database assigns. -/
def assignedKeyColumn (tableId : String) : Column :=
  { keyColumn tableId with isIdentityDatabaseType := true }

/-- A table of code values. -/
def codeValueTable (v : Version) (namespaceName tableId : String) (reason : TableReason)
    (description : String) : Table :=
  { Table.ofReason namespaceName tableId reason with description := description }.addColumns v
    [assignedKeyColumn tableId,
      .ofType "CodeValue" (.text 50),
      .ofType "Description" (.text 1024),
      .ofType "ShortDescription" (.text 450)]

/-- The schema with the table of an enumeration. -/
def storeEnumeration (c : Config) (s : Schema) (e : Entity) : BuildResult Schema :=
  let table := codeValueTable c.targetVersion e.namespaceName
    (TableNaming.enumerationTable e.name) .enumeration e.documentation
  ((TableSet.empty e.id).push table).storeMain c.targetVersion e.id s

/-- The schema with the tables of all enumerations. -/
def enumerationTables (c : Config) (m : Model) (s : Schema) : BuildResult Schema :=
  (m.ofKind .enumeration).foldlM (storeEnumeration c) s

/-- The table of school years of a namespace. -/
def schoolYearTable (v : Version) (e : Entity) : Table :=
  { Table.ofReason e.namespaceName TableNaming.schoolYearTable .schoolYear with
    description := e.documentation }.addColumns v
    [{ Column.ofType TableNaming.schoolYearColumn .short with
        nameComponents := [.base TableNaming.schoolYearColumn]
        isPartOfPrimaryKey := true },
      .ofType "SchoolYearDescription" (.text 50),
      .ofType "CurrentSchoolYear" .boolean]

/-- The schema with the table of a school year enumeration, which may be there already. -/
def storeSchoolYear (c : Config) (s : Schema) (e : Entity) : BuildResult Schema :=
  match s.table? e.namespaceName TableNaming.schoolYearTable with
  | some t => .ok (s.setEntityTable e.id t.key)
  | none =>
    ((TableSet.empty e.id).push (schoolYearTable c.targetVersion e)).storeMain
      c.targetVersion e.id s

/-- The schema with the tables of all school year enumerations. -/
def schoolYearTables (c : Config) (m : Model) (s : Schema) : BuildResult Schema :=
  (m.ofKind .schoolYearEnumeration).foldlM (storeSchoolYear c) s

end Tabular
