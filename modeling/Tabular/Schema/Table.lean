import Tabular.Schema.Column
import Tabular.Schema.ForeignKey
import Tabular.Text.Basic
import Tabular.Version

/-!
# Tables

A table under construction: columns are added one by one and merged when they have the same name,
and a finished table may have its columns sorted.

## Main definitions

* `TableReason`, `TableNameComponent`, `ReferenceSource`, `Table`: tables.
* `Table.addColumn`, `Table.addParentKeys`: adding columns.
* `Table.primaryKeys`, `Table.primaryKeyIds`: the key, in column order.
* `Table.addForeignKey`, `Table.addReferenceSource`: adding each thing once.
* `Table.sortColumns`: parent keys, other keys, other columns.
-/

namespace Tabular

/-- Why a table exists. -/
inductive TableReason where
  | main
  | subclass
  | extension
  | collection
  | common
  | commonExtension
  | descriptor
  | enumeration
  | mapType
  | schoolYear
  deriving DecidableEq

namespace TableReason

/-- A table that joins a property with several values to its owner. -/
def isJoinTable : TableReason → Bool
  | collection | common => true
  | _ => false

/-- A table that adds columns to another one. -/
def isExtensionTable : TableReason → Bool
  | extension | commonExtension => true
  | _ => false

end TableReason

/-- One part of a table name. -/
structure TableNameComponent where
  name : String
  isParentTableName : Bool
  isSynthetic : Bool
  deriving DecidableEq

namespace TableNameComponent

/-- A part of the table's own. -/
def own (name : String) : TableNameComponent :=
  ⟨name, false, false⟩

/-- A part taken over from the parent table. -/
def parent (name : String) : TableNameComponent :=
  ⟨name, true, false⟩

/-- A suffix that no property wrote. -/
def synthetic (name : String) : TableNameComponent :=
  ⟨name, false, true⟩

end TableNameComponent

/-- A reference property whose columns are in a table and whose foreign key is still to be made. -/
structure ReferenceSource where
  /-- The full names of the properties from the table to the owner of the reference. -/
  ownerPath : List String
  property : PropertyId
  referencedEntity : EntityId
  deriving DecidableEq

/-- A table. -/
structure Table where
  namespaceName : String
  tableId : String
  reason : TableReason
  description : String
  nameGroup : List TableNameComponent
  isRequiredCollectionTable : Bool
  includeCreateDateColumn : Bool
  includeLastModifiedDateAndIdColumn : Bool
  columns : List Column
  foreignKeys : List ForeignKey
  /-- The entity whose rows the table holds. -/
  parentEntity : Option EntityId
  /-- The columns taken over from the key of the parent table, in its order. -/
  parentKeyColumnIds : List String
  referenceSources : List ReferenceSource
  deriving DecidableEq

/-- The address of a table. -/
structure TableKey where
  namespaceName : String
  tableId : String
  deriving DecidableEq

/-- The columns with a further one; a column of the same name absorbs it where it stands. -/
def mergeInPlace (c : Column) : List Column → List Column
  | [] => [c]
  | d :: rest => if d.id = c.id then d.merge c :: rest else d :: mergeInPlace c rest

/-- The columns with a further one; a column of the same name absorbs it and moves to the end. -/
def mergeAtEnd (c : Column) (columns : List Column) : List Column :=
  match columns.find? fun d => d.id = c.id with
  | some d => columns.eraseP (fun d => d.id = c.id) ++ [d.merge c]
  | none => columns ++ [c]

/-- The columns with a further one, merged as the version prescribes. -/
def mergeColumn (v : Version) (columns : List Column) (c : Column) : List Column :=
  if v.mergesInPlace then mergeInPlace c columns else mergeAtEnd c columns

namespace Table

/-- A table without columns. -/
def ofReason (namespaceName tableId : String) (reason : TableReason) : Table where
  namespaceName := namespaceName
  tableId := tableId
  reason := reason
  description := ""
  nameGroup := [.own tableId]
  isRequiredCollectionTable := false
  includeCreateDateColumn := false
  includeLastModifiedDateAndIdColumn := false
  columns := []
  foreignKeys := []
  parentEntity := none
  parentKeyColumnIds := []
  referenceSources := []

/-- The database schema of a table. -/
def schema (t : Table) : String :=
  schemaName t.namespaceName

/-- The identifier of a table, derived from its schema and name. -/
def id (t : Table) : Uuid :=
  .ofName .domainNames (t.schema ++ "." ++ t.tableId)

/-- The address of a table. -/
def key (t : Table) : TableKey :=
  ⟨t.namespaceName, t.tableId⟩

/-- The column of the given name. -/
def column? (t : Table) (id : String) : Option Column :=
  t.columns.find? fun c => c.id = id

/-- The table with the first column of the given name changed. -/
def modifyColumn (t : Table) (id : String) (f : Column → Column) : Table :=
  match t.columns.findIdx? fun c => c.id = id with
  | some i => { t with columns := t.columns.modify i f }
  | none => t

/-- The table with a further column. -/
def addColumn (v : Version) (t : Table) (c : Column) : Table :=
  { t with columns := mergeColumn v t.columns c }

/-- The table with further columns. -/
def addColumns (v : Version) (t : Table) (cs : List Column) : Table :=
  cs.foldl (addColumn v) t

/-- The table with a key column of its parent. -/
def addParentKey (v : Version) (t : Table) (c : Column) : Table :=
  addColumn v
    { t with
      parentKeyColumnIds :=
        if c.id ∈ t.parentKeyColumnIds then t.parentKeyColumnIds
        else t.parentKeyColumnIds ++ [c.id] }
    c.asParentKey

/-- The table with the key columns of its parent. -/
def addParentKeys (v : Version) (t : Table) (cs : List Column) : Table :=
  cs.foldl (addParentKey v) t

/-- The key columns in column order. -/
def primaryKeys (t : Table) : List Column :=
  t.columns.filter Column.isPartOfPrimaryKey

/-- The names of the key columns in column order. -/
def primaryKeyIds (t : Table) : List String :=
  t.primaryKeys.map Column.id

/-- Whether there is a column beyond the key of the parent. -/
def hasOwnColumns (t : Table) : Bool :=
  t.columns.any fun c => c.id ∉ t.parentKeyColumnIds

/-- The table with a foreign key, unless it has one of the same identifier. -/
def addForeignKey (t : Table) (k : ForeignKey) : Table :=
  if t.foreignKeys.any fun j => j.id = k.id then t
  else { t with foreignKeys := t.foreignKeys ++ [k] }

/-- The table with a reference source, unless it has it already. -/
def addReferenceSource (t : Table) (s : ReferenceSource) : Table :=
  if s ∈ t.referenceSources then t
  else { t with referenceSources := t.referenceSources ++ [s] }

/-- Whether a column is a key column taken over from the parent. -/
def isParentKey (t : Table) (c : Column) : Bool :=
  c.isPartOfPrimaryKey && c.id ∈ t.parentKeyColumnIds

/-- Columns sorted by name, equal names in their former order. -/
def sortedById (cs : List Column) : List Column :=
  cs.mergeSort fun c d => Text.sortsBefore c.id d.id

/-- The table with its parent keys first, in the order of the parent, then the other keys and then
the other columns, both by name. -/
def sortColumns (t : Table) : Table :=
  let position (c : Column) := t.parentKeyColumnIds.idxOf c.id
  { t with
    columns :=
      (t.columns.filter t.isParentKey).mergeSort (fun c d => position c ≤ position d) ++
        sortedById (t.columns.filter fun c => c.isPartOfPrimaryKey && !t.isParentKey c) ++
        sortedById (t.columns.filter fun c => !c.isPartOfPrimaryKey) }

end Table

end Tabular
