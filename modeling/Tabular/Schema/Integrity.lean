import Tabular.Schema.Basic
import Tabular.Text.Quoted

/-!
# Integrity of schemas

A schema is sound if the columns of each table have different names and every foreign key leads to
an existing table, pairs existing columns, and follows the key of the foreign table.

## Main definitions

* `Violation`: a breach of these rules.
* `Table.repeatedColumns`, `Schema.foreignKeyFault?`: the checks.
* `Schema.violations`: all breaches, repeated columns first.
-/

namespace Tabular

/-- What is wrong with a foreign key. -/
inductive ForeignKeyFault where
  | noTable
  | noLocalColumn (id : String)
  | noForeignColumn (id : String)
  /-- The foreign columns are not the key of the foreign table. -/
  | wrongOrder (actual expected : List String)
  deriving DecidableEq

/-- The wording of a fault. -/
def ForeignKeyFault.message : ForeignKeyFault → String
  | noTable => "foreign table does not exist"
  | noLocalColumn id => s!"local column '{id}' does not exist"
  | noForeignColumn id => s!"foreign column '{id}' does not exist"
  | wrongOrder actual expected =>
    "columns " ++ Text.quotedList actual ++ " do not follow the foreign primary key " ++
      Text.quotedList expected

/-- A breach of the rules for schemas. -/
inductive Violation where
  | repeatedColumn (table : Table) (columnId : String)
  | foreignKey (table : Table) (key : ForeignKey) (fault : ForeignKeyFault)
  deriving DecidableEq

/-- The wording of a breach. -/
def Violation.message : Violation → String
  | repeatedColumn t id => s!"{t.schema}.{t.tableId}: duplicate column '{id}'"
  | foreignKey t k fault =>
    s!"{t.schema}.{t.tableId}: foreign key to {k.foreignSchema}.{k.foreignTableId}: " ++
      fault.message

/-- The elements that occur earlier in the list, given the elements before it. -/
def repeatedAfter {α : Type} [DecidableEq α] (seen : List α) : List α → List α
  | [] => []
  | a :: rest =>
    if a ∈ seen then a :: repeatedAfter seen rest else repeatedAfter (a :: seen) rest

/-- The names of columns that are in the table already, each as often as it is repeated. -/
def Table.repeatedColumns (t : Table) : List String :=
  repeatedAfter [] (t.columns.map Column.id)

namespace Schema

/-- The first fault of a foreign key of a table. -/
def foreignKeyFault? (s : Schema) (t : Table) (k : ForeignKey) : Option ForeignKeyFault :=
  match s.table? k.foreignNamespace k.foreignTableId with
  | none => some .noTable
  | some foreign =>
    match k.parentColumnIds.find? fun id => (t.column? id).isNone with
    | some id => some (.noLocalColumn id)
    | none =>
      match k.foreignColumnIds.find? fun id => (foreign.column? id).isNone with
      | some id => some (.noForeignColumn id)
      | none =>
        if k.foreignColumnIds = foreign.primaryKeyIds then none
        else some (.wrongOrder k.foreignColumnIds foreign.primaryKeyIds)

/-- The repeated columns of all tables. -/
def columnViolations (s : Schema) : List Violation :=
  s.tables.flatMap fun t => t.repeatedColumns.map (.repeatedColumn t)

/-- The faulty foreign keys of all tables. -/
def foreignKeyViolations (s : Schema) : List Violation :=
  s.tables.flatMap fun t =>
    t.foreignKeys.filterMap fun k => (s.foreignKeyFault? t k).map (.foreignKey t k)

/-- All breaches of the rules, repeated columns first. -/
def violations (s : Schema) : List Violation :=
  s.columnViolations ++ s.foreignKeyViolations

/-- The wordings of all breaches. -/
def violationMessages (s : Schema) : List String :=
  s.violations.map Violation.message

end Schema

end Tabular
