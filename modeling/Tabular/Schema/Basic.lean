import Tabular.Error
import Tabular.Schema.Table

/-!
# Schemas

A schema is a collection of tables, at most one of a name in each namespace, and the main tables
of entities. Namespaces come in the order of their first table, and the tables of a namespace in
the order of insertion.

## Main definitions

* `Schema`: a schema.
* `Schema.insert`: a further table.
* `Schema.table?`, `Schema.get?`, `Schema.find?`: look-up.
* `Schema.namespaces`, `Schema.tablesIn`, `Schema.tables`, `Schema.keys`: the contents in order.
* `Schema.setEntityTable`, `Schema.entityTable?`: main tables of entities.
-/

namespace Tabular

/-- A collection of tables. -/
structure Schema where
  /-- The tables in the order of insertion. -/
  inserted : List Table
  /-- The main tables of entities, the latest registration first. -/
  entityTables : List (EntityId × TableKey)
  deriving DecidableEq

namespace Schema

/-- The schema without tables. -/
def empty : Schema :=
  ⟨[], []⟩

/-- The table at an address. -/
def get? (s : Schema) (key : TableKey) : Option Table :=
  s.inserted.find? fun t => t.key = key

/-- The table of a namespace and name. -/
def table? (s : Schema) (namespaceName tableId : String) : Option Table :=
  s.get? ⟨namespaceName, tableId⟩

/-- The schema with a further table, whose address has to be free. -/
def insert (s : Schema) (t : Table) : BuildResult Schema :=
  match s.get? t.key with
  | some _ => .error (.duplicateTable t.namespaceName t.tableId)
  | none => .ok { s with inserted := s.inserted ++ [t] }

/-- The schema with the table at an address changed. -/
def modify (s : Schema) (key : TableKey) (f : Table → Table) : Schema :=
  match s.inserted.findIdx? fun t => t.key = key with
  | some i => { s with inserted := s.inserted.modify i f }
  | none => s

/-- The schema with every table changed. -/
def mapTables (s : Schema) (f : Table → Table) : Schema :=
  { s with inserted := s.inserted.map f }

/-- The schema in which a table is the main table of an entity. -/
def setEntityTable (s : Schema) (entity : EntityId) (key : TableKey) : Schema :=
  { s with entityTables := (entity, key) :: s.entityTables }

/-- The address of the main table of an entity. -/
def entityTableKey? (s : Schema) (entity : EntityId) : Option TableKey :=
  (s.entityTables.find? fun e => e.1 = entity).map Prod.snd

/-- The main table of an entity. -/
def entityTable? (s : Schema) (entity : EntityId) : Option Table :=
  (s.entityTableKey? entity).bind s.get?

/-- The namespaces in the order of their first table. -/
def namespaces (s : Schema) : List String :=
  (s.inserted.map Table.namespaceName).eraseDups

/-- The tables of a namespace in the order of insertion. -/
def tablesIn (s : Schema) (namespaceName : String) : List Table :=
  s.inserted.filter fun t => t.namespaceName = namespaceName

/-- All tables, namespace by namespace. -/
def tables (s : Schema) : List Table :=
  s.namespaces.flatMap s.tablesIn

/-- The addresses of all tables, namespace by namespace. -/
def keys (s : Schema) : List TableKey :=
  s.tables.map Table.key

/-- The first table of a name in any namespace. -/
def find? (s : Schema) (tableId : String) : Option Table :=
  s.tables.find? fun t => t.tableId = tableId

/-- The number of tables. -/
def tableCount (s : Schema) : Nat :=
  s.inserted.length

end Schema

end Tabular
