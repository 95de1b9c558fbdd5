import Tabular.Derive.Keys
import Tabular.Derive.TableSet

/-!
# Scopes

A scope says where the columns of a property go and where its further tables hang: the position of
a table in the set, the naming and key for tables below it, and the path of properties from that
table to the entity whose properties are being derived.

## Main definitions

* `TableContext`: what a derivation reads.
* `Scope`: a scope.
* `Scope.root`, `Scope.detached`, `Scope.descend`: scopes.
* `Scope.place`, `Scope.addColumns`: columns that enter the table of a scope.
-/

namespace Tabular

/-- What the derivation of tables reads. -/
structure TableContext where
  model : Model
  /-- The tables of earlier derivations. -/
  stored : Schema
  version : Version
  coreNamespace : String
  createDateOnExtensions : Bool

/-- Where the columns of a property go and where its further tables hang. -/
structure Scope where
  /-- The position of the table that receives columns. -/
  table : Nat
  /-- The namespace of further tables. -/
  namespaceName : String
  /-- The name that the names of further tables start with. -/
  tableId : String
  nameGroup : List TableNameComponent
  /-- The table that further tables hang off. -/
  parentLink : LinkTarget
  /-- The key that further tables take over. -/
  primaryKeys : List Column
  /-- The full names of the properties from the table to the current entity. -/
  path : List String
  deriving DecidableEq

namespace Scope

/-- The scope of a table at a position of the set. -/
def root (t : Table) (index : Nat) (primaryKeys : List Column) : Scope where
  table := index
  namespaceName := t.namespaceName
  tableId := t.tableId
  nameGroup := t.nameGroup
  parentLink := .inSet index
  primaryKeys := primaryKeys
  path := []

/-- The scope of a table that adds columns to a stored table, which further tables hang off. -/
def detached (index : Nat) (namespaceName : String) (parent : Table) (key : TableKey) :
    Scope where
  table := index
  namespaceName := namespaceName
  tableId := parent.tableId
  nameGroup := parent.nameGroup
  parentLink := .stored key
  primaryKeys := parent.primaryKeys
  path := []

/-- The scope inside a property. -/
def descend (scope : Scope) (name : String) : Scope :=
  { scope with path := scope.path ++ [name] }

/-- The column as seen from the table of the scope. -/
def place (scope : Scope) (c : Column) : Column :=
  scope.path.foldr Column.prefixedBy c

/-- The namespace of the table that further tables hang off. -/
def parentNamespace (scope : Scope) (set : TableSet) : String :=
  match scope.parentLink with
  | .stored key => key.namespaceName
  | .inSet index => (set.get? index).elim scope.namespaceName Table.namespaceName

/-- The set with columns added to the table of the scope. -/
def addColumns (scope : Scope) (v : Version) (transform : ColumnTransform)
    (columns : List Column) (set : TableSet) : TableSet :=
  set.modify scope.table fun t =>
    t.addColumns v (columns.map fun c => scope.place (transform.apply c))

end Scope

end Tabular
