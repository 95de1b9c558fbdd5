import Tabular.Model.Property

/-!
# Columns

A column of a table, with the properties it came from. When two properties produce a column of
the same name, the columns are merged into one.

## Main definitions

* `ColumnNameComponent`, `ColumnNaming`: names of columns and their parts.
* `Column`: columns.
* `Column.primaryKey`, `Column.nullable`, `Column.asParentKey`: flags.
* `Column.prefixedBy`: the column as seen from an outer property.
* `Column.merge`: one column out of two of the same name.
* `ColumnTransform`: a change of flags for columns that enter a table.
-/

namespace Tabular

/-- One part of a column name. -/
structure ColumnNameComponent where
  name : String
  isParentPropertyContext : Bool
  isPropertyRoleName : Bool
  isSynthetic : Bool
  deriving DecidableEq

namespace ColumnNameComponent

/-- The name of the property itself. -/
def base (name : String) : ColumnNameComponent :=
  ⟨name, false, false, false⟩

/-- The prefix of a property further out. -/
def parentContext (name : String) : ColumnNameComponent :=
  ⟨name, true, false, false⟩

/-- The role of the property. -/
def roleName (name : String) : ColumnNameComponent :=
  ⟨name, false, true, false⟩

/-- A suffix that no property wrote. -/
def synthetic (name : String) : ColumnNameComponent :=
  ⟨name, false, false, true⟩

end ColumnNameComponent

/-- The name of a column and its parts. -/
structure ColumnNaming where
  columnId : String
  nameComponents : List ColumnNameComponent
  deriving DecidableEq

/-- The name with a suffix; an empty suffix leaves no part. -/
def ColumnNaming.withSuffix (n : ColumnNaming) (suffix : String) : ColumnNaming :=
  if suffix = "" then n
  else ⟨n.columnId ++ suffix, n.nameComponents ++ [.synthetic suffix]⟩

/-- A column of a table. -/
structure Column where
  /-- The name, unique within a table. -/
  id : String
  nameComponents : List ColumnNameComponent
  type : ScalarType
  description : String
  isNullable : Bool
  isPartOfPrimaryKey : Bool
  /-- The database assigns the values. -/
  isIdentityDatabaseType : Bool
  /-- The full names of the properties that lead to the column, one after the other. -/
  referenceContext : String
  /-- The reference contexts of all columns merged into this one. -/
  mergedReferenceContexts : List String
  /-- The full names of the properties that lead to the column, divided by dots. -/
  propertyPath : String
  /-- The prefix of the property that produced the column. -/
  ownPrefix : String
  /-- The entity that declares this property. -/
  declaringEntity : Option String
  /-- The properties that produced the column. -/
  sources : List PropertyId
  deriving DecidableEq

/-- The items of both lists: the first list, then the items of the second that are new. -/
def unionInOrder {α : Type} [DecidableEq α] (xs ys : List α) : List α :=
  ys.foldl (fun acc y => if y ∈ acc then acc else acc ++ [y]) xs

namespace Column

/-- A column that is neither nullable nor a key. -/
def ofType (id : String) (type : ScalarType) : Column where
  id := id
  nameComponents := []
  type := type
  description := ""
  isNullable := false
  isPartOfPrimaryKey := false
  isIdentityDatabaseType := false
  referenceContext := ""
  mergedReferenceContexts := []
  propertyPath := ""
  ownPrefix := ""
  declaringEntity := none
  sources := []

/-- The column as a key column, which is never nullable. -/
def primaryKey (c : Column) : Column :=
  { c with isPartOfPrimaryKey := true, isNullable := false }

/-- The column as a nullable column, which is never a key. -/
def nullable (c : Column) : Column :=
  { c with isNullable := true, isPartOfPrimaryKey := false }

/-- The column as one that is neither nullable nor a key. -/
def notNull (c : Column) : Column :=
  { c with isNullable := false, isPartOfPrimaryKey := false }

/-- The column as produced by the given chain of properties. -/
def withReferenceContext (c : Column) (context : String) : Column :=
  { c with mergedReferenceContexts := [context], referenceContext := context }

/-- The column as seen from a property further out. -/
def prefixedBy (name : String) (c : Column) : Column :=
  { c with
    referenceContext := name ++ c.referenceContext
    mergedReferenceContexts := c.mergedReferenceContexts.map (name ++ ·)
    propertyPath := if c.propertyPath = "" then name else name ++ "." ++ c.propertyPath }

/-- Whether the column was produced by the given chain of properties, or merged with one that
was. -/
def hasReferenceContext (c : Column) (context : String) : Bool :=
  c.referenceContext = context || c.mergedReferenceContexts.contains context

/-- One column out of two. A key on either side stays a key; otherwise the result is nullable if
both sides are. Everything but the flags and the origins is the first column's. -/
def merge (c d : Column) : Column :=
  let isKey := c.isPartOfPrimaryKey || d.isPartOfPrimaryKey
  { c with
    mergedReferenceContexts := unionInOrder c.mergedReferenceContexts d.mergedReferenceContexts
    sources := unionInOrder c.sources d.sources
    isPartOfPrimaryKey := isKey
    isNullable := !isKey && c.isNullable && d.isNullable }

/-- A key column of a parent table as a key column of its child. -/
def asParentKey (c : Column) : Column :=
  { c with isPartOfPrimaryKey := true, isNullable := false, isIdentityDatabaseType := false }

end Column

/-- A change of flags for columns that enter a table. -/
inductive ColumnTransform where
  | unchanged
  /-- A key, not nullable. -/
  | primaryKey
  /-- Neither a key nor nullable. -/
  | notNull
  /-- Nullable, not a key. -/
  | nullable
  /-- Another change, then nullable and no key. -/
  | makeNull (inner : ColumnTransform)
  deriving DecidableEq

/-- The column after a change of flags. -/
def ColumnTransform.apply : ColumnTransform → Column → Column
  | unchanged, c => c
  | primaryKey, c => c.primaryKey
  | notNull, c => c.notNull
  | nullable, c => c.nullable
  | makeNull inner, c => (inner.apply c).nullable

end Tabular
