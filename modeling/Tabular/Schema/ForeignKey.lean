import Tabular.Digest.Uuid
import Tabular.Model.Entity

/-!
# Foreign keys

A foreign key belongs to a table and pairs columns of that table with the key columns of another.
Two keys of a table are taken for the same key if they have the same identifier, a digest of the
names of both tables and the column pairs.

## Main definitions

* `ColumnPair`, `ForeignKeyReason`, `ForeignKey`: foreign keys.
* `ForeignKey.designation`, `ForeignKey.id`: what identifies a key.
-/

namespace Tabular

/-- A column and the column of the other table that it refers to. -/
structure ColumnPair where
  parent : String
  foreign : String
  deriving DecidableEq

/-- Columns of the same name. -/
def ColumnPair.same (id : String) : ColumnPair :=
  ⟨id, id⟩

/-- Why a foreign key exists. -/
inductive ForeignKeyReason where
  /-- A property refers to an association or domain entity. -/
  | reference
  /-- A property takes its values from a lookup table. -/
  | lookup
  /-- A collection table belongs to the table of its owner. -/
  | collection
  /-- The table of a common belongs to the table of its owner. -/
  | common
  /-- The extension of a common belongs to the table of the common. -/
  | commonExtension
  /-- A subclass table belongs to its base table. -/
  | subclass
  /-- An extension table belongs to its base table. -/
  | extension
  /-- A descriptor table belongs to the table of all descriptors. -/
  | descriptorBase
  /-- A descriptor table refers to its map type table. -/
  | mapType
  deriving DecidableEq

/-- A foreign key of the table `parentTableId`. The pairs follow the key of the foreign table. -/
structure ForeignKey where
  parentTableId : String
  foreignNamespace : String
  foreignTableId : String
  pairs : List ColumnPair
  reason : ForeignKeyReason
  withDeleteCascade : Bool
  withUpdateCascade : Bool
  /-- The full name of the property that the key comes from. -/
  sourceProperty : Option String
  deriving DecidableEq

namespace ForeignKey

/-- A foreign key without cascades. -/
def ofPairs (parentTableId foreignNamespace foreignTableId : String) (pairs : List ColumnPair)
    (reason : ForeignKeyReason) : ForeignKey where
  parentTableId := parentTableId
  foreignNamespace := foreignNamespace
  foreignTableId := foreignTableId
  pairs := pairs
  reason := reason
  withDeleteCascade := false
  withUpdateCascade := false
  sourceProperty := none

/-- The database schema of the foreign table. -/
def foreignSchema (k : ForeignKey) : String :=
  schemaName k.foreignNamespace

/-- The columns of the owning table. -/
def parentColumnIds (k : ForeignKey) : List String :=
  k.pairs.map ColumnPair.parent

/-- The columns of the foreign table. -/
def foreignColumnIds (k : ForeignKey) : List String :=
  k.pairs.map ColumnPair.foreign

/-- The pairs as a text. -/
def pairsText (k : ForeignKey) : String :=
  String.intercalate "," (k.pairs.map fun p => p.parent ++ "=" ++ p.foreign)

/-- What the identifier of a key is derived from: the names of both tables and the pairs. Namespace,
reason and cascades do not count. -/
def designation (k : ForeignKey) : String :=
  s!"fk:{k.parentTableId}:{k.foreignTableId}:{k.pairsText}"

/-- The identifier of a key, derived from its designation. -/
@[irreducible] def id (k : ForeignKey) : Uuid :=
  .ofName .objectIdentifiers k.designation

end ForeignKey

end Tabular
