import Tabular.Schema.Basic

/-!
# Sets of tables under construction

The tables derived from one entity are collected before any of them becomes part of the schema.
Each table may hang off another table, of the set or of the schema; when the set is committed, its
tables are finished in order, take over the key order of their parents, and are inserted.

## Main definitions

* `LinkTarget`, `ParentLink`, `TableSet`: table sets.
* `TableSet.push`, `TableSet.link`, `TableSet.discard`, `TableSet.modify`: growing a set.
* `TableSet.finishAt`, `TableSet.finish`: the finished tables.
* `TableSet.commit`, `TableSet.store`: insertion into a schema.
-/

namespace Tabular

/-- The table that another one hangs off. -/
inductive LinkTarget where
  /-- A table of the same set, by position. -/
  | inSet (index : Nat)
  /-- A table of the schema. -/
  | stored (key : TableKey)
  deriving DecidableEq

/-- A table of a set and the table it hangs off. -/
structure ParentLink where
  child : Nat
  target : LinkTarget
  reason : ForeignKeyReason
  deriving DecidableEq

/-- Tables derived from one entity. -/
structure TableSet where
  /-- The entity that tables belong to unless they name another one. -/
  rootEntity : EntityId
  tables : List Table
  links : List ParentLink
  /-- The positions of tables that are not kept. -/
  discarded : List Nat
  deriving DecidableEq

namespace TableSet

/-- The empty set. -/
def empty (rootEntity : EntityId) : TableSet :=
  ⟨rootEntity, [], [], []⟩

/-- The position of the next table. -/
def next (set : TableSet) : Nat :=
  set.tables.length

/-- The set with a further table. -/
def push (set : TableSet) (t : Table) : TableSet :=
  { set with
    tables :=
      set.tables ++ [{ t with parentEntity := some (t.parentEntity.getD set.rootEntity) }] }

/-- The table at a position. -/
def get? (set : TableSet) (index : Nat) : Option Table :=
  set.tables[index]?

/-- The set with the table at a position changed. -/
def modify (set : TableSet) (index : Nat) (f : Table → Table) : TableSet :=
  { set with tables := set.tables.modify index f }

/-- The set in which a table hangs off another one. -/
def link (set : TableSet) (child : Nat) (target : LinkTarget) (reason : ForeignKeyReason) :
    TableSet :=
  { set with links := set.links ++ [⟨child, target, reason⟩] }

/-- The set in which a table is not kept. -/
def discard (set : TableSet) (index : Nat) : TableSet :=
  { set with
    discarded := if index ∈ set.discarded then set.discarded else index :: set.discarded
    links := set.links.filter fun l => l.child ≠ index }

/-- Whether a table is not kept. -/
def isDiscarded (set : TableSet) (index : Nat) : Bool :=
  index ∈ set.discarded

/-- The number of tables kept. -/
def size (set : TableSet) : Nat :=
  set.tables.length - set.discarded.length

/-- The table a link leads to, as it is at the moment. -/
def parentOf (tables : List Table) (s : Schema) (child : Table) (target : LinkTarget) :
    BuildResult Table :=
  match target with
  | .inSet index => .ok (tables[index]?.getD child)
  | .stored key =>
    match s.get? key with
    | some t => .ok t
    | none => .error (.missingTable key.namespaceName child.tableId key.tableId)

/-- The foreign key from a table to the one it hangs off, over the whole key of the latter. -/
def parentKey (child parent : Table) (reason : ForeignKeyReason) : ForeignKey :=
  { ForeignKey.ofPairs child.tableId parent.namespaceName parent.tableId
      (parent.primaryKeyIds.map ColumnPair.same) reason with
    withDeleteCascade := true }

/-- The table with its columns sorted, if the version asks for it. -/
def arranged (v : Version) (t : Table) : Table :=
  if v.sortsColumns then t.sortColumns else t

/-- A finished table: it knows the key order of the table it hangs off and refers to it. -/
def finishTable (v : Version) (s : Schema) (links : List ParentLink) (tables : List Table)
    (index : Nat) (t : Table) : BuildResult Table :=
  match links.find? fun l => l.child = index with
  | none => .ok (arranged v t)
  | some l => do
    let parent ← parentOf tables s t l.target
    let arrangedTable := arranged v { t with parentKeyColumnIds := parent.primaryKeyIds }
    return arrangedTable.addForeignKey (parentKey arrangedTable parent l.reason)

/-- The tables after the one at a position has been finished. -/
def finishAt (set : TableSet) (v : Version) (s : Schema) (tables : List Table) (index : Nat) :
    BuildResult (List Table) :=
  if set.isDiscarded index then .ok tables
  else match tables[index]? with
    | none => .ok tables
    | some t => do
      let finished ← finishTable v s set.links tables index t
      return tables.set index finished

/-- The tables after all have been finished, in order. -/
def finish (set : TableSet) (v : Version) (s : Schema) : BuildResult (List Table) :=
  (List.range set.tables.length).foldlM (set.finishAt v s) set.tables

/-- The tables to keep. -/
def kept (set : TableSet) (tables : List Table) : List Table :=
  (tables.zipIdx.filter fun (_, i) => !set.isDiscarded i).map Prod.fst

/-- The addresses of the tables, none for those not kept. -/
def keys (set : TableSet) : List (Option TableKey) :=
  set.tables.zipIdx.map fun (t, i) => if set.isDiscarded i then none else some t.key

end TableSet

/-- The schema with further tables up to the first whose address is taken, and the failure there. -/
def Schema.insertAll (s : Schema) : List Table → Schema × Option BuildError
  | [] => (s, none)
  | t :: rest =>
    match s.insert t with
    | .ok next => next.insertAll rest
    | .error e => (s, some e)

namespace TableSet

/-- The schema with the finished tables of a set. After a failure the tables before the failing
one remain. -/
def commit (set : TableSet) (v : Version) (s : Schema) : Schema × Option BuildError :=
  match set.finish v s with
  | .ok tables => s.insertAll (set.kept tables)
  | .error e => (s, some e)

/-- The schema with the finished tables of a set. -/
def store (set : TableSet) (v : Version) (s : Schema) : BuildResult Schema :=
  match set.commit v s with
  | (next, none) => .ok next
  | (_, some e) => .error e

end TableSet

end Tabular
