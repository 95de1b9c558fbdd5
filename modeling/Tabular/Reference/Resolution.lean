import Tabular.Cascade.Identity
import Tabular.Schema.Basic

/-!
# Foreign keys of references

Each reference whose columns are in a table becomes a foreign key to the main table of the entity
it leads to. For every key column of that table a local column is sought: one that the same chain
of properties produced, one that a merge directive put in its place, or one of the expected name.

## Main definitions

* `CascadeInfo`: what is known about key updates.
* `mergedContext?`, `Table.matchingColumn?`: the local column of a foreign key column.
* `referenceKey`: the foreign key of a reference.
* `referenceKeys`: the foreign keys of all references.
-/

namespace Tabular

/-- What is known about key updates: the entities whose updates cascade, and the graph of identity
dependencies if it has been computed. -/
structure CascadeInfo where
  cascading : List EntityId
  graph : Option (Graph EntityId)

/-- Nothing is known about key updates. -/
def CascadeInfo.none : CascadeInfo :=
  ⟨[], Option.none⟩

/-- The chain of properties that a merge directive puts in place of the one to a key column of the
referenced table. The first directive whose source the chain starts with decides. -/
def mergedContext? (p : Property) (foreign : Column) : Option String :=
  let chain := p.fullName :: Text.segments foreign.propertyPath
  p.mergeDirectives.findSome? fun d =>
    if d.source.isEmpty || !d.source.isPrefixOf chain then Option.none
    else some (Text.concat (d.target ++ chain.drop d.source.length))

/-- The column that the given chain of properties produced. -/
def Table.columnOfContext? (t : Table) (context : String) : Option Column :=
  t.columns.find? fun c => c.hasReferenceContext context

/-- The local column for a key column of the table that a reference leads to. -/
def Table.matchingColumn? (t : Table) (p : Property) (ownerContext : String)
    (foreign : Column) : Option Column :=
  (t.columnOfContext? (ownerContext ++ p.fullName ++ foreign.referenceContext)).or <|
    ((mergedContext? p foreign).bind fun c => t.columnOfContext? (ownerContext ++ c)).or <|
      t.column? (p.contextPrefix ++ foreign.id)

/-- The entity whose rows a table holds; an extension holds rows of its base. -/
def referencingEntity (m : Model) (t : Table) (source : ReferenceSource) : EntityId :=
  let owner := t.parentEntity.getD source.property.entity
  match m.entity? owner with
  | some e => if e.kind.isExtension then e.baseEntity.getD owner else owner
  | Option.none => owner

/-- Whether key updates cascade along a reference. They do not if they would come back to the
referencing entity. -/
def CascadeInfo.cascades (info : CascadeInfo) (referenced referencing : EntityId) : Bool :=
  referenced ∈ info.cascading && !info.graph.any fun g => g.canReach referenced referencing

/-- The pairs of a foreign key, in the order of the key of the foreign table. -/
def referencePairs (t : Table) (p : Property) (ownerContext : String) :
    List Column → BuildResult (List ColumnPair)
  | [] => .ok []
  | foreign :: rest =>
    match t.matchingColumn? p ownerContext foreign with
    | some c => do
      let pairs ← referencePairs t p ownerContext rest
      return ⟨c.id, foreign.id⟩ :: pairs
    | Option.none =>
      .error (.unmatchedForeignKeyColumns t.namespaceName t.tableId p.fullName foreign.id)

/-- The text of an address in messages. -/
def PropertyId.text (id : PropertyId) : String :=
  s!"PropertyId \x7b entity: EntityId({id.entity}), index: {id.index} \x7d"

/-- The foreign key of a reference, none if the reference is weak. -/
def referenceKey (m : Model) (info : CascadeInfo) (s : Schema) (t : Table)
    (source : ReferenceSource) : BuildResult (Option ForeignKey) :=
  match m.property? source.property with
  | Option.none =>
    .error (.invalidInput t.namespaceName t.tableId
      ("reference source names unknown property " ++ source.property.text))
  | some p =>
    if p.isWeak then .ok Option.none
    else match m.entity? source.referencedEntity with
      | Option.none => .error (.danglingReference t.namespaceName t.tableId p.name)
      | some referenced =>
        match s.entityTable? referenced.id with
        | Option.none =>
          .error (.missingReferencedTable t.namespaceName t.tableId p.fullName referenced.name)
        | some foreign => do
          let pairs ← referencePairs t p (Text.concat source.ownerPath) foreign.primaryKeys
          return some
            { ForeignKey.ofPairs t.tableId foreign.namespaceName foreign.tableId pairs
                .reference with
              withDeleteCascade := p.deleteCascade
              withUpdateCascade :=
                info.cascades referenced.id (referencingEntity m t source)
              sourceProperty := some p.fullName }

/-- The foreign keys of the references of a table, each with the address of the table. -/
def Table.referenceKeys (m : Model) (info : CascadeInfo) (s : Schema) (t : Table) :
    BuildResult (List (TableKey × ForeignKey)) :=
  t.referenceSources |> collect fun source => do
    let key ← referenceKey m info s t source
    return key.toList.map fun k => (t.key, k)

/-- The schema with the foreign keys of all references. -/
def referenceKeys (m : Model) (info : CascadeInfo) (s : Schema) : BuildResult Schema := do
  let planned ← collect (Table.referenceKeys m info s) s.tables
  return planned.foldl (fun s (key, k) => s.modify key fun t => t.addForeignKey k) s

end Tabular
