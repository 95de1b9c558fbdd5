import Tabular.Lookup.Enumeration

/-!
# Tables of entities, their subclasses and their extensions

Every domain entity and association without base has a main table, abstract ones included.

A subclass has a main table keyed like the table of its base and refers to it. Subclasses are built
in rounds: each round builds those whose base has a table. A round that can build none ends the
derivation.

An extension adds columns to a stored entity through a table of its own, and further tables for
its collections and commons.

## Main definitions

* `Model.mainEntities`, `mainTables`: the entities with a main table, and their tables.
* `TableContext.subclassTable`: the tables of a subclass.
* `subclassRounds`, `subclassTables`: the rounds, and the tables of all subclasses.
* `extensionTables`: the tables of all extensions.
-/

namespace Tabular

/-! ### Main tables -/

/-- The domain entities and associations without base. -/
def Model.mainEntities (m : Model) : List Entity :=
  m.entities.filter fun e =>
    (e.kind = .domainEntity || e.kind = .association) && e.baseEntity.isNone

/-- The schema with the tables of a domain entity or association. -/
def storeEntity (c : Config) (m : Model) (s : Schema) (e : Entity) : BuildResult Schema := do
  let set ← (c.tableContext m s).mainTable e .main
  set.storeMain c.targetVersion e.id s

/-- The schema with the tables of all domain entities and associations. -/
def mainTables (c : Config) (m : Model) (s : Schema) : BuildResult Schema :=
  m.mainEntities.foldlM (storeEntity c m) s

/-! ### Subclasses -/

/-- The column of a subclass that stands for a key column of its base, given both keys column by
column. -/
def renamedColumn (baseKeys inherited : List Column) (id : String) : String :=
  match (baseKeys.zip inherited).reverse.find? fun (b, _) => b.id = id with
  | some (_, c) => c.id
  | none => id

/-- The foreign key from the table of a subclass to the table of its base. -/
def TableContext.baseKey (ctx : TableContext) (e : Entity) (tableId : String) :
    BuildResult ForeignKey := do
  let base ← ctx.model.baseEntity e
  let (_, baseTable) ← ctx.storedTable e base
  let baseKeys ← ctx.model.keys base .root
  let inherited ← ctx.model.inheritedKeys e .root
  let pairs := baseTable.primaryKeyIds.map fun id => ⟨renamedColumn baseKeys inherited id, id⟩
  return { ForeignKey.ofPairs tableId baseTable.namespaceName baseTable.tableId pairs .subclass with
    withDeleteCascade := true }

/-- The tables of a subclass, its main table first. -/
def TableContext.subclassTable (ctx : TableContext) (e : Entity) : BuildResult TableSet := do
  let set ← ctx.mainTable e .subclass
  let key ← ctx.baseKey e e.name
  return set.modify 0 fun t => t.addForeignKey key

/-- The schema with the tables of a subclass. -/
def storeSubclass (c : Config) (m : Model) (s : Schema) (e : Entity) : BuildResult Schema := do
  let set ← (c.tableContext m s).subclassTable e
  set.storeMain c.targetVersion e.id s

/-- Whether the base of a subclass has a table. -/
def Schema.hasBaseTable (s : Schema) (e : Entity) : Bool :=
  e.baseEntity.any fun base => (s.entityTableKey? base).isSome

/-- Why the first of the subclasses whose base has no table cannot be built. -/
def missingBaseTable (m : Model) (e : Entity) : BuildError :=
  match m.baseEntity e with
  | .ok base => .missingTable base.namespaceName e.name base.name
  | .error cause => cause

/-- The schema with the tables of the pending subclasses, each built by `store` in a round in which
its base has a table. -/
def subclassRounds (m : Model) (store : Schema → Entity → BuildResult Schema)
    (pending : List Entity) (s : Schema) : BuildResult Schema :=
  match pending with
  | [] => .ok s
  | first :: rest =>
    if _h : (first :: rest).any s.hasBaseTable = true then do
      let next ← ((first :: rest).filter s.hasBaseTable).foldlM store s
      subclassRounds m store ((first :: rest).filter fun e => !s.hasBaseTable e) next
    else .error (missingBaseTable m first)
termination_by pending.length
decreasing_by
  obtain ⟨e, he, hready⟩ := List.any_eq_true.mp _h
  exact List.length_filter_lt_length_iff_exists.mpr ⟨e, he, by simp [hready]⟩

/-- The schema with the tables of all subclasses. -/
def subclassTables (c : Config) (m : Model) (s : Schema) : BuildResult Schema :=
  subclassRounds m (storeSubclass c m) (m.entities.filter fun e => e.kind.isSubclass) s

/-! ### Extensions -/

/-- The extensions of domain entities and associations. -/
def Model.extensions (m : Model) : List Entity :=
  m.entities.filter fun e =>
    e.kind = .domainEntityExtension || e.kind = .associationExtension

/-- The schema with the tables of an extension. -/
def storeExtension (c : Config) (m : Model) (s : Schema) (e : Entity) : BuildResult Schema := do
  let set ← (c.tableContext m s).extensionTable e
  set.store c.targetVersion s

/-- The schema with the tables of all extensions. -/
def extensionTables (c : Config) (m : Model) (s : Schema) : BuildResult Schema :=
  m.extensions.foldlM (storeExtension c m) s

end Tabular
