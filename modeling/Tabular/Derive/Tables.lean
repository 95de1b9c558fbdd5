import Tabular.Derive.Scope

/-!
# Tables of entities

A property either adds columns to the table of its scope or asks for further tables: a collection
has a table of its own, keyed by its owner and its value, and a common has a table for its
properties. Choices and inline commons write their properties into the table of their owner.

The rules for commons, choices and inline commons build the tables of another entity. They take
this as an argument, `inner`; `TableContext.entityTablesWithin` ties the knot with a bound on the
number of steps.

## Main definitions

* `TableRule`: how a property gets its tables.
* `TableContext.propertyTables`: the tables of a property.
* `TableContext.entityTables`: the tables of the properties of an entity.
* `TableContext.mainTable`, `TableContext.extensionTable`: the tables of whole entities.
-/

namespace Tabular

/-- How a property gets its tables. -/
inductive TableRule where
  /-- A column, or a table for a collection of values. -/
  | scalar
  /-- The same with a foreign key to a lookup table. -/
  | lookup
  /-- Key columns of another entity, or a table for a collection of references. -/
  | reference
  /-- A table for the properties of a common. -/
  | common
  /-- Nullable columns for alternatives. -/
  | choice
  /-- Columns in the table of the owner. -/
  | inlineCommon
  deriving DecidableEq

/-- How a property of the kind gets its tables. -/
def PropertyKind.tableRule : PropertyKind → TableRule
  | scalar _ => .scalar
  | descriptor | enumeration | schoolYearEnumeration => .lookup
  | association | domainEntity => .reference
  | common => .common
  | choice => .choice
  | inlineCommon => .inlineCommon

/-- A lookup table and its key column. -/
structure LookupTarget where
  namespaceName : String
  tableId : String
  columnId : String
  deriving DecidableEq

namespace LookupTarget

/-- The lookup table of a name in a namespace. -/
def named (namespaceName tableId : String) : LookupTarget :=
  ⟨namespaceName, tableId, tableId ++ "Id"⟩

/-- The foreign key from a column to a lookup table. -/
def foreignKey (target : LookupTarget) (parentTableId columnId property : String) : ForeignKey :=
  { ForeignKey.ofPairs parentTableId target.namespaceName target.tableId
      [⟨columnId, target.columnId⟩] .lookup with
    sourceProperty := some property }

end LookupTarget

/-- Building the tables of the properties of an entity. -/
abbrev EntityBuilder :=
  Entity → Scope → Strategy → TableSet → BuildResult TableSet

namespace TableContext

/-- The lookup table of a lookup property. There is one namespace for school years, that of the
first school year enumeration. -/
def lookupTarget (ctx : TableContext) (d : Declaration) : BuildResult LookupTarget :=
  match d.property.kind with
  | .schoolYearEnumeration =>
    let ns := match (ctx.model.ofKind .schoolYearEnumeration).head? with
      | some e => e.namespaceName
      | none => ctx.coreNamespace
    .ok ⟨ns, TableNaming.schoolYearTable, TableNaming.schoolYearColumn⟩
  | .descriptor => do
    let e ← ctx.model.referencedEntity d.owner d.property
    return .named e.namespaceName (TableNaming.descriptorTable e.name)
  | _ => do
    let e ← ctx.model.referencedEntity d.owner d.property
    return .named e.namespaceName (TableNaming.enumerationTable e.name)

/-- The table of a property with several values, without columns. -/
def joinTable (scope : Scope) (s : Strategy) (p : Property) (reason : TableReason) : Table :=
  let naming := TableNaming.joinTable scope.tableId scope.nameGroup s p
  { Table.ofReason scope.namespaceName naming.tableId reason with
    nameGroup := naming.nameGroup
    description := p.documentation
    isRequiredCollectionTable := p.isRequiredCollection
    includeCreateDateColumn := true }

/-- The set with a table for a collection of values. -/
def collectionTable (ctx : TableContext) (d : Declaration) (scope : Scope) (s : Strategy)
    (lookup : Option LookupTarget) (set : TableSet) : BuildResult TableSet := do
  let p := d.property
  let join := (joinTable scope s p .collection).addParentKeys ctx.version scope.primaryKeys
  let columns ← ctx.model.columns d s.forNewTable.ignoreRoleName
  let join := match lookup, columns with
    | some target, c :: _ => join.addForeignKey (target.foreignKey join.tableId c.id p.fullName)
    | _, _ => join
  let join := join.addColumns ctx.version (columns.map Column.primaryKey)
  return (set.push join).link set.next scope.parentLink .collection

/-- The set with the column, or the table, of a scalar property. -/
def scalarTables (ctx : TableContext) (d : Declaration) (scope : Scope) (s : Strategy)
    (set : TableSet) : BuildResult TableSet :=
  if d.property.isCollection then ctx.collectionTable d scope s none set
  else do
    let columns ← ctx.model.columns d s
    return scope.addColumns ctx.version (s.leafColumns .unchanged) columns set

/-- The set with the column, or the table, of a lookup property. -/
def lookupTables (ctx : TableContext) (d : Declaration) (scope : Scope) (s : Strategy)
    (set : TableSet) : BuildResult TableSet := do
  let target ← ctx.lookupTarget d
  if d.property.isCollection then ctx.collectionTable d scope s (some target) set
  else
    match ← ctx.model.columns d s with
    | [] => return set
    | c :: rest =>
      let set := scope.addColumns ctx.version (s.leafColumns .unchanged) (c :: rest) set
      return set.modify scope.table fun t =>
        t.addForeignKey (target.foreignKey t.tableId c.id d.property.fullName)

/-- The set with a table for a collection of references. -/
def referenceCollectionTable (ctx : TableContext) (d : Declaration) (referenced : Entity)
    (scope : Scope) (s : Strategy) (set : TableSet) : BuildResult TableSet := do
  let p := d.property
  let join := (joinTable scope s p .collection).addParentKeys ctx.version scope.primaryKeys
  let keys ← ctx.model.keys referenced ((s.forNewTable.merging p).append p)
  let columns := (prefixColumns p.fullName keys).map Column.primaryKey
  let join := (join.addColumns ctx.version columns).addReferenceSource ⟨[], d.id, referenced.id⟩
  return (set.push join).link set.next scope.parentLink .collection

/-- The change of flags for the columns of a reference. -/
def referenceTransform (p : Property) (s : Strategy) : ColumnTransform :=
  if p.isPartOfIdentity && !s.suppressesKeys then .primaryKey
  else if p.isOptional then .nullable
  else .notNull

/-- The set with the columns, or the table, of a reference. -/
def referenceTables (ctx : TableContext) (d : Declaration) (scope : Scope) (s : Strategy)
    (set : TableSet) : BuildResult TableSet := do
  let p := d.property
  let referenced ← ctx.model.referencedEntity d.owner p
  if p.isCollection then ctx.referenceCollectionTable d referenced scope s set
  else if !s.buildsColumns p then return set
  else
    let columns ← ctx.model.columns d s
    let transform := s.leafColumns (referenceTransform p s)
    let set := scope.addColumns ctx.version transform columns set
    return set.modify scope.table fun t =>
      t.addReferenceSource ⟨scope.path, d.id, referenced.id⟩

/-- The set with the table of a common. The key consists of the parent's key and, unless the
common is optional, of the common's own key. -/
def commonTables (ctx : TableContext) (inner : EntityBuilder) (d : Declaration) (scope : Scope)
    (s : Strategy) (set : TableSet) : BuildResult TableSet := do
  let p := d.property
  let v := ctx.version
  let common ← ctx.model.referencedEntity d.owner p
  let join := joinTable scope s p .common
  let join := if join.description = "" then { join with description := common.documentation }
    else join
  let content := if p.isOptional then s.forNewTable.suppressKeys else s.forNewTable
  let commonKeys ← ctx.model.keys common content
  let join := if v.parentKeysFirst then join.addParentKeys v scope.primaryKeys else join
  let index := set.next
  let keys := scope.primaryKeys.map Column.asParentKey ++
    commonKeys.filter Column.isPartOfPrimaryKey
  let set ← inner common ((Scope.root join index keys).descend p.fullName) content (set.push join)
  let set := if v.parentKeysFirst then set
    else set.modify index fun t => t.addParentKeys v scope.primaryKeys
  return set.link index scope.parentLink .common

/-- A table that adds columns to a stored table, with the key of the latter. -/
def suffixedTable (ctx : TableContext) (e : Entity) (parent : Table) (reason : TableReason) :
    Table :=
  let naming := TableNaming.suffixed parent.tableId parent.nameGroup "Extension"
  let table : Table :=
    { Table.ofReason e.namespaceName naming.tableId reason with
      nameGroup := naming.nameGroup
      description := e.documentation
      includeCreateDateColumn := ctx.createDateOnExtensions }
  table.addParentKeys ctx.version parent.primaryKeys

/-- The set in which a table that adds columns hangs off the stored table, or is not kept if it
adds none. -/
def linkOrDiscard (index : Nat) (key : TableKey) (reason : ForeignKeyReason) (set : TableSet) :
    TableSet :=
  if (set.get? index).any Table.hasOwnColumns then set.link index (.stored key) reason
  else set.discard index

/-- The set with a table that adds the columns of an entity to a stored table. -/
def addedTable (ctx : TableContext) (inner : EntityBuilder) (e : Entity) (parent : Table)
    (key : TableKey) (tableReason : TableReason) (reason : ForeignKeyReason) (s : Strategy)
    (set : TableSet) : BuildResult TableSet := do
  let index := set.next
  let scope := Scope.detached index e.namespaceName parent key
  let set ← inner e scope s (set.push (ctx.suffixedTable e parent tableReason))
  return linkOrDiscard index key reason set

/-- The set with the table that the extension of a common adds to the stored table of the
common. -/
def commonExtensionTables (ctx : TableContext) (inner : EntityBuilder) (d : Declaration)
    (scope : Scope) (s : Strategy) (set : TableSet) : BuildResult TableSet := do
  let p := d.property
  let extension ← ctx.model.referencedEntity d.owner p
  let tableId := (TableNaming.joinTable scope.tableId scope.nameGroup s p).tableId
  let key : TableKey := ⟨scope.parentNamespace set, tableId⟩
  match ctx.stored.get? key with
  | none => .error (.missingTable key.namespaceName d.owner.name key.tableId)
  | some parent =>
    ctx.addedTable inner extension parent key .commonExtension .commonExtension s.forNewTable set

/-- The set with the columns of a choice, all nullable. -/
def choiceTables (ctx : TableContext) (inner : EntityBuilder) (d : Declaration) (scope : Scope)
    (s : Strategy) (set : TableSet) : BuildResult TableSet := do
  let choice ← ctx.model.referencedEntity d.owner d.property
  inner choice (scope.descend d.property.fullName) s.leafNullable set

/-- The set with the columns of an inline common, nullable if it is optional. -/
def inlineCommonTables (ctx : TableContext) (inner : EntityBuilder) (d : Declaration)
    (scope : Scope) (s : Strategy) (set : TableSet) : BuildResult TableSet := do
  let p := d.property
  let inlined ← ctx.model.referencedEntity d.owner p
  let nested := s.append p
  let nested := if p.isOptional then nested.leafNullable else nested
  inner inlined (scope.descend p.fullName) nested set

/-- The set with the columns and tables of a property, given how to build those of an entity. -/
def propertyTablesBy (ctx : TableContext) (inner : EntityBuilder) (d : Declaration)
    (scope : Scope) (s : Strategy) (set : TableSet) : BuildResult TableSet :=
  match d.property.kind.tableRule with
  | .scalar => ctx.scalarTables d scope s set
  | .lookup => ctx.lookupTables d scope s set
  | .reference => ctx.referenceTables d scope s set
  | .common =>
    if d.property.isExtensionOverride then ctx.commonExtensionTables inner d scope s set
    else ctx.commonTables inner d scope s set
  | .choice => ctx.choiceTables inner d scope s set
  | .inlineCommon => ctx.inlineCommonTables inner d scope s set

/-- The set with the columns and tables of the properties of an entity, through at most the given
number of composites. -/
def entityTablesWithin (ctx : TableContext) : Nat → EntityBuilder
  | 0, e, _, _, _ => .error (.cyclicModel e.namespaceName e.name)
  | n + 1, e, scope, s, set =>
    e.declarations.foldlM
      (fun set d => ctx.propertyTablesBy (ctx.entityTablesWithin n) d scope s set) set

/-- The set with the columns and tables of the properties of an entity. -/
def entityTables (ctx : TableContext) : EntityBuilder :=
  ctx.entityTablesWithin ctx.model.depthLimit

/-- The set with the columns and tables of a property. -/
def propertyTables (ctx : TableContext) (d : Declaration) (scope : Scope) (s : Strategy)
    (set : TableSet) : BuildResult TableSet :=
  ctx.propertyTablesBy ctx.entityTables d scope s set

/-- The main table of an entity with the key it inherits. -/
def mainTableStart (ctx : TableContext) (e : Entity) (reason : TableReason)
    (inherited : List Column) : Table :=
  let naming := TableNaming.main e.name
  let table : Table :=
    { Table.ofReason e.namespaceName naming.tableId reason with
      nameGroup := naming.nameGroup
      description := e.documentation
      parentEntity := some e.id
      includeCreateDateColumn := reason = .main
      includeLastModifiedDateAndIdColumn := reason = .main }
  table.addColumns ctx.version inherited

/-- The tables of a domain entity, association or subclass, its main table first. -/
def mainTable (ctx : TableContext) (e : Entity) (reason : TableReason) :
    BuildResult TableSet := do
  let keys ← ctx.model.keys e .root
  let inherited ← if e.kind.isSubclass then ctx.model.inheritedKeys e .root else pure []
  let table := ctx.mainTableStart e reason inherited
  ctx.entityTables e (Scope.root table 0 keys) .root ((TableSet.empty e.id).push table)

/-- The stored main table of an entity that another entity needs. -/
def storedTable (ctx : TableContext) (requester e : Entity) : BuildResult (TableKey × Table) :=
  match ctx.stored.entityTableKey? e.id with
  | some key =>
    match ctx.stored.get? key with
    | some t => .ok (key, t)
    | none => .error (.missingTable e.namespaceName requester.name e.name)
  | none => .error (.missingTable e.namespaceName requester.name e.name)

/-- The tables of an extension. The table that adds columns to the base table comes first; it is
not kept if it adds none. -/
def extensionTable (ctx : TableContext) (e : Entity) : BuildResult TableSet := do
  let base ← ctx.model.baseEntity e
  let (key, table) ← ctx.storedTable e base
  ctx.addedTable ctx.entityTables e table key .extension .extension .root (.empty e.id)

end TableContext

end Tabular
