import Tabular.Lookup.Enumeration

/-!
# Tables of descriptors

All descriptors share a base table in the core namespace. Each descriptor has a table that hangs
off it and holds the descriptor's own properties. Older data standards pair a descriptor with a map
type, whose code values have a table that the descriptor table refers to.

## Main definitions

* `baseDescriptorTable`: the table that all descriptors share.
* `TableContext.descriptorTable`: the tables of a descriptor.
* `descriptorTables`, `mapTypeTables`: the tables of all descriptors and map types.
-/

namespace Tabular

/-- The name of the table that all descriptors share. -/
def baseDescriptorId : String :=
  "Descriptor"

/-- The table that all descriptors share. -/
def baseDescriptorTable (v : Version) (coreNamespace : String) : Table :=
  { Table.ofReason coreNamespace baseDescriptorId .descriptor with
    description := "This is the base entity for the descriptor pattern."
    includeCreateDateColumn := true
    includeLastModifiedDateAndIdColumn := true }.addColumns v
    [assignedKeyColumn baseDescriptorId,
      .ofType "Namespace" (.text 255),
      .ofType "CodeValue" (.text 50),
      .ofType "ShortDescription" (.text 75),
      (Column.ofType "Description" (.text 1024)).nullable,
      (Column.ofType "EffectiveBeginDate" .date).nullable,
      (Column.ofType "EffectiveEndDate" .date).nullable]

/-- The schema with the table that all descriptors share. -/
def storeBaseDescriptor (c : Config) (s : Schema) : BuildResult Schema :=
  match s.table? c.coreNamespace baseDescriptorId with
  | some _ => .ok s
  | none =>
    s.insert (TableSet.arranged c.targetVersion
      (baseDescriptorTable c.targetVersion c.coreNamespace))

/-- The key column of the table of a descriptor. -/
def descriptorKeyColumn (tableId : String) : Column :=
  { keyColumn tableId with
    description :=
      s!"A unique identifier used as Primary Key and Foreign Key to {baseDescriptorId}." }

/-- The tables of a descriptor, the one with its key first. -/
def TableContext.descriptorTable (ctx : TableContext) (e : Entity) : BuildResult TableSet :=
  let tableId := TableNaming.descriptorTable e.name
  let key := descriptorKeyColumn tableId
  let table : Table :=
    { Table.ofReason e.namespaceName tableId .descriptor with
      description := e.documentation
      parentEntity := some e.id
      columns := [key] }
  let baseKey : ForeignKey :=
    { ForeignKey.ofPairs tableId ctx.coreNamespace baseDescriptorId
        [⟨key.id, baseDescriptorId ++ "Id"⟩] .descriptorBase with
      withDeleteCascade := true }
  let table := table.addForeignKey baseKey
  ctx.entityTables e (Scope.root table 0 [key]) .root ((TableSet.empty e.id).push table)

/-- The schema with the tables of a descriptor. -/
def storeDescriptor (c : Config) (m : Model) (s : Schema) (e : Entity) : BuildResult Schema := do
  let set ← (c.tableContext m s).descriptorTable e
  set.storeMain c.targetVersion e.id s

/-- The schema with the tables of all descriptors. Without descriptors there is no shared table. -/
def descriptorTables (c : Config) (m : Model) (s : Schema) : BuildResult Schema :=
  match m.ofKind .descriptor with
  | [] => .ok s
  | descriptors => do
    let s ← storeBaseDescriptor c s
    descriptors.foldlM (storeDescriptor c m) s

/-- The descriptor table with a nullable column that refers to the table of its map type. -/
def withMapType (v : Version) (namespaceName mapTableId : String) (t : Table) : Table :=
  let keyId := mapTableId ++ "Id"
  let column : Column :=
    { Column.ofType keyId .integer with
      nameComponents := [.base mapTableId, .synthetic "Id"]
      isNullable := true }
  (TableSet.arranged v (t.addColumn v column)).addForeignKey
    (ForeignKey.ofPairs t.tableId namespaceName mapTableId [.same keyId] .mapType)

/-- The schema with the table of the map type of a descriptor, if it has one. -/
def storeMapType (c : Config) (m : Model) (s : Schema) (e : Entity) : BuildResult Schema :=
  match e.mapType with
  | none => .ok s
  | some id =>
    match m.entity? id with
    | none => .error (.danglingReference e.namespaceName e.name "mapTypeEnumeration")
    | some mapType => do
      let tableId := TableNaming.enumerationTable e.name
      let table := codeValueTable c.targetVersion e.namespaceName tableId .mapType
        mapType.documentation
      let set := (TableSet.empty mapType.id).push table
      let s ← set.storeMain c.targetVersion mapType.id s
      match s.entityTableKey? e.id with
      | none =>
        .error (.missingTable e.namespaceName e.name (TableNaming.descriptorTable e.name))
      | some key => return s.modify key (withMapType c.targetVersion e.namespaceName tableId)

/-- The schema with the tables of the map types of all descriptors. -/
def mapTypeTables (c : Config) (m : Model) (s : Schema) : BuildResult Schema :=
  (m.ofKind .descriptor).foldlM (storeMapType c m) s

end Tabular
