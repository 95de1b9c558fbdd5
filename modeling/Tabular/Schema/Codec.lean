import Tabular.Model.Codec
import Tabular.Schema.Basic

/-!
# The JSON form of schemas

Encoders of tables and their parts, and decoders of the parts that texts give.

## Main definitions

* `Column.decode?`, `Column.encode`: columns.
* `TableReason.ofName?`, `ForeignKeyReason.ofName?`: reasons by name.
* `ForeignKey.encode`, `Table.encode`, `Schema.encode`: tables.
-/

namespace Tabular

/-- The data type that a record tagged with its `type` writes. -/
def ScalarType.decode? (v : Json) : Option ScalarType := do
  let (name, parameters) ← v.tagged? "type"
  ScalarType.ofFields? name parameters

/-- The JSON form of a data type. A least length shows only if there is one. -/
def ScalarType.encode (t : ScalarType) : Json :=
  .obj (("type", .str t.name) ::
    match t with
    | decimal precision scale => [("precision", .nat precision), ("scale", .nat scale)]
    | string minLength maxLength =>
      Json.member? "minLength" .nat minLength ++ [("maxLength", .nat maxLength)]
    | _ => [])

namespace ColumnNameComponent

/-- The name part that a record writes. -/
def decode? (v : Json) : Option ColumnNameComponent := do
  let fields ←
    v.fields? ["name", "isParentPropertyContext", "isPropertyRoleName", "isSynthetic"]
  let name ← fields.required? "name" Json.string?
  let isParentPropertyContext ← Json.flag? fields "isParentPropertyContext"
  let isPropertyRoleName ← Json.flag? fields "isPropertyRoleName"
  let isSynthetic ← Json.flag? fields "isSynthetic"
  return { name, isParentPropertyContext, isPropertyRoleName, isSynthetic }

/-- The JSON form of a name part. -/
def encode (c : ColumnNameComponent) : Json :=
  .obj
    [("name", .str c.name), ("isParentPropertyContext", .bool c.isParentPropertyContext),
      ("isPropertyRoleName", .bool c.isPropertyRoleName), ("isSynthetic", .bool c.isSynthetic)]

end ColumnNameComponent

namespace TableNameComponent

/-- The name part that a record writes. -/
def decode? (v : Json) : Option TableNameComponent := do
  let fields ← v.fields? ["name", "isParentTableName", "isSynthetic"]
  let name ← fields.required? "name" Json.string?
  let isParentTableName ← Json.flag? fields "isParentTableName"
  let isSynthetic ← Json.flag? fields "isSynthetic"
  return { name, isParentTableName, isSynthetic }

/-- The JSON form of a name part. -/
def encode (c : TableNameComponent) : Json :=
  .obj
    [("name", .str c.name), ("isParentTableName", .bool c.isParentTableName),
      ("isSynthetic", .bool c.isSynthetic)]

end TableNameComponent

namespace Column

/-- The members of a column. -/
def members : List String :=
  ["columnId", "nameComponents", "dataType", "description", "isNullable", "isPartOfPrimaryKey",
    "isIdentityDatabaseType", "referenceContext", "mergedReferenceContexts", "propertyPath",
    "originalContextPrefix", "originalEntity", "sourceEntityProperties"]

/-- The column that a record writes. -/
def decode? (v : Json) : Option Column := do
  let fields ← v.fields? members
  let id ← fields.required? "columnId" Json.string?
  let nameComponents ← Json.items? fields "nameComponents" ColumnNameComponent.decode?
  let type ← fields.required? "dataType" ScalarType.decode?
  let description ← Json.text? fields "description"
  let isNullable ← Json.flag? fields "isNullable"
  let isPartOfPrimaryKey ← Json.flag? fields "isPartOfPrimaryKey"
  let isIdentityDatabaseType ← Json.flag? fields "isIdentityDatabaseType"
  let referenceContext ← Json.text? fields "referenceContext"
  let mergedReferenceContexts ← Json.items? fields "mergedReferenceContexts" Json.string?
  let propertyPath ← Json.text? fields "propertyPath"
  let ownPrefix ← Json.text? fields "originalContextPrefix"
  let declaringEntity ← Json.maybe? fields "originalEntity" Json.string?
  let sources ← Json.items? fields "sourceEntityProperties" PropertyId.decode?
  return { id, nameComponents, type, description, isNullable, isPartOfPrimaryKey,
           isIdentityDatabaseType, referenceContext, mergedReferenceContexts, propertyPath,
           ownPrefix, declaringEntity, sources }

/-- The JSON form of a column. -/
def encode (c : Column) : Json :=
  .obj
    ([("columnId", .str c.id),
      ("nameComponents", .list ColumnNameComponent.encode c.nameComponents),
      ("dataType", c.type.encode),
      ("description", .str c.description),
      ("isNullable", .bool c.isNullable),
      ("isPartOfPrimaryKey", .bool c.isPartOfPrimaryKey),
      ("isIdentityDatabaseType", .bool c.isIdentityDatabaseType),
      ("referenceContext", .str c.referenceContext),
      ("mergedReferenceContexts", .strings c.mergedReferenceContexts),
      ("propertyPath", .str c.propertyPath),
      ("originalContextPrefix", .str c.ownPrefix)] ++
      Json.member? "originalEntity" .str c.declaringEntity ++
      [("sourceEntityProperties", .list PropertyId.encode c.sources)])

end Column

namespace ForeignKeyReason

/-- All reasons. -/
def all : List ForeignKeyReason :=
  [reference, lookup, collection, common, commonExtension, subclass, extension, descriptorBase,
    mapType]

/-- The name of a reason. -/
def name : ForeignKeyReason → String
  | reference => "reference"
  | lookup => "lookup"
  | collection => "collection"
  | common => "common"
  | commonExtension => "commonExtension"
  | subclass => "subclass"
  | extension => "extension"
  | descriptorBase => "descriptorBase"
  | mapType => "mapType"

/-- The reason of a name. -/
def decode? (v : Json) : Option ForeignKeyReason :=
  v.name?.bind fun name => all.find? fun r => r.name = name

end ForeignKeyReason

namespace TableReason

/-- All reasons. -/
def all : List TableReason :=
  [main, subclass, extension, collection, common, commonExtension, descriptor, enumeration,
    mapType, schoolYear]

/-- The name of a reason. -/
def name : TableReason → String
  | main => "main"
  | subclass => "subclass"
  | extension => "extension"
  | collection => "collection"
  | common => "common"
  | commonExtension => "commonExtension"
  | descriptor => "descriptor"
  | enumeration => "enumeration"
  | mapType => "mapType"
  | schoolYear => "schoolYear"

/-- The reason of a name. -/
def decode? (v : Json) : Option TableReason :=
  v.name?.bind fun name => all.find? fun r => r.name = name

end TableReason

/-- The JSON form of a pair of columns. -/
def ColumnPair.encode (p : ColumnPair) : Json :=
  .obj [("parentTableColumnId", .str p.parent), ("foreignTableColumnId", .str p.foreign)]

/-- The JSON form of a foreign key. -/
def ForeignKey.encode (k : ForeignKey) : Json :=
  .obj
    ([("id", .str k.id.text),
      ("parentTableId", .str k.parentTableId),
      ("columnPairs", .list ColumnPair.encode k.pairs),
      ("foreignTableId", .str k.foreignTableId),
      ("foreignTableSchema", .str k.foreignSchema),
      ("foreignTableNamespace", .str k.foreignNamespace),
      ("withDeleteCascade", .bool k.withDeleteCascade),
      ("withUpdateCascade", .bool k.withUpdateCascade),
      ("reason", .str k.reason.name)] ++
      Json.member? "sourceProperty" .str k.sourceProperty)

namespace ReferenceSource

/-- The reference source that a record writes. -/
def decode? (v : Json) : Option ReferenceSource := do
  let fields ← v.fields? ["ownerPath", "property", "referencedEntity"]
  let ownerPath ← fields.required? "ownerPath" (Json.listOf? Json.string?)
  let property ← fields.required? "property" PropertyId.decode?
  let referencedEntity ← fields.required? "referencedEntity" Json.nat64?
  return ⟨ownerPath, property, referencedEntity⟩

/-- The JSON form of a reference source. -/
def encode (s : ReferenceSource) : Json :=
  .obj
    [("ownerPath", .strings s.ownerPath), ("property", s.property.encode),
      ("referencedEntity", .nat s.referencedEntity)]

end ReferenceSource

/-- The JSON form of a table. -/
def Table.encode (t : Table) : Json :=
  .obj
    ([("id", .str t.id.text),
      ("tableId", .str t.tableId),
      ("schema", .str t.schema),
      ("namespace", .str t.namespaceName),
      ("description", .str t.description),
      ("nameGroup", .list TableNameComponent.encode t.nameGroup),
      ("existenceReason", .str t.reason.name),
      ("isRequiredCollectionTable", .bool t.isRequiredCollectionTable),
      ("includeCreateDateColumn", .bool t.includeCreateDateColumn),
      ("includeLastModifiedDateAndIdColumn", .bool t.includeLastModifiedDateAndIdColumn),
      ("columns", .list Column.encode t.columns),
      ("foreignKeys", .list ForeignKey.encode t.foreignKeys)] ++
      Json.member? "parentEntity" .nat t.parentEntity ++
      [("parentKeyColumnIds", .strings t.parentKeyColumnIds),
        ("referenceSources", .list ReferenceSource.encode t.referenceSources)])

/-- The JSON form of a schema, namespace by namespace. -/
def Schema.encode (s : Schema) : Json :=
  .obj
    [("namespaces", .list (fun ns =>
      .obj [("namespace", .str ns), ("tables", .list Table.encode (s.tablesIn ns))])
      s.namespaces)]

end Tabular
