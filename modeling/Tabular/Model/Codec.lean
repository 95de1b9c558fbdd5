import Tabular.Json.Decode
import Tabular.Model.Basic

/-!
# The JSON form of models

Encoders and decoders of the model's records. A decoder accepts what its encoder writes, texts that
leave out members with a default, and arrays of the values of the members.

## Main definitions

* `Property.members`, `Entity.members`, `Model.members` and so on: the members of a record in the
  order of an array.
* `ScalarType.ofFields?`, `PropertyKind.decode?`, `Property.decode?`, `Entity.decode?`,
  `Namespace.decode?`, `Model.decode?`: reading.
* `PropertyKind.encode`, `Property.encode`, `Entity.encode`, `Namespace.encode`, `Model.encode`:
  writing.
-/

namespace Tabular

/-- The scalar types without parameters. -/
def ScalarType.plain : List ScalarType :=
  [.boolean, .currency, .date, .datetime, .duration, .integer, .bigInteger, .percent, .short,
    .time, .year]

/-- The scalar type of a name, with its parameters in the given record. -/
def ScalarType.ofFields? (name : String) (parameters : Json) : Option ScalarType :=
  if name = "decimal" then do
    let fields ← parameters.fields? ["precision", "scale"]
    let precision ← fields.required? "precision" Json.nat32?
    let scale ← fields.required? "scale" Json.nat32?
    return .decimal precision scale
  else if name = "string" then do
    let fields ← parameters.fields? ["minLength", "maxLength"]
    let minLength ← Json.maybe? fields "minLength" Json.nat32?
    let maxLength ← fields.required? "maxLength" Json.nat32?
    return .string minLength maxLength
  else do
    let _ ← parameters.fields? []
    ScalarType.plain.find? fun t => t.name = name

namespace PropertyKind

/-- The kinds that are no scalars. -/
def links : List PropertyKind :=
  [descriptor, enumeration, schoolYearEnumeration, association, domainEntity, common, choice,
    inlineCommon]

/-- The kind that a record tagged with its `type` writes. -/
def decode? (v : Json) : Option PropertyKind := do
  let (name, parameters) ← v.tagged? "type"
  match links.find? fun k => k.name = name with
  | some k => (parameters.fields? []).map fun _ => k
  | none => (ScalarType.ofFields? name parameters).map .scalar

/-- The JSON form of a kind. A text kind always shows its least length. -/
def encode (k : PropertyKind) : Json :=
  .obj (("type", .str k.name) ::
    match k with
    | scalar (.decimal precision scale) =>
      [("precision", .nat precision), ("scale", .nat scale)]
    | scalar (.string minLength maxLength) =>
      [("minLength", .ofOption .nat minLength), ("maxLength", .nat maxLength)]
    | _ => [])

end PropertyKind

namespace MergeDirective

/-- The members of a directive. -/
def members : List String :=
  ["sourcePropertyPath", "targetPropertyPath"]

/-- The directive that a record writes. -/
def decode? (v : Json) : Option MergeDirective := do
  let fields ← v.fields? members
  let source ← fields.required? "sourcePropertyPath" (Json.listOf? Json.string?)
  let target ← fields.required? "targetPropertyPath" (Json.listOf? Json.string?)
  return ⟨source, target⟩

/-- The JSON form of a directive. -/
def encode (d : MergeDirective) : Json :=
  .obj [("sourcePropertyPath", .strings d.source), ("targetPropertyPath", .strings d.target)]

end MergeDirective

namespace PropertyId

/-- The members of an address. -/
def members : List String :=
  ["entity", "index"]

/-- The address that a record writes. -/
def decode? (v : Json) : Option PropertyId := do
  let fields ← v.fields? members
  let entity ← fields.required? "entity" Json.nat64?
  let index ← fields.required? "index" Json.nat64?
  return ⟨entity, index⟩

/-- The JSON form of an address. -/
def encode (id : PropertyId) : Json :=
  .obj [("entity", .nat id.entity), ("index", .nat id.index)]

end PropertyId

namespace Property

/-- The members of a property. -/
def members : List String :=
  ["metaEdName", "kind", "roleName", "shortenTo", "documentation", "isPartOfIdentity", "isRequired",
    "isOptional", "isRequiredCollection", "isOptionalCollection", "isIdentityRename", "baseKeyName",
    "isWeak", "deleteCascade", "isExtensionOverride", "mergeDirectives", "referencedEntity"]

/-- The property that a record writes. -/
def decode? (v : Json) : Option Property := do
  let fields ← v.fields? members
  let name ← fields.required? "metaEdName" Json.string?
  let kind ← fields.required? "kind" PropertyKind.decode?
  let roleName ← Json.text? fields "roleName"
  let shortenTo ← Json.text? fields "shortenTo"
  let documentation ← Json.text? fields "documentation"
  let isPartOfIdentity ← Json.flag? fields "isPartOfIdentity"
  let isRequired ← Json.flag? fields "isRequired"
  let isOptional ← Json.flag? fields "isOptional"
  let isRequiredCollection ← Json.flag? fields "isRequiredCollection"
  let isOptionalCollection ← Json.flag? fields "isOptionalCollection"
  let isIdentityRename ← Json.flag? fields "isIdentityRename"
  let baseKeyName ← Json.text? fields "baseKeyName"
  let isWeak ← Json.flag? fields "isWeak"
  let deleteCascade ← Json.flag? fields "deleteCascade"
  let isExtensionOverride ← Json.flag? fields "isExtensionOverride"
  let mergeDirectives ← Json.items? fields "mergeDirectives" MergeDirective.decode?
  let referencedEntity ← Json.maybe? fields "referencedEntity" Json.nat64?
  return { name, kind, roleName, shortenTo, documentation, isPartOfIdentity, isRequired,
           isOptional, isRequiredCollection, isOptionalCollection, isIdentityRename,
           baseKeyName, isWeak, deleteCascade, isExtensionOverride, mergeDirectives,
           referencedEntity }

/-- The JSON form of a property, with every member. -/
def encode (p : Property) : Json :=
  .obj
    [("metaEdName", .str p.name),
      ("kind", p.kind.encode),
      ("roleName", .str p.roleName),
      ("shortenTo", .str p.shortenTo),
      ("documentation", .str p.documentation),
      ("isPartOfIdentity", .bool p.isPartOfIdentity),
      ("isRequired", .bool p.isRequired),
      ("isOptional", .bool p.isOptional),
      ("isRequiredCollection", .bool p.isRequiredCollection),
      ("isOptionalCollection", .bool p.isOptionalCollection),
      ("isIdentityRename", .bool p.isIdentityRename),
      ("baseKeyName", .str p.baseKeyName),
      ("isWeak", .bool p.isWeak),
      ("deleteCascade", .bool p.deleteCascade),
      ("isExtensionOverride", .bool p.isExtensionOverride),
      ("mergeDirectives", .list MergeDirective.encode p.mergeDirectives),
      ("referencedEntity", .ofOption .nat p.referencedEntity)]

end Property

/-- The entity kind of a name. -/
def EntityKind.decode? (v : Json) : Option EntityKind :=
  v.name?.bind fun name => EntityKind.all.find? fun k => k.name = name

/-- The JSON form of an entity kind. -/
def EntityKind.encode (k : EntityKind) : Json :=
  .str k.name

namespace Entity

/-- The members of an entity. -/
def members : List String :=
  ["id", "kind", "metaEdName", "namespace", "documentation", "properties", "baseEntity",
    "allowPrimaryKeyUpdates", "isAbstract", "mapType"]

/-- The entity that a record writes. -/
def decode? (v : Json) : Option Entity := do
  let fields ← v.fields? members
  let id ← fields.optional? "id" unassignedId Json.nat64?
  let kind ← fields.required? "kind" EntityKind.decode?
  let name ← fields.required? "metaEdName" Json.string?
  let namespaceName ← fields.required? "namespace" Json.string?
  let documentation ← Json.text? fields "documentation"
  let properties ← Json.items? fields "properties" Property.decode?
  let baseEntity ← Json.maybe? fields "baseEntity" Json.nat64?
  let allowPrimaryKeyUpdates ← Json.flag? fields "allowPrimaryKeyUpdates"
  let isAbstract ← Json.flag? fields "isAbstract"
  let mapType ← Json.maybe? fields "mapType" Json.nat64?
  return { id, kind, name, namespaceName, documentation, properties, baseEntity,
           allowPrimaryKeyUpdates, isAbstract, mapType }

/-- The JSON form of an entity, with every member. -/
def encode (e : Entity) : Json :=
  .obj
    [("id", .nat e.id),
      ("kind", e.kind.encode),
      ("metaEdName", .str e.name),
      ("namespace", .str e.namespaceName),
      ("documentation", .str e.documentation),
      ("properties", .list Property.encode e.properties),
      ("baseEntity", .ofOption .nat e.baseEntity),
      ("allowPrimaryKeyUpdates", .bool e.allowPrimaryKeyUpdates),
      ("isAbstract", .bool e.isAbstract),
      ("mapType", .ofOption .nat e.mapType)]

end Entity

namespace Namespace

/-- The members of a namespace. -/
def members : List String :=
  ["name", "isExtension", "projectExtension"]

/-- The namespace that a record writes. -/
def decode? (v : Json) : Option Namespace := do
  let fields ← v.fields? members
  let name ← fields.required? "name" Json.string?
  let isExtension ← Json.flag? fields "isExtension"
  let projectExtension ← Json.text? fields "projectExtension"
  return ⟨name, isExtension, projectExtension⟩

/-- The JSON form of a namespace. -/
def encode (n : Namespace) : Json :=
  .obj
    [("name", .str n.name), ("isExtension", .bool n.isExtension),
      ("projectExtension", .str n.projectExtension)]

end Namespace

namespace Model

/-- The members of a model. -/
def members : List String :=
  ["namespaces", "entities"]

/-- The model that a record writes. -/
def decode? (v : Json) : Option Model := do
  let fields ← v.fields? members
  let namespaces ← Json.items? fields "namespaces" Namespace.decode?
  let entities ← Json.items? fields "entities" Entity.decode?
  return ⟨namespaces, entities⟩

/-- The JSON form of a model. -/
def encode (m : Model) : Json :=
  .obj
    [("namespaces", .list Namespace.encode m.namespaces),
      ("entities", .list Entity.encode m.entities)]

end Model

end Tabular
