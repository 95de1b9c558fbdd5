import Tabular.Model.Property
import Tabular.Text.LowerCase

/-!
# Entities

An entity of a model with its properties in declaration order.

## Main definitions

* `Entity`: an entity.
* `Declaration`: a property together with the entity and position where it is declared.
* `Entity.declarations`, `Entity.identityDeclarations`: the declared properties.
* `schemaName`: the database schema of a namespace.
-/

namespace Tabular

/-- The database schema of a namespace is its name in lower case. -/
def schemaName (namespaceName : String) : String :=
  Text.lower namespaceName

/-- An entity of a model. -/
structure Entity where
  /-- The position in the model. -/
  id : EntityId
  kind : EntityKind
  name : String
  /-- The name of the namespace the entity belongs to. -/
  namespaceName : String
  documentation : String
  properties : List Property
  /-- The base of a subclass or extension. -/
  baseEntity : Option EntityId
  allowPrimaryKeyUpdates : Bool
  isAbstract : Bool
  /-- The map type enumeration of a descriptor. -/
  mapType : Option EntityId
  deriving DecidableEq

/-- A property where it is declared. -/
structure Declaration where
  owner : Entity
  index : Nat
  property : Property

/-- The address of a declared property. -/
def Declaration.id (d : Declaration) : PropertyId :=
  ⟨d.owner.id, d.index⟩

namespace Entity

/-- The position of an entity outside every model. -/
def unassignedId : EntityId :=
  0xffffffffffffffff

/-- An entity without properties. -/
def ofKind (kind : EntityKind) (namespaceName name : String) : Entity where
  id := unassignedId
  kind := kind
  name := name
  namespaceName := namespaceName
  documentation := ""
  properties := []
  baseEntity := none
  allowPrimaryKeyUpdates := false
  isAbstract := false
  mapType := none

/-- The entity with a further property. -/
def withProperty (e : Entity) (p : Property) : Entity :=
  { e with properties := e.properties ++ [p] }

/-- The database schema of the entity's tables. -/
def schema (e : Entity) : String :=
  schemaName e.namespaceName

/-- The properties in declaration order. -/
def declarations (e : Entity) : List Declaration :=
  e.properties.zipIdx.map fun (p, i) => ⟨e, i, p⟩

/-- The identity properties in declaration order. -/
def identityDeclarations (e : Entity) : List Declaration :=
  e.declarations.filter fun d => d.property.isPartOfIdentity

end Entity

end Tabular
