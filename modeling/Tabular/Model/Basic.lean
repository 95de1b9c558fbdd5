import Tabular.Error
import Tabular.Model.Entity

/-!
# Models

A model is a list of entities that refer to each other by position, and the namespaces they
belong to.

## Main definitions

* `Namespace`, `Model`: namespaces and models.
* `Model.addNamespace`, `Model.addEntity`: growing a model.
* `Model.entity?`, `Model.property?`: look-up by position.
* `Model.referencedEntity`, `Model.baseEntity`: following a link or failing with its owner's name.
-/

namespace Tabular

/-- A group of entities with one database schema. -/
structure Namespace where
  name : String
  isExtension : Bool
  projectExtension : String
  deriving DecidableEq

/-- A namespace that extends no other. -/
def Namespace.core (name : String) : Namespace :=
  ⟨name, false, ""⟩

/-- The database schema of a namespace. -/
def Namespace.schema (n : Namespace) : String :=
  schemaName n.name

/-- Entities that refer to each other by position, and their namespaces. -/
structure Model where
  namespaces : List Namespace
  entities : List Entity
  deriving DecidableEq

namespace Model

/-- The model without entities. -/
def empty : Model :=
  ⟨[], []⟩

/-- The namespace of the given name. -/
def namespace? (m : Model) (name : String) : Option Namespace :=
  m.namespaces.find? fun n => n.name = name

/-- The model with a namespace, which takes the place of the first one of its name. -/
def addNamespace (m : Model) (n : Namespace) : Model :=
  match m.namespaces.findIdx? fun k => k.name = n.name with
  | some i => { m with namespaces := m.namespaces.set i n }
  | none => { m with namespaces := m.namespaces ++ [n] }

/-- The model with a further entity, which receives the next position. Its namespace is added as a
core namespace if the model has none of the name. -/
def addEntity (m : Model) (e : Entity) : Model where
  namespaces :=
    if (m.namespace? e.namespaceName).isSome then m.namespaces
    else m.namespaces ++ [.core e.namespaceName]
  entities := m.entities ++ [{ e with id := m.entities.length }]

/-- The entity at a position. -/
def entity? (m : Model) (id : EntityId) : Option Entity :=
  m.entities[id]?

/-- The property at an address. -/
def property? (m : Model) (id : PropertyId) : Option Property :=
  (m.entity? id.entity).bind fun e => e.properties[id.index]?

/-- The declaration at an address. -/
def declaration? (m : Model) (id : PropertyId) : Option Declaration :=
  (m.entity? id.entity).bind fun e => (e.properties[id.index]?).map fun p => ⟨e, id.index, p⟩

/-- The entities of a kind in order. -/
def ofKind (m : Model) (kind : EntityKind) : List Entity :=
  m.entities.filter fun e => e.kind = kind

/-- The first entity of a namespace, kind and name. -/
def find? (m : Model) (namespaceName : String) (kind : EntityKind) (name : String) :
    Option Entity :=
  m.entities.find? fun e => e.kind = kind && e.namespaceName = namespaceName && e.name = name

/-- The entity a property of `owner` leads to. -/
def referencedEntity (m : Model) (owner : Entity) (p : Property) : BuildResult Entity :=
  match p.referencedEntity.bind m.entity? with
  | some e => .ok e
  | none => .error (.danglingReference owner.namespaceName owner.name p.name)

/-- The base of a subclass or extension. -/
def baseEntity (m : Model) (e : Entity) : BuildResult Entity :=
  match e.baseEntity.bind m.entity? with
  | some b => .ok b
  | none => .error (.missingBaseEntity e.namespaceName e.name)

end Model

end Tabular
