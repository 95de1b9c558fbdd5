import Tabular.Json.Extent
import Tabular.Json.Reader
import Tabular.Model.Codec

/-!
# Loading models

A model is loaded from a JSON text. Its entities receive their positions, every link has to lead
to an entity, and namespaces that only entities name are added. The text of a property kind is read
as a whole before its type is known, so that all of it is held to the limits of the format.

## Main definitions

* `LoadError`: why a text is no model.
* `Model.firstBrokenLink?`: the first link out of range.
* `Model.reindex`: a model with positions assigned and namespaces completed.
* `Model.writtenKinds`: the property kinds in the JSON form of a model.
* `Model.ofText`, `Model.ofFile`: loading.
-/

namespace Tabular

/-- Why a text is no model. -/
inductive LoadError where
  /-- The text is malformed, or some record in it is. -/
  | malformed
  /-- A link of an entity leads beyond the last entity. -/
  | brokenLink (namespaceName entity : String) (target count : Nat)
  deriving DecidableEq

/-- The wording of a cause. -/
def LoadError.message : LoadError → String
  | malformed => "Failed to parse entity environment JSON"
  | brokenLink ns entity target count =>
    s!"{ns}.{entity} links to entity #{target} but only {count} entities exist"

/-- Why a file holds no model. -/
inductive FileError where
  | unreadable (path : String)
  | invalid (path : String) (cause : LoadError)
  deriving DecidableEq

/-- The wording of a cause. -/
def FileError.message : FileError → String
  | unreadable path => s!"Failed to read environment file {path}"
  | invalid path _ => s!"Invalid environment file {path}"

/-- The links of an entity: its properties, its base, its map type. -/
def Entity.links (e : Entity) : List EntityId :=
  e.properties.filterMap Property.referencedEntity ++ e.baseEntity.toList ++ e.mapType.toList

namespace Model

/-- The first link that leads beyond the last entity, with its owner. -/
def firstBrokenLink? (m : Model) : Option (Entity × EntityId) :=
  m.entities.findSome? fun e =>
    (e.links.find? fun link => m.entities.length ≤ link).map fun link => (e, link)

/-- The namespace names that entities use and no namespace has, in the order of first use. -/
def missingNamespaces (m : Model) : List String :=
  m.entities.foldl (fun missing e =>
    if (m.namespace? e.namespaceName).isSome || missing.contains e.namespaceName then missing
    else missing ++ [e.namespaceName]) []

/-- The model with every entity at its position and all namespaces present. -/
def reindex (m : Model) : Model where
  namespaces := m.namespaces ++ m.missingNamespaces.map .core
  entities := m.entities.mapIdx fun i e => { e with id := i }

/-- The model that a JSON value writes, if its links stay inside it. -/
def ofJson (v : Json) : Except LoadError Model :=
  match decode? v with
  | none => .error .malformed
  | some m =>
    match m.firstBrokenLink? with
    | some (e, link) => .error (.brokenLink e.namespaceName e.name link m.entities.length)
    | none => .ok m.reindex

/-- The property kinds that the JSON form of a model writes. -/
def writtenKinds (v : Json) : List Json :=
  let entities := (v.valuesOf members "entities").flatMap Json.items
  let properties :=
    (entities.flatMap (Json.valuesOf Entity.members "properties")).flatMap Json.items
  properties.flatMap (Json.valuesOf Property.members "kind")

/-- How deep a property kind may be nested: the format allows 127 arrays and objects inside each
other, five of which surround a kind in the text of a model. -/
def kindDepth : Nat :=
  122

/-- The model that a JSON text writes. -/
def ofText (text : String) : Except LoadError Model :=
  match Json.parse? text with
  | none => .error .malformed
  | some v => if (writtenKinds v).all (Json.fits kindDepth) then ofJson v else .error .malformed

/-- The model in a file, given the content of the file if it could be read. -/
def ofFile (path : String) : Option String → Except FileError Model
  | none => .error (.unreadable path)
  | some content => (ofText content).mapError (.invalid path)

end Model

end Tabular
