import Tabular.Cascade.Graph
import Tabular.Derive.Keys

/-!
# Identity dependencies and key updates

The key of an entity depends on the keys of its base, if it is a subclass, and of the entities that
its identity properties reference, inline commons looked through. An update of a key cascades from
the entities that allow it to all entities whose keys depend on theirs.

## Main definitions

* `Model.identityReferences`: the entities that the identity of an entity references.
* `Model.identityGraph`: the graph of identity dependencies.
* `Model.updatable`, `Model.cascadingEntities`: the entities that allow key updates, and those whose
  key updates cascade.
-/

namespace Tabular

namespace Model

/-- The entities that the identity of an entity references, through at most the given number of
inline commons. -/
def identityReferencesWithin (m : Model) : Nat → Entity → BuildResult (List EntityId)
  | 0, e => .error (.cyclicModel e.namespaceName e.name)
  | n + 1, e =>
    e.identityDeclarations |> collect fun d =>
      match d.property.kind with
      | .association | .domainEntity => do
        let referenced ← m.referencedEntity e d.property
        return [referenced.id]
      | .inlineCommon => do
        let inlined ← m.referencedEntity e d.property
        m.identityReferencesWithin n inlined
      | _ => .ok []

/-- The entities that the identity of an entity references, inline commons looked through. -/
def identityReferences (m : Model) (e : Entity) : BuildResult (List EntityId) :=
  m.identityReferencesWithin m.depthLimit e

/-- The entities that the key of an entity depends on directly. -/
def identityTargets (m : Model) (e : Entity) : BuildResult (List EntityId) := do
  let base ← if e.kind.isSubclass then (fun b => [b.id]) <$> m.baseEntity e else pure []
  let references ← m.identityReferences e
  return base ++ references

/-- The graph with an edge from each entity to each entity that its key depends on directly. -/
def identityGraph (m : Model) : BuildResult (Graph EntityId) := do
  let nodes := m.entities.map Entity.id
  let edges ← m.entities |> collect fun e => do
    let targets ← m.identityTargets e
    return (targets.filter fun t => t ∈ nodes).map fun t => (e.id, t)
  return ⟨nodes, edges⟩

/-- The entities of the graph that allow their keys to be updated. -/
def updatable (m : Model) (g : Graph EntityId) : List EntityId :=
  ((m.entities.filter Entity.allowPrimaryKeyUpdates).map Entity.id).filter fun id => id ∈ g.nodes

/-- The entities whose key updates cascade: those that allow updates, and those whose keys depend
on such an entity. The search for them starts with the last entity that allows updates. -/
def cascadingEntities (m : Model) (g : Graph EntityId) : List EntityId :=
  g.reaching (m.updatable g).reverse

end Model

end Tabular
