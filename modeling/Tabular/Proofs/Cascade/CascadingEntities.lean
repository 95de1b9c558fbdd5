import Mathlib.Logic.Relation
import Mathlib.Tactic.Common
import Tabular.Proofs.Cascade.IdentityGraph
import Tabular.Proofs.Reference.Sources

/-!
# Entities whose key updates cascade

The identity graph is searched forwards, for an entity that the key of another entity depends on,
and backwards, for the entities whose keys depend on one that allows updates. Its edges may run in
circles. Both searches find the same paths, and both end on every graph.

## Main definitions

* `Model.DependsOn`: the key of an entity depends directly on the key of another one.

## Main results

* `Model.leads_iff_dependsOn`: paths of the graph are chains of dependencies.
* `cascading_iff_canReach`: the entities that cascade are those that reach one that allows updates.
-/

namespace Tabular

open Relation (ReflTransGen)

/-! ### Paths of the identity graph -/

namespace Model

variable {m : Model} {g : Graph EntityId} {x y : Entity}

/-- The key of the first entity depends directly on the key of the second one: that is its base, or
its identity references it. -/
def DependsOn (m : Model) (x y : Entity) : Prop :=
  y ∈ m.entities ∧
    ((x.kind.isSubclass = true ∧ m.baseEntity x = .ok y) ∨ m.IdentityRefers x y.id)

/-- The edges of the identity graph are the direct dependencies between keys. -/
theorem mem_edges_iff_dependsOn (hindexed : m.IsIndexed) (hg : m.identityGraph = .ok g)
    (hx : x ∈ m.entities) (hy : y ∈ m.entities) : (x.id, y.id) ∈ g.edges ↔ m.DependsOn x y := by
  rw [mem_edges_iff hg]
  constructor
  · rintro ⟨e, he, hid, -, hdepends⟩
    obtain rfl := hindexed.eq_of_id_eq he hx hid
    refine ⟨hy, hdepends.imp_left ?_⟩
    rintro ⟨hkind, b, hb, hbid⟩
    obtain rfl := hindexed.eq_of_id_eq (mem_entities_of_baseEntity hb) hy hbid
    exact ⟨hkind, hb⟩
  · rintro ⟨-, hdepends⟩
    exact ⟨x, hx, rfl, List.mem_map_of_mem hy,
      hdepends.imp_left fun ⟨hkind, hb⟩ => ⟨hkind, y, hb, rfl⟩⟩

/-- The paths of the identity graph are the chains of dependencies between keys. -/
theorem leads_iff_dependsOn (hindexed : m.IsIndexed) (hg : m.identityGraph = .ok g)
    (hx : x ∈ m.entities) (hy : y ∈ m.entities) :
    g.Leads x.id y.id ↔ ReflTransGen m.DependsOn x y := by
  constructor
  · intro hleads
    generalize hid : x.id = a at hleads
    induction hleads using ReflTransGen.head_induction_on generalizing x with
    | refl =>
      obtain rfl := hindexed.eq_of_id_eq hx hy hid
      exact .refl
    | @head a b hedge _ ih =>
      subst hid
      have hnode := (isClosed_identityGraph hg _ hedge).2
      rw [nodes_identityGraph hg] at hnode
      obtain ⟨z, hz, rfl⟩ := List.mem_map.mp hnode
      exact .head ((mem_edges_iff_dependsOn hindexed hg hx hz).mp hedge) (ih hz rfl)
  · intro hpath
    induction hpath using ReflTransGen.head_induction_on with
    | refl => exact .refl
    | head hstep _ ih =>
      exact .head ((mem_edges_iff_dependsOn hindexed hg hx hstep.1).mpr hstep) (ih hstep.1)

theorem canReach_iff_leads (hg : m.identityGraph = .ok g) (hx : x ∈ m.entities)
    (hy : y ∈ m.entities) : g.canReach x.id y.id = true ↔ g.Leads x.id y.id := by
  rw [Graph.canReach_iff, and_iff_right (id_mem_nodes hg hx),
    and_iff_right (id_mem_nodes hg hy)]

end Model

variable {m : Model} {g : Graph EntityId}

/-- One entity reaches another one along the edges of the identity graph, which are the dependencies
between keys, and an entity cascades key updates exactly if it reaches one that allows them. The
searches for both end on every identity graph, also if dependencies run in circles, after no more
steps than there are edges and nodes to start from. -/
theorem cascading_iff_canReach (hindexed : m.IsIndexed) (hg : m.identityGraph = .ok g) :
    (∀ x ∈ m.entities, ∀ y ∈ m.entities,
      (g.canReach x.id y.id = true ↔ g.Leads x.id y.id) ∧
      (g.Leads x.id y.id ↔ ReflTransGen m.DependsOn x y)) ∧
    (∀ x ∈ m.entities, x.id ∈ m.cascadingEntities g ↔
      ∃ y ∈ m.entities, y.allowPrimaryKeyUpdates = true ∧ g.canReach x.id y.id = true) ∧
    (∀ x ∈ m.entities, ∀ y ∈ m.entities, ∃ n ≤ g.edges.length + 1,
      g.FindsIn y.id n [] [x.id] (g.canReach x.id y.id)) ∧
    (∃ n ≤ g.edges.length + (m.updatable g).length,
      g.GathersIn n [] (m.updatable g).reverse (m.cascadingEntities g)) := by
  have hunfollowed (near : EntityId × EntityId → EntityId) :
      (g.edges.filter fun e => near e ∉ ([] : List EntityId)).length ≤ g.edges.length :=
    List.length_filter_le _ _
  refine ⟨fun x hx y hy => ⟨Model.canReach_iff_leads hg hx hy,
    Model.leads_iff_dependsOn hindexed hg hx hy⟩, fun x hx => ?_, fun x hx y hy => ?_, ?_⟩
  · rw [Model.mem_cascadingEntities_iff hg, and_iff_right (Model.id_mem_nodes hg hx)]
    refine exists_congr fun y => and_congr_right fun hy => and_congr_right fun _ => ?_
    exact (Model.canReach_iff_leads hg hx hy).symm
  · obtain ⟨n, hn, hends⟩ := g.exists_findsIn y.id [] [x.id]
    have hsearch : g.canReach x.id y.id = g.finds y.id [] [x.id] := by
      simp [Graph.canReach, Model.id_mem_nodes hg hx, Model.id_mem_nodes hg hy]
    have hbound := hunfollowed Prod.fst
    exact ⟨n, by simp only [List.length_singleton] at hn; omega, hsearch ▸ hends⟩
  · obtain ⟨n, hn, hends⟩ := g.exists_gathersIn [] (m.updatable g).reverse
    have hbound := hunfollowed Prod.snd
    exact ⟨n, by rw [List.length_reverse] at hn; omega, hends⟩

/-! ### Identities in a circle

Teams and members are identified by each other, and members by their region as well, whose key may
be updated. A squad is a team.
-/

namespace Squads

def region : Entity :=
  { Entity.ofKind .domainEntity "EdFi" "Region" with
    id := 0
    allowPrimaryKeyUpdates := true
    properties := [(Property.ofKind "RegionId" (.scalar .integer)).identity] }

def team : Entity :=
  { Entity.ofKind .domainEntity "EdFi" "Team" with
    id := 1
    properties := [{ (Property.ofKind "Member" .domainEntity).identity with
      referencedEntity := some 2 }] }

def member : Entity :=
  { Entity.ofKind .domainEntity "EdFi" "Member" with
    id := 2
    properties := [
      { (Property.ofKind "Team" .domainEntity).identity with referencedEntity := some 1 },
      { (Property.ofKind "Region" .domainEntity).identity with referencedEntity := some 0 }] }

def squad : Entity :=
  { Entity.ofKind .domainEntitySubclass "EdFi" "Squad" with
    id := 3
    baseEntity := some 1 }

def model : Model :=
  ⟨[.core "EdFi"], [region, team, member, squad]⟩

end Squads

/-- A squad cascades the updates of its region, which it reaches through a circle of identities. -/
theorem cascading_iff_canReach_squads :
    Squads.model.IsIndexed ∧ ∃ g, Squads.model.identityGraph = .ok g ∧
      g.Leads Squads.team.id Squads.member.id ∧ g.Leads Squads.member.id Squads.team.id ∧
      Squads.squad.id ∈ Squads.model.cascadingEntities g ∧
      ¬g.Leads Squads.region.id Squads.squad.id ∧
      (∃ n ≤ g.edges.length + 1,
        g.FindsIn Squads.region.id n [] [Squads.squad.id] true) ∧
      (∃ n ≤ g.edges.length + 1,
        g.FindsIn Squads.squad.id n [] [Squads.region.id] false) ∧
      ∃ n ≤ g.edges.length + (Squads.model.updatable g).length,
        g.GathersIn n [] (Squads.model.updatable g).reverse (Squads.model.cascadingEntities g) := by
  have hindexed : Squads.model.IsIndexed := by decide
  have hgraph : Squads.model.identityGraph.toOption.any
      (fun g => g.canReach Squads.team.id Squads.member.id &&
        g.canReach Squads.member.id Squads.team.id &&
        g.canReach Squads.squad.id Squads.region.id &&
        !g.canReach Squads.region.id Squads.squad.id) = true := by decide +kernel
  obtain ⟨g, hg, hreach⟩ := exists_eq_ok_of_any hgraph
  simp only [Bool.and_eq_true, Bool.not_eq_true'] at hreach
  obtain ⟨⟨⟨hmember, hteam⟩, hregion⟩, hback⟩ := hreach
  obtain ⟨hleads, hcascades, hforward, hbackward⟩ := cascading_iff_canReach hindexed hg
  have regionMem : Squads.region ∈ Squads.model.entities := .head _
  have teamMem : Squads.team ∈ Squads.model.entities := .tail _ (.head _)
  have memberMem : Squads.member ∈ Squads.model.entities := .tail _ (.tail _ (.head _))
  have squadMem : Squads.squad ∈ Squads.model.entities := .tail _ (.tail _ (.tail _ (.head _)))
  refine ⟨hindexed, g, hg, (hleads _ teamMem _ memberMem).1.mp hmember,
    (hleads _ memberMem _ teamMem).1.mp hteam,
    (hcascades _ squadMem).mpr ⟨_, regionMem, rfl, hregion⟩, fun hpath => ?_,
    hregion ▸ hforward _ squadMem _ regionMem, hback ▸ hforward _ regionMem _ squadMem, hbackward⟩
  have hreached := (hleads _ regionMem _ squadMem).1.mpr hpath
  simp [hback] at hreached

end Tabular
