import Mathlib.Tactic.Common
import Tabular.Proofs.Cascade.IdentityGraph
import Tabular.Proofs.Derive.LargerModels
import Tabular.Reference.Resolution

/-!
# Key updates in larger models

The key of an entity depends on entities that its links lead to. Further entities may depend on
those of a model, but not the other way round, so the identity graph has no further edges out of the
entities of the model. Whether key updates cascade between two of them is the same with and without
further entities.

## Main definitions

* `CascadeInfo.AgreesBelow`: key updates cascade in the same way between the first entities.

## Main results

* `Model.ExtendedBy.mem_edges_iff`, `Model.ExtendedBy.leads_iff`: edges and paths out of the
  entities of a model.
* `Model.ExtendedBy.agreesBelow`: cascading updates.
-/

namespace Tabular

/-- Key updates cascade in the same way between entities of the first `n` positions. -/
def CascadeInfo.AgreesBelow (n : Nat) (info info' : CascadeInfo) : Prop :=
  ∀ a b : EntityId, a < n → b < n → info'.cascades a b = info.cascades a b

/-- What the identity of an entity references is an entity of its model. -/
theorem Model.IdentityRefers.mem_ids {m : Model} {e : Entity} {id : EntityId}
    (h : m.IdentityRefers e id) : id ∈ m.entities.map Entity.id := by
  induction h with
  | direct _ _ hf => exact List.mem_map_of_mem (mem_entities_of_referencedEntity hf)
  | through _ _ _ _ ih => exact ih

namespace Model.ExtendedBy

variable {m m' : Model} {added : List Entity} {e : Entity} {g g' : Graph EntityId}
  {a b id : EntityId}

/-- The identity of an entity references the same entities. -/
theorem identityRefers_iff (h : m.ExtendedBy added m') (he : e ∈ m.entities) :
    m'.IdentityRefers e id ↔ m.IdentityRefers e id := by
  have hreferenced {e : Entity} (he : e ∈ m.entities) {d : Declaration}
      (hd : d ∈ e.identityDeclarations) :
      m'.referencedEntity e d.property = m.referencedEntity e d.property :=
    h.keepsLinks.reference e he d.property
      (Entity.property_mem_of_mem_declarations (List.mem_filter.mp hd).1)
  constructor
  · intro hrefers
    induction hrefers with
    | direct hd hrule hf => exact .direct hd hrule ((hreferenced he hd).symm.trans hf)
    | through hd hkind hf _ ih =>
      have hf' := (hreferenced he hd).symm.trans hf
      exact .through hd hkind hf' (ih (mem_entities_of_referencedEntity hf'))
  · intro hrefers
    induction hrefers with
    | direct hd hrule hf => exact .direct hd hrule ((hreferenced he hd).trans hf)
    | through hd hkind hf _ ih =>
      exact .through hd hkind ((hreferenced he hd).trans hf)
        (ih (mem_entities_of_referencedEntity hf))

theorem mem_ids_iff (h : m.ExtendedBy added m') :
    id ∈ m.entities.map Entity.id ↔ id < m.entities.length := by
  rw [h.isIndexed, List.mem_range]

/-- The edges out of the entities of the model. -/
theorem mem_edges_iff (h : m.ExtendedBy added m') (hg : m.identityGraph = .ok g)
    (hg' : m'.identityGraph = .ok g') (ha : a < m.entities.length) :
    (a, b) ∈ g'.edges ↔ (a, b) ∈ g.edges := by
  rw [Model.mem_edges_iff hg', Model.mem_edges_iff hg]
  constructor
  · rintro ⟨e, he, rfl, -, htarget⟩
    have hmem : e ∈ m.entities := by
      rcases List.mem_append.mp (h.entities ▸ he) with he | he
      · exact he
      · exact absurd ha (Nat.not_lt.mpr (h.le_id he))
    rw [h.keepsLinks.base e hmem, h.identityRefers_iff hmem] at htarget
    refine ⟨e, hmem, rfl, ?_, htarget⟩
    rcases htarget with ⟨-, base, hbase, rfl⟩ | hrefers
    · exact List.mem_map_of_mem (mem_entities_of_baseEntity hbase)
    · exact hrefers.mem_ids
  · rintro ⟨e, he, rfl, hb, htarget⟩
    refine ⟨e, h.mem_entities he, rfl, ?_, ?_⟩
    · rw [h.entities, List.map_append]
      exact List.mem_append_left _ hb
    · rwa [h.keepsLinks.base e he, h.identityRefers_iff he]

theorem lt_of_leads (h : m.ExtendedBy added m') (hg : m.identityGraph = .ok g)
    (ha : a < m.entities.length) (hleads : g.Leads a b) : b < m.entities.length := by
  induction hleads with
  | refl => exact ha
  | tail _ hedge _ =>
    have hnode := (isClosed_identityGraph hg _ hedge).2
    rwa [nodes_identityGraph hg, h.mem_ids_iff] at hnode

/-- The paths out of the entities of the model. -/
theorem leads_iff (h : m.ExtendedBy added m') (hg : m.identityGraph = .ok g)
    (hg' : m'.identityGraph = .ok g') (ha : a < m.entities.length) :
    g'.Leads a b ↔ g.Leads a b := by
  constructor
  · intro hleads
    induction hleads with
    | refl => exact .refl
    | tail _ hedge ih =>
      exact .tail ih ((h.mem_edges_iff hg hg' (h.lt_of_leads hg ha ih)).mp hedge)
  · intro hleads
    induction hleads with
    | refl => exact .refl
    | tail hpath hedge ih =>
      exact .tail ih ((h.mem_edges_iff hg hg' (h.lt_of_leads hg ha hpath)).mpr hedge)

theorem mem_nodes_iff (h : m.ExtendedBy added m') (hg : m.identityGraph = .ok g)
    (hg' : m'.identityGraph = .ok g') (ha : a < m.entities.length) :
    a ∈ g'.nodes ↔ a ∈ g.nodes := by
  have hlt : a < m'.entities.length := by
    rw [h.entities, List.length_append]
    exact Nat.lt_of_lt_of_le ha (Nat.le_add_right _ _)
  rw [nodes_identityGraph hg', nodes_identityGraph hg, h.mem_ids_iff, h.indexed, List.mem_range]
  exact iff_of_true hlt ha

theorem mem_cascadingEntities_iff (h : m.ExtendedBy added m') (hg : m.identityGraph = .ok g)
    (hg' : m'.identityGraph = .ok g') (ha : a < m.entities.length) :
    a ∈ m'.cascadingEntities g' ↔ a ∈ m.cascadingEntities g := by
  rw [Model.mem_cascadingEntities_iff hg', Model.mem_cascadingEntities_iff hg,
    h.mem_nodes_iff hg hg' ha]
  refine and_congr_right fun _ => ?_
  constructor
  · rintro ⟨e, he, hallows, hleads⟩
    rw [h.leads_iff hg hg' ha] at hleads
    refine ⟨e, ?_, hallows, hleads⟩
    rcases List.mem_append.mp (h.entities ▸ he) with he | he
    · exact he
    · exact absurd (h.lt_of_leads hg ha hleads) (Nat.not_lt.mpr (h.le_id he))
  · rintro ⟨e, he, hallows, hleads⟩
    exact ⟨e, h.mem_entities he, hallows, (h.leads_iff hg hg' ha).mpr hleads⟩

/-- Key updates cascade between the entities of a model as they do without further entities. -/
theorem agreesBelow (h : m.ExtendedBy added m') (hg : m.identityGraph = .ok g)
    (hg' : m'.identityGraph = .ok g') :
    CascadeInfo.AgreesBelow m.entities.length ⟨m.cascadingEntities g, some g⟩
      ⟨m'.cascadingEntities g', some g'⟩ := by
  intro a b ha hb
  have hreach : g'.canReach a b = g.canReach a b := by
    rw [Bool.eq_iff_iff, Graph.canReach_iff,
      Graph.canReach_iff, h.mem_nodes_iff hg hg' ha,
      h.mem_nodes_iff hg hg' hb, h.leads_iff hg hg' ha]
  simp only [CascadeInfo.cascades, Option.any_some, hreach, h.mem_cascadingEntities_iff hg hg' ha]

end Model.ExtendedBy

end Tabular
