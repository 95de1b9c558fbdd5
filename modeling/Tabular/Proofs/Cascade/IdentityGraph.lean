import Mathlib.Tactic.Common
import Tabular.Cascade.Identity
import Tabular.Proofs.Cascade.Reachability
import Tabular.Proofs.Derive.FirmKeys

/-!
# The edges of the identity graph

The identity graph has an edge from a subclass to its base, and from an entity to every entity that
an identity property of it references, directly or through inline commons that are part of the
identity.

## Main definitions

* `Model.IdentityRefers`: the entities that the identity of an entity references.

## Main results

* `Model.mem_identityReferencesWithin_iff`: the references that are collected.
* `Model.mem_edges_iff`, `Model.isClosed_identityGraph`: the edges of the graph.
* `Model.mem_cascadingEntities_iff`: the entities whose key updates cascade.
-/

namespace Tabular

namespace Model

/-- The identity of the entity references the entity of the given position, possibly through inline
commons that are part of the identity. -/
inductive IdentityRefers (m : Model) : Entity → EntityId → Prop
  | direct {e f : Entity} {d : Declaration} (hd : d ∈ e.identityDeclarations)
      (hrule : d.property.kind.columnRule = .reference)
      (hf : m.referencedEntity e d.property = .ok f) : m.IdentityRefers e f.id
  | through {e f : Entity} {d : Declaration} {id : EntityId} (hd : d ∈ e.identityDeclarations)
      (hkind : d.property.kind = .inlineCommon) (hf : m.referencedEntity e d.property = .ok f)
      (next : m.IdentityRefers f id) : m.IdentityRefers e id

variable {m : Model} {e : Entity} {g : Graph EntityId} {ids : List EntityId} {a b id : EntityId}

/-- The references that are collected are those of the identity. -/
theorem mem_identityReferencesWithin_iff {n : Nat} (h : m.identityReferencesWithin n e = .ok ids) :
    id ∈ ids ↔ m.IdentityRefers e id := by
  induction n generalizing e ids with
  | zero => simp [identityReferencesWithin] at h
  | succ n ih =>
    rw [mem_collect_iff h]
    constructor
    · rintro ⟨d, hd, refs, hrefs, hid⟩
      cases hkind : d.property.kind with
      | association | domainEntity =>
        simp only [hkind, bind_eq_ok_iff, pure_eq_ok_iff] at hrefs
        obtain ⟨f, hf, rfl⟩ := hrefs
        obtain rfl := List.mem_singleton.mp hid
        exact .direct hd (by simp [hkind, PropertyKind.columnRule]) hf
      | inlineCommon =>
        simp only [hkind, bind_eq_ok_iff] at hrefs
        obtain ⟨f, hf, hrefs⟩ := hrefs
        exact .through hd hkind hf ((ih hrefs).mp hid)
      | scalar | descriptor | enumeration | schoolYearEnumeration | common | choice =>
        simp only [hkind, Except.ok.injEq] at hrefs
        simp [← hrefs] at hid
    · intro hrefers
      cases hrefers with
      | @direct _ f d hd hrule hf =>
        have hkind : d.property.kind = .association ∨ d.property.kind = .domainEntity := by
          cases hkind : d.property.kind <;> simp_all [PropertyKind.columnRule]
        refine ⟨d, hd, [f.id], ?_, List.mem_singleton_self _⟩
        rcases hkind with hkind | hkind <;>
          simp only [hkind, bind_eq_ok_iff, pure_eq_ok_iff] <;> exact ⟨f, hf, rfl⟩
      | @through _ f d _ hd hkind hf next =>
        obtain ⟨refs, hrefs⟩ := collect_ok_iff.mp ⟨ids, h⟩ d hd
        refine ⟨d, hd, refs, hrefs, ?_⟩
        simp only [hkind, bind_eq_ok_iff] at hrefs
        obtain ⟨f', hf', hrefs⟩ := hrefs
        obtain rfl : f = f' := Except.ok.inj (hf.symm.trans hf')
        exact (ih hrefs).mpr next

/-- The entities that the key of an entity depends on directly. -/
theorem mem_identityTargets_iff (h : m.identityTargets e = .ok ids) :
    id ∈ ids ↔ (e.kind.isSubclass = true ∧ ∃ base, m.baseEntity e = .ok base ∧ base.id = id) ∨
      m.IdentityRefers e id := by
  unfold identityTargets at h
  split_ifs at h with hkind
  · simp only [bind_eq_ok_iff, pure_eq_ok_iff, map_eq_ok_iff] at h
    obtain ⟨_, ⟨base, hbase, rfl⟩, refs, hrefs, rfl⟩ := h
    rw [List.mem_append, mem_identityReferencesWithin_iff hrefs, List.mem_singleton]
    simp [hkind, hbase, eq_comm]
  · simp only [bind_eq_ok_iff, pure_eq_ok_iff] at h
    obtain ⟨_, rfl, refs, hrefs, rfl⟩ := h
    rw [List.nil_append, mem_identityReferencesWithin_iff hrefs]
    simp [hkind]

/-- The edges of the identity graph. -/
theorem mem_edges_iff (h : m.identityGraph = .ok g) :
    (a, b) ∈ g.edges ↔ ∃ e ∈ m.entities, e.id = a ∧ b ∈ m.entities.map Entity.id ∧
      ((e.kind.isSubclass = true ∧ ∃ base, m.baseEntity e = .ok base ∧ base.id = b) ∨
        m.IdentityRefers e b) := by
  simp only [identityGraph, bind_eq_ok_iff, pure_eq_ok_iff] at h
  obtain ⟨edges, hedges, rfl⟩ := h
  rw [mem_collect_iff hedges]
  refine exists_congr fun e => and_congr_right fun he => ?_
  obtain ⟨own, hown⟩ := collect_ok_iff.mp ⟨edges, hedges⟩ e he
  simp only [bind_eq_ok_iff, pure_eq_ok_iff] at hown ⊢
  obtain ⟨targets, htargets, rfl⟩ := hown
  rw [← mem_identityTargets_iff htargets]
  simp [htargets, and_comm, and_left_comm]

theorem nodes_identityGraph (h : m.identityGraph = .ok g) :
    g.nodes = m.entities.map Entity.id := by
  simp only [identityGraph, bind_eq_ok_iff, pure_eq_ok_iff] at h
  obtain ⟨edges, -, rfl⟩ := h
  rfl

theorem isClosed_identityGraph (h : m.identityGraph = .ok g) : g.IsClosed := by
  rintro ⟨a, b⟩ hedge
  obtain ⟨e, he, rfl, hb, -⟩ := (mem_edges_iff h).mp hedge
  rw [nodes_identityGraph h]
  exact ⟨List.mem_map_of_mem he, hb⟩

theorem id_mem_nodes (h : m.identityGraph = .ok g) (he : e ∈ m.entities) : e.id ∈ g.nodes := by
  rw [nodes_identityGraph h]
  exact List.mem_map_of_mem he

theorem mem_updatable_iff (h : m.identityGraph = .ok g) :
    id ∈ m.updatable g ↔ ∃ e ∈ m.entities, e.allowPrimaryKeyUpdates = true ∧ e.id = id := by
  simp only [updatable, List.mem_filter, List.mem_map, decide_eq_true_eq]
  constructor
  · rintro ⟨⟨e, ⟨he, hallows⟩, rfl⟩, -⟩
    exact ⟨e, he, hallows, rfl⟩
  · rintro ⟨e, he, hallows, rfl⟩
    exact ⟨⟨e, ⟨he, hallows⟩, rfl⟩, id_mem_nodes h he⟩

/-- The entities whose key updates cascade are those that lead to an entity that allows updates. -/
theorem mem_cascadingEntities_iff (h : m.identityGraph = .ok g) :
    id ∈ m.cascadingEntities g ↔ id ∈ g.nodes ∧
      ∃ e ∈ m.entities, e.allowPrimaryKeyUpdates = true ∧ g.Leads id e.id := by
  simp only [cascadingEntities, Graph.mem_reaching_iff, List.mem_reverse, mem_updatable_iff h]
  constructor
  · rintro ⟨_, ⟨e, he, hallows, rfl⟩, hleads⟩
    refine ⟨?_, e, he, hallows, hleads⟩
    -- the path starts with an edge of the graph, or at the entity itself
    rcases Relation.ReflTransGen.cases_head hleads with rfl | ⟨_, hedge, -⟩
    · exact id_mem_nodes h he
    · exact (isClosed_identityGraph h _ hedge).1
  · rintro ⟨-, e, he, hallows, hleads⟩
    exact ⟨e.id, ⟨e, he, hallows, rfl⟩, hleads⟩

end Model

end Tabular
