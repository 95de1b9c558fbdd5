import Mathlib.Data.List.Nodup
import Mathlib.Logic.Relation
import Mathlib.Tactic.Common
import Tabular.Cascade.Cycles
import Tabular.Proofs.Cascade.Components
import Tabular.Proofs.Schema.Growth
import Tabular.Proofs.Schema.KeyOrder

/-!
# Cycles of cascades

A group of nodes that reach each other is a cycle if a walk leads from one of its nodes back to it:
if it has several nodes, or an edge from its only node to itself. The reported cycles are these
groups, with their names in order, whichever way the groups are found.

## Main definitions

* `Schema.Cascades`: a cascade runs from one table directly to another.

## Main results

* `Graph.AreGroups.isCyclic_iff`: the groups that are cycles.
* `cascadeCycles_groups`: what is reported.
* `Schema.pairwise_cascadeCycles`: the order in which it is reported.
-/

namespace Tabular

open Relation (ReflTransGen TransGen)

/-! ### Groups that are cycles -/

namespace Graph

variable {α : Type} {g : Graph α} {groups : List (List α)} {group : List α} {a b : α}

/-- Every node is in one group. -/
theorem AreGroups.exists_mem_iff (h : g.AreGroups groups) :
    (∃ group ∈ groups, a ∈ group) ↔ a ∈ g.nodes := by
  rw [← List.mem_flatten, h.perm.mem_iff]

/-- No node is listed twice. -/
theorem AreGroups.nodup_flatten (h : g.AreGroups groups) (hnodup : g.nodes.Nodup) :
    groups.flatten.Nodup :=
  h.perm.nodup_iff.mpr hnodup

variable [DecidableEq α]

/-- A group is a cycle if a walk leads from one of its nodes back to it. -/
theorem AreGroups.isCyclic_iff (h : g.AreGroups groups) (hg : g.IsClosed) (hnodup : g.nodes.Nodup)
    (hgroup : group ∈ groups) (ha : a ∈ group) :
    g.isCyclic group = true ↔ TransGen (fun a b => (a, b) ∈ g.edges) a a := by
  have hdistinct : group.Nodup :=
    (List.nodup_flatten.mp (h.nodup_flatten hnodup)).1 group hgroup
  constructor
  · intro hcyclic
    by_cases hsingle : group = [a]
    · rw [hsingle, isCyclic, hasEdge, decide_eq_true_eq] at hcyclic
      exact .single hcyclic
    · -- the walk goes to another node of the group and back
      obtain ⟨b, hb, hne⟩ := ((hdistinct.ne_singleton_iff a).mp hsingle).resolve_left
        (List.ne_nil_of_mem ha)
      obtain ⟨-, hab, hba⟩ := (h.mem_iff group hgroup a ha b).mp hb
      exact ((Relation.reflTransGen_iff_eq_or_transGen.mp hab).resolve_left hne).trans_left hba
  · intro hwalk
    obtain ⟨b, hedge, hback⟩ := TransGen.head'_iff.mp hwalk
    have hb : b ∈ group :=
      (h.mem_iff group hgroup a ha b).mpr ⟨(hg _ hedge).2, .single hedge, hback⟩
    unfold isCyclic
    split
    · rw [List.mem_singleton] at ha hb
      subst ha hb
      simpa [hasEdge] using hedge
    · simpa using List.ne_nil_of_mem ha

end Graph

/-! ### Cycles of a schema -/

namespace Schema

variable {s : Schema} {kind : CascadeKind} {a b : String}

/-- The cascade runs from the table of the first name to the table of the second one: that has a
foreign key to the other which passes it on. -/
def Cascades (s : Schema) (kind : CascadeKind) (a b : String) : Prop :=
  ∃ t ∈ s.tables, ∃ k ∈ t.foreignKeys, kind.applies k = true ∧
    k.qualifiedName = a ∧ t.qualifiedName = b

theorem mem_edges_cascadeGraph_iff :
    (a, b) ∈ (s.cascadeGraph kind).edges ↔ s.Cascades kind a b := by
  simp [cascadeGraph, Table.cascadeEdges, Cascades, and_assoc]

theorem isClosed_cascadeGraph : (s.cascadeGraph kind).IsClosed := by
  rintro ⟨a, b⟩ hedge
  obtain ⟨t, ht, k, hk, happlies, rfl, rfl⟩ := mem_edges_cascadeGraph_iff.mp hedge
  have hnames : ∀ name ∈ t.cascadeNames kind, name ∈ (s.cascadeGraph kind).nodes :=
    fun name hname => List.mem_eraseDups.mpr (List.mem_flatMap.mpr ⟨t, ht, hname⟩)
  refine ⟨hnames _ (List.mem_cons_of_mem _ (List.mem_map.mpr ⟨_, ?_, rfl⟩)),
    hnames _ List.mem_cons_self⟩
  exact List.mem_map.mpr ⟨k, List.mem_filter.mpr ⟨hk, happlies⟩, rfl⟩

theorem nodup_nodes_cascadeGraph : (s.cascadeGraph kind).nodes.Nodup :=
  nodup_eraseDups _

theorem cascades_eq : s.Cascades kind = fun a b => (a, b) ∈ (s.cascadeGraph kind).edges := by
  ext a b
  exact mem_edges_cascadeGraph_iff.symm

theorem mem_nodes_of_transGen (h : TransGen (s.Cascades kind) a b) :
    a ∈ (s.cascadeGraph kind).nodes := by
  obtain ⟨c, hedge, -⟩ := TransGen.head'_iff.mp h
  exact (isClosed_cascadeGraph _ (mem_edges_cascadeGraph_iff.mpr hedge)).1

theorem mem_cascadeCyclesBy_iff {components : Graph String → List (List String)}
    {c : CascadeCycle} : c ∈ s.cascadeCyclesBy components kind ↔
      ∃ group ∈ components (s.cascadeGraph kind), (s.cascadeGraph kind).isCyclic group = true ∧
        c = ⟨kind, group.mergeSort Text.sortsBefore⟩ := by
  simp only [cascadeCyclesBy, List.mem_map, List.mem_filter]
  constructor
  · rintro ⟨group, ⟨hgroup, hcyclic⟩, rfl⟩
    exact ⟨group, hgroup, hcyclic, rfl⟩
  · rintro ⟨group, hgroup, hcyclic, rfl⟩
    exact ⟨group, ⟨hgroup, hcyclic⟩, rfl⟩

section FindsGroups

variable {components : Graph String → List (List String)}
  (hcomponents : Graph.FindsGroups components)
include hcomponents

theorem areGroups_cascadeGraph (s : Schema) (kind : CascadeKind) :
    (s.cascadeGraph kind).AreGroups (components (s.cascadeGraph kind)) :=
  hcomponents _ isClosed_cascadeGraph nodup_nodes_cascadeGraph

/-- A name is reported if a walk leads from it back to it, and then together with its group. -/
theorem exists_mem_cascadeCyclesBy_iff :
    (∃ c ∈ s.cascadeCyclesBy components kind, a ∈ c.tables ∧ b ∈ c.tables) ↔
      TransGen (s.Cascades kind) a a ∧ b ∈ (s.cascadeGraph kind).nodes ∧
        ReflTransGen (s.Cascades kind) a b ∧ ReflTransGen (s.Cascades kind) b a := by
  have hgroups := areGroups_cascadeGraph hcomponents s kind
  have hcyclic := fun group (hgroup : group ∈ components (s.cascadeGraph kind)) (ha : a ∈ group) =>
    hgroups.isCyclic_iff isClosed_cascadeGraph nodup_nodes_cascadeGraph hgroup ha
  constructor
  · rintro ⟨c, hc, ha, hb⟩
    obtain ⟨group, hgroup, hcycle, rfl⟩ := mem_cascadeCyclesBy_iff.mp hc
    rw [List.mem_mergeSort] at ha hb
    rw [cascades_eq]
    exact ⟨(hcyclic group hgroup ha).mp hcycle, (hgroups.mem_iff group hgroup a ha b).mp hb⟩
  · rintro ⟨hwalk, hb⟩
    obtain ⟨group, hgroup, ha⟩ := hgroups.exists_mem_iff.mpr (mem_nodes_of_transGen hwalk)
    rw [cascades_eq] at hwalk hb
    refine ⟨_, mem_cascadeCyclesBy_iff.mpr
      ⟨group, hgroup, (hcyclic group hgroup ha).mpr hwalk, rfl⟩, ?_, ?_⟩
    · exact List.mem_mergeSort.mpr ha
    · exact List.mem_mergeSort.mpr ((hgroups.mem_iff group hgroup a ha b).mpr hb)

/-- The groups have no node in common, so that no name is reported twice. -/
theorem nodup_cascadeCyclesBy :
    ((s.cascadeCyclesBy components kind).flatMap CascadeCycle.tables).Nodup := by
  obtain ⟨hdistinct, hdisjoint⟩ := List.nodup_flatten.mp
    ((areGroups_cascadeGraph hcomponents s kind).nodup_flatten nodup_nodes_cascadeGraph)
  refine List.nodup_flatMap.mpr ⟨fun c hc => ?_, ?_⟩
  · obtain ⟨group, hgroup, -, rfl⟩ := mem_cascadeCyclesBy_iff.mp hc
    exact (List.mergeSort_perm _ _).nodup_iff.mpr (hdistinct group hgroup)
  · rw [cascadeCyclesBy, List.pairwise_map]
    refine (hdisjoint.sublist List.filter_sublist).imp fun {group other} hne a ha hb => ?_
    exact hne (List.mem_mergeSort.mp ha) (List.mem_mergeSort.mp hb)

/-- The tables of a group are in strict order, being sorted and different. -/
theorem pairwise_lt_of_mem_cascadeCyclesBy {c : CascadeCycle}
    (hc : c ∈ s.cascadeCyclesBy components kind) : c.tables.Pairwise (· < ·) := by
  have hdistinct := (List.nodup_flatMap.mp (nodup_cascadeCyclesBy hcomponents)).1 c hc
  obtain ⟨group, -, -, rfl⟩ := mem_cascadeCyclesBy_iff.mp hc
  have hsorted := List.pairwise_mergeSort Text.sortsBefore_trans Text.sortsBefore_total group
  exact (hsorted.and hdistinct).imp fun ⟨hle, hne⟩ =>
    ((Text.sortsBefore_iff _ _).mp hle).resolve_right hne

end FindsGroups

/-- A cascade does not run from one reported cycle to a later one. -/
theorem pairwise_cascadeCycles (s : Schema) (kind : CascadeKind) :
    (s.cascadeCycles kind).Pairwise fun c d =>
      ∀ a ∈ c.tables, ∀ b ∈ d.tables, ¬ReflTransGen (s.Cascades kind) a b := by
  rw [cascadeCycles, cascadeCyclesBy, List.pairwise_map, cascades_eq]
  refine ((Graph.pairwise_components isClosed_cascadeGraph).sublist List.filter_sublist).imp
    fun {group other} hnot a ha b hb => ?_
  exact hnot a (List.mem_mergeSort.mp ha) b (List.mem_mergeSort.mp hb)

end Schema

/-- Given how to find the strongly connected groups of a graph, the reported cycles of a cascade are
the groups of names between which it runs in both directions, as far as it runs in a circle there. A
name is reported if a walk along cascades leads from it back to it, two names are reported together
if both are reported and the cascade runs from each to the other, no name is reported twice, and
every list is in strict order. -/
theorem cascadeCycles_groups {components : Graph String → List (List String)}
    (hcomponents : Graph.FindsGroups components) (s : Schema) (kind : CascadeKind) :
    (∀ a, (∃ c ∈ s.cascadeCyclesBy components kind, a ∈ c.tables) ↔
      TransGen (s.Cascades kind) a a) ∧
    (∀ a b, (∃ c ∈ s.cascadeCyclesBy components kind, a ∈ c.tables ∧ b ∈ c.tables) ↔
      (∃ c ∈ s.cascadeCyclesBy components kind, a ∈ c.tables) ∧
      (∃ c ∈ s.cascadeCyclesBy components kind, b ∈ c.tables) ∧
        ReflTransGen (s.Cascades kind) a b ∧ ReflTransGen (s.Cascades kind) b a) ∧
    ((s.cascadeCyclesBy components kind).flatMap CascadeCycle.tables).Nodup ∧
    ∀ c ∈ s.cascadeCyclesBy components kind, c.kind = kind ∧ c.tables.Pairwise (· < ·) := by
  have hreported (a : String) : (∃ c ∈ s.cascadeCyclesBy components kind, a ∈ c.tables) ↔
      TransGen (s.Cascades kind) a a := by
    constructor
    · rintro ⟨c, hc, ha⟩
      exact ((Schema.exists_mem_cascadeCyclesBy_iff hcomponents).mp ⟨c, hc, ha, ha⟩).1
    · intro hwalk
      obtain ⟨c, hc, ha, -⟩ := (Schema.exists_mem_cascadeCyclesBy_iff hcomponents).mpr
        ⟨hwalk, Schema.mem_nodes_of_transGen hwalk, .refl, .refl⟩
      exact ⟨c, hc, ha⟩
  refine ⟨hreported, fun a b => ?_, Schema.nodup_cascadeCyclesBy hcomponents,
    fun c hc => ⟨?_, Schema.pairwise_lt_of_mem_cascadeCyclesBy hcomponents hc⟩⟩
  · rw [Schema.exists_mem_cascadeCyclesBy_iff hcomponents, hreported, hreported]
    constructor
    · rintro ⟨hwalk, -, hab, hba⟩
      exact ⟨hwalk, TransGen.trans_right hba (hwalk.trans_left hab), hab, hba⟩
    · rintro ⟨hwalk, hwalk', hab, hba⟩
      exact ⟨hwalk, Schema.mem_nodes_of_transGen hwalk', hab, hba⟩
  · obtain ⟨group, -, -, rfl⟩ := Schema.mem_cascadeCyclesBy_iff.mp hc
    rfl

/-! ### Orders and invoices

An order and its invoice are deleted with each other, a category with the category above it, and a
line with its order.
-/

namespace Orders

def table (id owner : String) : Table :=
  { Table.ofReason "EdFi" id .main with
    foreignKeys := [{ ForeignKey.ofPairs id "EdFi" owner [.same "Id"] .reference with
      withDeleteCascade := true }] }

def schema : Schema :=
  { Schema.empty with
    inserted := [table "Order" "Invoice", table "Line" "Order", table "Category" "Category",
      table "Invoice" "Order"] }

end Orders

/-- The cascade runs in a circle through orders and through categories, but not through lines. -/
theorem cascadeCycles_groups_orders :
    Orders.schema.cascadeCycles .delete =
      [⟨.delete, ["edfi.Invoice", "edfi.Order"]⟩, ⟨.delete, ["edfi.Category"]⟩] ∧
    TransGen (Orders.schema.Cascades .delete) "edfi.Order" "edfi.Order" ∧
    TransGen (Orders.schema.Cascades .delete) "edfi.Category" "edfi.Category" ∧
    ¬TransGen (Orders.schema.Cascades .delete) "edfi.Line" "edfi.Line" := by
  have hgroups : (Orders.schema.cascadeGraph .delete).components.filter
      (Orders.schema.cascadeGraph .delete).isCyclic =
        [["edfi.Order", "edfi.Invoice"], ["edfi.Category"]] := by decide +kernel
  have horder : Text.sortsBefore "edfi.Order" "edfi.Invoice" = false := by decide +kernel
  have hsorted : ["edfi.Order", "edfi.Invoice"].mergeSort Text.sortsBefore =
      ["edfi.Invoice", "edfi.Order"] := by simp [List.mergeSort, horder]
  have hcycles : Orders.schema.cascadeCyclesBy Graph.components .delete =
      [⟨.delete, ["edfi.Invoice", "edfi.Order"]⟩, ⟨.delete, ["edfi.Category"]⟩] := by
    simp only [Schema.cascadeCyclesBy, hgroups, List.map_cons, List.map_nil, hsorted,
      List.mergeSort_singleton]
  have hreported := (cascadeCycles_groups Graph.findsGroups_components Orders.schema .delete).1
  simp only [hcycles] at hreported
  refine ⟨hcycles, (hreported _).mp ?_, (hreported _).mp ?_, fun hwalk => ?_⟩
  · simp
  · simp
  · simpa using (hreported _).mpr hwalk

end Tabular
