import Tabular.Cascade.Graph
import Tabular.Schema.Basic

/-!
# Cycles of cascading foreign keys

Deletions and key updates run from a table to the tables that refer to it with a cascading foreign
key. Tables between which a cascade can run in both directions form a cycle, and so does a table
with a cascade to itself.

## Main definitions

* `CascadeKind`, `CascadeCycle`: cascades and their cycles.
* `Schema.cascadeGraph`: the graph in which a cascade runs.
* `Graph.components`: the strongly connected groups of a graph.
* `Schema.cascadeCyclesBy`, `Schema.cascadeCycles`: the cycles of a cascade.
-/

namespace Tabular

/-- What a foreign key passes on. -/
inductive CascadeKind where
  | delete
  | update
  deriving DecidableEq

/-- Whether a foreign key passes it on. -/
def CascadeKind.applies : CascadeKind → ForeignKey → Bool
  | delete, k => k.withDeleteCascade
  | update, k => k.withUpdateCascade

/-- Tables between which a cascade can run in a circle, by name in order. -/
structure CascadeCycle where
  kind : CascadeKind
  tables : List String
  deriving DecidableEq

/-- The name of a table together with its schema. -/
def Table.qualifiedName (t : Table) : String :=
  t.schema ++ "." ++ t.tableId

/-- The name of the table a foreign key leads to. -/
def ForeignKey.qualifiedName (k : ForeignKey) : String :=
  k.foreignSchema ++ "." ++ k.foreignTableId

/-- The edges along which a cascade runs to a table. -/
def Table.cascadeEdges (kind : CascadeKind) (t : Table) : List (String × String) :=
  (t.foreignKeys.filter kind.applies).map fun k => (k.qualifiedName, t.qualifiedName)

/-- The names that a table brings into the graph of a cascade: its own, and those of the tables that
it refers to. -/
def Table.cascadeNames (kind : CascadeKind) (t : Table) : List String :=
  t.qualifiedName :: (t.cascadeEdges kind).map Prod.fst

/-- The graph in which a cascade runs: from a table to the tables that refer to it. -/
def Schema.cascadeGraph (s : Schema) (kind : CascadeKind) : Graph String where
  nodes := (s.tables.flatMap (Table.cascadeNames kind)).eraseDups
  edges := s.tables.flatMap (Table.cascadeEdges kind)

namespace Graph

variable {α : Type}

/-- What is to be done about a node in a traversal. -/
inductive Task (α : Type) where
  /-- Enter it, if that has not been done. -/
  | enter (a : α)
  /-- Leave it, all its successors having been entered. -/
  | leave (a : α)

/-- How many steps tasks may take, apart from those for the edges they lead to. -/
def workload : List (Task α) → Nat
  | [] => 0
  | .enter _ :: rest => workload rest + 2
  | .leave _ :: rest => workload rest + 1

theorem workload_map_enter_append (as : List α) (tasks : List (Task α)) :
    workload (as.map .enter ++ tasks) = 2 * as.length + workload tasks := by
  induction as with
  | nil => exact (Nat.zero_add _).symm
  | cons a rest ih =>
    rw [List.map_cons, List.cons_append, workload, ih, List.length_cons]
    omega

variable [DecidableEq α]

/-- The nodes in the order in which a traversal leaves them, the last one first. A node is left
when the traversal has left all nodes that it entered from there. -/
def leftNodes (g : Graph α) (entered left : List α) (tasks : List (Task α)) : List α :=
  match tasks with
  | [] => left
  | .leave a :: rest => g.leftNodes entered (a :: left) rest
  | .enter a :: rest =>
    if _h : a ∈ entered then g.leftNodes entered left rest
    else
      g.leftNodes (a :: entered) left
        ((g.successors a).reverse.map .enter ++ .leave a :: rest)
termination_by workload tasks + 2 * (g.edges.filter fun e => e.1 ∉ entered).length
decreasing_by
  · rw [workload]
    omega
  · rw [workload]
    omega
  · have hvisit := length_filter_visit Prod.fst _h g.edges
    rw [workload_map_enter_append, List.length_reverse, successors, List.length_map, workload,
      workload]
    omega

/-- The nodes that the node reaches and that reach it. -/
def groupOf (g : Graph α) (a : α) : List α :=
  let backward := g.reaching [a]
  g.nodes.filter fun b => b ∈ backward && g.canReach a b

/-- The strongly connected groups of nodes. A group comes when a traversal of the graph leaves it,
so that it is preceded by the groups it leads to. -/
def components (g : Graph α) : List (List α) :=
  ((g.leftNodes [] [] (g.nodes.map .enter)).map g.groupOf).eraseDups.reverse

/-- Whether a group contains a circle: it has several nodes, or an edge from its node to itself. -/
def isCyclic (g : Graph α) : List α → Bool
  | [a] => g.hasEdge a a
  | group => !group.isEmpty

end Graph

/-- The cycles of a cascade, given how to find the strongly connected groups of a graph. -/
def Schema.cascadeCyclesBy (components : Graph String → List (List String)) (s : Schema)
    (kind : CascadeKind) : List CascadeCycle :=
  let g := s.cascadeGraph kind
  ((components g).filter g.isCyclic).map fun group => ⟨kind, group.mergeSort Text.sortsBefore⟩

/-- The cycles of a cascade. -/
def Schema.cascadeCycles (s : Schema) (kind : CascadeKind) : List CascadeCycle :=
  s.cascadeCyclesBy Graph.components kind

/-- The cycles of both cascades. -/
def Schema.allCascadeCycles (s : Schema) : List CascadeCycle :=
  s.cascadeCycles .delete ++ s.cascadeCycles .update

end Tabular
