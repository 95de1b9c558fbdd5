/-!
# Searches in finite graphs

A graph is a list of nodes and a list of directed edges. A search keeps a stack of nodes to be
looked at and a list of those it has visited. It takes the node on top of the stack, visits it
unless it has done so before, and puts its neighbours on the stack.

Every edge is followed at most once, when the node at its near end is visited. So the nodes on the
stack and the edges not followed yet become fewer with every step, and a search ends on every graph.

## Main definitions

* `Graph`: a graph.
* `Graph.successors`, `Graph.predecessors`: the neighbours of a node.
* `Graph.finds`, `Graph.canReach`: the search for one node along the edges.
* `Graph.gather`, `Graph.reaching`: the search for all nodes against the edges.
-/

namespace Tabular

/-- A directed graph. Edges may be repeated. -/
structure Graph (α : Type) where
  nodes : List α
  edges : List (α × α)

namespace Graph

variable {α : Type} [DecidableEq α]

/-- The targets of the edges out of a node. -/
def successors (g : Graph α) (a : α) : List α :=
  (g.edges.filter fun e => e.1 = a).map Prod.snd

/-- The sources of the edges into a node. -/
def predecessors (g : Graph α) (a : α) : List α :=
  (g.edges.filter fun e => e.2 = a).map Prod.fst

/-- Of the edges whose near ends have not been visited, those at a node are followed when it is
visited. -/
theorem length_filter_visit {β : Type} (near : β → α) {a : α} {visited : List α}
    (ha : a ∉ visited) (edges : List β) :
    (edges.filter fun e => near e = a).length + (edges.filter fun e => near e ∉ a :: visited).length
      = (edges.filter fun e => near e ∉ visited).length := by
  induction edges with
  | nil => rfl
  | cons e rest ih =>
    by_cases he : near e = a
    · simp only [List.filter_cons, he, ha, List.mem_cons, true_or, not_true_eq_false, decide_true,
        decide_false, not_false_eq_true, if_true, Bool.false_eq_true, if_false, List.length_cons,
        ← ih]
      omega
    · by_cases hvisited : near e ∈ visited
      · simpa [List.filter_cons, he, hvisited] using ih
      · simp only [List.filter_cons, he, hvisited, List.mem_cons, or_self, not_false_eq_true,
          decide_true, decide_false, Bool.false_eq_true, if_true, if_false, List.length_cons, ← ih]
        omega

/-- Whether a search finds the target. The nodes on the stack are looked at in order, and the
targets of the edges out of a visited node are, as far as they have not been visited, the next
ones. -/
def finds (g : Graph α) (target : α) (visited stack : List α) : Bool :=
  match stack with
  | [] => false
  | a :: rest =>
    if a = target then true
    else if _h : a ∈ visited then g.finds target visited rest
    else
      g.finds target (a :: visited)
        ((g.successors a).filter (fun b => b ∉ a :: visited) ++ rest)
termination_by stack.length + (g.edges.filter fun e => e.1 ∉ visited).length
decreasing_by
  · simp
  · have hvisit := length_filter_visit Prod.fst _h g.edges
    have hfresh := List.length_filter_le (fun b => b ∉ a :: visited) (g.successors a)
    simp only [successors, List.length_map, List.length_append, List.length_cons] at hfresh ⊢
    omega

/-- The nodes that a search has visited in the end. The nodes on the stack are looked at in order,
and the sources of the edges into a visited node are the next ones. -/
def gather (g : Graph α) (visited stack : List α) : List α :=
  match stack with
  | [] => visited
  | a :: rest =>
    if _h : a ∈ visited then g.gather visited rest
    else g.gather (a :: visited) (g.predecessors a ++ rest)
termination_by stack.length + (g.edges.filter fun e => e.2 ∉ visited).length
decreasing_by
  · simp
  · have hvisit := length_filter_visit Prod.snd _h g.edges
    simp only [predecessors, List.length_map, List.length_append, List.length_cons]
    omega

/-- Whether there is a path between two nodes of the graph. -/
def canReach (g : Graph α) (a b : α) : Bool :=
  a ∈ g.nodes && b ∈ g.nodes && g.finds b [] [a]

/-- The nodes from which one of the given nodes is reachable, themselves included. -/
def reaching (g : Graph α) (targets : List α) : List α :=
  g.gather [] targets

/-- Whether there is an edge between two nodes. -/
def hasEdge (g : Graph α) (a b : α) : Bool :=
  (a, b) ∈ g.edges

end Graph

end Tabular
