import Mathlib.Logic.Relation
import Mathlib.Tactic.Common
import Tabular.Cascade.Graph

/-!
# What the searches find

Both searches find exactly the nodes that a path of edges connects with the nodes they start from.
They are sound, since everything on the stack is connected with a start node, and complete, since
the neighbours of a visited node are visited or still on the stack: once the stack is empty, the
visited nodes are closed under the edges.

Both also end after a number of steps that the edges bound, on every graph. The relations
`Graph.FindsIn` and `Graph.GathersIn` say step by step what the searches do, without a bound.

## Main definitions

* `Graph.Leads`: there is a path of edges.
* `Graph.IsClosed`: the edges of the graph lie between its nodes.
* `Graph.FindsIn`, `Graph.GathersIn`: a search ends after a number of steps.

## Main results

* `Graph.finds_iff`, `Graph.mem_gather_iff`: what the searches find.
* `Graph.canReach_iff`, `Graph.mem_reaching_iff`: reachability in both directions.
* `Graph.exists_findsIn`, `Graph.exists_gathersIn`: the searches end.
-/

namespace Tabular

namespace Graph

open Relation (ReflTransGen)

variable {α : Type} {g : Graph α} {a b target : α} {visited stack : List α}

/-- The edges of the graph lie between its nodes. -/
def IsClosed (g : Graph α) : Prop :=
  ∀ edge ∈ g.edges, edge.1 ∈ g.nodes ∧ edge.2 ∈ g.nodes

/-- There is a path of edges. -/
def Leads (g : Graph α) : α → α → Prop :=
  ReflTransGen fun a b => (a, b) ∈ g.edges

/-- A visited node on top of the stack may be dropped: what has been visited or is on the stack
stays so. -/
theorem mem_or_mem_of_visited {rest : List α} (ha : a ∈ visited)
    (h : b ∈ visited ∨ b ∈ a :: rest) : b ∈ visited ∨ b ∈ rest := by
  rcases h with hb | hb
  · exact Or.inl hb
  · rcases List.mem_cons.mp hb with rfl | hb
    · exact Or.inl ha
    · exact Or.inr hb

variable [DecidableEq α]

theorem mem_successors_iff : b ∈ g.successors a ↔ (a, b) ∈ g.edges := by
  simp [successors]

theorem mem_predecessors_iff : a ∈ g.predecessors b ↔ (a, b) ∈ g.edges := by
  simp [predecessors]

/-! ### The search along the edges -/

/-- What is found is reached from the stack. -/
theorem exists_leads_of_finds (h : g.finds target visited stack = true) :
    ∃ a ∈ stack, g.Leads a target := by
  fun_induction finds g target visited stack with
  | case1 => cases h
  | case2 => exact ⟨_, List.mem_cons_self, .refl⟩
  | case3 visited a rest _ _ ih =>
    obtain ⟨b, hb, hpath⟩ := ih h
    exact ⟨b, List.mem_cons_of_mem _ hb, hpath⟩
  | case4 visited a rest _ _ ih =>
    obtain ⟨b, hb, hpath⟩ := ih h
    rcases List.mem_append.mp hb with hb | hb
    · have hedge := mem_successors_iff.mp (List.mem_filter.mp hb).1
      exact ⟨a, List.mem_cons_self, .head hedge hpath⟩
    · exact ⟨b, List.mem_cons_of_mem _ hb, hpath⟩

/-- If the search fails, then the visited nodes and those on the stack lie in a set of nodes without
the target that no edge leaves, provided that this holds of the visited nodes up to the stack. -/
theorem exists_closed_of_finds_eq_false (h : g.finds target visited stack = false)
    (htarget : target ∉ visited)
    (hfollowed : ∀ a b, a ∈ visited → (a, b) ∈ g.edges → b ∈ visited ∨ b ∈ stack) :
    ∃ closed : List α, target ∉ closed ∧ (∀ a ∈ visited, a ∈ closed) ∧ (∀ a ∈ stack, a ∈ closed) ∧
      ∀ a b, a ∈ closed → (a, b) ∈ g.edges → b ∈ closed := by
  fun_induction finds g target visited stack with
  | case1 visited => exact ⟨visited, htarget, fun _ => id, by simp, by simpa using hfollowed⟩
  | case2 => cases h
  | case3 visited a rest _ hvisited ih =>
    obtain ⟨closed, hnot, hsub, hrest, hclosed⟩ := ih h htarget fun x y hx hedge =>
      mem_or_mem_of_visited hvisited (hfollowed x y hx hedge)
    exact ⟨closed, hnot, hsub, List.forall_mem_cons.mpr ⟨hsub a hvisited, hrest⟩, hclosed⟩
  | case4 visited a rest hne _ ih =>
    have htarget' : target ∉ a :: visited := by
      simpa [Ne.symm hne] using htarget
    obtain ⟨closed, hnot, hsub, hstack, hclosed⟩ := ih h htarget' fun x y hx hedge => by
      by_cases hy : y ∈ a :: visited
      · exact Or.inl hy
      · refine Or.inr (List.mem_append.mpr ?_)
        rcases List.mem_cons.mp hx with rfl | hx
        · exact Or.inl (List.mem_filter.mpr ⟨mem_successors_iff.mpr hedge, by simpa using hy⟩)
        · rw [List.mem_cons, not_or] at hy
          have hmem := (hfollowed x y hx hedge).resolve_left hy.2
          exact Or.inr ((List.mem_cons.mp hmem).resolve_left hy.1)
    refine ⟨closed, hnot, fun x hx => hsub x (List.mem_cons_of_mem a hx),
      List.forall_mem_cons.mpr ⟨hsub a List.mem_cons_self, fun x hx => ?_⟩, hclosed⟩
    exact hstack x (List.mem_append_right _ hx)

/-- The search from a stack finds what is reached from there. -/
theorem finds_iff : g.finds target [] stack = true ↔ ∃ a ∈ stack, g.Leads a target := by
  refine ⟨exists_leads_of_finds, ?_⟩
  rintro ⟨a, ha, hpath⟩
  by_contra hfails
  obtain ⟨closed, hnot, -, hstack, hclosed⟩ :=
    exists_closed_of_finds_eq_false (Bool.not_eq_true _ ▸ hfails) (by simp) (by simp)
  have hmem : ∀ x, g.Leads a x → x ∈ closed := by
    intro x hx
    induction hx with
    | refl => exact hstack a ha
    | tail _ hedge ih => exact hclosed _ _ ih hedge
  exact hnot (hmem target hpath)

/-- Whether a graph connects two of its nodes. -/
theorem canReach_iff : g.canReach a b = true ↔ a ∈ g.nodes ∧ b ∈ g.nodes ∧ g.Leads a b := by
  simp [canReach, finds_iff, and_assoc]

/-! ### The search against the edges -/

/-- What is visited has been visited before or reaches the stack. -/
theorem mem_or_exists_leads_of_mem_gather (h : a ∈ g.gather visited stack) :
    a ∈ visited ∨ ∃ b ∈ stack, g.Leads a b := by
  fun_induction gather g visited stack with
  | case1 => exact Or.inl h
  | case2 visited b rest _ ih =>
    refine (ih h).imp_right ?_
    rintro ⟨c, hc, hpath⟩
    exact ⟨c, List.mem_cons_of_mem _ hc, hpath⟩
  | case3 visited b rest _ ih =>
    rcases ih h with ha | ⟨c, hc, hpath⟩
    · rcases List.mem_cons.mp ha with rfl | ha
      · exact Or.inr ⟨a, List.mem_cons_self, .refl⟩
      · exact Or.inl ha
    · refine Or.inr ?_
      rcases List.mem_append.mp hc with hc | hc
      · exact ⟨b, List.mem_cons_self, hpath.tail (mem_predecessors_iff.mp hc)⟩
      · exact ⟨c, List.mem_cons_of_mem _ hc, hpath⟩

/-- The visited nodes and those on the stack are visited in the end, and no edge enters what is
visited then, provided that this holds of the visited nodes up to the stack. -/
theorem gather_closed
    (hfollowed : ∀ a b, b ∈ visited → (a, b) ∈ g.edges → a ∈ visited ∨ a ∈ stack) :
    (∀ a ∈ visited, a ∈ g.gather visited stack) ∧ (∀ a ∈ stack, a ∈ g.gather visited stack) ∧
      ∀ a b, b ∈ g.gather visited stack → (a, b) ∈ g.edges → a ∈ g.gather visited stack := by
  fun_induction gather g visited stack with
  | case1 => exact ⟨fun _ => id, by simp, by simpa using hfollowed⟩
  | case2 visited b rest hvisited ih =>
    obtain ⟨hsub, hrest, hclosed⟩ := ih fun x y hy hedge =>
      mem_or_mem_of_visited hvisited (hfollowed x y hy hedge)
    exact ⟨hsub, List.forall_mem_cons.mpr ⟨hsub b hvisited, hrest⟩, hclosed⟩
  | case3 visited b rest _ ih =>
    obtain ⟨hsub, hstack, hclosed⟩ := ih fun x y hy hedge => by
      rw [List.mem_append]
      rcases List.mem_cons.mp hy with rfl | hy
      · exact Or.inr (Or.inl (mem_predecessors_iff.mpr hedge))
      · have hx := (hfollowed x y hy hedge).imp_left (List.mem_cons_of_mem b)
        exact (mem_or_mem_of_visited List.mem_cons_self hx).imp_right Or.inr
    refine ⟨fun x hx => hsub x (List.mem_cons_of_mem b hx),
      List.forall_mem_cons.mpr ⟨hsub b List.mem_cons_self, fun x hx => ?_⟩, hclosed⟩
    exact hstack x (List.mem_append_right _ hx)

/-- The search visits what reaches the stack. -/
theorem mem_gather_iff : a ∈ g.gather [] stack ↔ ∃ b ∈ stack, g.Leads a b := by
  constructor
  · intro h
    exact (mem_or_exists_leads_of_mem_gather h).resolve_left List.not_mem_nil
  · rintro ⟨b, hb, hpath⟩
    obtain ⟨-, hstack, hclosed⟩ := @gather_closed α g [] stack _ (by simp)
    induction hpath using ReflTransGen.head_induction_on with
    | refl => exact hstack b hb
    | head hedge _ ih => exact hclosed _ _ ih hedge

theorem mem_reaching_iff {targets : List α} :
    a ∈ g.reaching targets ↔ ∃ b ∈ targets, g.Leads a b :=
  mem_gather_iff

/-! ### The searches end -/

/-- The search for a target, with the given nodes visited and on the stack, ends after the given
number of steps with the given answer. -/
inductive FindsIn (g : Graph α) (target : α) : Nat → List α → List α → Bool → Prop
  | exhausted {visited : List α} : FindsIn g target 0 visited [] false
  | found {visited rest : List α} : FindsIn g target 1 visited (target :: rest) true
  | skip {n : Nat} {a : α} {visited rest : List α} {answer : Bool} (hne : a ≠ target)
      (hvisited : a ∈ visited) (next : FindsIn g target n visited rest answer) :
      FindsIn g target (n + 1) visited (a :: rest) answer
  | visit {n : Nat} {a : α} {visited rest : List α} {answer : Bool} (hne : a ≠ target)
      (hfresh : a ∉ visited)
      (next : FindsIn g target n (a :: visited)
        ((g.successors a).filter (fun b => b ∉ a :: visited) ++ rest) answer) :
      FindsIn g target (n + 1) visited (a :: rest) answer

/-- The search against the edges, with the given nodes visited and on the stack, ends after the
given number of steps and has then visited the nodes of the last list. -/
inductive GathersIn (g : Graph α) : Nat → List α → List α → List α → Prop
  | exhausted {visited : List α} : GathersIn g 0 visited [] visited
  | skip {n : Nat} {a : α} {visited rest found : List α} (hvisited : a ∈ visited)
      (next : GathersIn g n visited rest found) : GathersIn g (n + 1) visited (a :: rest) found
  | visit {n : Nat} {a : α} {visited rest found : List α} (hfresh : a ∉ visited)
      (next : GathersIn g n (a :: visited) (g.predecessors a ++ rest) found) :
      GathersIn g (n + 1) visited (a :: rest) found

/-- The search for a target ends. It takes no more steps than there are nodes on the stack and edges
that have not been followed. -/
theorem exists_findsIn (g : Graph α) (target : α) (visited stack : List α) :
    ∃ n ≤ stack.length + (g.edges.filter fun e => e.1 ∉ visited).length,
      g.FindsIn target n visited stack (g.finds target visited stack) := by
  fun_induction finds g target visited stack with
  | case1 => exact ⟨0, Nat.zero_le _, .exhausted⟩
  | case2 => exact ⟨1, by simp only [List.length_cons]; omega, .found⟩
  | case3 visited a rest hne hvisited ih =>
    obtain ⟨n, hn, hends⟩ := ih
    exact ⟨n + 1, by simp only [List.length_cons]; omega, .skip hne hvisited hends⟩
  | case4 visited a rest hne hfresh ih =>
    obtain ⟨n, hn, hends⟩ := ih
    refine ⟨n + 1, ?_, .visit hne hfresh hends⟩
    have hvisit := length_filter_visit Prod.fst hfresh g.edges
    have hnext := List.length_filter_le (fun b => b ∉ a :: visited) (g.successors a)
    simp only [successors, List.length_map, List.length_append, List.length_cons] at hn hnext ⊢
    omega

/-- The search against the edges ends. It takes no more steps than there are nodes on the stack and
edges that have not been followed. -/
theorem exists_gathersIn (g : Graph α) (visited stack : List α) :
    ∃ n ≤ stack.length + (g.edges.filter fun e => e.2 ∉ visited).length,
      g.GathersIn n visited stack (g.gather visited stack) := by
  fun_induction gather g visited stack with
  | case1 => exact ⟨0, Nat.zero_le _, .exhausted⟩
  | case2 visited a rest hvisited ih =>
    obtain ⟨n, hn, hends⟩ := ih
    exact ⟨n + 1, by simp only [List.length_cons]; omega, .skip hvisited hends⟩
  | case3 visited a rest hfresh ih =>
    obtain ⟨n, hn, hends⟩ := ih
    refine ⟨n + 1, ?_, .visit hfresh hends⟩
    have hvisit := length_filter_visit Prod.snd hfresh g.edges
    simp only [predecessors, List.length_map, List.length_append, List.length_cons] at hn ⊢
    omega

end Graph

end Tabular
