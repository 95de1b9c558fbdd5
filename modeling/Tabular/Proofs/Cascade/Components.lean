import Mathlib.Data.List.Nodup
import Mathlib.Logic.Relation
import Mathlib.Tactic.Common
import Tabular.Cascade.Cycles
import Tabular.Proofs.Cascade.Reachability
import Tabular.Proofs.FirstOccurrences

/-!
# Strongly connected groups

The nodes of a graph fall into groups, the classes of nodes that reach each other.
`Graph.FindsGroups` says of a function that it lists these groups, in whatever order. What holds of
the cycles of a cascade rests on this alone.

`Graph.components` is such a function, and it lists a group after those that it leads to. The order
is that in which a traversal leaves the groups. While a node has been entered but not left, all
tasks before the one that leaves it are about nodes that it reaches; so an edge from a node that has
been left to one that has not can only go back to a node that reaches the next one to be left.

## Main definitions

* `Graph.AreGroups`, `Graph.FindsGroups`: lists of the groups, and functions that find them.
* `Graph.IsLeavingOrder`: an order in which a traversal may leave nodes.
* `Graph.Traverses`: what holds throughout a traversal.

## Main results

* `Graph.Traverses.leftNodes`: a traversal leaves every node once, and in such an order.
* `Graph.findsGroups_components`: the groups that are found.
* `Graph.pairwise_components`: no group leads to a later one.
-/

namespace Tabular

namespace Graph

variable {α : Type} {g : Graph α} {a b : α} {group : List α}

/-- The lists are the strongly connected groups of the graph: every node is in one of them, once,
and a group holds the nodes that each of its nodes reaches and is reached from. -/
structure AreGroups (g : Graph α) (groups : List (List α)) : Prop where
  perm : groups.flatten.Perm g.nodes
  ne_nil : ∀ group ∈ groups, group ≠ []
  mem_iff : ∀ group ∈ groups, ∀ a ∈ group, ∀ b,
    b ∈ group ↔ b ∈ g.nodes ∧ g.Leads a b ∧ g.Leads b a

/-- The function lists the strongly connected groups of every graph whose nodes are different and
whose edges lie between them. -/
def FindsGroups (components : Graph α → List (List α)) : Prop :=
  ∀ g : Graph α, g.IsClosed → g.nodes.Nodup → g.AreGroups (components g)

theorem IsClosed.mem_of_leads (hg : g.IsClosed) (ha : a ∈ g.nodes) (h : g.Leads a b) :
    b ∈ g.nodes := by
  induction h with
  | refl => exact ha
  | tail _ hedge _ => exact (hg _ hedge).2

/-! ### Traversals -/

/-- The node that a task is about. -/
def Task.node : Task α → α
  | enter a => a
  | leave a => a

/-- The nodes that have been entered but not left, the last one first. -/
def unleft (tasks : List (Task α)) : List α :=
  tasks.filterMap fun
    | .enter _ => none
    | .leave a => some a

@[simp] theorem unleft_enter (a : α) (rest : List (Task α)) :
    unleft (.enter a :: rest) = unleft rest :=
  rfl

@[simp] theorem unleft_leave (a : α) (rest : List (Task α)) :
    unleft (.leave a :: rest) = a :: unleft rest :=
  rfl

@[simp] theorem unleft_map_enter_append (as : List α) (tasks : List (Task α)) :
    unleft (as.map .enter ++ tasks) = unleft tasks := by
  induction as with
  | nil => rfl
  | cons a rest ih => exact ih

@[simp] theorem unleft_map_enter (as : List α) : unleft (as.map .enter) = [] := by
  rw [← List.append_nil (as.map _), unleft_map_enter_append]
  rfl

theorem leave_mem_of_mem_unleft {tasks : List (Task α)} (h : a ∈ unleft tasks) :
    .leave a ∈ tasks := by
  induction tasks with
  | nil => cases h
  | cons t rest ih =>
    cases t with
    | enter b => exact List.mem_cons_of_mem _ (ih h)
    | leave b =>
      rcases List.mem_cons.mp h with rfl | h
      · exact List.mem_cons_self
      · exact List.mem_cons_of_mem _ (ih h)

/-- Nothing is said about nodes to be entered in a row. -/
theorem pairwise_map_enter (g : Graph α) (as : List α) :
    (as.map Task.enter).Pairwise fun t u => ∀ a, u = .leave a → g.Leads a t.node :=
  List.pairwise_map.mpr (List.pairwise_of_forall fun _ _ => nofun)

variable [DecidableEq α]

/-- The nodes are in an order in which a traversal may leave them, the last one first: an edge from
a node that has been left already, or is being left, leads to a node that has been left or reaches
the one being left. -/
def IsLeavingOrder (g : Graph α) : List α → Prop
  | [] => True
  | a :: left =>
    (∀ x ∈ a :: left, ∀ y ∈ g.successors x, y ∈ left ∨ g.Leads y a) ∧ g.IsLeavingOrder left

theorem IsLeavingOrder.of_append {after left : List α} (h : g.IsLeavingOrder (after ++ left)) :
    g.IsLeavingOrder left := by
  induction after with
  | nil => exact h
  | cons _ _ ih => exact ih h.2

/-- The last node of a group to be left reaches only nodes that are left before. -/
theorem IsLeavingOrder.mem_of_leads {after left : List α}
    (h : g.IsLeavingOrder (after ++ a :: left)) (hall : ∀ x, g.Leads a x → x ∈ after ++ a :: left)
    (hlast : ∀ x ∈ after, g.Leads a x → ¬g.Leads x a) (hpath : g.Leads a b) : b ∈ a :: left := by
  induction hpath with
  | refl => exact List.mem_cons_self
  | @tail x y hx hedge ih =>
    have hy : g.Leads a y := hx.tail hedge
    rcases h.of_append.1 x ih y (mem_successors_iff.mpr hedge) with hleft | hback
    · exact List.mem_cons_of_mem a hleft
    · exact (List.mem_append.mp (hall y hy)).resolve_left fun hafter => hlast y hafter hy hback

/-- The successors of a node that is to be left are among the given nodes or are to be entered
before. -/
def Followed (g : Graph α) : List α → List (Task α) → Prop
  | _, [] => True
  | known, .enter a :: rest => g.Followed (a :: known) rest
  | known, .leave a :: rest => (∀ b ∈ g.successors a, b ∈ known) ∧ g.Followed known rest

theorem Followed.mono {known known' : List α} {tasks : List (Task α)} (h : g.Followed known tasks)
    (hsub : ∀ a ∈ known, a ∈ known') : g.Followed known' tasks := by
  induction tasks generalizing known known' with
  | nil => trivial
  | cons t rest ih =>
    cases t with
    | enter a =>
      refine ih h fun b hb => ?_
      rcases List.mem_cons.mp hb with rfl | hb
      · exact List.mem_cons_self
      · exact List.mem_cons_of_mem a (hsub b hb)
    | leave a => exact ⟨fun b hb => hsub b (h.1 b hb), ih h.2 hsub⟩

theorem followed_map_enter_append {known as : List α} {tasks : List (Task α)} :
    g.Followed known (as.map .enter ++ tasks) ↔ g.Followed (as.reverse ++ known) tasks := by
  induction as generalizing known with
  | nil => rfl
  | cons a rest ih =>
    rw [List.reverse_cons, List.append_assoc]
    exact ih

/-- What holds of a traversal that has entered and left nodes and has tasks to do. -/
structure Traverses (g : Graph α) (entered left : List α) (tasks : List (Task α)) : Prop where
  mem_entered_iff : ∀ a, a ∈ entered ↔ a ∈ unleft tasks ++ left
  nodup : (unleft tasks ++ left).Nodup
  /-- Until a node is left, all tasks are about nodes that it reaches. -/
  leads : tasks.Pairwise fun t u => ∀ a, u = .leave a → g.Leads a t.node
  followed : g.Followed entered tasks
  followed_left : ∀ a ∈ left, ∀ b ∈ g.successors a, b ∈ entered
  order : g.IsLeavingOrder left

namespace Traverses

variable {entered left : List α} {rest : List (Task α)}

theorem start (g : Graph α) : g.Traverses [] [] (g.nodes.map .enter) where
  mem_entered_iff a := by simp
  nodup := by simp
  leads := pairwise_map_enter _ g.nodes
  followed := by
    rw [← List.append_nil (g.nodes.map _), followed_map_enter_append]
    trivial
  followed_left := by simp
  order := trivial

/-- A node is left. -/
theorem leave (h : g.Traverses entered left (.leave a :: rest)) :
    g.Traverses entered (a :: left) rest where
  mem_entered_iff b := by
    rw [h.mem_entered_iff]
    simp [or_left_comm]
  nodup := List.perm_middle.nodup_iff.mpr h.nodup
  leads := (List.pairwise_cons.mp h.leads).2
  followed := h.followed.2
  followed_left := List.forall_mem_cons.mpr ⟨h.followed.1, h.followed_left⟩
  order := by
    refine ⟨fun x hx y hy => ?_, h.order⟩
    have hentered : y ∈ entered :=
      List.forall_mem_cons.mpr ⟨h.followed.1, h.followed_left⟩ x hx y hy
    rcases List.mem_append.mp ((h.mem_entered_iff y).mp hentered) with hopen | hleft
    · rcases List.mem_cons.mp hopen with rfl | hopen
      · exact Or.inr .refl
      · -- the node that is left comes before the node that the edge goes back to
        exact Or.inr ((List.pairwise_cons.mp h.leads).1 _ (leave_mem_of_mem_unleft hopen) y rfl)
    · exact Or.inl hleft

/-- A node that has been entered is passed over. -/
theorem pass (h : g.Traverses entered left (.enter a :: rest)) (ha : a ∈ entered) :
    g.Traverses entered left rest where
  mem_entered_iff := h.mem_entered_iff
  nodup := h.nodup
  leads := (List.pairwise_cons.mp h.leads).2
  followed := Followed.mono h.followed (List.forall_mem_cons.mpr ⟨ha, fun _ => id⟩)
  followed_left := h.followed_left
  order := h.order

/-- A node is entered, and then its successors are to be entered before it is left. -/
theorem enter (h : g.Traverses entered left (.enter a :: rest)) (ha : a ∉ entered) :
    g.Traverses (a :: entered) left
      ((g.successors a).reverse.map .enter ++ .leave a :: rest) where
  mem_entered_iff b := by
    rw [List.mem_cons, h.mem_entered_iff, unleft_map_enter_append, unleft_leave, unleft_enter,
      List.cons_append, List.mem_cons]
  nodup := by
    rw [h.mem_entered_iff] at ha
    rw [unleft_map_enter_append]
    exact List.nodup_cons.mpr ⟨ha, h.nodup⟩
  leads := by
    obtain ⟨hfirst, hrest⟩ := List.pairwise_cons.mp h.leads
    refine List.pairwise_append.mpr ⟨pairwise_map_enter g _, ?_, ?_⟩
    · exact List.pairwise_cons.mpr ⟨hfirst, hrest⟩
    · intro t ht u hu c hc
      obtain ⟨b, hb, rfl⟩ := List.mem_map.mp ht
      have hedge : (a, b) ∈ g.edges := mem_successors_iff.mp (List.mem_reverse.mp hb)
      rcases List.mem_cons.mp hu with rfl | hu
      · cases hc
        exact .single hedge
      · exact (hfirst u hu c hc).tail hedge
  followed := by
    refine followed_map_enter_append.mpr ⟨fun b hb => ?_, Followed.mono h.followed fun b hb => ?_⟩
    · simpa using Or.inl hb
    · exact List.mem_append_right _ hb
  followed_left b hb c hc := List.mem_cons_of_mem a (h.followed_left b hb c hc)
  order := h.order

/-- A traversal comes to an end. It has then entered and left every node it was to enter. -/
theorem leftNodes {tasks : List (Task α)} (h : g.Traverses entered left tasks) :
    ∃ entered', g.Traverses entered' (g.leftNodes entered left tasks) [] ∧
      (∀ a ∈ entered, a ∈ entered') ∧ ∀ t ∈ tasks, t.node ∈ entered' := by
  fun_induction Graph.leftNodes g entered left tasks with
  | case1 entered left => exact ⟨entered, h, fun _ => id, by simp⟩
  | case2 entered left a rest ih =>
    obtain ⟨entered', hend, hsub, hrest⟩ := ih h.leave
    have ha : a ∈ entered := (h.mem_entered_iff a).mpr (by simp)
    exact ⟨entered', hend, hsub, List.forall_mem_cons.mpr ⟨hsub a ha, hrest⟩⟩
  | case3 entered left a rest ha ih =>
    obtain ⟨entered', hend, hsub, hrest⟩ := ih (h.pass ha)
    exact ⟨entered', hend, hsub, List.forall_mem_cons.mpr ⟨hsub a ha, hrest⟩⟩
  | case4 entered left a rest ha ih =>
    obtain ⟨entered', hend, hsub, htasks⟩ := ih (h.enter ha)
    refine ⟨entered', hend, fun b hb => hsub b (List.mem_cons_of_mem a hb),
      List.forall_mem_cons.mpr ⟨hsub a List.mem_cons_self, fun t ht => htasks t ?_⟩⟩
    exact List.mem_append_right _ (List.mem_cons_of_mem _ ht)

end Traverses

/-- A traversal stays among the nodes of the graph. -/
theorem mem_nodes_of_mem_leftNodes (hg : g.IsClosed) {entered left : List α}
    {tasks : List (Task α)} (hleft : ∀ a ∈ left, a ∈ g.nodes)
    (htasks : ∀ t ∈ tasks, t.node ∈ g.nodes) (h : a ∈ g.leftNodes entered left tasks) :
    a ∈ g.nodes := by
  fun_induction Graph.leftNodes g entered left tasks with
  | case1 => exact hleft a h
  | case2 entered left b rest ih =>
    obtain ⟨hb, hrest⟩ := List.forall_mem_cons.mp htasks
    exact ih (List.forall_mem_cons.mpr ⟨hb, hleft⟩) hrest h
  | case3 entered left b rest _ ih => exact ih hleft (List.forall_mem_cons.mp htasks).2 h
  | case4 entered left b rest _ ih =>
    obtain ⟨hb, hrest⟩ := List.forall_mem_cons.mp htasks
    refine ih hleft (List.forall_mem_append.mpr ⟨fun t ht => ?_, ?_⟩) h
    · obtain ⟨c, hc, rfl⟩ := List.mem_map.mp ht
      exact (hg _ (mem_successors_iff.mp (List.mem_reverse.mp hc))).2
    · exact List.forall_mem_cons.mpr ⟨hb, hrest⟩

/-- The nodes in the order in which a traversal of the whole graph leaves them. -/
theorem leftNodes_nodes (hg : g.IsClosed) :
    (g.leftNodes [] [] (g.nodes.map .enter)).Nodup ∧
      g.IsLeavingOrder (g.leftNodes [] [] (g.nodes.map .enter)) ∧
      ∀ a, a ∈ g.leftNodes [] [] (g.nodes.map .enter) ↔ a ∈ g.nodes := by
  obtain ⟨entered, hend, -, htasks⟩ := (Traverses.start g).leftNodes
  refine ⟨hend.nodup, hend.order, fun a => ⟨?_, fun ha => ?_⟩⟩
  · refine mem_nodes_of_mem_leftNodes hg (by simp) fun t ht => ?_
    obtain ⟨b, hb, rfl⟩ := List.mem_map.mp ht
    exact hb
  · exact (hend.mem_entered_iff a).mp (htasks (.enter a) (List.mem_map_of_mem ha))

/-! ### The groups of nodes -/

theorem mem_groupOf_iff (ha : a ∈ g.nodes) :
    b ∈ g.groupOf a ↔ b ∈ g.nodes ∧ g.Leads a b ∧ g.Leads b a := by
  simp only [groupOf, List.mem_filter, Bool.and_eq_true, decide_eq_true_eq, mem_reaching_iff,
    canReach_iff, List.mem_singleton, exists_eq_left]
  tauto

theorem self_mem_groupOf (ha : a ∈ g.nodes) : a ∈ g.groupOf a :=
  (mem_groupOf_iff ha).mpr ⟨ha, .refl, .refl⟩

/-- Nodes of one group have the same group. -/
theorem groupOf_eq_of_mem (ha : a ∈ g.nodes) (hb : b ∈ g.groupOf a) :
    g.groupOf b = g.groupOf a := by
  obtain ⟨hnode, hab, hba⟩ := (mem_groupOf_iff ha).mp hb
  refine List.filter_congr fun c hc => ?_
  rw [Bool.eq_iff_iff]
  simp only [Bool.and_eq_true, decide_eq_true_eq, mem_reaching_iff, canReach_iff,
    List.mem_singleton, exists_eq_left, ha, hnode, hc, true_and]
  exact ⟨fun h => ⟨h.1.trans hba, hab.trans h.2⟩, fun h => ⟨h.1.trans hab, hba.trans h.2⟩⟩

theorem mem_components_iff (hg : g.IsClosed) :
    group ∈ g.components ↔ ∃ a ∈ g.nodes, g.groupOf a = group := by
  simp [components, (leftNodes_nodes hg).2.2]

/-- A group is the group of each of its nodes. -/
theorem eq_groupOf_of_mem (hg : g.IsClosed) (hgroup : group ∈ g.components) (ha : a ∈ group) :
    a ∈ g.nodes ∧ g.groupOf a = group := by
  obtain ⟨b, hb, rfl⟩ := (mem_components_iff hg).mp hgroup
  exact ⟨((mem_groupOf_iff hb).mp ha).1, groupOf_eq_of_mem hb ha⟩

theorem nodup_flatten_components (hg : g.IsClosed) (hnodup : g.nodes.Nodup) :
    g.components.flatten.Nodup := by
  refine List.nodup_flatten.mpr ⟨fun group hgroup => ?_, ?_⟩
  · obtain ⟨a, -, rfl⟩ := (mem_components_iff hg).mp hgroup
    exact hnodup.filter _
  · have hdistinct : g.components.Nodup := List.nodup_reverse.mpr (nodup_eraseDups _)
    refine hdistinct.imp_of_mem fun {group other} hgroup hother hne a ha hb => hne ?_
    rw [← (eq_groupOf_of_mem hg hgroup ha).2, (eq_groupOf_of_mem hg hother hb).2]

/-- The groups that are found are those of the graph. -/
theorem findsGroups_components : FindsGroups (α := α) components := by
  intro g hg hnodup
  have hgroups (group) (hgroup : group ∈ g.components) (a) (ha : a ∈ group) (b) :
      b ∈ group ↔ b ∈ g.nodes ∧ g.Leads a b ∧ g.Leads b a := by
    obtain ⟨hnode, rfl⟩ := eq_groupOf_of_mem hg hgroup ha
    exact mem_groupOf_iff hnode
  refine ⟨?_, fun group hgroup => ?_, hgroups⟩
  · refine (List.perm_ext_iff_of_nodup (nodup_flatten_components hg hnodup) hnodup).mpr fun a => ?_
    rw [List.mem_flatten]
    constructor
    · rintro ⟨group, hgroup, ha⟩
      exact (eq_groupOf_of_mem hg hgroup ha).1
    · intro ha
      exact ⟨g.groupOf a, (mem_components_iff hg).mpr ⟨a, ha, rfl⟩, self_mem_groupOf ha⟩
  · obtain ⟨a, ha, rfl⟩ := (mem_components_iff hg).mp hgroup
    exact List.ne_nil_of_mem (self_mem_groupOf ha)

/-- No group leads to a later one. -/
theorem pairwise_components (hg : g.IsClosed) :
    g.components.Pairwise fun group other => ∀ a ∈ group, ∀ b ∈ other, ¬g.Leads a b := by
  obtain ⟨hnodup, horder, hmem⟩ := leftNodes_nodes hg
  rw [components, List.pairwise_reverse]
  refine (pairwise_idxOf_eraseDups _).imp_of_mem fun {other group} _ hgroup hlt x hx y hy hxy => ?_
  -- the group at its last node to be left, and the other one at a node that is left even later
  obtain ⟨earlier, later, hsplit, hfirst⟩ :=
    List.eq_append_cons_of_mem (List.mem_eraseDups.mp hgroup)
  obtain ⟨after, rest, hleft, rfl, hrest⟩ := List.map_eq_append_iff.mp hsplit
  obtain ⟨a, left, rfl, rfl, -⟩ := List.map_eq_cons_iff.mp hrest
  rw [hleft] at hnodup horder hmem hlt
  obtain ⟨b, hb, rfl⟩ : ∃ b ∈ after, g.groupOf b = other := by
    by_contra hnone
    rw [List.map_append, List.idxOf_append_of_notMem (by simpa using hnone),
      List.idxOf_append_of_notMem hfirst, List.map_cons, List.idxOf_cons_self] at hlt
    omega
  have ha : a ∈ g.nodes := (hmem a).mp (by simp)
  have hb' : b ∈ g.nodes := (hmem b).mp (by simp [hb])
  have hab : g.Leads a b := by
    obtain ⟨-, hax, -⟩ := (mem_groupOf_iff ha).mp hx
    obtain ⟨-, -, hyb⟩ := (mem_groupOf_iff hb').mp hy
    exact (hax.trans hxy).trans hyb
  have hbefore : b ∈ a :: left := by
    refine horder.mem_of_leads (fun c hc => (hmem c).mpr (hg.mem_of_leads ha hc))
      (fun c hc hac hca => hfirst (List.mem_map.mpr ⟨c, hc, ?_⟩)) hab
    exact groupOf_eq_of_mem ha
      ((mem_groupOf_iff ha).mpr ⟨(hmem c).mp (List.mem_append_left _ hc), hac, hca⟩)
  exact (List.nodup_append.mp hnodup).2.2 b hb b hbefore rfl

end Graph

end Tabular
