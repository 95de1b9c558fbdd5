import Mathlib.Tactic.Common
import Tabular.Proofs.Derive.AlikeStrategies
import Tabular.Proofs.Derive.MergeScopes
import Tabular.Proofs.Strategy.FlatRecord

/-!
# What a skip layer skips

A skip layer lists paths of property names. On the way down it is seen from each property that is
passed, keeps the paths that lead through it, and is dropped when there are none; flags come and go
above it, and a new table takes away what is around it. This file says which properties have no
columns after any such sequence of operations: those at the end of a listed path that no other
listed path continues.

## Main definitions

* `Strategy.Operation.keepsSkips`, `Strategy.Operation.appendedNames`: operations that leave skip
  layers alone or look at them from a property, and the names of the properties that are passed.
* `Strategy.IsMaximal`: a listed path that no other listed path continues.
* `Strategy.SkipsBeyond`: the paths in force are what remains of listed paths beyond given names.

## Main results

* `Strategy.SkipsBeyond.append`, `Strategy.SkipsBeyond.run`: what remains after one property, and
  after a sequence of operations.
* `Strategy.SkipsBeyond.buildsColumns_eq_false_iff`: a property has no columns if it ends a maximal
  path.
* `Strategy.buildsColumns_run_skipPaths_iff`: the same after a sequence of operations.
-/

namespace Tabular

namespace Strategy

/-- Whether the operation neither adds a skip layer nor drops one because of what comes on top. -/
def Operation.keepsSkips : Operation → Bool
  | ignoreRoleName | skipPaths _ => false
  | append _ | leafNullable | suppressKeys | undoLeafNullable | undoSuppressKeys | forNewTable =>
    true

/-- The full name of the property that the operation appends. -/
def Operation.appendedName? : Operation → Option String
  | append p => some p.fullName
  | _ => none

/-- The full names of the properties that the operations append, in order. -/
def Operation.appendedNames (ops : List Operation) : List String :=
  ops.filterMap appendedName?

/-- The path is listed, and no listed path extends it strictly. -/
def IsMaximal (paths : List (List String)) (path : List String) : Prop :=
  path ∈ paths ∧ ¬∃ other ∈ paths, path <+: other ∧ other ≠ path

instance (paths : List (List String)) (path : List String) : Decidable (IsMaximal paths path) :=
  inferInstanceAs (Decidable (_ ∧ _))

/-- The paths in force are what remains of the given paths beyond the given names: as one skip
layer, or as none if no path leads that far. -/
def SkipsBeyond (s : Strategy) (paths : List (List String)) (names : List String) : Prop :=
  s.skips = [MergeScope.remaining ⟨paths, names⟩] ∨
    s.skips = [] ∧ ∀ path ∈ paths, ¬names <+: path

variable {s : Strategy} {paths : List (List String)} {names : List String}

/-! ### One operation -/

theorem skipsBeyond_skipPaths (hs : s.skips = []) (paths : List (List String)) :
    (s.skipPaths paths).SkipsBeyond paths [] := by
  have hskips : (s.skipPaths paths).skips = paths :: s.skips := by
    rw [skipPaths, dropLeadingSkip_of_skips_eq_nil hs]
    rfl
  refine Or.inl ?_
  rw [hskips, hs, MergeScope.remaining_of_seen_nil]

/-- Beyond a property the paths through it remain. -/
theorem SkipsBeyond.append (h : s.SkipsBeyond paths names) (p : Property) :
    (s.append p).SkipsBeyond paths (names ++ [p.fullName]) := by
  rcases h with hskips | ⟨hskips, hnone⟩
  · have hreroot := MergeScope.rerootPaths_remaining p.fullName [⟨paths, names⟩]
    rw [List.map_singleton, ← hskips, ← skips_append, MergeScope.note] at hreroot
    split_ifs at hreroot with hthrough
    · exact Or.inl hreroot
    · refine Or.inr ⟨hreroot, ?_⟩
      simpa [MergeScope.leadsThrough] using hthrough
  · refine Or.inr ⟨skips_append_of_eq_nil hskips p, fun path hpath hprefix => ?_⟩
    exact hnone path hpath ((List.prefix_append names _).trans hprefix)

/-- Operations that append nothing and concern no skip layer leave the paths in force. -/
theorem skips_apply_of_appendedName?_eq_none {op : Operation} (hop : op.keepsSkips = true)
    (hname : op.appendedName? = none) : (s.apply op).skips = s.skips := by
  cases op with
  | append p => simp [Operation.appendedName?] at hname
  | ignoreRoleName | skipPaths paths => simp [Operation.keepsSkips] at hop
  | leafNullable | suppressKeys => rfl
  | undoLeafNullable => exact filterMap_filter_of_forall (by simp [Layer.skip?])
  | undoSuppressKeys => exact filterMap_filter_of_forall (by simp [Layer.skip?])
  | forNewTable =>
    calc s.forNewTable.skips = s.undoLeafNullable.undoSuppressKeys.skips :=
          filterMap_filter_of_forall fun l hl => by
            cases l <;> simp_all [Layer.skip?, Layer.context?]
      _ = s.undoLeafNullable.skips := filterMap_filter_of_forall (by simp [Layer.skip?])
      _ = s.skips := filterMap_filter_of_forall (by simp [Layer.skip?])

theorem SkipsBeyond.apply (h : s.SkipsBeyond paths names) {op : Operation}
    (hop : op.keepsSkips = true) :
    (s.apply op).SkipsBeyond paths (names ++ op.appendedName?.toList) := by
  cases hname : op.appendedName? with
  | none =>
    rw [Option.toList_none, List.append_nil, SkipsBeyond,
      skips_apply_of_appendedName?_eq_none hop hname]
    exact h
  | some name =>
    cases op with
    | append p =>
      obtain rfl : p.fullName = name := by simpa [Operation.appendedName?] using hname
      exact h.append p
    | ignoreRoleName | skipPaths | leafNullable | suppressKeys | undoLeafNullable
      | undoSuppressKeys | forNewTable => simp [Operation.appendedName?] at hname

/-! ### Sequences of operations -/

/-- After a sequence of operations the paths beyond all properties passed remain. -/
theorem SkipsBeyond.run (h : s.SkipsBeyond paths names) {ops : List Operation}
    (hops : ∀ op ∈ ops, op.keepsSkips = true) :
    (s.run ops).SkipsBeyond paths (names ++ Operation.appendedNames ops) := by
  induction ops generalizing s names with
  | nil =>
    rw [Operation.appendedNames, List.filterMap_nil, List.append_nil]
    exact h
  | cons op rest ih =>
    rw [List.forall_mem_cons] at hops
    have hrest := ih (h.apply hops.1) hops.2
    have hnames : Operation.appendedNames (op :: rest) =
        op.appendedName?.toList ++ Operation.appendedNames rest := by
      cases hname : op.appendedName? <;> simp [Operation.appendedNames, hname]
    rw [hnames, ← List.append_assoc]
    exact hrest

/-- A path of a scope ends at a property and none leads beyond it if the path to the property is
maximal. -/
theorem endsAt_iff_isMaximal (paths : List (List String)) (names : List String) (name : String) :
    MergeScope.endsAt ⟨paths, names⟩ name = true ↔ IsMaximal paths (names ++ [name]) := by
  simp only [MergeScope.endsAt, MergeScope.leadsThrough, IsMaximal, Bool.and_eq_true,
    List.any_eq_true, List.all_eq_true, Bool.or_eq_true, Bool.not_eq_true', decide_eq_true_eq,
    decide_eq_false_iff_not, ← imp_iff_not_or, not_exists, not_and, not_not]
  constructor
  · rintro ⟨⟨path, hpath, hprefix⟩, hends⟩
    exact ⟨hends path hpath hprefix ▸ hpath, hends⟩
  · rintro ⟨hmem, hends⟩
    exact ⟨⟨_, hmem, List.prefix_rfl⟩, hends⟩

/-- A property has no columns if the way to it is a maximal path. -/
theorem SkipsBeyond.buildsColumns_eq_false_iff (h : s.SkipsBeyond paths names) (q : Property) :
    s.buildsColumns q = false ↔ IsMaximal paths (names ++ [q.fullName]) := by
  rcases h with hskips | ⟨hskips, hnone⟩
  · have hpaths : s.skippedPaths? = some (MergeScope.remaining ⟨paths, names⟩) := by
      rw [skippedPaths?_eq, hskips]
      rfl
    have hbuilds : s.buildsColumns q = !MergeScope.endsAt ⟨paths, names⟩ q.fullName := by
      rw [← MergeScope.through_remaining, buildsColumns, hpaths]
    rw [hbuilds, Bool.not_eq_false', endsAt_iff_isMaximal]
  · rw [buildsColumns_of_skips_eq_nil hskips]
    refine iff_of_false Bool.noConfusion ?_
    rintro ⟨hmem, -⟩
    exact hnone _ hmem (List.prefix_append names _)

/-- A skip layer skips exactly the maximal listed paths. If the strategy has no skip layer before
it, then after any operations that neither add one nor ignore roles, a property has no columns
if and only if the names of the properties passed, followed by its own, are a listed path that no
listed path extends strictly. -/
theorem buildsColumns_run_skipPaths_iff (hs : ∀ paths, Layer.skip paths ∉ s.layers)
    (paths : List (List String)) {ops : List Operation}
    (hops : ∀ op ∈ ops, op.keepsSkips = true) (q : Property) :
    ((s.skipPaths paths).run ops).buildsColumns q = false ↔
      IsMaximal paths (Operation.appendedNames ops ++ [q.fullName]) := by
  have hskips : s.skips = [] := by
    refine skips_eq_nil_iff.mpr fun l hl => ?_
    cases l with
    | skip paths => exact absurd hl (hs paths)
    | context | ignoreRoleName | leafNullable | suppressKeys => rfl
  exact ((skipsBeyond_skipPaths hskips paths).run hops).buildsColumns_eq_false_iff q

/-! ### A path through two references

Sections lead to the school through their course offering and its session. Both the session and the
school behind it are listed, so that the school is skipped and the session is not.
-/

namespace Sections

def reference (name : String) : Property :=
  .ofKind name .domainEntity

def merged : List (List String) :=
  [["CourseOffering", "Session"], ["CourseOffering", "Session", "School"]]

/-- The operations down to the session. -/
def operations : List Operation :=
  [.append (reference "CourseOffering"), .leafNullable, .append (reference "Session"),
    .undoLeafNullable, .forNewTable]

end Sections

/-- The session has columns, and its school is skipped. -/
theorem buildsColumns_run_skipPaths_iff_sections :
    (∀ paths, Layer.skip paths ∉ root.suppressKeys.layers) ∧
      (∀ op ∈ Sections.operations, op.keepsSkips = true) ∧
      ((root.suppressKeys.skipPaths Sections.merged).run (Sections.operations.take 1)).buildsColumns
        (Sections.reference "Session") = true ∧
      ((root.suppressKeys.skipPaths Sections.merged).run Sections.operations).buildsColumns
        (Sections.reference "School") = false := by
  have hroot : ∀ paths, Layer.skip paths ∉ root.suppressKeys.layers := by
    simp [root, suppressKeys, push]
  have hops : ∀ op ∈ Sections.operations, op.keepsSkips = true := by
    simp [Sections.operations, Operation.keepsSkips]
  have hsession := buildsColumns_run_skipPaths_iff hroot Sections.merged
    (fun op hop => hops op (List.mem_of_mem_take (i := 1) hop)) (Sections.reference "Session")
  have hschool := buildsColumns_run_skipPaths_iff hroot Sections.merged hops
    (Sections.reference "School")
  exact ⟨hroot, hops, Bool.of_not_eq_false (mt hsession.mp (by decide)), hschool.mpr (by decide)⟩

end Strategy

end Tabular
