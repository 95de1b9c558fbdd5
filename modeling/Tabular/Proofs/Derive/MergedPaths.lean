import Mathlib.Tactic.Common
import Tabular.Proofs.Derive.Descents
import Tabular.Proofs.Derive.MergeScopes

/-!
# Merged paths

A merge directive of a reference says that a path, which starts at the reference, is merged with
another one. The columns at the end of the path should then be missing from the columns of every
property from which the reference is met. This file says when they are.

A path takes effect at its last property, if that is not the reference itself: the reference has
been let in by the time its directives are read. Between the two there must be no further scope and
no property that scopes do not note, and no longer path of the same reference may lead beyond the
end. A directive whose path is the reference alone never leaves anything out.

## Main definitions

* `Model.MergesPath`: the merged paths met from a property.
* `Model.LeavesOutMerged`: no column lies on or beyond a merged path.
* `IsHeeded`: a merge directive takes effect on a chain.

## Main results

* `MergeScope.keeps_eq_false_of_isHeeded`: chains on which a directive takes effect are left out.
* `MergeScope.keeps_of_length_le_one`: paths of a single property leave out nothing.
* `leavesOutMerged_iff`: when no column lies on or beyond a merged path.
-/

namespace Tabular

/-! ### Merged paths met from a property -/

/-- Full names of properties are not empty and contain no dot. -/
def Model.HasPlainNames (m : Model) : Prop :=
  ∀ e ∈ m.entities, ∀ p ∈ e.properties, p.fullName ≠ "" ∧ '.' ∉ p.fullName.toList

instance (m : Model) : Decidable m.HasPlainNames :=
  inferInstanceAs (Decidable
    (∀ e ∈ m.entities, ∀ p ∈ e.properties, p.fullName ≠ "" ∧ '.' ∉ p.fullName.toList))

/-- The names lead from the property to a reference, the property itself or one met on a descent
from it, and on along the source path of a merge directive of the reference. -/
def Model.MergesPath (m : Model) (d : Declaration) (names : List String) : Prop :=
  ∃ before r, m.Descends (.columns d) before (.columns r) ∧
    r.property.kind.columnRule = .reference ∧
    ∃ path ∈ r.property.mergedPaths, path.head? = some r.property.fullName ∧
      names = before.map Hop.name ++ path

/-- No column of the property lies on or beyond a merged path. -/
def Model.LeavesOutMerged (m : Model) (d : Declaration) (cs : List Column) : Prop :=
  ∀ names, m.MergesPath d names → ∀ c ∈ cs, ¬names <+: Text.segments c.propertyPath

/-- A merge directive takes effect on the chain: its source path leads from a reference to a later
property of the chain, which is not an inline common whose key is collected. The properties in
between open no scope and are noted, and no other path of the reference leads further. -/
def IsHeeded (ch : List Hop) : Prop :=
  ∃ before r mid k after path, ch = before ++ .column r :: (mid ++ .column k :: after) ∧
    r.property.kind.columnRule = .reference ∧
    path = r.property.fullName :: (mid.map Hop.name ++ [k.property.fullName]) ∧
    path ∈ r.property.mergedPaths ∧ (∀ longer ∈ r.property.mergedPaths, path <+: longer →
      longer = path) ∧
    ∀ h ∈ mid, h.scopePaths = [] ∧ h.isNoted = true

/-! ### Directives that take effect -/

namespace MergeScope

theorem keeps_append (scopes : List MergeScope) (ch ch' : List Hop) :
    keeps scopes (ch ++ ch') = (keeps scopes ch && keeps (ch.foldl enter scopes) ch') := by
  induction ch generalizing scopes with
  | nil => rfl
  | cons h rest ih => simp only [List.cons_append, keeps, List.foldl_cons, ih, Bool.and_assoc]

/-- The innermost scope leads on if one of its paths does. -/
theorem leadsThrough_of_mem {scope : MergeScope} {path rest : List String} {name : String}
    (hpath : path ∈ scope.paths) (heq : path = scope.seen ++ name :: rest) :
    scope.leadsThrough name = true := by
  refine List.any_eq_true.mpr ⟨path, hpath, decide_eq_true ⟨rest, ?_⟩⟩
  simp [heq]

/-- A path of the innermost scope takes effect where it ends, if no scope is opened on the way, all
properties are noted, and no path leads further. -/
theorem keeps_eq_false_of_mem_paths {scope : MergeScope} {outer : List MergeScope}
    {mid after : List Hop} {k : Declaration} {path : List String} (hpath : path ∈ scope.paths)
    (heq : path = scope.seen ++ (mid.map Hop.name ++ [k.property.fullName]))
    (hlongest : ∀ longer ∈ scope.paths, path <+: longer → longer = path)
    (hmid : ∀ h ∈ mid, h.scopePaths = [] ∧ h.isNoted = true) :
    keeps (scope :: outer) (mid ++ .column k :: after) = false := by
  induction mid generalizing scope with
  | nil =>
    have hends : scope.endsAt k.property.fullName = true := by
      have hall : ∀ longer ∈ scope.paths,
          scope.seen ++ [k.property.fullName] <+: longer →
            longer = scope.seen ++ [k.property.fullName] := by
        intro longer hmem hleads
        exact (hlongest longer hmem (heq ▸ hleads)).trans heq
      rw [endsAt, leadsThrough_of_mem hpath heq, Bool.true_and, List.all_eq_true]
      intro longer hmem
      by_cases hleads : scope.seen ++ [k.property.fullName] <+: longer
      · simp [hall longer hmem hleads]
      · simp [hleads]
    simp [keeps, spares, Hop.name, Hop.declaration, hends]
  | cons h mid ih =>
    rw [List.forall_mem_cons] at hmid
    obtain ⟨⟨hopens, hnoted⟩, hmid⟩ := hmid
    have hthrough : scope.leadsThrough h.name = true := leadsThrough_of_mem hpath heq
    have henter : enter (scope :: outer) h =
        { scope with seen := scope.seen ++ [h.name] } :: outer := by
      simp [enter, hopens, hnoted, note, hthrough]
    have hrest : keeps (enter (scope :: outer) h) (mid ++ .column k :: after) = false := by
      rw [henter]
      exact ih hpath (by simp [heq]) hlongest hmid
    rw [List.cons_append, keeps, hrest, Bool.and_false]

/-- A reference with a path that starts at it opens a scope. -/
theorem enter_reference {r : Declaration} (hrule : r.property.kind.columnRule = .reference)
    {path rest : List String} (hpath : path ∈ r.property.mergedPaths)
    (heq : path = r.property.fullName :: rest) (scopes : List MergeScope) :
    enter scopes (.column r) = ⟨r.property.mergedPaths, [r.property.fullName]⟩ :: scopes := by
  have hscope : (Hop.column r).scopePaths = r.property.mergedPaths := if_pos hrule
  have hnoted : (Hop.column r).isNoted = true := by
    cases hkind : r.property.kind <;> simp_all [PropertyKind.columnRule, Hop.isNoted]
  have hne : r.property.mergedPaths.isEmpty = false := by
    rw [List.isEmpty_eq_false_iff]
    exact List.ne_nil_of_mem hpath
  have hthrough : leadsThrough ⟨r.property.mergedPaths, []⟩ r.property.fullName = true :=
    leadsThrough_of_mem hpath heq
  simp [enter, hscope, hnoted, hne, note, Hop.name, Hop.declaration, hthrough]

/-- A chain on which a merge directive takes effect is left out. -/
theorem keeps_eq_false_of_isHeeded {ch : List Hop} (h : IsHeeded ch) (scopes : List MergeScope) :
    keeps scopes ch = false := by
  obtain ⟨before, r, mid, k, after, path, rfl, hrule, heq, hpath, hlongest, hmid⟩ := h
  have htail : keeps ((before ++ [Hop.column r]).foldl enter scopes) (mid ++ .column k :: after) =
      false := by
    rw [List.foldl_append, List.foldl_cons, List.foldl_nil, enter_reference hrule hpath heq]
    exact keeps_eq_false_of_mem_paths hpath heq hlongest hmid
  rw [← List.singleton_append, ← List.append_assoc, keeps_append, htail, Bool.and_false]

/-! ### Directives that never take effect -/

/-- All paths of the scope have been passed. -/
def IsSpent (scope : MergeScope) : Prop :=
  ∀ path ∈ scope.paths, path.length ≤ scope.seen.length

theorem IsSpent.leadsThrough_eq_false {scope : MergeScope} (h : scope.IsSpent) (name : String) :
    scope.leadsThrough name = false := by
  refine List.any_eq_false.mpr fun path hpath => ?_
  have hshort := h path hpath
  intro hleads
  have hlength := (of_decide_eq_true hleads).length_le
  rw [List.length_append, List.length_singleton] at hlength
  omega

theorem spares_of_isSpent {scopes : List MergeScope} (h : ∀ scope ∈ scopes, scope.IsSpent)
    (hop : Hop) : spares scopes hop = true := by
  cases hop with
  | inlined d => rfl
  | column d =>
    cases scopes with
    | nil => rfl
    | cons scope outer =>
      have hthrough := (h scope List.mem_cons_self).leadsThrough_eq_false (Hop.column d).name
      simp [spares, endsAt, hthrough]

theorem isSpent_enter {scopes : List MergeScope} (h : ∀ scope ∈ scopes, scope.IsSpent) {hop : Hop}
    (hhop : ∀ path ∈ hop.scopePaths, path.length ≤ 1) :
    ∀ scope ∈ enter scopes hop, scope.IsSpent := by
  have hnote : ∀ scope ∈ note hop.name scopes, scope.IsSpent := by
    cases scopes with
    | nil => exact h
    | cons scope outer =>
      rw [note, (h scope List.mem_cons_self).leadsThrough_eq_false, if_neg Bool.false_ne_true]
      exact fun scope' hscope' => h scope' (List.mem_cons_of_mem scope hscope')
  intro scope hscope
  rw [enter] at hscope
  split_ifs at hscope with hnoted hempty
  · exact hnote scope hscope
  · rw [note] at hscope
    split_ifs at hscope
    · rcases List.mem_cons.mp hscope with rfl | hscope
      · exact hhop
      · exact h scope hscope
    · exact h scope hscope
  · exact h scope hscope

/-- Directives whose source path is the reference alone leave out nothing. -/
theorem keeps_of_length_le_one {scopes : List MergeScope} (h : ∀ scope ∈ scopes, scope.IsSpent)
    {ch : List Hop} (hch : ∀ hop ∈ ch, ∀ path ∈ hop.scopePaths, path.length ≤ 1) :
    keeps scopes ch = true := by
  induction ch generalizing scopes with
  | nil => rfl
  | cons hop rest ih =>
    rw [List.forall_mem_cons] at hch
    rw [keeps, spares_of_isSpent h, Bool.true_and]
    exact ih (isSpent_enter h hch.1) hch.2

end MergeScope

/-! ### The columns on merged paths -/

variable {m : Model} {d : Declaration} {cs : List Column}

/-- In a model with plain names the path of a column consists of the names of its chain. -/
theorem Model.HasPlainNames.segments_propertyPath (hnames : m.HasPlainNames) (hd : m.Declares d)
    {ch : List Hop} (hch : m.Chain (.columns d) ch) {c : Column}
    (hc : Strategy.root.columnOf? ch = some c) :
    Text.segments c.propertyPath = ch.map Hop.name := by
  refine Strategy.segments_propertyPath_of_columnOf? hc fun hop hhop => ?_
  have hdeclared := hch.declares hd hop hhop
  exact hnames _ hdeclared.1 _ (Entity.property_mem_of_mem_declarations hdeclared.2)

/-- No column lies on or beyond a merged path exactly if scopes keep no chain along such a path. That
is the case if a directive takes effect on every chain along a merged path. If, on the other hand,
the paths of all directives are single properties, then every chain has its column. -/
theorem leavesOutMerged_iff (hnames : m.HasPlainNames) (hd : m.Declares d)
    (hcs : m.columns d .root = .ok cs) :
    (m.LeavesOutMerged d cs ↔ ∀ ch names, m.Chain (.columns d) ch → m.MergesPath d names →
      names <+: ch.map Hop.name → MergeScope.keeps [] ch = false) ∧
    ((∀ ch names, m.Chain (.columns d) ch → m.MergesPath d names → names <+: ch.map Hop.name →
      IsHeeded ch) → m.LeavesOutMerged d cs) ∧
    ((∀ ch, m.Chain (.columns d) ch → ∀ h ∈ ch, ∀ path ∈ h.scopePaths, path.length ≤ 1) →
      ∀ ch c, m.Chain (.columns d) ch → Strategy.root.columnOf? ch = some c → c ∈ cs) := by
  have hiff : m.LeavesOutMerged d cs ↔ ∀ ch names, m.Chain (.columns d) ch →
      m.MergesPath d names → names <+: ch.map Hop.name → MergeScope.keeps [] ch = false := by
    constructor
    · intro hleft ch names hch hmerges hleads
      by_contra hkeeps
      obtain ⟨c, hc⟩ := hch.exists_columnOf? .root
      have hmem := (mem_columns_root_iff hcs).mpr ⟨ch, hch, Bool.not_eq_false _ ▸ hkeeps, hc⟩
      refine hleft names hmerges c hmem ?_
      rwa [hnames.segments_propertyPath hd hch hc]
    · intro hkeeps names hmerges c hmem hleads
      obtain ⟨ch, hch, hkept, hc⟩ := (mem_columns_root_iff hcs).mp hmem
      rw [hnames.segments_propertyPath hd hch hc] at hleads
      have hnot := hkeeps ch names hch hmerges hleads
      simp [hkept] at hnot
  refine ⟨hiff, fun hheeded => hiff.mpr fun ch names hch hmerges hleads => ?_, ?_⟩
  · exact MergeScope.keeps_eq_false_of_isHeeded (hheeded ch names hch hmerges hleads) []
  · intro hshort ch c hch hc
    have hkeeps : MergeScope.keeps [] ch = true :=
      MergeScope.keeps_of_length_le_one (by simp) (hshort ch hch)
    exact (mem_columns_root_iff hcs).mpr ⟨ch, hch, hkeeps, hc⟩

/-! ### A reference that is merged as a whole

Students refer to a school and merge it with the school of another reference. The path of the
directive is the reference itself, so the reference keeps its column.
-/

namespace Students

def school : Entity :=
  Offerings.entity 0 "School" [Offerings.number "SchoolId"]

/-- The school of a student, which is merged as a whole. -/
def studentSchool : Property :=
  { (Property.ofKind "School" .domainEntity).required with
    referencedEntity := some 0
    mergeDirectives := [⟨["School"], ["Enrollment", "School"]⟩] }

def student : Entity :=
  Offerings.entity 1 "Student" [Offerings.number "StudentId", studentSchool]

def model : Model :=
  ⟨[.core "EdFi"], [school, student]⟩

def declaration : Declaration :=
  ⟨student, 1, studentSchool⟩

/-- The chain to the identifier of the school. -/
def chain : List Hop :=
  [.column declaration, .column ⟨school, 0, Offerings.number "SchoolId"⟩]

theorem chain_declaration : model.Chain (.columns declaration) chain :=
  .reference rfl rfl rfl (.adds (.head _) (.leaf rfl))

theorem mergesPath_declaration : model.MergesPath declaration ["School"] :=
  ⟨[], declaration, .refl, rfl, ["School"], .head _, rfl, rfl⟩

end Students

/-- Although the school of a student is merged as a whole, its column is there. -/
theorem leavesOutMerged_iff_students :
    Students.model.HasPlainNames ∧ Students.model.Declares Students.declaration ∧
      Students.model.MergesPath Students.declaration ["School"] ∧
      ∃ cs, Students.model.columns Students.declaration .root = .ok cs ∧
        cs.map Column.propertyPath = ["School.SchoolId"] ∧
        ¬Students.model.LeavesOutMerged Students.declaration cs := by
  have hnames : Students.model.HasPlainNames := by decide +kernel
  have hdeclared : Students.model.Declares Students.declaration :=
    ⟨.tail _ (.head _), Entity.mem_declarations_iff.mpr ⟨rfl, rfl⟩⟩
  have hrun : (Students.model.columns Students.declaration .root).toOption.any
      (fun cs => cs.map Column.propertyPath = ["School.SchoolId"]) = true := by decide +kernel
  obtain ⟨cs, hcs, hpaths⟩ := exists_eq_ok_of_any hrun
  refine ⟨hnames, hdeclared, Students.mergesPath_declaration, cs, hcs, by simpa using hpaths,
    fun hleft => ?_⟩
  have hkeeps := (leavesOutMerged_iff hnames hdeclared hcs).1.mp hleft Students.chain ["School"]
    Students.chain_declaration Students.mergesPath_declaration (by decide)
  have hkept : MergeScope.keeps [] Students.chain = true := by decide
  simp [hkept] at hkeeps

end Tabular
