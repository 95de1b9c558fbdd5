import Mathlib.Tactic.Common
import Tabular.Proofs.Derive.MergedPaths
import Tabular.Proofs.Run.ColumnFlags

/-!
# Contexts and paths of columns describe one chain

A column records the chain of properties that produced it twice: the full names one after the other,
as its context, and divided by dots, as its path. Both grow separately whenever a column is seen
from a property further out. They are copied together into the tables that take over a key, and a
column that absorbs another one keeps its own. So neither can drift away from the other, provided
that full names are not empty and contain no dot. References look for columns by contexts, and by
what merge directives make of paths; the two ways agree where no directive leads elsewhere.

## Main definitions

* `Text.without`: a text without the occurrences of a character.
* `Column.Records`, `Column.IsTraced`: the chain of names that a column records.

## Main results

* `Column.invariantIn_isTraced`: no change of a column separates its context from its path.
* `Column.Records.matchingColumn?_eq`: the column of a reference, where no directive leads
  elsewhere.
* `contexts_match_paths`: contexts and paths of the columns of a run.
-/

namespace Tabular

/-! ### Texts without dots -/

namespace Text

/-- The text without the occurrences of a character. -/
def without (c : Char) (s : String) : String :=
  String.ofList (s.toList.filter fun d => d ≠ c)

theorem without_append (c : Char) (s t : String) :
    without c (s ++ t) = without c s ++ without c t := by
  simp [without, String.ofList_append]

theorem without_of_notMem {c : Char} {s : String} (h : c ∉ s.toList) : without c s = s := by
  have hkeep : s.toList.filter (fun d => d ≠ c) = s.toList := by
    rw [List.filter_eq_self]
    intro d hd
    exact decide_eq_true fun hdc => h (hdc ▸ hd)
  rw [without, hkeep, String.ofList_toList]

/-- Without the dots, names divided by dots stand one after the other. -/
theorem without_dotted : {names : List String} → (∀ n ∈ names, '.' ∉ n.toList) →
    without '.' (dotted names) = concat names
  | [], _ => rfl
  | [n], h => by
    rw [dotted, without_of_notMem (h n List.mem_cons_self), concat_cons, concat_nil,
      String.append_empty]
  | n :: k :: rest, h => by
    rw [List.forall_mem_cons] at h
    have hdot : without '.' "." = "" := rfl
    rw [dotted, without_append, without_append, without_of_notMem h.1, hdot, String.append_empty,
      without_dotted h.2, concat_cons n]

end Text

@[simp] theorem ColumnTransform.propertyPath_apply (f : ColumnTransform) (c : Column) :
    (f.apply c).propertyPath = c.propertyPath := by
  induction f with
  | makeNull inner ih => exact ih
  | _ => rfl

/-! ### The chain that a column records -/

/-- The column records the names, which are not empty and contain no dot, one after the other and
divided by dots. The former is among the contexts merged into the column, unless there are no
names. -/
structure Column.Records (c : Column) (names : List String) : Prop where
  plain : ∀ n ∈ names, n ≠ "" ∧ '.' ∉ n.toList
  referenceContext : c.referenceContext = Text.concat names
  propertyPath : c.propertyPath = Text.dotted names
  merged : names ≠ [] → c.referenceContext ∈ c.mergedReferenceContexts

/-- The column records some names. -/
def Column.IsTraced (c : Column) : Prop :=
  ∃ names, c.Records names

namespace Column.Records

variable {c d : Column} {names : List String}

theorem leaf {p : Declaration} {s : Strategy} {naming : ColumnNaming} {type : ScalarType}
    (hplain : p.property.fullName ≠ "" ∧ '.' ∉ p.property.fullName.toList) :
    (leafColumn p s naming type).Records [p.property.fullName] where
  plain := List.forall_mem_singleton.mpr hplain
  referenceContext := by simp
  propertyPath := by simp [Text.dotted]
  merged _ := by simp

/-- The column as seen from a property further out records the name of that property first. -/
theorem prefixedBy {name : String} (h : c.Records names) (hne : names ≠ [])
    (hplain : name ≠ "" ∧ '.' ∉ name.toList) : (c.prefixedBy name).Records (name :: names) where
  plain := List.forall_mem_cons.mpr ⟨hplain, h.plain⟩
  referenceContext := by rw [Column.prefixedBy, h.referenceContext, Text.concat_cons]
  propertyPath := by
    have hpath : c.propertyPath ≠ "" := by
      rw [h.propertyPath]
      exact Text.dotted_ne_empty hne fun n hn => (h.plain n hn).1
    obtain ⟨n, rest, rfl⟩ := List.exists_cons_of_ne_nil hne
    rw [Column.prefixedBy, if_neg hpath, h.propertyPath, Text.dotted]
  merged _ := List.mem_map.mpr ⟨c.referenceContext, h.merged hne, rfl⟩

theorem apply (h : c.Records names) (f : ColumnTransform) : (f.apply c).Records names where
  plain := h.plain
  referenceContext := by rw [ColumnTransform.referenceContext_apply, h.referenceContext]
  propertyPath := by rw [ColumnTransform.propertyPath_apply, h.propertyPath]
  merged hne := by simpa using h.merged hne

/-- A column that absorbs another one still records its own names. -/
theorem merge (h : c.Records names) (d : Column) : (c.merge d).Records names where
  plain := h.plain
  referenceContext := h.referenceContext
  propertyPath := h.propertyPath
  merged hne := mem_unionInOrder_iff.mpr (Or.inl (h.merged hne))

theorem segments_propertyPath (h : c.Records names) : Text.segments c.propertyPath = names := by
  rw [h.propertyPath, Text.segments_dotted h.plain]

theorem referenceContext_eq_without (h : c.Records names) :
    c.referenceContext = Text.without '.' c.propertyPath := by
  rw [h.referenceContext, h.propertyPath, Text.without_dotted fun n hn => (h.plain n hn).2]

theorem eq_empty_or_merged (h : c.Records names) :
    (c.referenceContext = "" ∧ c.propertyPath = "") ∨
      c.referenceContext ∈ c.mergedReferenceContexts := by
  rcases names with - | ⟨n, rest⟩
  · exact Or.inl ⟨h.referenceContext, h.propertyPath⟩
  · exact Or.inr (h.merged (List.cons_ne_nil n rest))

end Column.Records

theorem Column.IsMade.records {c : Column} (h : c.IsMade) : c.Records [] := by
  cases h <;> exact ⟨by simp, rfl, rfl, by simp⟩

/-- The columns of a model with plain names record the names of their chains. -/
theorem Column.IsDerived.records {m : Model} (hnames : m.HasPlainNames) {c : Column}
    (h : c.IsDerived m) : ∃ names, names ≠ [] ∧ c.Records names := by
  have hplain {d : Declaration} (hd : m.Declares d) :
      d.property.fullName ≠ "" ∧ '.' ∉ d.property.fullName.toList :=
    hnames d.owner hd.1 d.property (Entity.property_mem_of_mem_declarations hd.2)
  induction h with
  | leaf hd h =>
    obtain ⟨naming, type, rfl⟩ := exists_leafColumn_of_leafColumn? h
    exact ⟨_, List.cons_ne_nil _ _, .leaf (hplain hd)⟩
  | prefixedBy hd _ ih =>
    obtain ⟨names, hne, hrecords⟩ := ih
    exact ⟨_, List.cons_ne_nil _ _, hrecords.prefixedBy hne (hplain hd)⟩
  | apply f _ ih =>
    obtain ⟨names, hne, hrecords⟩ := ih
    exact ⟨names, hne, hrecords.apply f⟩

theorem Column.invariantIn_isTraced {m : Model} (hnames : m.HasPlainNames) :
    Column.InvariantIn m Column.IsTraced where
  derived c h := by
    obtain ⟨names, -, hrecords⟩ := h.records hnames
    exact ⟨names, hrecords⟩
  made _ h := ⟨[], h.records⟩
  primaryKey _ h := h.imp fun _ hrecords => hrecords.apply .primaryKey
  nullable _ h := h.imp fun _ hrecords => hrecords.apply .nullable
  notNull _ h := h.imp fun _ hrecords => hrecords.apply .notNull
  asParentKey _ h := h.imp fun _ r => ⟨r.plain, r.referenceContext, r.propertyPath, r.merged⟩
  merge _ d _ h _ := h.imp fun _ hrecords => hrecords.merge d

/-! ### Where references look for columns -/

/-- No merge directive of the property leads from the path to the column to another path. -/
def Property.KeepsPath (p : Property) (c : Column) : Prop :=
  ∀ d ∈ p.mergeDirectives, d.source ≠ [] →
    d.source <+: p.fullName :: Text.segments c.propertyPath → d.target = d.source

namespace Column.Records

variable {c : Column} {names : List String} {p : Property}

/-- The names from a reference to a key column, one after the other. -/
theorem concat_cons_segments (h : c.Records names) (p : Property) :
    Text.concat (p.fullName :: Text.segments c.propertyPath) =
      p.fullName ++ c.referenceContext := by
  rw [h.segments_propertyPath, Text.concat_cons, h.referenceContext]

/-- Where no directive leads elsewhere, the merged context of a key column is its own context. -/
theorem eq_of_mergedContext? (h : c.Records names) (hp : p.KeepsPath c) {context : String}
    (hcontext : mergedContext? p c = some context) :
    context = p.fullName ++ c.referenceContext := by
  obtain ⟨d, hd, hfound⟩ := List.exists_of_findSome?_eq_some hcontext
  split_ifs at hfound with hskip
  obtain rfl := Option.some.inj hfound
  obtain ⟨hne, hsource⟩ : d.source ≠ [] ∧
      d.source <+: p.fullName :: Text.segments c.propertyPath := by
    simpa [not_or] using hskip
  rw [hp d hd hne hsource, List.prefix_iff_eq_append.mp hsource]
  exact h.concat_cons_segments p

/-- Where no directive leads elsewhere, a reference finds the column of the same chain, or else the
one of the expected name. -/
theorem matchingColumn?_eq (h : c.Records names) (hp : p.KeepsPath c) (t : Table)
    (ownerContext : String) : t.matchingColumn? p ownerContext c =
      (t.columnOfContext? (ownerContext ++ p.fullName ++ c.referenceContext)).or
        (t.column? (p.contextPrefix ++ c.id)) := by
  unfold Table.matchingColumn?
  cases hmerged : mergedContext? p c with
  | none => rw [Option.bind_none, Option.none_or]
  | some context =>
    rw [h.eq_of_mergedContext? hp hmerged, Option.bind_some, ← String.append_assoc,
      ← Option.or_assoc, Option.or_self]

end Column.Records

/-- In a model with plain names, every column of every table of a run has a context equal to its
path without the dots. Both are empty, or the context is among those merged into the column. Read
along its path, from a reference on, the column has the same context, so where no merge directive of
the reference leads elsewhere, looking for the merged context finds nothing that looking for the
context has not found. -/
theorem contexts_match_paths (c : Config) (m : Model) (r : Report) (hnames : m.HasPlainNames)
    (h : derive c m = .ok r) : ∀ t ∈ r.schema.tables, ∀ column ∈ t.columns,
      column.referenceContext = Text.without '.' column.propertyPath ∧
      ((column.referenceContext = "" ∧ column.propertyPath = "") ∨
        column.referenceContext ∈ column.mergedReferenceContexts) ∧
      ∀ p : Property,
        Text.concat (p.fullName :: Text.segments column.propertyPath) =
          p.fullName ++ column.referenceContext ∧
        (p.KeepsPath column →
          (∀ context, mergedContext? p column = some context →
            context = p.fullName ++ column.referenceContext) ∧
          ∀ (u : Table) (ownerContext : String), u.matchingColumn? p ownerContext column =
            (u.columnOfContext? (ownerContext ++ p.fullName ++ column.referenceContext)).or
              (u.column? (p.contextPrefix ++ column.id))) := by
  intro t ht column hcolumn
  have hall := (reaches_of_derive h).all_of_inModel (Column.invariantIn_isTraced hnames)
  obtain ⟨names, hrecords⟩ := hall t (Schema.mem_tables_iff.mp ht) column hcolumn
  refine ⟨hrecords.referenceContext_eq_without, hrecords.eq_empty_or_merged, fun p => ?_⟩
  refine ⟨hrecords.concat_cons_segments p, fun hp => ⟨fun context => ?_, ?_⟩⟩
  · exact hrecords.eq_of_mergedContext? hp
  · exact hrecords.matchingColumn?_eq hp

/-- Sessions of schools, and sections of a session whose school is the school of the section. -/
def sessionModel : Model :=
  [(Entity.ofKind .domainEntity "EdFi" "School").withProperty
      (Property.ofKind "SchoolId" (.scalar .integer)).identity,
    ((Entity.ofKind .domainEntity "EdFi" "Session").withProperty
      { (Property.ofKind "School" .domainEntity).identity with
        referencedEntity := some 0 }).withProperty
        (Property.ofKind "SessionName" (.scalar (.text 60))).identity,
    (((Entity.ofKind .domainEntity "EdFi" "Section").withProperty
      { (Property.ofKind "School" .domainEntity).identity with
        referencedEntity := some 0 }).withProperty
        { (Property.ofKind "Session" .domainEntity).identity with
          referencedEntity := some 1
          mergeDirectives := [.ofPaths "Session.School" "School"] }).withProperty
          { Property.ofKind "School" .domainEntity with
            roleName := "Host"
            isOptional := true
            referencedEntity := some 0 }].foldl Model.addEntity .empty

/-- The columns of sections come from chains of two properties each. -/
theorem contexts_match_paths_sections :
    sessionModel.HasPlainNames ∧
      ∃ r, derive { Config.standard with targetVersion := ⟨6, 1, 0⟩ } sessionModel = .ok r ∧
      (r.schema.tables.any fun t => t.tableId = "Section" ∧
        t.columns.map (fun column => (column.referenceContext, column.propertyPath)) =
          [("SchoolSchoolId", "School.SchoolId"), ("SessionSessionName", "Session.SessionName"),
            ("HostSchoolSchoolId", "HostSchool.SchoolId")]) = true ∧
      ∀ t ∈ r.schema.tables, ∀ column ∈ t.columns,
        column.referenceContext = Text.without '.' column.propertyPath ∧
          ((column.referenceContext = "" ∧ column.propertyPath = "") ∨
            column.referenceContext ∈ column.mergedReferenceContexts) := by
  have hnames : sessionModel.HasPlainNames := by decide +kernel
  have hrun : (derive { Config.standard with targetVersion := ⟨6, 1, 0⟩ }
      sessionModel).toOption.any (fun r => r.schema.tables.any fun t => t.tableId = "Section" ∧
        t.columns.map (fun column => (column.referenceContext, column.propertyPath)) =
          [("SchoolSchoolId", "School.SchoolId"), ("SessionSessionName", "Session.SessionName"),
            ("HostSchoolSchoolId", "HostSchool.SchoolId")]) = true := by decide +kernel
  obtain ⟨r, hr, hcolumns⟩ := exists_eq_ok_of_any hrun
  refine ⟨hnames, r, hr, hcolumns, fun t ht column hcolumn => ?_⟩
  obtain ⟨hpath, hmerged, -⟩ := contexts_match_paths _ _ r hnames hr t ht column hcolumn
  exact ⟨hpath, hmerged⟩

end Tabular
