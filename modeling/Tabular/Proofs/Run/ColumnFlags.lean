import Mathlib.Tactic.Common
import Tabular.Proofs.Derive.ColumnInvariants
import Tabular.Proofs.Run.Origins

/-!
# Key columns are never nullable

A column leaves its property as a key column, as a nullable one, or as neither. Whatever a table does
to the flags of a column sets both of them, and a column that absorbs another is nullable only if it
is not a key. So no table of a run has a nullable key column, also where an optional property meets
an identity property under one name.

## Main results

* `Reaches.all_of_inModel`, `Reaches.all`: what no change of a column breaks holds of all columns of
  a run.
* `Column.invariant_keyNotNull`: the flags of columns are such a property.
* `keyNotNull_throughout`: no pass of a run leaves a nullable key column behind.
-/

namespace Tabular

variable {P : Column → Prop} {c : Config} {m : Model} {s : Schema} {id : EntityId}
  {set : TableSet} {t : Table}

/-! ### Invariants of columns in a run -/

theorem Drafted.all (hP : Column.InvariantIn m P) (hs : ∀ u ∈ s.inserted, u.All P)
    (h : Drafted c m s id set) : ∀ u ∈ set.tables, u.All P := by
  have hsingle {e : EntityId} {t : Table} (ht : t.All P) :
      ∀ u ∈ ((TableSet.empty e).push t).tables, u.All P :=
    TableSet.forall_tables_push (by simp [TableSet.empty]) fun _ => ht
  cases h with
  | main he h => exact TableContext.all_of_mainTable hP hs he h
  | descriptor he h => exact TableContext.all_of_descriptorTable hP hs he h
  | subclass he h =>
    obtain ⟨main, key, hmain, -, rfl⟩ := TableContext.exists_of_subclassTable h
    have hall := TableContext.all_of_mainTable hP hs he hmain
    exact TableSet.forall_tables_modify hall fun t ht => ht.addForeignKey key
  | extension he h => exact TableContext.all_of_extensionTable hP hs he h
  | codeValues => exact hsingle (all_codeValueTable hP.toStable _ _ _ _ _)
  | schoolYears => exact hsingle (all_schoolYearTable hP.toStable _ _)

theorem Origin.all (hP : Column.InvariantIn m P) (hs : ∀ u ∈ s.inserted, u.All P)
    (h : Origin c m s t) : t.All P := by
  induction h with
  | stored ht => exact hs _ ht
  | committed hset hu hfrom =>
    have hall := hset.all hP hs _ hu
    cases hfrom with
    | unlinked => exact hall.arranged
    | @linked _ parent =>
      have hlinked := hall.withParentKeys parent.primaryKeyIds
      exact hlinked.arranged.addForeignKey _
  | baseDescriptor => exact (all_baseDescriptorTable hP.toStable _ _).arranged
  | mapType _ _ _ ih => exact all_withMapType hP.toStable _ _ _ ih
  | foreignKey k _ _ ih => exact ih.addForeignKey k

/-- In the course of a run all columns of all tables have every property that nothing breaks for the
properties of the model. -/
theorem Reaches.all_of_inModel (hP : Column.InvariantIn m P) (h : Reaches c m .empty s) :
    ∀ t ∈ s.inserted, t.All P :=
  h.forall_inserted fun _ _ hs horigin => horigin.all hP hs

/-- In the course of a run all columns of all tables have every property that nothing breaks. -/
theorem Reaches.all (hP : Column.Invariant P) (h : Reaches c m .empty s) :
    ∀ t ∈ s.inserted, t.All P :=
  h.all_of_inModel (hP.inModel m)

/-! ### Flags -/

/-- The column is not nullable if it is a key column. -/
def Column.KeyNotNull (c : Column) : Prop :=
  c.isPartOfPrimaryKey = true → c.isNullable = false

theorem keyNotNull_leafColumn (d : Declaration) (s : Strategy) (naming : ColumnNaming)
    (type : ScalarType) : (leafColumn d s naming type).KeyNotNull := by
  simp only [leafColumn]
  split_ifs <;> simp [Column.KeyNotNull, Column.primaryKey, Column.nullable, Column.ofType]

theorem Column.invariant_keyNotNull : Column.Invariant Column.KeyNotNull where
  leaf d s c h := by
    unfold leafColumn? at h
    cases hrule : d.property.kind.columnRule with
    | scalar =>
      simp only [hrule, Option.map_eq_some_iff] at h
      obtain ⟨type, -, rfl⟩ := h
      exact keyNotNull_leafColumn _ _ _ _
    | descriptor | enumeration | schoolYear =>
      simp only [hrule, Option.some.injEq] at h
      exact h ▸ keyNotNull_leafColumn _ _ _ _
    | composite | reference => simp [hrule] at h
  made c h := by
    cases h <;> simp [KeyNotNull, ofType, assignedKeyColumn, descriptorKeyColumn, keyColumn]
  prefixedBy _ _ h := h
  primaryKey _ _ _ := rfl
  nullable _ _ h := by simp [Column.nullable] at h
  notNull _ _ _ := rfl
  asParentKey _ _ _ := rfl
  merge c d _ _ _ h := by
    have hkey : (c.isPartOfPrimaryKey || d.isPartOfPrimaryKey) = true := h
    simp [Column.merge, hkey]

/-- Whichever stages and passes of a run have succeeded so far, no column of any table is both a key
column and nullable. -/
theorem keyNotNull_throughout (c : Config) (m : Model) :
    (∀ (before : List Stage) (stage : Stage) (passes : List Pass) (mid progress : Progress)
        (reports : List StageReport) (outcomes : List PassOutcome),
      runStages c m before .start = .ok (mid, reports) →
      runPasses c m stage passes mid = .ok (progress, outcomes) →
        ∀ t ∈ progress.schema.tables, ∀ column ∈ t.columns,
          ¬(column.isPartOfPrimaryKey = true ∧ column.isNullable = true)) ∧
      ∀ r, derive c m = .ok r → ∀ t ∈ r.schema.tables, ∀ column ∈ t.columns,
        ¬(column.isPartOfPrimaryKey = true ∧ column.isNullable = true) := by
  have htables {s : Schema} (h : Reaches c m .empty s) : ∀ t ∈ s.tables, ∀ column ∈ t.columns,
      ¬(column.isPartOfPrimaryKey = true ∧ column.isNullable = true) := by
    rintro t ht column hcolumn ⟨hkey, hnullable⟩
    have hnot := h.all Column.invariant_keyNotNull t (Schema.mem_tables_iff.mp ht) column hcolumn
    rw [hnot hkey] at hnullable
    exact Bool.false_ne_true hnullable
  constructor
  · intro before stage passes mid progress reports outcomes hbefore hpasses
    exact htables ((reaches_of_runStages hbefore).trans (reaches_of_runPasses hpasses))
  · intro r hr
    exact htables (reaches_of_derive hr)

/-- Visits that have a school in their key and refer to schools optionally as well, with an optional
remark. -/
def visitModel : Model :=
  (Model.empty.addEntity
    ((Entity.ofKind .domainEntity "EdFi" "School").withProperty
      (Property.ofKind "SchoolId" (.scalar .integer)).identity)).addEntity
    ((((Entity.ofKind .domainEntity "EdFi" "Visit").withProperty
      { Property.ofKind "School" .domainEntity with
        referencedEntity := some 0
        isOptional := true }).withProperty
        (Property.ofKind "SchoolId" (.scalar .integer)).identity).withProperty
        { Property.ofKind "Remark" (.scalar (.text 60)) with isOptional := true })

/-- The column of schools in a visit is nullable at first and then a key column. It does not stay
nullable. -/
theorem keyNotNull_throughout_visits :
    ∃ progress outcomes,
      runPasses { Config.standard with targetVersion := ⟨6, 1, 0⟩ } visitModel .mainTables
        [.entityTables] .start = .ok (progress, outcomes) ∧
      ((progress.schema.tables.flatMap Table.columns).map fun column =>
        (column.id, column.isPartOfPrimaryKey, column.isNullable)) =
          [("SchoolId", true, false), ("SchoolId", true, false), ("Remark", false, true)] ∧
      ∀ t ∈ progress.schema.tables, ∀ column ∈ t.columns,
        ¬(column.isPartOfPrimaryKey = true ∧ column.isNullable = true) := by
  have hrun : (runPasses { Config.standard with targetVersion := ⟨6, 1, 0⟩ } visitModel .mainTables
      [.entityTables] .start).toOption.any (fun r =>
        ((r.1.schema.tables.flatMap Table.columns).map fun column =>
          (column.id, column.isPartOfPrimaryKey, column.isNullable)) =
            [("SchoolId", true, false), ("SchoolId", true, false), ("Remark", false, true)]) =
        true := by decide +kernel
  obtain ⟨⟨progress, outcomes⟩, hpasses, hcolumns⟩ := exists_eq_ok_of_any hrun
  refine ⟨progress, outcomes, hpasses, by simpa using hcolumns, ?_⟩
  exact (keyNotNull_throughout _ _).1 [] .mainTables _ _ _ _ _ rfl hpasses

end Tabular
