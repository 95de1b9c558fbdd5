import Mathlib.Data.List.Forall2
import Mathlib.Tactic.Common
import Tabular.Proofs.Run.Distinctness

/-!
# Validation of schemas

The rules for schemas can be said without the checks that look for breaches: the columns of a table
have different names, and a foreign key leads to an existing table, starts at existing columns and
names the key of the foreign table. The checks are exact. They find nothing in a sound schema, and
otherwise they report every occurrence of a column name but the first, and every unsound key once
with the first thing that is wrong with it. A run that validates its schema returns sound schemas
only, and fails with these reports if all passes succeed and the schema is not sound.

## Main definitions

* `Schema.Admits`, `Schema.IsSound`: the rules.
* `Table.laterOccurrences`, `Schema.laterOccurrences`: the repeated column names by position.
* `Schema.FirstFault`, `Schema.unsoundKeys`: the unsound keys and what is wrong with them.

## Main results

* `repeatedAfter_eq`: the repeated names are those that stand at an earlier position too.
* `Schema.foreignKeyFault?_eq_none_iff`, `Schema.foreignKeyFault?_eq_some_iff`: the check of a key.
* `derive_eq_ok_iff`, `derive_eq_validationFailed_iff`: what a run that validates returns.
* `validation_exact`: all this in one statement.
-/

namespace Tabular

/-! ### The rules -/

/-- A foreign key of a table is sound: its foreign table exists, its columns on this side exist, and
those on the other side are the key of the foreign table. -/
def Schema.Admits (s : Schema) (t : Table) (k : ForeignKey) : Prop :=
  ∃ foreign ∈ s.table? k.foreignNamespace k.foreignTableId,
    (∀ id ∈ k.parentColumnIds, id ∈ t.columns.map Column.id) ∧
      k.foreignColumnIds = foreign.primaryKeyIds

instance (s : Schema) (t : Table) (k : ForeignKey) : Decidable (s.Admits t k) :=
  inferInstanceAs (Decidable (∃ foreign ∈ s.table? k.foreignNamespace k.foreignTableId, _))

/-- A schema is sound: the columns of each table have different names, and all foreign keys are
sound. -/
structure Schema.IsSound (s : Schema) : Prop where
  columns : ∀ t ∈ s.tables, (t.columns.map Column.id).Nodup
  foreignKeys : ∀ t ∈ s.tables, ∀ k ∈ t.foreignKeys, s.Admits t k

/-! ### Repeated columns -/

/-- The column names of a table that stand at an earlier position as well, one by one. -/
def Table.laterOccurrences (t : Table) : List String :=
  let ids := t.columns.map Column.id
  (ids.zipIdx.filter fun p => p.1 ∈ ids.take p.2).map Prod.fst

/-- The repeated column names of all tables, each with its table. -/
def Schema.laterOccurrences (s : Schema) : List (Table × String) :=
  s.tables.flatMap fun t => t.laterOccurrences.map fun id => (t, id)

/-- An element is repeated if it has been seen or stands at an earlier position. -/
theorem repeatedAfter_eq {α : Type} [DecidableEq α] (seen xs : List α) :
    repeatedAfter seen xs =
      (xs.zipIdx.filter fun p => p.1 ∈ seen ∨ p.1 ∈ xs.take p.2).map Prod.fst := by
  induction xs generalizing seen with
  | nil => rfl
  | cons a rest ih =>
    -- the positions in the rest count from one, after `a`
    have hrest : ((rest.zipIdx 1).filter fun p => p.1 ∈ seen ∨ p.1 ∈ (a :: rest).take p.2) =
        (rest.zipIdx.filter fun p => p.1 ∈ a :: seen ∨ p.1 ∈ rest.take p.2).map
          fun p => (p.1, p.2 + 1) := by
      rw [List.zipIdx_succ, List.filter_map]
      congr 1
      refine List.filter_congr fun p _ => ?_
      simp only [Function.comp_apply, List.take_succ_cons, List.mem_cons, decide_eq_decide]
      tauto
    rw [repeatedAfter, List.zipIdx_cons, List.filter_cons, hrest]
    by_cases ha : a ∈ seen
    · have hseen : ∀ b, b ∈ a :: seen ↔ b ∈ seen := fun b => by
        rw [List.mem_cons, or_iff_right_iff_imp]
        exact fun h => h ▸ ha
      simp [ha, ih, hseen, Function.comp_def]
    · simp [ha, ih, Function.comp_def]

example : repeatedAfter [] ["Id", "Name", "Id", "Title", "Id"] = ["Id", "Id"] := by decide

/-- The repeated columns of a table are the later occurrences of their names. -/
theorem Table.repeatedColumns_eq (t : Table) : t.repeatedColumns = t.laterOccurrences := by
  simp [repeatedColumns, laterOccurrences, repeatedAfter_eq]

theorem Schema.columnViolations_eq (s : Schema) :
    s.columnViolations = s.laterOccurrences.map fun p => .repeatedColumn p.1 p.2 := by
  simp [columnViolations, laterOccurrences, Table.repeatedColumns_eq, List.map_flatMap,
    Function.comp_def]

/-! ### Unsound keys -/

/-- What is wrong with a foreign key of a table in the first place: its foreign table is missing, or
the first missing column on this side, or the first one on the other side, or all columns exist and
those of the foreign table are not its key. -/
inductive Schema.FirstFault (s : Schema) (t : Table) (k : ForeignKey) : ForeignKeyFault → Prop
  | noTable (hforeign : s.table? k.foreignNamespace k.foreignTableId = none) :
      FirstFault s t k .noTable
  | noLocalColumn {foreign : Table} {before after : List String} {id : String}
      (hforeign : s.table? k.foreignNamespace k.foreignTableId = some foreign)
      (hids : k.parentColumnIds = before ++ id :: after)
      (hbefore : ∀ i ∈ before, i ∈ t.columns.map Column.id)
      (hid : id ∉ t.columns.map Column.id) : FirstFault s t k (.noLocalColumn id)
  | noForeignColumn {foreign : Table} {before after : List String} {id : String}
      (hforeign : s.table? k.foreignNamespace k.foreignTableId = some foreign)
      (hlocal : ∀ i ∈ k.parentColumnIds, i ∈ t.columns.map Column.id)
      (hids : k.foreignColumnIds = before ++ id :: after)
      (hbefore : ∀ i ∈ before, i ∈ foreign.columns.map Column.id)
      (hid : id ∉ foreign.columns.map Column.id) : FirstFault s t k (.noForeignColumn id)
  | wrongOrder {foreign : Table}
      (hforeign : s.table? k.foreignNamespace k.foreignTableId = some foreign)
      (hlocal : ∀ i ∈ k.parentColumnIds, i ∈ t.columns.map Column.id)
      (hcolumns : ∀ i ∈ k.foreignColumnIds, i ∈ foreign.columns.map Column.id)
      (hkey : k.foreignColumnIds ≠ foreign.primaryKeyIds) :
      FirstFault s t k (.wrongOrder k.foreignColumnIds foreign.primaryKeyIds)

/-- The unsound keys of all tables, each with its table. -/
def Schema.unsoundKeys (s : Schema) : List (Table × ForeignKey) :=
  s.tables.flatMap fun t => (t.foreignKeys.filter fun k => ¬s.Admits t k).map fun k => (t, k)

theorem Table.isNone_column?_iff {t : Table} {id : String} :
    (t.column? id).isNone = true ↔ id ∉ t.columns.map Column.id := by
  simp [column?, List.mem_map]

theorem Table.find?_missing_eq_none_iff {t : Table} {ids : List String} :
    (ids.find? fun id => (t.column? id).isNone) = none ↔
      ∀ id ∈ ids, id ∈ t.columns.map Column.id := by
  simp only [List.find?_eq_none, isNone_column?_iff, not_not]

theorem Table.find?_missing_eq_some_iff {t : Table} {ids : List String} {id : String} :
    (ids.find? fun id => (t.column? id).isNone) = some id ↔ id ∉ t.columns.map Column.id ∧
      ∃ before after, ids = before ++ id :: after ∧
        ∀ i ∈ before, i ∈ t.columns.map Column.id := by
  simp only [List.find?_eq_some_iff_append, isNone_column?_iff, Bool.not_eq_true', not_not,
    ← Bool.not_eq_true]

/-- The names in the key of a table are names of columns. -/
theorem Table.mem_columnIds_of_mem_primaryKeyIds {t : Table} {id : String}
    (h : id ∈ t.primaryKeyIds) : id ∈ t.columns.map Column.id :=
  (List.filter_sublist.map Column.id).subset h

/-- The check of a key finds nothing exactly if the key is sound. -/
theorem Schema.foreignKeyFault?_eq_none_iff {s : Schema} {t : Table} {k : ForeignKey} :
    s.foreignKeyFault? t k = none ↔ s.Admits t k := by
  unfold foreignKeyFault? Admits
  split
  · rename_i hforeign
    simp [hforeign]
  · rename_i foreign hforeign
    split
    · rename_i id hid
      obtain ⟨hmissing, before, after, hids, -⟩ := Table.find?_missing_eq_some_iff.mp hid
      have hmem : id ∈ k.parentColumnIds := by simp [hids]
      simp only [hforeign, reduceCtorEq, false_iff]
      rintro ⟨_, -, hlocal, -⟩
      exact hmissing (hlocal id hmem)
    · rename_i hlocal
      rw [Table.find?_missing_eq_none_iff] at hlocal
      split
      · rename_i id hid
        obtain ⟨hmissing, before, after, hids, -⟩ := Table.find?_missing_eq_some_iff.mp hid
        have hmem : id ∈ k.foreignColumnIds := by simp [hids]
        simp only [hforeign, Option.mem_some_iff, reduceCtorEq, false_iff]
        rintro ⟨_, rfl, -, hkey⟩
        exact hmissing (Table.mem_columnIds_of_mem_primaryKeyIds (hkey ▸ hmem))
      · split_ifs with hkey
        · simpa [hforeign, hkey] using hlocal
        · simp [hforeign, hkey]

/-- The check of a key finds its first fault. -/
theorem Schema.foreignKeyFault?_eq_some_iff {s : Schema} {t : Table} {k : ForeignKey}
    {fault : ForeignKeyFault} : s.foreignKeyFault? t k = some fault ↔ s.FirstFault t k fault := by
  constructor
  · intro h
    unfold foreignKeyFault? at h
    split at h
    · rename_i hforeign
      exact Option.some.inj h ▸ .noTable hforeign
    · rename_i foreign hforeign
      split at h
      · rename_i id hid
        obtain ⟨hmissing, before, after, hids, hbefore⟩ := Table.find?_missing_eq_some_iff.mp hid
        exact Option.some.inj h ▸ .noLocalColumn hforeign hids hbefore hmissing
      · rename_i hlocal
        rw [Table.find?_missing_eq_none_iff] at hlocal
        split at h
        · rename_i id hid
          obtain ⟨hmissing, before, after, hids, hbefore⟩ := Table.find?_missing_eq_some_iff.mp hid
          exact Option.some.inj h ▸ .noForeignColumn hforeign hlocal hids hbefore hmissing
        · rename_i hcolumns
          rw [Table.find?_missing_eq_none_iff] at hcolumns
          split_ifs at h with hkey
          exact Option.some.inj h ▸ .wrongOrder hforeign hlocal hcolumns hkey
  · intro h
    unfold foreignKeyFault?
    cases h with
    | noTable hforeign => rw [hforeign]
    | @noLocalColumn foreign before after id hforeign hids hbefore hid =>
      have hfind := Table.find?_missing_eq_some_iff.mpr ⟨hid, before, after, hids, hbefore⟩
      simp only [hforeign, hfind]
    | @noForeignColumn foreign before after id hforeign hlocal hids hbefore hid =>
      have hfind := Table.find?_missing_eq_some_iff.mpr ⟨hid, before, after, hids, hbefore⟩
      simp only [hforeign, Table.find?_missing_eq_none_iff.mpr hlocal, hfind]
    | wrongOrder hforeign hlocal hcolumns hkey =>
      simp only [hforeign, Table.find?_missing_eq_none_iff.mpr hlocal,
        Table.find?_missing_eq_none_iff.mpr hcolumns, if_neg hkey]

/-- The reports on some keys of a table are one for each unsound key, with its first fault. -/
theorem Schema.forall₂_filterMap_foreignKeyFault? (s : Schema) (t : Table) (ks : List ForeignKey) :
    List.Forall₂ (fun k v => ∃ fault, s.FirstFault t k fault ∧ v = Violation.foreignKey t k fault)
      (ks.filter fun k => ¬s.Admits t k)
      (ks.filterMap fun k => (s.foreignKeyFault? t k).map (.foreignKey t k)) := by
  induction ks with
  | nil => exact .nil
  | cons k rest ih =>
    cases hfault : s.foreignKeyFault? t k with
    | none =>
      have hsound := foreignKeyFault?_eq_none_iff.mp hfault
      rwa [List.filter_cons_of_neg (by simpa using hsound),
        List.filterMap_cons_none (by rw [hfault]; rfl)]
    | some fault =>
      have hunsound : ¬s.Admits t k := by simp [← foreignKeyFault?_eq_none_iff, hfault]
      rw [List.filter_cons_of_pos (by simpa using hunsound),
        List.filterMap_cons_some (by rw [hfault]; rfl)]
      exact .cons ⟨fault, foreignKeyFault?_eq_some_iff.mp hfault, rfl⟩ ih

/-- There is one report for each unsound key, in order, and it tells the first fault. -/
theorem Schema.forall₂_foreignKeyViolations (s : Schema) :
    List.Forall₂ (fun p v => ∃ fault, s.FirstFault p.1 p.2 fault ∧
      v = Violation.foreignKey p.1 p.2 fault) s.unsoundKeys s.foreignKeyViolations := by
  unfold unsoundKeys foreignKeyViolations
  induction s.tables with
  | nil => exact .nil
  | cons t rest ih =>
    rw [List.flatMap_cons, List.flatMap_cons]
    refine List.rel_append ?_ ih
    rw [List.forall₂_map_left_iff]
    exact s.forall₂_filterMap_foreignKeyFault? t t.foreignKeys

/-- The checks find nothing exactly if the schema is sound. -/
theorem Schema.violations_eq_nil_iff {s : Schema} : s.violations = [] ↔ s.IsSound := by
  have hcolumns : s.columnViolations = [] ↔ ∀ t ∈ s.tables, (t.columns.map Column.id).Nodup := by
    simp [columnViolations_eq_nil_iff, HasDistinctColumns, mem_tables_iff]
  have hkeys : s.foreignKeyViolations = [] ↔ ∀ t ∈ s.tables, ∀ k ∈ t.foreignKeys, s.Admits t k := by
    simp [foreignKeyViolations, foreignKeyFault?_eq_none_iff]
  rw [violations, List.append_eq_nil_iff, hcolumns, hkeys]
  exact ⟨fun h => ⟨h.1, h.2⟩, fun h => ⟨h.columns, h.foreignKeys⟩⟩

/-! ### Runs -/

section Runs

variable {c : Config} {m : Model}

theorem Schema.validated_eq_ok_iff {s s' : Schema} :
    s.validated = .ok s' ↔ s.IsSound ∧ s' = s := by
  unfold validated
  rw [← violations_eq_nil_iff, ← List.isEmpty_iff]
  split_ifs with h <;> simp [h, eq_comm]

theorem Schema.validated_eq_error_iff {s : Schema} {e : RunError} :
    s.validated = .error e ↔ ¬s.IsSound ∧ e = .validationFailed s.violationMessages := by
  unfold validated
  rw [← violations_eq_nil_iff, ← List.isEmpty_iff]
  split_ifs with h <;> simp [h, eq_comm]

/-- Passes never fail for the schema that they leave behind. -/
theorem runPasses_ne_validationFailed {stage : Stage} {passes : List Pass} {progress : Progress}
    {lines : List String} :
    runPasses c m stage passes progress ≠ .error (.validationFailed lines) := by
  induction passes generalizing progress with
  | nil => simp [runPasses]
  | cons p rest ih =>
    simp only [runPasses, ne_eq, bind_eq_error_iff, mapError_eq_error_iff, reduceCtorEq, and_false,
      exists_false, pure_ne_error, or_false, false_or, not_exists, not_and]
    exact fun _ _ => ih

theorem runStages_ne_validationFailed {stages : List Stage} {progress : Progress}
    {lines : List String} : runStages c m stages progress ≠ .error (.validationFailed lines) := by
  induction stages generalizing progress with
  | nil => simp [runStages]
  | cons stage rest ih =>
    simp only [runStages, ne_eq, bind_eq_error_iff, runPasses_ne_validationFailed, and_false,
      exists_false, pure_ne_error, or_false, false_or, not_exists, not_and]
    exact fun _ _ => ih

theorem Config.checked_eq_ok_iff {c' : Config} :
    c.checked = .ok c' ↔ c.problem? = none ∧ c' = c := by
  unfold checked
  cases c.problem? <;> simp [eq_comm]

theorem Config.checked_ne_validationFailed {lines : List String} :
    c.checked ≠ .error (.validationFailed lines) := by
  unfold checked
  cases c.problem? <;> simp

/-- A run that validates returns what its stages leave behind if that is sound. -/
theorem derive_eq_ok_iff (hvalidate : c.validateOutput = true) {r : Report} :
    derive c m = .ok r ↔ c.problem? = none ∧ ∃ progress,
      runStages c m c.effectiveStages .start = .ok (progress, r.stages) ∧
        progress.schema.IsSound ∧ r.schema = progress.schema := by
  simp only [derive, bind_eq_ok_iff, Config.checked_eq_ok_iff, and_assoc, exists_and_left,
    exists_eq_left, deriveChecked, hvalidate, if_true, Prod.exists, Schema.validated_eq_ok_iff,
    pure_eq_ok_iff]
  refine and_congr_right fun _ => ⟨?_, ?_⟩
  · rintro ⟨progress, stages, hrun, hsound, rfl⟩
    exact ⟨progress, hrun, hsound, rfl⟩
  · rintro ⟨progress, hrun, hsound, hschema⟩
    exact ⟨progress, r.stages, hrun, hsound, hschema ▸ rfl⟩

/-- A run that validates fails with the reports of the checks if all its stages succeed and leave an
unsound schema behind, and only then. -/
theorem derive_eq_validationFailed_iff (hvalidate : c.validateOutput = true)
    {lines : List String} : derive c m = .error (.validationFailed lines) ↔
      c.problem? = none ∧ ∃ progress stages,
        runStages c m c.effectiveStages .start = .ok (progress, stages) ∧
          ¬progress.schema.IsSound ∧ lines = progress.schema.violationMessages := by
  simp only [derive, bind_eq_error_iff, Config.checked_eq_ok_iff,
    Config.checked_ne_validationFailed, false_or, and_assoc, exists_and_left, exists_eq_left,
    deriveChecked, hvalidate, if_true, pure_ne_error, and_false, exists_false, or_false,
    Prod.exists, Schema.validated_eq_error_iff, runStages_ne_validationFailed,
    RunError.validationFailed.injEq]

end Runs

/-- Validation is exact: it finds nothing in a schema exactly if the schema is sound, and its lines
are one for each occurrence of a column name in a table but the first, then one for each unsound
foreign key with its first fault, both in the order of the tables. A run that validates returns a
schema exactly if its stages leave a sound one behind, and fails with the lines of the checks
exactly if its stages leave an unsound one behind. -/
theorem validation_exact :
    (∀ s : Schema, (s.violations.isEmpty = true ↔ s.IsSound) ∧
      ∃ lines, s.violationMessages =
          (s.laterOccurrences.map fun p => (Violation.repeatedColumn p.1 p.2).message) ++ lines ∧
        List.Forall₂ (fun p line => ∃ fault, s.FirstFault p.1 p.2 fault ∧
          line = (Violation.foreignKey p.1 p.2 fault).message) s.unsoundKeys lines) ∧
      ∀ (c : Config) (m : Model), c.validateOutput = true →
        (∀ r, derive c m = .ok r ↔ c.problem? = none ∧ ∃ progress,
          runStages c m c.effectiveStages .start = .ok (progress, r.stages) ∧
            progress.schema.IsSound ∧ r.schema = progress.schema) ∧
        ∀ lines, derive c m = .error (.validationFailed lines) ↔ c.problem? = none ∧
          ∃ progress stages, runStages c m c.effectiveStages .start = .ok (progress, stages) ∧
            ¬progress.schema.IsSound ∧ lines = progress.schema.violationMessages := by
  refine ⟨fun s => ⟨?_, s.foreignKeyViolations.map Violation.message, ?_, ?_⟩, fun c m h => ?_⟩
  · rw [List.isEmpty_iff, Schema.violations_eq_nil_iff]
  · rw [Schema.violationMessages, Schema.violations, List.map_append, Schema.columnViolations_eq,
      List.map_map]
    rfl
  · rw [List.forall₂_map_right_iff]
    refine s.forall₂_foreignKeyViolations.imp ?_
    rintro p _ ⟨fault, hfirst, rfl⟩
    exact ⟨fault, hfirst, rfl⟩
  · exact ⟨fun _ => derive_eq_ok_iff h, fun _ => derive_eq_validationFailed_iff h⟩

/-- Students with a grade that refers to a school, as if schools were descriptors. -/
def gradeModel : Model :=
  (Model.empty.addEntity
    ((Entity.ofKind .domainEntity "EdFi" "School").withProperty
      (Property.ofKind "SchoolId" (.scalar .integer)).identity)).addEntity
    (((Entity.ofKind .domainEntity "EdFi" "Student").withProperty
      (Property.ofKind "StudentId" (.scalar .integer)).identity).withProperty
        { Property.ofKind "Grade" .descriptor with referencedEntity := some 0 })

/-- All passes succeed on students and grades, and the run fails for the missing table of the
descriptor. -/
theorem validation_exact_grades :
    ∃ progress stages,
      runStages .standard gradeModel Config.standard.effectiveStages .start =
        .ok (progress, stages) ∧ ¬progress.schema.IsSound ∧
      derive .standard gradeModel = .error (.validationFailed
        ["edfi.Student: foreign key to edfi.SchoolDescriptor: foreign table does not exist"]) := by
  have hrun : (runStages .standard gradeModel Config.standard.effectiveStages .start).toOption.any
      (fun r => r.1.schema.violationMessages =
        ["edfi.Student: foreign key to edfi.SchoolDescriptor: foreign table does not exist"]) =
      true := by decide +kernel
  obtain ⟨⟨progress, stages⟩, hstages, hlines⟩ := exists_eq_ok_of_any hrun
  rw [decide_eq_true_eq] at hlines
  have hunsound : ¬progress.schema.IsSound := by
    rw [← (validation_exact.1 progress.schema).1, List.isEmpty_iff]
    intro hnil
    simp [Schema.violationMessages, hnil] at hlines
  refine ⟨progress, stages, hstages, hunsound, ?_⟩
  exact ((validation_exact.2 .standard gradeModel rfl).2 _).mpr
    ⟨by decide +kernel, progress, stages, hstages, hunsound, hlines.symm⟩

end Tabular
