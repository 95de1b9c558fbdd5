import Mathlib
import Tabular.Proofs.Run.Distinctness
import Tabular.Proofs.Run.Origins

/-!
# The order of columns in a run

From version 7.0 of the target on, the columns of every stored table are sorted: first the key
columns taken over from the parent, in the order of the parent, then the other key columns and then
the remaining columns, both by name. A table is sorted when it is finished, after it has learned the
key of its parent, and once more when it receives a column for a map type. Nothing else touches the
columns of a stored table, so they are sorted after every pass.

## Main definitions

* `Table.parentKeyColumns`, `Table.ownKeyColumns`, `Table.plainColumns`: the three groups.
* `Table.IsCanonical`: the columns are the three groups one after the other, each in its order.

## Main results

* `Table.sortColumns_sortColumns`: sorting twice is sorting once.
* `Table.isCanonical_of_sortColumns_eq`: sorted columns of different names are in canonical order.
* `Reaches.sortColumns_eq`: every table of a run is sorted.
* `isCanonical_throughout`: the columns are in canonical order after every pass of a run.
-/

namespace Tabular

/-! ### Sorted tables -/

namespace Table

/-- The key columns taken over from the parent. -/
def parentKeyColumns (t : Table) : List Column :=
  t.columns.filter t.isParentKey

/-- The other key columns. -/
def ownKeyColumns (t : Table) : List Column :=
  t.columns.filter fun c => c.isPartOfPrimaryKey && !t.isParentKey c

/-- The columns outside the key. -/
def plainColumns (t : Table) : List Column :=
  t.columns.filter fun c => !c.isPartOfPrimaryKey

/-- The columns of the table are its parent keys, in the order of the parent, then its other keys
and then the other columns, both in strictly ascending order of their names. -/
structure IsCanonical (t : Table) : Prop where
  columns_eq : t.columns = t.parentKeyColumns ++ t.ownKeyColumns ++ t.plainColumns
  parentKeys : t.parentKeyColumns.Pairwise fun c d =>
    t.parentKeyColumnIds.idxOf c.id < t.parentKeyColumnIds.idxOf d.id
  ownKeys : t.ownKeyColumns.Pairwise fun c d => c.id < d.id
  plain : t.plainColumns.Pairwise fun c d => c.id < d.id

/-- The order of parent keys. -/
private def parentLE (t : Table) (c d : Column) : Bool :=
  t.parentKeyColumnIds.idxOf c.id ≤ t.parentKeyColumnIds.idxOf d.id

variable {t : Table}

private theorem pairwise_parentLE (t : Table) (cs : List Column) :
    (cs.mergeSort t.parentLE).Pairwise fun c d => t.parentLE c d = true := by
  apply List.pairwise_mergeSort
  · intro a b c hab hbc
    simp only [parentLE, decide_eq_true_eq] at hab hbc ⊢
    omega
  · intro a b
    simp only [parentLE, Bool.or_eq_true, decide_eq_true_eq]
    omega

private theorem pairwise_sortedById (cs : List Column) :
    (sortedById cs).Pairwise fun c d => Text.sortsBefore c.id d.id = true :=
  List.pairwise_mergeSort (fun a b c => Text.sortsBefore_trans a.id b.id c.id)
    (fun a b => Text.sortsBefore_total a.id b.id) cs

private theorem columns_sortColumns_eq (t : Table) : t.sortColumns.columns =
    t.parentKeyColumns.mergeSort t.parentLE ++ sortedById t.ownKeyColumns ++
      sortedById t.plainColumns :=
  rfl

/-- Sorting a table sorts each of the three groups. -/
private theorem parentKeyColumns_sortColumns (t : Table) :
    t.sortColumns.parentKeyColumns = t.parentKeyColumns.mergeSort t.parentLE := by
  have hkey : t.sortColumns.isParentKey = t.isParentKey := rfl
  rw [parentKeyColumns, columns_sortColumns_eq, hkey, List.filter_append, List.filter_append,
    parentKeyColumns, filter_mergeSort_self, ownKeyColumns, plainColumns, sortedById, sortedById,
    filter_mergeSort_eq_nil _ _ _ (by simp),
    filter_mergeSort_eq_nil _ _ _ (by simp +contextual [isParentKey]), List.append_nil,
    List.append_nil]

theorem ownKeyColumns_sortColumns (t : Table) :
    t.sortColumns.ownKeyColumns = sortedById t.ownKeyColumns := by
  have hkey : t.sortColumns.isParentKey = t.isParentKey := rfl
  rw [ownKeyColumns, columns_sortColumns_eq, hkey, List.filter_append, List.filter_append,
    parentKeyColumns, filter_mergeSort_eq_nil _ _ _ (by simp +contextual), ownKeyColumns,
    sortedById, filter_mergeSort_self, plainColumns, sortedById,
    filter_mergeSort_eq_nil _ _ _ (by simp +contextual), List.append_nil, List.nil_append]

theorem plainColumns_sortColumns (t : Table) :
    t.sortColumns.plainColumns = sortedById t.plainColumns := by
  rw [plainColumns, columns_sortColumns_eq, List.filter_append, List.filter_append,
    parentKeyColumns, filter_mergeSort_eq_nil _ _ _ (by simp +contextual [isParentKey]),
    ownKeyColumns, sortedById, filter_mergeSort_eq_nil _ _ _ (by simp +contextual), plainColumns,
    sortedById, filter_mergeSort_self, List.nil_append, List.nil_append]

private theorem sortedById_sortedById (cs : List Column) :
    sortedById (sortedById cs) = sortedById cs :=
  List.mergeSort_of_pairwise (pairwise_sortedById cs)

/-- Sorting twice is sorting once. -/
theorem sortColumns_sortColumns (t : Table) : t.sortColumns.sortColumns = t.sortColumns := by
  have hparents : (t.parentKeyColumns.mergeSort t.parentLE).mergeSort t.parentLE =
      t.parentKeyColumns.mergeSort t.parentLE :=
    List.mergeSort_of_pairwise (t.pairwise_parentLE _)
  have hcolumns : t.sortColumns.sortColumns.columns = t.sortColumns.columns := by
    rw [columns_sortColumns_eq, parentKeyColumns_sortColumns, ownKeyColumns_sortColumns,
      plainColumns_sortColumns, sortedById_sortedById, sortedById_sortedById,
      columns_sortColumns_eq]
    exact congrArg (· ++ _ ++ _) hparents
  calc t.sortColumns.sortColumns
      = { t.sortColumns with columns := t.sortColumns.sortColumns.columns } := rfl
    _ = t.sortColumns := by rw [hcolumns]

/-- Columns of different names are different in name however they are selected and sorted. -/
private theorem pairwise_ne_mergeSort_filter {cs : List Column} (h : (cs.map Column.id).Nodup)
    (p : Column → Bool) (le : Column → Column → Bool) :
    ((cs.filter p).mergeSort le).Pairwise fun c d => c.id ≠ d.id := by
  have hperm : (((cs.filter p).mergeSort le).map Column.id).Perm ((cs.filter p).map Column.id) :=
    (List.mergeSort_perm _ _).map Column.id
  exact List.pairwise_map.mp (hperm.nodup_iff.mpr (h.sublist (List.filter_sublist.map Column.id)))

private theorem pairwise_lt_sortedById {cs : List Column} (h : (cs.map Column.id).Nodup)
    (p : Column → Bool) : (sortedById (cs.filter p)).Pairwise fun c d => c.id < d.id := by
  refine ((pairwise_sortedById _).and (pairwise_ne_mergeSort_filter h p _)).imp ?_
  rintro c d ⟨hle, hne⟩
  exact ((Text.sortsBefore_iff _ _).mp hle).resolve_right hne

/-- Sorting columns of different names puts them in canonical order. -/
theorem isCanonical_sortColumns (h : (t.columns.map Column.id).Nodup) :
    t.sortColumns.IsCanonical where
  columns_eq := by
    rw [parentKeyColumns_sortColumns, ownKeyColumns_sortColumns, plainColumns_sortColumns,
      columns_sortColumns_eq]
  parentKeys := by
    rw [parentKeyColumns_sortColumns]
    refine ((t.pairwise_parentLE _).and (pairwise_ne_mergeSort_filter h _ _)).imp_of_mem ?_
    rintro c d hc - ⟨hle, hne⟩
    have hmem : c.id ∈ t.parentKeyColumnIds := by
      have hparent := (List.mem_filter.mp (List.mem_mergeSort.mp hc)).2
      simp only [isParentKey, Bool.and_eq_true, decide_eq_true_eq] at hparent
      exact hparent.2
    refine Nat.lt_of_le_of_ne (of_decide_eq_true hle) fun hsame => hne ?_
    exact (List.idxOf_inj hmem).mp hsame
  ownKeys := by
    rw [ownKeyColumns_sortColumns]
    exact pairwise_lt_sortedById h _
  plain := by
    rw [plainColumns_sortColumns]
    exact pairwise_lt_sortedById h _

theorem isCanonical_of_sortColumns_eq (h : (t.columns.map Column.id).Nodup)
    (hsorted : t.sortColumns = t) : t.IsCanonical :=
  hsorted ▸ isCanonical_sortColumns h

/-- In canonical order the key columns come first. -/
theorem IsCanonical.primaryKeys_isPrefix (h : t.IsCanonical) : t.primaryKeys <+: t.columns := by
  have hparents : t.parentKeyColumns.filter Column.isPartOfPrimaryKey = t.parentKeyColumns :=
    List.filter_eq_self.mpr fun c hc =>
      (Bool.and_eq_true_iff.mp (List.mem_filter.mp hc).2).1
  have hown : t.ownKeyColumns.filter Column.isPartOfPrimaryKey = t.ownKeyColumns :=
    List.filter_eq_self.mpr fun c hc =>
      (Bool.and_eq_true_iff.mp (List.mem_filter.mp hc).2).1
  have hplain : t.plainColumns.filter Column.isPartOfPrimaryKey = [] :=
    List.filter_eq_nil_iff.mpr fun c hc => by simpa using (List.mem_filter.mp hc).2
  refine ⟨t.plainColumns, ?_⟩
  rw [primaryKeys, h.columns_eq, List.filter_append, List.filter_append, hparents, hown, hplain,
    List.append_nil]

/-! ### Changes that leave tables sorted -/

theorem sortColumns_addForeignKey (t : Table) (k : ForeignKey) :
    (t.addForeignKey k).sortColumns = t.sortColumns.addForeignKey k := by
  have hkeys : t.sortColumns.foreignKeys = t.foreignKeys := rfl
  simp only [addForeignKey, hkeys]
  split_ifs <;> rfl

theorem sortColumns_eq_arranged {v : Version} (hv : v.sortsColumns = true) (t : Table) :
    (TableSet.arranged v t).sortColumns = TableSet.arranged v t := by
  rw [TableSet.arranged, if_pos hv, sortColumns_sortColumns]

end Table

/-- A table that comes about in a step is sorted if the tables before the step are. -/
theorem Origin.sortColumns_eq {c : Config} {m : Model} {s : Schema} {t : Table}
    (hv : c.targetVersion.sortsColumns = true) (hs : ∀ u ∈ s.inserted, u.sortColumns = u)
    (h : Origin c m s t) : t.sortColumns = t := by
  induction h with
  | stored ht => exact hs _ ht
  | committed _ _ hfrom =>
    cases hfrom with
    | unlinked => exact Table.sortColumns_eq_arranged hv _
    | linked => rw [Table.sortColumns_addForeignKey, Table.sortColumns_eq_arranged hv]
  | baseDescriptor => exact Table.sortColumns_eq_arranged hv _
  | mapType =>
    rw [withMapType, Table.sortColumns_addForeignKey, Table.sortColumns_eq_arranged hv]
  | foreignKey k _ _ ih => rw [Table.sortColumns_addForeignKey, ih]

/-- From target version 7.0 on every table of a run is sorted. -/
theorem Reaches.sortColumns_eq {c : Config} {m : Model} {s : Schema}
    (hv : c.targetVersion.sortsColumns = true) (h : Reaches c m .empty s) :
    ∀ t ∈ s.inserted, t.sortColumns = t :=
  h.forall_inserted fun _ _ hs horigin => horigin.sortColumns_eq hv hs

/-- Whichever stages and passes of a run have succeeded so far, if the target version is at least
7.0, the columns of every table are in canonical order. So sorting would leave them as they are,
and the key columns come first. -/
theorem isCanonical_throughout (c : Config) (m : Model)
    (hv : c.targetVersion.isAtLeast 7 0 = true) :
    (∀ (before : List Stage) (stage : Stage) (passes : List Pass) (mid progress : Progress)
        (reports : List StageReport) (outcomes : List PassOutcome),
      runStages c m before .start = .ok (mid, reports) →
      runPasses c m stage passes mid = .ok (progress, outcomes) →
        ∀ t ∈ progress.schema.tables,
          t.IsCanonical ∧ t.sortColumns = t ∧ t.primaryKeys <+: t.columns) ∧
      ∀ r, derive c m = .ok r → ∀ t ∈ r.schema.tables,
        t.IsCanonical ∧ t.sortColumns = t ∧ t.primaryKeys <+: t.columns := by
  have htables {s : Schema} (h : Reaches c m .empty s) : ∀ t ∈ s.tables,
      t.IsCanonical ∧ t.sortColumns = t ∧ t.primaryKeys <+: t.columns := by
    intro t ht
    have hmem := Schema.mem_tables_iff.mp ht
    have hsorted := h.sortColumns_eq hv t hmem
    have hcanonical := Table.isCanonical_of_sortColumns_eq (h.hasDistinctColumns t hmem) hsorted
    exact ⟨hcanonical, hsorted, hcanonical.primaryKeys_isPrefix⟩
  constructor
  · intro before stage passes mid progress reports outcomes hbefore hpasses
    exact htables ((reaches_of_runStages hbefore).trans (reaches_of_runPasses hpasses))
  · intro r hr
    exact htables (reaches_of_derive hr)

/-- Meetings with items, which are identified by a number and a time. -/
def meetingModel : Model :=
  (Model.empty.addEntity
    (((((Entity.ofKind .common "EdFi" "Item").withProperty
      (Property.ofKind "To" (.scalar .integer))).withProperty
        (Property.ofKind "No" (.scalar .integer)).identity).withProperty
          (Property.ofKind "At" (.scalar .date)).identity).withProperty
            (Property.ofKind "By" (.scalar .integer)))).addEntity
    ((((Entity.ofKind .domainEntity "EdFi" "Meeting").withProperty
      (Property.ofKind "Agenda" (.scalar (.text 60)))).withProperty
        (Property.ofKind "MeetingId" (.scalar .integer)).identity).withProperty
          { (Property.ofKind "Item" .common).optionalCollection with referencedEntity := some 0 })

/-- After the first pass there are tables of meetings and items, with columns in canonical order.
The columns of items are the key of the meeting, the further key columns and the other columns. -/
theorem isCanonical_throughout_meetings :
    ∃ progress outcomes,
      runPasses Config.standard meetingModel .mainTables [.entityTables] .start =
        .ok (progress, outcomes) ∧
      (progress.schema.tables.map fun t => (t.key, t.parentKeyColumnIds,
        t.columns.map fun column => (column.id, column.isPartOfPrimaryKey))) =
        [(⟨"EdFi", "Meeting"⟩, [], [("MeetingId", true), ("Agenda", false)]),
          (⟨"EdFi", "MeetingItem"⟩, ["MeetingId"],
            [("MeetingId", true), ("At", true), ("No", true), ("By", false), ("To", false)])] ∧
      ∀ t ∈ progress.schema.tables,
        t.IsCanonical ∧ t.sortColumns = t ∧ t.primaryKeys <+: t.columns := by
  have hrun : (runPasses Config.standard meetingModel .mainTables [.entityTables]
      .start).toOption.any (fun r => (r.1.schema.tables.map fun t => (t.key, t.parentKeyColumnIds,
        t.columns.map fun column => (column.id, column.isPartOfPrimaryKey))) =
        [(⟨"EdFi", "Meeting"⟩, [], [("MeetingId", true), ("Agenda", false)]),
          (⟨"EdFi", "MeetingItem"⟩, ["MeetingId"], [("MeetingId", true), ("At", true),
            ("No", true), ("By", false), ("To", false)])]) = true := by
    cbv
  obtain ⟨⟨progress, outcomes⟩, hpasses, htables⟩ := exists_eq_ok_of_any hrun
  refine ⟨progress, outcomes, hpasses, of_decide_eq_true htables, ?_⟩
  exact (isCanonical_throughout _ _ (by decide)).1 [] .mainTables _ _ _ _ _ rfl hpasses

end Tabular
