import Mathlib.Tactic.Common
import Tabular.Derive.TableSet

/-!
# What changes of a table leave alone

A table under construction receives columns, foreign keys and reference sources. Each of these
changes concerns one part of the table; this file says which parts stay as they are.

## Main results

* `Table.key_addColumns`, `Table.foreignKeys_addColumns`, `Table.referenceSources_addColumns`:
  columns change neither the address nor foreign keys and reference sources.
* `Table.mem_foreignKeys_addForeignKey`: the foreign keys after one has been added.
* `Table.mem_referenceSources_addReferenceSource`: the same for reference sources.
* `Table.parentEntity_addColumns`, `Table.parentEntity_addForeignKey`: no change concerns the owner.
* `Table.reason_addColumns`, `Table.reason_addForeignKey`: or the reason.
-/

namespace Tabular

namespace Table

variable (v : Version) (t : Table)

/-! ### Columns -/

/-- Adding columns changes the columns only. -/
theorem addColumns_eq (cs : List Column) :
    t.addColumns v cs = { t with columns := cs.foldl (mergeColumn v) t.columns } := by
  induction cs generalizing t with
  | nil => rfl
  | cons c rest ih =>
    rw [addColumns, List.foldl_cons, ← addColumns, ih]
    rfl

/-- Adding the key of the parent changes the columns and the record of the parent's key. -/
theorem addParentKeys_eq (cs : List Column) : ∃ ids,
    t.addParentKeys v cs = { t with
      columns := (cs.map Column.asParentKey).foldl (mergeColumn v) t.columns
      parentKeyColumnIds := ids } := by
  induction cs generalizing t with
  | nil => exact ⟨t.parentKeyColumnIds, rfl⟩
  | cons c rest ih =>
    obtain ⟨ids, h⟩ := ih (t.addParentKey v c)
    refine ⟨ids, ?_⟩
    rw [addParentKeys, List.foldl_cons, ← addParentKeys, h]
    rfl

@[simp] theorem columns_addColumns (cs : List Column) :
    (t.addColumns v cs).columns = cs.foldl (mergeColumn v) t.columns := by
  rw [addColumns_eq]

@[simp] theorem key_addColumns (cs : List Column) : (t.addColumns v cs).key = t.key := by
  rw [addColumns_eq]
  rfl

@[simp] theorem foreignKeys_addColumns (cs : List Column) :
    (t.addColumns v cs).foreignKeys = t.foreignKeys := by
  rw [addColumns_eq]

@[simp] theorem referenceSources_addColumns (cs : List Column) :
    (t.addColumns v cs).referenceSources = t.referenceSources := by
  rw [addColumns_eq]

@[simp] theorem parentKeyColumnIds_addColumns (cs : List Column) :
    (t.addColumns v cs).parentKeyColumnIds = t.parentKeyColumnIds := by
  rw [addColumns_eq]

@[simp] theorem columns_addParentKeys (cs : List Column) :
    (t.addParentKeys v cs).columns =
      (cs.map Column.asParentKey).foldl (mergeColumn v) t.columns := by
  obtain ⟨ids, h⟩ := t.addParentKeys_eq v cs
  rw [h]

@[simp] theorem key_addParentKeys (cs : List Column) : (t.addParentKeys v cs).key = t.key := by
  obtain ⟨ids, h⟩ := t.addParentKeys_eq v cs
  rw [h]
  rfl

@[simp] theorem foreignKeys_addParentKeys (cs : List Column) :
    (t.addParentKeys v cs).foreignKeys = t.foreignKeys := by
  obtain ⟨ids, h⟩ := t.addParentKeys_eq v cs
  rw [h]

@[simp] theorem referenceSources_addParentKeys (cs : List Column) :
    (t.addParentKeys v cs).referenceSources = t.referenceSources := by
  obtain ⟨ids, h⟩ := t.addParentKeys_eq v cs
  rw [h]

/-! ### Foreign keys and reference sources -/

@[simp] theorem columns_addForeignKey (k : ForeignKey) :
    (t.addForeignKey k).columns = t.columns := by
  unfold addForeignKey
  split_ifs <;> rfl

@[simp] theorem key_addForeignKey (k : ForeignKey) : (t.addForeignKey k).key = t.key := by
  unfold addForeignKey
  split_ifs <;> rfl

@[simp] theorem namespaceName_addForeignKey (k : ForeignKey) :
    (t.addForeignKey k).namespaceName = t.namespaceName :=
  congrArg TableKey.namespaceName (t.key_addForeignKey k)

@[simp] theorem referenceSources_addForeignKey (k : ForeignKey) :
    (t.addForeignKey k).referenceSources = t.referenceSources := by
  unfold addForeignKey
  split_ifs <;> rfl

variable {t}

/-- The foreign keys after one has been added are the former ones and perhaps that one. -/
theorem mem_foreignKeys_addForeignKey {j k : ForeignKey}
    (h : j ∈ (t.addForeignKey k).foreignKeys) : j ∈ t.foreignKeys ∨ j = k := by
  unfold addForeignKey at h
  split_ifs at h
  · exact Or.inl h
  · simpa using h

variable (t)

@[simp] theorem columns_addReferenceSource (s : ReferenceSource) :
    (t.addReferenceSource s).columns = t.columns := by
  unfold addReferenceSource
  split_ifs <;> rfl

@[simp] theorem key_addReferenceSource (s : ReferenceSource) :
    (t.addReferenceSource s).key = t.key := by
  unfold addReferenceSource
  split_ifs <;> rfl

@[simp] theorem foreignKeys_addReferenceSource (s : ReferenceSource) :
    (t.addReferenceSource s).foreignKeys = t.foreignKeys := by
  unfold addReferenceSource
  split_ifs <;> rfl

@[simp] theorem parentKeyColumnIds_addReferenceSource (s : ReferenceSource) :
    (t.addReferenceSource s).parentKeyColumnIds = t.parentKeyColumnIds := by
  unfold addReferenceSource
  split_ifs <;> rfl

/-- The reference sources after one has been added are the former ones and that one. -/
theorem mem_referenceSources_addReferenceSource {r s : ReferenceSource} :
    r ∈ (t.addReferenceSource s).referenceSources ↔ r ∈ t.referenceSources ∨ r = s := by
  unfold addReferenceSource
  split_ifs with h
  · constructor
    · exact Or.inl
    · rintro (hr | rfl)
      · exact hr
      · exact h
  · simp

/-! ### Arrangement -/

@[simp] theorem key_arranged : (TableSet.arranged v t).key = t.key := by
  unfold TableSet.arranged
  split_ifs <;> rfl

@[simp] theorem foreignKeys_arranged : (TableSet.arranged v t).foreignKeys = t.foreignKeys := by
  unfold TableSet.arranged
  split_ifs <;> rfl

@[simp] theorem referenceSources_arranged :
    (TableSet.arranged v t).referenceSources = t.referenceSources := by
  unfold TableSet.arranged
  split_ifs <;> rfl

@[simp] theorem parentKeyColumnIds_arranged :
    (TableSet.arranged v t).parentKeyColumnIds = t.parentKeyColumnIds := by
  unfold TableSet.arranged
  split_ifs <;> rfl

/-! ### Owners -/

@[simp] theorem parentEntity_addColumns (cs : List Column) :
    (t.addColumns v cs).parentEntity = t.parentEntity := by
  rw [addColumns_eq]

@[simp] theorem parentEntity_addParentKeys (cs : List Column) :
    (t.addParentKeys v cs).parentEntity = t.parentEntity := by
  obtain ⟨ids, h⟩ := t.addParentKeys_eq v cs
  rw [h]

@[simp] theorem parentEntity_addForeignKey (k : ForeignKey) :
    (t.addForeignKey k).parentEntity = t.parentEntity := by
  unfold addForeignKey
  split_ifs <;> rfl

@[simp] theorem parentEntity_addReferenceSource (s : ReferenceSource) :
    (t.addReferenceSource s).parentEntity = t.parentEntity := by
  unfold addReferenceSource
  split_ifs <;> rfl

@[simp] theorem parentEntity_arranged :
    (TableSet.arranged v t).parentEntity = t.parentEntity := by
  unfold TableSet.arranged
  split_ifs <;> rfl

/-! ### Reasons -/

@[simp] theorem reason_addColumns (cs : List Column) :
    (t.addColumns v cs).reason = t.reason := by
  rw [addColumns_eq]

@[simp] theorem reason_addParentKeys (cs : List Column) :
    (t.addParentKeys v cs).reason = t.reason := by
  obtain ⟨ids, h⟩ := t.addParentKeys_eq v cs
  rw [h]

@[simp] theorem reason_addForeignKey (k : ForeignKey) : (t.addForeignKey k).reason = t.reason := by
  unfold addForeignKey
  split_ifs <;> rfl

@[simp] theorem reason_addReferenceSource (s : ReferenceSource) :
    (t.addReferenceSource s).reason = t.reason := by
  unfold addReferenceSource
  split_ifs <;> rfl

@[simp] theorem reason_arranged : (TableSet.arranged v t).reason = t.reason := by
  unfold TableSet.arranged
  split_ifs <;> rfl

end Table

end Tabular
