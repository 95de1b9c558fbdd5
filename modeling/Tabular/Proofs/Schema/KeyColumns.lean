import Mathlib.Data.List.Perm.Basic
import Mathlib.Tactic.Common
import Tabular.Proofs.Schema.Carrying
import Tabular.Proofs.Schema.KeyOrder

/-!
# The names of key columns

A column that is merged into a key column, or that is a key column itself, belongs to the key of the
table afterwards, and no change of a table takes a name out of its key. This file says which names
are in the key after each change, and where the key of the parent stands in a sorted table.

## Main definitions

* `HasKey`: some column of a name is part of the key.

## Main results

* `hasKey_foldl_mergeColumn_iff`: the names in the key after columns have been merged into others.
* `Table.mem_primaryKeyIds_addColumns_iff`, `Table.mem_primaryKeyIds_addParentKeys_iff`,
  `Table.mem_primaryKeyIds_arranged_iff`: the same for tables.
* `Table.isPrefix_columns_sortColumns`: a sorted table starts with the key of its parent.
-/

namespace Tabular

/-- Some column of the given name is part of the key. -/
def HasKey (cs : List Column) (id : String) : Prop :=
  ∃ c ∈ cs, c.id = id ∧ c.isPartOfPrimaryKey = true

variable {v : Version} {cs ks : List Column} {c : Column} {id : String}

/-! ### Merging columns -/

theorem hasKey_perm (h : cs.Perm ks) : HasKey cs id ↔ HasKey ks id := by
  simp only [HasKey, h.mem_iff]

theorem hasKey_append : HasKey (cs ++ ks) id ↔ HasKey cs id ∨ HasKey ks id := by
  simp [HasKey, or_and_right, exists_or]

theorem hasKey_cons : HasKey (c :: cs) id ↔
    (c.id = id ∧ c.isPartOfPrimaryKey = true) ∨ HasKey cs id := by
  simp [HasKey]

/-- A merged column is part of the key if either side is. -/
theorem hasKey_mergeColumn_iff : HasKey (mergeColumn v cs c) id ↔
    HasKey cs id ∨ (c.id = id ∧ c.isPartOfPrimaryKey = true) := by
  rcases mergeColumn_cases v c cs with ⟨before, d, after, rfl, hd, hperm⟩ | ⟨-, hnew⟩
  · have hmerged : ((d.merge c).id = id ∧ (d.merge c).isPartOfPrimaryKey = true) ↔
        (d.id = id ∧ d.isPartOfPrimaryKey = true) ∨ (c.id = id ∧ c.isPartOfPrimaryKey = true) := by
      simp only [Column.merge, Bool.or_eq_true, hd]
      tauto
    rw [hasKey_perm hperm, hasKey_append, hasKey_cons, hasKey_append, hasKey_cons, hmerged]
    tauto
  · rw [hnew, hasKey_append, hasKey_cons]
    simp [HasKey]

/-- The key after columns have been merged into others consists of both keys. -/
theorem hasKey_foldl_mergeColumn_iff :
    HasKey (ks.foldl (mergeColumn v) cs) id ↔ HasKey cs id ∨ HasKey ks id := by
  induction ks generalizing cs with
  | nil => simp [HasKey]
  | cons k rest ih => rw [List.foldl_cons, ih, hasKey_mergeColumn_iff, hasKey_cons, or_assoc]

/-! ### Changes of a table -/

namespace Table

variable {t : Table}

theorem mem_primaryKeyIds_iff : id ∈ t.primaryKeyIds ↔ HasKey t.columns id := by
  simp only [primaryKeyIds, primaryKeys, HasKey, List.mem_map, List.mem_filter]
  exact exists_congr fun c => by tauto

theorem mem_primaryKeyIds_addColumns_iff :
    id ∈ (t.addColumns v cs).primaryKeyIds ↔ id ∈ t.primaryKeyIds ∨ HasKey cs id := by
  rw [mem_primaryKeyIds_iff, mem_primaryKeyIds_iff, columns_addColumns,
    hasKey_foldl_mergeColumn_iff]

/-- All columns taken over from the parent are in the key. -/
theorem mem_primaryKeyIds_addParentKeys_iff :
    id ∈ (t.addParentKeys v cs).primaryKeyIds ↔ id ∈ t.primaryKeyIds ∨ id ∈ cs.map Column.id := by
  have hparents : HasKey (cs.map Column.asParentKey) id ↔ id ∈ cs.map Column.id := by
    simp [HasKey, Column.asParentKey]
  rw [mem_primaryKeyIds_iff, mem_primaryKeyIds_iff, columns_addParentKeys,
    hasKey_foldl_mergeColumn_iff, hparents]

theorem primaryKeyIds_addReferenceSource (r : ReferenceSource) :
    (t.addReferenceSource r).primaryKeyIds = t.primaryKeyIds := by
  rw [primaryKeyIds, primaryKeys, columns_addReferenceSource]
  rfl

/-- Arranging a table keeps the names in its key. -/
theorem mem_primaryKeyIds_arranged_iff :
    id ∈ (TableSet.arranged v t).primaryKeyIds ↔ id ∈ t.primaryKeyIds := by
  rw [mem_primaryKeyIds_iff, mem_primaryKeyIds_iff]
  unfold TableSet.arranged
  split_ifs
  · exact hasKey_perm t.columns_sortColumns_perm
  · exact Iff.rfl

theorem nodup_primaryKeyIds (h : (t.columns.map Column.id).Nodup) : t.primaryKeyIds.Nodup :=
  h.sublist (List.filter_sublist.map Column.id)

end Table

/-! ### The key of the parent in a sorted table -/

/-- If a key contains the key of the parent, the latter comes first in key order. -/
theorem isPrefix_keyOrder {parents ids : List String} (hparents : parents.Nodup) (hids : ids.Nodup)
    (hmem : ∀ id ∈ parents, id ∈ ids) : parents <+: keyOrder parents ids := by
  have hperm : (ids.filter fun id => id ∈ parents).Perm parents := by
    rw [List.perm_ext_iff_of_nodup (hids.filter _) hparents]
    intro id
    simp only [List.mem_filter, decide_eq_true_eq]
    exact ⟨fun h => h.2, fun h => ⟨hmem id h, h⟩⟩
  -- both lists are in the order of the positions, and different names have different positions
  have hsorted : parents.Pairwise fun a b => decide (parents.idxOf a ≤ parents.idxOf b) := by
    rw [List.pairwise_iff_getElem]
    intro i j hi hj hij
    simp only [hparents.idxOf_getElem, decide_eq_true_eq]
    omega
  have hfirst : (ids.filter fun id => id ∈ parents).mergeSort
      (fun a b => parents.idxOf a ≤ parents.idxOf b) = parents := by
    refine List.Perm.eq_of_pairwise ?_ (List.pairwise_mergeSort ?_ ?_ _) hsorted
      ((List.mergeSort_perm _ _).trans hperm)
    · intro a b _ hb hab hba
      simp only [decide_eq_true_eq] at hab hba
      exact (List.idxOf_inj hb).mp (Nat.le_antisymm hba hab) |>.symm
    · intro a b c hab hbc
      simp only [decide_eq_true_eq] at hab hbc ⊢
      omega
    · intro a b
      simp only [Bool.or_eq_true, decide_eq_true_eq]
      omega
  rw [keyOrder, hfirst]
  exact List.prefix_append _ _

/-- A sorted table whose key contains the key of its parent starts with the latter. -/
theorem Table.isPrefix_columns_sortColumns {t : Table} (hcolumns : (t.columns.map Column.id).Nodup)
    (hparents : t.parentKeyColumnIds.Nodup)
    (hmem : ∀ id ∈ t.parentKeyColumnIds, id ∈ t.primaryKeyIds) :
    t.parentKeyColumnIds <+: t.sortColumns.columns.map Column.id := by
  rw [columns_sortColumns, List.map_append]
  have hkeys : t.parentKeyColumnIds <+: t.sortColumns.primaryKeyIds := by
    rw [primaryKeyIds_sortColumns]
    exact isPrefix_keyOrder hparents (nodup_primaryKeyIds hcolumns) hmem
  exact hkeys.trans (List.prefix_append _ _)

end Tabular
