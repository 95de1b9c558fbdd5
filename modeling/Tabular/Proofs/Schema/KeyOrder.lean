import Mathlib.Tactic.Common
import Tabular.Derive.TableSet

/-!
# The order of key columns

Sorting the columns of a table rearranges its key in a way that depends on nothing but the key
itself and the key of the parent. This file describes that order on column names and shows that it
is stable: a sorted table keeps its key sequence when it receives a column outside the key and is
sorted again.

## Main definitions

* `keyOrder`: the order in which sorting leaves the key columns.
* `Table.IsArranged`: sorting would leave the key columns where they are.

## Main results

* `Table.columns_sortColumns`, `Table.primaryKeyIds_sortColumns`: a sorted table starts with its key,
  which is in key order.
* `Table.isArranged_sortColumns`: a sorted table is arranged.
* `Table.primaryKeyIds_addColumn_of_mergesInPlace`: a column outside the key leaves the key alone.
-/

namespace Tabular

/-! ### The order of texts -/

namespace Text

theorem codePointsLE_total : (as bs : List Char) →
    (codePointsLE as bs || codePointsLE bs as) = true
  | [], _ => by simp [codePointsLE]
  | _ :: _, [] => by simp [codePointsLE]
  | a :: as, b :: bs => by
    have ih := codePointsLE_total as bs
    simp only [codePointsLE]
    split_ifs <;> simp_all

theorem codePointsLE_trans : (as bs cs : List Char) → codePointsLE as bs = true →
    codePointsLE bs cs = true → codePointsLE as cs = true
  | [], _, _, _, _ => by simp [codePointsLE]
  | _ :: _, [], _, h, _ => by simp [codePointsLE] at h
  | _ :: _, _ :: _, [], _, h => by simp [codePointsLE] at h
  | a :: as, b :: bs, c :: cs, hab, hbc => by
    have ih := codePointsLE_trans as bs cs
    simp only [codePointsLE] at hab hbc ⊢
    rcases Nat.lt_trichotomy a.toNat b.toNat with h | h | h <;>
      rcases Nat.lt_trichotomy b.toNat c.toNat with h' | h' | h' <;>
        split_ifs <;> simp_all <;> omega

theorem codePointsLE_antisymm : (as bs : List Char) → codePointsLE as bs = true →
    codePointsLE bs as = true → as = bs
  | [], [], _, _ => rfl
  | [], _ :: _, _, h => by simp [codePointsLE] at h
  | _ :: _, [], h, _ => by simp [codePointsLE] at h
  | a :: as, b :: bs, hab, hba => by
    have ih := codePointsLE_antisymm as bs
    simp only [codePointsLE] at hab hba
    rcases Nat.lt_trichotomy a.toNat b.toNat with h | h | h
    · simp [h, Nat.not_lt_of_gt h] at hba
    · have hchar : a = b := Char.toNat_inj.mp h
      subst hchar
      simp only [Nat.lt_irrefl, if_false] at hab hba
      rw [ih hab hba]
    · simp [h, Nat.not_lt_of_gt h] at hab

theorem sortsBefore_total (a b : String) : (sortsBefore a b || sortsBefore b a) = true :=
  codePointsLE_total a.toList b.toList

theorem sortsBefore_trans (a b c : String) (hab : sortsBefore a b = true)
    (hbc : sortsBefore b c = true) : sortsBefore a c = true :=
  codePointsLE_trans a.toList b.toList c.toList hab hbc

theorem sortsBefore_antisymm {a b : String} (hab : sortsBefore a b = true)
    (hba : sortsBefore b a = true) : a = b :=
  String.toList_inj.mp (codePointsLE_antisymm a.toList b.toList hab hba)

/-- Code point order is the order of texts. -/
theorem codePointsLE_iff : (as bs : List Char) →
    (codePointsLE as bs = true ↔ as < bs ∨ as = bs)
  | [], [] => by simp [codePointsLE]
  | [], _ :: _ => by simp [codePointsLE]
  | _ :: _, [] => by simp [codePointsLE]
  | a :: as, b :: bs => by
    rw [codePointsLE, List.cons_lt_cons_iff, List.cons.injEq]
    rcases Nat.lt_trichotomy a.toNat b.toNat with h | h | h
    · have hlt : a < b := h
      simp [h, hlt]
    · obtain rfl : a = b := Char.toNat_inj.mp h
      simp [codePointsLE_iff as bs]
    · have hnot : ¬a < b := Nat.not_lt_of_gt h
      have hne : a ≠ b := fun heq => Nat.lt_irrefl _ (heq ▸ h)
      simp [h, Nat.not_lt_of_gt h, hnot, hne]

theorem sortsBefore_iff (a b : String) : sortsBefore a b = true ↔ a < b ∨ a = b := by
  rw [sortsBefore, codePointsLE_iff, String.toList_inj]
  rfl

end Text

/-! ### The order of a key -/

/-- The names of key columns in the order in which sorting leaves them: first those of the parent's
key, in the order of the parent, then the others by name. -/
def keyOrder (parents ids : List String) : List String :=
  (ids.filter fun id => id ∈ parents).mergeSort
      (fun a b => parents.idxOf a ≤ parents.idxOf b) ++
    (ids.filter fun id => id ∉ parents).mergeSort Text.sortsBefore

theorem filter_mergeSort_self {α : Type} (le : α → α → Bool) (p : α → Bool)
    (xs : List α) : ((xs.filter p).mergeSort le).filter p = (xs.filter p).mergeSort le :=
  List.filter_eq_self.mpr fun _ h => (List.mem_filter.mp (List.mem_mergeSort.mp h)).2

theorem filter_mergeSort_eq_nil {α : Type} (le : α → α → Bool) (p q : α → Bool)
    (hpq : ∀ a, p a = true → q a = false) (xs : List α) :
    ((xs.filter p).mergeSort le).filter q = [] :=
  List.filter_eq_nil_iff.mpr fun a h => by
    rw [hpq a (List.mem_filter.mp (List.mem_mergeSort.mp h)).2]
    exact Bool.false_ne_true

/-- Sorting a sorted key changes nothing. -/
theorem keyOrder_keyOrder (parents ids : List String) :
    keyOrder parents (keyOrder parents ids) = keyOrder parents ids := by
  have hfirst : ((ids.filter fun id => id ∈ parents).mergeSort
      (fun a b => parents.idxOf a ≤ parents.idxOf b)).Pairwise
        (fun a b => decide (parents.idxOf a ≤ parents.idxOf b)) := by
    apply List.pairwise_mergeSort
    · intro a b c hab hbc
      simp only [decide_eq_true_eq] at hab hbc ⊢
      omega
    · intro a b
      simp only [Bool.or_eq_true, decide_eq_true_eq]
      omega
  have hsecond : ((ids.filter fun id => id ∉ parents).mergeSort Text.sortsBefore).Pairwise
      (fun a b => Text.sortsBefore a b) :=
    List.pairwise_mergeSort Text.sortsBefore_trans Text.sortsBefore_total _
  have hparents : (keyOrder parents ids).filter (fun id => id ∈ parents) =
      (ids.filter fun id => id ∈ parents).mergeSort
        (fun a b => parents.idxOf a ≤ parents.idxOf b) := by
    rw [keyOrder, List.filter_append, filter_mergeSort_self,
      filter_mergeSort_eq_nil _ _ _ (by simp), List.append_nil]
  have hothers : (keyOrder parents ids).filter (fun id => id ∉ parents) =
      (ids.filter fun id => id ∉ parents).mergeSort Text.sortsBefore := by
    rw [keyOrder, List.filter_append, filter_mergeSort_self,
      filter_mergeSort_eq_nil _ _ _ (by simp), List.nil_append]
  calc keyOrder parents (keyOrder parents ids)
      = ((keyOrder parents ids).filter fun id => id ∈ parents).mergeSort
            (fun a b => parents.idxOf a ≤ parents.idxOf b) ++
          ((keyOrder parents ids).filter fun id => id ∉ parents).mergeSort Text.sortsBefore :=
        rfl
    _ = keyOrder parents ids := by
        rw [hparents, hothers, List.mergeSort_of_pairwise hfirst,
          List.mergeSort_of_pairwise hsecond, keyOrder]

namespace Table

@[simp] theorem primaryKeyIds_addForeignKey (t : Table) (k : ForeignKey) :
    (t.addForeignKey k).primaryKeyIds = t.primaryKeyIds := by
  unfold addForeignKey
  split_ifs <;> rfl

@[simp] theorem parentKeyColumnIds_addForeignKey (t : Table) (k : ForeignKey) :
    (t.addForeignKey k).parentKeyColumnIds = t.parentKeyColumnIds := by
  unfold addForeignKey
  split_ifs <;> rfl

private theorem filter_isParentKey (t : Table) :
    t.columns.filter t.isParentKey =
      t.primaryKeys.filter fun c => c.id ∈ t.parentKeyColumnIds := by
  rw [primaryKeys, List.filter_filter]
  congr 1
  funext c
  simp [isParentKey, Bool.and_comm]

private theorem filter_not_isParentKey (t : Table) :
    (t.columns.filter fun c => c.isPartOfPrimaryKey && !t.isParentKey c) =
      t.primaryKeys.filter fun c => c.id ∉ t.parentKeyColumnIds := by
  rw [primaryKeys, List.filter_filter]
  congr 1
  funext c
  cases h : c.isPartOfPrimaryKey <;> simp [isParentKey, h]

/-- The key columns of a sorted table: those of the parent's key, then the others. -/
theorem primaryKeys_sortColumns (t : Table) : t.sortColumns.primaryKeys =
    (t.columns.filter t.isParentKey).mergeSort (fun c d =>
      t.parentKeyColumnIds.idxOf c.id ≤ t.parentKeyColumnIds.idxOf d.id) ++
      sortedById (t.columns.filter fun c => c.isPartOfPrimaryKey && !t.isParentKey c) := by
  have hparents := List.filter_eq_self.mpr fun c (hc : c ∈
      (t.columns.filter t.isParentKey).mergeSort (fun c d => decide
        (t.parentKeyColumnIds.idxOf c.id ≤ t.parentKeyColumnIds.idxOf d.id))) =>
    (Bool.and_eq_true_iff.mp (List.mem_filter.mp (List.mem_mergeSort.mp hc)).2).1
  have hothers := List.filter_eq_self.mpr fun c (hc : c ∈ sortedById
      (t.columns.filter fun c => c.isPartOfPrimaryKey && !t.isParentKey c)) =>
    (Bool.and_eq_true_iff.mp (List.mem_filter.mp (List.mem_mergeSort.mp hc)).2).1
  have hrest : (sortedById (t.columns.filter fun c => !c.isPartOfPrimaryKey)).filter
      Column.isPartOfPrimaryKey = [] :=
    filter_mergeSort_eq_nil _ _ _ (by simp) t.columns
  simp only [primaryKeys, sortColumns, List.filter_append]
  rw [hparents, hothers, hrest, List.append_nil]

/-- The columns of a sorted table start with its key. -/
theorem columns_sortColumns (t : Table) : t.sortColumns.columns =
    t.sortColumns.primaryKeys ++ sortedById (t.columns.filter fun c => !c.isPartOfPrimaryKey) := by
  rw [primaryKeys_sortColumns]
  rfl

/-- The key of a sorted table is the key of the table in key order. -/
theorem primaryKeyIds_sortColumns (t : Table) :
    t.sortColumns.primaryKeyIds = keyOrder t.parentKeyColumnIds t.primaryKeyIds := by
  rw [primaryKeyIds, primaryKeys_sortColumns, filter_isParentKey, filter_not_isParentKey,
    List.map_append, sortedById, List.map_mergeSort (s := fun a b => decide
      (t.parentKeyColumnIds.idxOf a ≤ t.parentKeyColumnIds.idxOf b)),
    List.map_mergeSort (s := Text.sortsBefore), keyOrder, primaryKeyIds, List.filter_map,
    List.filter_map]
  · rfl
  · intro c _ d _
    rfl
  · intro c _ d _
    rfl

@[simp] theorem parentKeyColumnIds_sortColumns (t : Table) :
    t.sortColumns.parentKeyColumnIds = t.parentKeyColumnIds :=
  rfl

/-- Sorting would leave the key columns where they are. -/
def IsArranged (t : Table) : Prop :=
  keyOrder t.parentKeyColumnIds t.primaryKeyIds = t.primaryKeyIds

theorem isArranged_sortColumns (t : Table) : t.sortColumns.IsArranged := by
  rw [IsArranged, primaryKeyIds_sortColumns, parentKeyColumnIds_sortColumns, keyOrder_keyOrder]

end Table

/-! ### Columns outside the key -/

private theorem keyIds_mergeInPlace {c : Column} (hc : c.isPartOfPrimaryKey = false) :
    (cs : List Column) → ((mergeInPlace c cs).filter Column.isPartOfPrimaryKey).map Column.id =
      (cs.filter Column.isPartOfPrimaryKey).map Column.id
  | [] => by simp [mergeInPlace, hc]
  | d :: rest => by
    rw [mergeInPlace]
    split_ifs with h
    · cases hd : d.isPartOfPrimaryKey <;> simp [Column.merge, hc, hd]
    · cases hd : d.isPartOfPrimaryKey <;> simp [hd, keyIds_mergeInPlace hc rest]

/-- A column outside the key leaves the key alone if repeated columns stay where they are. -/
theorem Table.primaryKeyIds_addColumn_of_mergesInPlace {v : Version} (hv : v.mergesInPlace = true)
    (t : Table) {c : Column} (hc : c.isPartOfPrimaryKey = false) :
    (t.addColumn v c).primaryKeyIds = t.primaryKeyIds := by
  simp only [primaryKeyIds, primaryKeys, addColumn, mergeColumn, hv, if_true]
  exact keyIds_mergeInPlace hc t.columns

end Tabular
