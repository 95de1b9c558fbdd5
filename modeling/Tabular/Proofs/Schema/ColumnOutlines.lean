import Mathlib.Algebra.Order.Group.Multiset
import Mathlib.Data.Multiset.Fold
import Mathlib.Tactic.Common
import Tabular.Proofs.Schema.KeyColumns

/-!
# Columns regardless of their order

Columns that enter a table are merged by name, and the flags of the result do not depend on the
order in which they come. A sorted table does not depend on it at all, as far as names and flags go.

## Main definitions

* `ColumnOutline`, `outlines`: names and flags of columns, without order.
* `flagsAt`, `merged`: the flags of all columns of a name, and one column for each name with these.
* `keyIds`, `keyOrderOf`: the names of key columns, and these in key order.

## Main results

* `outlines_foldl_mergeColumn`: the columns of a table depend only on the columns that entered it.
* `keyOrder_eq_of_perm`: the order of a key does not depend on the order in which its columns come.
* `Table.primaryKeyIds_sortColumns_eq`: the key of a sorted table.
* `Table.map_outline_sortColumns_eq`: names and flags of sorted columns.
-/

namespace Tabular

/-! ### Outlines -/

/-- The name and the flags of a column. -/
structure ColumnOutline where
  id : String
  isNullable : Bool
  isPartOfPrimaryKey : Bool
  deriving DecidableEq

/-- The name and the flags of a column. -/
def Column.outline (c : Column) : ColumnOutline :=
  ⟨c.id, c.isNullable, c.isPartOfPrimaryKey⟩

/-- Names and flags of columns, without their order. -/
def outlines (cs : List Column) : Multiset ColumnOutline :=
  (cs.map Column.outline : List ColumnOutline)

variable {v : Version} {cs ks : List Column} {c : Column} {id : String}
  {os ps : Multiset ColumnOutline} {o : ColumnOutline}

@[simp] theorem outlines_nil : outlines [] = 0 :=
  rfl

@[simp] theorem outlines_cons (c : Column) (cs : List Column) :
    outlines (c :: cs) = c.outline ::ₘ outlines cs :=
  rfl

@[simp] theorem outlines_append (cs ks : List Column) :
    outlines (cs ++ ks) = outlines cs + outlines ks := by
  simp [outlines]

theorem outlines_perm (h : cs.Perm ks) : outlines cs = outlines ks :=
  Multiset.coe_eq_coe.mpr (h.map Column.outline)

theorem mem_outlines_iff : o ∈ outlines cs ↔ ∃ c ∈ cs, c.outline = o := by
  simp [outlines]

/-! ### Merged flags -/

/-- The flags of a merged column: whether it is nullable, and whether it is part of the key. -/
def mergeFlags (f g : Bool × Bool) : Bool × Bool :=
  (!(f.2 || g.2) && f.1 && g.1, f.2 || g.2)

instance : Std.Commutative mergeFlags where
  comm := by
    rintro ⟨a, b⟩ ⟨c, d⟩
    cases a <;> cases b <;> cases c <;> cases d <;> rfl

instance : Std.Associative mergeFlags where
  assoc := by
    rintro ⟨a, b⟩ ⟨c, d⟩ ⟨e, f⟩
    cases a <;> cases b <;> cases c <;> cases d <;> cases e <;> cases f <;> rfl

/-- The flags of a column. -/
def ColumnOutline.flags (o : ColumnOutline) : Bool × Bool :=
  (o.isNullable, o.isPartOfPrimaryKey)

/-- The column of the given name and flags. -/
def ColumnOutline.ofFlags (id : String) (flags : Bool × Bool) : ColumnOutline :=
  ⟨id, flags.1, flags.2⟩

theorem ColumnOutline.ext_flags {p : ColumnOutline} (hid : o.id = p.id)
    (hflags : o.flags = p.flags) : o = p := by
  obtain ⟨hnull, hkey⟩ := Prod.mk.inj hflags
  cases o
  cases p
  simp_all

/-- The merged flags of all columns of a name, if there are any. -/
def flagsAt (os : Multiset ColumnOutline) (id : String) : Option (Bool × Bool) :=
  ((os.filter fun o => o.id = id).map fun o => some o.flags).fold (Option.merge mergeFlags) none

theorem flagsAt_add (os ps : Multiset ColumnOutline) (id : String) :
    flagsAt (os + ps) id = Option.merge mergeFlags (flagsAt os id) (flagsAt ps id) := by
  have h := Multiset.fold_add (Option.merge mergeFlags) none none
    ((os.filter fun o => o.id = id).map fun o => some o.flags)
    ((ps.filter fun o => o.id = id).map fun o => some o.flags)
  rw [← Multiset.map_add, ← Multiset.filter_add] at h
  exact h

theorem flagsAt_singleton (o : ColumnOutline) (id : String) :
    flagsAt {o} id = if o.id = id then some o.flags else none := by
  by_cases h : o.id = id
  · rw [flagsAt, Multiset.filter_singleton, if_pos h, if_pos h, Multiset.map_singleton,
      Multiset.fold_singleton, Option.merge_none_right]
  · rw [flagsAt, Multiset.filter_singleton, if_neg h, if_neg h]
    rfl

theorem flagsAt_cons (o : ColumnOutline) (os : Multiset ColumnOutline) (id : String) :
    flagsAt (o ::ₘ os) id =
      Option.merge mergeFlags (if o.id = id then some o.flags else none) (flagsAt os id) := by
  rw [← Multiset.singleton_add, flagsAt_add, flagsAt_singleton]

/-- Merging a column merges its flags into those at its name. -/
theorem flagsAt_mergeColumn (v : Version) (cs : List Column) (c : Column) (id : String) :
    flagsAt (outlines (mergeColumn v cs c)) id = flagsAt (c.outline ::ₘ outlines cs) id := by
  rcases mergeColumn_cases v c cs with ⟨before, d, after, rfl, hd, hperm⟩ | ⟨-, hnew⟩
  · have hmerged : flagsAt {(d.merge c).outline} id = flagsAt ({c.outline} + {d.outline}) id := by
      rw [add_comm, flagsAt_add, flagsAt_singleton, flagsAt_singleton, flagsAt_singleton]
      have hid : (d.merge c).outline.id = c.outline.id := hd
      have hid' : d.outline.id = c.outline.id := hd
      rw [hid, hid']
      split_ifs <;> rfl
    have hmiddle (k : Column) :
        outlines (before ++ k :: after) = {k.outline} + outlines (before ++ after) := by
      rw [outlines_append, outlines_append, outlines_cons, Multiset.add_cons,
        Multiset.singleton_add]
    rw [outlines_perm hperm, hmiddle, hmiddle, ← Multiset.singleton_add, ← add_assoc, flagsAt_add,
      hmerged, ← flagsAt_add]
  · rw [hnew, outlines_append, outlines_cons, outlines_nil, add_comm]
    rfl

/-- The flags after columns have been merged into others. -/
theorem flagsAt_foldl_mergeColumn (v : Version) (cs ks : List Column) (id : String) :
    flagsAt (outlines (ks.foldl (mergeColumn v) cs)) id =
      flagsAt (outlines cs + outlines ks) id := by
  induction ks generalizing cs with
  | nil => simp
  | cons k rest ih =>
    rw [List.foldl_cons, ih, flagsAt_add, flagsAt_mergeColumn, ← flagsAt_add, outlines_cons,
      Multiset.cons_add, Multiset.add_cons]

/-- There are flags at the names of columns and nowhere else. -/
theorem flagsAt_eq_none_iff : flagsAt os id = none ↔ ∀ o ∈ os, o.id ≠ id := by
  induction os using Multiset.induction with
  | empty => simp [flagsAt]
  | cons o os ih =>
    rw [flagsAt_cons, Multiset.forall_mem_cons, ← ih]
    by_cases h : o.id = id
    · cases hos : flagsAt os id <;> simp [h]
    · simp [h]

/-- Among columns of different names the flags at a name are those of its column. -/
theorem mem_outlines_iff_flagsAt (hcs : (cs.map Column.id).Nodup) :
    o ∈ outlines cs ↔ flagsAt (outlines cs) o.id = some o.flags := by
  induction cs with
  | nil => simp [flagsAt]
  | cons c rest ih =>
    rw [List.map_cons, List.nodup_cons] at hcs
    rw [outlines_cons, Multiset.mem_cons, flagsAt_cons]
    by_cases hid : c.outline.id = o.id
    · have hnone : flagsAt (outlines rest) o.id = none := by
        refine flagsAt_eq_none_iff.mpr fun p hp hpid => hcs.1 ?_
        obtain ⟨d, hd, rfl⟩ := mem_outlines_iff.mp hp
        exact List.mem_map.mpr ⟨d, hd, hpid.trans hid.symm⟩
      have hnot : o ∉ outlines rest := fun ho => flagsAt_eq_none_iff.mp hnone o ho rfl
      rw [if_pos hid, hnone, or_iff_left hnot, Option.merge_none_right, Option.some.injEq]
      exact ⟨fun h => h ▸ rfl, fun h => ColumnOutline.ext_flags hid.symm h.symm⟩
    · have hne : o ≠ c.outline := fun h => hid (h ▸ rfl)
      rw [if_neg hid, or_iff_right hne, ih hcs.2, Option.merge_none_left]

/-! ### Merged columns -/

/-- One column for each name, with the merged flags. -/
def merged (os : Multiset ColumnOutline) : Multiset ColumnOutline :=
  (os.map fun o => .ofFlags o.id ((flagsAt os o.id).getD o.flags)).dedup

theorem mem_merged_iff : o ∈ merged os ↔ flagsAt os o.id = some o.flags := by
  rw [merged, Multiset.mem_dedup, Multiset.mem_map]
  constructor
  · rintro ⟨p, hp, rfl⟩
    obtain ⟨f, hf⟩ : ∃ f, flagsAt os p.id = some f :=
      Option.ne_none_iff_exists'.mp fun h => flagsAt_eq_none_iff.mp h p hp rfl
    rw [hf]
    exact hf
  · intro h
    obtain ⟨p, hp, hid⟩ : ∃ p ∈ os, p.id = o.id := by
      by_contra hnone
      have hnames : ∀ p ∈ os, p.id ≠ o.id := fun p hp hid => hnone ⟨p, hp, hid⟩
      simp [flagsAt_eq_none_iff.mpr hnames] at h
    refine ⟨p, hp, ?_⟩
    rw [hid, h]
    rfl

theorem exists_mem_merged_iff : (∃ o ∈ merged os, o.id = id) ↔ ∃ o ∈ os, o.id = id := by
  constructor
  · rintro ⟨o, ho, rfl⟩
    obtain ⟨p, hp, rfl⟩ := Multiset.mem_map.mp (Multiset.mem_dedup.mp ho)
    exact ⟨p, hp, rfl⟩
  · rintro ⟨o, ho, rfl⟩
    exact ⟨_, Multiset.mem_dedup.mpr (Multiset.mem_map_of_mem _ ho), rfl⟩

/-- The columns of a table, up to their order, depend only on the columns that entered it. -/
theorem outlines_foldl_mergeColumn (v : Version) (cs : List Column) :
    outlines (cs.foldl (mergeColumn v) []) = merged (outlines cs) := by
  have hids : ((cs.foldl (mergeColumn v) []).map Column.id).Nodup :=
    nodup_foldl_mergeColumn List.nodup_nil
  have hnodup : (outlines (cs.foldl (mergeColumn v) [])).Nodup := by
    refine Multiset.coe_nodup.mpr (List.Nodup.of_map ColumnOutline.id ?_)
    rwa [List.map_map]
  refine (Multiset.Nodup.ext hnodup (Multiset.nodup_dedup _)).mpr fun o => ?_
  have hmem := mem_outlines_iff_flagsAt (o := o) hids
  rw [flagsAt_foldl_mergeColumn, outlines_nil, zero_add] at hmem
  exact hmem.trans mem_merged_iff.symm

/-! ### Keys -/

/-- The names of the key columns. -/
def keyIds (os : Multiset ColumnOutline) : Multiset String :=
  (os.filter fun o => o.isPartOfPrimaryKey).map ColumnOutline.id

theorem coe_map_id_filter (cs : List Column) :
    ((cs.filter Column.isPartOfPrimaryKey).map Column.id : List String) =
      keyIds (outlines cs) := by
  simp only [keyIds, outlines, Multiset.filter_coe, Multiset.map_coe, List.filter_map,
    List.map_map, Bool.decide_eq_true]
  rfl

/-- Sorting takes away the order of a list in which elements that tie are equal. -/
private theorem mergeSort_eq_of_perm {α : Type} {le : α → α → Bool} {xs ys : List α}
    (trans : ∀ a b c, le a b = true → le b c = true → le a c = true)
    (total : ∀ a b, (le a b || le b a) = true)
    (antisymm : ∀ a ∈ xs, ∀ b ∈ xs, le a b = true → le b a = true → a = b) (h : xs.Perm ys) :
    xs.mergeSort le = ys.mergeSort le := by
  refine List.Perm.eq_of_pairwise ?_ (List.pairwise_mergeSort trans total xs)
    (List.pairwise_mergeSort trans total ys)
    ((List.mergeSort_perm xs le).trans (h.trans (List.mergeSort_perm ys le).symm))
  intro a b ha hb
  exact antisymm a (List.mem_mergeSort.mp ha) b (h.mem_iff.mpr (List.mem_mergeSort.mp hb))

/-- Sorting by the position of names among the given ones takes away the order. -/
private theorem mergeSort_idxOf_eq_of_perm {α : Type} {f : α → String} {parents : List String}
    {xs ys : List α} (hmem : ∀ a ∈ xs, f a ∈ parents)
    (hinj : ∀ a ∈ xs, ∀ b ∈ xs, f a = f b → a = b) (h : xs.Perm ys) :
    xs.mergeSort (fun a b => parents.idxOf (f a) ≤ parents.idxOf (f b)) =
      ys.mergeSort (fun a b => parents.idxOf (f a) ≤ parents.idxOf (f b)) := by
  refine mergeSort_eq_of_perm ?_ ?_ ?_ h
  · intro a b c hab hbc
    simp only [decide_eq_true_eq] at hab hbc ⊢
    omega
  · intro a b
    simp only [Bool.or_eq_true, decide_eq_true_eq]
    omega
  · intro a ha b hb hab hba
    simp only [decide_eq_true_eq] at hab hba
    exact hinj a ha b hb ((List.idxOf_inj (hmem a ha)).mp (Nat.le_antisymm hab hba))

private theorem mergeSort_sortsBefore_eq_of_perm {α : Type} {f : α → String} {xs ys : List α}
    (hinj : ∀ a ∈ xs, ∀ b ∈ xs, f a = f b → a = b) (h : xs.Perm ys) :
    xs.mergeSort (fun a b => Text.sortsBefore (f a) (f b)) =
      ys.mergeSort (fun a b => Text.sortsBefore (f a) (f b)) := by
  refine mergeSort_eq_of_perm (fun _ _ _ => Text.sortsBefore_trans _ _ _)
    (fun _ _ => Text.sortsBefore_total _ _) ?_ h
  intro a ha b hb hab hba
  exact hinj a ha b hb (Text.sortsBefore_antisymm hab hba)

/-- The order of a key does not depend on the order in which its columns come. -/
theorem keyOrder_eq_of_perm (parents : List String) {ids ids' : List String} (h : ids.Perm ids') :
    keyOrder parents ids = keyOrder parents ids' := by
  rw [keyOrder, keyOrder,
    mergeSort_idxOf_eq_of_perm (f := fun id => id)
      (fun a ha => of_decide_eq_true (List.mem_filter.mp ha).2) (fun _ _ _ _ hab => hab)
      (h.filter _),
    mergeSort_sortsBefore_eq_of_perm (f := fun id => id) (fun _ _ _ _ hab => hab) (h.filter _)]

/-- The names of key columns in key order. -/
def keyOrderOf (parents : List String) (ids : Multiset String) : List String :=
  Quot.liftOn ids (keyOrder parents) fun _ _ => keyOrder_eq_of_perm parents

/-- The key of a sorted table depends only on its columns, up to their order, and on the key of its
parent. -/
theorem Table.primaryKeyIds_sortColumns_eq (t : Table) : t.sortColumns.primaryKeyIds =
    keyOrderOf t.parentKeyColumnIds (keyIds (outlines t.columns)) := by
  rw [primaryKeyIds_sortColumns, ← coe_map_id_filter]
  rfl

/-- Names and flags of columns in the order in which sorting leaves them. -/
private def sortedOutlines (parents : List String) (os : List ColumnOutline) :
    List ColumnOutline :=
  (os.filter fun o => o.isPartOfPrimaryKey && o.id ∈ parents).mergeSort
      (fun o p => parents.idxOf o.id ≤ parents.idxOf p.id) ++
    (os.filter fun o => o.isPartOfPrimaryKey && !(o.isPartOfPrimaryKey && o.id ∈ parents)).mergeSort
      (fun o p => Text.sortsBefore o.id p.id) ++
    (os.filter fun o => !o.isPartOfPrimaryKey).mergeSort (fun o p => Text.sortsBefore o.id p.id)

private theorem map_outline_sortColumns (t : Table) : t.sortColumns.columns.map Column.outline =
    sortedOutlines t.parentKeyColumnIds (t.columns.map Column.outline) := by
  have hsorted (p : ColumnOutline → Bool) (le : ColumnOutline → ColumnOutline → Bool) :
      ((t.columns.filter (p ∘ Column.outline)).mergeSort
        fun c d => le c.outline d.outline).map Column.outline =
      ((t.columns.map Column.outline).filter p).mergeSort le := by
    rw [List.map_mergeSort (s := le) (fun _ _ _ _ => rfl), List.filter_map]
  rw [sortedOutlines, ← hsorted, ← hsorted, ← hsorted, ← List.map_append, ← List.map_append]
  rfl

/-- Names and flags of sorted columns depend only on the columns, up to their order, and on the key
of the parent. -/
theorem Table.map_outline_sortColumns_eq {t u : Table} (ht : (t.columns.map Column.id).Nodup)
    (hcolumns : outlines t.columns = outlines u.columns)
    (hparents : t.parentKeyColumnIds = u.parentKeyColumnIds) :
    t.sortColumns.columns.map Column.outline = u.sortColumns.columns.map Column.outline := by
  have hperm : (t.columns.map Column.outline).Perm (u.columns.map Column.outline) :=
    Multiset.coe_eq_coe.mp hcolumns
  -- columns of one name are equal, so that no two of them tie
  have hinj (q : ColumnOutline → Bool) :
      ∀ o ∈ (t.columns.map Column.outline).filter q, ∀ p ∈ (t.columns.map Column.outline).filter q,
        o.id = p.id → o = p := by
    intro o ho p hp
    rw [List.mem_filter] at ho hp
    have hids : ((t.columns.map Column.outline).map ColumnOutline.id).Nodup := by
      rwa [List.map_map]
    exact List.inj_on_of_nodup_map hids ho.1 hp.1
  rw [map_outline_sortColumns, map_outline_sortColumns, sortedOutlines, sortedOutlines, ← hparents,
    mergeSort_idxOf_eq_of_perm (f := ColumnOutline.id) ?_ (hinj _) (hperm.filter _),
    mergeSort_sortsBefore_eq_of_perm (hinj _) (hperm.filter _),
    mergeSort_sortsBefore_eq_of_perm (hinj _) (hperm.filter _)]
  intro o ho
  have hkey := (List.mem_filter.mp ho).2
  simp only [Bool.and_eq_true, decide_eq_true_eq] at hkey
  exact hkey.2

end Tabular
