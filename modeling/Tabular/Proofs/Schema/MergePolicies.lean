import Mathlib.Data.List.Dedup
import Mathlib.Data.List.Induction
import Mathlib.Tactic.Common
import Tabular.Proofs.FirstOccurrences
import Tabular.Proofs.Schema.ColumnOutlines

/-!
# The two ways of merging

A column that enters a table merges with the column of its name. Later versions leave the result
where the first of the two stood, earlier ones move it to the end. This file shows that the two ways
differ in nothing but the order of the columns, and says what the columns are.

## Main definitions

* `mergedColumn?`: columns merged into one, in their order.
* `Column.IsMergeOf`: a column with the flags and origins that columns of its name have together.

## Main results

* `dedup_concat`, `unionInOrder_eq_eraseDups`: first and last occurrences.
* `map_id_foldl_mergeColumn_of_mergesInPlace`, `map_id_foldl_mergeColumn_of_not_mergesInPlace`: the
  names of merged columns in order of their first and of their last occurrence.
* `find?_foldl_mergeColumn`: the column of a name, under either way of merging.
* `isMergeOf_foldl_merge`: flags and origins of merged columns.
* `Table.columns_addColumns_policies`: the columns of a table that was empty at first.
-/

namespace Tabular

/-! ### First and last occurrences -/

section Occurrences

variable {α : Type} [DecidableEq α]

/-- A further item is the last occurrence of its kind. -/
theorem dedup_concat (xs : List α) (x : α) : (xs ++ [x]).dedup = xs.dedup.erase x ++ [x] := by
  induction xs with
  | nil => rfl
  | cons y rest ih =>
    rw [List.cons_append]
    by_cases hy : y ∈ rest
    · rw [List.dedup_cons_of_mem (List.mem_append_left _ hy), List.dedup_cons_of_mem hy, ih]
    · rw [List.dedup_cons_of_notMem hy]
      by_cases hxy : y = x
      · subst hxy
        rw [List.dedup_cons_of_mem (List.mem_append_right _ (List.mem_singleton_self y)), ih,
          List.erase_cons_head, List.erase_of_not_mem (mt List.mem_dedup.mp hy)]
      · have hnew : y ∉ rest ++ [x] := by simp [hy, hxy]
        rw [List.dedup_cons_of_notMem hnew, ih, List.erase_cons_tail (by simpa using hxy)]
        rfl

/-- The union of two lists holds the first occurrences of their items, provided that the first list
has no repetitions. -/
theorem unionInOrder_eq_eraseDups {xs : List α} (h : xs.Nodup) (ys : List α) :
    unionInOrder xs ys = (xs ++ ys).eraseDups := by
  induction ys using List.reverseRecOn with
  | nil => rw [List.append_nil, eraseDups_of_nodup h, unionInOrder, List.foldl_nil]
  | append_singleton ys y ih =>
    have hstep : unionInOrder xs (ys ++ [y]) =
        if y ∈ unionInOrder xs ys then unionInOrder xs ys else unionInOrder xs ys ++ [y] := by
      rw [unionInOrder, List.foldl_append]
      rfl
    rw [hstep, ih, ← List.append_assoc, eraseDups_concat]
    simp only [List.mem_eraseDups]

end Occurrences

/-! ### The order of names -/

variable {v : Version} {cs ks : List Column} {c : Column} {id : String}

theorem map_id_mergeInPlace (c : Column) (cs : List Column) : (mergeInPlace c cs).map Column.id =
    if c.id ∈ cs.map Column.id then cs.map Column.id else cs.map Column.id ++ [c.id] := by
  induction cs with
  | nil => rfl
  | cons d rest ih =>
    rw [mergeInPlace]
    by_cases hd : d.id = c.id
    · simp [hd, Column.merge]
    · have hmem : c.id ∈ (d :: rest).map Column.id ↔ c.id ∈ rest.map Column.id := by
        rw [List.map_cons, List.mem_cons, or_iff_right (Ne.symm hd)]
      rw [if_neg hd, List.map_cons, ih]
      simp only [hmem]
      split_ifs <;> rfl

theorem map_id_mergeAtEnd (c : Column) (cs : List Column) :
    (mergeAtEnd c cs).map Column.id = (cs.map Column.id).erase c.id ++ [c.id] := by
  unfold mergeAtEnd
  cases hfind : cs.find? fun d => d.id = c.id with
  | none =>
    have hnew : c.id ∉ cs.map Column.id := by
      simpa using List.find?_eq_none.mp hfind
    rw [List.map_append, List.erase_of_not_mem hnew]
    rfl
  | some d =>
    have hd : d.id = c.id := by simpa using List.find?_some hfind
    have herase : (cs.map Column.id).erase c.id =
        (cs.eraseP fun d => d.id = c.id).map Column.id := by
      rw [List.erase_eq_eraseP, List.eraseP_map]
      congr 2
      funext d
      rw [Function.comp_apply, Bool.eq_iff_iff, beq_iff_eq, decide_eq_true_eq, eq_comm]
    rw [List.map_append, herase, List.map_singleton, Column.merge, hd]

/-- Columns that are merged in place have their names in order of first occurrence. -/
theorem map_id_foldl_mergeColumn_of_mergesInPlace (hv : v.mergesInPlace = true)
    (cs : List Column) :
    (cs.foldl (mergeColumn v) []).map Column.id = (cs.map Column.id).eraseDups := by
  induction cs using List.reverseRecOn with
  | nil => rfl
  | append_singleton cs c ih =>
    rw [List.foldl_concat, mergeColumn, if_pos hv, map_id_mergeInPlace, ih, List.map_append,
      List.map_singleton, eraseDups_concat]
    simp only [List.mem_eraseDups]

/-- Columns that are merged at the end have their names in order of last occurrence. -/
theorem map_id_foldl_mergeColumn_of_not_mergesInPlace (hv : v.mergesInPlace = false)
    (cs : List Column) :
    (cs.foldl (mergeColumn v) []).map Column.id = (cs.map Column.id).dedup := by
  induction cs using List.reverseRecOn with
  | nil => rfl
  | append_singleton cs c ih =>
    rw [List.foldl_concat, mergeColumn, if_neg (by simp [hv]), map_id_mergeAtEnd, ih,
      List.map_append, List.map_singleton, dedup_concat]

/-! ### The column of a name -/

/-- Columns merged into one, in their order. -/
def mergedColumn? : List Column → Option Column
  | [] => none
  | c :: rest => some (rest.foldl Column.merge c)

theorem mergedColumn?_concat (cs : List Column) (c : Column) :
    mergedColumn? (cs ++ [c]) = some ((mergedColumn? cs).elim c (Column.merge · c)) := by
  cases cs with
  | nil => rfl
  | cons d rest => simp [mergedColumn?]

/-- Among columns of different names there is at most one of a name. -/
theorem find?_id_eq_some_iff (h : (cs.map Column.id).Nodup) :
    (cs.find? fun d => d.id = id) = some c ↔ c ∈ cs ∧ c.id = id := by
  constructor
  · intro hfind
    exact ⟨List.mem_of_find?_eq_some hfind, by simpa using List.find?_some hfind⟩
  · rintro ⟨hc, rfl⟩
    obtain ⟨d, hd⟩ : ∃ d, (cs.find? fun d => d.id = c.id) = some d :=
      Option.isSome_iff_exists.mp (List.find?_isSome.mpr ⟨c, hc, by simp⟩)
    have hid : d.id = c.id := by simpa using List.find?_some hd
    rw [hd, List.inj_on_of_nodup_map h (List.mem_of_find?_eq_some hd) hc hid]

/-- A column merges with the column of its name and leaves the others alone, under either way of
merging. -/
theorem find?_mergeColumn (h : (cs.map Column.id).Nodup) (v : Version) (c : Column) (id : String) :
    (mergeColumn v cs c).find? (fun d => d.id = id) =
      if c.id = id then some ((cs.find? fun d => d.id = id).elim c (Column.merge · c))
      else cs.find? fun d => d.id = id := by
  have hmerged := nodup_mergeColumn (v := v) (c := c) h
  rcases mergeColumn_cases v c cs with ⟨before, d, after, hcs, hd, hperm⟩ | ⟨hnew, hmerge⟩
  · have hmem (k : Column) : k ∈ mergeColumn v cs c ↔ k ∈ before ∨ k = d.merge c ∨ k ∈ after := by
      rw [hperm.mem_iff, List.mem_append, List.mem_cons]
    have hid : (d.merge c).id = c.id := hd
    split_ifs with hc
    · have hfind : (cs.find? fun d => d.id = id) = some d :=
        (find?_id_eq_some_iff h).mpr ⟨by simp [hcs], hd.trans hc⟩
      rw [hfind, find?_id_eq_some_iff hmerged, hmem]
      exact ⟨Or.inr (Or.inl rfl), hid.trans hc⟩
    · refine Option.ext fun k => ?_
      rw [find?_id_eq_some_iff hmerged, find?_id_eq_some_iff h, hmem, hcs, List.mem_append,
        List.mem_cons]
      refine and_congr_left fun hk => or_congr_right (or_congr_left ?_)
      refine iff_of_false (fun h => hc ?_) (fun h => hc ?_)
      · rw [← hid, ← h, hk]
      · rw [← hd, ← h, hk]
  · rw [hmerge, List.find?_append]
    split_ifs with hc
    · have hnone : (cs.find? fun d => d.id = id) = none := by
        refine List.find?_eq_none.mpr fun d hd => ?_
        simpa [← hc] using hnew d hd
      simp [hnone, hc]
    · simp [hc]

/-- The column of a name is what all columns of the name merge into, under either way of merging. -/
theorem find?_foldl_mergeColumn (v : Version) (cs : List Column) (id : String) :
    (cs.foldl (mergeColumn v) []).find? (fun d => d.id = id) =
      mergedColumn? (cs.filter fun d => d.id = id) := by
  induction cs using List.reverseRecOn with
  | nil => rfl
  | append_singleton cs c ih =>
    have hids : ((cs.foldl (mergeColumn v) []).map Column.id).Nodup :=
      nodup_foldl_mergeColumn List.nodup_nil
    rw [List.foldl_concat, find?_mergeColumn hids, ih, List.filter_append]
    split_ifs with hc
    · rw [List.filter_singleton, decide_eq_true hc, cond_true, mergedColumn?_concat]
    · rw [List.filter_singleton, decide_eq_false hc, cond_false, List.append_nil]

/-! ### Flags and origins -/

/-- The column is a key if one of the given columns is, and nullable if all of them are; its
contexts and sources are theirs in order of first appearance, provided that none of them has
repetitions of its own; and everything else is taken from the first of them. -/
structure Column.IsMergeOf (c : Column) (ds : List Column) : Prop where
  isPartOfPrimaryKey_iff :
    c.isPartOfPrimaryKey = true ↔ ∃ d ∈ ds, d.isPartOfPrimaryKey = true
  isNullable_iff : c.isNullable = true ↔ ∀ d ∈ ds, d.isNullable = true
  mergedReferenceContexts_eq : (∀ d ∈ ds, d.mergedReferenceContexts.Nodup) →
    c.mergedReferenceContexts = (ds.flatMap Column.mergedReferenceContexts).eraseDups
  sources_eq : (∀ d ∈ ds, d.sources.Nodup) →
    c.sources = (ds.flatMap Column.sources).eraseDups
  others_eq : ∃ first, ds.head? = some first ∧
    c = { first with
      isPartOfPrimaryKey := c.isPartOfPrimaryKey
      isNullable := c.isNullable
      mergedReferenceContexts := c.mergedReferenceContexts
      sources := c.sources }

/-- A list of which merging takes the union is, after several columns have been merged, the union
of all. -/
theorem foldl_merge_eq_unionInOrder {α : Type} [DecidableEq α] {f : Column → List α}
    (hf : ∀ c d : Column, f (c.merge d) = unionInOrder (f c) (f d)) (c : Column)
    (rest : List Column) : f (rest.foldl Column.merge c) = unionInOrder (f c) (rest.flatMap f) := by
  induction rest generalizing c with
  | nil => rfl
  | cons d rest ih =>
    calc f (rest.foldl Column.merge (c.merge d))
        = unionInOrder (unionInOrder (f c) (f d)) (rest.flatMap f) := by rw [ih, hf]
      _ = unionInOrder (f c) (f d ++ rest.flatMap f) := List.foldl_append.symm

theorem isPartOfPrimaryKey_foldl_merge (c : Column) (rest : List Column) :
    (rest.foldl Column.merge c).isPartOfPrimaryKey =
      (c :: rest).any Column.isPartOfPrimaryKey := by
  induction rest generalizing c with
  | nil => simp
  | cons d rest ih =>
    rw [List.foldl_cons, ih]
    simp [Column.merge, Bool.or_assoc]

/-- Columns of which none is both a key and nullable merge into a nullable one if all of them are
nullable. -/
theorem isNullable_foldl_merge {c : Column} {rest : List Column}
    (h : ∀ d ∈ c :: rest, ¬(d.isPartOfPrimaryKey = true ∧ d.isNullable = true)) :
    (rest.foldl Column.merge c).isNullable = (c :: rest).all Column.isNullable := by
  induction rest generalizing c with
  | nil => simp
  | cons d rest ih =>
    obtain ⟨hc, hd, hrest⟩ : _ ∧ _ ∧ _ := by simpa only [List.forall_mem_cons] using h
    have hmerge : (c.merge d).isNullable = (c.isNullable && d.isNullable) := by
      simp only [Column.merge]
      cases hck : c.isPartOfPrimaryKey <;> cases hdk : d.isPartOfPrimaryKey <;> simp_all
    have hflags : ∀ e ∈ c.merge d :: rest,
        ¬(e.isPartOfPrimaryKey = true ∧ e.isNullable = true) := by
      refine List.forall_mem_cons.mpr ⟨?_, hrest⟩
      simp only [Column.merge]
      cases c.isPartOfPrimaryKey <;> cases d.isPartOfPrimaryKey <;> simp
    rw [List.foldl_cons, ih hflags, List.all_cons, hmerge, List.all_cons, List.all_cons,
      Bool.and_assoc]

theorem others_foldl_merge (c : Column) (rest : List Column) : rest.foldl Column.merge c =
    { c with
      isPartOfPrimaryKey := (rest.foldl Column.merge c).isPartOfPrimaryKey
      isNullable := (rest.foldl Column.merge c).isNullable
      mergedReferenceContexts := (rest.foldl Column.merge c).mergedReferenceContexts
      sources := (rest.foldl Column.merge c).sources } := by
  induction rest generalizing c with
  | nil => rfl
  | cons d rest ih =>
    rw [List.foldl_cons]
    exact ih (c.merge d)

/-- What columns merge into, field by field. -/
theorem isMergeOf_foldl_merge {c : Column} {rest : List Column}
    (h : ∀ d ∈ c :: rest, ¬(d.isPartOfPrimaryKey = true ∧ d.isNullable = true)) :
    (rest.foldl Column.merge c).IsMergeOf (c :: rest) where
  isPartOfPrimaryKey_iff := by rw [isPartOfPrimaryKey_foldl_merge, List.any_eq_true]
  isNullable_iff := by rw [isNullable_foldl_merge h, List.all_eq_true]
  mergedReferenceContexts_eq hnodup := by
    rw [foldl_merge_eq_unionInOrder (f := Column.mergedReferenceContexts) fun _ _ => rfl,
      unionInOrder_eq_eraseDups (hnodup c List.mem_cons_self), List.flatMap_cons]
  sources_eq hnodup := by
    rw [foldl_merge_eq_unionInOrder (f := Column.sources) fun _ _ => rfl,
      unionInOrder_eq_eraseDups (hnodup c List.mem_cons_self), List.flatMap_cons]
  others_eq := ⟨c, rfl, others_foldl_merge c rest⟩

/-! ### Tables -/

theorem mergesInPlace_iff (v : Version) : v.mergesInPlace = true ↔ 7 ≤ v.major.toNat := by
  simp only [Version.mergesInPlace, Version.isAtLeast, Bool.or_eq_true, Bool.and_eq_true,
    decide_eq_true_eq]
  omega

namespace Table

/-- The two ways of merging differ only in order. Columns, none of them both a key and nullable, are
added to an empty table: from version 7.0 on their names come in order of first occurrence, before
it in order of last occurrence. Both tables have the same column for each name, namely what the
columns of the name have together, and names and flags do not depend on the order of additions. -/
theorem columns_addColumns_policies {cs : List Column}
    (hcs : ∀ c ∈ cs, ¬(c.isPartOfPrimaryKey = true ∧ c.isNullable = true)) {t : Table}
    (ht : t.columns = []) {v w : Version} (hv : 7 ≤ v.major.toNat) (hw : w.major.toNat < 7) :
    (t.addColumns v cs).columns.map Column.id = (cs.map Column.id).eraseDups ∧
      (t.addColumns w cs).columns.map Column.id = (cs.map Column.id).dedup ∧
      (∀ id, (t.addColumns v cs).column? id = (t.addColumns w cs).column? id) ∧
      (∀ id ∈ cs.map Column.id, ∃ c, (t.addColumns v cs).column? id = some c ∧
        c.IsMergeOf (cs.filter fun d => d.id = id)) ∧
      ∀ ks, ks.Perm cs → ∀ u : Version,
        outlines (t.addColumns u ks).columns = outlines (t.addColumns v cs).columns := by
  have hplace : v.mergesInPlace = true := (mergesInPlace_iff v).mpr hv
  have hend : w.mergesInPlace = false := by
    rw [← Bool.not_eq_true, mergesInPlace_iff]
    omega
  have hcolumn (u : Version) (id : String) : (t.addColumns u cs).column? id =
      mergedColumn? (cs.filter fun d => d.id = id) := by
    rw [column?, columns_addColumns, ht, find?_foldl_mergeColumn]
  refine ⟨?_, ?_, fun id => ?_, fun id hid => ?_, fun ks hperm u => ?_⟩
  · rw [columns_addColumns, ht, map_id_foldl_mergeColumn_of_mergesInPlace hplace]
  · rw [columns_addColumns, ht, map_id_foldl_mergeColumn_of_not_mergesInPlace hend]
  · rw [hcolumn, hcolumn]
  · obtain ⟨c, hc, rfl⟩ := List.mem_map.mp hid
    have hmem : c ∈ cs.filter fun d => d.id = c.id := by simpa using hc
    cases hgroup : cs.filter fun d => d.id = c.id with
    | nil => simp [hgroup] at hmem
    | cons first rest =>
      refine ⟨rest.foldl Column.merge first, by rw [hcolumn, hgroup]; rfl, ?_⟩
      refine isMergeOf_foldl_merge fun d hd => hcs d ?_
      rw [← hgroup] at hd
      exact List.mem_of_mem_filter hd
  · rw [columns_addColumns, columns_addColumns, ht, outlines_foldl_mergeColumn,
      outlines_foldl_mergeColumn, outlines_perm hperm]

/-! ### A school of two references

A table has a nullable column `SchoolId` of one reference, an own column `Name`, and a key column
`SchoolId` of another reference.
-/

namespace Visits

def schoolId : Column :=
  (Column.ofType "SchoolId" .integer).withReferenceContext "SchoolSchoolId"

def columns : List Column :=
  [schoolId.nullable, .ofType "Name" .boolean,
    (schoolId.withReferenceContext "SessionSchoolSchoolId").primaryKey]

end Visits

/-- The column `SchoolId` is a key and comes first from version 7.0 on, and last before it. -/
theorem columns_addColumns_policies_visits :
    (∀ c ∈ Visits.columns, ¬(c.isPartOfPrimaryKey = true ∧ c.isNullable = true)) ∧
      ((Table.ofReason "EdFi" "Visit" .main).addColumns ⟨7, 0, 0⟩ Visits.columns).columns.map
        Column.id = ["SchoolId", "Name"] ∧
      ((Table.ofReason "EdFi" "Visit" .main).addColumns ⟨6, 1, 0⟩ Visits.columns).columns.map
        Column.id = ["Name", "SchoolId"] ∧
      ∃ c, ((Table.ofReason "EdFi" "Visit" .main).addColumns ⟨7, 0, 0⟩ Visits.columns).column?
          "SchoolId" = some c ∧
        c.isPartOfPrimaryKey = true ∧
        c.mergedReferenceContexts = ["SchoolSchoolId", "SessionSchoolSchoolId"] := by
  have hflags : ∀ c ∈ Visits.columns, ¬(c.isPartOfPrimaryKey = true ∧ c.isNullable = true) := by
    decide
  obtain ⟨hfirst, hlast, -, hmerged, -⟩ := columns_addColumns_policies hflags
    (t := .ofReason "EdFi" "Visit" .main) rfl (v := ⟨7, 0, 0⟩) (w := ⟨6, 1, 0⟩)
    (by decide) (by decide)
  obtain ⟨c, hc, hmerge⟩ := hmerged "SchoolId" (by decide)
  refine ⟨hflags, hfirst.trans (by decide), hlast.trans (by decide), c, hc,
    hmerge.isPartOfPrimaryKey_iff.mpr (by decide), ?_⟩
  exact (hmerge.mergedReferenceContexts_eq (by decide)).trans (by decide)

end Table

end Tabular
