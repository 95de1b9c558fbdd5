import Mathlib.Data.List.Forall2
import Mathlib.Data.List.Induction
import Mathlib.Tactic.Common
import Tabular.Proofs.Derive.Commit
import Tabular.Proofs.Derive.Realization
import Tabular.Proofs.Run.Distinctness

/-!
# Committed plans

A committed set of tables is determined by the tables it consists of, regardless of their order and
of the order of their columns: whether the commit succeeds, under which addresses there are tables
afterwards, and what names and flags their columns have. When columns are sorted, their order is
determined as well.

## Main definitions

* `Schema.Accepts`: tables that can be committed to a schema.
* `TableOutline.Shows`: a committed table and what it was regardless of order.
* `TableOutline.HasColumns`: the same without the order of its columns.

## Main results

* `TableSet.finish_ok_iff`: the tables of a set can be finished when stored parents are there.
* `TableSet.LinksBack.exists_fitsFrom`: there are key orders that fit a set whose links lead back.
* `TableSet.ConsistsOf.exists_store_iff`: a set can be committed when its tables can.
* `TableSet.ConsistsOf.get?_store`, `TableSet.ConsistsOf.get?_store_hasColumns`: the schema after a
  commit.
-/

namespace Tabular

/-! ### Insertion of several tables -/

namespace Schema

variable {s s' : Schema} {key : TableKey}

theorem get?_append (ts : List Table) :
    ({ s with inserted := s.inserted ++ ts } : Schema).get? key =
      (s.get? key).or (ts.find? fun t => t.key = key) :=
  List.find?_append

/-- Tables can be inserted one after the other if their addresses are different and free. -/
theorem insertAll_ok_iff {ts : List Table} : (∃ s', s.insertAll ts = (s', none)) ↔
    (ts.map Table.key).Nodup ∧ ∀ t ∈ ts, s.get? t.key = none := by
  induction ts generalizing s with
  | nil => simp [insertAll]
  | cons t rest ih =>
    rw [insertAll]
    cases hinsert : s.insert t with
    | error e =>
      have htaken : s.get? t.key ≠ none := fun hfree => by
        rw [insert, hfree] at hinsert
        cases hinsert
      simp [htaken]
    | ok next =>
      obtain ⟨hfree, rfl⟩ := insert_eq_ok_iff.mp hinsert
      have hstill (u : Table) : ({ s with inserted := s.inserted ++ [t] } : Schema).get? u.key =
          none ↔ s.get? u.key = none ∧ t.key ≠ u.key := by
        rw [get?_append, Option.or_eq_none_iff]
        simp
      simp only [ih, hstill, List.map_cons, List.nodup_cons, List.forall_mem_cons, List.mem_map,
        hfree, true_and]
      constructor
      · rintro ⟨hnodup, hrest⟩
        refine ⟨⟨?_, hnodup⟩, fun u hu => (hrest u hu).1⟩
        rintro ⟨u, hu, hkey⟩
        exact (hrest u hu).2 hkey.symm
      · rintro ⟨⟨hnew, hnodup⟩, hrest⟩
        exact ⟨hnodup, fun u hu => ⟨hrest u hu, fun hkey => hnew ⟨u, hu, hkey.symm⟩⟩⟩

end Schema

namespace TableSet

variable {repo : Schema} {order order' : Nat → List String} {v : Version} {set : TableSet}
  {tables tables' : List Table} {i : Nat} {o : TableOutline} {t t' : Table}

/-! ### Sets whose tables can be finished -/

/-- Every stored table that a table of the set hangs off is there. -/
def HasParents (repo : Schema) (set : TableSet) : Prop :=
  ∀ l ∈ set.links, ∀ key, l.target = .stored key → (repo.get? key).isSome

private theorem finishAt_ok (hparents : set.HasParents repo) (v : Version) (tables : List Table)
    (i : Nat) : ∃ tables', set.finishAt v repo tables i = .ok tables' := by
  unfold finishAt
  split_ifs
  · exact ⟨tables, rfl⟩
  · cases tables[i]? with
    | none => exact ⟨tables, rfl⟩
    | some t =>
      simp only [finishTable]
      cases hlink : set.links.find? fun l => l.child = i with
      | none => exact ⟨_, rfl⟩
      | some l =>
        obtain ⟨parent, hparent⟩ : ∃ parent, parentOf tables repo t l.target = .ok parent := by
          unfold parentOf
          cases htarget : l.target with
          | inSet j => exact ⟨_, rfl⟩
          | stored key =>
            obtain ⟨parent, hget⟩ := Option.isSome_iff_exists.mp
              (hparents l (List.mem_of_find?_eq_some hlink) key htarget)
            exact ⟨parent, by simp only [hget]⟩
        simp only [hparent]
        exact ⟨_, rfl⟩

private theorem length_of_finishAt (h : set.finishAt v repo tables i = .ok tables') :
    tables'.length = tables.length := by
  unfold finishAt at h
  split_ifs at h
  · rw [Except.ok.inj h]
  · cases ht : tables[i]? with
    | none =>
      simp only [ht] at h
      rw [Except.ok.inj h]
    | some t =>
      simp only [ht, bind_eq_ok_iff, pure_eq_ok_iff] at h
      obtain ⟨finished, -, rfl⟩ := h
      exact List.length_set

/-- A table whose step succeeds has its parent. -/
private theorem isSome_of_finishAt (h : set.finishAt v repo tables i = .ok tables')
    (hkept : i ∉ set.discarded) (hi : i < tables.length) {key : TableKey}
    (htarget : set.target? i = some (.stored key)) : (repo.get? key).isSome := by
  obtain ⟨l, hlink, hl⟩ := Option.map_eq_some_iff.mp htarget
  simp only [finishAt, isDiscarded, hkept, decide_false, Bool.false_eq_true, if_false,
    List.getElem?_eq_getElem hi, finishTable, hlink, bind_eq_ok_iff, hl, parentOf] at h
  obtain ⟨finished, ⟨parent, hparent, -⟩, -⟩ := h
  cases hget : repo.get? key with
  | none => simp [hget] at hparent
  | some t => rfl

/-- The tables of a set can be finished exactly when the stored tables that they hang off are
there. -/
theorem finish_ok_iff (hset : set.IsTidy) :
    (∃ tables, set.finish v repo = .ok tables) ↔ set.HasParents repo := by
  constructor
  · rintro ⟨tables, hfinish⟩ l hl key hkey
    obtain ⟨hlt, hkept⟩ := hset.child l hl
    obtain ⟨before, after, ts, ts', -, hbefore, hstep, -⟩ :=
      foldlM_ok_of_mem hfinish (List.mem_range.mpr hlt)
    have hlength : ts.length = set.next :=
      foldlM_ok_induction (fun ts => ts.length = set.next)
        (fun _ _ _ _ hts hstep => (length_of_finishAt hstep).trans hts) rfl hbefore
    exact isSome_of_finishAt hstep hkept (hlength ▸ hlt) (hkey ▸ hset.target?_of_mem hl)
  · intro hparents
    have hfold (is : List Nat) : ∀ tables, ∃ tables', is.foldlM (set.finishAt v repo) tables =
        .ok tables' := by
      induction is with
      | nil => exact fun tables => ⟨tables, rfl⟩
      | cons i rest ih =>
        intro tables
        obtain ⟨mid, hmid⟩ := finishAt_ok hparents v tables i
        obtain ⟨tables', htables'⟩ := ih mid
        exact ⟨tables', by rw [List.foldlM_cons, hmid]; exact htables'⟩
    exact hfold _ _

/-! ### Key orders that fit -/

/-- Links within a set lead back. -/
def LinksBack (set : TableSet) : Prop :=
  ∀ i j, set.target? i = some (.inSet j) → j < i

theorem WellLinked.linksBack {stored : Schema} (h : set.WellLinked stored) : set.LinksBack := by
  intro i j htarget
  obtain ⟨l, hlink, hl⟩ := Option.map_eq_some_iff.mp htarget
  exact (h.lt_of_find? hlink hl).1

/-- What is known of a table depends only on the key orders of the tables before it. -/
theorem LinksBack.outline?_congr (h : set.LinksBack) (horder : ∀ j < i, order' j = order j) :
    set.outline? repo order' i = set.outline? repo order i := by
  have hparent : (set.target? i).map (LinkTarget.keyOrder order' repo) =
      (set.target? i).map (LinkTarget.keyOrder order repo) := by
    cases htarget : set.target? i with
    | none => rfl
    | some target =>
      cases target with
      | inSet j => exact congrArg some (horder j (h i j htarget))
      | stored key => rfl
  rw [outline?, outline?, hparent]

/-- There are key orders that fit a set whose links lead back. -/
theorem LinksBack.exists_fitsFrom (h : set.LinksBack) (repo : Schema) :
    ∃ order, set.FitsFrom repo order 0 := by
  -- position by position; those that follow do not matter for the earlier ones
  have hbelow (n : Nat) : ∃ order, ∀ i < n, ∀ o, set.outline? repo order i = some o →
      order i = o.keyOrder := by
    induction n with
    | zero => exact ⟨fun _ => [], fun i hi => absurd hi (Nat.not_lt_zero i)⟩
    | succ n ih =>
      obtain ⟨order, horder⟩ := ih
      let last := ((set.outline? repo order n).map TableOutline.keyOrder).getD []
      have hbefore : ∀ j < n, (fun j => if j = n then last else order j) j = order j :=
        fun j hj => if_neg (Nat.ne_of_lt hj)
      refine ⟨fun j => if j = n then last else order j, fun i hi o ho => ?_⟩
      rw [h.outline?_congr fun j hj => hbefore j (by omega)] at ho
      rcases Nat.lt_succ_iff_lt_or_eq.mp hi with hlt | rfl
      · exact (hbefore i hlt).trans (horder i hlt o ho)
      · simp [last, ho]
  obtain ⟨order, horder⟩ := hbelow set.next
  exact ⟨order, fun i _ o ho => horder i (lt_next_of_outline? ho) o ho⟩

end TableSet

/-! ### Finished tables -/

/-- The table `t` is what becomes of a table of the given outline when it is sorted and
committed. -/
def TableOutline.Shows (o : TableOutline) (t : Table) : Prop :=
  t.key = o.key ∧ t.parentKeyColumnIds = o.parentKeys ∧
    ∃ u : Table, (u.columns.map Column.id).Nodup ∧ outlines u.columns = o.columns ∧
      u.parentKeyColumnIds = o.parentKeys ∧ t.columns = u.sortColumns.columns

/-- The table `t` has the address and, regardless of order, the columns of the outline. -/
def TableOutline.HasColumns (o : TableOutline) (t : Table) : Prop :=
  t.key = o.key ∧ outlines t.columns = o.columns

/-- Committed tables of one outline have the same columns, as far as names, flags and order go. -/
theorem TableOutline.Shows.map_outline_eq {o : TableOutline} {t t' : Table} (h : o.Shows t)
    (h' : o.Shows t') : t.columns.map Column.outline = t'.columns.map Column.outline := by
  obtain ⟨-, -, u, hnodup, houtlines, hparents, hcolumns⟩ := h
  obtain ⟨-, -, u', -, houtlines', hparents', hcolumns'⟩ := h'
  rw [hcolumns, hcolumns', Table.map_outline_sortColumns_eq hnodup
    (houtlines.trans houtlines'.symm) (hparents.trans hparents'.symm)]

namespace TableSet

variable {repo r : Schema} {order order' : Nat → List String} {v : Version} {set : TableSet}
  {tables tables' : List Table} {i : Nat} {o : TableOutline} {t t' : Table}
  {contents : Multiset TableOutline}

/-- The key orders of finished tables. -/
def finishedOrder (tables : List Table) (i : Nat) : List String :=
  (tables[i]?.map Table.primaryKeyIds).getD []

theorem keyOrder_of_parentIs {target : LinkTarget} {parent : Table}
    (h : ParentIs tables repo target parent) :
    target.keyOrder (finishedOrder tables) repo = parent.primaryKeyIds := by
  cases target with
  | inSet j =>
    have hget : tables[j]? = some parent := h
    simp [LinkTarget.keyOrder, finishedOrder, hget]
  | stored key =>
    have hget : repo.get? key = some parent := h
    simp [LinkTarget.keyOrder, Schema.keyAt, hget]

/-- A finished table shows what is known of it regardless of order, and its key is in key order. -/
theorem FinishedFrom.shows (hv : v.sortsColumns = true)
    (h : FinishedFrom v repo set.links tables i t t') (ht : set.get? i = some t)
    (hnodup : (t.columns.map Column.id).Nodup)
    (ho : set.outline? repo (finishedOrder tables) i = some o) :
    o.Shows t' ∧ t'.primaryKeyIds = o.keyOrder := by
  unfold outline? at ho
  split_ifs at ho
  rw [ht, Option.map_some, Option.some.injEq] at ho
  subst ho
  cases h with
  | unlinked hlink =>
    have htarget : set.target? i = none := by rw [target?, hlink]; rfl
    rw [htarget, arranged, if_pos hv]
    exact ⟨⟨rfl, rfl, t, hnodup, rfl, rfl, rfl⟩, t.primaryKeyIds_sortColumns_eq⟩
  | @linked l parent hlink hparent =>
    have htarget : set.target? i = some l.target := by rw [target?, hlink]; rfl
    rw [htarget, Option.map_some, Option.getD_some, keyOrder_of_parentIs hparent, arranged,
      if_pos hv]
    refine ⟨⟨?_, ?_, { t with parentKeyColumnIds := parent.primaryKeyIds }, hnodup, rfl, rfl, ?_⟩,
      ?_⟩
    · rw [Table.key_addForeignKey]
      rfl
    · rw [Table.parentKeyColumnIds_addForeignKey]
      rfl
    · rw [Table.columns_addForeignKey]
    · rw [Table.primaryKeyIds_addForeignKey, Table.primaryKeyIds_sortColumns_eq]
      rfl

private theorem outlines_arranged (v : Version) (t : Table) :
    outlines (arranged v t).columns = outlines t.columns := by
  unfold arranged
  split_ifs
  · exact outlines_perm t.columns_sortColumns_perm
  · rfl

/-- In every version a finished table has the columns that are known of it. -/
theorem FinishedFrom.hasColumns (h : FinishedFrom v repo set.links tables i t t')
    (ht : set.get? i = some t) (ho : set.outline? repo order i = some o) : o.HasColumns t' := by
  unfold outline? at ho
  split_ifs at ho
  rw [ht, Option.map_some, Option.some.injEq] at ho
  subst ho
  cases h with
  | unlinked _ => exact ⟨t.key_arranged v, outlines_arranged v t⟩
  | @linked l parent _ _ =>
    refine ⟨?_, ?_⟩
    · rw [Table.key_addForeignKey, Table.key_arranged]
      rfl
    · rw [Table.columns_addForeignKey, outlines_arranged]

theorem exists_outline?_iff (repo : Schema) (order : Nat → List String) (set : TableSet) (i : Nat) :
    (∃ o, set.outline? repo order i = some o) ↔ i < set.next ∧ i ∉ set.discarded := by
  unfold outline?
  split_ifs with h
  · simp [h]
  · simp only [Option.map_eq_some_iff, h, not_false_eq_true, and_true]
    constructor
    · rintro ⟨o, t, ht, -⟩
      exact (List.getElem?_eq_some_iff.mp ht).1
    · exact fun hi => ⟨_, _, List.getElem?_eq_getElem hi, rfl⟩

/-- Every table that is kept shows what is known of it regardless of order. -/
theorem shows_of_finish (hv : v.sortsColumns = true) (hset : set.WellLinked repo)
    (hnodup : ∀ t ∈ set.tables, (t.columns.map Column.id).Nodup)
    (hfinish : set.finish v repo = .ok tables)
    (ho : set.outline? repo (finishedOrder tables) i = some o) :
    ∃ t, tables[i]? = some t ∧ o.Shows t ∧ t.primaryKeyIds = o.keyOrder := by
  obtain ⟨hi, hkept⟩ := (set.exists_outline?_iff repo (finishedOrder tables) i).mp ⟨o, ho⟩
  have ht : set.get? i = some set.tables[i] := List.getElem?_eq_getElem hi
  obtain ⟨t', ht', hfrom⟩ := (finishedFrom_of_finish hset hfinish).2 i _ hkept ht
  exact ⟨t', ht', hfrom.shows hv ht (hnodup _ (List.getElem_mem hi)) ho⟩

/-- The key orders of the finished tables fit the set. -/
theorem fitsFrom_finishedOrder (hv : v.sortsColumns = true) (hset : set.WellLinked repo)
    (hnodup : ∀ t ∈ set.tables, (t.columns.map Column.id).Nodup)
    (hfinish : set.finish v repo = .ok tables) :
    set.FitsFrom repo (finishedOrder tables) 0 := by
  intro i _ o ho
  obtain ⟨t, ht, -, hkey⟩ := shows_of_finish hv hset hnodup hfinish ho
  rw [finishedOrder, ht, ← hkey]
  rfl

/-! ### The tables that are kept -/

theorem kept_eq_filterMap (tables : List Table) : set.kept tables =
    (List.range tables.length).filterMap fun i =>
      if i ∈ set.discarded then none else tables[i]? := by
  induction tables using List.reverseRecOn with
  | nil => rfl
  | append_singleton rest t ih =>
    have hlast : set.kept (rest ++ [t]) =
        set.kept rest ++ if rest.length ∈ set.discarded then [] else [t] := by
      rw [kept, List.zipIdx_append, List.filter_append, List.map_append]
      split_ifs with h <;> simp [kept, isDiscarded, h]
    rw [hlast, ih, List.length_append, List.length_singleton, List.range_succ,
      List.filterMap_append]
    congr 1
    · refine List.filterMap_congr fun i hi => ?_
      rw [List.getElem?_append_left (List.mem_range.mp hi)]
    · split_ifs with h <;> simp [h]

/-- What is known of the tables of a set at their positions is known of the tables that are kept,
one by one. -/
private theorem forall₂_kept {P : TableOutline → Table → Prop} (hlength : tables.length = set.next)
    (hP : ∀ i o, set.outline? repo order i = some o → ∃ t, tables[i]? = some t ∧ P o t) :
    List.Forall₂ P ((List.range set.next).filterMap (set.outline? repo order))
      (set.kept tables) := by
  have hrange : List.Forall₂ (fun i j => i = j ∧ i < set.next) (List.range set.next)
      (List.range set.next) :=
    List.forall₂_same.mpr fun i hi => ⟨rfl, List.mem_range.mp hi⟩
  rw [kept_eq_filterMap, hlength]
  refine List.rel_filterMap (fun i j hij => ?_) hrange
  obtain ⟨rfl, hi⟩ := hij
  cases ho : set.outline? repo order i with
  | none =>
    have hdiscarded : i ∈ set.discarded := by
      by_contra hkept
      obtain ⟨o, ho'⟩ := (set.exists_outline?_iff repo order i).mpr ⟨hi, hkept⟩
      simp [ho] at ho'
    rw [if_pos hdiscarded]
    exact .none
  | some o =>
    obtain ⟨t, ht, hot⟩ := hP i o ho
    rw [if_neg ((set.exists_outline?_iff repo _ i).mp ⟨o, ho⟩).2, ht]
    exact .some hot

/-- The tables that are kept show what is known of them, one by one. -/
theorem forall₂_shows_kept (hv : v.sortsColumns = true) (hset : set.WellLinked repo)
    (hnodup : ∀ t ∈ set.tables, (t.columns.map Column.id).Nodup)
    (hfinish : set.finish v repo = .ok tables) :
    List.Forall₂ TableOutline.Shows
      ((List.range set.next).filterMap (set.outline? repo (finishedOrder tables)))
      (set.kept tables) := by
  refine forall₂_kept (finishedFrom_of_finish hset hfinish).1 fun i o ho => ?_
  obtain ⟨t, ht, hshows, -⟩ := shows_of_finish hv hset hnodup hfinish ho
  exact ⟨t, ht, hshows⟩

/-- In every version the tables that are kept have the columns that are known of them, one by
one. -/
theorem forall₂_hasColumns_kept (hset : set.WellLinked repo)
    (hfinish : set.finish v repo = .ok tables) (order : Nat → List String) :
    List.Forall₂ TableOutline.HasColumns
      ((List.range set.next).filterMap (set.outline? repo order)) (set.kept tables) := by
  refine forall₂_kept (finishedFrom_of_finish hset hfinish).1 fun i o ho => ?_
  obtain ⟨hi, hkept⟩ := (set.exists_outline?_iff repo order i).mp ⟨o, ho⟩
  have ht : set.get? i = some set.tables[i] := List.getElem?_eq_getElem hi
  obtain ⟨t', ht', hfrom⟩ := (finishedFrom_of_finish hset hfinish).2 i _ hkept ht
  exact ⟨t', ht', hfrom.hasColumns ht ho⟩

end TableSet

/-! ### Commits -/

/-- Tables that can be committed to a schema: the stored tables they hang off are there, and their
addresses are different and free. -/
structure Schema.Accepts (repo : Schema) (contents : Multiset TableOutline) : Prop where
  parents : ∀ o ∈ contents, ∀ key, o.storedParent = some key → (repo.get? key).isSome
  nodup : (contents.map TableOutline.key).Nodup
  free : ∀ o ∈ contents, repo.get? o.key = none

namespace TableSet

variable {repo r : Schema} {order : Nat → List String} {v : Version} {set : TableSet}
  {tables : List Table} {contents : Multiset TableOutline} {key : TableKey} {o : TableOutline}

theorem mem_outlinesBetween_iff : o ∈ set.outlinesBetween repo order 0 set.next ↔
    ∃ i, set.outline? repo order i = some o := by
  rw [outlinesBetween, Multiset.mem_coe, List.mem_filterMap]
  constructor
  · rintro ⟨i, -, ho⟩
    exact ⟨i, ho⟩
  · rintro ⟨i, ho⟩
    exact ⟨i, List.mem_range'_1.mpr ⟨Nat.zero_le i, by have := lt_next_of_outline? ho; omega⟩, ho⟩

/-- The stored table that a table hangs off, if any. -/
theorem storedParent_eq_some_iff {i : Nat} (ho : set.outline? repo order i = some o) :
    o.storedParent = some key ↔ set.target? i = some (.stored key) := by
  unfold outline? at ho
  split_ifs at ho
  obtain ⟨t, -, rfl⟩ := Option.map_eq_some_iff.mp ho
  cases set.target? i with
  | none => simp
  | some target => cases target <;> simp [LinkTarget.stored?]

/-- What a set needs of stored tables is seen from the tables it consists of. -/
theorem ConsistsOf.hasParents_iff (h : set.ConsistsOf repo contents) (hlinks : set.LinksBack) :
    set.HasParents repo ↔
      ∀ o ∈ contents, ∀ key, o.storedParent = some key → (repo.get? key).isSome := by
  obtain ⟨order, hfits⟩ := hlinks.exists_fitsFrom repo
  rw [← h.outlines_eq order hfits]
  constructor
  · intro hparents o ho key hkey
    obtain ⟨i, ho⟩ := mem_outlinesBetween_iff.mp ho
    rw [storedParent_eq_some_iff ho, target?, Option.map_eq_some_iff] at hkey
    obtain ⟨l, hl, htarget⟩ := hkey
    exact hparents l (List.mem_of_find?_eq_some hl) key htarget
  · intro hparents l hl key hkey
    obtain ⟨o, ho⟩ := (set.exists_outline?_iff repo order l.child).mpr (h.isTidy.child l hl)
    refine hparents o (mem_outlinesBetween_iff.mpr ⟨_, ho⟩) key ?_
    rw [storedParent_eq_some_iff ho, h.isTidy.target?_of_mem hl, hkey]

/-- The tables of a finished set show the tables that it consists of, one by one. -/
theorem ConsistsOf.exists_forall₂ {stored : Schema} (h : set.ConsistsOf repo contents)
    (hv : v.sortsColumns = true) (hlinked : set.WellLinked stored)
    (hnodup : ∀ t ∈ set.tables, (t.columns.map Column.id).Nodup)
    (hfinish : set.finish v repo = .ok tables) :
    ∃ os : List TableOutline, (os : Multiset TableOutline) = contents ∧
      List.Forall₂ TableOutline.Shows os (set.kept tables) := by
  have hset : set.WellLinked repo := ⟨hlinked.inSet, (finish_ok_iff h.isTidy).mp ⟨tables, hfinish⟩⟩
  refine ⟨_, ?_, forall₂_shows_kept hv hset hnodup hfinish⟩
  rw [← h.outlines_eq _ (fitsFrom_finishedOrder hv hset hnodup hfinish), outlinesBetween,
    Nat.sub_zero, List.range_eq_range']

/-- In every version the tables of a finished set have the columns of the tables that it consists
of, one by one. -/
theorem ConsistsOf.exists_forall₂_hasColumns {stored : Schema} (h : set.ConsistsOf repo contents)
    (hlinked : set.WellLinked stored) (hfinish : set.finish v repo = .ok tables) :
    ∃ os : List TableOutline, (os : Multiset TableOutline) = contents ∧
      List.Forall₂ TableOutline.HasColumns os (set.kept tables) := by
  have hset : set.WellLinked repo := ⟨hlinked.inSet, (finish_ok_iff h.isTidy).mp ⟨tables, hfinish⟩⟩
  obtain ⟨order, hfits⟩ := hlinked.linksBack.exists_fitsFrom repo
  refine ⟨_, ?_, forall₂_hasColumns_kept hset hfinish order⟩
  rw [← h.outlines_eq order hfits, outlinesBetween, Nat.sub_zero, List.range_eq_range']

section Kept

variable {P : TableOutline → Table → Prop} {os : List TableOutline} {ts : List Table}

private theorem map_key_eq (hP : ∀ o t, P o t → t.key = o.key) (h : List.Forall₂ P os ts) :
    ts.map Table.key = os.map TableOutline.key := by
  induction h with
  | nil => rfl
  | cons hot _ ih => rw [List.map_cons, List.map_cons, hP _ _ hot, ih]

private theorem exists_of_mem (h : List.Forall₂ P os ts) (ho : o ∈ os) : ∃ t ∈ ts, P o t := by
  induction h with
  | nil => simp at ho
  | @cons p t _ _ hot _ ih =>
    rcases List.mem_cons.mp ho with rfl | ho
    · exact ⟨t, List.mem_cons_self, hot⟩
    · obtain ⟨u, hu, hou⟩ := ih ho
      exact ⟨u, List.mem_cons_of_mem t hu, hou⟩

/-- Tables can be inserted exactly when the addresses of their outlines are different and free. -/
private theorem insertAll_ok_iff_of_outlines (hP : ∀ o t, P o t → t.key = o.key)
    (h : List.Forall₂ P os ts) :
    (∃ r, repo.insertAll ts = (r, none)) ↔
      ((os : Multiset TableOutline).map TableOutline.key).Nodup ∧
        ∀ o ∈ (os : Multiset TableOutline), repo.get? o.key = none := by
  have hfree : (∀ t ∈ ts, repo.get? t.key = none) ↔
      ∀ key ∈ ts.map Table.key, repo.get? key = none := by simp
  rw [Schema.insertAll_ok_iff, hfree, map_key_eq hP h]
  simp

/-- The schema after tables have been inserted. -/
private theorem get?_insertAll_of_outlines (hP : ∀ o t, P o t → t.key = o.key)
    (h : List.Forall₂ P os ts) (hinsert : repo.insertAll ts = (r, none)) (key : TableKey) :
    (∃ o ∈ (os : Multiset TableOutline), o.key = key ∧ ∃ t, r.get? key = some t ∧ P o t) ∨
      (∀ o ∈ (os : Multiset TableOutline), o.key ≠ key) ∧ r.get? key = repo.get? key := by
  by_cases hkey : ∃ o ∈ os, o.key = key
  · obtain ⟨o, ho, rfl⟩ := hkey
    obtain ⟨t, ht, hot⟩ := exists_of_mem h ho
    exact Or.inl ⟨o, ho, rfl, t, hP o t hot ▸ Schema.get?_insertAll_of_mem hinsert ht, hot⟩
  · have hother : ∀ o ∈ os, o.key ≠ key := fun o ho heq => hkey ⟨o, ho, heq⟩
    have hnone : ts.find? (fun t => t.key = key) = none := by
      refine List.find?_eq_none.mpr fun t ht heq => ?_
      have hmem : t.key ∈ os.map TableOutline.key := map_key_eq hP h ▸ List.mem_map_of_mem ht
      obtain ⟨o, ho, hokey⟩ := List.mem_map.mp hmem
      exact hother o ho (hokey.trans (of_decide_eq_true heq))
    refine Or.inr ⟨hother, ?_⟩
    rw [Schema.inserted_of_insertAll hinsert, Schema.get?_append, hnone, Option.or_none]

/-- What outlines determine of tables is the same in schemas that have the same tables regardless of
order and agree elsewhere. -/
theorem map_get?_eq_of_outlines {β : Type} {F : Table → β} {r' : Schema}
    (hF : ∀ o t t', P o t → P o t' → F t = F t')
    (hnodup : (contents.map TableOutline.key).Nodup)
    (h : (∃ o ∈ contents, o.key = key ∧ ∃ t, r.get? key = some t ∧ P o t) ∨
      (∀ o ∈ contents, o.key ≠ key) ∧ r.get? key = repo.get? key)
    (h' : (∃ o ∈ contents, o.key = key ∧ ∃ t, r'.get? key = some t ∧ P o t) ∨
      (∀ o ∈ contents, o.key ≠ key) ∧ r'.get? key = repo.get? key) :
    (r.get? key).map F = (r'.get? key).map F := by
  rcases h with ⟨o, ho, hkey, t, ht, hot⟩ | ⟨hnone, hget⟩ <;>
    rcases h' with ⟨o', ho', hkey', t', ht', hot'⟩ | ⟨hnone', hget'⟩
  · obtain rfl : o = o' :=
      Multiset.inj_on_of_nodup_map hnodup o ho o' ho' (hkey.trans hkey'.symm)
    rw [ht, ht', Option.map_some, Option.map_some, hF o t t' hot hot']
  · exact absurd hkey (hnone' o ho)
  · exact absurd hkey' (hnone o' ho')
  · rw [hget, hget']

end Kept

/-- A set can be committed exactly when the tables it consists of can, in every version. -/
theorem ConsistsOf.exists_store_iff {stored : Schema} (h : set.ConsistsOf repo contents)
    (hlinked : set.WellLinked stored) :
    (∃ r, set.store v repo = .ok r) ↔ repo.Accepts contents := by
  have hinsert (tables : List Table) (hfinish : set.finish v repo = .ok tables) :
      (∃ r, repo.insertAll (set.kept tables) = (r, none)) ↔
        (contents.map TableOutline.key).Nodup ∧ ∀ o ∈ contents, repo.get? o.key = none := by
    obtain ⟨os, rfl, hcolumns⟩ := h.exists_forall₂_hasColumns hlinked hfinish
    exact insertAll_ok_iff_of_outlines (fun _ _ hot => hot.1) hcolumns
  simp only [store_eq_ok_iff]
  constructor
  · rintro ⟨r, tables, hfinish, hr⟩
    obtain ⟨hkeys, hfree⟩ := (hinsert tables hfinish).mp ⟨r, hr⟩
    have hparents := (finish_ok_iff h.isTidy).mp ⟨tables, hfinish⟩
    exact ⟨(h.hasParents_iff hlinked.linksBack).mp hparents, hkeys, hfree⟩
  · rintro ⟨hparents, hkeys, hfree⟩
    obtain ⟨tables, hfinish⟩ := (finish_ok_iff (v := v) h.isTidy).mpr
      ((h.hasParents_iff hlinked.linksBack).mpr hparents)
    obtain ⟨r, hr⟩ := (hinsert tables hfinish).mpr ⟨hkeys, hfree⟩
    exact ⟨r, tables, hfinish, hr⟩

/-- The schema after a commit: it has the tables that the set consists of, and those it had. -/
theorem ConsistsOf.get?_store {stored : Schema} (h : set.ConsistsOf repo contents)
    (hv : v.sortsColumns = true) (hlinked : set.WellLinked stored)
    (hnodup : ∀ t ∈ set.tables, (t.columns.map Column.id).Nodup)
    (hstore : set.store v repo = .ok r) (key : TableKey) :
    (∃ o ∈ contents, o.key = key ∧ ∃ t, r.get? key = some t ∧ o.Shows t) ∨
      (∀ o ∈ contents, o.key ≠ key) ∧ r.get? key = repo.get? key := by
  obtain ⟨tables, hfinish, hinsert⟩ := store_eq_ok_iff.mp hstore
  obtain ⟨os, rfl, hshows⟩ := h.exists_forall₂ hv hlinked hnodup hfinish
  exact get?_insertAll_of_outlines (fun _ _ hot => hot.1) hshows hinsert key

/-- The same in every version, regardless of the order of columns. -/
theorem ConsistsOf.get?_store_hasColumns {stored : Schema} (h : set.ConsistsOf repo contents)
    (hlinked : set.WellLinked stored) (hstore : set.store v repo = .ok r) (key : TableKey) :
    (∃ o ∈ contents, o.key = key ∧ ∃ t, r.get? key = some t ∧ o.HasColumns t) ∨
      (∀ o ∈ contents, o.key ≠ key) ∧ r.get? key = repo.get? key := by
  obtain ⟨tables, hfinish, hinsert⟩ := store_eq_ok_iff.mp hstore
  obtain ⟨os, rfl, hcolumns⟩ := h.exists_forall₂_hasColumns hlinked hfinish
  exact get?_insertAll_of_outlines (fun _ _ hot => hot.1) hcolumns hinsert key

private theorem exists_outline?_key_iff (repo : Schema) (order : Nat → List String) {i : Nat} :
    (∃ o, set.outline? repo order i = some o ∧ o.key = key) ↔
      i ∉ set.discarded ∧ ∃ t, set.tables[i]? = some t ∧ t.key = key := by
  unfold outline?
  split_ifs with h
  · simp [h]
  · simp [h, get?]

/-- The addresses of the tables of a set are those of the tables it consists of. -/
theorem ConsistsOf.mem_keys_iff (h : set.ConsistsOf repo contents) (hlinks : set.LinksBack) :
    some key ∈ set.keys ↔ ∃ o ∈ contents, o.key = key := by
  obtain ⟨order, hfits⟩ := hlinks.exists_fitsFrom repo
  have hkeys : some key ∈ set.keys ↔
      ∃ i, i ∉ set.discarded ∧ ∃ t, set.tables[i]? = some t ∧ t.key = key := by
    simp only [keys, List.mem_map, List.mem_zipIdx_iff_getElem?, isDiscarded, Prod.exists,
      decide_eq_true_eq]
    constructor
    · rintro ⟨t, i, ht, hkey⟩
      split_ifs at hkey with hkept
      exact ⟨i, hkept, t, ht, Option.some.inj hkey⟩
    · rintro ⟨i, hkept, t, ht, rfl⟩
      exact ⟨t, i, ht, if_neg hkept⟩
  rw [hkeys, ← h.outlines_eq order hfits]
  simp only [mem_outlinesBetween_iff, ← exists_outline?_key_iff repo order]
  constructor
  · rintro ⟨i, o, ho, hkey⟩
    exact ⟨o, ⟨i, ho⟩, hkey⟩
  · rintro ⟨o, ⟨i, ho⟩, hkey⟩
    exact ⟨i, o, ho, hkey⟩

end TableSet

/-! ### The tables of an entity -/

namespace TableContext

variable {ctx : TableContext} {repo r : Schema} {e : Entity} {reason : TableReason}
  {set : TableSet} {key : TableKey}

/-- The set of tables of an entity consists of the tables of its plan. -/
theorem exists_mainPlan_of_mainTable (repo : Schema) (h : ctx.mainTable e reason = .ok set) :
    ∃ contents, ctx.mainPlan repo e = some contents ∧ set.ConsistsOf repo contents := by
  rcases ctx.consistsOf_mainTable repo e reason with
    ⟨err, herr, -⟩ | ⟨set', contents, hset, hplan, hc⟩
  · simp [h] at herr
  · obtain rfl : set = set' := Except.ok.inj (h.symm.trans hset)
    exact ⟨contents, hplan, hc⟩

/-- The tables of an entity can be committed exactly when it has a plan whose tables the schema
accepts. -/
theorem exists_store_mainTable_iff (ctx : TableContext) (repo : Schema) (e : Entity)
    (reason : TableReason) :
    (∃ r, (ctx.mainTable e reason >>= fun set => set.store ctx.version repo) = .ok r) ↔
      ∃ contents, ctx.mainPlan repo e = some contents ∧ repo.Accepts contents := by
  rcases ctx.consistsOf_mainTable repo e reason with
    ⟨err, herr, hplan⟩ | ⟨set, contents, hset, hplan, hconsists⟩
  · simp [herr, hplan, bind, Except.bind]
  · have hstore : (∃ r, set.store ctx.version repo = .ok r) ↔ repo.Accepts contents :=
      hconsists.exists_store_iff (ctx.wellLinked_of_mainTable hset)
    simp only [hset, hplan, bind, Except.bind, hstore, Option.some.injEq, exists_eq_left']

/-- The same, from version 7.0 on. -/
theorem store_mainTable_ok_iff (ctx : TableContext) (repo : Schema) (e : Entity)
    (reason : TableReason) (_ : ctx.version.sortsColumns = true) :
    (∃ r, (ctx.mainTable e reason >>= fun set => set.store ctx.version repo) = .ok r) ↔
      ∃ contents, ctx.mainPlan repo e = some contents ∧ repo.Accepts contents :=
  ctx.exists_store_mainTable_iff repo e reason

/-- From version 7.0 on the tables that are committed for an entity are those of its plan. -/
theorem get?_store_mainTable (ctx : TableContext) (hv : ctx.version.sortsColumns = true)
    (hset : ctx.mainTable e reason = .ok set) (hstore : set.store ctx.version repo = .ok r)
    {contents : Multiset TableOutline} (hplan : ctx.mainPlan repo e = some contents)
    (key : TableKey) :
    (some key ∈ set.keys ↔ ∃ o ∈ contents, o.key = key) ∧
      ((∃ o ∈ contents, o.key = key ∧ ∃ t, r.get? key = some t ∧ o.Shows t) ∨
        (∀ o ∈ contents, o.key ≠ key) ∧ r.get? key = repo.get? key) := by
  obtain ⟨contents', hplan', hconsists⟩ := exists_mainPlan_of_mainTable repo hset
  obtain rfl : contents' = contents := Option.some.inj (hplan'.symm.trans hplan)
  have hlinked := ctx.wellLinked_of_mainTable hset
  have hnodup := (lasting_distinctColumns ctx.version).of_mainTable hset
  exact ⟨hconsists.mem_keys_iff hlinked.linksBack,
    hconsists.get?_store hv hlinked hnodup hstore key⟩

/-- The same in every version, regardless of the order of columns. -/
theorem get?_store_mainTable_hasColumns (ctx : TableContext)
    (hset : ctx.mainTable e reason = .ok set) (hstore : set.store ctx.version repo = .ok r)
    {contents : Multiset TableOutline} (hplan : ctx.mainPlan repo e = some contents) (key : TableKey) :
    (some key ∈ set.keys ↔ ∃ o ∈ contents, o.key = key) ∧
      ((∃ o ∈ contents, o.key = key ∧ ∃ t, r.get? key = some t ∧ o.HasColumns t) ∨
        (∀ o ∈ contents, o.key ≠ key) ∧ r.get? key = repo.get? key) := by
  obtain ⟨contents', hplan', hconsists⟩ := exists_mainPlan_of_mainTable repo hset
  obtain rfl : contents' = contents := Option.some.inj (hplan'.symm.trans hplan)
  have hlinked := ctx.wellLinked_of_mainTable hset
  exact ⟨hconsists.mem_keys_iff hlinked.linksBack,
    hconsists.get?_store_hasColumns hlinked hstore key⟩

end TableContext

end Tabular
