import Mathlib.Tactic.Common
import Tabular.Proofs.Derive.Commit
import Tabular.Proofs.Schema.KeyOrder

/-!
# Foreign keys that follow keys

A foreign key to a table of the schema that is not a lookup table lists the key columns of that
table one by one, in their order. This file says when a schema has this property and shows that
commits keep it. Later changes must not touch the key of a table once it is in the schema.

## Main definitions

* `ForeignKey.FollowsIn`: the foreign columns of a key are the key of its foreign table.
* `Schema.KeepsKeys`: all tables of a schema keep their key sequences in another one.
* `Schema.Ordered`: the invariant of a derivation.

## Main results

* `TableSet.ordered_store`: a commit keeps the invariant and all keys.
* `Schema.ordered_modify`: so does a change of a table that leaves its key alone.
-/

namespace Tabular

/-- A foreign key of this reason refers to the whole key of a table that holds entities. -/
def ForeignKeyReason.coversKey : ForeignKeyReason → Bool
  | reference | collection | common | commonExtension | subclass | extension => true
  | lookup | descriptorBase | mapType => false

/-- The foreign table of a key is in the schema, and the foreign columns are its key columns in
their order. -/
def ForeignKey.FollowsIn (k : ForeignKey) (s : Schema) : Prop :=
  ∃ f, s.table? k.foreignNamespace k.foreignTableId = some f ∧
    k.foreignColumnIds = f.primaryKeyIds

/-- Every table of the first schema is in the second one, with the same key columns in the same
order. -/
def Schema.KeepsKeys (s s' : Schema) : Prop :=
  ∀ key t, s.get? key = some t → ∃ t', s'.get? key = some t' ∧ t'.primaryKeyIds = t.primaryKeyIds

/-- All foreign keys follow the keys of their tables, and tables are arranged if the version asks
for it. -/
structure Schema.Ordered (v : Version) (s : Schema) : Prop where
  follows : ∀ t ∈ s.inserted, ∀ k ∈ t.foreignKeys, k.reason.coversKey = true → k.FollowsIn s
  arranged : v.sortsColumns = true → ∀ t ∈ s.inserted, t.IsArranged

namespace Schema.KeepsKeys

variable {s s' s'' : Schema}

theorem refl (s : Schema) : s.KeepsKeys s := fun _ t h => ⟨t, h, rfl⟩

theorem trans (h : s.KeepsKeys s') (h' : s'.KeepsKeys s'') : s.KeepsKeys s'' := by
  intro key t ht
  obtain ⟨t', ht', hkey'⟩ := h key t ht
  obtain ⟨t'', ht'', hkey''⟩ := h' key t' ht'
  exact ⟨t'', ht'', hkey''.trans hkey'⟩

/-- A foreign key goes on following a key that is kept. -/
theorem followsIn (h : s.KeepsKeys s') {k : ForeignKey} (hk : k.FollowsIn s) : k.FollowsIn s' := by
  obtain ⟨f, hf, hcolumns⟩ := hk
  obtain ⟨f', hf', hkey⟩ := h _ f hf
  exact ⟨f', hf', hcolumns.trans hkey.symm⟩

end Schema.KeepsKeys

/-! ### Tables of the schema -/

theorem Schema.table?_of_get? {s : Schema} {key : TableKey} {t : Table}
    (h : s.get? key = some t) : s.table? t.namespaceName t.tableId = some t := by
  have hkey : t.key = key := s.key_of_get? h
  rw [← hkey] at h
  exact h

theorem Schema.ordered_empty (v : Version) : Schema.empty.Ordered v :=
  ⟨by simp [empty], by simp [empty]⟩

/-- A change of a table that leaves its key alone and adds only foreign keys that follow keeps the
invariant. -/
theorem Schema.ordered_modify {v : Version} {s : Schema} {f : Table → Table} (hs : s.Ordered v)
    (key : TableKey) (haddress : ∀ t, (f t).key = t.key)
    (hkey : ∀ t ∈ s.inserted, (f t).primaryKeyIds = t.primaryKeyIds)
    (harranged : v.sortsColumns = true → ∀ t ∈ s.inserted, (f t).IsArranged)
    (hadded : ∀ t ∈ s.inserted, ∀ k ∈ (f t).foreignKeys, k.reason.coversKey = true →
      k ∈ t.foreignKeys ∨ k.FollowsIn s) :
    (s.modify key f).Ordered v ∧ s.KeepsKeys (s.modify key f) := by
  have hkeep : s.KeepsKeys (s.modify key f) := by
    intro k t ht
    rw [get?_modify haddress]
    split_ifs
    · exact ⟨f t, by rw [ht]; rfl, hkey t (mem_of_get? ht)⟩
    · exact ⟨t, ht, rfl⟩
  refine ⟨⟨fun t ht k hk hcovers => ?_, fun hv t ht => ?_⟩, hkeep⟩
  · rcases mem_inserted_modify ht with ht | ⟨u, hu, rfl⟩
    · exact hkeep.followsIn (hs.follows t ht k hk hcovers)
    · have hmem := mem_of_get? hu
      rcases hadded u hmem k hk hcovers with hold | hfollows
      · exact hkeep.followsIn (hs.follows u hmem k hold hcovers)
      · exact hkeep.followsIn hfollows
  · rcases mem_inserted_modify ht with ht | ⟨u, hu, rfl⟩
    · exact hs.arranged hv t ht
    · exact harranged hv u (mem_of_get? hu)

/-! ### Commits -/

theorem Table.IsArranged.addForeignKey {t : Table} (h : t.IsArranged) (k : ForeignKey) :
    (t.addForeignKey k).IsArranged := by
  unfold IsArranged at h ⊢
  simpa using h

theorem Table.isArranged_arranged {v : Version} (hv : v.sortsColumns = true) (t : Table) :
    (TableSet.arranged v t).IsArranged := by
  rw [TableSet.arranged, if_pos hv]
  exact t.isArranged_sortColumns

namespace TableSet

variable {set : TableSet} {v : Version} {s s' : Schema}

theorem foreignColumnIds_parentKey (child parent : Table) (r : ForeignKeyReason) :
    (parentKey child parent r).foreignColumnIds = parent.primaryKeyIds := by
  simp [parentKey, ForeignKey.foreignColumnIds, ForeignKey.ofPairs, ColumnPair.same,
    Function.comp_def]

theorem FinishedFrom.isArranged {links : List ParentLink} {tables : List Table} {i : Nat}
    {t t' : Table} (hv : v.sortsColumns = true) (h : FinishedFrom v s links tables i t t') :
    t'.IsArranged := by
  cases h with
  | unlinked => exact Table.isArranged_arranged hv t
  | linked => exact (Table.isArranged_arranged hv _).addForeignKey _

/-- The tables that a commit adds to the schema are the finished ones that are kept. -/
theorem exists_finishedFrom_of_store (hset : set.WellLinked s) (h : set.store v s = .ok s') :
    ∃ tables, set.finish v s = .ok tables ∧
      s' = { s with inserted := s.inserted ++ set.kept tables } ∧
      (∀ t ∈ set.kept tables, s'.get? t.key = some t) ∧
      ∀ t ∈ set.kept tables, ∃ i u, u ∈ set.tables ∧ set.tables[i]? = some u ∧
        FinishedFrom v s set.links tables i u t := by
  obtain ⟨tables, hfinish, hinsert⟩ := store_eq_ok_iff.mp h
  refine ⟨tables, hfinish, Schema.inserted_of_insertAll hinsert,
    fun t ht => Schema.get?_insertAll_of_mem hinsert ht, fun t ht => ?_⟩
  obtain ⟨hlen, hfinished⟩ := finishedFrom_of_finish hset hfinish
  obtain ⟨i, hi, hkept⟩ := mem_kept_iff.mp ht
  have hlt : i < set.tables.length := by
    have := (List.getElem?_eq_some_iff.mp hi).1
    rw [hlen] at this
    exact this
  have hu := List.getElem?_eq_getElem hlt
  obtain ⟨t', ht', hfrom⟩ := hfinished i _ hkept hu
  obtain rfl : t' = t := Option.some.inj (ht'.symm.trans hi)
  exact ⟨i, _, List.getElem_mem hlt, hu, hfrom⟩

theorem keepsKeys_store (h : set.store v s = .ok s') : s.KeepsKeys s' := by
  obtain ⟨tables, -, hinsert⟩ := store_eq_ok_iff.mp h
  exact fun key t ht => ⟨t, Schema.get?_of_insertAll hinsert ht, rfl⟩

/-- A commit of a well linked set whose tables have no foreign keys but those that follow keeps
the invariant and all keys. -/
theorem ordered_store (hs : s.Ordered v) (hset : set.WellLinked s)
    (hkeys : ∀ t ∈ set.tables, ∀ k ∈ t.foreignKeys, k.reason.coversKey = true → k.FollowsIn s)
    (h : set.store v s = .ok s') : s'.Ordered v ∧ s.KeepsKeys s' := by
  have hkeep := keepsKeys_store h
  obtain ⟨tables, hfinish, hinserted, hget, hnew⟩ := exists_finishedFrom_of_store hset h
  have hmem {t : Table} (ht : t ∈ s'.inserted) : t ∈ s.inserted ∨ t ∈ set.kept tables := by
    rw [hinserted] at ht
    exact List.mem_append.mp ht
  refine ⟨⟨fun t ht k hk hcovers => ?_, fun hv t ht => ?_⟩, hkeep⟩
  · rcases hmem ht with ht | ht
    · exact hkeep.followsIn (hs.follows t ht k hk hcovers)
    · obtain ⟨i, u, hu, -, hfrom⟩ := hnew t ht
      cases hfrom with
      | unlinked =>
        rw [Table.foreignKeys_arranged] at hk
        exact hkeep.followsIn (hkeys u hu k hk hcovers)
      | @linked l parent hlink hparent =>
        rcases Table.mem_foreignKeys_addForeignKey hk with hk | rfl
        · rw [Table.foreignKeys_arranged] at hk
          exact hkeep.followsIn (hkeys u hu k hk hcovers)
        · refine ⟨parent, ?_, foreignColumnIds_parentKey _ _ _⟩
          -- the parent is finished and kept, or was stored before
          cases htarget : l.target with
          | inSet j =>
            rw [htarget] at hparent
            have hkept := (hset.lt_of_find? hlink htarget).2.2
            exact hget parent (mem_kept_iff.mpr ⟨j, hparent, hkept⟩)
          | stored key =>
            rw [htarget] at hparent
            have hstored : s'.get? key = some parent :=
              Schema.get?_of_insertAll (store_eq_ok_iff.mp h).choose_spec.2 hparent
            exact Schema.table?_of_get? hstored
  · rcases hmem ht with ht | ht
    · exact hs.arranged hv t ht
    · obtain ⟨i, u, -, -, hfrom⟩ := hnew t ht
      exact hfrom.isArranged hv

/-- The same when the first table is registered as a main table. -/
theorem ordered_storeMain {e : EntityId} (hs : s.Ordered v) (hset : set.WellLinked s)
    (hkeys : ∀ t ∈ set.tables, ∀ k ∈ t.foreignKeys, k.reason.coversKey = true → k.FollowsIn s)
    (h : set.storeMain v e s = .ok s') : s'.Ordered v ∧ s.KeepsKeys s' := by
  obtain ⟨next, hnext, hs'⟩ := storeMain_eq_ok h
  have hordered := ordered_store hs hset hkeys hnext
  rcases hs' with rfl | ⟨key, rfl⟩
  · exact hordered
  · exact ⟨⟨hordered.1.follows, hordered.1.arranged⟩, hordered.2⟩

end TableSet

end Tabular
