import Tabular.Proofs.Run.Steps
import Tabular.Proofs.Schema.Following

/-!
# Foreign keys follow keys in every run

A foreign key to the table of an entity lists the key columns of that table in their order. Keys are
copied at different moments: when a set is committed, when a subclass is built, and when references
are resolved. The statement holds at the end of a run because no later step changes the key of a
table that is in the schema. The only step that adds a column to a stored table is the one for map
types, and it moves no key column unless an old data standard meets an old target version.

## Main results

* `DerivationStep.ordered`: one step keeps the invariant and the keys of all tables.
* `foreignColumnIds_eq_primaryKeyIds`: the statement for runs.
-/

namespace Tabular

variable {c : Config} {m : Model} {s s' : Schema}

/-! ### Sets of tables built from one entity -/

/-- All foreign keys of a table over whole keys follow. -/
private def FollowsAll (s : Schema) (t : Table) : Prop :=
  ∀ k ∈ t.foreignKeys, k.reason.coversKey = true → k.FollowsIn s

private theorem followsAll_of_nil {t : Table} (h : t.foreignKeys = []) : FollowsAll s t := by
  simp [FollowsAll, h]

private theorem FollowsAll.addForeignKey {t : Table} (ht : FollowsAll s t) {k : ForeignKey}
    (hk : k.reason.coversKey = true → k.FollowsIn s) : FollowsAll s (t.addForeignKey k) := by
  intro j hj hcovers
  rcases Table.mem_foreignKeys_addForeignKey hj with hj | rfl
  · exact ht j hj hcovers
  · exact hk hcovers

/-- Building adds no foreign keys over whole keys before the commit. -/
private theorem preserves_followsAll (ctx : TableContext) : ctx.Preserves (FollowsAll s) where
  fresh _ _ hkeys _ _ := followsAll_of_nil hkeys
  columns t cs ht := by simpa [FollowsAll] using ht
  parentKeys t cs ht := by simpa [FollowsAll] using ht
  lookup t target column property ht := ht.addForeignKey (fun h => by
    simp [LookupTarget.foreignKey, ForeignKey.ofPairs, ForeignKeyReason.coversKey] at h)
  source t r ht := by simpa [FollowsAll] using ht
  owner _ _ ht := ht

/-- A set built from one main table is well linked and has only foreign keys that follow. -/
private theorem built_main {ctx : TableContext} {ds : List Declaration} {t : Table} {e : EntityId}
    {keys : List Column} {strategy : Strategy} {next : TableSet} (ht : FollowsAll s t)
    (h : ctx.Built ds (Scope.root t 0 keys) strategy ((TableSet.empty e).push t) next) :
    next.WellLinked ctx.stored ∧ ∀ u ∈ next.tables, FollowsAll s u := by
  have hempty : ∀ u ∈ (TableSet.empty e).tables, FollowsAll s u := by simp [TableSet.empty]
  refine ⟨?_, h.forall_tables (preserves_followsAll ctx)
    ((preserves_followsAll ctx).push hempty ht)⟩
  have hgrown := h.grown (by simp [TableSet.empty])
  exact hgrown.wellLinked rfl rfl (Or.inl ⟨0, rfl, by simp⟩)

/-! ### Steps -/

private theorem ordered_storeEntity {e : Entity} (hs : s.Ordered c.targetVersion)
    (h : storeEntity c m s e = .ok s') : s'.Ordered c.targetVersion ∧ s.KeepsKeys s' := by
  rw [storeEntity, bind_eq_ok_iff] at h
  obtain ⟨set, hset, h⟩ := h
  obtain ⟨keys, inherited, -, -, hbuilt⟩ := TableContext.built_of_mainTable hset
  obtain ⟨hlinked, hfollows⟩ := built_main (s := s)
    (followsAll_of_nil (by simp [TableContext.mainTableStart, Table.ofReason])) hbuilt
  exact TableSet.ordered_storeMain hs hlinked hfollows h

private theorem ordered_storeBaseDescriptor (hs : s.Ordered c.targetVersion)
    (h : storeBaseDescriptor c s = .ok s') : s'.Ordered c.targetVersion ∧ s.KeepsKeys s' := by
  rcases storeBaseDescriptor_eq_ok h with rfl | h
  · exact ⟨hs, .refl s'⟩
  · have hkeep : s.KeepsKeys s' := fun key t ht => ⟨t, Schema.get?_of_insert h ht, rfl⟩
    obtain ⟨-, hinserted⟩ := Schema.insert_eq_ok_iff.mp h
    refine ⟨⟨fun t ht k hk hcovers => ?_, fun hv t ht => ?_⟩, hkeep⟩ <;>
      rw [hinserted] at ht <;> rcases List.mem_append.mp ht with ht | ht
    · exact hkeep.followsIn (hs.follows t ht k hk hcovers)
    · rw [List.mem_singleton.mp ht] at hk
      simp [baseDescriptorTable, Table.ofReason] at hk
    · exact hs.arranged hv t ht
    · rw [List.mem_singleton.mp ht]
      exact Table.isArranged_arranged hv _

private theorem ordered_storeDescriptor {e : Entity} (hs : s.Ordered c.targetVersion)
    (h : storeDescriptor c m s e = .ok s') : s'.Ordered c.targetVersion ∧ s.KeepsKeys s' := by
  rw [storeDescriptor, bind_eq_ok_iff] at h
  obtain ⟨set, hset, h⟩ := h
  have hbuilt := TableContext.built_of_entityTables hset
  obtain ⟨hlinked, hfollows⟩ := built_main (s := s)
    ((followsAll_of_nil (by rfl)).addForeignKey (fun hcovers => by
      simp [ForeignKey.ofPairs, ForeignKeyReason.coversKey] at hcovers)) hbuilt
  exact TableSet.ordered_storeMain hs hlinked hfollows h

/-- A table of its own that is committed alone. -/
private theorem ordered_storeMain_single {v : Version} {e root : EntityId} {t : Table}
    (hs : s.Ordered v) (ht : t.foreignKeys = [])
    (h : ((TableSet.empty root).push t).storeMain v e s = .ok s') :
    s'.Ordered v ∧ s.KeepsKeys s' := by
  refine TableSet.ordered_storeMain hs (.of_links_eq_nil rfl) (TableSet.forall_tables_push ?_ ?_) h
  · simp [TableSet.empty]
  · exact fun _ => followsAll_of_nil ht

theorem foreignKeys_codeValueTable (v : Version) (namespaceName tableId : String)
    (reason : TableReason) (description : String) :
    (codeValueTable v namespaceName tableId reason description).foreignKeys = [] := by
  simp [codeValueTable, Table.ofReason]

/-- A column for a map type leaves the key of a descriptor table alone if repeated columns stay
where they are. -/
theorem primaryKeyIds_withMapType {v : Version} (hv : v.isAtLeast 7 0 = true)
    (namespaceName mapTableId : String) {t : Table} (ht : t.IsArranged) :
    (withMapType v namespaceName mapTableId t).primaryKeyIds = t.primaryKeyIds ∧
      (withMapType v namespaceName mapTableId t).IsArranged := by
  have hsorts : v.sortsColumns = true := hv
  refine ⟨?_, (Table.isArranged_arranged hsorts _).addForeignKey _⟩
  have hadd := t.primaryKeyIds_addColumn_of_mergesInPlace (v := v) hv
    (c := { Column.ofType (mapTableId ++ "Id") .integer with
      nameComponents := [.base mapTableId, .synthetic "Id"]
      isNullable := true }) rfl
  rw [withMapType, Table.primaryKeyIds_addForeignKey, TableSet.arranged, if_pos hsorts,
    Table.primaryKeyIds_sortColumns, hadd]
  exact ht

theorem key_withMapType (v : Version) (namespaceName mapTableId : String) (t : Table) :
    (withMapType v namespaceName mapTableId t).key = t.key := by
  rw [withMapType, Table.key_addForeignKey, Table.key_arranged]
  rfl

private theorem mem_foreignKeys_of_withMapType {v : Version} {namespaceName mapTableId : String}
    {t : Table} {k : ForeignKey}
    (hk : k ∈ (withMapType v namespaceName mapTableId t).foreignKeys)
    (hcovers : k.reason.coversKey = true) : k ∈ t.foreignKeys := by
  rcases Table.mem_foreignKeys_addForeignKey hk with hk | rfl
  · rw [Table.foreignKeys_arranged] at hk
    exact hk
  · simp [ForeignKey.ofPairs, ForeignKeyReason.coversKey] at hcovers

private theorem ordered_storeMapType {e : Entity} (hv : c.targetVersion.isAtLeast 7 0 = true)
    (hs : s.Ordered c.targetVersion) (h : storeMapType c m s e = .ok s') :
    s'.Ordered c.targetVersion ∧ s.KeepsKeys s' := by
  rcases storeMapType_eq_ok h with rfl | ⟨_, _, mid, _, -, -, hmid, rfl⟩
  · exact ⟨hs, .refl s'⟩
  · obtain ⟨hordered, hkeep⟩ :=
      ordered_storeMain_single hs (foreignKeys_codeValueTable _ _ _ _ _) hmid
    have harranged := hordered.arranged hv
    obtain ⟨hordered', hkeep'⟩ := Schema.ordered_modify hordered _ (key_withMapType _ _ _)
      (fun t ht => (primaryKeyIds_withMapType hv _ _ (harranged t ht)).1)
      (fun _ t ht => (primaryKeyIds_withMapType hv _ _ (harranged t ht)).2)
      (fun t ht k hk hcovers => Or.inl (mem_foreignKeys_of_withMapType hk hcovers))
    exact ⟨hordered', hkeep.trans hkeep'⟩

private theorem ordered_storeSchoolYear {e : Entity} (hs : s.Ordered c.targetVersion)
    (h : storeSchoolYear c s e = .ok s') : s'.Ordered c.targetVersion ∧ s.KeepsKeys s' := by
  rcases storeSchoolYear_eq_ok h with ⟨_, rfl⟩ | h
  · exact ⟨⟨hs.follows, hs.arranged⟩, .refl s⟩
  · exact ordered_storeMain_single hs (by simp [schoolYearTable, Table.ofReason]) h

/-- The foreign key of a subclass follows the key of its base. -/
theorem followsIn_baseKey {ctx : TableContext} {e : Entity} {tableId : String} {k : ForeignKey}
    (h : ctx.baseKey e tableId = .ok k) : k.FollowsIn ctx.stored := by
  simp only [TableContext.baseKey, bind_eq_ok_iff, pure_eq_ok_iff, Prod.exists] at h
  obtain ⟨base, -, key, table, hstored, baseKeys, -, inherited, -, rfl⟩ := h
  obtain ⟨-, hget⟩ := TableContext.storedTable_eq_ok hstored
  refine ⟨table, Schema.table?_of_get? hget, ?_⟩
  simp [ForeignKey.foreignColumnIds, ForeignKey.ofPairs, Function.comp_def]

private theorem ordered_storeSubclass {e : Entity} (hs : s.Ordered c.targetVersion)
    (h : storeSubclass c m s e = .ok s') : s'.Ordered c.targetVersion ∧ s.KeepsKeys s' := by
  rw [storeSubclass, bind_eq_ok_iff] at h
  obtain ⟨set, hset, h⟩ := h
  simp only [TableContext.subclassTable, bind_eq_ok_iff, pure_eq_ok_iff] at hset
  obtain ⟨main, hmain, key, hkey, rfl⟩ := hset
  obtain ⟨keys, inherited, -, -, hbuilt⟩ := TableContext.built_of_mainTable hmain
  obtain ⟨hlinked, hfollows⟩ := built_main (s := s)
    (followsAll_of_nil (by simp [TableContext.mainTableStart, Table.ofReason])) hbuilt
  have hlinked' : (main.modify 0 fun t => t.addForeignKey key).WellLinked s :=
    ⟨by simpa using hlinked.inSet, hlinked.stored⟩
  refine TableSet.ordered_storeMain hs hlinked' (TableSet.forall_tables_modify hfollows ?_) h
  exact fun t ht => FollowsAll.addForeignKey ht fun _ => followsIn_baseKey hkey

private theorem ordered_storeExtension {e : Entity} (hs : s.Ordered c.targetVersion)
    (h : storeExtension c m s e = .ok s') : s'.Ordered c.targetVersion ∧ s.KeepsKeys s' := by
  rw [storeExtension, bind_eq_ok_iff] at h
  obtain ⟨set, hset, h⟩ := h
  have hlinked : set.WellLinked s := TableContext.wellLinked_of_extensionTable hset
  obtain ⟨base, key, parent, mid, -, -, -, hbuilt, rfl⟩ :=
    TableContext.built_of_extensionTable hset
  have hP := preserves_followsAll (s := s) (c.tableContext m s)
  have hempty : ∀ u ∈ (TableSet.empty e.id).tables, FollowsAll s u := by simp [TableSet.empty]
  have hmid := hbuilt.forall_tables hP (hP.push hempty (hP.suffixedTable e parent .extension))
  refine TableSet.ordered_store hs hlinked (fun u hu => hmid u ?_) h
  rwa [TableContext.tables_linkOrDiscard] at hu

theorem foreign_referencePairs {t : Table} {p : Property} {ownerContext : String} :
    {keys : List Column} → {pairs : List ColumnPair} →
      referencePairs t p ownerContext keys = .ok pairs →
      pairs.map ColumnPair.foreign = keys.map Column.id
  | [], pairs, h => by
    rw [referencePairs, Except.ok.injEq] at h
    simp [← h]
  | f :: rest, pairs, h => by
    rw [referencePairs] at h
    split at h
    · simp only [bind_eq_ok_iff, pure_eq_ok_iff] at h
      obtain ⟨others, hothers, rfl⟩ := h
      simp [foreign_referencePairs hothers]
    · simp at h

/-- The foreign key of a reference follows the key of the table it leads to. -/
theorem followsIn_referenceKey {info : CascadeInfo} {t : Table} {source : ReferenceSource}
    {k : ForeignKey} (h : referenceKey m info s t source = .ok (some k)) : k.FollowsIn s := by
  unfold referenceKey at h
  split at h
  · simp at h
  · split_ifs at h
    · simp at h
    · split at h
      · simp at h
      · split at h
        · simp at h
        · rename_i foreign hforeign
          simp only [bind_eq_ok_iff, pure_eq_ok_iff, Option.some.injEq] at h
          obtain ⟨pairs, hpairs, rfl⟩ := h
          obtain ⟨key, -, hget⟩ := Option.bind_eq_some_iff.mp hforeign
          exact ⟨foreign, Schema.table?_of_get? hget, foreign_referencePairs hpairs⟩

/-- Adding foreign keys that follow, one after the other, keeps the invariant. -/
private theorem ordered_addForeignKeys {v : Version} :
    (planned : List (TableKey × ForeignKey)) → {s : Schema} → s.Ordered v →
      (∀ entry ∈ planned, entry.2.FollowsIn s) →
      (planned.foldl (fun s (key, k) => s.modify key fun t => t.addForeignKey k) s).Ordered v ∧
        s.KeepsKeys (planned.foldl (fun s (key, k) => s.modify key fun t => t.addForeignKey k) s)
  | [], s, hs, _ => ⟨hs, .refl s⟩
  | (key, k) :: rest, s, hs, hplanned => by
    have hfollows : k.FollowsIn s := hplanned (key, k) List.mem_cons_self
    have hadded : ∀ t ∈ s.inserted, ∀ j ∈ (t.addForeignKey k).foreignKeys,
        j.reason.coversKey = true → j ∈ t.foreignKeys ∨ j.FollowsIn s := by
      intro t _ j hj _
      rcases Table.mem_foreignKeys_addForeignKey hj with hj | rfl
      · exact Or.inl hj
      · exact Or.inr hfollows
    obtain ⟨hordered, hkeep⟩ := Schema.ordered_modify hs key
      (fun t => t.key_addForeignKey k) (fun t _ => t.primaryKeyIds_addForeignKey k)
      (fun hv t ht => (hs.arranged hv t ht).addForeignKey k)
      hadded
    obtain ⟨hordered', hkeep'⟩ := ordered_addForeignKeys rest hordered fun entry hentry =>
      hkeep.followsIn (hplanned entry (List.mem_cons_of_mem _ hentry))
    exact ⟨hordered', hkeep.trans hkeep'⟩

private theorem ordered_referenceKeys {v : Version} {info : CascadeInfo} (hs : s.Ordered v)
    (h : referenceKeys m info s = .ok s') : s'.Ordered v ∧ s.KeepsKeys s' := by
  obtain ⟨planned, hplanned, rfl⟩ := referenceKeys_eq_ok h
  refine ordered_addForeignKeys planned hs fun entry hentry => ?_
  obtain ⟨t, -, keys, hkeys, hentry⟩ := (mem_collect_iff hplanned).mp hentry
  obtain ⟨source, -, one, hone, hentry⟩ := (mem_collect_iff hkeys).mp hentry
  simp only [bind_eq_ok_iff, pure_eq_ok_iff] at hone
  obtain ⟨k?, hk, rfl⟩ := hone
  obtain ⟨k, hmem, rfl⟩ := List.mem_map.mp hentry
  rw [Option.mem_toList.mp hmem] at hk
  exact followsIn_referenceKey hk

/-- One step of a derivation keeps the invariant and the keys of all tables. -/
theorem DerivationStep.ordered (h : DerivationStep c m s s')
    (hversion : c.dataStandardVersion.isAtLeast 3 0 = true ∨ c.targetVersion.isAtLeast 7 0 = true)
    (hs : s.Ordered c.targetVersion) : s'.Ordered c.targetVersion ∧ s.KeepsKeys s' := by
  cases h with
  | entity _ h => exact ordered_storeEntity hs h
  | baseDescriptor h => exact ordered_storeBaseDescriptor hs h
  | descriptor _ h => exact ordered_storeDescriptor hs h
  | mapType hmap _ h =>
    have htarget : c.targetVersion.isAtLeast 7 0 = true := by
      rcases hversion with hstandard | htarget
      · simp [Version.hasMapTypes, hstandard] at hmap
      · exact htarget
    exact ordered_storeMapType htarget hs h
  | enumeration _ h => exact ordered_storeMain_single hs (foreignKeys_codeValueTable _ _ _ _ _) h
  | schoolYear _ h => exact ordered_storeSchoolYear hs h
  | subclass _ _ h => exact ordered_storeSubclass hs h
  | extension _ h => exact ordered_storeExtension hs h
  | references h => exact ordered_referenceKeys hs h

/-- Any number of steps keep the invariant and the keys of all tables. -/
theorem Reaches.ordered (h : Reaches c m s s')
    (hversion : c.dataStandardVersion.isAtLeast 3 0 = true ∨ c.targetVersion.isAtLeast 7 0 = true)
    (hs : s.Ordered c.targetVersion) : s'.Ordered c.targetVersion ∧ s.KeepsKeys s' := by
  induction h with
  | refl => exact ⟨hs, .refl s⟩
  | tail _ hstep ih =>
    obtain ⟨hordered, hkeep⟩ := ih
    obtain ⟨hordered', hkeep'⟩ := hstep.ordered hversion hordered
    exact ⟨hordered', hkeep.trans hkeep'⟩

/-! ### Runs -/

/-- If the data standard is at least 3.0 or the target at least 7.0, then after every successful run
each foreign key over a whole key has its foreign table in the schema, and its foreign columns are
the key columns of that table in their order. Along the way no step changes the key sequence of a
table that is in the schema. -/
theorem foreignColumnIds_eq_primaryKeyIds (c : Config) (m : Model)
    (hversion : c.dataStandardVersion.isAtLeast 3 0 = true ∨
      c.targetVersion.isAtLeast 7 0 = true) :
    (∀ r, derive c m = .ok r → ∀ t ∈ r.schema.tables, ∀ k ∈ t.foreignKeys,
      k.reason.coversKey = true →
        ∃ f, r.schema.table? k.foreignNamespace k.foreignTableId = some f ∧
          k.foreignColumnIds = f.primaryKeyIds) ∧
      ∀ s s', Reaches c m .empty s → DerivationStep c m s s' →
        ∀ key t, s.get? key = some t →
          ∃ t', s'.get? key = some t' ∧ t'.primaryKeyIds = t.primaryKeyIds := by
  have hempty := Schema.ordered_empty c.targetVersion
  constructor
  · intro r hr t ht k hk hcovers
    obtain ⟨hordered, -⟩ := (reaches_of_derive hr).ordered hversion hempty
    exact hordered.follows t (Schema.mem_tables_iff.mp ht) k hk hcovers
  · intro s s' hs hstep
    exact (hstep.ordered hversion (hs.ordered hversion hempty).1).2

/-- Sessions with a key of two columns, and courses that refer to a session and have titles. -/
def courseModel : Model :=
  (Model.empty.addEntity
    (((Entity.ofKind .domainEntity "EdFi" "Session").withProperty
      (Property.ofKind "Year" (.scalar .short)).identity).withProperty
        (Property.ofKind "Name" (.scalar (.text 60))).identity)).addEntity
    (((Entity.ofKind .domainEntity "EdFi" "Course").withProperty
      { (Property.ofKind "Session" .domainEntity).identity with
        referencedEntity := some 0 }).withProperty
        (Property.ofKind "Title" (.scalar (.text 60))).optionalCollection)

/-- In the run for courses the reference and the collection both list the key of a session. -/
theorem foreignColumnIds_eq_primaryKeyIds_courses :
    ∃ r, derive { Config.standard with targetVersion := ⟨6, 1, 0⟩ } courseModel = .ok r ∧
      ((r.schema.tables.flatMap Table.foreignKeys).map fun k =>
        (k.reason, k.foreignTableId, k.foreignColumnIds)) =
          [(.reference, "Session", ["Year", "Name"]), (.collection, "Course", ["Year", "Name"])] ∧
      ∀ t ∈ r.schema.tables, ∀ k ∈ t.foreignKeys, k.reason.coversKey = true →
        ∃ f, r.schema.table? k.foreignNamespace k.foreignTableId = some f ∧
          k.foreignColumnIds = f.primaryKeyIds := by
  have hrun : (derive { Config.standard with targetVersion := ⟨6, 1, 0⟩ } courseModel).toOption.any
      (fun r => ((r.schema.tables.flatMap Table.foreignKeys).map fun k =>
        (k.reason, k.foreignTableId, k.foreignColumnIds)) =
          [(.reference, "Session", ["Year", "Name"]),
            (.collection, "Course", ["Year", "Name"])]) = true := by decide +kernel
  obtain ⟨r, hr, hkeys⟩ := exists_eq_ok_of_any hrun
  refine ⟨r, hr, by simpa using hkeys, ?_⟩
  exact (foreignColumnIds_eq_primaryKeyIds _ _ (Or.inl (by decide))).1 r hr

end Tabular
