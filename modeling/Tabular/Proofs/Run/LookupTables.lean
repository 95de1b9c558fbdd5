import Mathlib.Tactic.Common
import Tabular.Proofs.Derive.LookupKeys
import Tabular.Proofs.Derive.ParentKeys
import Tabular.Proofs.Run.Owners
import Tabular.Proofs.Run.Validation

/-!
# Lookup keys meet the lookup tables

A lookup key is made with the table of its property, under a name that is worked out from the entity
that the property refers to. The lookup table is made for that entity by a pass of its own, under a
name that is worked out there. The two agree: when the main tables are finished, every lookup key of
a descriptor or enumeration property leads to a table whose key is the column that it names. This
holds wherever the lookup key is, also in tables that later stages add.

## Main definitions

* `LookupTarget.IsKeyedIn`: a lookup table with its key in a schema.
* `Schema.MeetsLookups`: lookup keys lead to such tables.

## Main results

* `Reaches.lookupsTraced`: every lookup key of a run comes from a property.
* `isKeyedIn_of_storeDescriptor`, `isKeyedIn_of_storeEnumeration`: the tables that are looked up.
* `Reaches.meetsLookups`, `lookupKeys_meet_tables`: runs that build the main tables.
-/

namespace Tabular

variable {c : Config} {m : Model} {s s' : Schema} {id : EntityId} {set : TableSet} {t : Table}
  {e : Entity} {v : Version}

/-! ### Lookup keys in a run -/

/-- The tables that a step commits. -/
theorem Drafted.lookupsTraced (h : Drafted c m s id set) :
    set.LookupsTraced (c.tableContext m s) := by
  have hsingle {id : EntityId} {t : Table} (ht : t.foreignKeys = []) :
      ((TableSet.empty id).push t).LookupsTraced (c.tableContext m s) :=
    ⟨TableContext.lookupsTraced_push (by simp [TableSet.empty]) (.of_nil ht),
      by simp [TableSet.empty]⟩
  cases h with
  | main he h => exact TableContext.lookupsTraced_of_mainTable he h
  | descriptor he h =>
    have hbuilt := TableContext.built_of_entityTables h
    exact hbuilt.lookupsTraced_of_start he
      ((Table.LookupsTraced.of_nil rfl).addForeignKey (by simp [ForeignKey.ofPairs]))
  | subclass he h =>
    obtain ⟨main, key, hmain, hkey, rfl⟩ := TableContext.exists_of_subclassTable h
    have htraced := TableContext.lookupsTraced_of_mainTable he hmain
    have hreason : key.reason ≠ .lookup := by
      simp [TableContext.reason_of_baseKey hkey]
    exact ⟨TableSet.forall_tables_modify htraced.tables fun t ht => ht.addForeignKey hreason,
      htraced.links⟩
  | extension he h => exact TableContext.lookupsTraced_of_extensionTable he h
  | codeValues => exact hsingle (by simp [codeValueTable, Table.ofReason])
  | schoolYears => exact hsingle (by simp [schoolYearTable, Table.ofReason])

theorem Origin.lookupsTraced
    (hs : ∀ u ∈ s.inserted, u.LookupsTraced (c.tableContext m .empty)) (h : Origin c m s t) :
    t.LookupsTraced (c.tableContext m .empty) := by
  induction h with
  | stored ht => exact hs _ ht
  | @committed _ set tables i u _ hset hu hfrom =>
    -- the lookup table of a property does not depend on the schema so far
    have htraced : set.LookupsTraced (c.tableContext m .empty) :=
      ⟨hset.lookupsTraced.tables, hset.lookupsTraced.links⟩
    have ht := htraced.tables u hu
    cases hfrom with
    | unlinked => exact ht.arranged
    | @linked l parent hlink =>
      have hordered : Table.LookupsTraced (c.tableContext m .empty)
          { u with parentKeyColumnIds := parent.primaryKeyIds } := ht
      exact hordered.arranged.addForeignKey (htraced.links l (List.mem_of_find?_eq_some hlink))
  | baseDescriptor =>
    exact (Table.LookupsTraced.of_nil (by simp [baseDescriptorTable, Table.ofReason])).arranged
  | mapType _ _ _ ih =>
    exact (ih.addColumns [_]).arranged.addForeignKey (by simp [ForeignKey.ofPairs])
  | foreignKey k hk _ ih => exact ih.addForeignKey (by simp [hk])

/-- In the course of a run every lookup key comes from a property of the model. -/
theorem Reaches.lookupsTraced (h : Reaches c m .empty s) :
    ∀ t ∈ s.inserted, t.LookupsTraced (c.tableContext m .empty) :=
  h.forall_inserted fun _ _ hs horigin => horigin.lookupsTraced hs

/-! ### Lookup tables in a run -/

/-- The lookup table is in the schema, and its key consists of its key column. -/
def LookupTarget.IsKeyedIn (target : LookupTarget) (s : Schema) : Prop :=
  ∃ t, s.table? target.namespaceName target.tableId = some t ∧
    ∀ id, id ∈ t.primaryKeyIds ↔ id = target.columnId

/-- A lookup table stays, and so does its key. -/
theorem LookupTarget.IsKeyedIn.of_reaches {target : LookupTarget} (h : target.IsKeyedIn s)
    (hreaches : Reaches c m s s') : target.IsKeyedIn s' := by
  obtain ⟨t, ht, hkey⟩ := h
  obtain ⟨t', ht', hlater⟩ := hreaches.exists_later ht
  exact ⟨t', ht', fun id => (hlater.keyNames id).trans (hkey id)⟩

/-- A table of a set that is kept, and whose key is named after it, is a lookup table after the
commit. -/
theorem TableSet.isKeyedIn_of_storeMain {root : EntityId} {namespaceName tableId : String} {i : Nat}
    (hset : set.WellLinked s) (h : set.storeMain v root s = .ok s') (hi : i ∉ set.discarded)
    (ht : set.get? i = some t) (hkey : t.key = ⟨namespaceName, tableId⟩)
    (hnames : ∀ id, id ∈ t.primaryKeyIds ↔ id = tableId ++ "Id") :
    (LookupTarget.named namespaceName tableId).IsKeyedIn s' := by
  obtain ⟨next, hnext, hs'⟩ := storeMain_eq_ok h
  obtain ⟨tables, hfinish, hinsert⟩ := store_eq_ok_iff.mp hnext
  obtain ⟨t', -, hget, -, hfrom⟩ := exists_get?_finishedFrom hset hfinish hinsert hi ht
  rw [hkey] at hget
  refine ⟨t', ?_, fun id => hfrom.mem_primaryKeyIds_iff.trans (hnames id)⟩
  rcases hs' with rfl | ⟨key, rfl⟩
  · exact hget
  · exact hget

/-- A single table. -/
theorem TableSet.isKeyedIn_of_storeMain_push {root entity : EntityId}
    {namespaceName tableId : String} (h : ((empty root).push t).storeMain v entity s = .ok s')
    (hkey : t.key = ⟨namespaceName, tableId⟩)
    (hnames : ∀ id, id ∈ t.primaryKeyIds ↔ id = tableId ++ "Id") :
    (LookupTarget.named namespaceName tableId).IsKeyedIn s' := by
  obtain ⟨owner, ht⟩ := get?_push_next (empty root) t
  exact isKeyedIn_of_storeMain (.of_links_eq_nil rfl) h List.not_mem_nil ht hkey hnames

/-- The tables of a descriptor are built from one with its key column. -/
theorem TableContext.built_of_descriptorTable {ctx : TableContext}
    (h : ctx.descriptorTable e = .ok set) : ∃ start : Table,
      start.key = ⟨e.namespaceName, TableNaming.descriptorTable e.name⟩ ∧
      start.columns = [descriptorKeyColumn (TableNaming.descriptorTable e.name)] ∧
      ctx.Built e.declarations
        (Scope.root start 0 [descriptorKeyColumn (TableNaming.descriptorTable e.name)]) .root
        ((TableSet.empty e.id).push start) set :=
  ⟨_, Table.key_addForeignKey _ _, by rw [Table.columns_addForeignKey], built_of_entityTables h⟩

/-- The table of a descriptor without identity properties. -/
theorem isKeyedIn_of_storeDescriptor (hplain : m.HasPlainDescriptors)
    (he : e ∈ m.ofKind .descriptor) (h : storeDescriptor c m s e = .ok s') :
    (LookupTarget.named e.namespaceName (TableNaming.descriptorTable e.name)).IsKeyedIn s' := by
  obtain ⟨set, hset, h⟩ := bind_eq_ok_iff.mp h
  obtain ⟨start, haddress, hcolumns, hbuilt⟩ := TableContext.built_of_descriptorTable hset
  obtain ⟨owner, hstart⟩ := TableSet.get?_push_next (.empty e.id) start
  obtain ⟨t, ht, hgains⟩ := hbuilt.exists_gainsKeys hstart
  obtain ⟨u, hu, hkey, -⟩ := hbuilt.settled.kept _ _ hstart
  obtain rfl : u = t := Option.some.inj (hu.symm.trans ht)
  refine TableSet.isKeyedIn_of_storeMain (TableContext.wellLinked_of_descriptorTable hset) h
    hbuilt.zero_notMem_discarded ht (hkey.trans haddress) fun id => ?_
  have hnone : ¬∃ d ∈ e.declarations, m.WritesKey d .root id := by
    rw [Model.exists_writesKey_iff]
    exact hplain.not_firmKey he .root id
  rw [hgains, or_iff_left fun hwrites => hnone hwrites.2, Table.mem_primaryKeyIds_iff]
  simp only [HasKey, hcolumns, List.mem_singleton, exists_eq_left]
  exact ⟨fun hid => hid.1.symm, fun hid => ⟨hid.symm, rfl⟩⟩

theorem key_codeValueTable (namespaceName tableId description : String) (reason : TableReason) :
    (codeValueTable v namespaceName tableId reason description).key = ⟨namespaceName, tableId⟩ := by
  rw [codeValueTable, Table.key_addColumns]
  rfl

theorem mem_primaryKeyIds_codeValueTable_iff {namespaceName tableId description columnId : String}
    {reason : TableReason} :
    columnId ∈ (codeValueTable v namespaceName tableId reason description).primaryKeyIds ↔
      columnId = tableId ++ "Id" := by
  rw [codeValueTable, Table.mem_primaryKeyIds_addColumns_iff]
  constructor
  · rintro (hid | ⟨column, hcolumn, rfl, hkey⟩)
    · simp [Table.primaryKeyIds, Table.primaryKeys, Table.ofReason] at hid
    · simp only [List.mem_cons, List.not_mem_nil, or_false] at hcolumn
      rcases hcolumn with rfl | rfl | rfl | rfl
      · rfl
      all_goals simp [Column.ofType] at hkey
  · rintro rfl
    exact Or.inr ⟨assignedKeyColumn tableId, List.mem_cons_self, rfl, rfl⟩

/-- The table of an enumeration. -/
theorem isKeyedIn_of_storeEnumeration (h : storeEnumeration c s e = .ok s') :
    (LookupTarget.named e.namespaceName (TableNaming.enumerationTable e.name)).IsKeyedIn s' := by
  rw [storeEnumeration] at h
  exact TableSet.isKeyedIn_of_storeMain_push h (key_codeValueTable _ _ _ _) fun _ =>
    mem_primaryKeyIds_codeValueTable_iff

/-! ### Runs that build the main tables -/

/-- After the main tables have been built, all descriptors and enumerations have their tables. -/
theorem isKeyedIn_of_mainTables {progress next : Progress} {outcomes : List PassOutcome}
    (hplain : m.HasPlainDescriptors)
    (h : runPasses c m .mainTables (Pass.ofStage .mainTables) progress = .ok (next, outcomes)) :
    (∀ e ∈ m.ofKind .descriptor, (LookupTarget.named e.namespaceName
        (TableNaming.descriptorTable e.name)).IsKeyedIn next.schema) ∧
      ∀ e ∈ m.ofKind .enumeration, (LookupTarget.named e.namespaceName
        (TableNaming.enumerationTable e.name)).IsKeyedIn next.schema := by
  constructor
  · intro e he
    obtain ⟨before, after, outcome, hrun, hreaches⟩ :=
      exists_run_of_mem h (p := .descriptorTables) (by simp [Pass.ofStage])
    have hafter : descriptorTables c m before.schema = .ok after.schema :=
      schemaAfter_of_run rfl hrun
    unfold descriptorTables at hafter
    split at hafter
    · rename_i hnone
      simp [hnone] at he
    · obtain ⟨base, -, hafter⟩ := bind_eq_ok_iff.mp hafter
      obtain ⟨s, s', hstep, hrest⟩ :=
        exists_reaches_of_foldlM (fun _ _ _ he hstep => .descriptor he hstep) hafter he
      exact (isKeyedIn_of_storeDescriptor hplain he hstep).of_reaches (hrest.trans hreaches)
  · intro e he
    obtain ⟨before, after, outcome, hrun, hreaches⟩ :=
      exists_run_of_mem h (p := .enumerationTables) (by simp [Pass.ofStage])
    have hafter : enumerationTables c m before.schema = .ok after.schema :=
      schemaAfter_of_run rfl hrun
    obtain ⟨s, s', hstep, hrest⟩ :=
      exists_reaches_of_foldlM (fun _ _ _ he hstep => .enumeration he hstep) hafter he
    exact (isKeyedIn_of_storeEnumeration hstep).of_reaches (hrest.trans hreaches)

/-- The table that a descriptor or enumeration property looks up. -/
theorem isKeyedIn_of_lookupTarget {ctx : TableContext} {d : Declaration} {target : LookupTarget}
    (htyped : ctx.model.HasTypedLookups) (hd : ctx.model.Declares d)
    (hkind : d.property.kind = .descriptor ∨ d.property.kind = .enumeration)
    (htarget : ctx.lookupTarget d = .ok target)
    (hdescriptors : ∀ e ∈ ctx.model.ofKind .descriptor, (LookupTarget.named e.namespaceName
      (TableNaming.descriptorTable e.name)).IsKeyedIn s)
    (henumerations : ∀ e ∈ ctx.model.ofKind .enumeration, (LookupTarget.named e.namespaceName
      (TableNaming.enumerationTable e.name)).IsKeyedIn s) : target.IsKeyedIn s := by
  rcases hkind with hkind | hkind <;>
    simp only [TableContext.lookupTarget, hkind, bind_eq_ok_iff, pure_eq_ok_iff] at htarget <;>
    obtain ⟨e, he, rfl⟩ := htarget
  · exact hdescriptors e ((htyped.mem_ofKind hd he).1 hkind)
  · exact henumerations e ((htyped.mem_ofKind hd he).2 hkind)

/-- A key column that stands alone. -/
theorem Table.primaryKeyIds_eq_singleton {columnId : String}
    (hnodup : (t.columns.map Column.id).Nodup) (h : ∀ id, id ∈ t.primaryKeyIds ↔ id = columnId) :
    t.primaryKeyIds = [columnId] := by
  refine List.perm_singleton.mp ?_
  rw [List.perm_ext_iff_of_nodup (Table.nodup_primaryKeyIds hnodup) (List.nodup_singleton _)]
  simpa using h

/-- Every lookup key of the schema is the key of a lookup property of the model. That of a
descriptor or enumeration property leads to an existing table whose key is the one column that it
names, starts at a column of its own table, and has no fault. -/
def Schema.MeetsLookups (ctx : TableContext) (s : Schema) : Prop :=
  ∀ t ∈ s.tables, ∀ k ∈ t.foreignKeys, k.reason = .lookup →
    (∃ d columnId, ctx.model.Declares d ∧ d.property.kind.tableRule = .lookup ∧
      ctx.LooksUp d t.tableId columnId k) ∧
    ∀ d columnId, ctx.model.Declares d →
      d.property.kind = .descriptor ∨ d.property.kind = .enumeration →
      ctx.LooksUp d t.tableId columnId k →
        (∃ foreign foreignId, s.table? k.foreignNamespace k.foreignTableId = some foreign ∧
          k.pairs = [⟨columnId, foreignId⟩] ∧ foreign.primaryKeyIds = [foreignId]) ∧
        columnId ∈ t.columns.map Column.id ∧ s.foreignKeyFault? t k = none

/-- A schema of a run in which all descriptors and enumerations have their tables. -/
theorem Reaches.meetsLookups (h : Reaches c m .empty s) (htyped : m.HasTypedLookups)
    (hdescriptors : ∀ e ∈ m.ofKind .descriptor, (LookupTarget.named e.namespaceName
      (TableNaming.descriptorTable e.name)).IsKeyedIn s)
    (henumerations : ∀ e ∈ m.ofKind .enumeration, (LookupTarget.named e.namespaceName
      (TableNaming.enumerationTable e.name)).IsKeyedIn s) :
    s.MeetsLookups (c.tableContext m s) := by
  intro t ht k hk hreason
  obtain ⟨d, hd, hrule, columnId, hcolumn, target, htarget, hkey⟩ :=
    h.lookupsTraced t (Schema.mem_tables_iff.mp ht) k hk hreason
  refine ⟨⟨d, columnId, hd, hrule, target, htarget, hkey⟩, ?_⟩
  rintro d' columnId' hd' hkind ⟨target', htarget', hkey'⟩
  have hpairs : k.pairs = [⟨columnId', target'.columnId⟩] := by rw [hkey']; rfl
  -- whichever property the key is ascribed to, it starts at the same column
  obtain rfl : columnId = columnId' := by
    have hsame := (congrArg ForeignKey.pairs hkey).symm.trans hpairs
    exact congrArg ColumnPair.parent (List.head_eq_of_cons_eq hsame)
  obtain ⟨foreign, hforeign, hnames⟩ :=
    isKeyedIn_of_lookupTarget htyped hd' hkind htarget' hdescriptors henumerations
  have hsingle : foreign.primaryKeyIds = [target'.columnId] := Table.primaryKeyIds_eq_singleton
    (h.hasDistinctColumns foreign (Schema.mem_of_get? hforeign)) hnames
  have haddress : s.table? k.foreignNamespace k.foreignTableId = some foreign := by
    rw [hkey']
    exact hforeign
  refine ⟨⟨foreign, target'.columnId, haddress, hpairs, hsingle⟩, hcolumn, ?_⟩
  refine Schema.foreignKeyFault?_eq_none_iff.mpr ⟨foreign, haddress, ?_, ?_⟩
  · simpa [ForeignKey.parentColumnIds, hpairs] using hcolumn
  · simp [ForeignKey.foreignColumnIds, hpairs, hsingle]

/-- Suppose that descriptor properties refer to descriptors and enumeration properties to
enumerations, and that no identity property occurs in a descriptor or in what inline commons lead to
from it. Whenever stages that include the main tables succeed, in whatever table the foreign key of
a descriptor or enumeration property is, it leads to an existing table whose key is the one column
that it names, it starts at an existing column, and the check of foreign keys accepts it. -/
theorem lookupKeys_meet_tables (c : Config) (m : Model) (htyped : m.HasTypedLookups)
    (hplain : m.HasPlainDescriptors) :
    (∀ (stages : List Stage) (progress : Progress) (reports : List StageReport),
      .mainTables ∈ stages → runStages c m stages .start = .ok (progress, reports) →
        progress.schema.MeetsLookups (c.tableContext m progress.schema)) ∧
      ∀ r, .mainTables ∈ c.effectiveStages → derive c m = .ok r →
        r.schema.MeetsLookups (c.tableContext m r.schema) := by
  have hstages {stages : List Stage} {progress : Progress} {reports : List StageReport}
      (hmain : .mainTables ∈ stages)
      (hrun : runStages c m stages .start = .ok (progress, reports)) :
      progress.schema.MeetsLookups (c.tableContext m progress.schema) := by
    obtain ⟨before, after, outcomes, hpasses, hafter⟩ := exists_runPasses_of_mem hrun hmain
    obtain ⟨hdescriptors, henumerations⟩ := isKeyedIn_of_mainTables hplain hpasses
    have hreaches : Reaches c m .empty progress.schema := reaches_of_runStages hrun
    exact hreaches.meetsLookups htyped (fun e he => (hdescriptors e he).of_reaches hafter)
      fun e he => (henumerations e he).of_reaches hafter
  refine ⟨fun _ _ _ hmain hrun => hstages hmain hrun, fun r hmain hr => ?_⟩
  obtain ⟨progress, hrun, hschema⟩ := runStages_of_derive hr
  rw [hschema]
  exact hstages hmain hrun

/-- Pupils with a level, former levels and a guardian. A level has a period, and it is looked up by
an extension of pupils as well. The sex of a guardian is an enumeration. -/
def pupilModel : Model :=
  [(Entity.ofKind .inlineCommon "EdFi" "Period").withProperty
      (Property.ofKind "BeginDate" (.scalar .date)),
    (Entity.ofKind .descriptor "EdFi" "Level").withProperty
      { Property.ofKind "Period" .inlineCommon with referencedEntity := some 0 },
    Entity.ofKind .enumeration "EdFi" "SexType",
    ((Entity.ofKind .common "EdFi" "Guardian").withProperty
      (Property.ofKind "Rank" (.scalar .integer)).identity).withProperty
        { Property.ofKind "Sex" .enumeration with referencedEntity := some 2 },
    ((((Entity.ofKind .domainEntity "EdFi" "Pupil").withProperty
      (Property.ofKind "PupilId" (.scalar .integer)).identity).withProperty
        { Property.ofKind "Level" .descriptor with referencedEntity := some 1 }).withProperty
        { (Property.ofKind "Level" .descriptor).optionalCollection with
          roleName := "Former"
          referencedEntity := some 1 }).withProperty
        { Property.ofKind "Guardian" .common with referencedEntity := some 3 },
    { (Entity.ofKind .domainEntityExtension "Sample" "Pupil").withProperty
        { Property.ofKind "Level" .descriptor with
          roleName := "Target"
          referencedEntity := some 1 } with
      baseEntity := some 4 }].foldl Model.addEntity .empty

/-- The lookup keys of the main table, of a collection, of a common and of an extension all meet
their tables. -/
theorem lookupKeys_meet_tables_pupils :
    pupilModel.HasTypedLookups ∧ pupilModel.HasPlainDescriptors ∧ ∃ r,
      derive { Config.standard with targetVersion := ⟨6, 1, 0⟩, validateOutput := false }
        pupilModel = .ok r ∧
      (r.schema.tables.flatMap fun t => (t.foreignKeys.filter fun k => k.reason = .lookup).map
        fun k => (t.tableId, k.parentColumnIds, k.foreignTableId)) =
        [("Pupil", ["LevelDescriptorId"], "LevelDescriptor"),
          ("PupilFormerLevel", ["LevelDescriptorId"], "LevelDescriptor"),
          ("PupilGuardian", ["SexTypeId"], "SexType"),
          ("PupilExtension", ["TargetLevelDescriptorId"], "LevelDescriptor")] ∧
      r.schema.MeetsLookups (Config.tableContext
        { Config.standard with targetVersion := ⟨6, 1, 0⟩, validateOutput := false } pupilModel
          r.schema) := by
  have htyped : pupilModel.HasTypedLookups := by decide +kernel
  have hplain : pupilModel.HasPlainDescriptors :=
    Model.hasPlainDescriptors_of_closed (pupilModel.entities.take 2) (by decide +kernel)
      (by decide +kernel) (by decide +kernel)
  have hrun : (derive { Config.standard with targetVersion := ⟨6, 1, 0⟩, validateOutput := false }
      pupilModel).toOption.any (fun r =>
      (r.schema.tables.flatMap fun t => (t.foreignKeys.filter fun k => k.reason = .lookup).map
        fun k => (t.tableId, k.parentColumnIds, k.foreignTableId)) =
        [("Pupil", ["LevelDescriptorId"], "LevelDescriptor"),
          ("PupilFormerLevel", ["LevelDescriptorId"], "LevelDescriptor"),
          ("PupilGuardian", ["SexTypeId"], "SexType"),
          ("PupilExtension", ["TargetLevelDescriptorId"], "LevelDescriptor")]) = true := by
    decide +kernel
  obtain ⟨r, hr, hkeys⟩ := exists_eq_ok_of_any hrun
  refine ⟨htyped, hplain, r, hr, of_decide_eq_true hkeys, ?_⟩
  exact (lookupKeys_meet_tables _ _ htyped hplain).2 r (by decide +kernel) hr

end Tabular
