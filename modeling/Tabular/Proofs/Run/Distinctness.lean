import Mathlib.Data.List.Nodup
import Mathlib.Logic.Relation
import Mathlib.Tactic.Common
import Tabular.Proofs.Run.Evolution
import Tabular.Schema.Integrity

/-!
# Different addresses and different column names

A run changes the schema in three ways only: it inserts a table at a free address, it lets a stored
table evolve, and it registers a table as the main table of an entity. So no two tables ever have
the same address. Columns enter a table by being merged into those that are there, whichever
property, parent or lookup they come from, and they are sorted at most; so no two columns of a table
ever have the same name.

## Main definitions

* `Table.Lasting`: a property of tables that neither building nor later steps break.
* `Schema.Change`, `Schema.Changes`: the ways in which a schema changes.
* `Schema.HasDistinctColumns`: no table has two columns of one name.

## Main results

* `DerivationStep.changes`, `Reaches.changes`: a run makes no other changes.
* `Reaches.nodup_addresses`: the addresses of tables are different throughout a run.
* `Reaches.hasDistinctColumns`: the names of columns are different throughout a run.
* `columnViolations_eq_nil_throughout`: no pass of a run leaves a repeated column behind.
-/

namespace Tabular

/-! ### Lasting properties of tables -/

/-- A property of tables that tables without columns and references have, that further columns and
references do not break, and that stored tables do not lose. -/
structure Table.Lasting (v : Version) (P : Table → Prop) : Prop where
  fresh : ∀ t : Table, t.columns = [] → t.referenceSources = [] → P t
  columns : ∀ t cs, P t → P (t.addColumns v cs)
  source : ∀ t r, P t → P (t.addReferenceSource r)
  evolves : ∀ t t' : Table, t.Evolves t' → P t → P t'

namespace Table.Lasting

variable {v : Version} {P : Table → Prop}

/-- A table with columns of its own and no references. -/
theorem ofColumns (hP : Lasting v P) (t : Table) (cs : List Column) (hcolumns : t.columns = [])
    (hsources : t.referenceSources = []) : P (t.addColumns v cs) :=
  hP.columns t cs (hP.fresh t hcolumns hsources)

/-- A table with a single column and no references. -/
theorem singleColumn (hP : Lasting v P) {t : Table} {c : Column} (hcolumns : t.columns = [c])
    (hsources : t.referenceSources = []) : P t := by
  have hmerged : (Table.addColumns v { t with columns := [] } [c]).columns = [c] := by
    simp [mergeColumn, mergeInPlace, mergeAtEnd]
  refine hP.evolves _ t (.of_perm ?_ ?_ (.of_eq (hcolumns.trans hmerged.symm)))
    (hP.ofColumns { t with columns := [] } [c] rfl hsources)
  · rw [Table.key_addColumns]
    rfl
  · rw [Table.referenceSources_addColumns]

/-- The key of a parent comes as columns. -/
theorem parentKeys (hP : Lasting v P) (t : Table) (cs : List Column) (ht : P t) :
    P (t.addParentKeys v cs) := by
  obtain ⟨ids, hids⟩ := t.addParentKeys_eq v cs
  refine hP.evolves _ _ ?_ (hP.columns t (cs.map Column.asParentKey) ht)
  rw [hids, Table.addColumns_eq]
  exact .of_perm rfl rfl (.refl _)

/-- Building does not break a lasting property. -/
theorem preserves {ctx : TableContext} (hP : Lasting ctx.version P) : ctx.Preserves P where
  fresh t hcolumns _ hsources _ := hP.fresh t hcolumns hsources
  columns := hP.columns
  parentKeys := hP.parentKeys
  lookup t _ _ _ ht := hP.evolves t _ (.addForeignKey t _) ht
  source := hP.source
  owner t _ ht := hP.evolves t _ (.of_perm rfl rfl (.refl _)) ht

/-- All tables of a set that was built from one table have the property. -/
theorem of_built {ctx : TableContext} (hP : Lasting ctx.version P) {ds : List Declaration}
    {scope : Scope} {strategy : Strategy} {root : EntityId} {start : Table} {next : TableSet}
    (hstart : P start)
    (h : ctx.Built ds scope strategy ((TableSet.empty root).push start) next) :
    ∀ t ∈ next.tables, P t := by
  refine h.forall_tables hP.preserves (hP.preserves.push ?_ hstart)
  simp [TableSet.empty]

/-- The main table of an entity starts with columns only. -/
theorem of_mainTable {ctx : TableContext} (hP : Lasting ctx.version P) {e : Entity}
    {reason : TableReason} {set : TableSet} (h : ctx.mainTable e reason = .ok set) :
    ∀ t ∈ set.tables, P t := by
  obtain ⟨keys, inherited, -, -, hbuilt⟩ := TableContext.built_of_mainTable h
  exact hP.of_built (hP.ofColumns _ _ rfl rfl) hbuilt

/-- The table of an extension starts with the key of the table that it adds columns to. -/
theorem of_extensionTable {ctx : TableContext} (hP : Lasting ctx.version P) {e : Entity}
    {set : TableSet} (h : ctx.extensionTable e = .ok set) : ∀ t ∈ set.tables, P t := by
  obtain ⟨base, key, parent, mid, -, -, -, hbuilt, rfl⟩ := TableContext.built_of_extensionTable h
  have hmid := hP.of_built (hP.parentKeys _ _ (hP.fresh _ rfl rfl)) hbuilt
  rw [TableContext.tables_linkOrDiscard]
  exact hmid

end Table.Lasting

/-! ### Changes of a schema -/

/-- One change of a schema: a table with the given property is inserted, a table evolves, or a
main table is registered. -/
inductive Schema.Change (P : Table → Prop) (s : Schema) : Schema → Prop
  | insert {t : Table} {s' : Schema} (ht : P t) (h : s.insert t = .ok s') : Change P s s'
  | modify (key : TableKey) {f : Table → Table} (hf : ∀ t : Table, t.Evolves (f t)) :
      Change P s (s.modify key f)
  | register (e : EntityId) (key : TableKey) : Change P s (s.setEntityTable e key)

/-- A change of a table that leaves its address alone leaves all addresses alone. -/
theorem Schema.map_key_inserted_modify {s : Schema} {key : TableKey} {f : Table → Table}
    (hf : ∀ t, (f t).key = t.key) :
    (s.modify key f).inserted.map Table.key = s.inserted.map Table.key := by
  unfold modify
  split
  · refine List.ext_getElem (by simp) fun i _ _ => ?_
    simp only [List.getElem_map, List.getElem_modify]
    split_ifs
    · exact hf _
    · rfl
  · rfl

/-- Any number of changes of a schema. -/
def Schema.Changes (P : Table → Prop) : Schema → Schema → Prop :=
  Relation.ReflTransGen (Schema.Change P)

namespace Schema.Changes

variable {P : Table → Prop} {s s' : Schema}

theorem of_insertAll {ts : List Table} (hts : ∀ t ∈ ts, P t) (h : s.insertAll ts = (s', none)) :
    s.Changes P s' := by
  induction ts generalizing s with
  | nil =>
    simp only [insertAll, Prod.mk.injEq, and_true] at h
    exact h ▸ .refl
  | cons t rest ih =>
    obtain ⟨ht, hrest⟩ := List.forall_mem_cons.mp hts
    rw [insertAll] at h
    split at h
    · rename_i mid hmid
      exact .head (.insert ht hmid) (ih hrest h)
    · simp at h

/-- A commit inserts tables that evolved from those of the set. -/
theorem of_store {v : Version} (hP : Table.Lasting v P) {set : TableSet}
    (hset : ∀ t ∈ set.tables, P t) (h : set.store v s = .ok s') : s.Changes P s' := by
  obtain ⟨tables, hfinish, hinsert⟩ := TableSet.store_eq_ok_iff.mp h
  obtain ⟨hlen, hevolves⟩ := TableSet.evolves_of_finish hfinish
  refine of_insertAll (fun t' ht' => ?_) hinsert
  obtain ⟨i, hi, -⟩ := TableSet.mem_kept_iff.mp ht'
  have hlt : i < set.tables.length := hlen ▸ (List.getElem?_eq_some_iff.mp hi).1
  obtain ⟨u, hu, hevolve⟩ := hevolves i _ (List.getElem?_eq_getElem hlt)
  obtain rfl : u = t' := Option.some.inj (hu.symm.trans hi)
  exact hP.evolves _ _ hevolve (hset _ (List.getElem_mem hlt))

theorem of_storeMain {v : Version} (hP : Table.Lasting v P) {set : TableSet} {e : EntityId}
    (hset : ∀ t ∈ set.tables, P t) (h : set.storeMain v e s = .ok s') : s.Changes P s' := by
  obtain ⟨next, hnext, rfl | ⟨key, rfl⟩⟩ := TableSet.storeMain_eq_ok h
  · exact of_store hP hset hnext
  · exact .tail (of_store hP hset hnext) (.register e key)

/-- A table of its own that is committed alone. -/
theorem of_storeMain_single {v : Version} (hP : Table.Lasting v P) {root e : EntityId} {t : Table}
    (ht : P t) (h : ((TableSet.empty root).push t).storeMain v e s = .ok s') : s.Changes P s' := by
  refine of_storeMain hP (TableSet.forall_tables_push (by simp [TableSet.empty]) fun owner => ?_) h
  exact hP.evolves t _ (.of_perm rfl rfl (.refl _)) ht

/-- Foreign keys added one after the other. -/
theorem addForeignKeys (planned : List (TableKey × ForeignKey)) (s : Schema) : s.Changes P
    (planned.foldl (fun s (key, k) => s.modify key fun t => t.addForeignKey k) s) := by
  induction planned generalizing s with
  | nil => exact .refl
  | cons entry rest ih =>
    exact .head (.modify entry.1 fun t => .addForeignKey t entry.2) (ih _)

/-- What inserted tables have and stored tables do not lose holds of all tables. -/
theorem forall_inserted {v : Version} (hP : Table.Lasting v P) (h : s.Changes P s')
    (hs : ∀ t ∈ s.inserted, P t) : ∀ t ∈ s'.inserted, P t := by
  induction h with
  | refl => exact hs
  | tail _ hchange ih =>
    intro t ht
    cases hchange with
    | insert hu hinsert =>
      obtain ⟨-, rfl⟩ := insert_eq_ok_iff.mp hinsert
      rcases List.mem_append.mp ht with ht | ht
      · exact ih t ht
      · rw [List.mem_singleton.mp ht]
        exact hu
    | modify key hf =>
      rcases mem_inserted_modify ht with ht | ⟨u, hu, rfl⟩
      · exact ih t ht
      · exact hP.evolves u _ (hf u) (ih u (mem_of_get? hu))
    | register => exact ih t ht

/-- Tables stay at different addresses. -/
theorem nodup_addresses (h : s.Changes P s') (hs : (s.inserted.map Table.key).Nodup) :
    (s'.inserted.map Table.key).Nodup := by
  induction h with
  | refl => exact hs
  | @tail mid _ _ hchange ih =>
    cases hchange with
    | @insert t _ _ hinsert =>
      obtain ⟨hfree, rfl⟩ := insert_eq_ok_iff.mp hinsert
      rw [List.map_append, List.map_singleton, List.nodup_append]
      refine ⟨ih, List.nodup_singleton _, fun key hkey key' hkey' => ?_⟩
      obtain ⟨u, hu, rfl⟩ := List.mem_map.mp hkey
      rw [List.mem_singleton.mp hkey']
      simpa using List.find?_eq_none.mp hfree u hu
    | @modify key f hf =>
      rw [map_key_inserted_modify fun t => (hf t).key]
      exact ih
    | register => exact ih

end Schema.Changes

/-! ### Steps -/

section Steps

variable {c : Config} {m : Model} {P : Table → Prop} {s s' : Schema}

private theorem changes_storeBaseDescriptor (hP : Table.Lasting c.targetVersion P)
    (h : storeBaseDescriptor c s = .ok s') : s.Changes P s' := by
  rcases storeBaseDescriptor_eq_ok h with rfl | h
  · exact .refl
  · exact .single (.insert (hP.evolves _ _ (.arranged _ _) (hP.ofColumns _ _ rfl rfl)) h)

/-- The table of a descriptor starts with its key column. -/
private theorem changes_storeDescriptor (hP : Table.Lasting c.targetVersion P) {e : Entity}
    (h : storeDescriptor c m s e = .ok s') : s.Changes P s' := by
  rw [storeDescriptor, bind_eq_ok_iff] at h
  obtain ⟨set, hset, h⟩ := h
  have hbuilt := TableContext.built_of_entityTables hset
  refine .of_storeMain hP (hP.of_built (hP.evolves _ _ (.addForeignKey _ _) ?_) hbuilt) h
  exact hP.singleColumn rfl rfl

private theorem changes_storeMapType (hP : Table.Lasting c.targetVersion P) {e : Entity}
    (h : storeMapType c m s e = .ok s') : s.Changes P s' := by
  rcases storeMapType_eq_ok h with rfl | ⟨_, _, mid, _, -, -, hmid, rfl⟩
  · exact .refl
  · have hcodes := Schema.Changes.of_storeMain_single hP (hP.ofColumns _ _ rfl rfl) hmid
    exact .tail hcodes (.modify _ (Table.Evolves.withMapType _ _ _))

private theorem changes_storeSchoolYear (hP : Table.Lasting c.targetVersion P) {e : Entity}
    (h : storeSchoolYear c s e = .ok s') : s.Changes P s' := by
  rcases storeSchoolYear_eq_ok h with ⟨_, rfl⟩ | h
  · exact .single (.register _ _)
  · exact .of_storeMain_single hP (hP.ofColumns _ _ rfl rfl) h

private theorem changes_storeSubclass (hP : Table.Lasting c.targetVersion P) {e : Entity}
    (h : storeSubclass c m s e = .ok s') : s.Changes P s' := by
  rw [storeSubclass, bind_eq_ok_iff] at h
  obtain ⟨set, hset, h⟩ := h
  simp only [TableContext.subclassTable, bind_eq_ok_iff, pure_eq_ok_iff] at hset
  obtain ⟨main, hmain, key, -, rfl⟩ := hset
  refine .of_storeMain hP (TableSet.forall_tables_modify (hP.of_mainTable hmain) ?_) h
  exact fun t ht => hP.evolves t _ (.addForeignKey t key) ht

/-- One step of a derivation changes the schema by insertions of tables that have every lasting
property, by evolutions of tables and by registrations. -/
theorem DerivationStep.changes (hP : Table.Lasting c.targetVersion P)
    (h : DerivationStep c m s s') : s.Changes P s' := by
  cases h with
  | entity _ h =>
    rw [storeEntity, bind_eq_ok_iff] at h
    obtain ⟨set, hset, h⟩ := h
    exact .of_storeMain hP (hP.of_mainTable hset) h
  | baseDescriptor h => exact changes_storeBaseDescriptor hP h
  | descriptor _ h => exact changes_storeDescriptor hP h
  | mapType _ _ h => exact changes_storeMapType hP h
  | enumeration _ h => exact .of_storeMain_single hP (hP.ofColumns _ _ rfl rfl) h
  | schoolYear _ h => exact changes_storeSchoolYear hP h
  | subclass _ _ h => exact changes_storeSubclass hP h
  | extension _ h =>
    rw [storeExtension, bind_eq_ok_iff] at h
    obtain ⟨set, hset, h⟩ := h
    exact .of_store hP (hP.of_extensionTable hset) h
  | references h =>
    obtain ⟨planned, -, rfl⟩ := referenceKeys_eq_ok h
    exact .addForeignKeys planned s

/-- Any number of steps make such changes only. -/
theorem Reaches.changes (hP : Table.Lasting c.targetVersion P) (h : Reaches c m s s') :
    s.Changes P s' := by
  induction h with
  | refl => exact .refl
  | tail _ hstep ih => exact ih.trans (hstep.changes hP)

/-- In the course of a run no two tables have the same address. -/
theorem Reaches.nodup_addresses (h : Reaches c m .empty s) : (s.inserted.map Table.key).Nodup := by
  have hP : Table.Lasting c.targetVersion fun _ => True :=
    ⟨fun _ _ _ => trivial, fun _ _ _ => trivial, fun _ _ _ => trivial, fun _ _ _ _ => trivial⟩
  exact (h.changes hP).nodup_addresses List.nodup_nil

end Steps

/-! ### Names of columns -/

/-- No table of the schema has two columns of one name. -/
def Schema.HasDistinctColumns (s : Schema) : Prop :=
  ∀ t ∈ s.inserted, (t.columns.map Column.id).Nodup

/-- Different names of columns last: columns are merged into others or put in another order. -/
theorem lasting_distinctColumns (v : Version) :
    Table.Lasting v fun t => (t.columns.map Column.id).Nodup where
  fresh t hcolumns _ := by simp [hcolumns]
  columns t cs ht := by
    rw [Table.columns_addColumns]
    exact nodup_foldl_mergeColumn ht
  source t r ht := by rwa [Table.columns_addReferenceSource]
  evolves _ _ h := h.distinct

/-- In the course of a run no table has two columns of one name. -/
theorem Reaches.hasDistinctColumns {c : Config} {m : Model} {s : Schema}
    (h : Reaches c m .empty s) : s.HasDistinctColumns :=
  have hlasting := lasting_distinctColumns c.targetVersion
  (h.changes hlasting).forall_inserted hlasting (by simp [Schema.empty])

theorem repeatedAfter_eq_nil_iff {α : Type} [DecidableEq α] {seen xs : List α} :
    repeatedAfter seen xs = [] ↔ xs.Nodup ∧ ∀ a ∈ xs, a ∉ seen := by
  induction xs generalizing seen with
  | nil => simp [repeatedAfter]
  | cons a rest ih =>
    rw [repeatedAfter]
    split_ifs with ha
    · simp [ha]
    · rw [ih, List.nodup_cons]
      constructor
      · rintro ⟨hnodup, hrest⟩
        refine ⟨⟨fun hmem => hrest a hmem List.mem_cons_self, hnodup⟩, ?_⟩
        exact List.forall_mem_cons.mpr
          ⟨ha, fun b hb hseen => hrest b hb (List.mem_cons_of_mem a hseen)⟩
      · rintro ⟨⟨hnew, hnodup⟩, hseen⟩
        refine ⟨hnodup, fun b hb hmem => ?_⟩
        rcases List.mem_cons.mp hmem with rfl | hmem
        · exact hnew hb
        · exact hseen b (List.mem_cons_of_mem a hb) hmem

/-- The check for repeated columns finds none exactly if the names are different in every table. -/
theorem Schema.columnViolations_eq_nil_iff {s : Schema} :
    s.columnViolations = [] ↔ s.HasDistinctColumns := by
  simp [columnViolations, HasDistinctColumns, Table.repeatedColumns, repeatedAfter_eq_nil_iff,
    mem_tables_iff]

/-- Whichever stages and passes of a run have succeeded so far, in every table of the schema the
columns have different names, and the check for repeated columns finds none. -/
theorem columnViolations_eq_nil_throughout (c : Config) (m : Model) :
    (∀ (before : List Stage) (stage : Stage) (passes : List Pass) (mid progress : Progress)
        (reports : List StageReport) (outcomes : List PassOutcome),
      runStages c m before .start = .ok (mid, reports) →
      runPasses c m stage passes mid = .ok (progress, outcomes) →
        progress.schema.columnViolations = [] ∧
          ∀ t ∈ progress.schema.tables, (t.columns.map Column.id).Nodup) ∧
      ∀ r, derive c m = .ok r → r.schema.columnViolations = [] := by
  constructor
  · intro before stage passes mid progress reports outcomes hbefore hpasses
    have hreaches : Reaches c m .empty progress.schema :=
      (reaches_of_runStages hbefore).trans (reaches_of_runPasses hpasses)
    have hdistinct := hreaches.hasDistinctColumns
    exact ⟨Schema.columnViolations_eq_nil_iff.mpr hdistinct,
      fun t ht => hdistinct t (Schema.mem_tables_iff.mp ht)⟩
  · intro r hr
    exact Schema.columnViolations_eq_nil_iff.mpr (reaches_of_derive hr).hasDistinctColumns

/-- Sections that have the key of their school as a property and refer to the school as well, with
titles. -/
def sectionModel : Model :=
  (Model.empty.addEntity
    ((Entity.ofKind .domainEntity "EdFi" "School").withProperty
      (Property.ofKind "SchoolId" (.scalar .integer)).identity)).addEntity
    ((((Entity.ofKind .domainEntity "EdFi" "Section").withProperty
      (Property.ofKind "SchoolId" (.scalar .integer)).identity).withProperty
        { Property.ofKind "School" .domainEntity with
          referencedEntity := some 0 }).withProperty
        (Property.ofKind "Title" (.scalar (.text 60))).optionalCollection)

/-- In a section the column of the reference is absorbed by the one that is there already. -/
theorem columnViolations_eq_nil_throughout_sections :
    ∃ progress outcomes,
      runPasses { Config.standard with targetVersion := ⟨6, 1, 0⟩ } sectionModel .mainTables
        [.entityTables] .start = .ok (progress, outcomes) ∧
      (progress.schema.tables.map fun t => t.columns.map Column.id) =
        [["SchoolId"], ["SchoolId"], ["SchoolId", "Title"]] ∧
      progress.schema.columnViolations = [] := by
  have hrun : (runPasses { Config.standard with targetVersion := ⟨6, 1, 0⟩ } sectionModel
      .mainTables [.entityTables] .start).toOption.any (fun r =>
        (r.1.schema.tables.map fun t => t.columns.map Column.id) =
          [["SchoolId"], ["SchoolId"], ["SchoolId", "Title"]]) = true := by decide +kernel
  obtain ⟨⟨progress, outcomes⟩, hpasses, hcolumns⟩ := exists_eq_ok_of_any hrun
  refine ⟨progress, outcomes, hpasses, by simpa using hcolumns, ?_⟩
  exact ((columnViolations_eq_nil_throughout _ _).1 [] .mainTables _ _ _ _ _ rfl hpasses).1

end Tabular
