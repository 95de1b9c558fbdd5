import Mathlib.Tactic.Common
import Tabular.Proofs.Derive.Building
import Tabular.Proofs.Derive.Commit
import Tabular.Proofs.Run.Steps
import Tabular.Proofs.Schema.Carrying
import Tabular.Proofs.Schema.Growth

/-!
# What becomes of tables in the course of a run

Once a table is in the schema it is arranged, and it receives foreign keys and columns for map
types; what its columns carry stays the same. So every table of a run goes back to a table that was
built from the properties of an entity, or to one without references.

## Main definitions

* `IsDraft`: a table as it is before it enters the schema.
* `Schema.Evolves`: every table of one schema lives on in another, and every table of the latter
  goes back to one of the former or to a draft.

## Main results

* `TableSet.evolves_of_finish`: committed tables are the tables of the set, developed further.
* `DerivationStep.evolves`, `Reaches.evolves`: steps let tables evolve.
-/

namespace Tabular

/-! ### Commits -/

namespace TableSet

variable {set : TableSet} {v : Version} {s s' : Schema}

theorem evolves_of_finishTable {links : List ParentLink} {tables : List Table} {i : Nat}
    {t t' : Table} (h : finishTable v s links tables i t = .ok t') : t.Evolves t' := by
  unfold finishTable at h
  split at h
  · rw [Except.ok.injEq] at h
    exact h ▸ .arranged v t
  · simp only [bind_eq_ok_iff, pure_eq_ok_iff] at h
    obtain ⟨parent, -, rfl⟩ := h
    have hparent : t.Evolves { t with parentKeyColumnIds := parent.primaryKeyIds } :=
      .of_perm rfl rfl (.refl _)
    exact (hparent.trans (.arranged v _)).trans (.addForeignKey _ _)

/-- Every table of a finished set is a table of the set, developed further. -/
theorem evolves_of_finish {tables : List Table} (h : set.finish v s = .ok tables) :
    tables.length = set.tables.length ∧
      ∀ (i : Nat) (t : Table), set.tables[i]? = some t →
        ∃ t', tables[i]? = some t' ∧ t.Evolves t' := by
  refine foldlM_ok_induction
    (fun tables => tables.length = set.tables.length ∧
      ∀ (i : Nat) (t : Table), set.tables[i]? = some t →
        ∃ t', tables[i]? = some t' ∧ t.Evolves t')
    (fun tables j tables' _ ⟨hlen, htables⟩ hstep => ?_)
    ⟨rfl, fun i t ht => ⟨t, ht, .refl t⟩⟩ h
  unfold finishAt at hstep
  split_ifs at hstep
  · exact Except.ok.inj hstep ▸ ⟨hlen, htables⟩
  · split at hstep
    · exact Except.ok.inj hstep ▸ ⟨hlen, htables⟩
    · rename_i u hu
      simp only [bind_eq_ok_iff, pure_eq_ok_iff] at hstep
      obtain ⟨finished, hfinished, rfl⟩ := hstep
      refine ⟨by rw [List.length_set, hlen], fun i t ht => ?_⟩
      obtain ⟨t', ht', hevolves⟩ := htables i t ht
      by_cases hij : j = i
      · subst hij
        obtain rfl : u = t' := Option.some.inj (hu.symm.trans ht')
        refine ⟨finished, ?_, hevolves.trans (evolves_of_finishTable hfinished)⟩
        rw [List.getElem?_set_self (List.getElem?_eq_some_iff.mp ht').1]
      · exact ⟨t', by rw [List.getElem?_set_ne hij]; exact ht', hevolves⟩

/-- A commit keeps the tables of the schema and adds tables of the set, developed further. -/
theorem evolves_of_store (h : set.store v s = .ok s') :
    (∀ key t, s.get? key = some t → s'.get? key = some t) ∧
      (∀ t' ∈ s'.inserted, t' ∈ s.inserted ∨ ∃ t ∈ set.tables, t.Evolves t') ∧
      ∀ i t, set.tables[i]? = some t → i ∉ set.discarded →
        ∃ t', s'.get? t.key = some t' ∧ t.Evolves t' := by
  obtain ⟨tables, hfinish, hinsert⟩ := store_eq_ok_iff.mp h
  obtain ⟨hlen, hevolves⟩ := evolves_of_finish hfinish
  refine ⟨fun key t => Schema.get?_of_insertAll hinsert, fun t' ht' => ?_, fun i t ht hi => ?_⟩
  · rw [Schema.inserted_of_insertAll hinsert] at ht'
    refine (List.mem_append.mp ht').imp_right fun hkept => ?_
    obtain ⟨i, hi, -⟩ := mem_kept_iff.mp hkept
    have hlt : i < set.tables.length := hlen ▸ (List.getElem?_eq_some_iff.mp hi).1
    obtain ⟨t'', ht'', ht⟩ := hevolves i _ (List.getElem?_eq_getElem hlt)
    obtain rfl : t'' = t' := Option.some.inj (ht''.symm.trans hi)
    exact ⟨_, List.getElem_mem hlt, ht⟩
  · obtain ⟨t', ht', hevolve⟩ := hevolves i t ht
    refine ⟨t', ?_, hevolve⟩
    rw [← hevolve.key]
    exact Schema.get?_insertAll_of_mem hinsert (mem_kept_iff.mpr ⟨i, ht', hi⟩)

end TableSet

/-! ### Schemas -/

/-- A table as it is before it enters the schema: one without references, or one that was built
from the properties of an entity of the model. -/
inductive IsDraft (c : Config) (m : Model) (t : Table) : Prop
  | bare (hsources : t.referenceSources = [])
  | built {e : Entity} {s : Schema} {scope : Scope} {start : Table} {next : TableSet}
      (he : e ∈ m.entities) (hpath : scope.path = []) (hstart : start.referenceSources = [])
      (h : (c.tableContext m s).Built e.declarations scope .root
        ((TableSet.empty e.id).push start) next)
      (ht : t ∈ next.tables)

/-- Every table of the first schema lives on at its address, and every table of the second one goes
back to a table of the first or to a draft. -/
structure Schema.Evolves (c : Config) (m : Model) (s s' : Schema) : Prop where
  kept : ∀ key t, s.get? key = some t → ∃ t', s'.get? key = some t' ∧ t.Evolves t'
  origin : ∀ t' ∈ s'.inserted, ∃ t, t.Evolves t' ∧ (t ∈ s.inserted ∨ IsDraft c m t)

namespace Schema.Evolves

variable {c : Config} {m : Model} {s s' s'' : Schema}

theorem refl (s : Schema) : s.Evolves c m s :=
  ⟨fun _ t ht => ⟨t, ht, .refl t⟩, fun t ht => ⟨t, .refl t, Or.inl ht⟩⟩

theorem trans (h : s.Evolves c m s') (h' : s'.Evolves c m s'') : s.Evolves c m s'' where
  kept key t ht := by
    obtain ⟨t', ht', hevolves⟩ := h.kept key t ht
    obtain ⟨t'', ht'', hevolves'⟩ := h'.kept key t' ht'
    exact ⟨t'', ht'', hevolves.trans hevolves'⟩
  origin t'' ht'' := by
    obtain ⟨t', hevolves', ht' | hdraft⟩ := h'.origin t'' ht''
    · obtain ⟨t, hevolves, ht⟩ := h.origin t' ht'
      exact ⟨t, hevolves.trans hevolves', ht⟩
    · exact ⟨t', hevolves', Or.inr hdraft⟩

/-- A commit of drafts. -/
theorem of_store {set : TableSet} {v : Version} (h : set.store v s = .ok s')
    (hdrafts : ∀ t ∈ set.tables, ∃ u, u.Evolves t ∧ IsDraft c m u) : s.Evolves c m s' := by
  obtain ⟨hkept, horigin, -⟩ := TableSet.evolves_of_store h
  refine ⟨fun key t ht => ⟨t, hkept key t ht, .refl t⟩, fun t' ht' => ?_⟩
  rcases horigin t' ht' with ht' | ⟨t, ht, hevolves⟩
  · exact ⟨t', .refl t', Or.inl ht'⟩
  · obtain ⟨u, hu, hdraft⟩ := hdrafts t ht
    exact ⟨u, hu.trans hevolves, Or.inr hdraft⟩

/-- The registration of a main table changes no table. -/
theorem setEntityTable (h : s.Evolves c m s') (e : EntityId) (key : TableKey) :
    s.Evolves c m (s'.setEntityTable e key) :=
  ⟨h.kept, h.origin⟩

theorem of_storeMain {set : TableSet} {v : Version} {e : EntityId}
    (h : set.storeMain v e s = .ok s')
    (hdrafts : ∀ t ∈ set.tables, ∃ u, u.Evolves t ∧ IsDraft c m u) : s.Evolves c m s' := by
  obtain ⟨next, hnext, rfl | ⟨key, rfl⟩⟩ := TableSet.storeMain_eq_ok h
  · exact of_store hnext hdrafts
  · exact (of_store hnext hdrafts).setEntityTable e key

/-- A change of one table that lets it evolve. -/
theorem modify (s : Schema) (key : TableKey) {f : Table → Table} (hf : ∀ t : Table, t.Evolves (f t)) :
    s.Evolves c m (s.modify key f) where
  kept k t ht := by
    rw [get?_modify fun t => (hf t).key]
    split_ifs
    · exact ⟨f t, by rw [ht]; rfl, hf t⟩
    · exact ⟨t, ht, .refl t⟩
  origin t' ht' := by
    rcases mem_inserted_modify ht' with ht' | ⟨t, ht, rfl⟩
    · exact ⟨t', .refl t', Or.inl ht'⟩
    · exact ⟨t, hf t, Or.inl (mem_of_get? ht)⟩

/-- Foreign keys added one after the other. -/
theorem addForeignKeys (planned : List (TableKey × ForeignKey)) (s : Schema) : s.Evolves c m
    (planned.foldl (fun s (key, k) => s.modify key fun t => t.addForeignKey k) s) := by
  induction planned generalizing s with
  | nil => exact .refl s
  | cons entry rest ih =>
    exact (modify s entry.1 fun t => .addForeignKey t entry.2).trans (ih _)

end Schema.Evolves

/-! ### Steps -/

section Steps

variable {c : Config} {m : Model} {s s' : Schema}

/-- The tables that are built from the properties of an entity are drafts. -/
private theorem draft_of_built {e : Entity} {scope : Scope} {start : Table} {next : TableSet}
    (he : e ∈ m.entities) (hpath : scope.path = []) (hstart : start.referenceSources = [])
    (h : (c.tableContext m s).Built e.declarations scope .root
      ((TableSet.empty e.id).push start) next) :
    ∀ t ∈ next.tables, ∃ u, u.Evolves t ∧ IsDraft c m u :=
  fun t ht => ⟨t, .refl t, .built he hpath hstart h ht⟩

/-- A table without references that is committed alone is a draft. -/
private theorem draft_of_bare {root : EntityId} {start : Table}
    (hstart : start.referenceSources = []) :
    ∀ t ∈ ((TableSet.empty root).push start).tables, ∃ u, u.Evolves t ∧ IsDraft c m u := by
  intro t ht
  rcases List.mem_append.mp ht with ht | ht
  · simp [TableSet.empty] at ht
  · rw [List.mem_singleton.mp ht]
    exact ⟨_, .refl _, .bare hstart⟩

private theorem mem_entities_of_ofKind {e : Entity} {kind : EntityKind} (he : e ∈ m.ofKind kind) :
    e ∈ m.entities :=
  (List.mem_filter.mp he).1

private theorem evolves_storeBaseDescriptor (h : storeBaseDescriptor c s = .ok s') :
    s.Evolves c m s' := by
  rcases storeBaseDescriptor_eq_ok h with rfl | h
  · exact .refl s'
  · refine ⟨fun key t ht => ⟨t, Schema.get?_of_insert h ht, .refl t⟩, fun t' ht' => ?_⟩
    obtain ⟨-, rfl⟩ := Schema.insert_eq_ok_iff.mp h
    refine ⟨t', .refl t', (List.mem_append.mp ht').imp_right fun hnew => .bare ?_⟩
    rw [List.mem_singleton.mp hnew, Table.referenceSources_arranged, baseDescriptorTable,
      Table.referenceSources_addColumns]
    rfl

theorem Table.Evolves.withMapType (v : Version) (namespaceName mapTableId : String) (t : Table) :
    t.Evolves (Tabular.withMapType v namespaceName mapTableId t) :=
  ((Evolves.addColumn t v rfl rfl).trans (.arranged v _)).trans (.addForeignKey _ _)

private theorem evolves_storeMapType {e : Entity} (h : storeMapType c m s e = .ok s') :
    s.Evolves c m s' := by
  rcases storeMapType_eq_ok h with rfl | ⟨_, _, mid, _, -, -, hmid, rfl⟩
  · exact .refl s'
  · refine (Schema.Evolves.of_storeMain hmid (draft_of_bare ?_)).trans
      (.modify mid _ (Table.Evolves.withMapType _ _ _))
    rw [codeValueTable, Table.referenceSources_addColumns]
    rfl

private theorem evolves_storeSchoolYear {e : Entity} (h : storeSchoolYear c s e = .ok s') :
    s.Evolves c m s' := by
  rcases storeSchoolYear_eq_ok h with ⟨_, rfl⟩ | h
  · exact (Schema.Evolves.refl s).setEntityTable _ _
  · refine .of_storeMain h (draft_of_bare ?_)
    rw [schoolYearTable, Table.referenceSources_addColumns]
    rfl

private theorem evolves_storeSubclass {e : Entity} (he : e ∈ m.entities)
    (h : storeSubclass c m s e = .ok s') : s.Evolves c m s' := by
  rw [storeSubclass, bind_eq_ok_iff] at h
  obtain ⟨set, hset, h⟩ := h
  simp only [TableContext.subclassTable, bind_eq_ok_iff, pure_eq_ok_iff] at hset
  obtain ⟨main, hmain, key, -, rfl⟩ := hset
  obtain ⟨keys, inherited, -, -, hbuilt⟩ := TableContext.built_of_mainTable hmain
  have hdrafts := draft_of_built he rfl (by simp [TableContext.mainTableStart, Table.ofReason])
    hbuilt
  refine .of_storeMain h (TableSet.forall_tables_modify hdrafts fun t ht => ?_)
  obtain ⟨w, hw, hdraft⟩ := ht
  exact ⟨w, hw.trans (.addForeignKey t key), hdraft⟩

private theorem evolves_storeExtension {e : Entity} (he : e ∈ m.entities)
    (h : storeExtension c m s e = .ok s') : s.Evolves c m s' := by
  rw [storeExtension, bind_eq_ok_iff] at h
  obtain ⟨set, hset, h⟩ := h
  obtain ⟨base, key, parent, mid, -, -, -, hbuilt, rfl⟩ :=
    TableContext.built_of_extensionTable hset
  have hdrafts := draft_of_built he rfl (by simp [TableContext.suffixedTable, Table.ofReason])
    hbuilt
  refine .of_store h fun u hu => hdrafts u ?_
  rwa [TableContext.tables_linkOrDiscard] at hu

/-- One step lets tables evolve. -/
theorem DerivationStep.evolves (h : DerivationStep c m s s') : s.Evolves c m s' := by
  cases h with
  | entity he h =>
    rw [storeEntity, bind_eq_ok_iff] at h
    obtain ⟨set, hset, h⟩ := h
    obtain ⟨keys, inherited, -, -, hbuilt⟩ := TableContext.built_of_mainTable hset
    exact .of_storeMain h (draft_of_built (List.mem_filter.mp he).1 rfl
      (by simp [TableContext.mainTableStart, Table.ofReason]) hbuilt)
  | baseDescriptor h => exact evolves_storeBaseDescriptor h
  | descriptor he h =>
    rw [storeDescriptor, bind_eq_ok_iff] at h
    obtain ⟨set, hset, h⟩ := h
    exact .of_storeMain h (draft_of_built (mem_entities_of_ofKind he) rfl
      (Table.referenceSources_addForeignKey _ _) (TableContext.built_of_entityTables hset))
  | mapType _ _ h => exact evolves_storeMapType h
  | enumeration _ h =>
    refine .of_storeMain h (draft_of_bare ?_)
    rw [codeValueTable, Table.referenceSources_addColumns]
    rfl
  | schoolYear _ h => exact evolves_storeSchoolYear h
  | subclass he _ h => exact evolves_storeSubclass he h
  | extension he h => exact evolves_storeExtension (List.mem_filter.mp he).1 h
  | references h =>
    obtain ⟨planned, -, rfl⟩ := referenceKeys_eq_ok h
    exact .addForeignKeys planned s

/-- Any number of steps let tables evolve. -/
theorem Reaches.evolves (h : Reaches c m s s') : s.Evolves c m s' := by
  induction h with
  | refl => exact .refl s
  | tail _ hstep ih => exact ih.trans hstep.evolves

/-- Every table of a run goes back to a draft. -/
theorem Reaches.exists_draft (h : Reaches c m .empty s) {t : Table} (ht : t ∈ s.inserted) :
    ∃ u, u.Evolves t ∧ IsDraft c m u := by
  obtain ⟨u, hu, hmem | hdraft⟩ := h.evolves.origin t ht
  · simp [Schema.empty] at hmem
  · exact ⟨u, hu, hdraft⟩

end Steps

end Tabular
