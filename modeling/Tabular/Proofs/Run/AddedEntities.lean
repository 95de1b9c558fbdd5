import Mathlib.Tactic.Common
import Tabular.Proofs.Cascade.LargerModels
import Tabular.Proofs.Reference.KeptKeys
import Tabular.Proofs.Run.Owners

/-!
# Schemas with the tables of further entities

When a model gets further entities, a run on the larger model goes through the same steps and more.
This file compares the schemas of two such runs: the schema of the larger model has all tables of
the other one, unchanged, and whatever else it has belongs to a further entity. It shows that a step
that both runs make keeps this relation, and so does a step for a further entity.

## Main definitions

* `Config.IsProject`: entities that another project may add to a model.
* `Schema.IncludedIn`: the relation.

## Main results

* `Schema.IncludedIn.servedBy`: the larger run has all that the derivations of the other one read.
* `Schema.IncludedIn.storeMain_bind`, `Schema.IncludedIn.store_bind`: steps of both runs.
* `Schema.IncludedIn.storeMain_right`, `Schema.IncludedIn.store_right`: steps for further entities.
* `Schema.IncludedIn.referenceKeys`: the foreign keys of references.
-/

namespace Tabular

/-- The address of the table that all descriptors share. -/
def Config.baseDescriptorKey (c : Config) : TableKey :=
  ⟨c.coreNamespace, baseDescriptorId⟩

/-- The entities can be added to the model by another project: they are in namespaces of their own,
and there are no school year enumerations and no descriptors with map types among them. -/
structure Config.IsProject (c : Config) (m : Model) (added : List Entity) : Prop where
  core : ∀ e ∈ added, e.namespaceName ≠ c.coreNamespace
  namespaces : ∀ e ∈ added, ∀ f ∈ m.entities, e.namespaceName ≠ f.namespaceName
  schoolYears : ∀ e ∈ added, e.kind ≠ .schoolYearEnumeration
  mapTypes : ∀ e ∈ added, e.kind = .descriptor → e.mapType = none

/-- The schema `s'` has the tables of `s` at their addresses, and the same main tables for the
entities of the model. The tables of `s` belong to these entities. All other tables of `s'` were
built for the entities `added`, except for the table that all descriptors share if the model itself
has none. -/
structure Schema.IncludedIn (c : Config) (m : Model) (added : List Entity) (s s' : Schema) :
    Prop where
  tables : ∀ key t, s.get? key = some t → s'.get? key = some t
  registered : ∀ e ∈ m.entities, s'.entityTableKey? e.id = s.entityTableKey? e.id
  owned : ∀ key t, s.get? key = some t → ∀ id, t.parentEntity = some id → id < m.entities.length
  other : ∀ key t, s'.get? key = some t → s.get? key = none →
    (∃ e ∈ added, t.IsFrom e.id e.namespaceName) ∨
      key = c.baseDescriptorKey ∧ m.ofKind .descriptor = []

/-- After several insertions a table is one from before or one of those inserted. -/
theorem Schema.get?_or_mem_of_insertAll {s s' : Schema} {ts : List Table} {key : TableKey}
    {t : Table} (h : s.insertAll ts = (s', none)) (ht : s'.get? key = some t) :
    s.get? key = some t ∨ t ∈ ts := by
  rw [inserted_of_insertAll h, get?, List.find?_append, Option.or_eq_some_iff] at ht
  exact ht.imp_right fun h => List.mem_of_find?_eq_some h.2

namespace Schema.IncludedIn

variable {c : Config} {m m' : Model} {added : List Entity} {s s' t t' : Schema}

theorem empty : Schema.empty.IncludedIn c m added .empty where
  tables _ _ ht := ht
  registered _ _ := rfl
  owned key t ht := by simp [get?, Schema.empty] at ht
  other key t ht := by simp [get?, Schema.empty] at ht

/-! ### Changes of the schemas -/

/-- The same tables are inserted into both schemas. -/
theorem insertAll (h : s.IncludedIn c m added s') {ts : List Table}
    (hs : s.insertAll ts = (t, none)) (hs' : s'.insertAll ts = (t', none))
    (howned : ∀ u ∈ ts, ∀ id, u.parentEntity = some id → id < m.entities.length) :
    t.IncludedIn c m added t' where
  tables key u hu := by
    rcases get?_or_mem_of_insertAll hs hu with hold | hnew
    · exact get?_of_insertAll hs' (h.tables key u hold)
    · exact key_of_get? hu ▸ get?_insertAll_of_mem hs' hnew
  registered e he := by
    rw [inserted_of_insertAll hs, inserted_of_insertAll hs']
    exact h.registered e he
  owned key u hu := by
    rcases get?_or_mem_of_insertAll hs hu with hold | hnew
    · exact h.owned key u hold
    · exact howned u hnew
  other key u hu hnone := by
    rcases get?_or_mem_of_insertAll hs' hu with hold | hnew
    · refine h.other key u hold ?_
      by_contra hsome
      obtain ⟨w, hw⟩ := Option.ne_none_iff_exists'.mp hsome
      rw [get?_of_insertAll hs hw] at hnone
      simp at hnone
    · have hget := get?_insertAll_of_mem hs hnew
      rw [key_of_get? hu, hnone] at hget
      simp at hget

/-- Tables of further entities are inserted into the larger schema. -/
theorem insertAll_right (h : s.IncludedIn c m added s') {ts : List Table}
    (hs' : s'.insertAll ts = (t', none))
    (hadded : ∀ u ∈ ts, ∃ e ∈ added, u.IsFrom e.id e.namespaceName) :
    s.IncludedIn c m added t' where
  tables key u hu := get?_of_insertAll hs' (h.tables key u hu)
  registered e he := by
    rw [inserted_of_insertAll hs']
    exact h.registered e he
  owned := h.owned
  other key u hu hnone := by
    rcases get?_or_mem_of_insertAll hs' hu with hold | hnew
    · exact h.other key u hold hnone
    · exact Or.inl (hadded u hnew)

theorem setEntityTable (h : s.IncludedIn c m added s') (id : EntityId) (key : TableKey) :
    (s.setEntityTable id key).IncludedIn c m added (s'.setEntityTable id key) where
  tables := h.tables
  registered e he := by
    rw [entityTableKey?_setEntityTable, entityTableKey?_setEntityTable, h.registered e he]
  owned := h.owned
  other := h.other

theorem setEntityTable_right (h : s.IncludedIn c m added s') {id : EntityId}
    (hid : ∀ e ∈ m.entities, id ≠ e.id) (key : TableKey) :
    s.IncludedIn c m added (s'.setEntityTable id key) where
  tables := h.tables
  registered e he := by
    rw [entityTableKey?_setEntityTable, if_neg (hid e he), h.registered e he]
  owned := h.owned
  other := h.other

/-- A table of both schemas receives late foreign keys. -/
theorem modify (h : s.IncludedIn c m added s') (key : TableKey) {f : Table → Table}
    (hf : ∀ t : Table, t.Later (f t)) :
    (s.modify key f).IncludedIn c m added (s'.modify key f) := by
  have hkey : ∀ t : Table, (f t).key = t.key := fun t => (hf t).key
  refine ⟨fun k u hu => ?_, fun e he => ?_, fun k u hu id hid => ?_, fun k u hu hnone => ?_⟩
  · rw [get?_modify hkey] at hu ⊢
    split_ifs at hu ⊢
    · obtain ⟨w, hw, rfl⟩ := Option.map_eq_some_iff.mp hu
      rw [h.tables k w hw, Option.map_some]
    · exact h.tables k u hu
  · rw [entityTableKey?_modify, entityTableKey?_modify]
    exact h.registered e he
  · rw [get?_modify hkey] at hu
    split_ifs at hu
    · obtain ⟨w, hw, rfl⟩ := Option.map_eq_some_iff.mp hu
      exact h.owned k w hw id ((hf w).owner ▸ hid)
    · exact h.owned k u hu id hid
  · rw [get?_modify hkey] at hu hnone
    split_ifs at hu hnone
    · obtain ⟨w, hw, rfl⟩ := Option.map_eq_some_iff.mp hu
      refine (h.other k w hw (Option.map_eq_none_iff.mp hnone)).imp_left ?_
      rintro ⟨e, he, hfrom⟩
      exact ⟨e, he, (hf w).isFrom hfrom⟩
    · exact h.other k u hu hnone

/-! ### Steps of both runs -/

/-- The larger run has all that the derivations of the other one read. -/
theorem servedBy (h : s.IncludedIn c m added s') (hm : m.ExtendedBy added m')
    (hproject : c.IsProject m added) : (c.tableContext m s).ServedBy m' s' where
  links := hm.keepsLinks
  depth := hm.depthLimit_le
  schoolYears := by
    have hnone : (added.filter fun e => e.kind = .schoolYearEnumeration) = [] :=
      List.filter_eq_nil_iff.mpr fun e he => by simpa using hproject.schoolYears e he
    rw [hm.ofKind, hnone, List.append_nil]
    rfl
  stored := h.tables
  registered := h.registered

variable {v : Version} {id : EntityId} {namespaceName : String} {set : TableSet}

/-- A set of an entity of the model is committed to both schemas. -/
theorem store (h : s.IncludedIn c m added s') (hset : set.BelongsTo id namespaceName)
    (hid : id < m.entities.length) (hlinked : set.WellLinked s) (hs : set.store v s = .ok t)
    (hs' : set.store v s' = .ok t') : t.IncludedIn c m added t' := by
  obtain ⟨tables, hfinish, hinsert⟩ := TableSet.store_eq_ok_iff.mp hs
  obtain ⟨tables', hfinish', hinsert'⟩ := TableSet.store_eq_ok_iff.mp hs'
  obtain rfl : tables = tables' :=
    Except.ok.inj ((TableSet.keptIn_finish h.tables tables hfinish).symm.trans hfinish')
  refine h.insertAll hinsert hinsert' fun u hu owner howner => ?_
  have hfrom := hset.isFrom_of_finish hlinked hfinish u hu
  exact Option.some.inj (hfrom.owner.symm.trans howner) ▸ hid

theorem storeMain (h : s.IncludedIn c m added s') (hset : set.BelongsTo id namespaceName)
    (hid : id < m.entities.length) (hlinked : set.WellLinked s)
    (hs : set.storeMain v id s = .ok t) (hs' : set.storeMain v id s' = .ok t') :
    t.IncludedIn c m added t' := by
  obtain ⟨next, hnext, hmain⟩ := TableSet.exists_of_storeMain hs
  obtain ⟨next', hnext', hmain'⟩ := TableSet.exists_of_storeMain hs'
  have hstored := h.store hset hid hlinked hnext hnext'
  rcases hmain with ⟨key, hkey, rfl⟩ | ⟨hnone, rfl⟩
  · rcases hmain' with ⟨key', hkey', rfl⟩ | ⟨hnone', -⟩
    · obtain rfl : key = key' := Option.some.inj (Option.some.inj (hkey.symm.trans hkey'))
      exact hstored.setEntityTable id key
    · exact absurd hkey (hnone' key)
  · rcases hmain' with ⟨key', hkey', -⟩ | ⟨-, rfl⟩
    · exact absurd hkey' (hnone key')
    · exact hstored

variable {e : Entity} {draft draft' : BuildResult TableSet}

/-- The tables of an entity of the model are built and committed in both runs. -/
theorem store_bind (h : s.IncludedIn c m added s') (hm : m.ExtendedBy added m')
    (he : e ∈ m.entities) (hdraft : KeptIn draft draft')
    (hset : ∀ set, draft = .ok set → set.BelongsTo e.id e.namespaceName ∧ set.WellLinked s)
    (hs : (draft >>= fun set => set.store v s) = .ok t)
    (hs' : (draft' >>= fun set => set.store v s') = .ok t') : t.IncludedIn c m added t' := by
  obtain ⟨set, hdrafted, hs⟩ := bind_eq_ok_iff.mp hs
  obtain ⟨set', hdrafted', hs'⟩ := bind_eq_ok_iff.mp hs'
  obtain rfl : set = set' := Except.ok.inj ((hdraft set hdrafted).symm.trans hdrafted')
  exact h.store (hset set hdrafted).1 (hm.id_lt he) (hset set hdrafted).2 hs hs'

theorem storeMain_bind (h : s.IncludedIn c m added s') (hm : m.ExtendedBy added m')
    (he : e ∈ m.entities) (hdraft : KeptIn draft draft')
    (hset : ∀ set, draft = .ok set → set.BelongsTo e.id e.namespaceName ∧ set.WellLinked s)
    (hs : (draft >>= fun set => set.storeMain v e.id s) = .ok t)
    (hs' : (draft' >>= fun set => set.storeMain v e.id s') = .ok t') :
    t.IncludedIn c m added t' := by
  obtain ⟨set, hdrafted, hs⟩ := bind_eq_ok_iff.mp hs
  obtain ⟨set', hdrafted', hs'⟩ := bind_eq_ok_iff.mp hs'
  obtain rfl : set = set' := Except.ok.inj ((hdraft set hdrafted).symm.trans hdrafted')
  exact h.storeMain (hset set hdrafted).1 (hm.id_lt he) (hset set hdrafted).2 hs hs'

/-! ### Steps for further entities -/

theorem store_right (h : s.IncludedIn c m added s') (he : e ∈ added)
    (hset : set.BelongsTo e.id e.namespaceName) (hlinked : set.WellLinked s')
    (hs' : set.store v s' = .ok t') : s.IncludedIn c m added t' := by
  obtain ⟨tables, hfinish, hinsert⟩ := TableSet.store_eq_ok_iff.mp hs'
  refine h.insertAll_right hinsert fun u hu => ⟨e, he, ?_⟩
  exact hset.isFrom_of_finish hlinked hfinish u hu

theorem storeMain_right (h : s.IncludedIn c m added s') (hm : m.ExtendedBy added m')
    (he : e ∈ added) (hset : set.BelongsTo e.id e.namespaceName) (hlinked : set.WellLinked s')
    (hs' : set.storeMain v e.id s' = .ok t') : s.IncludedIn c m added t' := by
  have hid : ∀ f ∈ m.entities, e.id ≠ f.id := fun f hf hsame =>
    Nat.not_lt.mpr (hm.le_id he) (hsame ▸ hm.id_lt hf)
  obtain ⟨next, hnext, rfl | ⟨key, rfl⟩⟩ := TableSet.storeMain_eq_ok hs'
  · exact h.store_right he hset hlinked hnext
  · exact (h.store_right he hset hlinked hnext).setEntityTable_right hid key

/-! ### Foreign keys of references -/

variable {info info' : CascadeInfo} {u : Table} {source : ReferenceSource}

/-- The entity whose rows a table holds. -/
theorem referencingEntity_eq (hm : m.ExtendedBy added m') {p : Property}
    (howned : ∀ id, u.parentEntity = some id → id < m.entities.length)
    (hproperty : m.property? source.property = some p) :
    referencingEntity m' u source = referencingEntity m u source ∧
      referencingEntity m u source < m.entities.length := by
  have howner : u.parentEntity.getD source.property.entity < m.entities.length := by
    cases hparent : u.parentEntity with
    | some id => exact howned id hparent
    | none =>
      obtain ⟨e, he, -⟩ := Option.bind_eq_some_iff.mp hproperty
      exact (List.getElem?_eq_some_iff.mp he).1
  simp only [referencingEntity, hm.entity?_eq howner, true_and]
  cases hentity : m.entity? (u.parentEntity.getD source.property.entity) with
  | none => exact howner
  | some e =>
    dsimp only
    split_ifs
    · cases hbase : e.baseEntity with
      | none => exact howner
      | some base => exact (hm.linked e (List.mem_of_getElem? hentity)).1 base hbase
    · exact howner

/-- The foreign key of a reference of the model is the same in both runs. -/
theorem keptIn_referenceKey (h : s.IncludedIn c m added s') (hm : m.ExtendedBy added m')
    (hinfo : info.AgreesBelow m.entities.length info')
    (howned : ∀ id, u.parentEntity = some id → id < m.entities.length) :
    KeptIn (referenceKey m info s u source) (referenceKey m' info' s' u source) := by
  intro k? hk
  cases hproperty : m.property? source.property with
  | none => simp [referenceKey, hproperty] at hk
  | some p =>
    have hproperty' : m'.property? source.property = some p := by
      obtain ⟨e, he, hindex⟩ := Option.bind_eq_some_iff.mp hproperty
      exact Option.bind_eq_some_iff.mpr ⟨e, hm.entity?_of_eq_some he, hindex⟩
    by_cases hweak : p.isWeak = true
    · simpa [referenceKey, hproperty, hproperty', hweak] using hk
    · cases hentity : m.entity? source.referencedEntity with
      | none => simp [referenceKey, hproperty, hweak, hentity] at hk
      | some referenced =>
        have hmem : referenced ∈ m.entities := List.mem_of_getElem? hentity
        cases hforeign : s.entityTable? referenced.id with
        | none => simp [referenceKey, hproperty, hweak, hentity, hforeign] at hk
        | some foreign =>
          obtain ⟨key, hkey, hget⟩ := Option.bind_eq_some_iff.mp hforeign
          have hforeign' : s'.entityTable? referenced.id = some foreign :=
            Option.bind_eq_some_iff.mpr
              ⟨key, (h.registered referenced hmem).trans hkey, h.tables key foreign hget⟩
          obtain ⟨hreferencing, hlt⟩ := referencingEntity_eq hm howned hproperty
          rw [referenceKey_eq hproperty' (hm.entity?_of_eq_some hentity) hforeign'
            (by simpa using hweak), hreferencing, hinfo _ _ (hm.id_lt hmem) hlt]
          rwa [referenceKey_eq hproperty hentity hforeign (by simpa using hweak)] at hk

/-- The foreign keys planned for a table of the smaller schema are the same in both runs. -/
theorem filter_planned_eq (h : s.IncludedIn c m added s') (hm : m.ExtendedBy added m')
    (hinfo : info.AgreesBelow m.entities.length info') (hnodup : (s.inserted.map Table.key).Nodup)
    (hnodup' : (s'.inserted.map Table.key).Nodup) {planned planned' : List (TableKey × ForeignKey)}
    (hs : collect (Table.referenceKeys m info s) s.tables = .ok planned)
    (hs' : collect (Table.referenceKeys m' info' s') s'.tables = .ok planned') {key : TableKey}
    (hu : s.get? key = some u) :
    (planned'.filter fun entry => entry.1 = key) = planned.filter fun entry => entry.1 = key := by
  have hown := filter_of_collect_referenceKeys (Schema.nodup_keys hnodup) hs
    (mem_tables_iff.mpr (mem_of_get? hu))
  have hown' := filter_of_collect_referenceKeys (Schema.nodup_keys hnodup') hs'
    (mem_tables_iff.mpr (mem_of_get? (h.tables key u hu)))
  rw [key_of_get? hu] at hown hown'
  have hkept : u.referenceKeys m' info' s' = .ok (planned.filter fun entry => entry.1 = key) := by
    refine collect_eq_ok_of_forall (fun source _ keys hkeys => ?_) hown
    exact (h.keptIn_referenceKey hm hinfo (h.owned key u hu)).bind (fun _ _ => .refl _) keys hkeys
  exact Except.ok.inj (hown'.symm.trans hkept)

/-- The pass for foreign keys in both runs. -/
theorem referenceKeys (h : s.IncludedIn c m added s') (hm : m.ExtendedBy added m')
    (hinfo : info.AgreesBelow m.entities.length info') (hnodup : (s.inserted.map Table.key).Nodup)
    (hnodup' : (s'.inserted.map Table.key).Nodup) (hs : referenceKeys m info s = .ok t)
    (hs' : Tabular.referenceKeys m' info' s' = .ok t') : t.IncludedIn c m added t' := by
  simp only [Tabular.referenceKeys, bind_eq_ok_iff, pure_eq_ok_iff] at hs hs'
  obtain ⟨planned, hplanned, rfl⟩ := hs
  obtain ⟨planned', hplanned', rfl⟩ := hs'
  refine ⟨fun key u hu => ?_, fun e he => ?_, fun key u hu id hid => ?_, fun key u hu hnone => ?_⟩
  · rw [get?_foldl_addForeignKey] at hu ⊢
    obtain ⟨w, hw, rfl⟩ := Option.map_eq_some_iff.mp hu
    rw [h.tables key w hw, Option.map_some,
      h.filter_planned_eq hm hinfo hnodup hnodup' hplanned hplanned' hw]
  · simp only [entityTableKey?, entityTables_addForeignKeys]
    exact h.registered e he
  · rw [get?_foldl_addForeignKey] at hu
    obtain ⟨w, hw, rfl⟩ := Option.map_eq_some_iff.mp hu
    exact h.owned key w hw id ((Table.later_addForeignKeys hplanned w key).owner ▸ hid)
  · rw [get?_foldl_addForeignKey] at hu hnone
    obtain ⟨w, hw, rfl⟩ := Option.map_eq_some_iff.mp hu
    refine (h.other key w hw (Option.map_eq_none_iff.mp hnone)).imp_left ?_
    rintro ⟨e, he, hfrom⟩
    exact ⟨e, he, (Table.later_addForeignKeys hplanned' w key).isFrom hfrom⟩

end Schema.IncludedIn

end Tabular
