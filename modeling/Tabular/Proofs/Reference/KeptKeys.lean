import Mathlib.Tactic.Common
import Tabular.Proofs.Reference.OwnColumns
import Tabular.Proofs.Run.Distinctness

/-!
# Which references keep their foreign key

The last pass of a run plans a foreign key for every reference that is not weak, and then adds the
planned keys to their tables. A reference is left without a key to the main table of its entity
exactly if all keys to that table are lost to keys of the same identifier that lead elsewhere
(`Table.Outbid`). This happens between entities of one name in two namespaces.

## Main definitions

* `Schema.referenced?`: the main table of the entity that a reference leads to.

## Main results

* `filter_of_collect_referenceKeys`: the keys that are planned for one table.
* `exists_planned_of_referenceKeys`: a reference that is not weak has a planned key.
* `exists_foreignKey_to_referenced_iff`: which references keep their key.
-/

namespace Tabular

variable {c : Config} {m : Model} {info : CascadeInfo} {s s' : Schema} {t t' : Table}
  {source : ReferenceSource}

/-- The main table of the entity that a reference leads to. -/
def Schema.referenced? (m : Model) (s : Schema) (source : ReferenceSource) : Option Table :=
  (m.entity? source.referencedEntity).bind fun e => s.entityTable? e.id

/-! ### Planned keys -/

/-- The keys planned for a table come with its address. -/
theorem address_of_mem_referenceKeys {planned : List (TableKey × ForeignKey)}
    (h : t.referenceKeys m info s = .ok planned) : ∀ entry ∈ planned, entry.1 = t.key := by
  intro entry hentry
  obtain ⟨source, -, keys, hkeys, hentry⟩ := (mem_collect_iff h).mp hentry
  simp only [bind_eq_ok_iff, pure_eq_ok_iff] at hkeys
  obtain ⟨k?, -, rfl⟩ := hkeys
  obtain ⟨k, -, rfl⟩ := List.mem_map.mp hentry
  rfl

/-- Of the keys that are planned for tables at different addresses, those with the address of a
table are the ones planned for it. -/
theorem filter_of_collect_referenceKeys {tables : List Table}
    {planned : List (TableKey × ForeignKey)} (hnodup : (tables.map Table.key).Nodup)
    (h : collect (Table.referenceKeys m info s) tables = .ok planned) (ht : t ∈ tables) :
    t.referenceKeys m info s = .ok (planned.filter fun entry => entry.1 = t.key) := by
  induction tables generalizing planned with
  | nil => simp at ht
  | cons u rest ih =>
    simp only [collect, bind_eq_ok_iff, pure_eq_ok_iff] at h
    obtain ⟨first, hfirst, others, hothers, rfl⟩ := h
    obtain ⟨hnew, hrest⟩ := List.nodup_cons.mp hnodup
    rw [List.filter_append]
    rcases List.mem_cons.mp ht with rfl | ht
    · have hall : (first.filter fun entry => entry.1 = t.key) = first :=
        List.filter_eq_self.mpr fun entry hentry =>
          decide_eq_true (address_of_mem_referenceKeys hfirst entry hentry)
      have hnone : (others.filter fun entry => entry.1 = t.key) = [] := by
        refine List.filter_eq_nil_iff.mpr fun entry hentry hsame => hnew ?_
        obtain ⟨u, hu, keys, hkeys, hentry⟩ := (mem_collect_iff hothers).mp hentry
        have haddress := address_of_mem_referenceKeys hkeys entry hentry
        exact List.mem_map.mpr ⟨u, hu, haddress.symm.trans (of_decide_eq_true hsame)⟩
      rw [hall, hnone, List.append_nil]
      exact hfirst
    · have hnone : (first.filter fun entry => entry.1 = t.key) = [] := by
        refine List.filter_eq_nil_iff.mpr fun entry hentry hsame => hnew ?_
        have haddress := address_of_mem_referenceKeys hfirst entry hentry
        exact List.mem_map.mpr ⟨t, ht, (of_decide_eq_true hsame).symm.trans haddress⟩
      rw [hnone, List.nil_append]
      exact ih hrest hothers ht

/-- The property of a reference for which a key has been planned is known. -/
theorem exists_property_of_referenceKey {k? : Option ForeignKey}
    (h : referenceKey m info s t source = .ok k?) : ∃ p, m.property? source.property = some p := by
  unfold referenceKey at h
  split at h
  · simp at h
  · exact ⟨_, ‹_›⟩

/-- A reference that is not weak has a planned key, which leads to the main table of its entity. -/
theorem exists_address_of_referenceKey {p : Property} {k? : Option ForeignKey}
    (hproperty : m.property? source.property = some p) (hweak : p.isWeak = false)
    (h : referenceKey m info s t source = .ok k?) :
    ∃ f k, s.referenced? m source = some f ∧ k? = some k ∧ k.address = f.key := by
  cases hentity : m.entity? source.referencedEntity with
  | none => simp [referenceKey, hproperty, hweak, hentity] at h
  | some e =>
    cases hforeign : s.entityTable? e.id with
    | none => simp [referenceKey, hproperty, hweak, hentity, hforeign] at h
    | some f =>
      rw [referenceKey_eq hproperty hentity hforeign hweak] at h
      simp only [bind_eq_ok_iff, pure_eq_ok_iff] at h
      obtain ⟨pairs, -, rfl⟩ := h
      exact ⟨f, _, by simp [Schema.referenced?, hentity, hforeign], rfl, rfl⟩

/-- Each reference of a table for which keys have been planned has a known property, and a planned
key unless it is weak. -/
theorem exists_planned_of_referenceKeys {planned : List (TableKey × ForeignKey)}
    (h : t.referenceKeys m info s = .ok planned) (hsource : source ∈ t.referenceSources) :
    ∃ p, m.property? source.property = some p ∧ (p.isWeak = false →
      ∃ f, s.referenced? m source = some f ∧ ∃ k ∈ planned.map Prod.snd, k.address = f.key) := by
  obtain ⟨keys, hkeys⟩ := collect_ok_iff.mp ⟨planned, h⟩ source hsource
  have hmade := hkeys
  simp only [bind_eq_ok_iff, pure_eq_ok_iff] at hmade
  obtain ⟨k?, hk, rfl⟩ := hmade
  obtain ⟨p, hproperty⟩ := exists_property_of_referenceKey hk
  refine ⟨p, hproperty, fun hweak => ?_⟩
  obtain ⟨f, k, hf, rfl, haddress⟩ := exists_address_of_referenceKey hproperty hweak hk
  refine ⟨f, hf, k, List.mem_map.mpr ⟨(t.key, k), ?_, rfl⟩, haddress⟩
  exact (mem_collect_iff h).mpr ⟨source, hsource, _, hkeys, by simp⟩

/-! ### Kept keys -/

/-- After the pass for foreign keys a table has those keys planned for it that are not lost. -/
theorem exists_addForeignKeys_of_referenceKeys (hnodup : (s.inserted.map Table.key).Nodup)
    (hnodup' : (s'.inserted.map Table.key).Nodup) (h : referenceKeys m info s = .ok s')
    (ht' : t' ∈ s'.tables) : ∃ t planned, s.get? t'.key = some t ∧
      t.referenceKeys m info s = .ok planned ∧ t' = t.addForeignKeys (planned.map Prod.snd) := by
  have hget := Schema.get?_of_mem hnodup' (Schema.mem_tables_iff.mp ht')
  obtain ⟨planned, hplanned, rfl⟩ := referenceKeys_eq_ok h
  rw [Schema.get?_foldl_addForeignKey] at hget
  obtain ⟨t, ht, hadded⟩ := Option.map_eq_some_iff.mp hget
  have hkey : t.key = t'.key := Schema.key_of_get? ht
  refine ⟨t, _, ht, ?_, hadded.symm⟩
  rw [← hkey]
  exact filter_of_collect_referenceKeys (Schema.nodup_keys hnodup) hplanned
    (Schema.mem_tables_iff.mpr (Schema.mem_of_get? ht))

/-- The pass for foreign keys does not change where references lead to. -/
theorem exists_referenced?_of_referenceKeys {f : Table} (h : referenceKeys m info s = .ok s')
    (hf : s.referenced? m source = some f) :
    ∃ f', s'.referenced? m source = some f' ∧ f'.key = f.key := by
  obtain ⟨planned, -, rfl⟩ := referenceKeys_eq_ok h
  obtain ⟨e, he, hforeign⟩ := Option.bind_eq_some_iff.mp hf
  obtain ⟨fks, hfks⟩ := entityTable?_addForeignKeys planned hforeign
  exact ⟨_, Option.bind_eq_some_iff.mpr ⟨e, he, hfks⟩, rfl⟩

/-- After a run whose last stage has been completed, let `t'` be a table, which comes from a table
`t` by the foreign keys that the last pass plans. The property of every reference recorded in it is
known. If it is not weak, the entity that the reference leads to has a main table, and `t'` has a
foreign key to this main table unless all such keys are lost to keys that lead elsewhere. -/
theorem exists_foreignKey_to_referenced_iff (c : Config) (m : Model)
    (hstage : c.runsStage .crossCutting = true) {progress : Progress} {reports : List StageReport}
    (h : runStages c m c.effectiveStages .start = .ok (progress, reports)) :
    ∃ info s, Reaches c m .empty s ∧ referenceKeys m info s = .ok progress.schema ∧
      ∀ t' ∈ progress.schema.tables, ∃ t planned, s.get? t'.key = some t ∧
        t.referenceKeys m info s = .ok planned ∧ t' = t.addForeignKeys (planned.map Prod.snd) ∧
        ∀ source ∈ t'.referenceSources, ∃ p, m.property? source.property = some p ∧
          (p.isWeak = false → ∃ f, progress.schema.referenced? m source = some f ∧
            ((∃ k ∈ t'.foreignKeys, k.foreignNamespace = f.namespaceName ∧
                k.foreignTableId = f.tableId) ↔
              ¬t.Outbid (planned.map Prod.snd) f.key)) := by
  have hlast : c.effectiveStages =
      [Stage.mainTables, .derivedTables].filter c.runsStage ++ [.crossCutting] := by
    rw [Config.effectiveStages, show Stage.all = [.mainTables, .derivedTables] ++ [.crossCutting]
      from rfl, List.filter_append]
    simp [hstage]
  obtain ⟨mid, _, _, hbefore, hpass⟩ := exists_of_runStages_append (hlast ▸ h)
  obtain ⟨info, hkeys⟩ := exists_referenceKeys_of_runStages hpass
  have hreaches : Reaches c m .empty mid.schema := reaches_of_runStages hbefore
  have hfinal : Reaches c m .empty progress.schema := reaches_of_runStages h
  refine ⟨info, mid.schema, hreaches, hkeys, fun t' ht' => ?_⟩
  obtain ⟨t, planned, ht, hplanned, hadded⟩ := exists_addForeignKeys_of_referenceKeys
    hreaches.nodup_addresses hfinal.nodup_addresses hkeys ht'
  refine ⟨t, planned, ht, hplanned, hadded, fun source hsource => ?_⟩
  have hsame : source ∈ t.referenceSources := by
    obtain ⟨fks, hfks⟩ := t.exists_addForeignKeys_eq (planned.map Prod.snd)
    rw [hadded, hfks] at hsource
    exact hsource
  obtain ⟨p, hproperty, hkey⟩ := exists_planned_of_referenceKeys hplanned hsame
  refine ⟨p, hproperty, fun hweak => ?_⟩
  obtain ⟨f, hf, hk⟩ := hkey hweak
  obtain ⟨f', hf', haddress⟩ := exists_referenced?_of_referenceKeys hkeys hf
  refine ⟨f', hf', ?_⟩
  have hleads (k : ForeignKey) : k.foreignNamespace = f'.namespaceName ∧
      k.foreignTableId = f'.tableId ↔ k.address = f'.key := by
    simp [ForeignKey.address, Table.key]
  simp only [hleads, hadded]
  exact Table.exists_address_iff_not_outbid (haddress ▸ hk)

namespace Transfers

/-- A school of a namespace. -/
def school (namespaceName : String) : Entity :=
  (Entity.ofKind .domainEntity namespaceName "School").withProperty
    (Property.ofKind "SchoolId" (.scalar .integer)).identity

/-- A transfer refers to a school of each of two namespaces. -/
def transfer : Entity :=
  (((Entity.ofKind .domainEntity "Sample" "Transfer").withProperty
    (Property.ofKind "TransferId" (.scalar .integer)).identity).withProperty
      { Property.ofKind "School" .domainEntity with referencedEntity := some 0 }).withProperty
        { Property.ofKind "School" .domainEntity with referencedEntity := some 1 }

def model : Model :=
  ((Model.empty.addEntity (school "EdFi")).addEntity (school "Sample")).addEntity transfer

def config : Config :=
  { Config.standard with targetVersion := ⟨6, 1, 0⟩ }

/-- The reference of transfers to schools of the second namespace. -/
def reference : ReferenceSource :=
  ⟨[], ⟨2, 2⟩, 1⟩

/-- Transfers have no foreign key to schools of the second namespace. The key is lost to the one
that leads to schools of the first namespace and has the same identifier. -/
theorem exists_foreignKey_to_referenced_iff_transfers :
    ∃ progress reports t' f,
      runStages config model config.effectiveStages .start = .ok (progress, reports) ∧
      t' ∈ progress.schema.tables ∧ reference ∈ t'.referenceSources ∧
      progress.schema.referenced? model reference = some f ∧ f.key = ⟨"Sample", "School"⟩ ∧
      t'.foreignKeys.map ForeignKey.address = [⟨"EdFi", "School"⟩] ∧
      ∃ (info : CascadeInfo) (s : Schema) (t : Table) (planned : List (TableKey × ForeignKey)),
        referenceKeys model info s = .ok progress.schema ∧ s.get? t'.key = some t ∧
        t.referenceKeys model info s = .ok planned ∧ t.Outbid (planned.map Prod.snd) f.key := by
  have hrun : (runStages config model config.effectiveStages .start).toOption.any (fun r =>
      (r.1.schema.table? "Sample" "Transfer").any (fun t' => reference ∈ t'.referenceSources ∧
        t'.foreignKeys.map ForeignKey.address = [⟨"EdFi", "School"⟩]) &&
      (r.1.schema.referenced? model reference).any (fun f => f.key = ⟨"Sample", "School"⟩)) =
        true := by decide +kernel
  obtain ⟨⟨progress, reports⟩, hstages, hboth⟩ := exists_eq_ok_of_any hrun
  obtain ⟨htable, hforeign⟩ := Bool.and_eq_true_iff.mp hboth
  obtain ⟨t', ht', hkeys⟩ := (Option.any_eq_true _ _).mp htable
  obtain ⟨f, hf, hname⟩ := (Option.any_eq_true _ _).mp hforeign
  obtain ⟨hsource, hkeys⟩ := of_decide_eq_true hkeys
  have hname : f.key = ⟨"Sample", "School"⟩ := of_decide_eq_true hname
  have hmem : t' ∈ progress.schema.tables :=
    Schema.mem_tables_iff.mpr (Schema.mem_of_get? ht')
  obtain ⟨info, s, -, hpass, hall⟩ :=
    exists_foreignKey_to_referenced_iff config model (by decide) hstages
  obtain ⟨t, planned, ht, hplanned, -, hreferences⟩ := hall t' hmem
  obtain ⟨p, hp, hkept⟩ := hreferences reference hsource
  have hweak : p.isWeak = false := by
    have hall : (model.property? reference.property).all (fun p => !p.isWeak) = true := by
      decide +kernel
    simpa [hp] using hall
  obtain ⟨f', hf', hiff⟩ := hkept hweak
  obtain rfl : f' = f := Option.some.inj (hf'.symm.trans hf)
  refine ⟨progress, reports, t', f', hstages, hmem, hsource, hf, hname, hkeys, info, s, t, planned,
    hpass, ht, hplanned, ?_⟩
  by_contra houtbid
  obtain ⟨k, hk, hnamespace, -⟩ := hiff.mpr houtbid
  have haddress : k.address = ⟨"EdFi", "School"⟩ := by
    have hmapped := List.mem_map_of_mem (f := ForeignKey.address) hk
    rw [hkeys] at hmapped
    exact List.mem_singleton.mp hmapped
  have hfirst : k.foreignNamespace = "EdFi" := congrArg TableKey.namespaceName haddress
  have hsecond : f'.namespaceName = "Sample" := congrArg TableKey.namespaceName hname
  exact absurd (hfirst.symm.trans (hnamespace.trans hsecond)) (by decide)

end Transfers

end Tabular
