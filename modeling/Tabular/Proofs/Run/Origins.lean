import Mathlib.Tactic.Common
import Tabular.Proofs.Run.Steps
import Tabular.Proofs.Schema.AddedKeys
import Tabular.Proofs.Schema.Following

/-!
# Where the tables of a schema come from

A table of the schema has been there before a step, or it has been finished as part of a set that
the step commits, or it is the table that all descriptors share. Map types and references change
stored tables. This file says once what a step can do to the tables of a schema; what they all have
in common in every run is then proved by cases on the origin of a table.

## Main definitions

* `Drafted`: the sets of tables that steps commit.
* `Origin`: how a table of the schema comes about in a step.

## Main results

* `DerivationStep.origin`: a step does nothing else.
* `Reaches.forall_inserted`: what every origin leads to holds of all tables of a run.
-/

namespace Tabular

/-! ### Sets that are committed -/

/-- The sets of tables that a step commits to the schema `s`, each with the entity it is built
for. -/
inductive Drafted (c : Config) (m : Model) (s : Schema) : EntityId → TableSet → Prop
  | main {e : Entity} {set : TableSet} (he : e ∈ m.entities)
      (h : (c.tableContext m s).mainTable e .main = .ok set) : Drafted c m s e.id set
  | descriptor {e : Entity} {set : TableSet} (he : e ∈ m.entities)
      (h : (c.tableContext m s).descriptorTable e = .ok set) : Drafted c m s e.id set
  | subclass {e : Entity} {set : TableSet} (he : e ∈ m.entities)
      (h : (c.tableContext m s).subclassTable e = .ok set) : Drafted c m s e.id set
  | extension {e : Entity} {set : TableSet} (he : e ∈ m.entities)
      (h : (c.tableContext m s).extensionTable e = .ok set) : Drafted c m s e.id set
  | codeValues {e : Entity} {id : EntityId} {tableId description : String} {reason : TableReason}
      (he : e ∈ m.entities) : Drafted c m s id ((TableSet.empty id).push
        (codeValueTable c.targetVersion e.namespaceName tableId reason description))
  | schoolYears {e : Entity} (he : e ∈ m.entities) :
      Drafted c m s e.id ((TableSet.empty e.id).push (schoolYearTable c.targetVersion e))

variable {c : Config} {m : Model} {s s' : Schema} {id : EntityId} {set : TableSet} {t : Table}

namespace TableContext

variable {ctx : TableContext} {e : Entity}

/-- The tables of a subclass are those of its main table, the first with a foreign key to the
base. -/
theorem exists_of_subclassTable (h : ctx.subclassTable e = .ok set) :
    ∃ main key, ctx.mainTable e .subclass = .ok main ∧
      ctx.baseKey e e.name = .ok key ∧ set = main.modify 0 fun t => t.addForeignKey key := by
  simp only [subclassTable, bind_eq_ok_iff, pure_eq_ok_iff] at h
  obtain ⟨main, hmain, key, hkey, rfl⟩ := h
  exact ⟨main, key, hmain, hkey, rfl⟩

/-- The foreign key of a subclass to its base exists for the subclass. -/
theorem reason_of_baseKey {tableId : String} {k : ForeignKey} (h : ctx.baseKey e tableId = .ok k) :
    k.reason = .subclass := by
  simp only [baseKey, bind_eq_ok_iff, pure_eq_ok_iff] at h
  obtain ⟨base, -, found, -, baseKeys, -, inherited, -, rfl⟩ := h
  rfl

theorem wellLinked_of_descriptorTable (h : ctx.descriptorTable e = .ok set) :
    set.WellLinked ctx.stored := by
  have hgrown := (built_of_entityTables h).grown (by simp [TableSet.empty])
  exact hgrown.wellLinked rfl rfl (Or.inl ⟨0, rfl, by simp⟩)

theorem wellLinked_of_subclassTable (h : ctx.subclassTable e = .ok set) :
    set.WellLinked ctx.stored := by
  obtain ⟨main, key, hmain, -, rfl⟩ := exists_of_subclassTable h
  have hlinked := wellLinked_of_mainTable hmain
  exact ⟨by simpa using hlinked.inSet, hlinked.stored⟩

end TableContext

/-- The sets that are committed are well linked. -/
theorem Drafted.wellLinked (h : Drafted c m s id set) : set.WellLinked s := by
  cases h with
  | main _ h => exact TableContext.wellLinked_of_mainTable h
  | descriptor _ h => exact TableContext.wellLinked_of_descriptorTable h
  | subclass _ h => exact TableContext.wellLinked_of_subclassTable h
  | extension _ h => exact TableContext.wellLinked_of_extensionTable h
  | codeValues | schoolYears => exact .of_links_eq_nil rfl

/-! ### Origins -/

/-- How a table comes about in a step that starts from the schema `s`. -/
inductive Origin (c : Config) (m : Model) (s : Schema) : Table → Prop
  | stored {t : Table} (ht : t ∈ s.inserted) : Origin c m s t
  | committed {id : EntityId} {set : TableSet} {tables : List Table} {i : Nat} {u t : Table}
      (hset : Drafted c m s id set) (hu : u ∈ set.tables)
      (hfrom : TableSet.FinishedFrom c.targetVersion s set.links tables i u t) : Origin c m s t
  | baseDescriptor : Origin c m s (TableSet.arranged c.targetVersion
      (baseDescriptorTable c.targetVersion c.coreNamespace))
  | mapType {t : Table} (namespaceName mapTableId : String) (ht : Origin c m s t) :
      Origin c m s (withMapType c.targetVersion namespaceName mapTableId t)
  | foreignKey {t : Table} (k : ForeignKey) (hk : k.reason = .reference) (ht : Origin c m s t) :
      Origin c m s (t.addForeignKey k)

/-- The tables after a commit. -/
theorem Drafted.origin_of_store (hset : Drafted c m s id set)
    (h : set.store c.targetVersion s = .ok s') : ∀ t ∈ s'.inserted, Origin c m s t := by
  obtain ⟨tables, -, rfl, -, hnew⟩ := TableSet.exists_finishedFrom_of_store hset.wellLinked h
  intro t ht
  rcases List.mem_append.mp ht with ht | ht
  · exact .stored ht
  · obtain ⟨i, u, hu, -, hfrom⟩ := hnew t ht
    exact .committed hset hu hfrom

theorem Drafted.origin_of_storeMain {e : EntityId} (hset : Drafted c m s id set)
    (h : set.storeMain c.targetVersion e s = .ok s') : ∀ t ∈ s'.inserted, Origin c m s t := by
  obtain ⟨next, hnext, rfl | ⟨key, rfl⟩⟩ := TableSet.storeMain_eq_ok h
  · exact hset.origin_of_store hnext
  · exact fun t ht => hset.origin_of_store hnext t ht

private theorem origin_of_storeMapType {e : Entity} (he : e ∈ m.entities)
    (h : storeMapType c m s e = .ok s') : ∀ t ∈ s'.inserted, Origin c m s t := by
  rcases storeMapType_eq_ok h with rfl | ⟨_, _, mid, _, -, -, hmid, rfl⟩
  · exact fun t ht => .stored ht
  · have horigin : ∀ t ∈ mid.inserted, Origin c m s t :=
      (Drafted.codeValues he).origin_of_storeMain hmid
    intro t ht
    rcases Schema.mem_inserted_modify ht with ht | ⟨u, hu, rfl⟩
    · exact horigin t ht
    · exact .mapType _ _ (horigin u (Schema.mem_of_get? hu))

/-- The foreign keys that are planned for references exist for references. -/
theorem reason_of_mem_referenceKeys {info : CascadeInfo} {tables : List Table}
    {planned : List (TableKey × ForeignKey)}
    (h : collect (Table.referenceKeys m info s) tables = .ok planned) :
    ∀ entry ∈ planned, entry.2.reason = .reference := by
  intro entry hentry
  obtain ⟨t, -, keys, hkeys, hentry⟩ := (mem_collect_iff h).mp hentry
  obtain ⟨source, -, keys, hkeys, hentry⟩ := (mem_collect_iff hkeys).mp hentry
  simp only [bind_eq_ok_iff, pure_eq_ok_iff] at hkeys
  obtain ⟨k?, hk, rfl⟩ := hkeys
  obtain ⟨k, hmem, rfl⟩ := List.mem_map.mp hentry
  obtain rfl := Option.mem_toList.mp hmem
  unfold referenceKey at hk
  split at hk
  · simp at hk
  · split_ifs at hk
    · simp at hk
    · split at hk
      · simp at hk
      · split at hk
        · simp at hk
        · simp only [bind_eq_ok_iff, pure_eq_ok_iff] at hk
          obtain ⟨pairs, -, hk⟩ := hk
          rw [← Option.some.inj hk]
          rfl

/-- Foreign keys added to stored tables one after the other. -/
private theorem origin_of_foldl_addForeignKey {start : Schema}
    {planned : List (TableKey × ForeignKey)}
    (hplanned : ∀ entry ∈ planned, entry.2.reason = .reference)
    (hstart : ∀ t ∈ start.inserted, Origin c m s t) :
    ∀ t ∈ (planned.foldl (fun s (key, k) => s.modify key fun t => t.addForeignKey k)
      start).inserted, Origin c m s t := by
  induction planned generalizing start with
  | nil => exact hstart
  | cons entry rest ih =>
    obtain ⟨hentry, hrest⟩ := List.forall_mem_cons.mp hplanned
    refine ih hrest fun t ht => ?_
    rcases Schema.mem_inserted_modify ht with ht | ⟨u, hu, rfl⟩
    · exact hstart t ht
    · exact .foreignKey entry.2 hentry (hstart u (Schema.mem_of_get? hu))

/-- Every table after a step has an origin in it. -/
theorem DerivationStep.origin (h : DerivationStep c m s s') :
    ∀ t ∈ s'.inserted, Origin c m s t := by
  cases h with
  | entity he h =>
    obtain ⟨set, hset, h⟩ := bind_eq_ok_iff.mp h
    exact (Drafted.main (List.mem_filter.mp he).1 hset).origin_of_storeMain h
  | baseDescriptor h =>
    rcases storeBaseDescriptor_eq_ok h with rfl | h
    · exact fun t ht => .stored ht
    · obtain ⟨-, rfl⟩ := Schema.insert_eq_ok_iff.mp h
      intro t ht
      rcases List.mem_append.mp ht with ht | ht
      · exact .stored ht
      · rw [List.mem_singleton.mp ht]
        exact .baseDescriptor
  | descriptor he h =>
    obtain ⟨set, hset, h⟩ := bind_eq_ok_iff.mp h
    exact (Drafted.descriptor (List.mem_filter.mp he).1 hset).origin_of_storeMain h
  | mapType _ he h => exact origin_of_storeMapType (List.mem_filter.mp he).1 h
  | enumeration he h =>
    exact (Drafted.codeValues (List.mem_filter.mp he).1).origin_of_storeMain h
  | schoolYear he h =>
    rcases storeSchoolYear_eq_ok h with ⟨_, rfl⟩ | h
    · exact fun t ht => .stored ht
    · exact (Drafted.schoolYears (List.mem_filter.mp he).1).origin_of_storeMain h
  | subclass he _ h =>
    obtain ⟨set, hset, h⟩ := bind_eq_ok_iff.mp h
    exact (Drafted.subclass he hset).origin_of_storeMain h
  | extension he h =>
    obtain ⟨set, hset, h⟩ := bind_eq_ok_iff.mp h
    exact (Drafted.extension (List.mem_filter.mp he).1 hset).origin_of_store h
  | references h =>
    obtain ⟨planned, hplanned, rfl⟩ := referenceKeys_eq_ok h
    exact origin_of_foldl_addForeignKey (reason_of_mem_referenceKeys hplanned)
      fun t ht => .stored ht

/-- What every table has whose origin is a schema all of whose tables have it holds of all tables in
the course of a run. -/
theorem Reaches.forall_inserted {P : Table → Prop}
    (hP : ∀ s t, (∀ u ∈ s.inserted, P u) → Origin c m s t → P t) (h : Reaches c m .empty s) :
    ∀ t ∈ s.inserted, P t := by
  induction h with
  | refl => simp [Schema.empty]
  | tail _ hstep ih => exact fun t ht => hP _ t ih (hstep.origin t ht)

end Tabular
