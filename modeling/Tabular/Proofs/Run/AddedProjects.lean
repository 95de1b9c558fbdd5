import Mathlib.Tactic.Common
import Tabular.Proofs.Run.AddedEntities

/-!
# Projects that extend a model

Another project adds entities to a model, in namespaces of its own. A run on the larger model goes
through the passes of the run on the model and does more for the added entities. As long as each
pass finds what it finds without the project, the tables of the model stay as they are.

There are two kinds of tables that are not inserted if their address is taken: the table that all
descriptors share and the table of the school years of a namespace. A common may be extended by an
added entity, and the table for it is in the namespace of the common. If it has the address of such
a shared table it is taken for the shared table, and the model loses the latter. Nothing else can
change a table of the model.

## Main definitions

* `Config.IsShared`: the addresses of shared tables.
* `Schema.Adopts`: a table of an added entity has been taken for a shared table.
* `Progress.Alongside`: what two runs, on a model and on a larger one, have produced so far.
* `Table.SameContents`: tables with the same columns, foreign keys, parent keys and references.

## Main results

* `Schema.IncludedIn.schemaAfter`: one pass of both runs.
* `Progress.Alongside.runStages`: whole runs.
* `sameContents_of_project_iff`: when a project leaves the tables of a model unchanged.
-/

namespace Tabular

/-- The address is that of the table that all descriptors share, or of the table of the school years
of a namespace, and the model has an entity that needs this table. -/
def Config.IsShared (c : Config) (m : Model) (key : TableKey) : Prop :=
  (key = c.baseDescriptorKey ∧ m.ofKind .descriptor ≠ []) ∨
    ∃ e ∈ m.ofKind .schoolYearEnumeration, key = ⟨e.namespaceName, TableNaming.schoolYearTable⟩

/-- At the address of a shared table, which has entered the schema `s` without foreign keys, the
schema `s'` has a table that belongs to one of the entities `added` and has entered it with one. -/
def Schema.Adopts (c : Config) (m : Model) (added : List Entity) (s s' : Schema) : Prop :=
  ∃ key t t', c.IsShared m key ∧ s.get? key = some t ∧ s'.get? key = some t' ∧
    (∀ k ∈ t.foreignKeys, k.reason.isLate = true) ∧
    (∃ k ∈ t'.foreignKeys, k.reason.isLate = false) ∧ ∃ e ∈ added, t'.parentEntity = some e.id

variable {c : Config} {m m' : Model} {added : List Entity} {s s' t t' : Schema}

/-- A shared table stays what it is. -/
theorem Schema.Adopts.reaches (h : s.Adopts c m added s') (hs : Reaches c m s t)
    (hs' : Reaches c m' s' t') : t.Adopts c m added t' := by
  obtain ⟨key, u, u', hshared, hu, hu', hlate, ⟨k, hk, hearly⟩, e, he, howner⟩ := h
  obtain ⟨w, hw, hlater⟩ := hs.exists_later hu
  obtain ⟨w', hw', hlater'⟩ := hs'.exists_later hu'
  refine ⟨key, w, w', hshared, hw, hw', fun j hj => ?_, ⟨k, hlater'.keys k hk, hearly⟩, e, he,
    hlater'.owner.trans howner⟩
  rcases hlater.late j hj with hj | hj
  · exact hlate j hj
  · exact hj

theorem descriptorTables_eq (c : Config) (m : Model) (s : Schema) : descriptorTables c m s =
    if m.ofKind .descriptor = [] then .ok s
    else storeBaseDescriptor c s >>= fun s =>
      (m.ofKind .descriptor).foldlM (storeDescriptor c m) s := by
  unfold descriptorTables
  split
  · next hnone => rw [if_pos hnone]
  · next hsome => rw [if_neg hsome]

theorem Schema.insertAll_singleton {u : Table} (h : s.insert u = .ok t) :
    s.insertAll [u] = (t, none) := by
  simp only [insertAll, h]

/-- A single table that is committed keeps its foreign keys. -/
theorem TableSet.exists_get?_of_storeMain_push {v : Version} {id e : EntityId} {start : Table}
    (h : ((TableSet.empty id).push start).storeMain v e s = .ok t) :
    ∃ u, t.get? start.key = some u ∧ u.foreignKeys = start.foreignKeys := by
  obtain ⟨next, hnext, hmain⟩ := TableSet.storeMain_eq_ok h
  have hget : ∃ u, next.get? start.key = some u ∧ u.foreignKeys = start.foreignKeys := by
    obtain ⟨tables, hfinish, hinsert⟩ := TableSet.store_eq_ok_iff.mp hnext
    obtain ⟨-, hfinished⟩ := TableSet.finishedFrom_of_finish (.of_links_eq_nil rfl) hfinish
    obtain ⟨u, hu, hfrom⟩ := hfinished 0 _ (by simp [TableSet.empty]) rfl
    have hkept := Schema.get?_insertAll_of_mem hinsert
      (TableSet.mem_kept_iff.mpr ⟨0, hu, by simp [TableSet.empty]⟩)
    cases hfrom with
    | unlinked => exact ⟨_, by rwa [Table.key_arranged] at hkept, by simp⟩
    | linked hlink => simp [TableSet.empty] at hlink
  rcases hmain with rfl | ⟨key, rfl⟩
  · exact hget
  · exact hget

namespace Schema.IncludedIn

/-- A pass goes through the entities of the model and then, in the larger run, through added
ones. -/
theorem foldlM {f f' : Schema → Entity → BuildResult Schema} {es others : List Entity}
    (hboth : ∀ s s' e t t', e ∈ es → IncludedIn c m added s s' → f s e = .ok t →
      f' s' e = .ok t' → IncludedIn c m added t t')
    (hright : ∀ s s' e t', e ∈ others → IncludedIn c m added s s' → f' s' e = .ok t' →
      IncludedIn c m added s t')
    (h : s.IncludedIn c m added s') (hs : es.foldlM f s = .ok t)
    (hs' : (es ++ others).foldlM f' s' = .ok t') : t.IncludedIn c m added t' := by
  rw [List.foldlM_append, bind_eq_ok_iff] at hs'
  obtain ⟨mid, hmid, hs'⟩ := hs'
  have hfirst := foldlM_ok_induction₂ (IncludedIn c m added) hboth h hs hmid
  exact foldlM_ok_induction (IncludedIn c m added t)
    (fun u e u' he hu hstep => hright t u e u' he hu hstep) hfirst hs'

section Passes

variable (hm : m.ExtendedBy added m') (hproject : c.IsProject m added)

include hm hproject

/-! ### Entities and extensions -/

theorem mainTables (h : s.IncludedIn c m added s') (hs : mainTables c m s = .ok t)
    (hs' : Tabular.mainTables c m' s' = .ok t') : t.IncludedIn c m added t' := by
  have hsplit : m'.mainEntities = m.mainEntities ++ added.filter fun e =>
      (e.kind = .domainEntity || e.kind = .association) && e.baseEntity.isNone := by
    rw [Model.mainEntities, hm.entities, List.filter_append]
    rfl
  rw [Tabular.mainTables, hsplit] at hs'
  refine foldlM (fun s s' e t t' he h hs hs' => ?_) (fun s s' e t' he h hs' => ?_) h hs hs'
  · have hmem : e ∈ m.entities := (List.mem_filter.mp he).1
    refine h.storeMain_bind hm hmem ((h.servedBy hm hproject).mainTable hmem .main)
      (fun set hset => ?_) hs hs'
    exact ⟨TableContext.belongsTo_of_mainTable hset,
      TableContext.wellLinked_of_mainTable hset⟩
  · obtain ⟨set, hset, hs'⟩ := bind_eq_ok_iff.mp hs'
    exact h.storeMain_right hm (List.mem_filter.mp he).1 (TableContext.belongsTo_of_mainTable hset)
      (TableContext.wellLinked_of_mainTable hset) hs'

theorem extensionTables (h : s.IncludedIn c m added s') (hs : extensionTables c m s = .ok t)
    (hs' : Tabular.extensionTables c m' s' = .ok t') : t.IncludedIn c m added t' := by
  have hsplit : m'.extensions = m.extensions ++ added.filter fun e =>
      e.kind = .domainEntityExtension || e.kind = .associationExtension := by
    rw [Model.extensions, hm.entities, List.filter_append]
    rfl
  rw [Tabular.extensionTables, hsplit] at hs'
  refine foldlM (fun s s' e t t' he h hs hs' => ?_) (fun s s' e t' he h hs' => ?_) h hs hs'
  · have hmem : e ∈ m.entities := (List.mem_filter.mp he).1
    refine h.store_bind hm hmem ((h.servedBy hm hproject).extensionTable hmem)
      (fun set hset => ?_) hs hs'
    exact ⟨TableContext.belongsTo_of_extensionTable hset,
      TableContext.wellLinked_of_extensionTable hset⟩
  · obtain ⟨set, hset, hs'⟩ := bind_eq_ok_iff.mp hs'
    exact h.store_right (List.mem_filter.mp he).1 (TableContext.belongsTo_of_extensionTable hset)
      (TableContext.wellLinked_of_extensionTable hset) hs'

/-! ### Subclasses -/

theorem storeSubclass (h : s.IncludedIn c m added s') {e : Entity} (he : e ∈ m.entities)
    (hs : storeSubclass c m s e = .ok t) (hs' : Tabular.storeSubclass c m' s' e = .ok t') :
    t.IncludedIn c m added t' := by
  refine h.storeMain_bind hm he ((h.servedBy hm hproject).subclassTable he) (fun set hset => ?_)
    hs hs'
  exact ⟨TableContext.belongsTo_of_subclassTable hset,
    TableContext.wellLinked_of_subclassTable hset⟩

omit hproject in
theorem storeSubclass_right (h : s.IncludedIn c m added s') {e : Entity} (he : e ∈ added)
    (hs' : Tabular.storeSubclass c m' s' e = .ok t') : s.IncludedIn c m added t' := by
  obtain ⟨set, hset, hs'⟩ := bind_eq_ok_iff.mp hs'
  exact h.storeMain_right hm he (TableContext.belongsTo_of_subclassTable hset)
    (TableContext.wellLinked_of_subclassTable hset) hs'

omit hproject in
/-- Whether the base of a subclass of the model has a table. -/
theorem hasBaseTable_eq (h : s.IncludedIn c m added s') {e : Entity} (he : e ∈ m.entities) :
    s'.hasBaseTable e = s.hasBaseTable e := by
  unfold hasBaseTable
  cases hbase : e.baseEntity with
  | none => rfl
  | some base =>
    have hlt : base < m.entities.length := (hm.linked e he).1 base hbase
    have hentity : m.entity? base = some m.entities[base] := List.getElem?_eq_getElem hlt
    have hregistered := h.registered _ (List.getElem_mem hlt)
    rw [hm.isIndexed.id_of_entity? hentity] at hregistered
    rw [Option.any_some, Option.any_some, hregistered]

/-- In every round the larger run builds the same subclasses of the model, and added ones. -/
theorem subclassRounds {pending others : List Entity} (h : s.IncludedIn c m added s')
    (hpending : ∀ e ∈ pending, e ∈ m.entities) (hothers : ∀ e ∈ others, e ∈ added)
    (hs : subclassRounds m (Tabular.storeSubclass c m) pending s = .ok t)
    (hs' : Tabular.subclassRounds m' (Tabular.storeSubclass c m') (pending ++ others) s' = .ok t') :
    t.IncludedIn c m added t' := by
  fun_induction Tabular.subclassRounds m (Tabular.storeSubclass c m) pending s
      generalizing s' others with
  | case1 s =>
    obtain rfl := Except.ok.inj hs
    exact subclassRounds_ok_induction (IncludedIn c m added s)
      (fun u e u' he hu hstep => hu.storeSubclass_right hm (hothers e he) hstep) h hs'
  | case2 s first rest hany ih =>
    obtain ⟨mid, hmid, hs⟩ := bind_eq_ok_iff.mp hs
    have hready : (first :: rest).filter s'.hasBaseTable = (first :: rest).filter s.hasBaseTable :=
      List.filter_congr fun e he => h.hasBaseTable_eq hm (hpending e he)
    have hwaiting : ((first :: rest).filter fun e => !s'.hasBaseTable e) =
        (first :: rest).filter fun e => !s.hasBaseTable e :=
      List.filter_congr fun e he => by rw [h.hasBaseTable_eq hm (hpending e he)]
    have hany' : (first :: (rest ++ others)).any s'.hasBaseTable = true := by
      obtain ⟨e, he, hbase⟩ := List.any_eq_true.mp hany
      refine List.any_eq_true.mpr ⟨e, List.mem_append_left others he, ?_⟩
      rw [h.hasBaseTable_eq hm (hpending e he)]
      exact hbase
    rw [List.cons_append, Tabular.subclassRounds, dif_pos hany', bind_eq_ok_iff,
      ← List.cons_append, List.filter_append, List.filter_append, hready, hwaiting] at hs'
    obtain ⟨mid', hmid', hs'⟩ := hs'
    refine ih mid ?_ (fun e he => hpending e (List.mem_filter.mp he).1)
      (fun e he => hothers e (List.mem_filter.mp he).1) hs hs'
    refine foldlM (fun s s' e t t' he h hs hs' => ?_) (fun s s' e t' he h hs' => ?_) h hmid hmid'
    · exact h.storeSubclass hm hproject (hpending e (List.mem_filter.mp he).1) hs hs'
    · exact h.storeSubclass_right hm (hothers e (List.mem_filter.mp he).1) hs'
  | case3 => simp at hs

theorem subclassTables (h : s.IncludedIn c m added s') (hs : subclassTables c m s = .ok t)
    (hs' : Tabular.subclassTables c m' s' = .ok t') : t.IncludedIn c m added t' := by
  rw [Tabular.subclassTables, hm.entities, List.filter_append] at hs'
  exact h.subclassRounds hm hproject (fun e he => (List.mem_filter.mp he).1)
    (fun e he => (List.mem_filter.mp he).1) hs hs'

/-! ### Enumerations and map types -/

omit hproject in
theorem enumerationTables (h : s.IncludedIn c m added s') (hs : enumerationTables c m s = .ok t)
    (hs' : Tabular.enumerationTables c m' s' = .ok t') : t.IncludedIn c m added t' := by
  have hset (e : Entity) : ((TableSet.empty e.id).push (codeValueTable c.targetVersion
      e.namespaceName (TableNaming.enumerationTable e.name) .enumeration
        e.documentation)).BelongsTo e.id e.namespaceName :=
    TableSet.belongsTo_push rfl rfl rfl
  rw [Tabular.enumerationTables, hm.ofKind] at hs'
  refine foldlM (fun s s' e t t' he h hs hs' => ?_) (fun s s' e t' he h hs' => ?_) h hs hs'
  · exact h.storeMain (hset e) (hm.id_lt (List.mem_filter.mp he).1) (.of_links_eq_nil rfl) hs hs'
  · exact h.storeMain_right hm (List.mem_filter.mp he).1 (hset e) (.of_links_eq_nil rfl) hs'

omit hproject in
theorem storeMapType (h : s.IncludedIn c m added s') {e : Entity} (he : e ∈ m.entities)
    (hs : storeMapType c m s e = .ok t) (hs' : Tabular.storeMapType c m' s' e = .ok t') :
    t.IncludedIn c m added t' := by
  cases hmap : e.mapType with
  | none =>
    simp only [Tabular.storeMapType, hmap, Except.ok.injEq] at hs hs'
    exact hs ▸ hs' ▸ h
  | some id =>
    cases hentity : m.entity? id with
    | none => simp [Tabular.storeMapType, hmap, hentity] at hs
    | some mapType =>
      simp only [Tabular.storeMapType, hmap, hentity, hm.entity?_of_eq_some hentity,
        bind_eq_ok_iff] at hs hs'
      obtain ⟨mid, hmid, hs⟩ := hs
      obtain ⟨mid', hmid', hs'⟩ := hs'
      have hmids : mid.IncludedIn c m added mid' :=
        h.storeMain (TableSet.belongsTo_push rfl rfl rfl) (hm.id_lt (List.mem_of_getElem? hentity))
          (.of_links_eq_nil rfl) hmid hmid'
      rw [hmids.registered e he] at hs'
      cases hkey : mid.entityTableKey? e.id with
      | none => simp [hkey] at hs
      | some key =>
        simp only [hkey, pure_eq_ok_iff] at hs hs'
        exact hs ▸ hs' ▸ hmids.modify key fun t => .withMapType _ _ _ t

theorem mapTypeTables (h : s.IncludedIn c m added s') (hs : mapTypeTables c m s = .ok t)
    (hs' : Tabular.mapTypeTables c m' s' = .ok t') : t.IncludedIn c m added t' := by
  rw [Tabular.mapTypeTables, hm.ofKind] at hs'
  refine foldlM (fun s s' e t t' he h hs hs' => ?_) (fun s s' e t' he h hs' => ?_) h hs hs'
  · exact h.storeMapType hm (List.mem_filter.mp he).1 hs hs'
  · obtain ⟨hadded, hkind⟩ := List.mem_filter.mp he
    have hnone := hproject.mapTypes e hadded (of_decide_eq_true hkind)
    simp only [Tabular.storeMapType, hnone, Except.ok.injEq] at hs'
    exact hs' ▸ h

/-! ### Shared tables -/

omit hm in
/-- A table of the larger schema at the address of a shared table that the other schema lacks
belongs to an added entity. -/
theorem exists_added_of_isShared (h : s.IncludedIn c m added s') {key : TableKey} {u : Table}
    (hshared : c.IsShared m key) (hnone : s.get? key = none) (hu : s'.get? key = some u) :
    (∃ k ∈ u.foreignKeys, k.reason.isLate = false) ∧ ∃ e ∈ added, u.parentEntity = some e.id := by
  rcases h.other key u hu hnone with ⟨e, he, hfrom⟩ | ⟨hkey, hempty⟩
  · refine ⟨hfrom.placed.resolve_left fun hplace => ?_, e, he, hfrom.owner⟩
    have hnamespace : key.namespaceName = e.namespaceName := by
      rw [← key_of_get? hu]
      exact hplace
    rcases hshared with ⟨rfl, -⟩ | ⟨f, hf, rfl⟩
    · exact hproject.core e he hnamespace.symm
    · exact hproject.namespaces e he f (List.mem_filter.mp hf).1 hnamespace.symm
  · rcases hshared with ⟨-, hsome⟩ | ⟨f, -, rfl⟩
    · exact absurd hempty hsome
    · exact absurd (congrArg TableKey.tableId hkey)
        (show TableNaming.schoolYearTable ≠ baseDescriptorId by decide)

omit hm in
theorem storeBaseDescriptor (h : s.IncludedIn c m added s') (hsome : m.ofKind .descriptor ≠ [])
    (hs : storeBaseDescriptor c s = .ok t) (hs' : Tabular.storeBaseDescriptor c s' = .ok t') :
    t.IncludedIn c m added t' ∨ t.Adopts c m added t' := by
  have hshared : c.IsShared m c.baseDescriptorKey := Or.inl ⟨rfl, hsome⟩
  unfold Tabular.storeBaseDescriptor at hs hs'
  cases hget : s.table? c.coreNamespace baseDescriptorId with
  | some u =>
    have hget' : s'.table? c.coreNamespace baseDescriptorId = some u := h.tables _ u hget
    simp only [hget, hget', Except.ok.injEq] at hs hs'
    exact Or.inl (hs ▸ hs' ▸ h)
  | none =>
    simp only [hget] at hs
    cases hget' : s'.table? c.coreNamespace baseDescriptorId with
    | none =>
      simp only [hget'] at hs'
      refine Or.inl (h.insertAll (insertAll_singleton hs) (insertAll_singleton hs') ?_)
      simp [baseDescriptorTable, Table.ofReason]
    | some u =>
      simp only [hget', Except.ok.injEq] at hs'
      obtain ⟨hearly, howner⟩ := h.exists_added_of_isShared hproject hshared hget hget'
      have hbase := get?_insert_self hs
      rw [Table.key_arranged] at hbase
      refine Or.inr ⟨_, _, u, hshared, hbase, hs' ▸ hget', ?_, hearly, howner⟩
      simp [baseDescriptorTable, Table.ofReason]

omit hm hproject in
/-- Without descriptors in the model only the larger run may insert the table that they share. -/
theorem storeBaseDescriptor_right (h : s.IncludedIn c m added s')
    (hnone : m.ofKind .descriptor = []) (hs' : Tabular.storeBaseDescriptor c s' = .ok t') :
    s.IncludedIn c m added t' := by
  unfold Tabular.storeBaseDescriptor at hs'
  split at hs'
  · exact Except.ok.inj hs' ▸ h
  · refine ⟨fun key u hu => get?_of_insert hs' (h.tables key u hu), fun e he => ?_, h.owned,
      fun key u hu hfree => ?_⟩
    · rw [inserted_of_insertAll (insertAll_singleton hs')]
      exact h.registered e he
    · rcases get?_or_mem_of_insertAll (insertAll_singleton hs') hu with hold | hnew
      · exact h.other key u hold hfree
      · refine Or.inr ⟨?_, hnone⟩
        rw [← key_of_get? hu, List.mem_singleton.mp hnew, Table.key_arranged]
        rfl

theorem storeDescriptor (h : s.IncludedIn c m added s') {e : Entity} (he : e ∈ m.entities)
    (hs : storeDescriptor c m s e = .ok t) (hs' : Tabular.storeDescriptor c m' s' e = .ok t') :
    t.IncludedIn c m added t' := by
  refine h.storeMain_bind hm he ((h.servedBy hm hproject).descriptorTable he) (fun set hset => ?_)
    hs hs'
  exact ⟨TableContext.belongsTo_of_descriptorTable hset,
    TableContext.wellLinked_of_descriptorTable hset⟩

omit hproject in
theorem storeDescriptor_right (h : s.IncludedIn c m added s') {e : Entity} (he : e ∈ added)
    (hs' : Tabular.storeDescriptor c m' s' e = .ok t') : s.IncludedIn c m added t' := by
  obtain ⟨set, hset, hs'⟩ := bind_eq_ok_iff.mp hs'
  exact h.storeMain_right hm he (TableContext.belongsTo_of_descriptorTable hset)
    (TableContext.wellLinked_of_descriptorTable hset) hs'

theorem descriptorTables (h : s.IncludedIn c m added s') (hs : descriptorTables c m s = .ok t)
    (hs' : Tabular.descriptorTables c m' s' = .ok t') :
    t.IncludedIn c m added t' ∨ t.Adopts c m added t' := by
  -- without descriptors in the model, only the larger run may have work to do
  by_cases hnone : m.ofKind .descriptor = []
  · rw [descriptorTables_eq, if_pos hnone, Except.ok.injEq] at hs
    subst hs
    rw [descriptorTables_eq] at hs'
    split_ifs at hs'
    · exact Or.inl (Except.ok.inj hs' ▸ h)
    · obtain ⟨mid, hmid, hs'⟩ := bind_eq_ok_iff.mp hs'
      rw [hm.ofKind, hnone, List.nil_append] at hs'
      exact Or.inl (foldlM_ok_induction (IncludedIn c m added s)
        (fun u e u' he hu hstep => hu.storeDescriptor_right hm (List.mem_filter.mp he).1 hstep)
        (h.storeBaseDescriptor_right hnone hmid) hs')
  · have hnone' : m'.ofKind .descriptor ≠ [] := by simp [hm.ofKind, hnone]
    rw [descriptorTables_eq, if_neg hnone] at hs
    rw [descriptorTables_eq, if_neg hnone'] at hs'
    obtain ⟨mid, hmid, hs⟩ := bind_eq_ok_iff.mp hs
    obtain ⟨mid', hmid', hs'⟩ := bind_eq_ok_iff.mp hs'
    rcases h.storeBaseDescriptor hproject hnone hmid hmid' with hmids | hadopts
    · rw [hm.ofKind] at hs'
      refine Or.inl (foldlM (fun s s' e t t' he h hs hs' => ?_) (fun s s' e t' he h hs' => ?_) hmids
        hs hs')
      · exact h.storeDescriptor hm hproject (List.mem_filter.mp he).1 hs hs'
      · exact h.storeDescriptor_right hm (List.mem_filter.mp he).1 hs'
    · exact Or.inr (hadopts.reaches (reaches_of_foldlM (fun _ _ _ he h => .descriptor he h) hs)
        (reaches_of_foldlM (fun _ _ _ he h => .descriptor he h) hs'))

omit hm in
theorem storeSchoolYear (h : s.IncludedIn c m added s') {e : Entity}
    (he : e ∈ m.ofKind .schoolYearEnumeration) (hid : e.id < m.entities.length)
    (hs : storeSchoolYear c s e = .ok t) (hs' : Tabular.storeSchoolYear c s' e = .ok t') :
    t.IncludedIn c m added t' ∨ t.Adopts c m added t' := by
  have hshared : c.IsShared m ⟨e.namespaceName, TableNaming.schoolYearTable⟩ := Or.inr ⟨e, he, rfl⟩
  unfold Tabular.storeSchoolYear at hs hs'
  cases hget : s.table? e.namespaceName TableNaming.schoolYearTable with
  | some u =>
    have hget' : s'.table? e.namespaceName TableNaming.schoolYearTable = some u :=
      h.tables _ u hget
    simp only [hget, hget', Except.ok.injEq] at hs hs'
    exact Or.inl (hs ▸ hs' ▸ h.setEntityTable e.id u.key)
  | none =>
    simp only [hget] at hs
    cases hget' : s'.table? e.namespaceName TableNaming.schoolYearTable with
    | none =>
      simp only [hget'] at hs'
      exact Or.inl (h.storeMain (TableSet.belongsTo_push rfl rfl rfl) hid (.of_links_eq_nil rfl)
        hs hs')
    | some u =>
      simp only [hget', Except.ok.injEq] at hs'
      obtain ⟨hearly, howner⟩ := h.exists_added_of_isShared hproject hshared hget hget'
      obtain ⟨w, hw, hkeys⟩ := TableSet.exists_get?_of_storeMain_push hs
      have hnone : w.foreignKeys = [] := hkeys
      refine Or.inr ⟨_, w, u, hshared, hw, hs' ▸ hget', ?_, hearly, howner⟩
      simp [hnone]

theorem schoolYearTables (h : s.IncludedIn c m added s') (hs : schoolYearTables c m s = .ok t)
    (hs' : Tabular.schoolYearTables c m' s' = .ok t') :
    t.IncludedIn c m added t' ∨ t.Adopts c m added t' := by
  have hsame : m'.ofKind .schoolYearEnumeration = m.ofKind .schoolYearEnumeration := by
    have hnone : (added.filter fun e => e.kind = .schoolYearEnumeration) = [] :=
      List.filter_eq_nil_iff.mpr fun e he => by simpa using hproject.schoolYears e he
    rw [hm.ofKind, hnone, List.append_nil]
  rw [Tabular.schoolYearTables, hsame] at hs'
  refine foldlM_ok_induction₂ (fun s s' => s.IncludedIn c m added s' ∨ s.Adopts c m added s')
    (fun s s' e t t' he h hs hs' => ?_) (Or.inl h) hs hs'
  rcases h with h | h
  · exact h.storeSchoolYear hproject he (hm.id_lt (List.mem_filter.mp he).1) hs hs'
  · exact Or.inr (h.reaches (.single (.schoolYear he hs)) (.single (.schoolYear (hsame ▸ he) hs')))

/-! ### Passes -/

/-- A pass keeps the relation, unless it takes a table of an added entity for a shared table. -/
theorem schemaAfter {info info' : CascadeInfo} (p : Pass) (h : s.IncludedIn c m added s')
    (hinfo : info.AgreesBelow m.entities.length info') (hnodup : (s.inserted.map Table.key).Nodup)
    (hnodup' : (s'.inserted.map Table.key).Nodup) (hs : p.schemaAfter c m info s = .ok t)
    (hs' : p.schemaAfter c m' info' s' = .ok t') :
    t.IncludedIn c m added t' ∨ t.Adopts c m added t' := by
  cases p with
  | entityTables => exact Or.inl (h.mainTables hm hproject hs hs')
  | descriptorTables => exact h.descriptorTables hm hproject hs hs'
  | mapTypeTables => exact Or.inl (h.mapTypeTables hm hproject hs hs')
  | enumerationTables => exact Or.inl (h.enumerationTables hm hs hs')
  | schoolYearTables => exact h.schoolYearTables hm hproject hs hs'
  | subclassTables => exact Or.inl (h.subclassTables hm hproject hs hs')
  | extensionTables => exact Or.inl (h.extensionTables hm hproject hs hs')
  | updateCascade =>
    rw [Pass.schemaAfter, Except.ok.injEq] at hs hs'
    exact Or.inl (hs ▸ hs' ▸ h)
  | foreignKeys => exact Or.inl (h.referenceKeys hm hinfo hnodup hnodup' hs hs')

end Passes

end Schema.IncludedIn

/-! ### Runs -/

/-- What two runs, on a model and on a larger one, have produced so far. -/
structure Progress.Alongside (c : Config) (m : Model) (added : List Entity) (m' : Model)
    (progress progress' : Progress) : Prop where
  left : Reaches c m .empty progress.schema
  right : Reaches c m' .empty progress'.schema
  schemas : progress.schema.IncludedIn c m added progress'.schema ∨
    progress.schema.Adopts c m added progress'.schema
  cascade : progress.cascade.AgreesBelow m.entities.length progress'.cascade

namespace Progress.Alongside

variable {progress progress' next next' : Progress}

theorem start : Alongside c m added m' .start .start where
  left := .refl
  right := .refl
  schemas := Or.inl .empty
  cascade _ _ _ _ := rfl

section

variable (hm : m.ExtendedBy added m') (hproject : c.IsProject m added)

include hm

theorem cascadeAfter {p : Pass} {info info' after after' : CascadeInfo}
    (hinfo : info.AgreesBelow m.entities.length info') (hs : p.cascadeAfter m info = .ok after)
    (hs' : p.cascadeAfter m' info' = .ok after') :
    after.AgreesBelow m.entities.length after' := by
  by_cases hp : p = .updateCascade
  · subst hp
    simp only [Pass.cascadeAfter, bind_eq_ok_iff, pure_eq_ok_iff] at hs hs'
    obtain ⟨g, hg, rfl⟩ := hs
    obtain ⟨g', hg', rfl⟩ := hs'
    exact hm.agreesBelow hg hg'
  · have hsame (m : Model) (info : CascadeInfo) : p.cascadeAfter m info = .ok info := by
      cases p <;> first | rfl | exact absurd rfl hp
    rw [hsame, Except.ok.injEq] at hs hs'
    exact hs ▸ hs' ▸ hinfo

include hproject

theorem run {p : Pass} {outcome outcome' : PassOutcome}
    (h : Alongside c m added m' progress progress') (hs : p.run c m progress = .ok (next, outcome))
    (hs' : p.run c m' progress' = .ok (next', outcome')) : Alongside c m added m' next next' := by
  have hreaches := reaches_of_run hs
  have hreaches' := reaches_of_run hs'
  unfold Pass.run at hs hs'
  split_ifs at hs hs'
  · simp only [Pass.advance, bind_eq_ok_iff, pure_eq_ok_iff, Prod.mk.injEq] at hs hs'
    obtain ⟨_, ⟨schema, hschema, cascade, hcascade, rfl⟩, rfl, -⟩ := hs
    obtain ⟨_, ⟨schema', hschema', cascade', hcascade', rfl⟩, rfl, -⟩ := hs'
    refine ⟨h.left.trans hreaches, h.right.trans hreaches', ?_,
      cascadeAfter hm h.cascade hcascade hcascade'⟩
    rcases h.schemas with hschemas | hadopts
    · exact hschemas.schemaAfter hm hproject p h.cascade h.left.nodup_addresses
        h.right.nodup_addresses hschema hschema'
    · exact Or.inr (hadopts.reaches hreaches hreaches')
  · simp only [Except.ok.injEq, Prod.mk.injEq] at hs hs'
    exact hs.1 ▸ hs'.1 ▸ h

theorem runPasses {stage : Stage} {passes : List Pass} {outcomes outcomes' : List PassOutcome}
    (h : Alongside c m added m' progress progress')
    (hs : runPasses c m stage passes progress = .ok (next, outcomes))
    (hs' : Tabular.runPasses c m' stage passes progress' = .ok (next', outcomes')) :
    Alongside c m added m' next next' := by
  induction passes generalizing progress progress' outcomes outcomes' with
  | nil =>
    simp only [Tabular.runPasses, Except.ok.injEq, Prod.mk.injEq] at hs hs'
    exact hs.1 ▸ hs'.1 ▸ h
  | cons p rest ih =>
    simp only [Tabular.runPasses, bind_eq_ok_iff, pure_eq_ok_iff, Prod.mk.injEq,
      Prod.exists] at hs hs'
    obtain ⟨mid, _, hmid, _, _, hs, rfl, -⟩ := hs
    obtain ⟨mid', _, hmid', _, _, hs', rfl, -⟩ := hs'
    exact ih (h.run hm hproject (mapError_eq_ok_iff.mp hmid) (mapError_eq_ok_iff.mp hmid')) hs hs'

theorem runStages {stages : List Stage} {reports reports' : List StageReport}
    (h : Alongside c m added m' progress progress')
    (hs : runStages c m stages progress = .ok (next, reports))
    (hs' : Tabular.runStages c m' stages progress' = .ok (next', reports')) :
    Alongside c m added m' next next' := by
  induction stages generalizing progress progress' reports reports' with
  | nil =>
    simp only [Tabular.runStages, Except.ok.injEq, Prod.mk.injEq] at hs hs'
    exact hs.1 ▸ hs'.1 ▸ h
  | cons stage rest ih =>
    simp only [Tabular.runStages, bind_eq_ok_iff, pure_eq_ok_iff, Prod.mk.injEq,
      Prod.exists] at hs hs'
    obtain ⟨mid, _, hmid, _, _, hs, rfl, -⟩ := hs
    obtain ⟨mid', _, hmid', _, _, hs', rfl, -⟩ := hs'
    exact ih (h.runPasses hm hproject hmid hmid') hs hs'

end

end Progress.Alongside

/-- The tables have the same columns, foreign keys, parent keys and references. -/
structure Table.SameContents (t t' : Table) : Prop where
  columns : t'.columns = t.columns
  foreignKeys : t'.foreignKeys = t.foreignKeys
  parentKeyColumnIds : t'.parentKeyColumnIds = t.parentKeyColumnIds
  referenceSources : t'.referenceSources = t.referenceSources

/-- Let another project add entities to a model. If both runs succeed, then every table of the model
is in the larger schema under the same address and with the same contents, exactly if no table of
the larger schema at the address of a shared table of the model belongs to an added entity. -/
theorem sameContents_of_project_iff (c : Config) {m m' : Model} {added : List Entity}
    (hm : m.ExtendedBy added m') (hproject : c.IsProject m added) {r r' : Report}
    (h : derive c m = .ok r) (h' : derive c m' = .ok r') :
    (∀ t ∈ r.schema.tables, ∃ t', r'.schema.get? t.key = some t' ∧ t.SameContents t') ↔
      ∀ key, c.IsShared m key →
        ∀ t t', r.schema.get? key = some t → r'.schema.get? key = some t' →
          ∀ id, t'.parentEntity = some id → id < m.entities.length := by
  obtain ⟨progress, hstages, hschema⟩ := runStages_of_derive h
  obtain ⟨progress', hstages', hschema'⟩ := runStages_of_derive h'
  have hruns := Progress.Alongside.start.runStages hm hproject hstages hstages'
  rw [hschema, hschema']
  have hget : ∀ t ∈ progress.schema.tables, progress.schema.get? t.key = some t := fun t ht =>
    Schema.get?_of_mem hruns.left.nodup_addresses (Schema.mem_tables_iff.mp ht)
  rcases hruns.schemas with hincluded | ⟨key, u, u', hshared, hu, hu', hlate, ⟨k, hk, hearly⟩, e,
    he, howner⟩
  · refine iff_of_true (fun t ht => ?_) fun key _ t t' ht ht' id hid => ?_
    · exact ⟨t, hincluded.tables _ t (hget t ht), rfl, rfl, rfl, rfl⟩
    · obtain rfl : t = t' := Option.some.inj ((hincluded.tables key t ht).symm.trans ht')
      exact hincluded.owned key t ht id hid
  · refine iff_of_false (fun hsame => ?_) fun howned => ?_
    · have hkey : u.key = key := Schema.key_of_get? hu
      obtain ⟨w, hw, hcontents⟩ := hsame u (Schema.mem_tables_iff.mpr (Schema.mem_of_get? hu))
      obtain rfl : u' = w := Option.some.inj (hu'.symm.trans (hkey ▸ hw))
      rw [hcontents.foreignKeys] at hk
      simp [hlate k hk] at hearly
    · exact Nat.not_lt.mpr (hm.le_id he) (howned key hshared u u' hu hu' e.id howner)

namespace Calendars

/-- School years, and calendars of several types. -/
def model : Model :=
  (Model.empty.addEntity (Entity.ofKind .schoolYearEnumeration "EdFi" "SchoolYear")).addEntity
    ((Entity.ofKind .common "EdFi" "Calendar").withProperty
      (Property.ofKind "Type" (.scalar .integer)).requiredCollection)

/-- What another project adds: places of some kind, which extend the calendars, and their years. -/
def places (kind : String) : List Entity :=
  [{ (Entity.ofKind .domainEntity "Sample" (kind ++ "Year")).withProperty
      (Property.ofKind (kind ++ "YearId") (.scalar .integer)).identity with id := 2 },
    { ((Entity.ofKind .domainEntity "Sample" kind).withProperty
      (Property.ofKind (kind ++ "Id") (.scalar .integer)).identity).withProperty
        { Property.ofKind "Year" .common with
          referencedEntity := some 1
          isExtensionOverride := true } with id := 3 }]

def extended (kind : String) : Model :=
  (places kind).foldl Model.addEntity model

/-- The version of the platform for the runs. -/
def config : Config :=
  { Config.standard with targetVersion := ⟨6, 1, 0⟩ }

theorem extendedBy (kind : String) : model.ExtendedBy (places kind) (extended kind) where
  entities := rfl
  indexed := rfl
  linked := by decide

theorem isProject (kind : String) : config.IsProject model (places kind) where
  core := by simp [places, config, Config.standard, Entity.ofKind, Entity.withProperty]
  namespaces := by
    simp [places, model, Model.addEntity, Model.empty, Entity.ofKind, Entity.withProperty]
  schoolYears := by simp [places, Entity.ofKind, Entity.withProperty]
  mapTypes := by simp [places, Entity.ofKind, Entity.withProperty]

/-- The table of the school years is the only shared one. -/
theorem eq_of_isShared {key : TableKey} (h : config.IsShared model key) :
    key = ⟨"EdFi", TableNaming.schoolYearTable⟩ := by
  have hplace : ∀ e ∈ model.ofKind .schoolYearEnumeration, e.namespaceName = "EdFi" := by decide
  rcases h with ⟨-, hsome⟩ | ⟨e, he, rfl⟩
  · exact absurd rfl hsome
  · rw [hplace e he]

end Calendars

/-- Offices with calendars leave the school years as they are. Schools with calendars get a table
for the types of their years that is taken for the table of the school years. -/
theorem sameContents_of_project_iff_calendars :
    ∃ r offices schools, derive Calendars.config Calendars.model = .ok r ∧
      derive Calendars.config (Calendars.extended "Office") = .ok offices ∧
      derive Calendars.config (Calendars.extended "School") = .ok schools ∧
      (∀ t ∈ r.schema.tables, ∃ t', offices.schema.get? t.key = some t' ∧ t.SameContents t') ∧
      ¬∀ t ∈ r.schema.tables, ∃ t', schools.schema.get? t.key = some t' ∧ t.SameContents t' := by
  have hrun : (derive Calendars.config Calendars.model).toOption.any (fun r =>
      (r.schema.get? ⟨"EdFi", TableNaming.schoolYearTable⟩).isSome) = true := by decide +kernel
  have hoffices : (derive Calendars.config (Calendars.extended "Office")).toOption.any (fun r =>
      (r.schema.get? ⟨"EdFi", TableNaming.schoolYearTable⟩).any
        fun t => t.parentEntity = some 0) = true := by decide +kernel
  have hschools : (derive Calendars.config (Calendars.extended "School")).toOption.any (fun r =>
      (r.schema.get? ⟨"EdFi", TableNaming.schoolYearTable⟩).any
        fun t => t.parentEntity = some 3) = true := by decide +kernel
  obtain ⟨r, hr, hyears⟩ := exists_eq_ok_of_any hrun
  obtain ⟨offices, ho, howner⟩ := exists_eq_ok_of_any hoffices
  obtain ⟨schools, hs, hadopted⟩ := exists_eq_ok_of_any hschools
  refine ⟨r, offices, schools, hr, ho, hs, ?_, fun hsame => ?_⟩
  · refine (sameContents_of_project_iff _ (Calendars.extendedBy "Office")
      (Calendars.isProject "Office") hr ho).mpr fun key hkey t t' _ ht' id hid => ?_
    rw [Calendars.eq_of_isShared hkey] at ht'
    simp only [ht', Option.any_some, decide_eq_true_eq] at howner
    obtain rfl : 0 = id := Option.some.inj (howner.symm.trans hid)
    decide
  · obtain ⟨t, ht⟩ := Option.isSome_iff_exists.mp hyears
    obtain ⟨t', ht', hid⟩ := (Option.any_eq_true _ _).mp hadopted
    have hshared :
        Calendars.config.IsShared Calendars.model ⟨"EdFi", TableNaming.schoolYearTable⟩ :=
      Or.inr (by decide)
    have howned := (sameContents_of_project_iff _ (Calendars.extendedBy "School")
      (Calendars.isProject "School") hr hs).mp hsame _ hshared t t' ht ht' 3 (by simpa using hid)
    exact absurd howned (by decide)

end Tabular
