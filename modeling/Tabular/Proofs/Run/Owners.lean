import Mathlib.Tactic.Common
import Tabular.Proofs.Run.ForeignKeyOrder
import Tabular.Proofs.Run.Origins
import Tabular.Proofs.Schema.KeyColumns

/-!
# Owners of tables

All tables that are built for an entity belong to it. The first of them is in the namespace of the
entity. Every other one hangs off a table, wherever its namespace is, and so it has a foreign key
when it enters the schema. Only references and map types add foreign keys later.

## Main definitions

* `ForeignKeyReason.isLate`: foreign keys that tables of the schema receive.
* `TableSet.Settled`: what building may do to the tables, links and owners of a set.
* `TableSet.BelongsTo`, `Table.IsFrom`: sets and committed tables that were built for an entity.
* `Table.Later`: what becomes of a table in the schema.
* `Table.ChangedTo`: what a step can make of a table of the schema.

## Main results

* `TableContext.Built.settled`: building does nothing else.
* `TableContext.belongsTo_of_mainTable`, `TableContext.belongsTo_of_descriptorTable`,
  `TableContext.belongsTo_of_subclassTable`, `TableContext.belongsTo_of_extensionTable`: the tables
  of whole entities.
* `TableSet.BelongsTo.isFrom_of_finish`: the tables that a commit adds.
* `DerivationStep.exists_changedTo`: a step changes tables of the schema in no other way.
* `DerivationStep.exists_later`, `Reaches.exists_later`: tables live on through a run.
-/

namespace Tabular

/-- A foreign key of this reason is added to a table that is in the schema already. -/
def ForeignKeyReason.isLate : ForeignKeyReason → Bool
  | reference | mapType => true
  | lookup | collection | common | commonExtension | subclass | extension | descriptorBase => false

/-! ### What building may do to a set -/

namespace TableSet

/-- What building may do to a set: the tables that are there keep their addresses and owners, and
every new table belongs to the entity of the set and hangs off a table or is not kept. -/
structure Settled (set next : TableSet) : Prop where
  rootEntity : next.rootEntity = set.rootEntity
  kept : ∀ i t, set.get? i = some t →
    ∃ t', next.get? i = some t' ∧ t'.key = t.key ∧ t'.parentEntity = t.parentEntity
  discarded : ∀ i ∈ set.discarded, i ∈ next.discarded
  link : ∀ l ∈ set.links, l.child < set.next → l ∈ next.links
  reason : ∀ l ∈ next.links, l ∈ set.links ∨ l.reason.isLate = false
  fresh : ∀ i t, set.next ≤ i → next.get? i = some t → t.parentEntity = some set.rootEntity ∧
    (i ∈ next.discarded ∨ ∃ l ∈ next.links, l.child = i)

variable {set mid next : TableSet} {t : Table} {r : ForeignKeyReason}

namespace Settled

theorem refl (set : TableSet) : set.Settled set where
  rootEntity := rfl
  kept _ t ht := ⟨t, ht, rfl, rfl⟩
  discarded _ hi := hi
  link _ hl _ := hl
  reason _ hl := Or.inl hl
  fresh _ _ hi ht := absurd (lt_next_of_get? ht) (Nat.not_lt.mpr hi)

theorem trans (h : set.Settled mid) (h' : mid.Settled next) : set.Settled next where
  rootEntity := h'.rootEntity.trans h.rootEntity
  kept i t ht := by
    obtain ⟨t', ht', hkey, howner⟩ := h.kept i t ht
    obtain ⟨t'', ht'', hkey', howner'⟩ := h'.kept i t' ht'
    exact ⟨t'', ht'', hkey'.trans hkey, howner'.trans howner⟩
  discarded i hi := h'.discarded i (h.discarded i hi)
  link l hl hchild := by
    have hmid := h.link l hl hchild
    obtain ⟨t, ht⟩ : ∃ t, set.get? l.child = some t := ⟨_, List.getElem?_eq_getElem hchild⟩
    obtain ⟨t', ht', -⟩ := h.kept _ t ht
    exact h'.link l hmid (lt_next_of_get? ht')
  reason l hl := by
    rcases h'.reason l hl with hl | hr
    · exact h.reason l hl
    · exact Or.inr hr
  fresh i t hi ht := by
    rcases Nat.lt_or_ge i mid.next with hlt | hge
    · obtain ⟨u, hu⟩ : ∃ u, mid.get? i = some u := ⟨_, List.getElem?_eq_getElem hlt⟩
      obtain ⟨howner, hplace⟩ := h.fresh i u hi hu
      obtain ⟨t', ht', -, howner'⟩ := h'.kept i u hu
      obtain rfl : t' = t := Option.some.inj (ht'.symm.trans ht)
      refine ⟨howner'.trans howner, ?_⟩
      rcases hplace with hdiscarded | ⟨l, hl, rfl⟩
      · exact Or.inl (h'.discarded i hdiscarded)
      · exact Or.inr ⟨l, h'.link l hl hlt, rfl⟩
    · rw [← h.rootEntity]
      exact h'.fresh i t hge ht

/-- A change of a table that concerns neither its address nor its owner. -/
theorem modify (h : set.Settled next) (j : Nat) {f : Table → Table}
    (hf : ∀ t, (f t).key = t.key ∧ (f t).parentEntity = t.parentEntity) :
    set.Settled (next.modify j f) := by
  have hget (i : Nat) (t : Table) (ht : next.get? i = some t) :
      ∃ t', (next.modify j f).get? i = some t' ∧ t'.key = t.key ∧
        t'.parentEntity = t.parentEntity := by
    by_cases hij : i = j
    · subst hij
      exact ⟨f t, get?_modify_self f ht, hf t⟩
    · exact ⟨t, (get?_modify_of_ne f hij).trans ht, rfl, rfl⟩
  refine ⟨h.rootEntity, fun i t ht => ?_, h.discarded, h.link, h.reason, fun i t hi ht => ?_⟩
  · obtain ⟨u, hu, hkey, howner⟩ := h.kept i t ht
    obtain ⟨t', ht', hkey', howner'⟩ := hget i u hu
    exact ⟨t', ht', hkey'.trans hkey, howner'.trans howner⟩
  · have hlt : i < next.next := by simpa using lt_next_of_get? ht
    obtain ⟨u, hu⟩ : ∃ u, next.get? i = some u := ⟨_, List.getElem?_eq_getElem hlt⟩
    obtain ⟨howner, hplace⟩ := h.fresh i u hi hu
    obtain ⟨t', ht', -, howner'⟩ := hget i u hu
    obtain rfl : t' = t := Option.some.inj (ht'.symm.trans ht)
    exact ⟨howner'.trans howner, hplace⟩

/-- What has become of a table without owner that was added to the set. -/
private theorem owner_of_push (h : (set.push t).Settled mid) (howner : t.parentEntity = none)
    {u : Table} (hu : mid.get? set.next = some u) : u.parentEntity = some set.rootEntity := by
  have hpush : (set.push t).get? set.next =
      some { t with parentEntity := some (t.parentEntity.getD set.rootEntity) } := by
    simp [get?, push, next]
  obtain ⟨u', hu', -, howner'⟩ := h.kept _ _ hpush
  obtain rfl : u' = u := Option.some.inj (hu'.symm.trans hu)
  rw [howner', howner, Option.getD_none]

/-- A new table that hangs off another one in the end. -/
theorem hang (h : (set.push t).Settled mid) (howner : t.parentEntity = none) (target : LinkTarget)
    (hr : r.isLate = false) : set.Settled (mid.link set.next target r) where
  rootEntity := h.rootEntity
  kept i u hu := h.kept i u (get?_push hu)
  discarded := h.discarded
  link l hl hchild := List.mem_append_left _ (h.link l hl (by rw [next_push]; omega))
  reason l hl := by
    rcases List.mem_append.mp hl with hl | hl
    · exact h.reason l hl
    · rw [List.mem_singleton.mp hl]
      exact Or.inr hr
  fresh i u hi hu := by
    rcases Nat.eq_or_lt_of_le hi with rfl | hlt
    · exact ⟨h.owner_of_push howner hu,
        Or.inr ⟨_, List.mem_append_right _ (List.mem_singleton_self _), rfl⟩⟩
    · obtain ⟨hroot, hplace⟩ := h.fresh i u (by rw [next_push]; omega) hu
      refine ⟨hroot, hplace.imp_right ?_⟩
      rintro ⟨l, hl, hchild⟩
      exact ⟨l, List.mem_append_left _ hl, hchild⟩

/-- A new table that is not kept in the end. -/
theorem drop (h : (set.push t).Settled mid) (howner : t.parentEntity = none) :
    set.Settled (mid.discard set.next) where
  rootEntity := h.rootEntity
  kept i u hu := h.kept i u (get?_push hu)
  discarded i hi := (mem_discarded_discard mid).mpr (Or.inr (h.discarded i hi))
  link l hl hchild := by
    refine List.mem_filter.mpr ⟨h.link l hl (by rw [next_push]; omega), ?_⟩
    simpa using Nat.ne_of_lt hchild
  reason l hl := h.reason l (List.mem_filter.mp hl).1
  fresh i u hi hu := by
    rcases Nat.eq_or_lt_of_le hi with rfl | hlt
    · exact ⟨h.owner_of_push howner hu, Or.inl ((mem_discarded_discard mid).mpr (Or.inl rfl))⟩
    · obtain ⟨hroot, hplace⟩ := h.fresh i u (by rw [next_push]; omega) hu
      refine ⟨hroot, ?_⟩
      rcases hplace with hdiscarded | ⟨l, hl, rfl⟩
      · exact Or.inl ((mem_discarded_discard mid).mpr (Or.inr hdiscarded))
      · refine Or.inr ⟨l, List.mem_filter.mpr ⟨hl, ?_⟩, rfl⟩
        simpa using Nat.ne_of_gt hlt

theorem linkOrDiscard (h : (set.push t).Settled mid) (howner : t.parentEntity = none)
    (key : TableKey) (hr : r.isLate = false) :
    set.Settled (TableContext.linkOrDiscard set.next key r mid) := by
  unfold TableContext.linkOrDiscard
  split_ifs
  · exact h.hang howner _ hr
  · exact h.drop howner

end Settled

end TableSet

namespace TableContext

variable {ctx : TableContext} {ds : List Declaration} {scope : Scope} {s : Strategy}
  {set next : TableSet}

/-! ### Building -/

private theorem parentEntity_collectionJoin (ctx : TableContext) (d : Declaration) (scope : Scope)
    (s : Strategy) (lookup : Option LookupTarget) (columns : List Column) :
    (ctx.collectionJoin d scope s lookup columns).parentEntity = none := by
  unfold collectionJoin
  split <;> simp [joinTable, Table.ofReason]

private theorem parentEntity_commonJoin (ctx : TableContext) (d : Declaration) (common : Entity)
    (scope : Scope) (s : Strategy) : (ctx.commonJoin d common scope s).parentEntity = none := by
  simp only [commonJoin]
  split_ifs <;> simp [joinTable, Table.ofReason]

/-- Building does to a set nothing but what `TableSet.Settled` allows. -/
theorem Built.settled (h : ctx.Built ds scope s set next) : set.Settled next := by
  induction h with
  | nil => exact .refl _
  | cons _ _ ihhead ihtail => exact ihhead.trans ihtail
  | column => exact (TableSet.Settled.refl _).modify _ (by simp)
  | lookup => exact ((TableSet.Settled.refl _).modify _ (by simp)).modify _ (by simp)
  | lookupSkipped => exact .refl _
  | collection =>
    exact (TableSet.Settled.refl _).hang (parentEntity_collectionJoin ..) _ rfl
  | reference => exact ((TableSet.Settled.refl _).modify _ (by simp)).modify _ (by simp)
  | referenceSkipped => exact .refl _
  | referenceCollection =>
    exact (TableSet.Settled.refl _).hang (by simp [referenceJoin, joinTable, Table.ofReason]) _ rfl
  | @common d scope s set mid common _ _ _ _ _ ih =>
    have hclosed : (set.push (ctx.commonJoin d common scope s)).Settled
        (ctx.commonClosed scope set.next mid) := by
      unfold commonClosed
      split_ifs
      · exact ih
      · exact ih.modify _ (by simp)
    exact hclosed.hang (ctx.parentEntity_commonJoin d common scope s) _ rfl
  | commonExtension _ _ _ _ ih =>
    exact ih.linkOrDiscard (by simp [suffixedTable, Table.ofReason]) _ rfl
  | choice _ _ _ ih => exact ih
  | inlineCommon _ _ _ ih => exact ih

/-- Building makes no foreign keys but those to lookup tables. -/
theorem preserves_reason (ctx : TableContext) {P : ForeignKeyReason → Prop} (hlookup : P .lookup) :
    ctx.Preserves fun t => ∀ k ∈ t.foreignKeys, P k.reason where
  fresh t _ hkeys _ _ := by simp [hkeys]
  columns t cs ht := by simpa using ht
  parentKeys t cs ht := by simpa using ht
  lookup t target column property ht k hk := by
    rcases Table.mem_foreignKeys_addForeignKey hk with hk | rfl
    · exact ht k hk
    · exact hlookup
  source t r ht := by simpa using ht
  owner t e ht := ht

theorem preserves_isLate (ctx : TableContext) :
    ctx.Preserves fun t => ∀ k ∈ t.foreignKeys, k.reason.isLate = false :=
  ctx.preserves_reason (P := fun r => r.isLate = false) rfl

end TableContext

/-! ### Sets and tables of an entity -/

/-- The set was built for the entity of the given position and namespace. -/
structure TableSet.BelongsTo (id : EntityId) (namespaceName : String) (set : TableSet) : Prop where
  owner : ∀ t ∈ set.tables, t.parentEntity = some id
  placed : ∀ i t, set.get? i = some t → i ∉ set.discarded →
    t.namespaceName = namespaceName ∨ ∃ l ∈ set.links, l.child = i
  links : ∀ l ∈ set.links, l.reason.isLate = false
  keys : ∀ t ∈ set.tables, ∀ k ∈ t.foreignKeys, k.reason.isLate = false

/-- The table was built for the entity of the given position and namespace: it is in this namespace,
or it has entered the schema with a foreign key. -/
structure Table.IsFrom (id : EntityId) (namespaceName : String) (t : Table) : Prop where
  owner : t.parentEntity = some id
  placed : t.namespaceName = namespaceName ∨ ∃ k ∈ t.foreignKeys, k.reason.isLate = false

namespace TableSet

variable {id : EntityId} {namespaceName : String} {set next : TableSet} {start : Table}

/-- What building makes of a single table in the namespace of the entity. -/
theorem Settled.belongsTo (h : ((TableSet.empty id).push start).Settled next)
    (howner : start.parentEntity = none ∨ start.parentEntity = some id)
    (hnamespace : start.namespaceName = namespaceName)
    (hkeys : ∀ t ∈ next.tables, ∀ k ∈ t.foreignKeys, k.reason.isLate = false) :
    next.BelongsTo id namespaceName := by
  have hfirst : ∀ t, next.get? 0 = some t →
      t.parentEntity = some id ∧ t.namespaceName = namespaceName := by
    intro t ht
    obtain ⟨t', ht', hkey, howner'⟩ := h.kept 0 _ rfl
    obtain rfl : t' = t := Option.some.inj (ht'.symm.trans ht)
    refine ⟨howner'.trans ?_, (congrArg TableKey.namespaceName hkey).trans hnamespace⟩
    rcases howner with howner | howner <;> simp [howner, TableSet.empty]
  have hlater : ∀ i t, next.get? (i + 1) = some t → t.parentEntity = some id ∧
      (i + 1 ∈ next.discarded ∨ ∃ l ∈ next.links, l.child = i + 1) :=
    fun i t ht => h.fresh (i + 1) t (Nat.succ_le_succ (Nat.zero_le i)) ht
  refine ⟨fun t ht => ?_, fun i t ht hkept => ?_, fun l hl => ?_, hkeys⟩
  · obtain ⟨i, hi⟩ := List.mem_iff_getElem?.mp ht
    cases i with
    | zero => exact (hfirst t hi).1
    | succ i => exact (hlater i t hi).1
  · cases i with
    | zero => exact Or.inl (hfirst t ht).2
    | succ i => exact Or.inr ((hlater i t ht).2.resolve_left hkept)
  · exact (h.reason l hl).resolve_left (by simp [TableSet.empty])

/-- A single table without foreign keys. -/
theorem belongsTo_push (howner : start.parentEntity = none)
    (hnamespace : start.namespaceName = namespaceName) (hkeys : start.foreignKeys = []) :
    ((TableSet.empty id).push start).BelongsTo id namespaceName := by
  refine (Settled.refl _).belongsTo (Or.inl howner) hnamespace ?_
  refine forall_tables_push (by simp [TableSet.empty]) fun _ => ?_
  simp [hkeys]

/-- The finished tables of a set that are kept were built for the entity of the set. -/
theorem BelongsTo.isFrom_of_finish {v : Version} {s : Schema} {tables : List Table}
    (hset : set.BelongsTo id namespaceName) (hlinked : set.WellLinked s)
    (h : set.finish v s = .ok tables) : ∀ t ∈ set.kept tables, t.IsFrom id namespaceName := by
  intro t ht
  obtain ⟨hlen, hfinished⟩ := finishedFrom_of_finish hlinked h
  obtain ⟨i, hi, hkept⟩ := mem_kept_iff.mp ht
  have hlt : i < set.tables.length := Nat.lt_of_lt_of_eq (List.getElem?_eq_some_iff.mp hi).1 hlen
  have hu := List.getElem?_eq_getElem hlt
  obtain ⟨t', ht', hfrom⟩ := hfinished i _ hkept hu
  obtain rfl : t' = t := Option.some.inj (ht'.symm.trans hi)
  have hmem : set.tables[i] ∈ set.tables := List.getElem_mem hlt
  cases hfrom with
  | unlinked hlink =>
    refine ⟨by simpa using hset.owner _ hmem, Or.inl ?_⟩
    rcases hset.placed i _ hu hkept with hplace | ⟨l, hl, hchild⟩
    · have hkey := Table.key_arranged v set.tables[i]
      exact (congrArg TableKey.namespaceName hkey).trans hplace
    · simpa [hchild] using List.find?_eq_none.mp hlink l hl
  | @linked l parent hlink hparent =>
    refine ⟨by simpa using hset.owner _ hmem, Or.inr ?_⟩
    -- the key to the parent may give way to one of the same identifier, made while building
    obtain ⟨k, hk, -⟩ := Table.exists_id_addForeignKey
      (arranged v { set.tables[i] with parentKeyColumnIds := parent.primaryKeyIds })
      (parentKey (arranged v { set.tables[i] with parentKeyColumnIds := parent.primaryKeyIds })
        parent l.reason)
    refine ⟨k, hk, ?_⟩
    rcases Table.mem_foreignKeys_addForeignKey hk with hk | rfl
    · exact hset.keys _ hmem k (by simpa using hk)
    · exact hset.links l (List.mem_of_find?_eq_some hlink)

end TableSet

namespace TableContext

variable {ctx : TableContext} {e : Entity} {set : TableSet}

theorem belongsTo_of_mainTable {reason : TableReason} (h : ctx.mainTable e reason = .ok set) :
    set.BelongsTo e.id e.namespaceName := by
  obtain ⟨keys, inherited, -, -, hbuilt⟩ := built_of_mainTable h
  refine hbuilt.settled.belongsTo (Or.inr (by simp [mainTableStart])) ?_ ?_
  · exact congrArg TableKey.namespaceName (Table.key_addColumns _ _ _)
  · refine hbuilt.forall_tables ctx.preserves_isLate (TableSet.forall_tables_push ?_ fun _ => ?_)
    · simp [TableSet.empty]
    · simp [mainTableStart, Table.ofReason]

theorem belongsTo_of_descriptorTable (h : ctx.descriptorTable e = .ok set) :
    set.BelongsTo e.id e.namespaceName := by
  have hbuilt := built_of_entityTables h
  refine hbuilt.settled.belongsTo (Or.inr (by simp)) ?_ ?_
  · exact Table.namespaceName_addForeignKey _ _
  · refine hbuilt.forall_tables ctx.preserves_isLate (TableSet.forall_tables_push ?_ fun _ => ?_)
    · simp [TableSet.empty]
    · intro k hk
      rcases Table.mem_foreignKeys_addForeignKey hk with hk | rfl
      · simp [Table.ofReason] at hk
      · rfl

theorem belongsTo_of_subclassTable (h : ctx.subclassTable e = .ok set) :
    set.BelongsTo e.id e.namespaceName := by
  obtain ⟨main, key, hmain, hkey, rfl⟩ := exists_of_subclassTable h
  have hset := belongsTo_of_mainTable hmain
  refine ⟨?_, fun i t ht hkept => ?_, hset.links, ?_⟩
  · exact TableSet.forall_tables_modify hset.owner fun t ht => by simpa using ht
  · by_cases hi : i = 0
    · subst hi
      have hlt : 0 < main.next := by simpa using TableSet.lt_next_of_get? ht
      have hu := List.getElem?_eq_getElem hlt
      obtain rfl : (main.tables[0].addForeignKey key) = t :=
        Option.some.inj ((TableSet.get?_modify_self _ hu).symm.trans ht)
      refine (hset.placed 0 _ hu hkept).imp_left fun hplace => ?_
      exact (Table.namespaceName_addForeignKey _ key).trans hplace
    · rw [TableSet.get?_modify_of_ne _ hi] at ht
      exact hset.placed i t ht hkept
  · refine TableSet.forall_tables_modify hset.keys fun t ht k hk => ?_
    rcases Table.mem_foreignKeys_addForeignKey hk with hk | rfl
    · exact ht k hk
    · rw [reason_of_baseKey hkey]
      rfl

theorem belongsTo_of_extensionTable (h : ctx.extensionTable e = .ok set) :
    set.BelongsTo e.id e.namespaceName := by
  obtain ⟨base, key, parent, mid, -, -, -, hbuilt, rfl⟩ := built_of_extensionTable h
  have hmid : mid.BelongsTo e.id e.namespaceName := by
    refine hbuilt.settled.belongsTo (Or.inl (by simp [suffixedTable, Table.ofReason])) ?_ ?_
    · exact congrArg TableKey.namespaceName (Table.key_addParentKeys _ _ _)
    · refine hbuilt.forall_tables ctx.preserves_isLate (TableSet.forall_tables_push ?_ fun _ => ?_)
      · simp [TableSet.empty]
      · simp [suffixedTable, Table.ofReason]
  unfold linkOrDiscard
  split_ifs
  · refine ⟨hmid.owner, fun i t ht hkept => ?_, fun l hl => ?_, hmid.keys⟩
    · refine (hmid.placed i t ht hkept).imp_right ?_
      rintro ⟨l, hl, hchild⟩
      exact ⟨l, List.mem_append_left _ hl, hchild⟩
    · rcases List.mem_append.mp hl with hl | hl
      · exact hmid.links l hl
      · rw [List.mem_singleton.mp hl]
        rfl
  · refine ⟨hmid.owner, fun i t ht hkept => ?_, fun l hl => ?_, hmid.keys⟩
    · rw [TableSet.mem_discarded_discard, not_or] at hkept
      refine (hmid.placed i t ht hkept.2).imp_right ?_
      rintro ⟨l, hl, rfl⟩
      exact ⟨l, List.mem_filter.mpr ⟨hl, by simpa using hkept.1⟩, rfl⟩
    · exact hmid.links l (List.mem_filter.mp hl).1

end TableContext

/-! ### Tables of the schema -/

/-- The table `t'` is what has become of `t` in the schema: it has the same owner, the same names in
its key and perhaps further foreign keys, all of them late ones. -/
structure Table.Later (t t' : Table) : Prop where
  key : t'.key = t.key
  owner : t'.parentEntity = t.parentEntity
  keyNames : ∀ id, id ∈ t'.primaryKeyIds ↔ id ∈ t.primaryKeyIds
  keys : ∀ k ∈ t.foreignKeys, k ∈ t'.foreignKeys
  late : ∀ k ∈ t'.foreignKeys, k ∈ t.foreignKeys ∨ k.reason.isLate = true

namespace Table.Later

variable {t t' t'' : Table} {k : ForeignKey}

theorem refl (t : Table) : t.Later t :=
  ⟨rfl, rfl, fun _ => Iff.rfl, fun _ hk => hk, fun _ hk => Or.inl hk⟩

theorem trans (h : t.Later t') (h' : t'.Later t'') : t.Later t'' where
  key := h'.key.trans h.key
  owner := h'.owner.trans h.owner
  keyNames id := (h'.keyNames id).trans (h.keyNames id)
  keys k hk := h'.keys k (h.keys k hk)
  late k hk := by
    rcases h'.late k hk with hk | hlate
    · exact h.late k hk
    · exact Or.inr hlate

theorem addForeignKey (h : t.Later t') (hk : k.reason.isLate = true) :
    t.Later (t'.addForeignKey k) := by
  refine h.trans ⟨t'.key_addForeignKey k, t'.parentEntity_addForeignKey k, fun id => ?_,
    fun j hj => ?_, ?_⟩
  · rw [Table.primaryKeyIds_addForeignKey]
  · exact Table.mem_foreignKeys_addForeignKey_iff.mpr (Or.inl hj)
  · intro j hj
    rcases Table.mem_foreignKeys_addForeignKey hj with hj | rfl
    · exact Or.inl hj
    · exact Or.inr hk

theorem addForeignKeys (h : t.Later t') {ks : List ForeignKey}
    (hks : ∀ k ∈ ks, k.reason.isLate = true) : t.Later (t'.addForeignKeys ks) := by
  induction ks generalizing t' with
  | nil => exact h
  | cons k rest ih =>
    rw [List.forall_mem_cons] at hks
    exact ih (h.addForeignKey hks.1) hks.2

theorem withMapType (v : Version) (namespaceName mapTableId : String) (t : Table) :
    t.Later (withMapType v namespaceName mapTableId t) := by
  have harranged {c : Column} (hc : c.isPartOfPrimaryKey = false) :
      t.Later (TableSet.arranged v (t.addColumn v c)) := by
    refine ⟨Table.key_arranged .., by simp [addColumn], fun id => ?_, fun k hk => ?_,
      fun k hk => Or.inl ?_⟩
    · rw [Table.mem_primaryKeyIds_arranged_iff, Table.mem_primaryKeyIds_iff,
        Table.mem_primaryKeyIds_iff, addColumn, hasKey_mergeColumn_iff]
      simp [hc]
    · simpa [addColumn] using hk
    · simpa [addColumn] using hk
  exact (harranged rfl).addForeignKey (show ForeignKeyReason.mapType.isLate = true from rfl)

theorem isFrom (h : t.Later t') {id : EntityId} {namespaceName : String}
    (ht : t.IsFrom id namespaceName) : t'.IsFrom id namespaceName := by
  refine ⟨h.owner.trans ht.owner, ht.placed.imp (fun hplace => ?_) fun ⟨k, hk, hreason⟩ => ?_⟩
  · exact (congrArg TableKey.namespaceName h.key).trans hplace
  · exact ⟨k, h.keys k hk, hreason⟩

end Table.Later

section Steps

variable {c : Config} {m : Model} {s s' : Schema} {set : TableSet} {v : Version} {key : TableKey}
  {t : Table}

theorem TableSet.get?_of_store (h : set.store v s = .ok s') (ht : s.get? key = some t) :
    s'.get? key = some t := by
  obtain ⟨tables, -, hinsert⟩ := TableSet.store_eq_ok_iff.mp h
  exact Schema.get?_of_insertAll hinsert ht

theorem TableSet.get?_of_storeMain {e : EntityId} (h : set.storeMain v e s = .ok s')
    (ht : s.get? key = some t) : s'.get? key = some t := by
  obtain ⟨next, hnext, hs'⟩ := TableSet.storeMain_eq_ok h
  have hget := TableSet.get?_of_store hnext ht
  rcases hs' with rfl | ⟨k, rfl⟩
  · exact hget
  · exact hget

/-- The foreign keys that are planned for the table at an address exist for references. -/
theorem reason_of_mem_planned {info : CascadeInfo} {tables : List Table}
    {planned : List (TableKey × ForeignKey)}
    (h : collect (Table.referenceKeys m info s) tables = .ok planned) (key : TableKey) :
    ∀ k ∈ (planned.filter fun entry => entry.1 = key).map Prod.snd, k.reason = .reference := by
  intro k hk
  obtain ⟨entry, hentry, rfl⟩ := List.mem_map.mp hk
  exact reason_of_mem_referenceKeys h entry (List.mem_filter.mp hentry).1

/-- A table lives on when the foreign keys of references are added to it. -/
theorem Table.later_addForeignKeys {info : CascadeInfo} {tables : List Table}
    {planned : List (TableKey × ForeignKey)}
    (h : collect (Table.referenceKeys m info s) tables = .ok planned) (t : Table) (key : TableKey) :
    t.Later (t.addForeignKeys ((planned.filter fun entry => entry.1 = key).map Prod.snd)) := by
  refine (Table.Later.refl t).addForeignKeys fun k hk => ?_
  rw [reason_of_mem_planned h key k hk]
  rfl

/-- The table `t'` is what a step makes of a table `t` of the schema. -/
inductive Table.ChangedTo (v : Version) (t : Table) : Table → Prop
  | unchanged : ChangedTo v t t
  | mapType (namespaceName mapTableId : String) :
      ChangedTo v t (Tabular.withMapType v namespaceName mapTableId t)
  | references {ks : List ForeignKey} (hks : ∀ k ∈ ks, k.reason = .reference) :
      ChangedTo v t (t.addForeignKeys ks)

/-- A step changes a table of the schema in one of these ways. -/
theorem DerivationStep.exists_changedTo (h : DerivationStep c m s s') (ht : s.get? key = some t) :
    ∃ t', s'.get? key = some t' ∧ t.ChangedTo c.targetVersion t' := by
  cases h with
  | entity _ h | descriptor _ h | subclass _ _ h =>
    obtain ⟨set, -, h⟩ := bind_eq_ok_iff.mp h
    exact ⟨t, TableSet.get?_of_storeMain h ht, .unchanged⟩
  | enumeration _ h => exact ⟨t, TableSet.get?_of_storeMain h ht, .unchanged⟩
  | extension _ h =>
    obtain ⟨set, -, h⟩ := bind_eq_ok_iff.mp h
    exact ⟨t, TableSet.get?_of_store h ht, .unchanged⟩
  | baseDescriptor h =>
    rcases storeBaseDescriptor_eq_ok h with rfl | h
    · exact ⟨t, ht, .unchanged⟩
    · exact ⟨t, Schema.get?_of_insert h ht, .unchanged⟩
  | schoolYear _ h =>
    rcases storeSchoolYear_eq_ok h with ⟨_, rfl⟩ | h
    · exact ⟨t, ht, .unchanged⟩
    · exact ⟨t, TableSet.get?_of_storeMain h ht, .unchanged⟩
  | mapType _ _ h =>
    rcases storeMapType_eq_ok h with rfl | ⟨_, _, mid, _, -, -, hmid, rfl⟩
    · exact ⟨t, ht, .unchanged⟩
    · rw [Schema.get?_modify (key_withMapType _ _ _), TableSet.get?_of_storeMain hmid ht]
      split_ifs
      · exact ⟨_, rfl, .mapType _ _⟩
      · exact ⟨t, rfl, .unchanged⟩
  | references h =>
    obtain ⟨planned, hplanned, rfl⟩ := referenceKeys_eq_ok h
    rw [Schema.get?_foldl_addForeignKey, ht]
    exact ⟨_, rfl, .references (reason_of_mem_planned hplanned key)⟩

theorem Table.ChangedTo.later {t' : Table} (h : t.ChangedTo v t') : t.Later t' := by
  cases h with
  | unchanged => exact .refl t
  | mapType => exact .withMapType v _ _ t
  | references hks =>
    refine (Table.Later.refl t).addForeignKeys fun k hk => ?_
    rw [hks k hk]
    rfl

theorem Table.ChangedTo.reason {t' : Table} (h : t.ChangedTo v t') : t'.reason = t.reason := by
  cases h with
  | unchanged => rfl
  | mapType =>
    rw [Tabular.withMapType, Table.reason_addForeignKey, Table.reason_arranged]
    rfl
  | @references ks _ =>
    obtain ⟨fks, hfks⟩ := t.exists_addForeignKeys_eq ks
    rw [hfks]

/-- A table lives on through a step. -/
theorem DerivationStep.exists_later (h : DerivationStep c m s s') (ht : s.get? key = some t) :
    ∃ t', s'.get? key = some t' ∧ t.Later t' := by
  obtain ⟨t', ht', hchanged⟩ := h.exists_changedTo ht
  exact ⟨t', ht', hchanged.later⟩

/-- A table lives on through a run. -/
theorem Reaches.exists_later (h : Reaches c m s s') (ht : s.get? key = some t) :
    ∃ t', s'.get? key = some t' ∧ t.Later t' := by
  induction h with
  | refl => exact ⟨t, ht, .refl t⟩
  | tail _ hstep ih =>
    obtain ⟨u, hu, hlater⟩ := ih
    obtain ⟨t', ht', hlater'⟩ := hstep.exists_later hu
    exact ⟨t', ht', hlater.trans hlater'⟩

end Steps

end Tabular
