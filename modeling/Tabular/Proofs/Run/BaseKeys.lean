import Mathlib.Tactic.Common
import Tabular.Proofs.Derive.CarriedKeys
import Tabular.Proofs.Derive.ParentKeys
import Tabular.Proofs.Derive.RenamedKeys
import Tabular.Proofs.Run.LookupTables

/-!
# Keys of subclasses and of their bases

The table of a subclass refers to the table of its base by a foreign key with one pair for each key
column of the base. The column on the side of the subclass is found by place: the key that is
collected for the base and the key that the subclass takes over from it are gone through side by
side. A key column of the base that is not collected has no place in this, and the subclass is taken
to have it under the same name.

So the foreign key stays inside the key of the subclass unless an inline common of the base leads to
a subclass whose identity rename is built and not collected, or the table of the base is not its own
but that of a map type. The table may also lack the foreign key altogether: a lookup key of the same
identifier, to a table of the same name in another namespace, comes first.

## Main definitions

* `Entity.RenamesSingle`: an identity rename concerns properties of one column only.
* `TableSet.StandsFirst`: the first table of a set is kept and hangs off no other.
* `Schema.StoresMain`: the main table of an entity is keyed by its firm columns or as a map type.
* `Table.IsKeyedBy`: a foreign key of the table lies within its key.

## Main results

* `Model.length_inheritedKeys`: the two keys have equally many columns.
* `TableSet.StandsFirst.entityTable?_of_storeMain`: the main table that a commit registers.
* `DerivationStep.storesMain`, `Reaches.storesMain`: the main tables of a run.
* `baseKey_within_key_iff`: when the foreign key of a subclass lies within its key.
-/

namespace Tabular

/-! ### Two keys side by side -/

/-- The identity rename of a subclass is a scalar or lookup property, and so is every property of
the base that it names. -/
def Entity.RenamesSingle (e b : Entity) : Prop :=
  ∀ r ∈ e.identityRename?, r.property.kind.columnRule.isLeaf = true ∧
    ∀ d ∈ b.addedIdentity, r.property.baseKeyName = d.property.fullName →
      d.property.kind.columnRule.isLeaf = true

instance (e b : Entity) : Decidable (e.RenamesSingle b) :=
  inferInstanceAs (Decidable (∀ r ∈ e.identityRename?, _ ∧ ∀ d ∈ b.addedIdentity, _ → _))

section Keys

variable {m : Model} {e b : Entity} {d : Declaration} {kb ki cs : List Column} {id : String}

theorem KeyDerivation.length_columns_of_isLeaf {n : Nat}
    (hleaf : d.property.kind.columnRule.isLeaf = true)
    (h : (within m n).columns d .root = .ok cs) : cs.length = 1 := by
  cases n with
  | zero => cases h
  | succ n =>
    obtain ⟨c, hc⟩ := exists_columns_of_isLeaf m n hleaf
    rw [← Except.ok.inj (hc.symm.trans h)]
    rfl

/-- The key of an entity that is no subclass and the key that a subclass takes over from it have
equally many columns. -/
theorem Model.length_inheritedKeys (hb : m.baseEntity e = .ok b)
    (hroot : b.kind.isSubclass = false) (hrename : e.RenamesSingle b)
    (hkb : m.keys b .root = .ok kb) (hki : m.inheritedKeys e .root = .ok ki) :
    ki.length = kb.length := by
  obtain ⟨_, added, inlined, hinherited, hadded, hinlined, rfl⟩ :=
    KeyDerivation.keysOf_eq_ok_iff.mp hkb
  obtain ⟨b', hb', _, added', inlined', hinherited', hadded', hinlined', rfl⟩ :=
    KeyDerivation.inheritedKeysOf_eq_ok_iff.mp hki
  obtain rfl : b' = b := Except.ok.inj (hb'.symm.trans hb)
  obtain rfl : inlined' = inlined := Except.ok.inj (hinlined'.symm.trans hinlined)
  rw [if_neg (by simp [hroot]), Except.ok.injEq] at hinherited hinherited'
  subst hinherited hinherited'
  suffices hlength : added'.length = added.length by simp [hlength]
  refine length_eq_of_collect (fun d hd as bs has hbs => ?_) hadded' hadded
  -- only the property that the rename names is replaced, and both have one column
  cases hr : e.identityRename? with
  | none =>
    rw [hr] at has
    exact congrArg List.length (Except.ok.inj (has.symm.trans hbs))
  | some r =>
    obtain ⟨hleaf, hnamed⟩ := hrename r hr
    rw [hr, renamedBy] at has
    split_ifs at has with hname
    · rw [KeyDerivation.length_columns_of_isLeaf hleaf has,
        KeyDerivation.length_columns_of_isLeaf (hnamed d hd hname) hbs]
    · exact congrArg List.length (Except.ok.inj (has.symm.trans hbs))

/-- A collected key column of the base has a counterpart among the columns taken over. -/
theorem renamedColumn_mem (hlength : ki.length = kb.length) (hid : id ∈ kb.map Column.id) :
    renamedColumn kb ki id ∈ ki.map Column.id := by
  obtain ⟨k, hk, rfl⟩ := List.mem_map.mp hid
  rw [← List.map_fst_zip (Nat.le_of_eq hlength.symm), List.mem_map] at hk
  obtain ⟨pair, hpair, rfl⟩ := hk
  unfold renamedColumn
  split
  · rename_i k' c hfind
    have hmem := List.mem_reverse.mp (List.mem_of_find?_eq_some hfind)
    exact List.mem_map_of_mem (List.of_mem_zip hmem).2
  · rename_i hfind
    have hne := List.find?_eq_none.mp hfind pair (List.mem_reverse.mpr hpair)
    simp at hne

/-- A key column of the base that is not collected keeps its name. -/
theorem renamedColumn_of_not_mem (hid : id ∉ kb.map Column.id) : renamedColumn kb ki id = id := by
  unfold renamedColumn
  split
  · rename_i k' c hfind
    have hmem := List.mem_reverse.mp (List.mem_of_find?_eq_some hfind)
    have hname : k'.id = id := by simpa using List.find?_some hfind
    exact absurd (hname ▸ List.mem_map_of_mem (List.of_mem_zip hmem).1) hid
  · rfl

/-- The counterpart of a key column of the base is in a key that contains what is taken over if the
column is collected or is in that key itself. -/
theorem renamedColumn_mem_iff {key : List String} (hlength : ki.length = kb.length)
    (htaken : ∀ id ∈ ki.map Column.id, id ∈ key) :
    renamedColumn kb ki id ∈ key ↔ id ∈ kb.map Column.id ∨ id ∈ key := by
  by_cases hid : id ∈ kb.map Column.id
  · exact iff_of_true (htaken _ (renamedColumn_mem hlength hid)) (Or.inl hid)
  · rw [renamedColumn_of_not_mem hid, or_iff_right hid]

/-- Of the firm columns only stray ones are not collected, since what an entity adds itself is. -/
theorem Model.firmKey_iff_strayKey (hidentity : m.HasSimpleIdentity) (hb : b ∈ m.entities)
    (hkb : m.keys b .root = .ok kb) (hid : id ∉ kb.map Column.id) :
    m.FirmKey b .root id ↔ m.StrayKey b .root id := by
  rw [firmKey_iff hidentity hb]
  refine or_iff_right fun hadded => ?_
  obtain ⟨c, hc, rfl⟩ := yieldsName_keys_iff.mpr (Or.inl hadded)
  exact hid (List.mem_map_of_mem ((mem_keys_iff hkb).mpr hc))

/-- The key that a subclass takes over consists of key columns. -/
theorem hasKey_inheritedKeys_iff (hidentity : m.HasSimpleIdentity) (he : e ∈ m.entities)
    (hki : m.inheritedKeys e .root = .ok ki) : HasKey ki id ↔ id ∈ ki.map Column.id := by
  rw [HasKey, List.mem_map]
  refine exists_congr fun c => and_congr_right fun hc => and_iff_left ?_
  obtain ⟨ch, hch, -, hcolumn⟩ := (Model.mem_inheritedKeys_iff hki).mp hc
  exact hch.isPartOfPrimaryKey hidentity he hcolumn

end Keys

/-! ### First tables -/

/-- The first table of the set is `t`. It is kept and hangs off no other table. -/
structure TableSet.StandsFirst (set : TableSet) (t : Table) : Prop where
  get : set.get? 0 = some t
  kept : 0 ∉ set.discarded
  unlinked : ∀ l ∈ set.links, l.child ≠ 0

section FirstTables

variable {c : Config} {m : Model} {s s' : Schema} {v : Version} {set : TableSet} {t : Table}
  {id : EntityId} {e b : Entity}

namespace TableSet

theorem StandsFirst.modify (h : set.StandsFirst t) (f : Table → Table) :
    (set.modify 0 f).StandsFirst (f t) :=
  ⟨get?_modify_self f h.get, h.kept, h.unlinked⟩

theorem StandsFirst.head?_keys (h : set.StandsFirst t) : set.keys.head? = some (some t.key) := by
  obtain ⟨rest, hrest⟩ : ∃ rest, set.tables = t :: rest := by
    have hget : set.tables[0]? = some t := h.get
    cases htables : set.tables with
    | nil => simp [htables] at hget
    | cons u rest =>
      rw [htables] at hget
      exact ⟨rest, by rw [Option.some.inj hget]⟩
  simp [keys, hrest, isDiscarded, h.kept]

/-- A commit registers the first table, which is only arranged. -/
theorem StandsFirst.entityTable?_of_storeMain (h : set.StandsFirst t) (hset : set.WellLinked s)
    (hstore : set.storeMain v id s = .ok s') :
    s'.entityTableKey? id = some t.key ∧ s'.get? t.key = some (arranged v t) := by
  obtain ⟨next, hnext, ⟨key, hkey, rfl⟩ | ⟨hnone, -⟩⟩ := exists_of_storeMain hstore
  · obtain rfl : t.key = key := by simpa [h.head?_keys] using hkey
    obtain ⟨tables, hfinish, hinsert⟩ := store_eq_ok_iff.mp hnext
    obtain ⟨t', -, hget, -, hfrom⟩ := exists_get?_finishedFrom hset hfinish hinsert h.kept h.get
    refine ⟨by rw [Schema.entityTableKey?_setEntityTable, if_pos rfl], hget.trans ?_⟩
    cases hfrom with
    | unlinked => rfl
    | @linked l _ hlink =>
      have hchild : l.child = 0 := by simpa using List.find?_some hlink
      exact absurd hchild (h.unlinked l (List.mem_of_find?_eq_some hlink))
  · exact absurd h.head?_keys (hnone t.key)

theorem entityTableKey?_of_store (h : set.store v s = .ok s') (id : EntityId) :
    s'.entityTableKey? id = s.entityTableKey? id := by
  obtain ⟨tables, -, hinsert⟩ := store_eq_ok_iff.mp h
  rw [Schema.inserted_of_insertAll hinsert]
  rfl

theorem entityTableKey?_of_storeMain {root : EntityId} (h : set.storeMain v root s = .ok s')
    (hne : root ≠ id) : s'.entityTableKey? id = s.entityTableKey? id := by
  obtain ⟨next, hnext, rfl | ⟨key, rfl⟩⟩ := storeMain_eq_ok h
  · exact entityTableKey?_of_store hnext id
  · rw [Schema.entityTableKey?_setEntityTable, if_neg hne]
    exact entityTableKey?_of_store hnext id

end TableSet

namespace TableContext

variable {ctx : TableContext}

/-- The table that building starts from stands first in the end. -/
theorem Built.standsFirst {ds : List Declaration} {scope : Scope} {strategy : Strategy}
    {start : Table} (h : ctx.Built ds scope strategy ((TableSet.empty id).push start) set)
    (ht : set.get? 0 = some t) : set.StandsFirst t := by
  refine ⟨ht, h.zero_notMem_discarded, fun l hl hchild => ?_⟩
  rcases (h.grown (by simp [TableSet.empty])).link l hl with hl | hl
  · simp [TableSet.empty] at hl
  · simp [hchild] at hl

/-- The main table of an entity stands first, and it has no foreign keys but lookup keys. -/
theorem standsFirst_of_mainTable {reason : TableReason} (h : ctx.mainTable e reason = .ok set)
    (ht : set.get? 0 = some t) : set.StandsFirst t ∧ ∀ k ∈ t.foreignKeys, k.reason = .lookup := by
  obtain ⟨keys, inherited, -, -, hbuilt⟩ := built_of_mainTable h
  refine ⟨hbuilt.standsFirst ht, ?_⟩
  refine hbuilt.forall_tables (ctx.preserves_reason (P := fun r => r = .lookup) rfl)
    (TableSet.forall_tables_push ?_ fun _ => ?_) t (List.mem_of_getElem? ht)
  · simp [TableSet.empty]
  · simp [mainTableStart, Table.ofReason]

end TableContext

/-! ### Main tables in a run -/

/-- The key column of the table of the map type of a descriptor, which is named after the
descriptor. -/
def Entity.mapTypeKey (e : Entity) : String :=
  TableNaming.enumerationTable e.name ++ "Id"

/-- The key of the table consists of the firm columns of the entity, or of the key column of a map
type that the entity is taken for. -/
def Table.IsMainOf (c : Config) (m : Model) (b : Entity) (t : Table) : Prop :=
  (∀ id, id ∈ t.primaryKeyIds ↔ m.FirmKey b .root id) ∨
    c.dataStandardVersion.hasMapTypes = true ∧ ∃ d ∈ m.ofKind .descriptor,
      d.mapType = some b.id ∧ ∀ id, id ∈ t.primaryKeyIds ↔ id = d.mapTypeKey

theorem Table.IsMainOf.later {t' : Table} (h : t.IsMainOf c m b) (hlater : t.Later t') :
    t'.IsMainOf c m b := by
  rcases h with hfirm | ⟨hversion, d, hd, hmap, hkey⟩
  · exact Or.inl fun id => (hlater.keyNames id).trans (hfirm id)
  · exact Or.inr ⟨hversion, d, hd, hmap, fun id => (hlater.keyNames id).trans (hkey id)⟩

/-- The main table of an entity is stored, with one of these keys. -/
def Schema.StoresMain (c : Config) (m : Model) (b : Entity) (s : Schema) : Prop :=
  ∀ key, s.entityTableKey? b.id = some key → ∃ t, s.get? key = some t ∧ t.IsMainOf c m b

theorem storesMain_of_storeEntity (hb : b ∈ m.mainEntities) (h : storeEntity c m s b = .ok s') :
    s'.StoresMain c m b := by
  obtain ⟨set, hset, h⟩ := bind_eq_ok_iff.mp h
  obtain ⟨t, ht, hfirm⟩ := TableContext.exists_firmKey_of_mainTable hb hset
  obtain ⟨hfirst, -⟩ := TableContext.standsFirst_of_mainTable hset ht
  obtain ⟨hregistered, hget⟩ :=
    hfirst.entityTable?_of_storeMain (TableContext.wellLinked_of_mainTable hset) h
  intro key hkey
  obtain rfl : t.key = key := Option.some.inj (hregistered.symm.trans hkey)
  exact ⟨_, hget, Or.inl fun id => Table.mem_primaryKeyIds_arranged_iff.trans (hfirm id)⟩

/-- Storing the table of a map type registers it, for no entity but the one that is taken for the map
type. -/
theorem entityTableKey?_eq_or_of_storeMapType (hindexed : m.IsIndexed)
    (hversion : c.dataStandardVersion.hasMapTypes = true) (he : e ∈ m.ofKind .descriptor)
    (h : storeMapType c m s e = .ok s') :
    s'.entityTableKey? b.id = s.entityTableKey? b.id ∨ s'.StoresMain c m b := by
  rcases storeMapType_eq_ok h with rfl | ⟨id, mapType, mid, _, hmap, hentity, hmid, rfl⟩
  · exact Or.inl rfl
  rw [hindexed.id_of_entity? hentity] at hmid
  by_cases hid : id = b.id
  · right
    have hnames (id : String) : id ∈ (codeValueTable c.targetVersion e.namespaceName
        (TableNaming.enumerationTable e.name) .mapType mapType.documentation).primaryKeyIds ↔
        id = e.mapTypeKey := mem_primaryKeyIds_codeValueTable_iff
    generalize codeValueTable _ _ _ _ _ = t at hmid hnames
    obtain ⟨owner, ht⟩ := TableSet.get?_push_next (.empty id) t
    obtain ⟨hregistered, hget⟩ := TableSet.StandsFirst.entityTable?_of_storeMain
      ⟨ht, List.not_mem_nil, by simp [TableSet.empty]⟩ (.of_links_eq_nil rfl) hmid
    have hmain : (TableSet.arranged c.targetVersion { t with parentEntity := owner }).IsMainOf
        c m b :=
      Or.inr ⟨hversion, e, he, hid ▸ hmap, fun id =>
        Table.mem_primaryKeyIds_arranged_iff.trans (hnames id)⟩
    intro key hkey
    rw [Schema.entityTableKey?_modify, ← hid] at hkey
    obtain rfl := Option.some.inj (hregistered.symm.trans hkey)
    rw [Schema.get?_modify (key_withMapType _ _ _), hget]
    split_ifs
    · exact ⟨_, rfl, hmain.later (.withMapType _ _ _ _)⟩
    · exact ⟨_, rfl, hmain⟩
  · rw [Schema.entityTableKey?_modify]
    exact Or.inl (TableSet.entityTableKey?_of_storeMain hmid hid)

/-- A step registers the main table of a domain entity or association by building it, or as the
table of a map type. -/
theorem DerivationStep.entityTableKey?_eq_or (h : DerivationStep c m s s') (hindexed : m.IsIndexed)
    (hb : b ∈ m.entities) (hkind : b.kind = .domainEntity ∨ b.kind = .association) :
    s'.entityTableKey? b.id = s.entityTableKey? b.id ∨ s'.StoresMain c m b := by
  have hother {f : Entity} (hf : f ∈ m.entities) (hne : f.kind ≠ b.kind) : f.id ≠ b.id :=
    fun hid => hne (congrArg Entity.kind (hindexed.eq_of_id_eq hf hb hid))
  have hofKind {k : EntityKind} {f : Entity} (hf : f ∈ m.ofKind k)
      (hne : k ≠ .domainEntity ∧ k ≠ .association) : f.id ≠ b.id := by
    simp only [Model.ofKind, List.mem_filter, decide_eq_true_eq] at hf
    refine hother hf.1 fun hsame => ?_
    rcases hkind with hkind | hkind
    · exact hne.1 (hf.2.symm.trans (hsame.trans hkind))
    · exact hne.2 (hf.2.symm.trans (hsame.trans hkind))
  cases h with
  | @entity e he h =>
    by_cases hid : e.id = b.id
    · obtain rfl := hindexed.eq_of_id_eq (List.mem_filter.mp he).1 hb hid
      exact Or.inr (storesMain_of_storeEntity he h)
    · obtain ⟨set, -, h⟩ := bind_eq_ok_iff.mp h
      exact Or.inl (TableSet.entityTableKey?_of_storeMain h hid)
  | baseDescriptor h =>
    rcases storeBaseDescriptor_eq_ok h with rfl | h
    · exact Or.inl rfl
    · obtain ⟨-, rfl⟩ := Schema.insert_eq_ok_iff.mp h
      exact Or.inl rfl
  | descriptor he h =>
    obtain ⟨set, -, h⟩ := bind_eq_ok_iff.mp h
    exact Or.inl (TableSet.entityTableKey?_of_storeMain h (hofKind he (by decide)))
  | mapType hversion he h => exact entityTableKey?_eq_or_of_storeMapType hindexed hversion he h
  | enumeration he h =>
    exact Or.inl (TableSet.entityTableKey?_of_storeMain h (hofKind he (by decide)))
  | schoolYear he h =>
    have hne := hofKind he (by decide)
    rcases storeSchoolYear_eq_ok h with ⟨_, rfl⟩ | h
    · rw [Schema.entityTableKey?_setEntityTable, if_neg hne]
      exact Or.inl rfl
    · exact Or.inl (TableSet.entityTableKey?_of_storeMain h hne)
  | @subclass e he hsubclass h =>
    obtain ⟨set, -, h⟩ := bind_eq_ok_iff.mp h
    refine Or.inl (TableSet.entityTableKey?_of_storeMain h (hother he fun hsame => ?_))
    rcases hkind with hkind | hkind <;> simp [hsame, hkind, EntityKind.isSubclass] at hsubclass
  | extension _ h =>
    obtain ⟨set, -, h⟩ := bind_eq_ok_iff.mp h
    exact Or.inl (TableSet.entityTableKey?_of_store h b.id)
  | references h =>
    obtain ⟨planned, -, rfl⟩ := referenceKeys_eq_ok h
    rw [Schema.entityTableKey?, Schema.entityTableKey?, entityTables_addForeignKeys]
    exact Or.inl rfl

/-- A step keeps the key of a main table. -/
theorem DerivationStep.storesMain (h : DerivationStep c m s s') (hindexed : m.IsIndexed)
    (hb : b ∈ m.entities) (hkind : b.kind = .domainEntity ∨ b.kind = .association)
    (hs : s.StoresMain c m b) : s'.StoresMain c m b := by
  rcases h.entityTableKey?_eq_or hindexed hb hkind with hsame | hstores
  · intro key hkey
    obtain ⟨t, ht, hmain⟩ := hs key (hsame ▸ hkey)
    obtain ⟨t', ht', hlater⟩ := h.exists_later ht
    exact ⟨t', ht', hmain.later hlater⟩
  · exact hstores

/-- The main table of a domain entity or association has one of these keys in every run. -/
theorem Reaches.storesMain (h : Reaches c m .empty s) (hindexed : m.IsIndexed)
    (hb : b ∈ m.entities) (hkind : b.kind = .domainEntity ∨ b.kind = .association) :
    s.StoresMain c m b := by
  induction h with
  | refl =>
    intro key hkey
    cases hkey
  | tail _ hstep ih => exact hstep.storesMain hindexed hb hkind ih

end FirstTables

/-! ### The foreign key of a subclass -/

/-- The table has the foreign key, and its columns are all part of the key of the table. -/
def Table.IsKeyedBy (t : Table) (k : ForeignKey) : Prop :=
  k ∈ t.foreignKeys ∧ ∀ id ∈ k.parentColumnIds, id ∈ t.primaryKeyIds

/-- The foreign key of a subclass follows the key of the table of its base. -/
theorem TableContext.exists_of_baseKey {ctx : TableContext} {e b : Entity} {tableId : String}
    {key : ForeignKey} (h : ctx.baseKey e tableId = .ok key) (hb : ctx.model.baseEntity e = .ok b) :
    ∃ t kb ki, ctx.stored.entityTable? b.id = some t ∧ ctx.model.keys b .root = .ok kb ∧
      ctx.model.inheritedKeys e .root = .ok ki ∧ key.address = t.key ∧
      key.pairs = t.primaryKeyIds.map fun id => ⟨renamedColumn kb ki id, id⟩ := by
  simp only [baseKey, bind_eq_ok_iff, pure_eq_ok_iff] at h
  obtain ⟨b', hb', ⟨address, t⟩, hstored, kb, hkb, ki, hki, rfl⟩ := h
  obtain rfl : b' = b := Except.ok.inj (hb'.symm.trans hb)
  exact ⟨t, kb, ki, Option.bind_eq_some_iff.mpr ⟨address, storedTable_eq_ok hstored⟩, hkb, hki, rfl,
    rfl⟩

/-- The main table that storing a subclass registers. -/
theorem exists_of_storeSubclass {c : Config} {m : Model} {s s' : Schema} {e : Entity}
    (hkind : e.kind.isSubclass = true) (h : storeSubclass c m s e = .ok s') :
    ∃ (ki : List Column) (t : Table) (key : ForeignKey), m.inheritedKeys e .root = .ok ki ∧
      (c.tableContext m s).baseKey e e.name = .ok key ∧
      (∀ k ∈ t.foreignKeys, k.reason = .lookup) ∧
      (∀ id, id ∈ t.primaryKeyIds ↔ HasKey ki id ∨ m.FirmKey e .root id) ∧
      s'.entityTable? e.id =
        some (TableSet.arranged c.targetVersion (t.addForeignKey key)) := by
  obtain ⟨set, hset, h⟩ := bind_eq_ok_iff.mp h
  have hlinked := TableContext.wellLinked_of_subclassTable hset
  obtain ⟨main, key, hmain, hkey, rfl⟩ := TableContext.exists_of_subclassTable hset
  obtain ⟨ki, t, hki, ht, hnames⟩ := TableContext.exists_hasKey_or_firmKey_of_mainTable hmain
  rw [if_pos hkind] at hki
  obtain ⟨hfirst, hlookups⟩ := TableContext.standsFirst_of_mainTable hmain ht
  obtain ⟨hregistered, hget⟩ := (hfirst.modify _).entityTable?_of_storeMain hlinked h
  refine ⟨ki, t, key, hki, hkey, hlookups, hnames, ?_⟩
  rw [Schema.entityTable?, hregistered]
  exact hget

/-- Among lookup keys, a key for another reason is kept unless one of them has its identifier. -/
theorem Table.mem_foreignKeys_addForeignKey_self_iff {t : Table} {key : ForeignKey}
    (hlookups : ∀ k ∈ t.foreignKeys, k.reason = .lookup) (hreason : key.reason ≠ .lookup) :
    key ∈ (t.addForeignKey key).foreignKeys ↔ ∀ k ∈ (t.addForeignKey key).foreignKeys,
      k.reason = .lookup → k.id ≠ key.id := by
  have hnot : key ∉ t.foreignKeys := fun hmem => hreason (hlookups key hmem)
  constructor
  · intro hkey k hk hlookup
    obtain ⟨-, hnew⟩ := (mem_foreignKeys_addForeignKey_iff.mp hkey).resolve_left hnot
    rcases mem_foreignKeys_addForeignKey hk with hk | rfl
    · exact hnew k hk
    · exact absurd hlookup hreason
  · intro hnew
    refine mem_foreignKeys_addForeignKey_iff.mpr (Or.inr ⟨rfl, fun k hk => ?_⟩)
    exact hnew k (mem_foreignKeys_addForeignKey_iff.mpr (Or.inl hk)) (hlookups k hk)

/-- Let the base of a subclass be a domain entity or association, and let the identity rename of the
subclass concern properties of one column only. If storing the subclass succeeds in a run, then its
foreign key to the base has one pair for each key column of the table of the base, in that order,
and the table of the subclass has no other foreign key for this reason. It has this one, and its
columns are all part of the key of the table, if and only if no lookup key of the table has the same
identifier, and every key column of the base is collected for the base or is a key column of the
subclass. The key columns of the base that are not collected are those that are built for the
identity rename of an embedded subclass, unless a descriptor takes the base for its map type and the
table of the base is that of the map type. -/
theorem baseKey_within_key_iff {c : Config} {m : Model} {s s' : Schema} {e b : Entity}
    (hindexed : m.IsIndexed) (hidentity : m.HasSimpleIdentity) (hreaches : Reaches c m .empty s)
    (he : e ∈ m.entities) (hsubclass : e.kind.isSubclass = true) (hb : m.baseEntity e = .ok b)
    (hkind : b.kind = .domainEntity ∨ b.kind = .association) (hrename : e.RenamesSingle b)
    (h : storeSubclass c m s e = .ok s') :
    ∃ key tb te kb, (c.tableContext m s).baseKey e e.name = .ok key ∧
      s.entityTable? b.id = some tb ∧ s'.entityTable? e.id = some te ∧
      m.keys b .root = .ok kb ∧ key.reason = .subclass ∧ key.address = tb.key ∧
      key.foreignColumnIds = tb.primaryKeyIds ∧
      (∀ k ∈ te.foreignKeys, k.reason = .subclass → k = key) ∧
      (te.IsKeyedBy key ↔
        (∀ k ∈ te.foreignKeys, k.reason = .lookup → k.id ≠ key.id) ∧
        ∀ id ∈ tb.primaryKeyIds, id ∈ kb.map Column.id ∨ id ∈ te.primaryKeyIds) ∧
      ((∀ id ∉ kb.map Column.id, id ∈ tb.primaryKeyIds ↔ m.StrayKey b .root id) ∨
        c.dataStandardVersion.hasMapTypes = true ∧ ∃ d ∈ m.ofKind .descriptor,
          d.mapType = some b.id ∧ ∀ id, id ∈ tb.primaryKeyIds ↔ id = d.mapTypeKey) := by
  obtain ⟨ki, t, key, hki, hkey, hlookups, hnames, hte⟩ := exists_of_storeSubclass hsubclass h
  obtain ⟨tb, kb, ki', htb, hkb, hki', hforeign, hpairs⟩ := TableContext.exists_of_baseKey hkey hb
  obtain rfl : ki' = ki := Except.ok.inj (hki'.symm.trans hki)
  have hbase : b ∈ m.entities := Model.mem_entities_of_baseEntity hb
  have hroot : b.kind.isSubclass = false := by
    rcases hkind with hkind | hkind <;> rw [hkind] <;> rfl
  have hreason : key.reason = .subclass := TableContext.reason_of_baseKey hkey
  have hown : ∀ id, id ∈ (TableSet.arranged c.targetVersion (t.addForeignKey key)).primaryKeyIds ↔
      id ∈ ki'.map Column.id ∨ m.FirmKey e .root id := by
    intro id
    rw [Table.mem_primaryKeyIds_arranged_iff, Table.primaryKeyIds_addForeignKey, hnames,
      hasKey_inheritedKeys_iff hidentity he hki']
  refine ⟨key, tb, _, kb, hkey, htb, hte, hkb, hreason, hforeign, ?_, fun k hk hsame => ?_, ?_, ?_⟩
  · simp [ForeignKey.foreignColumnIds, hpairs, Function.comp_def]
  · rw [Table.foreignKeys_arranged] at hk
    rcases Table.mem_foreignKeys_addForeignKey hk with hk | rfl
    · simp [hlookups k hk] at hsame
    · rfl
  · rw [Table.IsKeyedBy, Table.foreignKeys_arranged]
    refine and_congr (Table.mem_foreignKeys_addForeignKey_self_iff hlookups (by simp [hreason])) ?_
    have hlength := Model.length_inheritedKeys hb hroot hrename hkb hki'
    simp only [ForeignKey.parentColumnIds, hpairs, List.map_map, List.forall_mem_map,
      Function.comp_apply]
    exact forall₂_congr fun id _ =>
      renamedColumn_mem_iff hlength fun id hid => (hown id).mpr (Or.inl hid)
  · obtain ⟨address, haddress, hget⟩ := Option.bind_eq_some_iff.mp htb
    obtain ⟨tb', htb', hmain⟩ := hreaches.storesMain hindexed hbase hkind address haddress
    obtain rfl : tb' = tb := Option.some.inj (htb'.symm.trans hget)
    refine hmain.imp_left fun hfirm id hid => ?_
    rw [hfirm, Model.firmKey_iff_strayKey hidentity hbase hkb hid]

/-! ### Audits, paints and annexes

Audits have a charter school inlined. Its own identifier is built and the identifier of schools is
collected, so the table of spot audits, which are audits, refers to a column it does not have.

Paints are color types and have a color. The table of colors is one of color types, too, in another
namespace, and the table of paints refers to it in the same way as to its base.

Annexes are campuses, which are the map type of sites. The table of campuses is replaced by that of
the map type, and the table of annexes refers to the key of the latter.
-/

/-- A configuration for a version that does not sort columns and a data standard with map types. -/
def unsortedConfig : Config :=
  { Config.standard with targetVersion := ⟨6, 1, 0⟩, dataStandardVersion := ⟨2, 0, 0⟩ }

namespace Audits

def audit : Entity :=
  { ((Entity.ofKind .domainEntity "EdFi" "Audit").withProperty
      (Property.ofKind "AuditId" (.scalar .integer)).identity).withProperty
        { Property.ofKind "CharterSchool" .inlineCommon with referencedEntity := some 2 } with
    id := 3 }

def spotAudit : Entity :=
  CharterSchools.subclass 4 "SpotAudit" 3 []

def model : Model :=
  { CharterSchools.model with entities := CharterSchools.model.entities ++ [audit, spotAudit] }

end Audits

namespace Paints

def colorType : Entity :=
  { (Entity.ofKind .domainEntity "EdFi" "ColorType").withProperty
      (Property.ofKind "ColorTypeId" (.scalar .integer)).identity with
    id := 0 }

def paint : Entity :=
  CharterSchools.subclass 2 "Paint" 0
    [{ Property.ofKind "Color" .enumeration with referencedEntity := some 1 }]

def model : Model :=
  ⟨[.core "EdFi", .core "Sample"],
    [colorType, { Entity.ofKind .enumeration "Sample" "Color" with id := 1 }, paint]⟩

end Paints

namespace Annexes

def campus : Entity :=
  { (Entity.ofKind .domainEntity "EdFi" "Campus").withProperty
      (Property.ofKind "CampusId" (.scalar .integer)).identity with
    id := 0 }

def site : Entity :=
  { Entity.ofKind .descriptor "EdFi" "Site" with id := 1, mapType := some 0 }

def annex : Entity :=
  CharterSchools.subclass 2 "Annex" 0 []

def model : Model :=
  ⟨[.core "EdFi"], [campus, site, annex]⟩

end Annexes

/-- The foreign key of spot audits leaves their key at a stray column of audits, the foreign key of
paints is lost to the lookup key of their color, and the foreign key of annexes leaves their key at
the key of a map type. -/
theorem baseKey_within_key_iff_audits_paints_annexes :
    (∃ s s' te kb, mainTables unsortedConfig Audits.model .empty = .ok s ∧
      storeSubclass unsortedConfig Audits.model s Audits.spotAudit = .ok s' ∧
      s'.entityTable? Audits.spotAudit.id = some te ∧
      Audits.model.keys Audits.audit .root = .ok kb ∧
      (te.foreignKeys.map fun k => (k.reason, k.parentColumnIds)) =
        [(.subclass, ["AuditId", "CharterSchoolId"])] ∧
      te.primaryKeyIds = ["AuditId", "SchoolId"] ∧
      ∃ id, Audits.model.StrayKey Audits.audit .root id ∧ id ∉ kb.map Column.id ∧
        id ∉ te.primaryKeyIds) ∧
    (∃ s s' key te, mainTables unsortedConfig Paints.model .empty = .ok s ∧
      storeSubclass unsortedConfig Paints.model s Paints.paint = .ok s' ∧
      (unsortedConfig.tableContext Paints.model s).baseKey Paints.paint "Paint" = .ok key ∧
      s'.entityTable? Paints.paint.id = some te ∧
      (te.foreignKeys.map fun k => (k.reason, k.address, k.id)) =
        [(.lookup, ⟨"Sample", "ColorType"⟩, key.id)] ∧
      key.address = ⟨"EdFi", "ColorType"⟩ ∧ ¬te.IsKeyedBy key) ∧
    ∃ progress outcomes s' tb te key, runPasses unsortedConfig Annexes.model .mainTables
        (Pass.ofStage .mainTables) .start = .ok (progress, outcomes) ∧
      storeSubclass unsortedConfig Annexes.model progress.schema Annexes.annex = .ok s' ∧
      progress.schema.entityTable? Annexes.campus.id = some tb ∧
      s'.entityTable? Annexes.annex.id = some te ∧
      tb.primaryKeyIds = [Annexes.site.mapTypeKey] ∧ te.primaryKeyIds = ["CampusId"] ∧
      key.foreignColumnIds = tb.primaryKeyIds ∧ ¬te.IsKeyedBy key := by
  refine ⟨?_, ?_, ?_⟩
  · have hrun : (mainTables unsortedConfig Audits.model .empty).toOption.any (fun s =>
        (storeSubclass unsortedConfig Audits.model s Audits.spotAudit).toOption.any (fun s' =>
          (s'.entityTable? Audits.spotAudit.id).any (fun te =>
            (te.foreignKeys.map fun k => (k.reason, k.parentColumnIds)) =
              [(.subclass, ["AuditId", "CharterSchoolId"])] ∧
            te.primaryKeyIds = ["AuditId", "SchoolId"]))) = true := by decide +kernel
    obtain ⟨s, hs, hrun⟩ := exists_eq_ok_of_any hrun
    obtain ⟨s', hs', hrun⟩ := exists_eq_ok_of_any hrun
    obtain ⟨te, hte, hrun⟩ := (Option.any_eq_true _ _).mp hrun
    obtain ⟨hforeign, hown⟩ := of_decide_eq_true hrun
    have hreaches : Reaches unsortedConfig Audits.model .empty s :=
      reaches_of_foldlM (fun _ _ _ he hstep => .entity he hstep) hs
    obtain ⟨key, tb, te', kb, -, -, hte', hkb, -, -, -, honly, hiff, hstray⟩ :=
      baseKey_within_key_iff (b := Audits.audit) (by decide +kernel) (by decide +kernel) hreaches
        (by simp [Audits.model]) rfl rfl (Or.inl rfl) (by decide +kernel) hs'
    obtain rfl : te' = te := Option.some.inj (hte'.symm.trans hte)
    refine ⟨s, s', te', kb, hs, hs', hte, hkb, hforeign, hown, ?_⟩
    -- its only foreign key is the one for the subclass, and that one leaves the key
    obtain ⟨k, hk, hkeys⟩ := List.map_eq_singleton_iff.mp hforeign
    simp only [Prod.mk.injEq] at hkeys
    obtain rfl : k = key := honly k (by simp [hk]) hkeys.1
    have hleaves : ¬te'.IsKeyedBy k := fun hkeyed => by
      have hmem := hkeyed.2 "CharterSchoolId" (by simp [hkeys.2])
      simp [hown] at hmem
    rw [hiff] at hleaves
    push Not at hleaves
    obtain ⟨id, hid, hcollected, hkey⟩ := hleaves (by simp [hk, hkeys.1])
    refine ⟨id, ?_, hcollected, hkey⟩
    -- there are no descriptors, so the column is a stray one
    rcases hstray with hstray | ⟨-, d, hd, -⟩
    · exact (hstray id hcollected).mp hid
    · rw [show Audits.model.ofKind .descriptor = [] by decide +kernel] at hd
      cases hd
  · have hrun : (mainTables unsortedConfig Paints.model .empty).toOption.any (fun s =>
        (storeSubclass unsortedConfig Paints.model s Paints.paint).toOption.any (fun s' =>
          ((unsortedConfig.tableContext Paints.model s).baseKey Paints.paint "Paint").toOption.any
            (fun key => (s'.entityTable? Paints.paint.id).any (fun te =>
              (te.foreignKeys.map fun k => (k.reason, k.address, k.id)) =
                [(.lookup, ⟨"Sample", "ColorType"⟩, key.id)] ∧
              key.address = ⟨"EdFi", "ColorType"⟩)))) = true := by decide +kernel
    obtain ⟨s, hs, hrun⟩ := exists_eq_ok_of_any hrun
    obtain ⟨s', hs', hrun⟩ := exists_eq_ok_of_any hrun
    obtain ⟨key, hkey, hrun⟩ := exists_eq_ok_of_any hrun
    obtain ⟨te, hte, hrun⟩ := (Option.any_eq_true _ _).mp hrun
    obtain ⟨hforeign, haddress⟩ := of_decide_eq_true hrun
    have hreaches : Reaches unsortedConfig Paints.model .empty s :=
      reaches_of_foldlM (fun _ _ _ he hstep => .entity he hstep) hs
    obtain ⟨key', tb, te', kb, hkey', -, hte', -, -, -, -, -, hiff, -⟩ :=
      baseKey_within_key_iff (b := Paints.colorType) (by decide +kernel) (by decide +kernel)
        hreaches (by simp [Paints.model]) rfl rfl (Or.inl rfl) (by decide +kernel) hs'
    obtain rfl : key' = key := Except.ok.inj (hkey'.symm.trans hkey)
    obtain rfl : te' = te := Option.some.inj (hte'.symm.trans hte)
    refine ⟨s, s', key', te', hs, hs', hkey, hte, hforeign, haddress, fun hkeyed => ?_⟩
    obtain ⟨k, hk, hkeys⟩ := List.map_eq_singleton_iff.mp hforeign
    simp only [Prod.mk.injEq] at hkeys
    exact (hiff.mp hkeyed).1 k (by simp [hk]) hkeys.1 hkeys.2.2
  · have hrun : (runPasses unsortedConfig Annexes.model .mainTables (Pass.ofStage .mainTables)
        .start).toOption.any (fun result =>
          (storeSubclass unsortedConfig Annexes.model result.1.schema
            Annexes.annex).toOption.any (fun s' =>
              (result.1.schema.entityTable? Annexes.campus.id).any (fun tb =>
                (s'.entityTable? Annexes.annex.id).any (fun te =>
                  tb.primaryKeyIds = [Annexes.site.mapTypeKey] ∧
                  te.primaryKeyIds = ["CampusId"])))) = true := by decide +kernel
    have hcollected : (Annexes.model.keys Annexes.campus .root).toOption.any (fun kb =>
        kb.map Column.id = ["CampusId"]) = true := by decide +kernel
    obtain ⟨⟨progress, outcomes⟩, hs, hrun⟩ := exists_eq_ok_of_any hrun
    obtain ⟨s', hs', hrun⟩ := exists_eq_ok_of_any hrun
    obtain ⟨tb, htb, hrun⟩ := (Option.any_eq_true _ _).mp hrun
    obtain ⟨te, hte, hrun⟩ := (Option.any_eq_true _ _).mp hrun
    obtain ⟨hbase, hown⟩ := of_decide_eq_true hrun
    obtain ⟨key, tb', te', kb, -, htb', hte', hkb, -, -, hforeign, -, hiff, -⟩ :=
      baseKey_within_key_iff (b := Annexes.campus) (by decide +kernel) (by decide +kernel)
        (reaches_of_runPasses hs) (by simp [Annexes.model]) rfl rfl (Or.inl rfl)
        (by decide +kernel) hs'
    obtain rfl : tb' = tb := Option.some.inj (htb'.symm.trans htb)
    obtain rfl : te' = te := Option.some.inj (hte'.symm.trans hte)
    refine ⟨progress, outcomes, s', tb', te', key, hs, hs', htb, hte, hbase, hown, hforeign,
      fun hkeyed => ?_⟩
    simp only [hkb, Except.toOption, Option.any_some, decide_eq_true_eq] at hcollected
    have hmem := (hiff.mp hkeyed).2 Annexes.site.mapTypeKey (by simp [hbase])
    rw [hcollected, hown, or_self] at hmem
    exact absurd hmem (by decide +kernel)

end Tabular
