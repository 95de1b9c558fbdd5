import Mathlib.Logic.Relation
import Mathlib.Tactic.Common
import Tabular.Proofs.Derive.FirmKeys
import Tabular.Proofs.Derive.Links

/-!
# Where lookup keys come from

A property that takes its values from a lookup table gives its table a foreign key for the column of
the property. The key is made before the lookup table is: its namespace, name and key column are
worked out from the entity that the property refers to. This file follows such keys from the
property to the tables of a set. Whatever building does afterwards, the column stays.

## Main definitions

* `TableContext.LooksUp`: the foreign key of a lookup property.
* `Table.LookupsTraced`, `TableSet.LookupsTraced`: every lookup key of a table comes from a property
  of the model.
* `Model.HasTypedLookups`: lookup properties refer to lookup entities of their kind.
* `Model.HasPlainDescriptors`: descriptors have no identity properties.

## Main results

* `TableContext.Built.lookupsTraced`: building makes no other lookup keys.
* `TableContext.Built.reason_ne_lookup`: no table hangs off another one for a lookup.
* `Model.HasPlainDescriptors.not_firmKey`: the properties of a descriptor write no key columns.
-/

namespace Tabular

/-- The foreign key for a lookup property whose column in a table has the given name. -/
def TableContext.LooksUp (ctx : TableContext) (d : Declaration) (tableId columnId : String)
    (k : ForeignKey) : Prop :=
  ∃ target, ctx.lookupTarget d = .ok target ∧
    k = target.foreignKey tableId columnId d.property.fullName

/-- Every lookup key of the table starts at one of its columns and is the key of a lookup property
of the model. -/
def Table.LookupsTraced (ctx : TableContext) (t : Table) : Prop :=
  ∀ k ∈ t.foreignKeys, k.reason = .lookup → ∃ d, ctx.model.Declares d ∧
    d.property.kind.tableRule = .lookup ∧
      ∃ columnId ∈ t.columns.map Column.id, ctx.LooksUp d t.tableId columnId k

/-- The tables of the set have no lookup keys but those of properties, and none of them hangs off
another one for a lookup. -/
structure TableSet.LookupsTraced (ctx : TableContext) (set : TableSet) : Prop where
  tables : ∀ t ∈ set.tables, t.LookupsTraced ctx
  links : ∀ l ∈ set.links, l.reason ≠ .lookup

/-! ### Changes of a table -/

namespace Table.LookupsTraced

variable {ctx : TableContext} {t t' : Table} {k : ForeignKey} {v : Version}

theorem of_nil (h : t.foreignKeys = []) : t.LookupsTraced ctx := by
  intro k hk
  simp [h] at hk

/-- A change that keeps the columns and adds no lookup keys. -/
theorem mono (h : t.LookupsTraced ctx) (hkey : t'.key = t.key)
    (hcolumns : ∀ id ∈ t.columns.map Column.id, id ∈ t'.columns.map Column.id)
    (hkeys : ∀ k ∈ t'.foreignKeys, k.reason = .lookup → k ∈ t.foreignKeys) :
    t'.LookupsTraced ctx := by
  intro k hk hreason
  obtain ⟨d, hd, hrule, columnId, hcolumn, hlookup⟩ := h k (hkeys k hk hreason) hreason
  have htable : t'.tableId = t.tableId := congrArg TableKey.tableId hkey
  exact ⟨d, hd, hrule, columnId, hcolumns _ hcolumn, htable ▸ hlookup⟩

theorem addColumns (h : t.LookupsTraced ctx) (cs : List Column) :
    (t.addColumns v cs).LookupsTraced ctx := by
  refine h.mono (by simp) (fun id hid => ?_) (by simp +contextual)
  rw [Table.columns_addColumns, mem_map_id_foldl_mergeColumn_iff]
  exact Or.inl hid

theorem addParentKeys (h : t.LookupsTraced ctx) (cs : List Column) :
    (t.addParentKeys v cs).LookupsTraced ctx := by
  refine h.mono (by simp) (fun id hid => ?_) (by simp +contextual)
  rw [Table.columns_addParentKeys, mem_map_id_foldl_mergeColumn_iff]
  exact Or.inl hid

theorem addReferenceSource (h : t.LookupsTraced ctx) (r : ReferenceSource) :
    (t.addReferenceSource r).LookupsTraced ctx :=
  h.mono (by simp) (by simp) (by simp +contextual)

theorem arranged (h : t.LookupsTraced ctx) : (TableSet.arranged v t).LookupsTraced ctx := by
  refine h.mono (by simp) (fun id hid => ?_) (by simp +contextual)
  unfold TableSet.arranged
  split_ifs
  · exact (t.columns_sortColumns_perm.map Column.id).mem_iff.mpr hid
  · exact hid

/-- A foreign key that exists for another reason. -/
theorem addForeignKey (h : t.LookupsTraced ctx) (hk : k.reason ≠ .lookup) :
    (t.addForeignKey k).LookupsTraced ctx := by
  refine h.mono (by simp) (by simp) fun j hj hreason => ?_
  rcases Table.mem_foreignKeys_addForeignKey hj with hj | rfl
  · exact hj
  · exact absurd hreason hk

/-- The foreign key of a property whose column the table has. -/
theorem addLookup (h : t.LookupsTraced ctx) {d : Declaration} {target : LookupTarget}
    {columnId : String} (hd : ctx.model.Declares d) (hrule : d.property.kind.tableRule = .lookup)
    (htarget : ctx.lookupTarget d = .ok target) (hcolumn : columnId ∈ t.columns.map Column.id) :
    (t.addForeignKey (target.foreignKey t.tableId columnId d.property.fullName)).LookupsTraced
      ctx := by
  intro k hk hreason
  rw [Table.columns_addForeignKey, show (t.addForeignKey _).tableId = t.tableId from
    congrArg TableKey.tableId (t.key_addForeignKey _)]
  rcases Table.mem_foreignKeys_addForeignKey hk with hk | rfl
  · exact h k hk hreason
  · exact ⟨d, hd, hrule, columnId, hcolumn, target, htarget, rfl⟩

end Table.LookupsTraced

/-! ### Building -/

namespace TableContext

variable {ctx : TableContext} {d : Declaration} {ds : List Declaration} {scope : Scope}
  {s : Strategy} {set next : TableSet}

theorem reason_link {i : Nat} {target : LinkTarget} {r : ForeignKeyReason} (hr : r ≠ .lookup)
    (hset : ∀ l ∈ set.links, l.reason ≠ .lookup) :
    ∀ l ∈ (set.link i target r).links, l.reason ≠ .lookup := by
  intro l hl
  rcases List.mem_append.mp hl with hl | hl
  · exact hset l hl
  · exact List.mem_singleton.mp hl ▸ hr

theorem reason_linkOrDiscard {i : Nat} {key : TableKey} {r : ForeignKeyReason} (hr : r ≠ .lookup)
    (hset : ∀ l ∈ set.links, l.reason ≠ .lookup) :
    ∀ l ∈ (linkOrDiscard i key r set).links, l.reason ≠ .lookup := by
  intro l hl
  rcases mem_links_linkOrDiscard hl with hl | rfl
  · exact hset l hl
  · exact hr

/-- No table of a set hangs off another one for a lookup. -/
theorem Built.reason_ne_lookup (h : ctx.Built ds scope s set next)
    (hset : ∀ l ∈ set.links, l.reason ≠ .lookup) : ∀ l ∈ next.links, l.reason ≠ .lookup := by
  induction h with
  | nil | lookupSkipped | referenceSkipped | column | lookup | reference => exact hset
  | cons _ _ ihhead ihtail => exact ihtail (ihhead hset)
  | collection | referenceCollection => exact reason_link (by decide) hset
  | common _ _ _ _ ih =>
    refine reason_link (by decide) ?_
    unfold commonClosed
    split_ifs <;> exact ih hset
  | commonExtension _ _ _ _ ih => exact reason_linkOrDiscard (by decide) (ih hset)
  | choice _ _ _ ih | inlineCommon _ _ _ ih => exact ih hset

theorem lookupsTraced_push {t : Table} (hset : ∀ u ∈ set.tables, u.LookupsTraced ctx)
    (ht : t.LookupsTraced ctx) : ∀ u ∈ (set.push t).tables, u.LookupsTraced ctx :=
  TableSet.forall_tables_push hset fun _ => ht

/-- The table of a collection has the column that its lookup key starts at. -/
theorem lookupsTraced_collectionJoin {lookup : Option LookupTarget} {columns : List Column}
    (hd : ctx.model.Declares d) (hlookup : ∀ target, lookup = some target →
      d.property.kind.tableRule = .lookup ∧ ctx.lookupTarget d = .ok target) :
    (ctx.collectionJoin d scope s lookup columns).LookupsTraced ctx := by
  unfold collectionJoin
  split
  · rename_i target c rest
    obtain ⟨hrule, htarget⟩ := hlookup target rfl
    -- the key comes first and the column after it
    intro k hk _
    rw [Table.foreignKeys_addColumns] at hk
    rcases Table.mem_foreignKeys_addForeignKey hk with hk | rfl
    · simp [joinTable, Table.ofReason] at hk
    · refine ⟨d, hd, hrule, c.id, ?_, target, htarget, ?_⟩
      · rw [Table.columns_addColumns, mem_map_id_foldl_mergeColumn_iff]
        exact Or.inr (by simp [Column.primaryKey])
      · have htableId (t : Table) (k : ForeignKey) (cs : List Column) :
            ((t.addForeignKey k).addColumns ctx.version cs).tableId = t.tableId :=
          congrArg TableKey.tableId (by simp : ((t.addForeignKey k).addColumns _ cs).key = t.key)
        rw [htableId]
  · exact .of_nil (by simp [joinTable, Table.ofReason])

/-- Building makes no lookup keys but those of the properties that it reads. -/
theorem Built.lookupsTraced (h : ctx.Built ds scope s set next)
    (hds : ∀ d ∈ ds, ctx.model.Declares d) (hset : ∀ t ∈ set.tables, t.LookupsTraced ctx) :
    ∀ t ∈ next.tables, t.LookupsTraced ctx := by
  induction h with
  | nil | lookupSkipped | referenceSkipped => exact hset
  | cons _ _ ihhead ihtail =>
    rw [List.forall_mem_cons] at hds
    exact ihtail hds.2 (ihhead (List.forall_mem_singleton.mpr hds.1) hset)
  | column => exact TableSet.forall_tables_modify hset fun t ht => ht.addColumns _
  | @lookup d _ _ _ _ c _ hrule _ htarget =>
    -- the column and the key that starts at it enter the same table
    rw [Scope.addColumns, TableSet.modify_modify]
    have hd := hds d (List.mem_singleton.mpr rfl)
    refine TableSet.forall_tables_modify hset fun t ht =>
      (ht.addColumns _).addLookup hd hrule htarget ?_
    rw [Table.columns_addColumns, mem_map_id_foldl_mergeColumn_iff]
    exact Or.inr (by simp)
  | @collection d _ _ _ _ _ _ _ _ hlookup =>
    exact lookupsTraced_push hset
      (lookupsTraced_collectionJoin (hds d (List.mem_singleton.mpr rfl)) hlookup)
  | reference =>
    rw [Scope.addColumns, TableSet.modify_modify]
    exact TableSet.forall_tables_modify hset fun t ht => (ht.addColumns _).addReferenceSource _
  | referenceCollection =>
    exact lookupsTraced_push hset (.of_nil (by simp [referenceJoin, joinTable, Table.ofReason]))
  | common _ hreferenced _ _ ih =>
    have hmid := ih (Model.declares_of_referencedEntity hreferenced)
      (lookupsTraced_push hset (.of_nil ?_))
    · unfold commonClosed
      split_ifs
      · exact hmid
      · exact TableSet.forall_tables_modify hmid fun t ht => ht.addParentKeys _
    · simp only [commonJoin]
      split_ifs <;> simp [joinTable, Table.ofReason]
  | commonExtension _ hreferenced _ _ ih =>
    rw [tables_linkOrDiscard]
    exact ih (Model.declares_of_referencedEntity hreferenced)
      (lookupsTraced_push hset (.of_nil (by simp [suffixedTable, Table.ofReason])))
  | choice _ hreferenced _ ih | inlineCommon _ hreferenced _ ih =>
    exact ih (Model.declares_of_referencedEntity hreferenced) hset

/-- The tables of an entity that are built from a single one. -/
theorem Built.lookupsTraced_of_start {e : Entity} {id : EntityId} {start : Table}
    (he : e ∈ ctx.model.entities) (hstart : start.LookupsTraced ctx)
    (h : ctx.Built e.declarations scope s ((TableSet.empty id).push start) next) :
    next.LookupsTraced ctx where
  tables := h.lookupsTraced (fun _ => Model.declares_of_mem he)
    (lookupsTraced_push (by simp [TableSet.empty]) hstart)
  links := h.reason_ne_lookup (by simp [TableSet.empty])

theorem lookupsTraced_of_mainTable {e : Entity} {reason : TableReason}
    (he : e ∈ ctx.model.entities) (h : ctx.mainTable e reason = .ok set) :
    set.LookupsTraced ctx := by
  obtain ⟨keys, inherited, -, -, hbuilt⟩ := built_of_mainTable h
  exact hbuilt.lookupsTraced_of_start he (.of_nil (by simp [mainTableStart, Table.ofReason]))

theorem lookupsTraced_of_extensionTable {e : Entity} (he : e ∈ ctx.model.entities)
    (h : ctx.extensionTable e = .ok set) : set.LookupsTraced ctx := by
  obtain ⟨base, key, parent, mid, -, -, -, hbuilt, rfl⟩ := built_of_extensionTable h
  have hmid := hbuilt.lookupsTraced_of_start he
    (.of_nil (by simp [suffixedTable, Table.ofReason]))
  exact ⟨by simpa using hmid.tables, reason_linkOrDiscard (by decide) hmid.links⟩

end TableContext

/-! ### Models -/

namespace Model

/-- Descriptor properties refer to descriptors, and enumeration properties to enumerations. -/
def HasTypedLookups (m : Model) : Prop :=
  ∀ o ∈ m.entities, ∀ p ∈ o.properties, ∀ e ∈ p.referencedEntity.bind m.entity?,
    (p.kind = .descriptor → e.kind = .descriptor) ∧
      (p.kind = .enumeration → e.kind = .enumeration)

instance (m : Model) : Decidable m.HasTypedLookups :=
  inferInstanceAs (Decidable (∀ o ∈ m.entities, ∀ p ∈ o.properties,
    ∀ e ∈ p.referencedEntity.bind m.entity?, (p.kind = .descriptor → e.kind = .descriptor) ∧
      (p.kind = .enumeration → e.kind = .enumeration)))

/-- An inline common of the first entity leads to the second. -/
def Inlines (m : Model) (e f : Entity) : Prop :=
  ∃ p ∈ e.properties, p.kind = .inlineCommon ∧ p.referencedEntity.bind m.entity? = some f

/-- No identity property occurs in a descriptor, nor in what inline commons lead to from it. -/
def HasPlainDescriptors (m : Model) : Prop :=
  ∀ e ∈ m.ofKind .descriptor, ∀ f, Relation.ReflTransGen m.Inlines e f →
    ∀ p ∈ f.properties, p.isPartOfIdentity = false

variable {m : Model} {e : Entity} {d : Declaration}

theorem HasTypedLookups.mem_ofKind (h : m.HasTypedLookups) (hd : m.Declares d)
    (he : m.referencedEntity d.owner d.property = .ok e) :
    (d.property.kind = .descriptor → e ∈ m.ofKind .descriptor) ∧
      (d.property.kind = .enumeration → e ∈ m.ofKind .enumeration) := by
  obtain ⟨id, hid, hentity⟩ := exists_of_referencedEntity he
  have hkinds := h d.owner hd.1 d.property (Entity.property_mem_of_mem_declarations hd.2) e
    (by simp [hid, hentity])
  have hmem := mem_entities_of_referencedEntity he
  exact ⟨fun hkind => List.mem_filter.mpr ⟨hmem, by simpa using hkinds.1 hkind⟩,
    fun hkind => List.mem_filter.mpr ⟨hmem, by simpa using hkinds.2 hkind⟩⟩

/-- What an entity embeds is reached through inline commons. -/
theorem Embeds.reflTransGen_inlines {f : Entity} {s s' : Strategy} (h : m.Embeds e s f s') :
    Relation.ReflTransGen m.Inlines e f := by
  induction h with
  | self => exact .refl
  | through hd _ hf _ ih =>
    obtain ⟨hmem, hkind⟩ := Entity.mem_inlineCommons_iff.mp hd
    obtain ⟨id, hid, hentity⟩ := exists_of_referencedEntity hf
    exact .head ⟨_, Entity.property_mem_of_mem_declarations hmem, hkind, by simp [hid, hentity]⟩ ih

/-- The properties of a descriptor write no key columns into its table. -/
theorem HasPlainDescriptors.not_firmKey (h : m.HasPlainDescriptors)
    (he : e ∈ m.ofKind .descriptor) (s : Strategy) (id : String) : ¬m.FirmKey e s id := by
  rintro ⟨f, s', hembeds, d, hd, hidentity, -⟩
  have hplain := h e he f hembeds.reflTransGen_inlines d.property
    (Entity.property_mem_of_mem_declarations hd)
  simp [hplain] at hidentity

/-- Descriptors are plain if no entity of a list that contains them and what inline commons lead to
has an identity property. -/
theorem hasPlainDescriptors_of_closed (es : List Entity) (hes : ∀ e ∈ m.ofKind .descriptor, e ∈ es)
    (hclosed : ∀ e ∈ es, ∀ p ∈ e.properties, p.kind = .inlineCommon →
      ∀ f ∈ p.referencedEntity.bind m.entity?, f ∈ es)
    (hplain : ∀ e ∈ es, ∀ p ∈ e.properties, p.isPartOfIdentity = false) :
    m.HasPlainDescriptors := by
  intro e he f hreach
  have hf : f ∈ es := by
    induction hreach with
    | refl => exact hes e he
    | tail _ hstep ih =>
      obtain ⟨p, hp, hkind, hf⟩ := hstep
      exact hclosed _ ih p hp hkind _ hf
  exact hplain f hf

end Model

end Tabular
