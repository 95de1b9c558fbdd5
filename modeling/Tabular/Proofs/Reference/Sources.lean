import Mathlib.Tactic.Common
import Tabular.Proofs.Derive.Contributions
import Tabular.Proofs.Run.Evolution

/-!
# References and the columns of their tables

A table that knows a reference has columns for it. In a model without merge directives there is one
for every chain of properties that leads to a key column of the referenced entity, and it is found
by the text of the chain. If the reference belongs to the entity of the table itself, and not to a
composite inside it, the column is also found by its name.

## Main definitions

* `Model.IsMergeFree`, `Model.IsIndexed`: the models in question.
* `Table.Supplies`, `Table.IsSupplied`: a table has the columns of a reference, or of all references
  it knows.
* `Strategy.IsClear`: the strategies under which tables are built in such a model.

## Main results

* `Model.exists_yields_keys`: keys as seen from further out.
* `TableContext.Built.isSupplied`: building keeps tables supplied.
* `Reaches.isSupplied`: every table of a run is supplied.
-/

namespace Tabular

/-! ### Models -/

/-- No property of the model carries a merge directive. -/
def Model.IsMergeFree (m : Model) : Prop :=
  ∀ e ∈ m.entities, ∀ p ∈ e.properties, p.mergeDirectives = []

instance (m : Model) : Decidable m.IsMergeFree :=
  inferInstanceAs (Decidable (∀ e ∈ m.entities, ∀ p ∈ e.properties, p.mergeDirectives = []))

/-- Every entity of the model carries its position. -/
def Model.IsIndexed (m : Model) : Prop :=
  m.entities.map Entity.id = List.range m.entities.length

instance (m : Model) : Decidable m.IsIndexed :=
  inferInstanceAs (Decidable (m.entities.map Entity.id = List.range m.entities.length))

/-- Domain entities and associations without base are no subclasses. -/
theorem Model.not_isSubclass_of_mem_mainEntities {m : Model} {e : Entity}
    (he : e ∈ m.mainEntities) : e.kind.isSubclass = false := by
  simp only [mainEntities, List.mem_filter, Bool.and_eq_true, Bool.or_eq_true,
    decide_eq_true_eq] at he
  rcases he.2.1 with hkind | hkind <;> simp [hkind, EntityKind.isSubclass]

/-- The property is declared by an entity of the model. -/
def Model.Declares (m : Model) (d : Declaration) : Prop :=
  d.owner ∈ m.entities ∧ d ∈ d.owner.declarations

theorem Entity.mem_declarations_iff {e : Entity} {d : Declaration} :
    d ∈ e.declarations ↔ d.owner = e ∧ e.properties[d.index]? = some d.property := by
  simp only [declarations, List.mem_map, Prod.exists, List.mem_zipIdx_iff_getElem?]
  constructor
  · rintro ⟨p, i, hp, rfl⟩
    exact ⟨rfl, hp⟩
  · rintro ⟨rfl, hp⟩
    exact ⟨d.property, d.index, hp, rfl⟩

namespace Model

variable {m : Model} {e : Entity} {d : Declaration}

theorem IsIndexed.id_of_entity? (h : m.IsIndexed) {id : EntityId} (he : m.entity? id = some e) :
    e.id = id := by
  have hlt : id < m.entities.length := (List.getElem?_eq_some_iff.mp he).1
  have hid : (m.entities.map Entity.id)[id]? = some e.id := by
    rw [List.getElem?_map, show m.entities[id]? = some e from he]
    rfl
  rw [h, List.getElem?_range hlt] at hid
  exact (Option.some.inj hid).symm

theorem IsIndexed.entity?_id (h : m.IsIndexed) (he : e ∈ m.entities) : m.entity? e.id = some e := by
  obtain ⟨i, hi⟩ := List.mem_iff_getElem?.mp he
  rw [h.id_of_entity? hi]
  exact hi

/-- Entities that carry their positions are told apart by them. -/
theorem IsIndexed.eq_of_id_eq (h : m.IsIndexed) {f : Entity} (he : e ∈ m.entities)
    (hf : f ∈ m.entities) (hid : e.id = f.id) : e = f :=
  Option.some.inj ((h.entity?_id he).symm.trans (hid ▸ h.entity?_id hf))

theorem exists_of_referencedEntity {owner : Entity} {p : Property}
    (h : m.referencedEntity owner p = .ok e) :
    ∃ id, p.referencedEntity = some id ∧ m.entity? id = some e := by
  unfold referencedEntity at h
  split at h
  · rename_i found hfound
    exact Except.ok.inj h ▸ Option.bind_eq_some_iff.mp hfound
  · simp at h

theorem mem_entities_of_referencedEntity {owner : Entity} {p : Property}
    (h : m.referencedEntity owner p = .ok e) : e ∈ m.entities := by
  obtain ⟨id, -, hid⟩ := exists_of_referencedEntity h
  exact List.mem_of_getElem? hid

theorem baseEntity_eq_ok_iff {b : Entity} :
    m.baseEntity e = .ok b ↔ e.baseEntity.bind m.entity? = some b := by
  unfold baseEntity
  cases e.baseEntity.bind m.entity? <;> simp

theorem mem_entities_of_baseEntity {b : Entity} (h : m.baseEntity e = .ok b) :
    b ∈ m.entities := by
  obtain ⟨i, -, hi⟩ := Option.bind_eq_some_iff.mp (baseEntity_eq_ok_iff.mp h)
  exact List.mem_of_getElem? hi

theorem declares_of_mem (he : e ∈ m.entities) (hd : d ∈ e.declarations) : m.Declares d := by
  obtain ⟨rfl, -⟩ := Entity.mem_declarations_iff.mp hd
  exact ⟨he, hd⟩

/-- The properties of an entity that another one refers to are declared. -/
theorem declares_of_referencedEntity {owner : Entity} {p : Property}
    (h : m.referencedEntity owner p = .ok e) : ∀ d ∈ e.declarations, m.Declares d :=
  fun _ => declares_of_mem (mem_entities_of_referencedEntity h)

/-- A declared property is found at its address. -/
theorem Declares.property? (h : m.Declares d) (hindexed : m.IsIndexed) :
    m.property? d.id = some d.property := by
  have hproperty := (Entity.mem_declarations_iff.mp h.2).2
  simp [Model.property?, Declaration.id, hindexed.entity?_id h.1, hproperty]

theorem IsMergeFree.mergeDirectives (h : m.IsMergeFree) (hd : m.Declares d) :
    d.property.mergeDirectives = [] :=
  h d.owner hd.1 d.property (List.mem_of_getElem? (Entity.mem_declarations_iff.mp hd.2).2)

theorem IsMergeFree.withoutMerges_entity (h : m.IsMergeFree) (he : e ∈ m.entities) :
    e.withoutMerges = e := by
  have hproperties : e.properties.map Property.withoutMerges = e.properties := by
    refine (List.map_congr_left fun p hp => ?_).trans (List.map_id _)
    rw [Property.withoutMerges, ← h e he p hp]
    rfl
  rw [Entity.withoutMerges, hproperties]

theorem IsMergeFree.withoutMerges_eq (h : m.IsMergeFree) : m.withoutMerges = m := by
  have hentities : m.entities.map Entity.withoutMerges = m.entities :=
    (List.map_congr_left fun _ he => h.withoutMerges_entity he).trans (List.map_id _)
  rw [Model.withoutMerges, hentities]

/-- The chains to key columns carry no merge directives either. -/
theorem IsMergeFree.of_chain (h : m.IsMergeFree) (he : e ∈ m.entities) {ch : List Hop}
    (hch : m.Chain (.keys e) ch) : ∀ hop ∈ ch, hop.declaration.property.mergeDirectives = [] := by
  have hquery : (Query.keys e).withoutMerges = .keys e :=
    congrArg Query.keys (h.withoutMerges_entity he)
  rw [← h.withoutMerges_eq, ← hquery, chain_withoutMerges_iff] at hch
  obtain ⟨ch', -, rfl⟩ := hch
  intro hop hhop
  obtain ⟨k, -, rfl⟩ := List.mem_map.mp hhop
  cases k <;> rfl

end Model

/-! ### Keys seen from further out -/

theorem Strategy.parentContext_append (s : Strategy) (p : Property) :
    (s.append p).parentContext = s.parentContext ++ p.contextPrefix := by
  have hlayer : (Layer.context (.of p)).context? = some (.of p) := rfl
  rw [parentContext, parentContexts_eq, plain_append, List.filterMap_cons_some hlayer,
    List.reverse_cons, List.map_append, Text.concat_append, ← parentContexts_eq, ← parentContext]
  simp [ParentContext.of]

/-- Inside a property there is a further context, and flags stay as they are. -/
theorem Strategy.mem_layers_append_iff {s : Strategy} {l : Layer} (hskip : l.skip? = none)
    (hcontext : l.context? = none) (p : Property) :
    l ∈ (s.append p).layers ↔ l ∈ s.layers := by
  rw [← mem_plain_iff hskip, plain_append, List.mem_cons, mem_plain_iff hskip]
  refine or_iff_right fun h => ?_
  rw [h] at hcontext
  simp [Layer.context?] at hcontext

/-- Without merge directives a key column is there under every strategy without skip layers. The
prefixes further out come in front of its name. -/
theorem Model.exists_yields_keys {m : Model} {e : Entity} {s : Strategy} {k : Column}
    (hmerges : m.IsMergeFree) (he : e ∈ m.entities) (hskips : s.skips = [])
    (hroles : Strategy.Layer.ignoreRoleName ∉ s.layers) (hk : m.Yields (.keys e) .root k) :
    ∃ c, m.Yields (.keys e) s c ∧ c.referenceContext = k.referenceContext ∧
      c.id = s.parentContext ++ k.id := by
  obtain ⟨ch, hch, -, hcolumn⟩ := hk
  obtain ⟨c, hc⟩ := hch.exists_columnOf? s
  have hadmits : s.admits ch = true := Strategy.admits_of_mergeFree hskips (hmerges.of_chain he hch)
  refine ⟨c, ⟨ch, hch, hadmits, hc⟩, ?_, ?_⟩
  · rw [(Strategy.referenceContext_of_columnOf? hc).1,
      (Strategy.referenceContext_of_columnOf? hcolumn).1]
  · refine Strategy.id_of_columnOf? ?_ ?_ hc hcolumn
    · rw [show Strategy.root.parentContext = "" from rfl, String.append_empty]
    · exact iff_of_false hroles (by simp [Strategy.root])

/-! ### Supplied tables -/

/-- The reference is that of a declared property, and the table has a column for every chain to a
key column of the referenced entity. -/
structure Table.Supplies (m : Model) (t : Table) (r : ReferenceSource) (d : Declaration)
    (e : Entity) : Prop where
  declared : m.Declares d
  rule : d.property.kind.tableRule = .reference
  property : r.property = d.id
  leads : m.referencedEntity d.owner d.property = .ok e
  entity : r.referencedEntity = e.id
  columns : ∀ k, m.Yields (.keys e) .root k → ∃ id,
    Carries t.columns id
      (Text.concat r.ownerPath ++ d.property.fullName ++ k.referenceContext) ∧
    (r.ownerPath = [] → id = d.property.contextPrefix ++ k.id)

/-- The table has the columns of all references that it knows. -/
def Table.IsSupplied (m : Model) (t : Table) : Prop :=
  ∀ r ∈ t.referenceSources, ∃ d e, t.Supplies m r d e

namespace Table.IsSupplied

variable {m : Model} {t t' : Table}

/-- A table without references. -/
theorem of_nil (h : t.referenceSources = []) : t.IsSupplied m := by
  simp [IsSupplied, h]

/-- Changes that keep the columns of a table. -/
theorem mono (h : t.IsSupplied m) (hsources : t'.referenceSources = t.referenceSources)
    (hcarries : ∀ id context, Carries t.columns id context → Carries t'.columns id context) :
    t'.IsSupplied m := by
  intro r hr
  obtain ⟨d, e, hsupplies⟩ := h r (hsources ▸ hr)
  refine ⟨d, e, { hsupplies with columns := fun k hk => ?_ }⟩
  obtain ⟨id, hid, hname⟩ := hsupplies.columns k hk
  exact ⟨id, hcarries _ _ hid, hname⟩

theorem evolves (h : t.IsSupplied m) (hevolves : t.Evolves t') : t'.IsSupplied m :=
  h.mono hevolves.sources hevolves.carries

theorem addColumns (h : t.IsSupplied m) (v : Version) (cs : List Column) :
    (t.addColumns v cs).IsSupplied m := by
  refine h.mono (t.referenceSources_addColumns v cs) fun id context hcarries => ?_
  rw [columns_addColumns]
  exact carries_foldl_mergeColumn_of (Or.inl hcarries)

theorem addParentKeys (h : t.IsSupplied m) (v : Version) (cs : List Column) :
    (t.addParentKeys v cs).IsSupplied m := by
  refine h.mono (t.referenceSources_addParentKeys v cs) fun id context hcarries => ?_
  rw [columns_addParentKeys]
  exact carries_foldl_mergeColumn_of (Or.inl hcarries)

/-- A further reference whose columns are there. -/
theorem addReferenceSource (h : t.IsSupplied m) {r : ReferenceSource} {d : Declaration}
    {e : Entity} (hr : t.Supplies m r d e) : (t.addReferenceSource r).IsSupplied m := by
  have hcolumns := t.columns_addReferenceSource r
  intro r' hr'
  rcases (t.mem_referenceSources_addReferenceSource).mp hr' with hold | rfl
  · obtain ⟨d', e', hsupplies⟩ := h r' hold
    exact ⟨d', e', { hsupplies with columns := by simpa only [hcolumns] using hsupplies.columns }⟩
  · exact ⟨d, e, { hr with columns := by simpa only [hcolumns] using hr.columns }⟩

end Table.IsSupplied

/-! ### Strategies of tables -/

/-- The strategy leaves out nothing and keeps roles, and nothing is further out than the entity of
the table itself. -/
structure Strategy.IsClear (s : Strategy) (path : List String) : Prop where
  skips : s.skips = []
  roles : Layer.ignoreRoleName ∉ s.layers
  context : path = [] → s.parentContext = ""

namespace Strategy.IsClear

variable {s : Strategy} {path : List String}

theorem root : Strategy.root.IsClear path :=
  ⟨rfl, by simp [Strategy.root], fun _ => rfl⟩

theorem leafNullable (h : s.IsClear path) : s.leafNullable.IsClear path where
  skips := h.skips
  roles := by
    rw [Strategy.leafNullable, Strategy.push, List.mem_cons]
    simpa using h.roles
  context := h.context

theorem suppressKeys (h : s.IsClear path) : s.suppressKeys.IsClear path where
  skips := h.skips
  roles := by
    rw [Strategy.suppressKeys, Strategy.push, List.mem_cons]
    simpa using h.roles
  context := h.context

/-- Inside a composite the path is not empty. -/
theorem descend (h : s.IsClear path) (name : String) : s.IsClear (path ++ [name]) :=
  ⟨h.skips, h.roles, fun hpath => by simp at hpath⟩

theorem append (h : s.IsClear path) (p : Property) (name : String) :
    (s.append p).IsClear (path ++ [name]) where
  skips := skips_append_of_eq_nil h.skips p
  roles := (Strategy.mem_layers_append_iff rfl rfl p).not.mpr h.roles
  context hpath := by simp at hpath

/-- A new table has nothing further out. -/
theorem forNewTable (h : s.IsClear path) (path' : List String) : s.forNewTable.IsClear path' where
  skips := by
    rw [Strategy.skips, List.filterMap_eq_nil_iff]
    intro l hl
    refine List.filterMap_eq_nil_iff.mp h.skips l ?_
    simp only [Strategy.forNewTable, undoSuppressKeys, undoLeafNullable, List.mem_filter] at hl
    exact hl.1.1.1
  roles hmem := by
    simp only [Strategy.forNewTable, undoSuppressKeys, undoLeafNullable, List.mem_filter] at hmem
    exact h.roles hmem.1.1.1
  context _ := by
    have hnone : s.forNewTable.layers.filterMap Layer.context? = [] := by
      rw [List.filterMap_eq_nil_iff]
      intro l hl
      simp only [Strategy.forNewTable, List.mem_filter] at hl
      simpa using hl.2
    simp [parentContext, parentContexts, hnone]

end Strategy.IsClear

/-! ### Building -/

theorem TableSet.modify_modify (set : TableSet) (i : Nat) (f g : Table → Table) :
    (set.modify i f).modify i g = set.modify i (g ∘ f) := by
  simp [modify, List.modify_modify_eq]

namespace TableContext

variable {ctx : TableContext} {d : Declaration} {e : Entity} {scope : Scope} {s : Strategy}

theorem referenceSources_collectionJoin (lookup : Option LookupTarget) (columns : List Column) :
    (ctx.collectionJoin d scope s lookup columns).referenceSources = [] := by
  unfold collectionJoin
  rw [Table.referenceSources_addColumns]
  split <;> simp [joinTable, Table.ofReason]

theorem referenceSources_commonJoin :
    (ctx.commonJoin d e scope s).referenceSources = [] := by
  simp only [commonJoin]
  split_ifs <;> simp [joinTable, Table.ofReason]

theorem referenceSources_suffixedTable (parent : Table) (r : TableReason) :
    (ctx.suffixedTable e parent r).referenceSources = [] := by
  simp [suffixedTable, Table.ofReason]

/-- A reference brings its columns into the table of its scope. -/
theorem supplies_reference {m : Model} {v : Version} {f : ColumnTransform} {columns : List Column}
    {t : Table} (hmerges : m.IsMergeFree) (hclear : s.IsClear scope.path) (hd : m.Declares d)
    (hrule : d.property.kind.tableRule = .reference) (hsingle : d.property.isCollection = false)
    (he : m.referencedEntity d.owner d.property = .ok e)
    (hcolumns : m.columns d s = .ok columns) :
    (t.addColumns v (columns.map fun c => scope.place (f.apply c))).Supplies m
      ⟨scope.path, d.id, e.id⟩ d e := by
  refine ⟨hd, hrule, rfl, he, rfl, fun k hk => ?_⟩
  have hreference : d.property.kind.columnRule = .reference :=
    (PropertyKind.columnRule_eq_reference_iff _).mpr hrule
  have hmerging : s.merging d.property = s :=
    s.merging_of_mergeFree (hmerges.mergeDirectives hd)
  obtain ⟨c, hc, hcontext, hid⟩ := Model.exists_yields_keys hmerges
    (Model.mem_entities_of_referencedEntity he)
    (Strategy.skips_append_of_eq_nil hclear.skips d.property)
    ((Strategy.mem_layers_append_iff rfl rfl d.property).not.mpr hclear.roles) hk
  have hyields : m.Yields (.columns d) s (c.prefixedBy d.property.fullName) := by
    rw [Model.yields_reference_iff hreference, hmerging]
    exact ⟨Strategy.buildsColumns_of_skips_eq_nil hclear.skips _, hsingle, e, he, c, hc, rfl⟩
  refine ⟨c.id, ?_, fun hpath => ?_⟩
  · rw [Table.columns_addColumns, carries_foldl_place_iff fun c => Model.mem_columns_iff hcolumns]
    refine Or.inr ⟨_, hyields, rfl, ?_⟩
    simp only [Column.prefixedBy, hcontext, String.append_assoc]
  · rw [hid, Strategy.parentContext_append, hclear.context hpath, String.empty_append]

/-- The table of a collection of references has their columns. -/
theorem isSupplied_referenceJoin {keys : List Column} (hmerges : ctx.model.IsMergeFree)
    (hclear : s.IsClear scope.path) (hd : ctx.model.Declares d)
    (hrule : d.property.kind.tableRule = .reference)
    (he : ctx.model.referencedEntity d.owner d.property = .ok e)
    (hkeys : ctx.model.keys e ((s.forNewTable.merging d.property).append d.property) = .ok keys) :
    (ctx.referenceJoin d e scope s keys).IsSupplied ctx.model := by
  have hbare : (((joinTable scope s d.property .collection).addParentKeys ctx.version
      scope.primaryKeys).addColumns ctx.version
        ((prefixColumns d.property.fullName keys).map Column.primaryKey)).IsSupplied ctx.model :=
    .of_nil (by simp [joinTable, Table.ofReason])
  refine hbare.addReferenceSource (d := d) (e := e) ⟨hd, hrule, rfl, he, rfl, fun k hk => ?_⟩
  have hnew := hclear.forNewTable []
  rw [s.forNewTable.merging_of_mergeFree (hmerges.mergeDirectives hd)] at hkeys
  obtain ⟨c, hc, hcontext, hid⟩ := Model.exists_yields_keys hmerges
    (Model.mem_entities_of_referencedEntity he)
    (Strategy.skips_append_of_eq_nil hnew.skips d.property)
    ((Strategy.mem_layers_append_iff rfl rfl d.property).not.mpr hnew.roles) hk
  obtain ⟨ch, -, -, hch⟩ := id hc
  refine ⟨c.id, ?_, fun _ => ?_⟩
  · rw [Table.columns_addColumns]
    refine carries_foldl_mergeColumn_of (Or.inr
      ⟨(c.prefixedBy d.property.fullName).primaryKey, ?_, rfl, ?_⟩)
    · refine List.mem_map.mpr ⟨_, ?_, rfl⟩
      exact KeyDerivation.mem_prefixColumns_iff.mpr ⟨c, (Model.mem_keys_iff hkeys).mpr hc, rfl⟩
    · simp [Column.primaryKey, Column.prefixedBy, (Strategy.referenceContext_of_columnOf? hch).2,
        hcontext]
  · rw [hid, Strategy.parentContext_append, hnew.context rfl, String.empty_append]

private theorem isSupplied_push {m : Model} {set : TableSet} {t : Table}
    (hset : ∀ u ∈ set.tables, u.IsSupplied m) (ht : t.IsSupplied m) :
    ∀ u ∈ (set.push t).tables, u.IsSupplied m :=
  TableSet.forall_tables_push hset fun _ => ht.mono rfl fun _ _ h => h

/-- Building keeps tables supplied. -/
theorem Built.isSupplied {ds : List Declaration} {set next : TableSet}
    (h : ctx.Built ds scope s set next) (hmerges : ctx.model.IsMergeFree)
    (hds : ∀ d ∈ ds, ctx.model.Declares d) (hclear : s.IsClear scope.path)
    (hset : ∀ t ∈ set.tables, t.IsSupplied ctx.model) :
    ∀ t ∈ next.tables, t.IsSupplied ctx.model := by
  induction h with
  | nil | lookupSkipped | referenceSkipped => exact hset
  | cons _ _ ihhead ihtail =>
    rw [List.forall_mem_cons] at hds
    exact ihtail hds.2 hclear (ihhead (List.forall_mem_singleton.mpr hds.1) hclear hset)
  | column => exact TableSet.forall_tables_modify hset fun t ht => ht.addColumns _ _
  | lookup =>
    rw [Scope.addColumns, TableSet.modify_modify]
    exact TableSet.forall_tables_modify hset fun t ht =>
      (ht.addColumns _ _).evolves (.addForeignKey _ _)
  | collection => exact isSupplied_push hset (.of_nil (referenceSources_collectionJoin _ _))
  | @reference d _ _ _ _ _ hrule hsingle hreferenced _ hcolumns =>
    -- the columns of the reference and the record of it enter the same table
    rw [Scope.addColumns, TableSet.modify_modify]
    have hd := hds d (List.mem_singleton.mpr rfl)
    exact TableSet.forall_tables_modify hset fun t ht => (ht.addColumns _ _).addReferenceSource
      (supplies_reference hmerges hclear hd hrule hsingle hreferenced hcolumns)
  | @referenceCollection d _ _ _ _ _ hrule _ hreferenced hkeys =>
    exact isSupplied_push hset (isSupplied_referenceJoin hmerges hclear
      (hds d (List.mem_singleton.mpr rfl)) hrule hreferenced hkeys)
  | common _ hreferenced _ _ ih =>
    have hmid := ih (Model.declares_of_referencedEntity hreferenced) ?_
      (isSupplied_push hset (.of_nil referenceSources_commonJoin))
    · unfold commonClosed
      split_ifs
      · exact hmid
      · exact TableSet.forall_tables_modify hmid fun t ht => ht.addParentKeys _ _
    · unfold commonStrategy
      split_ifs
      · exact (hclear.forNewTable _).suppressKeys
      · exact hclear.forNewTable _
  | commonExtension _ hreferenced _ _ ih =>
    have hmid := ih (Model.declares_of_referencedEntity hreferenced) (hclear.forNewTable _)
      (isSupplied_push hset (.of_nil (referenceSources_suffixedTable _ _)))
    rw [tables_linkOrDiscard]
    exact hmid
  | choice _ hreferenced _ ih =>
    exact ih (Model.declares_of_referencedEntity hreferenced) (hclear.descend _).leafNullable hset
  | inlineCommon _ hreferenced _ ih =>
    refine ih (Model.declares_of_referencedEntity hreferenced) ?_ hset
    unfold inlineStrategy
    split_ifs
    · exact (hclear.append _ _).leafNullable
    · exact hclear.append _ _

end TableContext

/-! ### Runs -/

/-- In a model without merge directives drafts are supplied. -/
theorem IsDraft.isSupplied {c : Config} {m : Model} {t : Table} (h : IsDraft c m t)
    (hmerges : m.IsMergeFree) : t.IsSupplied m := by
  cases h with
  | bare hsources => exact .of_nil hsources
  | built he hpath hstart h ht =>
    refine h.isSupplied hmerges (fun d => Model.declares_of_mem he) .root
      (TableSet.forall_tables_push ?_ ?_) t ht
    · simp [TableSet.empty]
    · exact fun _ => .of_nil hstart

/-- In a model without merge directives every table of a run has the columns of the references that
it knows. -/
theorem Reaches.isSupplied {c : Config} {m : Model} {s : Schema} (h : Reaches c m .empty s)
    (hmerges : m.IsMergeFree) {t : Table} (ht : t ∈ s.inserted) : t.IsSupplied m := by
  obtain ⟨u, hu, hdraft⟩ := h.exists_draft ht
  exact (hdraft.isSupplied hmerges).evolves hu

end Tabular
