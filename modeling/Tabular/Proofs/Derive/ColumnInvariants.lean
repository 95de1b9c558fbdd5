import Mathlib.Tactic.Common
import Tabular.Lookup.Descriptor
import Tabular.Proofs.Derive.Descents
import Tabular.Proofs.Derive.Links
import Tabular.Proofs.Schema.Carrying
import Tabular.Proofs.Schema.Growth

/-!
# What all columns have in common

The columns of a table come from properties, from the key of another table, or they are made for a
lookup table. On their way into the table they are seen from properties further out, their flags
change, and they are merged with others. A property of columns that none of this breaks holds of all
columns of all tables that are built. Only the properties of the model at hand matter for this.

## Main definitions

* `Column.IsMade`, `Column.IsDerived`: the columns that no property produced, and those that the
  properties of a model produce.
* `Column.Stable`, `Column.InvariantIn`: a property of columns that flags and merges do not break,
  and that the columns of a model have.
* `Column.Invariant`: a property of columns that nothing breaks in any model.
* `Table.All`: all columns of a table have a property.

## Main results

* `Model.isDerived_of_columns`, `Model.isDerived_of_keys`: the columns and keys of a model.
* `TableContext.Built.all`: building keeps it.
* `TableContext.all_of_mainTable`, `TableContext.all_of_extensionTable`: the same for the tables of
  whole entities.
-/

namespace Tabular

/-- The columns of lookup tables, which no property produced. -/
inductive Column.IsMade : Column → Prop
  | plain (id : String) (type : ScalarType) : IsMade (.ofType id type)
  | assignedKey (tableId : String) : IsMade (assignedKeyColumn tableId)
  | descriptorKey (tableId : String) : IsMade (descriptorKeyColumn tableId)
  | schoolYear : IsMade { Column.ofType TableNaming.schoolYearColumn .short with
      nameComponents := [.base TableNaming.schoolYearColumn]
      isPartOfPrimaryKey := true }
  | mapType (tableId : String) : IsMade { Column.ofType (tableId ++ "Id") .integer with
      nameComponents := [.base tableId, .synthetic "Id"]
      isNullable := true }

/-- The columns that properties of the model produce, as seen from properties further out and with
any flags. -/
inductive Column.IsDerived (m : Model) : Column → Prop
  | leaf {d : Declaration} {s : Strategy} {c : Column} (hd : m.Declares d)
      (h : leafColumn? d s = some c) : IsDerived m c
  | prefixedBy {d : Declaration} {c : Column} (hd : m.Declares d) (hc : IsDerived m c) :
      IsDerived m (c.prefixedBy d.property.fullName)
  | apply {c : Column} (f : ColumnTransform) (hc : IsDerived m c) : IsDerived m (f.apply c)

/-- A property of columns that the columns of lookup tables have and that no change of flags and no
merge breaks. -/
structure Column.Stable (P : Column → Prop) : Prop where
  made : ∀ c, c.IsMade → P c
  primaryKey : ∀ c, P c → P c.primaryKey
  nullable : ∀ c, P c → P c.nullable
  notNull : ∀ c, P c → P c.notNull
  asParentKey : ∀ c, P c → P c.asParentKey
  merge : ∀ c d, c.id = d.id → P c → P d → P (c.merge d)

/-- A property of columns that the columns of the properties of a model and of lookup tables have
and that no change of a column in a table breaks. -/
structure Column.InvariantIn (m : Model) (P : Column → Prop) : Prop extends Column.Stable P where
  derived : ∀ c, c.IsDerived m → P c

/-- A property of columns that the columns of properties and of lookup tables have and that no
change of a column on its way into a table breaks. -/
structure Column.Invariant (P : Column → Prop) : Prop extends Column.Stable P where
  leaf : ∀ d s c, leafColumn? d s = some c → P c
  prefixedBy : ∀ name c, P c → P (c.prefixedBy name)

/-- The names on the path of the scope are full names of properties of the model. -/
def Scope.IsNamedIn (m : Model) (scope : Scope) : Prop :=
  ∀ name ∈ scope.path, ∃ d, m.Declares d ∧ d.property.fullName = name

theorem Scope.IsNamedIn.of_path_eq_nil {m : Model} {scope : Scope} (h : scope.path = []) :
    scope.IsNamedIn m := by
  simp [IsNamedIn, h]

theorem Scope.IsNamedIn.descend {m : Model} {scope : Scope} (h : scope.IsNamedIn m)
    {d : Declaration} (hd : m.Declares d) : (scope.descend d.property.fullName).IsNamedIn m := by
  intro name hname
  rcases List.mem_append.mp hname with hname | hname
  · exact h name hname
  · exact ⟨d, hd, (List.mem_singleton.mp hname).symm⟩

/-- All columns of the table have the property. -/
def Table.All (P : Column → Prop) (t : Table) : Prop :=
  ∀ c ∈ t.columns, P c

variable {P : Column → Prop} {v : Version} {t : Table} {c : Column} {cs ks : List Column}

/-! ### Derived columns -/

section Derived

variable {m : Model} {d : Declaration} {e : Entity} {s : Strategy}

/-- The column of a chain of properties. -/
theorem Strategy.isDerived_of_columnOf? {ch : List Hop}
    (hch : ∀ hop ∈ ch, m.Declares hop.declaration) (h : s.columnOf? ch = some c) :
    c.IsDerived m := by
  induction ch generalizing s c with
  | nil => simp [Strategy.columnOf?] at h
  | cons hop rest ih =>
    rw [List.forall_mem_cons] at hch
    cases rest with
    | nil =>
      cases hop with
      | column d => exact .leaf hch.1 h
      | inlined d => simp [Strategy.columnOf?] at h
    | cons next rest =>
      have hmap : s.columnOf? (hop :: next :: rest) =
          ((s.inside hop).columnOf? (next :: rest)).map (Column.prefixedBy hop.name) := by
        cases hop <;> rfl
      rw [hmap, Option.map_eq_some_iff] at h
      obtain ⟨c', hc', rfl⟩ := h
      exact .prefixedBy hch.1 (ih hch.2 hc')

theorem Model.isDerived_of_columns (hd : m.Declares d) (h : m.columns d s = .ok cs) :
    ∀ c ∈ cs, c.IsDerived m := by
  intro c hc
  obtain ⟨ch, hch, -, hcolumn⟩ := (Model.mem_columns_iff h).mp hc
  exact Strategy.isDerived_of_columnOf? (hch.declares hd) hcolumn

theorem Model.isDerived_of_keys (he : e ∈ m.entities) (h : m.keys e s = .ok cs) :
    ∀ c ∈ cs, c.IsDerived m := by
  intro c hc
  obtain ⟨ch, hch, -, hcolumn⟩ := (Model.mem_keys_iff h).mp hc
  exact Strategy.isDerived_of_columnOf? (hch.declares he) hcolumn

theorem Model.isDerived_of_inheritedKeys (he : e ∈ m.entities)
    (h : m.inheritedKeys e s = .ok cs) : ∀ c ∈ cs, c.IsDerived m := by
  intro c hc
  obtain ⟨ch, hch, -, hcolumn⟩ := (Model.mem_inheritedKeys_iff h).mp hc
  exact Strategy.isDerived_of_columnOf? (hch.declares he) hcolumn

theorem Column.IsDerived.place {scope : Scope} (hscope : scope.IsNamedIn m) (hc : c.IsDerived m) :
    (scope.place c).IsDerived m := by
  unfold Scope.IsNamedIn at hscope
  unfold Scope.place
  generalize scope.path = path at hscope ⊢
  induction path with
  | nil => exact hc
  | cons name rest ih =>
    rw [List.forall_mem_cons] at hscope
    obtain ⟨⟨d, hd, rfl⟩, hrest⟩ := hscope
    exact .prefixedBy hd (ih hrest)

end Derived

namespace Column.Stable

/-! ### Columns that enter a table -/

theorem apply (hP : Stable P) (f : ColumnTransform) (hc : P c) : P (f.apply c) := by
  induction f with
  | unchanged => exact hc
  | primaryKey => exact hP.primaryKey c hc
  | notNull => exact hP.notNull c hc
  | nullable => exact hP.nullable c hc
  | makeNull inner ih => exact hP.nullable _ ih

/-- A column that is merged into others. -/
theorem mergeColumn (hP : Stable P) (hcs : ∀ c ∈ cs, P c) (hc : P c) :
    ∀ d ∈ mergeColumn v cs c, P d := by
  intro d hd
  rcases mergeColumn_cases v c cs with ⟨before, b, after, rfl, hid, hperm⟩ | ⟨-, hmerge⟩
  · rcases List.mem_append.mp (hperm.mem_iff.mp hd) with hd | hd
    · exact hcs d (List.mem_append_left _ hd)
    · rcases List.mem_cons.mp hd with rfl | hd
      · exact hP.merge b c hid (hcs b (by simp)) hc
      · exact hcs d (by simp [hd])
  · rw [hmerge, List.mem_append, List.mem_singleton] at hd
    rcases hd with hd | rfl
    · exact hcs d hd
    · exact hc

theorem foldl_mergeColumn (hP : Stable P) (hcs : ∀ c ∈ cs, P c) (hks : ∀ k ∈ ks, P k) :
    ∀ d ∈ ks.foldl (Tabular.mergeColumn v) cs, P d := by
  induction ks generalizing cs with
  | nil => exact hcs
  | cons k rest ih =>
    obtain ⟨hk, hrest⟩ := List.forall_mem_cons.mp hks
    exact ih (hP.mergeColumn hcs hk) hrest

theorem addColumns (hP : Stable P) (ht : t.All P) (hcs : ∀ c ∈ cs, P c) :
    (t.addColumns v cs).All P := by
  rw [Table.All, Table.columns_addColumns]
  exact hP.foldl_mergeColumn ht hcs

theorem addParentKeys (hP : Stable P) (ht : t.All P) (hcs : ∀ c ∈ cs, P c) :
    (t.addParentKeys v cs).All P := by
  rw [Table.All, Table.columns_addParentKeys]
  refine hP.foldl_mergeColumn ht fun k hk => ?_
  obtain ⟨c, hc, rfl⟩ := List.mem_map.mp hk
  exact hP.asParentKey c (hcs c hc)

end Column.Stable

/-- What nothing breaks in any model holds of the columns of each model. -/
theorem Column.Invariant.inModel (hP : Column.Invariant P) (m : Model) :
    Column.InvariantIn m P where
  toStable := hP.toStable
  derived c hc := by
    induction hc with
    | leaf _ h => exact hP.leaf _ _ _ h
    | prefixedBy _ _ ih => exact hP.prefixedBy _ _ ih
    | apply f _ ih => exact hP.apply f ih

/-! ### Tables -/

namespace Table.All

theorem of_columns_eq_nil (h : t.columns = []) : t.All P := by
  simp [All, h]

theorem addForeignKey (ht : t.All P) (k : ForeignKey) : (t.addForeignKey k).All P := by
  rw [All, Table.columns_addForeignKey]
  exact ht

theorem addReferenceSource (ht : t.All P) (r : ReferenceSource) :
    (t.addReferenceSource r).All P := by
  rw [All, Table.columns_addReferenceSource]
  exact ht

theorem withParentKeys (ht : t.All P) (ids : List String) :
    Table.All P { t with parentKeyColumnIds := ids } :=
  ht

theorem primaryKeys (ht : t.All P) : ∀ c ∈ t.primaryKeys, P c :=
  fun c hc => ht c (List.mem_filter.mp hc).1

theorem arranged (ht : t.All P) : (TableSet.arranged v t).All P := by
  unfold TableSet.arranged
  split_ifs
  · exact fun c hc => ht c (t.columns_sortColumns_perm.mem_iff.mp hc)
  · exact ht

end Table.All

namespace TableContext

variable {ctx : TableContext} {ds : List Declaration} {scope : Scope} {s : Strategy}
  {set next : TableSet}

/-- The columns of a property that enter the table of a scope. -/
private theorem all_addColumns (hP : Column.InvariantIn ctx.model P)
    (hscope : scope.IsNamedIn ctx.model) (f : ColumnTransform)
    (hcs : ∀ c ∈ cs, c.IsDerived ctx.model) (hset : ∀ t ∈ set.tables, t.All P) :
    ∀ t ∈ (scope.addColumns ctx.version f cs set).tables, t.All P := by
  refine TableSet.forall_tables_modify hset fun t ht => hP.addColumns ht fun c hc => ?_
  obtain ⟨c', hc', rfl⟩ := List.mem_map.mp hc
  exact hP.derived _ (.place hscope (.apply f (hcs c' hc')))

private theorem all_collectionJoin (hP : Column.Stable P) (hscope : ∀ c ∈ scope.primaryKeys, P c)
    (hcs : ∀ c ∈ cs, P c) (d : Declaration) (lookup : Option LookupTarget) :
    (ctx.collectionJoin d scope s lookup cs).All P := by
  have hjoin : ((joinTable scope s d.property .collection).addParentKeys ctx.version
      scope.primaryKeys).All P :=
    hP.addParentKeys (.of_columns_eq_nil rfl) hscope
  unfold collectionJoin
  refine hP.addColumns ?_ fun c hc => ?_
  · cases lookup with
    | none => exact hjoin
    | some target =>
      cases cs with
      | nil => exact hjoin
      | cons c rest => exact hjoin.addForeignKey _
  · obtain ⟨c', hc', rfl⟩ := List.mem_map.mp hc
    exact hP.primaryKey c' (hcs c' hc')

private theorem all_referenceJoin (hP : Column.InvariantIn ctx.model P)
    (hscope : ∀ c ∈ scope.primaryKeys, P c) (hks : ∀ k ∈ ks, k.IsDerived ctx.model)
    {d : Declaration} (hd : ctx.model.Declares d) (referenced : Entity) :
    (ctx.referenceJoin d referenced scope s ks).All P := by
  refine Table.All.addReferenceSource ?_ _
  refine hP.addColumns (hP.addParentKeys (.of_columns_eq_nil rfl) hscope) fun c hc => ?_
  obtain ⟨c', hc', rfl⟩ := List.mem_map.mp hc
  obtain ⟨k, hk, rfl⟩ := List.mem_map.mp hc'
  exact hP.primaryKey _ (hP.derived _ (.prefixedBy hd (hks k hk)))

private theorem all_commonJoin (hP : Column.Stable P) (hscope : ∀ c ∈ scope.primaryKeys, P c)
    (d : Declaration) (common : Entity) : (ctx.commonJoin d common scope s).All P := by
  simp only [commonJoin]
  split_ifs
  · exact hP.addParentKeys (.of_columns_eq_nil rfl) hscope
  · exact hP.addParentKeys (.of_columns_eq_nil rfl) hscope
  · exact .of_columns_eq_nil rfl
  · exact .of_columns_eq_nil rfl

theorem all_suffixedTable (hP : Column.Stable P) (e : Entity) (r : TableReason)
    (ht : t.All P) : (ctx.suffixedTable e t r).All P :=
  hP.addParentKeys (.of_columns_eq_nil rfl) ht.primaryKeys

private theorem all_push (hset : ∀ u ∈ set.tables, u.All P) (ht : t.All P) :
    ∀ u ∈ (set.push t).tables, u.All P :=
  TableSet.forall_tables_push hset fun _ => ht

/-- Building keeps an invariant of columns, if the key that further tables take over has it and the
stored tables have it. -/
theorem Built.all (hP : Column.InvariantIn ctx.model P)
    (hstored : ∀ t ∈ ctx.stored.inserted, t.All P) (h : ctx.Built ds scope s set next)
    (hds : ∀ d ∈ ds, ctx.model.Declares d) (hnamed : scope.IsNamedIn ctx.model)
    (hscope : ∀ c ∈ scope.primaryKeys, P c) (hset : ∀ t ∈ set.tables, t.All P) :
    ∀ t ∈ next.tables, t.All P := by
  induction h with
  | nil => exact hset
  | cons _ _ ihhead ihtail =>
    rw [List.forall_mem_cons] at hds
    have hmid := ihhead (List.forall_mem_singleton.mpr hds.1) hnamed hscope hset
    exact ihtail hds.2 hnamed hscope hmid
  | column _ _ hcolumns =>
    rw [List.forall_mem_singleton] at hds
    exact all_addColumns hP hnamed _ (Model.isDerived_of_columns hds hcolumns) hset
  | lookup _ _ _ hcolumns =>
    rw [List.forall_mem_singleton] at hds
    refine TableSet.forall_tables_modify ?_ fun t ht => ht.addForeignKey _
    exact all_addColumns hP hnamed _ (Model.isDerived_of_columns hds hcolumns) hset
  | lookupSkipped => exact hset
  | collection _ _ hcolumns =>
    rw [List.forall_mem_singleton] at hds
    have hjoined := fun c hc => hP.derived c (Model.isDerived_of_columns hds hcolumns c hc)
    exact all_push hset (all_collectionJoin hP.toStable hscope hjoined _ _)
  | reference _ _ _ _ hcolumns =>
    rw [List.forall_mem_singleton] at hds
    refine TableSet.forall_tables_modify ?_ fun t ht => ht.addReferenceSource _
    exact all_addColumns hP hnamed _ (Model.isDerived_of_columns hds hcolumns) hset
  | referenceSkipped => exact hset
  | referenceCollection _ _ hreferenced hkeys =>
    rw [List.forall_mem_singleton] at hds
    have hreferred := Model.mem_entities_of_referencedEntity hreferenced
    exact all_push hset
      (all_referenceJoin hP hscope (Model.isDerived_of_keys hreferred hkeys) hds _)
  | common _ hreferenced hkeys _ ih =>
    rw [List.forall_mem_singleton] at hds
    have hinner := ih (Model.declares_of_referencedEntity hreferenced)
      ((Scope.IsNamedIn.of_path_eq_nil rfl).descend hds) (fun c hc => ?_)
      (all_push hset (all_commonJoin hP.toStable hscope _ _))
    · unfold commonClosed
      split_ifs
      · exact hinner
      · exact TableSet.forall_tables_modify hinner fun t ht => hP.addParentKeys ht hscope
    · -- the key of the common's table is that of its parent and that of the common
      rcases List.mem_append.mp hc with hc | hc
      · obtain ⟨c', hc', rfl⟩ := List.mem_map.mp hc
        exact hP.asParentKey c' (hscope c' hc')
      · have hcommon := Model.mem_entities_of_referencedEntity hreferenced
        exact hP.derived c (Model.isDerived_of_keys hcommon hkeys c (List.mem_filter.mp hc).1)
  | commonExtension _ hreferenced hparent _ ih =>
    have hall := hstored _ (Schema.mem_of_get? hparent)
    rw [tables_linkOrDiscard]
    exact ih (Model.declares_of_referencedEntity hreferenced) (.of_path_eq_nil rfl)
      hall.primaryKeys (all_push hset (all_suffixedTable hP.toStable _ _ hall))
  | choice _ hreferenced _ ih | inlineCommon _ hreferenced _ ih =>
    rw [List.forall_mem_singleton] at hds
    exact ih (Model.declares_of_referencedEntity hreferenced) (hnamed.descend hds) hscope hset

/-- The tables of a domain entity, association or subclass. -/
theorem all_of_mainTable (hP : Column.InvariantIn ctx.model P)
    (hstored : ∀ t ∈ ctx.stored.inserted, t.All P) {e : Entity} (he : e ∈ ctx.model.entities)
    {reason : TableReason} (h : ctx.mainTable e reason = .ok set) : ∀ t ∈ set.tables, t.All P := by
  obtain ⟨keys, inherited, hkeys, hinherited, hbuilt⟩ := built_of_mainTable h
  refine hbuilt.all hP hstored (fun _ => Model.declares_of_mem he) (.of_path_eq_nil rfl)
    (fun c hc => hP.derived c (Model.isDerived_of_keys he hkeys c hc))
    (all_push (by simp [TableSet.empty]) ?_)
  refine hP.addColumns (.of_columns_eq_nil rfl) ?_
  split_ifs at hinherited
  · exact fun c hc => hP.derived c (Model.isDerived_of_inheritedKeys he hinherited c hc)
  · rw [← pure_eq_ok_iff.mp hinherited]
    simp

/-- The tables of an extension. -/
theorem all_of_extensionTable (hP : Column.InvariantIn ctx.model P)
    (hstored : ∀ t ∈ ctx.stored.inserted, t.All P) {e : Entity} (he : e ∈ ctx.model.entities)
    (h : ctx.extensionTable e = .ok set) : ∀ t ∈ set.tables, t.All P := by
  obtain ⟨base, key, parent, mid, -, -, hget, hbuilt, rfl⟩ := built_of_extensionTable h
  have hall := hstored parent (Schema.mem_of_get? hget)
  have hpushed : ∀ u ∈ ((TableSet.empty e.id).push (ctx.suffixedTable e parent .extension)).tables,
      u.All P :=
    all_push (by simp [TableSet.empty]) (all_suffixedTable hP.toStable e .extension hall)
  rw [tables_linkOrDiscard]
  exact hbuilt.all hP hstored (fun _ => Model.declares_of_mem he) (.of_path_eq_nil rfl)
    hall.primaryKeys hpushed

/-- The tables of a descriptor. -/
theorem all_of_descriptorTable (hP : Column.InvariantIn ctx.model P)
    (hstored : ∀ t ∈ ctx.stored.inserted, t.All P) {e : Entity} (he : e ∈ ctx.model.entities)
    (h : ctx.descriptorTable e = .ok set) : ∀ t ∈ set.tables, t.All P := by
  have hkey : P (descriptorKeyColumn (TableNaming.descriptorTable e.name)) :=
    hP.made _ (.descriptorKey _)
  refine (built_of_entityTables h).all hP hstored (fun _ => Model.declares_of_mem he)
    (.of_path_eq_nil rfl) ?_ (all_push (by simp [TableSet.empty]) ?_)
  · exact fun c hc => List.mem_singleton.mp hc ▸ hkey
  · exact Table.All.addForeignKey (fun c hc => List.mem_singleton.mp hc ▸ hkey) _

end TableContext

/-! ### Lookup tables -/

section LookupTables

theorem all_codeValueTable (hP : Column.Stable P) (v : Version)
    (namespaceName tableId : String) (reason : TableReason) (description : String) :
    (codeValueTable v namespaceName tableId reason description).All P := by
  refine hP.addColumns (.of_columns_eq_nil rfl) ?_
  simp only [List.forall_mem_cons, List.not_mem_nil, false_imp_iff, implies_true, and_true]
  exact ⟨hP.made _ (.assignedKey _), hP.made _ (.plain _ _), hP.made _ (.plain _ _),
    hP.made _ (.plain _ _)⟩

theorem all_schoolYearTable (hP : Column.Stable P) (v : Version) (e : Entity) :
    (schoolYearTable v e).All P := by
  refine hP.addColumns (.of_columns_eq_nil rfl) ?_
  simp only [List.forall_mem_cons, List.not_mem_nil, false_imp_iff, implies_true, and_true]
  exact ⟨hP.made _ .schoolYear, hP.made _ (.plain _ _), hP.made _ (.plain _ _)⟩

theorem all_baseDescriptorTable (hP : Column.Stable P) (v : Version) (namespaceName : String) :
    (baseDescriptorTable v namespaceName).All P := by
  have hnullable (id : String) (type : ScalarType) : P (Column.ofType id type).nullable :=
    hP.nullable _ (hP.made _ (.plain id type))
  refine hP.addColumns (.of_columns_eq_nil rfl) ?_
  simp only [List.forall_mem_cons, List.not_mem_nil, false_imp_iff, implies_true, and_true]
  exact ⟨hP.made _ (.assignedKey _), hP.made _ (.plain _ _), hP.made _ (.plain _ _),
    hP.made _ (.plain _ _), hnullable _ _, hnullable _ _, hnullable _ _⟩

theorem all_withMapType (hP : Column.Stable P) (v : Version) (namespaceName tableId : String)
    (ht : t.All P) : (withMapType v namespaceName tableId t).All P := by
  refine Table.All.addForeignKey (Table.All.arranged ?_) _
  exact hP.mergeColumn ht (hP.made _ (.mapType tableId))

end LookupTables

end Tabular
