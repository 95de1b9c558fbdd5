import Mathlib.Tactic.Common
import Tabular.Proofs.Derive.PlannedSets

/-!
# Building realizes plans

Building the tables of a property succeeds exactly when the property has a plan, and then the set
has grown by this plan. This file proves it rule by rule and, by induction on the number of
composites, for entities.

## Main definitions

* `TableSet.Realizes`: a result of building that a plan describes.
* `TableSet.ConsistsOf`: a whole set whose tables are the given ones.

## Main results

* `TableContext.realizes_entityTables`: building the properties of an entity realizes its plan.
* `TableContext.consistsOf_mainTable`: the tables of a domain entity, association or subclass.
-/

namespace Tabular

/-! ### Names and flags of changed columns -/

theorem ColumnTransform.outline_apply (transform : ColumnTransform) (c : Column) :
    (transform.apply c).outline = transform.onOutline c.outline := by
  induction transform with
  | makeNull inner ih =>
    rw [onOutline, ← ih]
    rfl
  | _ => rfl

theorem Scope.outline_place (scope : Scope) (c : Column) :
    (scope.place c).outline = c.outline := by
  rw [place]
  induction scope.path with
  | nil => rfl
  | cons name rest ih => exact ih

theorem outlines_map_place (scope : Scope) (transform : ColumnTransform) (cs : List Column) :
    outlines (cs.map fun c => scope.place (transform.apply c)) =
      (outlines cs).map transform.onOutline := by
  induction cs with
  | nil => rfl
  | cons c rest ih =>
    rw [List.map_cons, outlines_cons, outlines_cons, Multiset.map_cons, ih, scope.outline_place,
      transform.outline_apply]

@[simp] theorem outlines_prefixColumns (name : String) (cs : List Column) :
    outlines (prefixColumns name cs) = outlines cs := by
  induction cs with
  | nil => rfl
  | cons c rest ih => exact congrArg (c.outline ::ₘ ·) ih

theorem outlines_map_primaryKey (cs : List Column) :
    outlines (cs.map Column.primaryKey) = keyColumns ((outlines cs).map ColumnOutline.id) := by
  simp only [outlines, keyColumns, Multiset.map_coe, List.map_map]
  rfl

theorem outlines_map_asParentKey (cs : List Column) :
    outlines (cs.map Column.asParentKey) = keyColumns (cs.map Column.id : List String) := by
  simp only [outlines, keyColumns, Multiset.map_coe, List.map_map]
  rfl

/-! ### Scopes of a set -/

/-- The tables that a scope speaks of are in the set. A table of the set that further tables hang
off is in their namespace. -/
structure Scope.IsWithin (scope : Scope) (set : TableSet) : Prop where
  table_lt : scope.table < set.next
  parent : ∀ i, scope.parentLink = .inSet i →
    ∃ t, set.get? i = some t ∧ t.namespaceName = scope.namespaceName

namespace Scope.IsWithin

variable {repo : Schema} {v : Version} {scope : Scope} {plan : Plan} {set next : TableSet}

theorem parentNamespace_eq (h : scope.IsWithin set) :
    scope.parentNamespace set = scope.site.parentNamespace := by
  unfold Scope.parentNamespace Site.parentNamespace Scope.site
  cases hlink : scope.parentLink with
  | stored key => rfl
  | inSet i =>
    obtain ⟨t, ht, hnamespace⟩ := h.parent i hlink
    simp [ht, hnamespace, LinkTarget.stored?]

/-- A scope stays one of the set as the set grows. -/
theorem planned (h : scope.IsWithin set) (hnext : set.Planned repo v scope plan next) :
    scope.IsWithin next := by
  refine ⟨h.table_lt.trans_le hnext.extended.next_le, fun i hlink => ?_⟩
  obtain ⟨t, ht, hnamespace⟩ := h.parent i hlink
  by_cases hi : i = scope.table
  · subst hi
    obtain ⟨u, hu, -, -, -, hkey, -⟩ := hnext.table t ht
    exact ⟨u, hu, (congrArg TableKey.namespaceName hkey).trans hnamespace⟩
  · have hlt : i < set.next := (List.getElem?_eq_some_iff.mp ht).1
    exact ⟨t, (hnext.extended.get? i hlt hi).trans ht, hnamespace⟩

/-- The scope of a new table. -/
theorem root (set : TableSet) (t : Table) (keys : List Column) :
    (Scope.root t set.next keys).IsWithin (set.push t) := by
  refine ⟨by rw [TableSet.next_push]; exact Nat.lt_succ_self _, ?_⟩
  rintro i ⟨⟩
  obtain ⟨owner, hnew⟩ := set.get?_push_next t
  exact ⟨_, hnew, rfl⟩

/-- The scope of a new table that adds columns to a stored one. -/
theorem detached (set : TableSet) (t : Table) (namespaceName : String) (parent : Table)
    (key : TableKey) : (Scope.detached set.next namespaceName parent key).IsWithin (set.push t) :=
  ⟨by rw [TableSet.next_push]; exact Nat.lt_succ_self _, nofun⟩

theorem descend (h : scope.IsWithin set) (name : String) : (scope.descend name).IsWithin set :=
  ⟨h.table_lt, h.parent⟩

end Scope.IsWithin

namespace TableSet

/-! ### Results that plans describe -/

/-- A result of building in a scope that a plan describes: there is a set exactly when there is a
plan, and the set has grown by the plan. -/
inductive Realizes (repo : Schema) (v : Version) (scope : Scope) (set : TableSet) :
    BuildResult TableSet → Option Plan → Prop
  | failed (e : BuildError) : Realizes repo v scope set (.error e) none
  | planned {next : TableSet} {plan : Plan} (h : Planned repo v scope plan set next) :
      Realizes repo v scope set (.ok next) (some plan)

variable {repo : Schema} {v : Version} {scope : Scope} {set : TableSet}

/-- A step after building in one scope, as a result of building in another. -/
theorem Realizes.map {inner : Scope} {start : TableSet} {result : BuildResult TableSet}
    {plan : Option Plan} {f : TableSet → TableSet} {g : Plan → Plan}
    (h : Realizes repo v inner start result plan)
    (hfg : ∀ next p, Planned repo v inner p start next → Planned repo v scope (g p) set (f next)) :
    Realizes repo v scope set (result >>= fun next => pure (f next)) (plan.map g) := by
  cases h with
  | failed e => exact .failed e
  | planned hplanned => exact .planned (hfg _ _ hplanned)

/-- The path of a scope does not matter. -/
theorem Realizes.of_descend {name : String} {result : BuildResult TableSet} {plan : Option Plan}
    (h : Realizes repo v (scope.descend name) set result plan) :
    Realizes repo v scope set result plan := by
  cases h with
  | failed e => exact .failed e
  | planned h => exact .planned ⟨h.extended, h.table, h.tables⟩

/-- One step of building after another. -/
theorem Realizes.bind {result : BuildResult TableSet} {plan other : Option Plan}
    {f : TableSet → BuildResult TableSet} (hscope : scope.IsWithin set)
    (h : Realizes repo v scope set result plan)
    (hf : ∀ mid : TableSet, mid.IsTidy → scope.IsWithin mid →
      Realizes repo v scope mid (f mid) other) :
    Realizes repo v scope set (result >>= f) (plan.bind fun p => other.map fun q => p + q) := by
  cases h with
  | failed e => exact .failed e
  | @planned mid p hmid =>
    have hrest := hf mid hmid.extended.isTidy (hscope.planned hmid)
    change Realizes repo v scope set (f mid) (other.map fun q => p + q)
    revert hrest
    generalize f mid = rest
    intro hrest
    cases hrest with
    | failed e => exact .failed e
    | planned hnext => exact .planned (hmid.add hscope.table_lt hnext)

theorem IsTidy.push (hset : set.IsTidy) (t : Table) : (set.push t).IsTidy := by
  refine ⟨fun l hl => ⟨?_, (hset.child l hl).2⟩, hset.nodup, fun i hi => ?_⟩
  · rw [next_push]
    exact Nat.lt_succ_of_lt (hset.child l hl).1
  · rw [next_push]
    exact Nat.lt_succ_of_lt (hset.discarded i hi)

/-- Columns that enter the table of a scope. -/
theorem planned_addColumns (repo : Schema) (hset : set.IsTidy) (transform : ColumnTransform)
    (cs : List Column) :
    Planned repo v scope (.ofColumns ((outlines cs).map transform.onOutline)) set
      (scope.addColumns v transform cs set) := by
  rw [← outlines_map_place scope]
  exact .modify repo hset fun t => .addColumns v t _

/-- A change that concerns neither the columns of a table nor its address is none for a plan. -/
theorem Planned.modify_rest {plan : Plan} {next : TableSet} {f : Table → Table}
    (hscope : scope.table < set.next) (h : Planned repo v scope plan set next)
    (hf : ∀ t : Table, t.Received v 0 (f t)) :
    Planned repo v scope plan set (next.modify scope.table f) := by
  have hrest := h.add hscope (.modify repo h.extended.isTidy hf)
  rwa [show Plan.ofColumns 0 = 0 from rfl, add_zero] at hrest

end TableSet

namespace Table

theorem Received.addForeignKey (v : Version) (t : Table) (k : ForeignKey) :
    t.Received v 0 (t.addForeignKey k) :=
  ⟨[], rfl, columns_addForeignKey t k, key_addForeignKey t k, parentKeyColumnIds_addForeignKey t k⟩

theorem Received.addReferenceSource (v : Version) (t : Table) (s : ReferenceSource) :
    t.Received v 0 (t.addReferenceSource s) := by
  unfold Table.addReferenceSource
  split_ifs <;> exact ⟨[], rfl, rfl, rfl, rfl⟩

/-- The record of the parent's key has the names of the columns taken over. -/
theorem mem_parentKeyColumnIds_addParentKeys_iff {v : Version} {t : Table} {cs : List Column}
    {id : String} : id ∈ (t.addParentKeys v cs).parentKeyColumnIds ↔
      id ∈ t.parentKeyColumnIds ∨ id ∈ cs.map Column.id := by
  induction cs generalizing t with
  | nil => simp [addParentKeys]
  | cons c rest ih =>
    have hstep : id ∈ (t.addParentKey v c).parentKeyColumnIds ↔
        id ∈ t.parentKeyColumnIds ∨ id = c.id := by
      simp only [addParentKey, addColumn]
      split_ifs with hc
      · exact ⟨Or.inl, fun h => h.elim (fun h => h) fun h => h ▸ hc⟩
      · simp
    rw [addParentKeys, List.foldl_cons, ← addParentKeys, ih, hstep, List.map_cons, List.mem_cons,
      or_assoc]

end Table

namespace TableContext

open TableSet

variable {ctx : TableContext} {repo : Schema} {d : Declaration} {scope : Scope} {s : Strategy}
  {set : TableSet} {inner : EntityBuilder} {plans : EntityPlanner}

/-! ### Scalars, lookups and references -/

theorem columns_collectionJoin (lookup : Option LookupTarget) (columns : List Column) :
    (ctx.collectionJoin d scope s lookup columns).columns =
      (scope.primaryKeys.map Column.asParentKey ++ columns.map Column.primaryKey).foldl
        (mergeColumn ctx.version) [] := by
  unfold collectionJoin
  rw [Table.columns_addColumns, List.foldl_append]
  cases lookup <;> cases columns <;>
    simp only [Table.columns_addForeignKey, Table.columns_addParentKeys] <;> rfl

theorem key_collectionJoin (lookup : Option LookupTarget) (columns : List Column) :
    (ctx.collectionJoin d scope s lookup columns).key = scope.site.joinKey s d.property := by
  unfold collectionJoin
  rw [Table.key_addColumns]
  cases lookup <;> cases columns <;>
    simp only [Table.key_addForeignKey, Table.key_addParentKeys] <;> rfl

/-- A new table without tables below it. -/
private theorem planned_push_link (ctx : TableContext) (repo : Schema) (d : Declaration)
    (s : Strategy) {t : Table} {cs : List Column} {r : ForeignKeyReason} (hset : set.IsTidy)
    (hscope : scope.table < set.next)
    (hkey : t.key = scope.site.joinKey s d.property)
    (ht : t.columns = (scope.primaryKeys.map Column.asParentKey ++
      cs.map Column.primaryKey).foldl (mergeColumn ctx.version) []) :
    Planned repo ctx.version scope
      (.hanging (scope.site.joinKey s d.property) scope.site.storedParent
        (keyColumns scope.site.keyIds + keyColumns ((outlines cs).map ColumnOutline.id)) fun _ => 0)
      set ((set.push t).link set.next scope.parentLink r) := by
  have hempty : Planned repo ctx.version (Scope.root t set.next []) 0 (set.push t) (set.push t) :=
    .refl repo ctx.version _ (hset.push t)
  have hhang := hempty.hang (r := r) hset hscope rfl rfl ht
  rw [outlines_append, outlines_map_asParentKey, outlines_map_primaryKey, hkey,
    Plan.columns_zero, add_zero] at hhang
  exact hhang

theorem realizes_collectionTable (hset : set.IsTidy) (hscope : scope.table < set.next)
    (lookup : Option LookupTarget) :
    Realizes repo ctx.version scope set (ctx.collectionTable d scope s lookup set)
      (ctx.collectionPlan d scope.site s) := by
  rw [collectionPlan, collectionTable]
  cases ctx.model.columns d s.forNewTable.ignoreRoleName with
  | error e => exact .failed e
  | ok columns =>
    exact .planned (ctx.planned_push_link repo d s hset hscope (key_collectionJoin lookup columns)
      (columns_collectionJoin lookup columns))

theorem realizes_scalarTables (hset : set.IsTidy) (hscope : scope.table < set.next) :
    Realizes repo ctx.version scope set (ctx.scalarTables d scope s set)
      (ctx.scalarPlan d scope.site s) := by
  rw [scalarPlan, scalarTables]
  split_ifs
  · exact realizes_collectionTable hset hscope none
  · cases ctx.model.columns d s with
    | error e => exact .failed e
    | ok columns => exact .planned (planned_addColumns repo hset _ columns)

theorem realizes_lookupTables (hset : set.IsTidy) (hscope : scope.table < set.next) :
    Realizes repo ctx.version scope set (ctx.lookupTables d scope s set)
      (ctx.lookupPlan d scope.site s) := by
  rw [lookupPlan, lookupTables]
  cases ctx.lookupTarget d with
  | error e => exact .failed e
  | ok target =>
    simp only [Except.toOption, Option.bind_some, scalarPlan]
    split_ifs with hcollection
    · exact realizes_collectionTable hset hscope (some target)
    · cases ctx.model.columns d s with
      | error e => exact .failed e
      | ok columns =>
        cases columns with
        | nil => exact .planned (.refl repo ctx.version scope hset)
        | cons c rest =>
          exact .planned ((planned_addColumns repo hset _ (c :: rest)).modify_rest hscope
            fun t => .addForeignKey ctx.version t _)

theorem columns_referenceJoin (referenced : Entity) (keys : List Column) :
    (ctx.referenceJoin d referenced scope s keys).columns =
      (scope.primaryKeys.map Column.asParentKey ++
        (prefixColumns d.property.fullName keys).map Column.primaryKey).foldl
          (mergeColumn ctx.version) [] := by
  rw [referenceJoin, Table.columns_addReferenceSource, Table.columns_addColumns,
    Table.columns_addParentKeys, List.foldl_append]
  rfl

theorem key_referenceJoin (referenced : Entity) (keys : List Column) :
    (ctx.referenceJoin d referenced scope s keys).key = scope.site.joinKey s d.property := by
  rw [referenceJoin, Table.key_addReferenceSource, Table.key_addColumns, Table.key_addParentKeys]
  rfl

theorem realizes_referenceCollectionTable (hset : set.IsTidy) (hscope : scope.table < set.next)
    (referenced : Entity) :
    Realizes repo ctx.version scope set (ctx.referenceCollectionTable d referenced scope s set)
      (ctx.referenceCollectionPlan d.property referenced scope.site s) := by
  rw [referenceCollectionPlan, referenceCollectionTable]
  cases ctx.model.keys referenced ((s.forNewTable.merging d.property).append d.property) with
  | error e => exact .failed e
  | ok keys =>
    have hjoin := ctx.planned_push_link repo d s (r := .collection) hset hscope
      (key_referenceJoin referenced keys) (columns_referenceJoin referenced keys)
    rw [outlines_prefixColumns] at hjoin
    exact .planned hjoin

theorem realizes_referenceTables (hset : set.IsTidy) (hscope : scope.table < set.next) :
    Realizes repo ctx.version scope set (ctx.referenceTables d scope s set)
      (ctx.referencePlan d scope.site s) := by
  rw [referencePlan, referenceTables]
  cases ctx.model.referencedEntity d.owner d.property with
  | error e => exact .failed e
  | ok referenced =>
    simp only [Except.toOption, Option.bind_some, bind, Except.bind]
    split_ifs
    · exact realizes_referenceCollectionTable hset hscope referenced
    · exact .planned (.refl repo ctx.version scope hset)
    · cases ctx.model.columns d s with
      | error e => exact .failed e
      | ok columns =>
        exact .planned ((planned_addColumns repo hset _ columns).modify_rest hscope
          fun t => .addReferenceSource ctx.version t _)

/-! ### Composites -/

/-- A builder of entities that realizes plans of entities. -/
def RealizesPlans (repo : Schema) (v : Version) (inner : EntityBuilder) (plans : EntityPlanner) :
    Prop :=
  ∀ e scope s set, set.IsTidy → scope.IsWithin set →
    Realizes repo v scope set (inner e scope s set) (plans e scope.site s)

/-- The columns that the table of a common starts with. -/
def commonStart (v : Version) (scope : Scope) : List Column :=
  if v.parentKeysFirst then scope.primaryKeys.map Column.asParentKey else []

/-- The columns that the table of a common receives in the end. -/
def commonEnd (v : Version) (scope : Scope) : List Column :=
  if v.parentKeysFirst then [] else scope.primaryKeys.map Column.asParentKey

theorem commonJoin_eq (ctx : TableContext) (d : Declaration) (common : Entity) (scope : Scope)
    (s : Strategy) : ∃ text ids, ctx.commonJoin d common scope s =
      { joinTable scope s d.property .common with
        description := text
        columns := (commonStart ctx.version scope).foldl (mergeColumn ctx.version) []
        parentKeyColumnIds := ids } := by
  obtain ⟨text, htext⟩ : ∃ text,
      (if (joinTable scope s d.property .common).description = "" then
        { joinTable scope s d.property .common with description := common.documentation }
      else joinTable scope s d.property .common) =
        { joinTable scope s d.property .common with description := text } := by
    split_ifs
    · exact ⟨_, rfl⟩
    · exact ⟨(joinTable scope s d.property .common).description, rfl⟩
  refine ⟨text, ?_⟩
  simp only [commonJoin, htext, commonStart]
  split_ifs
  · exact Table.addParentKeys_eq ..
  · exact ⟨[], rfl⟩

theorem site_commonScope (common : Entity) (index : Nat) (commonKeys : List Column) :
    (ctx.commonScope d common scope s index commonKeys).site =
      scope.site.insideCommon s d.property (keyIds (outlines commonKeys)) := by
  obtain ⟨text, ids, hjoin⟩ := ctx.commonJoin_eq d common scope s
  have hkeys : ((scope.primaryKeys.map Column.asParentKey ++
      commonKeys.filter Column.isPartOfPrimaryKey).map Column.id : List String) =
      scope.site.keyIds + keyIds (outlines commonKeys) := by
    rw [← coe_map_id_filter, List.map_append, List.map_map, ← Multiset.coe_add]
    rfl
  rw [commonScope, hjoin, Site.insideCommon, ← hkeys]
  rfl

theorem commonClosed_eq (ctx : TableContext) (scope : Scope) (index : Nat) (set : TableSet) :
    ∃ f : Table → Table, ctx.commonClosed scope index set = set.modify index f ∧
      ∀ u, (f u).key = u.key ∧
        (f u).columns =
          (commonEnd ctx.version scope).foldl (mergeColumn ctx.version) u.columns := by
  unfold commonClosed commonEnd
  split_ifs
  · exact ⟨id, modify_id.symm, fun _ => ⟨rfl, rfl⟩⟩
  · exact ⟨_, rfl, fun u => ⟨u.key_addParentKeys .., u.columns_addParentKeys ..⟩⟩

/-- Sooner or later the table of a common has the key of its parent. -/
theorem outlines_commonStart_add (v : Version) (scope : Scope) (os : Multiset ColumnOutline) :
    outlines (commonStart v scope) + os + outlines (commonEnd v scope) =
      keyColumns scope.site.keyIds + os := by
  have hkeys : outlines (scope.primaryKeys.map Column.asParentKey) = keyColumns scope.site.keyIds :=
    outlines_map_asParentKey scope.primaryKeys
  unfold commonStart commonEnd
  split_ifs
  · rw [hkeys, outlines_nil, add_zero]
  · rw [hkeys, outlines_nil, zero_add, add_comm]

theorem commonTables_eq (ctx : TableContext) (inner : EntityBuilder) (d : Declaration)
    (scope : Scope) (s : Strategy) (set : TableSet) : ctx.commonTables inner d scope s set =
      (ctx.model.referencedEntity d.owner d.property >>= fun common =>
        ctx.model.keys common (commonStrategy d.property s) >>= fun commonKeys =>
          inner common (ctx.commonScope d common scope s set.next commonKeys)
              (commonStrategy d.property s) (set.push (ctx.commonJoin d common scope s)) >>=
            fun mid => pure
              ((ctx.commonClosed scope set.next mid).link set.next scope.parentLink .common)) :=
  rfl

theorem realizes_commonTables (hinner : RealizesPlans repo ctx.version inner plans)
    (hset : set.IsTidy) (hscope : scope.IsWithin set) :
    Realizes repo ctx.version scope set (ctx.commonTables inner d scope s set)
      (ctx.commonPlan plans d scope.site s) := by
  rw [commonPlan, commonTables_eq]
  cases ctx.model.referencedEntity d.owner d.property with
  | error e => exact .failed e
  | ok common =>
    simp only [Except.toOption, Option.bind_some]
    change Realizes repo ctx.version scope set
      (ctx.model.keys common (commonStrategy d.property s) >>= _) _
    cases ctx.model.keys common (commonStrategy d.property s) with
    | error e => exact .failed e
    | ok commonKeys =>
      have hbelow := hinner common (ctx.commonScope d common scope s set.next commonKeys)
        (commonStrategy d.property s) (set.push (ctx.commonJoin d common scope s)) (hset.push _)
        ((Scope.IsWithin.root set _ _).descend _)
      rw [site_commonScope] at hbelow
      refine hbelow.map fun mid plan hplanned => ?_
      obtain ⟨f, hclosed, hf⟩ := ctx.commonClosed_eq scope set.next mid
      obtain ⟨text, ids, hjoin⟩ := ctx.commonJoin_eq d common scope s
      have hhang := hplanned.hangClosed (r := .common) hset hscope.table_lt rfl rfl
        (by rw [hjoin]) hf
      rw [outlines_commonStart_add, hjoin] at hhang
      rw [hclosed]
      exact hhang

theorem columns_suffixedTable (e : Entity) (parent : Table) (reason : TableReason) :
    (ctx.suffixedTable e parent reason).columns =
      (parent.primaryKeys.map Column.asParentKey).foldl (mergeColumn ctx.version) [] := by
  rw [suffixedTable, Table.columns_addParentKeys]
  rfl

theorem mem_parentKeyColumnIds_suffixedTable_iff {e : Entity} {parent : Table}
    {reason : TableReason} {id : String} :
    id ∈ (ctx.suffixedTable e parent reason).parentKeyColumnIds ↔ id ∈ parent.primaryKeyIds := by
  rw [suffixedTable, Table.mem_parentKeyColumnIds_addParentKeys_iff]
  exact or_iff_right List.not_mem_nil

theorem realizes_addedTable (hinner : RealizesPlans repo ctx.version inner plans)
    (hset : set.IsTidy) (hscope : scope.IsWithin set) (e : Entity) (parent : Table)
    (key : TableKey) (tableReason : TableReason) (reason : ForeignKeyReason) :
    Realizes repo ctx.version scope set
      (ctx.addedTable inner e parent key tableReason reason s set)
      (addedPlan repo plans e parent key s) := by
  have hbelow := hinner e (Scope.detached set.next e.namespaceName parent key) s
    (set.push (ctx.suffixedTable e parent tableReason)) (hset.push _) (.detached ..)
  refine hbelow.map fun mid plan hplanned => ?_
  have hcs : ∀ c ∈ parent.primaryKeys.map Column.asParentKey,
      c.id ∈ (ctx.suffixedTable e parent tableReason).parentKeyColumnIds := by
    intro c hc
    obtain ⟨k, hk, rfl⟩ := List.mem_map.mp hc
    exact mem_parentKeyColumnIds_suffixedTable_iff.mpr (List.mem_map.mpr ⟨k, hk, rfl⟩)
  have hadd := hplanned.addTo (r := reason) hset hscope.table_lt rfl rfl
    (columns_suffixedTable e parent tableReason) hcs
  simp only [mem_parentKeyColumnIds_suffixedTable_iff, outlines_map_asParentKey] at hadd
  have hkey : (ctx.suffixedTable e parent tableReason).key = ⟨e.namespaceName,
      (TableNaming.suffixed parent.tableId parent.nameGroup "Extension").tableId⟩ := by
    rw [suffixedTable, Table.key_addParentKeys]
    rfl
  rw [hkey] at hadd
  exact hadd

theorem realizes_commonExtensionTables (hinner : RealizesPlans repo ctx.version inner plans)
    (hset : set.IsTidy) (hscope : scope.IsWithin set) :
    Realizes repo ctx.version scope set (ctx.commonExtensionTables inner d scope s set)
      (ctx.commonExtensionPlan repo plans d scope.site s) := by
  have hid : (scope.site.joinNaming s d.property).tableId =
      (TableNaming.joinTable scope.tableId scope.nameGroup s d.property).tableId := rfl
  rw [commonExtensionPlan, commonExtensionTables, hscope.parentNamespace_eq, hid]
  cases ctx.model.referencedEntity d.owner d.property with
  | error e => exact .failed e
  | ok extension =>
    simp only [Except.toOption, Option.bind_some, bind, Except.bind]
    cases ctx.stored.get? ⟨scope.site.parentNamespace,
      (TableNaming.joinTable scope.tableId scope.nameGroup s d.property).tableId⟩ with
    | none => exact .failed _
    | some parent => exact realizes_addedTable hinner hset hscope extension parent _ _ _

/-- The properties of another entity in the table of the scope. -/
theorem realizes_inline (hinner : RealizesPlans repo ctx.version inner plans)
    (hset : set.IsTidy) (hscope : scope.IsWithin set) (name : String) :
    Realizes repo ctx.version scope set
      (ctx.model.referencedEntity d.owner d.property >>= fun e =>
        inner e (scope.descend name) s set) (ctx.inlinePlan plans d scope.site s) := by
  rw [inlinePlan]
  cases ctx.model.referencedEntity d.owner d.property with
  | error e => exact .failed e
  | ok e =>
    have hbelow : Realizes repo ctx.version (scope.descend name) set
        (inner e (scope.descend name) s set) (plans e scope.site s) :=
      hinner e (scope.descend name) s set hset (hscope.descend name)
    exact hbelow.of_descend

theorem realizes_propertyTablesBy (hinner : RealizesPlans repo ctx.version inner plans)
    (hset : set.IsTidy) (hscope : scope.IsWithin set) :
    Realizes repo ctx.version scope set (ctx.propertyTablesBy inner d scope s set)
      (ctx.propertyPlanBy repo plans d scope.site s) := by
  unfold propertyTablesBy propertyPlanBy
  cases d.property.kind.tableRule with
  | scalar => exact realizes_scalarTables hset hscope.table_lt
  | lookup => exact realizes_lookupTables hset hscope.table_lt
  | reference => exact realizes_referenceTables hset hscope.table_lt
  | common =>
    simp only
    split_ifs
    · exact realizes_commonExtensionTables hinner hset hscope
    · exact realizes_commonTables hinner hset hscope
  | choice => exact realizes_inline hinner hset hscope _
  | inlineCommon => exact realizes_inline hinner hset hscope _

/-! ### Entities -/

theorem realizes_foldlM (hinner : RealizesPlans repo ctx.version inner plans)
    (ds : List Declaration) (hset : set.IsTidy) (hscope : scope.IsWithin set) :
    Realizes repo ctx.version scope set
      (ds.foldlM (fun set d => ctx.propertyTablesBy inner d scope s set) set)
      (gather (fun d => ctx.propertyPlanBy repo plans d scope.site s) ds) := by
  induction ds generalizing set with
  | nil => exact .planned (.refl repo ctx.version scope hset)
  | cons d rest ih =>
    rw [List.foldlM_cons, gather]
    exact (realizes_propertyTablesBy hinner hset hscope).bind hscope fun _ => ih

/-- Building the properties of an entity realizes its plan. -/
theorem realizes_entityTables (ctx : TableContext) (repo : Schema) :
    RealizesPlans repo ctx.version ctx.entityTables (ctx.entityPlan repo) := by
  unfold entityTables entityPlan
  induction ctx.model.depthLimit with
  | zero => exact fun _ _ _ _ _ _ => .failed _
  | succ n ih =>
    exact fun e scope s set hset hscope => realizes_foldlM ih e.declarations hset hscope

end TableContext

/-! ### Whole sets -/

namespace TableSet

/-- The tables of a set that are kept are the given ones, whatever key orders fit them. -/
structure ConsistsOf (repo : Schema) (set : TableSet) (tables : Multiset TableOutline) : Prop where
  isTidy : set.IsTidy
  outlines_eq : ∀ order, set.FitsFrom repo order 0 →
    set.outlinesBetween repo order 0 set.next = tables

theorem isTidy_empty (e : EntityId) : (empty e).IsTidy :=
  ⟨by simp [empty], by simp [empty], by simp [empty]⟩

end TableSet

namespace TableContext

open TableSet

variable {ctx : TableContext} {repo : Schema} {e : Entity} {reason : TableReason}

theorem mainTable_eq (ctx : TableContext) (e : Entity) (reason : TableReason) :
    ctx.mainTable e reason = (ctx.model.keys e .root >>= fun keys =>
      (if e.kind.isSubclass then ctx.model.inheritedKeys e .root else pure []) >>= fun inherited =>
        ctx.entityTables e (Scope.root (ctx.mainTableStart e reason inherited) 0 keys) .root
          ((TableSet.empty e.id).push (ctx.mainTableStart e reason inherited))) := by
  unfold mainTable
  split_ifs <;> rfl

theorem mainTableStart_eq (ctx : TableContext) (e : Entity) (reason : TableReason)
    (inherited : List Column) : ctx.mainTableStart e reason inherited =
      { ctx.mainTableStart e reason [] with
        columns := inherited.foldl (mergeColumn ctx.version) [] } := by
  rw [mainTableStart, Table.addColumns_eq]
  rfl

theorem site_mainScope (ctx : TableContext) (e : Entity) (reason : TableReason)
    (inherited keys : List Column) :
    (Scope.root (ctx.mainTableStart e reason inherited) 0 keys).site =
      mainSite e ((outlines keys).map ColumnOutline.id) := by
  have hkeys : (outlines keys).map ColumnOutline.id = (keys.map Column.id : List String) := by
    rw [outlines, Multiset.map_coe, List.map_map]
    rfl
  rw [mainTableStart_eq, hkeys]
  rfl

/-- A set that has grown from a main table consists of the main table and the tables of the plan. -/
private theorem consistsOf_of_planned {t : Table} {root : EntityId} {keys inherited : List Column}
    {plan : Plan} {v : Version} {set : TableSet}
    (ht : t.columns = inherited.foldl (mergeColumn v) []) (hparents : t.parentKeyColumnIds = [])
    (h : Planned repo v (Scope.root t 0 keys) plan ((TableSet.empty root).push t) set) :
    set.ConsistsOf repo
      ((Plan.hanging t.key none (outlines inherited + plan.columns) plan.tables).tables []) := by
  have hextended : Extended (TableSet.empty root).next ((TableSet.empty root).push t) set :=
    h.extended
  obtain ⟨-, (htarget : set.target? 0 = none), (hkept : 0 ∉ set.discarded)⟩ :=
    hextended.fresh (isTidy_empty root)
  obtain ⟨u, (hu : set.get? 0 = some u), hreceived⟩ := h.newTable rfl
  have hcolumns := hreceived.outlines_eq ht
  obtain ⟨-, -, -, hkey, hparents'⟩ := hreceived
  refine ⟨h.extended.isTidy, fun order hfits => ?_⟩
  have hmain : set.outline? repo order 0 =
      some ⟨t.key, merged (outlines inherited + plan.columns), [], none⟩ := by
    rw [outline?, if_neg hkept, hu, htarget, Option.map_some, hcolumns, hkey, hparents', hparents]
    rfl
  have hall : set.outlinesBetween repo order 0 set.next =
      (set.outline? repo order 0).elim 0 (fun o => {o}) + plan.tables (order 0) :=
    h.outlinesBetween_eq rfl (fun _ _ => rfl) hfits
  rw [hall, hmain, hfits 0 (Nat.le_refl 0) _ hmain]
  rfl

/-- The tables that are built from a main table are those of the plan. -/
private theorem consistsOf_of_realizes {e : Entity} {reason : TableReason}
    {inherited keys : List Column} {result : BuildResult TableSet} {planned : Option Plan}
    (h : Realizes repo ctx.version (Scope.root (ctx.mainTableStart e reason inherited) 0 keys)
      ((TableSet.empty e.id).push (ctx.mainTableStart e reason inherited)) result planned) :
    (∃ err, result = .error err ∧ planned = none) ∨
      ∃ set plan, result = .ok set ∧ planned = some plan ∧
        set.ConsistsOf repo ((Plan.hanging ⟨e.namespaceName, (TableNaming.main e.name).tableId⟩ none
          (outlines inherited + plan.columns) plan.tables).tables []) := by
  cases h with
  | failed err => exact Or.inl ⟨err, rfl, rfl⟩
  | @planned set plan hplanned =>
    have hstart := ctx.mainTableStart_eq e reason inherited
    have hset := consistsOf_of_planned (by rw [hstart]) (by rw [hstart]; rfl) hplanned
    have hkey : (ctx.mainTableStart e reason inherited).key =
        ⟨e.namespaceName, (TableNaming.main e.name).tableId⟩ := by
      rw [hstart]
      rfl
    rw [hkey] at hset
    exact Or.inr ⟨set, plan, rfl, rfl, hset⟩

/-- The tables of a domain entity, association or subclass are those of its plan. -/
theorem consistsOf_mainTable (ctx : TableContext) (repo : Schema) (e : Entity)
    (reason : TableReason) :
    (∃ err, ctx.mainTable e reason = .error err ∧ ctx.mainPlan repo e = none) ∨
      ∃ set tables, ctx.mainTable e reason = .ok set ∧ ctx.mainPlan repo e = some tables ∧
        set.ConsistsOf repo tables := by
  rw [mainPlan, mainTable_eq]
  cases ctx.model.keys e .root with
  | error err => exact Or.inl ⟨err, rfl, rfl⟩
  | ok keys =>
    cases (if e.kind.isSubclass then ctx.model.inheritedKeys e .root else pure []) with
    | error err => exact Or.inl ⟨err, rfl, rfl⟩
    | ok inherited =>
      have hbuilt := ctx.realizes_entityTables repo e
        (Scope.root (ctx.mainTableStart e reason inherited) 0 keys) .root
        ((TableSet.empty e.id).push (ctx.mainTableStart e reason inherited))
        ((isTidy_empty e.id).push _) (.root (TableSet.empty e.id) _ keys)
      rw [site_mainScope] at hbuilt
      rcases consistsOf_of_realizes hbuilt with ⟨err, herr, hnone⟩ | ⟨set, plan, hset, hplan, hmain⟩
      · exact Or.inl ⟨err, herr, congrArg (Option.map _) hnone⟩
      · exact Or.inr ⟨set, _, hset, congrArg (Option.map _) hplan, hmain⟩

end TableContext

end Tabular
