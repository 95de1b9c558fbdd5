import Mathlib.Tactic.Common
import Tabular.Derive.Tables
import Tabular.Proofs.Result

/-!
# Building as a relation

The tables of an entity are built by a recursion through its composites with a bound on the number
of steps. This file describes the same process by a relation without a bound: one constructor for
each way in which a property can change a table set. What building preserves is then proved by
induction on the relation.

## Main definitions

* `TableContext.Built`: the relation.
* `TableContext.collectionJoin`, `TableContext.referenceJoin`, `TableContext.commonJoin`: the
  tables that properties add.

## Main results

* `TableContext.built_of_entityTables`: successful building is an instance of the relation.
* `TableContext.built_of_mainTable`, `TableContext.built_of_extensionTable`: the same for the tables
  of whole entities.
-/

namespace Tabular

namespace TableContext

/-! ### The tables that properties add -/

/-- The table of a collection of values with the given columns. -/
def collectionJoin (ctx : TableContext) (d : Declaration) (scope : Scope) (s : Strategy)
    (lookup : Option LookupTarget) (columns : List Column) : Table :=
  let join := (joinTable scope s d.property .collection).addParentKeys ctx.version scope.primaryKeys
  let join := match lookup, columns with
    | some target, c :: _ =>
      join.addForeignKey (target.foreignKey join.tableId c.id d.property.fullName)
    | _, _ => join
  join.addColumns ctx.version (columns.map Column.primaryKey)

/-- The table of a collection of references to an entity with the given key. -/
def referenceJoin (ctx : TableContext) (d : Declaration) (referenced : Entity) (scope : Scope)
    (s : Strategy) (keys : List Column) : Table :=
  (((joinTable scope s d.property .collection).addParentKeys ctx.version
    scope.primaryKeys).addColumns ctx.version
      ((prefixColumns d.property.fullName keys).map Column.primaryKey)).addReferenceSource
        ⟨[], d.id, referenced.id⟩

/-- The table of a common before it receives the columns of the common. -/
def commonJoin (ctx : TableContext) (d : Declaration) (common : Entity) (scope : Scope)
    (s : Strategy) : Table :=
  let join := joinTable scope s d.property .common
  let join := if join.description = "" then { join with description := common.documentation }
    else join
  if ctx.version.parentKeysFirst then join.addParentKeys ctx.version scope.primaryKeys else join

/-- The strategy inside the table of a common. -/
def commonStrategy (p : Property) (s : Strategy) : Strategy :=
  if p.isOptional then s.forNewTable.suppressKeys else s.forNewTable

/-- The scope inside the table of a common at a position of the set. -/
def commonScope (ctx : TableContext) (d : Declaration) (common : Entity) (scope : Scope)
    (s : Strategy) (index : Nat) (commonKeys : List Column) : Scope :=
  (Scope.root (ctx.commonJoin d common scope s) index
    (scope.primaryKeys.map Column.asParentKey ++
      commonKeys.filter Column.isPartOfPrimaryKey)).descend d.property.fullName

/-- The set in which the table of a common at a position has the key of its parent. -/
def commonClosed (ctx : TableContext) (scope : Scope) (index : Nat) (set : TableSet) : TableSet :=
  if ctx.version.parentKeysFirst then set
  else set.modify index fun t => t.addParentKeys ctx.version scope.primaryKeys

/-- The strategy inside an inline common. -/
def inlineStrategy (p : Property) (s : Strategy) : Strategy :=
  if p.isOptional then (s.append p).leafNullable else s.append p

/-- The address of the table that the extension of a common adds columns to. -/
def extendedKey (d : Declaration) (scope : Scope) (s : Strategy) (set : TableSet) : TableKey :=
  ⟨scope.parentNamespace set,
    (TableNaming.joinTable scope.tableId scope.nameGroup s d.property).tableId⟩

/-! ### The relation -/

/-- `ctx.Built ds scope s set next`: building the properties `ds` in a scope, under a strategy,
turns the table set `set` into `next`. -/
inductive Built (ctx : TableContext) :
    List Declaration → Scope → Strategy → TableSet → TableSet → Prop
  | nil {scope s set} : Built ctx [] scope s set set
  | cons {d rest scope s set mid next} (head : Built ctx [d] scope s set mid)
      (tail : Built ctx rest scope s mid next) : Built ctx (d :: rest) scope s set next
  | column {d scope s set columns} (hrule : d.property.kind.tableRule = .scalar)
      (hsingle : d.property.isCollection = false)
      (hcolumns : ctx.model.columns d s = .ok columns) :
      Built ctx [d] scope s set
        (scope.addColumns ctx.version (s.leafColumns .unchanged) columns set)
  | lookup {d scope s set target c rest} (hrule : d.property.kind.tableRule = .lookup)
      (hsingle : d.property.isCollection = false)
      (htarget : ctx.lookupTarget d = .ok target)
      (hcolumns : ctx.model.columns d s = .ok (c :: rest)) :
      Built ctx [d] scope s set
        ((scope.addColumns ctx.version (s.leafColumns .unchanged) (c :: rest) set).modify
          scope.table fun t =>
            t.addForeignKey (target.foreignKey t.tableId c.id d.property.fullName))
  | lookupSkipped {d scope s set} (hrule : d.property.kind.tableRule = .lookup)
      (hsingle : d.property.isCollection = false)
      (hcolumns : ctx.model.columns d s = .ok []) : Built ctx [d] scope s set set
  | collection {d scope s set lookup columns} (hcollection : d.property.isCollection = true)
      (hrule : d.property.kind.tableRule = .scalar ∨ d.property.kind.tableRule = .lookup)
      (hcolumns : ctx.model.columns d s.forNewTable.ignoreRoleName = .ok columns)
      (hlookup : ∀ target, lookup = some target →
        d.property.kind.tableRule = .lookup ∧ ctx.lookupTarget d = .ok target) :
      Built ctx [d] scope s set
        ((set.push (ctx.collectionJoin d scope s lookup columns)).link set.next scope.parentLink
          .collection)
  | reference {d scope s set referenced columns} (hrule : d.property.kind.tableRule = .reference)
      (hsingle : d.property.isCollection = false)
      (hreferenced : ctx.model.referencedEntity d.owner d.property = .ok referenced)
      (hbuilds : s.buildsColumns d.property = true)
      (hcolumns : ctx.model.columns d s = .ok columns) :
      Built ctx [d] scope s set
        ((scope.addColumns ctx.version (s.leafColumns (referenceTransform d.property s)) columns
          set).modify scope.table fun t =>
            t.addReferenceSource ⟨scope.path, d.id, referenced.id⟩)
  | referenceSkipped {d scope s set} (hrule : d.property.kind.tableRule = .reference)
      (hskips : s.buildsColumns d.property = false) : Built ctx [d] scope s set set
  | referenceCollection {d scope s set referenced keys}
      (hrule : d.property.kind.tableRule = .reference)
      (hcollection : d.property.isCollection = true)
      (hreferenced : ctx.model.referencedEntity d.owner d.property = .ok referenced)
      (hkeys : ctx.model.keys referenced
        ((s.forNewTable.merging d.property).append d.property) = .ok keys) :
      Built ctx [d] scope s set
        ((set.push (ctx.referenceJoin d referenced scope s keys)).link set.next scope.parentLink
          .collection)
  | common {d scope s set mid common commonKeys} (hrule : d.property.kind.tableRule = .common)
      (hreferenced : ctx.model.referencedEntity d.owner d.property = .ok common)
      (hkeys : ctx.model.keys common (commonStrategy d.property s) = .ok commonKeys)
      (inner : Built ctx common.declarations
        (ctx.commonScope d common scope s set.next commonKeys) (commonStrategy d.property s)
        (set.push (ctx.commonJoin d common scope s)) mid) :
      Built ctx [d] scope s set
        ((ctx.commonClosed scope set.next mid).link set.next scope.parentLink .common)
  | commonExtension {d scope s set mid extension parent}
      (hrule : d.property.kind.tableRule = .common)
      (hreferenced : ctx.model.referencedEntity d.owner d.property = .ok extension)
      (hstored : ctx.stored.get? (extendedKey d scope s set) = some parent)
      (inner : Built ctx extension.declarations
        (Scope.detached set.next extension.namespaceName parent (extendedKey d scope s set))
        s.forNewTable (set.push (ctx.suffixedTable extension parent .commonExtension)) mid) :
      Built ctx [d] scope s set
        (linkOrDiscard set.next (extendedKey d scope s set) .commonExtension mid)
  | choice {d scope s set next choice} (hrule : d.property.kind.tableRule = .choice)
      (hreferenced : ctx.model.referencedEntity d.owner d.property = .ok choice)
      (inner : Built ctx choice.declarations (scope.descend d.property.fullName) s.leafNullable
        set next) : Built ctx [d] scope s set next
  | inlineCommon {d scope s set next inlined} (hrule : d.property.kind.tableRule = .inlineCommon)
      (hreferenced : ctx.model.referencedEntity d.owner d.property = .ok inlined)
      (inner : Built ctx inlined.declarations (scope.descend d.property.fullName)
        (inlineStrategy d.property s) set next) : Built ctx [d] scope s set next

/-! ### Successful building is an instance -/

variable {ctx : TableContext} {d : Declaration} {scope : Scope} {s : Strategy}
  {set next : TableSet}

private theorem built_of_collectionTable {lookup : Option LookupTarget}
    (hcollection : d.property.isCollection = true)
    (hrule : d.property.kind.tableRule = .scalar ∨ d.property.kind.tableRule = .lookup)
    (hlookup : ∀ target, lookup = some target →
      d.property.kind.tableRule = .lookup ∧ ctx.lookupTarget d = .ok target)
    (h : ctx.collectionTable d scope s lookup set = .ok next) :
    ctx.Built [d] scope s set next := by
  simp only [collectionTable, bind_eq_ok_iff, pure_eq_ok_iff] at h
  obtain ⟨columns, hcolumns, rfl⟩ := h
  exact .collection hcollection hrule hcolumns hlookup

private theorem built_of_scalarTables (hrule : d.property.kind.tableRule = .scalar)
    (h : ctx.scalarTables d scope s set = .ok next) : ctx.Built [d] scope s set next := by
  unfold scalarTables at h
  split_ifs at h with hcollection
  · exact built_of_collectionTable hcollection (Or.inl hrule) (by simp) h
  · simp only [bind_eq_ok_iff, pure_eq_ok_iff] at h
    obtain ⟨columns, hcolumns, rfl⟩ := h
    exact .column hrule (by simpa using hcollection) hcolumns

private theorem built_of_lookupTables (hrule : d.property.kind.tableRule = .lookup)
    (h : ctx.lookupTables d scope s set = .ok next) : ctx.Built [d] scope s set next := by
  simp only [lookupTables, bind_eq_ok_iff] at h
  obtain ⟨target, htarget, h⟩ := h
  split_ifs at h with hcollection
  · refine built_of_collectionTable hcollection (Or.inr hrule) (fun other hother => ?_) h
    exact ⟨hrule, Option.some.inj hother ▸ htarget⟩
  · have hsingle : d.property.isCollection = false := by simpa using hcollection
    rw [bind_eq_ok_iff] at h
    obtain ⟨columns, hcolumns, h⟩ := h
    cases columns with
    | nil =>
      simp only [pure_eq_ok_iff] at h
      exact h ▸ .lookupSkipped hrule hsingle hcolumns
    | cons c rest =>
      simp only [pure_eq_ok_iff] at h
      exact h ▸ .lookup hrule hsingle htarget hcolumns

private theorem built_of_referenceTables (hrule : d.property.kind.tableRule = .reference)
    (h : ctx.referenceTables d scope s set = .ok next) : ctx.Built [d] scope s set next := by
  simp only [referenceTables, bind_eq_ok_iff] at h
  obtain ⟨referenced, hreferenced, h⟩ := h
  split_ifs at h with hcollection hskips
  · simp only [referenceCollectionTable, bind_eq_ok_iff, pure_eq_ok_iff] at h
    obtain ⟨keys, hkeys, rfl⟩ := h
    exact .referenceCollection hrule hcollection hreferenced hkeys
  · simp only [pure_eq_ok_iff] at h
    exact h ▸ .referenceSkipped hrule (by simpa using hskips)
  · simp only [bind_eq_ok_iff, pure_eq_ok_iff] at h
    obtain ⟨columns, hcolumns, rfl⟩ := h
    exact .reference hrule (by simpa using hcollection) hreferenced (by simpa using hskips)
      hcolumns

/-- An entity builder all of whose successful runs are instances of the relation. -/
private def Sound (ctx : TableContext) (inner : EntityBuilder) : Prop :=
  ∀ e scope s set next, inner e scope s set = .ok next →
    ctx.Built e.declarations scope s set next

private theorem built_of_commonTables {inner : EntityBuilder} (hinner : Sound ctx inner)
    (hrule : d.property.kind.tableRule = .common)
    (h : ctx.commonTables inner d scope s set = .ok next) : ctx.Built [d] scope s set next := by
  simp only [commonTables, bind_eq_ok_iff, pure_eq_ok_iff] at h
  obtain ⟨common, hreferenced, commonKeys, hkeys, mid, hmid, rfl⟩ := h
  exact .common hrule hreferenced hkeys (hinner _ _ _ _ _ hmid)

private theorem built_of_commonExtensionTables {inner : EntityBuilder}
    (hinner : Sound ctx inner) (hrule : d.property.kind.tableRule = .common)
    (h : ctx.commonExtensionTables inner d scope s set = .ok next) :
    ctx.Built [d] scope s set next := by
  simp only [commonExtensionTables, bind_eq_ok_iff] at h
  obtain ⟨extension, hreferenced, h⟩ := h
  split at h
  · simp at h
  · rename_i parent hstored
    simp only [addedTable, bind_eq_ok_iff, pure_eq_ok_iff] at h
    obtain ⟨mid, hmid, rfl⟩ := h
    exact .commonExtension hrule hreferenced hstored (hinner _ _ _ _ _ hmid)

private theorem built_of_propertyTablesBy {inner : EntityBuilder} (hinner : Sound ctx inner)
    (h : ctx.propertyTablesBy inner d scope s set = .ok next) :
    ctx.Built [d] scope s set next := by
  unfold propertyTablesBy at h
  cases hrule : d.property.kind.tableRule with
  | scalar => exact built_of_scalarTables hrule (by simpa only [hrule] using h)
  | lookup => exact built_of_lookupTables hrule (by simpa only [hrule] using h)
  | reference => exact built_of_referenceTables hrule (by simpa only [hrule] using h)
  | common =>
    simp only [hrule] at h
    split_ifs at h
    · exact built_of_commonExtensionTables hinner hrule h
    · exact built_of_commonTables hinner hrule h
  | choice =>
    simp only [hrule, choiceTables, bind_eq_ok_iff] at h
    obtain ⟨choice, hreferenced, h⟩ := h
    exact .choice hrule hreferenced (hinner _ _ _ _ _ h)
  | inlineCommon =>
    simp only [hrule, inlineCommonTables, bind_eq_ok_iff] at h
    obtain ⟨inlined, hreferenced, h⟩ := h
    exact .inlineCommon hrule hreferenced (hinner _ _ _ _ _ h)

private theorem built_of_foldlM {inner : EntityBuilder} (hinner : Sound ctx inner) :
    (ds : List Declaration) → {set : TableSet} →
      ds.foldlM (fun set d => ctx.propertyTablesBy inner d scope s set) set = .ok next →
      ctx.Built ds scope s set next
  | [], set, h => by
    simp only [List.foldlM_nil, pure_eq_ok_iff] at h
    exact h ▸ .nil
  | d :: rest, set, h => by
    rw [List.foldlM_cons, bind_eq_ok_iff] at h
    obtain ⟨mid, hmid, hrest⟩ := h
    exact .cons (built_of_propertyTablesBy hinner hmid) (built_of_foldlM hinner rest hrest)

private theorem sound_entityTablesWithin (ctx : TableContext) (n : Nat) :
    Sound ctx (ctx.entityTablesWithin n) := by
  induction n with
  | zero =>
    intro e scope s set next h
    simp [entityTablesWithin] at h
  | succ n ih =>
    intro e scope s set next h
    exact built_of_foldlM ih e.declarations h

theorem built_of_entityTablesWithin {n : Nat} {e : Entity}
    (h : ctx.entityTablesWithin n e scope s set = .ok next) :
    ctx.Built e.declarations scope s set next :=
  sound_entityTablesWithin ctx n e scope s set next h

/-- Successful building of the properties of an entity is an instance of the relation. -/
theorem built_of_entityTables {e : Entity} (h : ctx.entityTables e scope s set = .ok next) :
    ctx.Built e.declarations scope s set next :=
  built_of_entityTablesWithin h

/-- Successful building of the properties of an entity consists of what comes before one of them,
of building that property, and of what comes after it. -/
theorem exists_built_of_mem {e : Entity} (h : ctx.entityTables e scope s set = .ok next)
    (hd : d ∈ e.declarations) : ∃ before after n mid mid', ctx.Built before scope s set mid ∧
      ctx.propertyTablesBy (ctx.entityTablesWithin n) d scope s mid = .ok mid' ∧
      ctx.Built [d] scope s mid mid' ∧ ctx.Built after scope s mid' next := by
  unfold entityTables at h
  cases hlimit : ctx.model.depthLimit with
  | zero => simp [hlimit, entityTablesWithin] at h
  | succ n =>
    rw [hlimit] at h
    have hsound := sound_entityTablesWithin ctx n
    obtain ⟨before, after, mid, mid', -, hbefore, hmid, hafter⟩ := foldlM_ok_of_mem h hd
    exact ⟨before, after, n, mid, mid', built_of_foldlM hsound before hbefore, hmid,
      built_of_propertyTablesBy hsound hmid, built_of_foldlM hsound after hafter⟩

/-- The tables of a domain entity, association or subclass are built from its main table. -/
theorem built_of_mainTable {e : Entity} {reason : TableReason}
    (h : ctx.mainTable e reason = .ok next) : ∃ keys inherited,
      ctx.model.keys e .root = .ok keys ∧
      (if e.kind.isSubclass then ctx.model.inheritedKeys e .root else pure []) = .ok inherited ∧
      ctx.Built e.declarations (Scope.root (ctx.mainTableStart e reason inherited) 0 keys) .root
        ((TableSet.empty e.id).push (ctx.mainTableStart e reason inherited)) next := by
  rw [mainTable, bind_eq_ok_iff] at h
  obtain ⟨keys, hkeys, h⟩ := h
  split_ifs at h with hsubclass <;> rw [bind_eq_ok_iff] at h <;>
    obtain ⟨inherited, hinherited, h⟩ := h
  · exact ⟨keys, inherited, hkeys, by rw [if_pos hsubclass]; exact hinherited,
      built_of_entityTables h⟩
  · exact ⟨keys, inherited, hkeys, by rw [if_neg hsubclass]; exact hinherited,
      built_of_entityTables h⟩

/-- A stored main table is the registered one. -/
theorem storedTable_eq_ok {requester e : Entity} {key : TableKey} {t : Table}
    (h : ctx.storedTable requester e = .ok (key, t)) :
    ctx.stored.entityTableKey? e.id = some key ∧ ctx.stored.get? key = some t := by
  unfold storedTable at h
  cases hkey : ctx.stored.entityTableKey? e.id with
  | none => simp [hkey] at h
  | some k =>
    cases hget : ctx.stored.get? k with
    | none => simp [hkey, hget] at h
    | some u =>
      simp only [hkey, hget, Except.ok.injEq, Prod.mk.injEq] at h
      obtain ⟨rfl, rfl⟩ := h
      exact ⟨rfl, hget⟩

/-- The tables of an extension are built from the table that adds columns to its base. -/
theorem built_of_extensionTable {e : Entity} (h : ctx.extensionTable e = .ok next) :
    ∃ base key parent mid, ctx.model.baseEntity e = .ok base ∧
      ctx.stored.entityTableKey? base.id = some key ∧ ctx.stored.get? key = some parent ∧
      ctx.Built e.declarations (Scope.detached 0 e.namespaceName parent key) .root
        ((TableSet.empty e.id).push (ctx.suffixedTable e parent .extension)) mid ∧
      next = linkOrDiscard 0 key .extension mid := by
  simp only [extensionTable, bind_eq_ok_iff] at h
  obtain ⟨base, hbase, ⟨key, parent⟩, hstored, h⟩ := h
  obtain ⟨hkey, hget⟩ := storedTable_eq_ok hstored
  simp only [addedTable, bind_eq_ok_iff, pure_eq_ok_iff] at h
  obtain ⟨mid, hmid, rfl⟩ := h
  exact ⟨base, key, parent, mid, hbase, hkey, hget, built_of_entityTables hmid, rfl⟩

end TableContext

end Tabular
