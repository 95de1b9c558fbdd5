import Mathlib.Algebra.Order.Group.Multiset
import Mathlib.Tactic.Common
import Tabular.Proofs.Derive.Building
import Tabular.Proofs.Schema.ColumnOutlines

/-!
# Plans of tables

What the properties of an entity contribute to a set of tables, regardless of the order in which
they are declared: the columns that enter the table of the scope, and the tables that hang below it.
A plan says this with multisets, and the plan of an entity is the sum of the plans of its
properties.

The key order of a table is that of the table it hangs off, as far as this one goes. A plan
therefore is a function of the key order of the table that its tables hang off.

## Main definitions

* `gather`: the sum of parts that may fail.
* `outlinesOf`: names and flags of derived columns.
* `TableOutline`, `Plan`: a table, and a contribution, regardless of order.
* `Site`: what a plan depends on of a scope.
* `TableContext.propertyPlanBy`, `TableContext.entityPlan`, `TableContext.mainPlan`: the plans of
  properties and entities.

## Main results

* `gather_eq_of_perm`: the sum does not depend on the order of its parts.
* `outlinesOf_collect`: the columns of a list are the sum of its parts.
-/

namespace Tabular

/-! ### Sums of parts that may fail -/

section Gather

variable {α β M : Type} [AddCommMonoid M]

/-- The sum of the parts that the elements of a list give; it fails where one of them does. -/
def gather (f : α → Option M) : List α → Option M
  | [] => some 0
  | a :: rest => (f a).bind fun x => (gather f rest).map fun y => x + y

theorem gather_eq_of_perm (f : α → Option M) {xs ys : List α} (h : xs.Perm ys) :
    gather f xs = gather f ys := by
  induction h with
  | nil => rfl
  | cons a _ ih => rw [gather, gather, ih]
  | swap a b rest =>
    simp only [gather]
    cases f a <;> cases f b <;> cases gather f rest <;> simp [add_left_comm]
  | trans _ _ ih ih' => rw [ih, ih']

theorem gather_map (f : β → Option M) (g : α → β) (xs : List α) :
    gather f (xs.map g) = gather (fun a => f (g a)) xs := by
  induction xs with
  | nil => rfl
  | cons a rest ih => rw [List.map_cons, gather, gather, ih]

theorem gather_congr {f g : α → Option M} {xs : List α} (h : ∀ a ∈ xs, f a = g a) :
    gather f xs = gather g xs := by
  induction xs with
  | nil => rfl
  | cons a rest ih =>
    rw [gather, gather, h a List.mem_cons_self, ih fun b hb => h b (List.mem_cons_of_mem a hb)]

end Gather

/-! ### Derived columns -/

/-- Names and flags of derived columns, if there are any. -/
def outlinesOf (result : BuildResult (List Column)) : Option (Multiset ColumnOutline) :=
  result.toOption.map outlines

@[simp] theorem outlinesOf_ok (cs : List Column) : outlinesOf (.ok cs) = some (outlines cs) :=
  rfl

/-- The columns of a list are the sum of its parts. -/
theorem outlinesOf_collect {α : Type} (f : α → BuildResult (List Column)) (xs : List α) :
    outlinesOf (collect f xs) = gather (fun a => outlinesOf (f a)) xs := by
  induction xs with
  | nil => rfl
  | cons a rest ih =>
    rw [gather, ← ih, collect]
    cases f a with
    | error e => rfl
    | ok bs =>
      cases collect f rest with
      | error e => rfl
      | ok cs => exact congrArg some (outlines_append bs cs)

/-- The columns of a name as key columns. -/
def keyColumns (ids : Multiset String) : Multiset ColumnOutline :=
  ids.map fun id => ⟨id, false, true⟩

/-- The name and flags of a column after a change of flags. -/
def ColumnTransform.onOutline : ColumnTransform → ColumnOutline → ColumnOutline
  | unchanged, o => o
  | primaryKey, o => { o with isNullable := false, isPartOfPrimaryKey := true }
  | notNull, o => { o with isNullable := false, isPartOfPrimaryKey := false }
  | nullable, o => { o with isNullable := true, isPartOfPrimaryKey := false }
  | makeNull inner, o => { inner.onOutline o with isNullable := true, isPartOfPrimaryKey := false }

/-! ### Plans -/

/-- A table regardless of the order of its columns. -/
structure TableOutline where
  key : TableKey
  columns : Multiset ColumnOutline
  /-- The key of the table it hangs off, in key order. -/
  parentKeys : List String
  /-- The stored table it hangs off, if any. -/
  storedParent : Option TableKey
  deriving DecidableEq

/-- The key of a table in key order. -/
def TableOutline.keyOrder (o : TableOutline) : List String :=
  keyOrderOf o.parentKeys (keyIds o.columns)

/-- What properties contribute to a set of tables. -/
@[ext]
structure Plan where
  /-- The columns that enter the table of the scope. -/
  columns : Multiset ColumnOutline
  /-- The further tables, given the key order of the table they hang off. -/
  tables : List String → Multiset TableOutline

namespace Plan

instance : Zero Plan :=
  ⟨⟨0, fun _ => 0⟩⟩

instance : Add Plan :=
  ⟨fun p q => ⟨p.columns + q.columns, fun parents => p.tables parents + q.tables parents⟩⟩

@[simp] theorem columns_zero : (0 : Plan).columns = 0 :=
  rfl

@[simp] theorem columns_add (p q : Plan) : (p + q).columns = p.columns + q.columns :=
  rfl

@[simp] theorem tables_add (p q : Plan) (parents : List String) :
    (p + q).tables parents = p.tables parents + q.tables parents :=
  rfl

instance : AddCommMonoid Plan where
  add_assoc p q r := Plan.ext (add_assoc ..) (funext fun _ => add_assoc ..)
  zero_add p := Plan.ext (zero_add _) (funext fun _ => zero_add _)
  add_zero p := Plan.ext (add_zero _) (funext fun _ => add_zero _)
  add_comm p q := Plan.ext (add_comm ..) (funext fun _ => add_comm ..)
  nsmul := nsmulRec

/-- Columns only. -/
def ofColumns (os : Multiset ColumnOutline) : Plan :=
  ⟨os, fun _ => 0⟩

/-- A table that the given columns enter, and the tables below it. -/
def hanging (key : TableKey) (storedParent : Option TableKey) (entered : Multiset ColumnOutline)
    (below : List String → Multiset TableOutline) : Plan where
  columns := 0
  tables parents :=
    let table : TableOutline := ⟨key, merged entered, parents, storedParent⟩
    table ::ₘ below table.keyOrder

end Plan

/-! ### Sites -/

/-- The stored table that a link leads to. -/
def LinkTarget.stored? : LinkTarget → Option TableKey
  | inSet _ => none
  | stored key => some key

/-- What a plan depends on of a scope. -/
structure Site where
  namespaceName : String
  tableId : String
  nameGroup : List TableNameComponent
  /-- The stored table that further tables hang off, if any. -/
  storedParent : Option TableKey
  /-- The names in the key that further tables take over. -/
  keyIds : Multiset String

/-- The site of a scope. -/
def Scope.site (scope : Scope) : Site where
  namespaceName := scope.namespaceName
  tableId := scope.tableId
  nameGroup := scope.nameGroup
  storedParent := scope.parentLink.stored?
  keyIds := (scope.primaryKeys.map Column.id : List String)

namespace Site

/-- The namespace of the table that further tables hang off. -/
def parentNamespace (site : Site) : String :=
  (site.storedParent.map TableKey.namespaceName).getD site.namespaceName

/-- The name of the table of a property with several values. -/
def joinNaming (site : Site) (s : Strategy) (p : Property) : TableNaming :=
  TableNaming.joinTable site.tableId site.nameGroup s p

/-- The address of the table of a property with several values. -/
def joinKey (site : Site) (s : Strategy) (p : Property) : TableKey :=
  ⟨site.namespaceName, (site.joinNaming s p).tableId⟩

/-- The site inside the table of a common. -/
def insideCommon (site : Site) (s : Strategy) (p : Property) (ids : Multiset String) : Site where
  namespaceName := site.namespaceName
  tableId := (site.joinNaming s p).tableId
  nameGroup := (site.joinNaming s p).nameGroup
  storedParent := none
  keyIds := site.keyIds + ids

/-- The site of a table that adds columns to a stored table. -/
def beside (namespaceName : String) (parent : Table) (key : TableKey) : Site where
  namespaceName := namespaceName
  tableId := parent.tableId
  nameGroup := parent.nameGroup
  storedParent := some key
  keyIds := (parent.primaryKeyIds : List String)

end Site

/-- The key of a stored table in column order. -/
def Schema.keyAt (s : Schema) (key : TableKey) : List String :=
  ((s.get? key).map Table.primaryKeyIds).getD []

/-! ### The plans of properties and entities -/

/-- Planning the properties of an entity. -/
abbrev EntityPlanner :=
  Entity → Site → Strategy → Option Plan

namespace TableContext

variable (ctx : TableContext) (repo : Schema)

/-- The plan of a collection of values. -/
def collectionPlan (d : Declaration) (site : Site) (s : Strategy) : Option Plan :=
  (outlinesOf (ctx.model.columns d s.forNewTable.ignoreRoleName)).map fun os =>
    .hanging (site.joinKey s d.property) site.storedParent
      (keyColumns site.keyIds + keyColumns (os.map ColumnOutline.id)) fun _ => 0

/-- The plan of a scalar property, and of a lookup property whose table is known. -/
def scalarPlan (d : Declaration) (site : Site) (s : Strategy) : Option Plan :=
  if d.property.isCollection then ctx.collectionPlan d site s
  else (outlinesOf (ctx.model.columns d s)).map fun os =>
    .ofColumns (os.map (s.leafColumns .unchanged).onOutline)

/-- The plan of a lookup property. -/
def lookupPlan (d : Declaration) (site : Site) (s : Strategy) : Option Plan :=
  (ctx.lookupTarget d).toOption.bind fun _ => ctx.scalarPlan d site s

/-- The plan of a collection of references. -/
def referenceCollectionPlan (p : Property) (referenced : Entity) (site : Site) (s : Strategy) :
    Option Plan :=
  (outlinesOf (ctx.model.keys referenced ((s.forNewTable.merging p).append p))).map fun os =>
    .hanging (site.joinKey s p) site.storedParent
      (keyColumns site.keyIds + keyColumns (os.map ColumnOutline.id)) fun _ => 0

/-- The plan of a reference. -/
def referencePlan (d : Declaration) (site : Site) (s : Strategy) : Option Plan :=
  (ctx.model.referencedEntity d.owner d.property).toOption.bind fun referenced =>
    if d.property.isCollection then ctx.referenceCollectionPlan d.property referenced site s
    else if !s.buildsColumns d.property then some 0
    else (outlinesOf (ctx.model.columns d s)).map fun os =>
      .ofColumns (os.map (s.leafColumns (referenceTransform d.property s)).onOutline)

/-- The plan of a common. -/
def commonPlan (inner : EntityPlanner) (d : Declaration) (site : Site) (s : Strategy) :
    Option Plan :=
  (ctx.model.referencedEntity d.owner d.property).toOption.bind fun common =>
    (outlinesOf (ctx.model.keys common (commonStrategy d.property s))).bind fun os =>
      (inner common (site.insideCommon s d.property (keyIds os))
        (commonStrategy d.property s)).map fun plan =>
          .hanging (site.joinKey s d.property) site.storedParent
            (keyColumns site.keyIds + plan.columns) plan.tables

/-- The plan of a table that adds columns to a stored table. It has no table if there are no columns
beyond the key of the stored table; the tables below it hang off the stored table. -/
def addedPlan (inner : EntityPlanner) (e : Entity) (parent : Table) (key : TableKey)
    (s : Strategy) : Option Plan :=
  (inner e (.beside e.namespaceName parent key) s).map fun plan =>
    { columns := 0
      tables := fun _ =>
        (if ∀ o ∈ plan.columns, o.id ∈ parent.primaryKeyIds then 0
        else {⟨⟨e.namespaceName, (TableNaming.suffixed parent.tableId parent.nameGroup
            "Extension").tableId⟩,
          merged (keyColumns (parent.primaryKeyIds : List String) + plan.columns),
          repo.keyAt key, some key⟩}) + plan.tables (repo.keyAt key) }

/-- The plan of the extension of a common. -/
def commonExtensionPlan (inner : EntityPlanner) (d : Declaration) (site : Site) (s : Strategy) :
    Option Plan :=
  (ctx.model.referencedEntity d.owner d.property).toOption.bind fun extension =>
    let key : TableKey := ⟨site.parentNamespace, (site.joinNaming s d.property).tableId⟩
    (ctx.stored.get? key).bind fun parent => addedPlan repo inner extension parent key s.forNewTable

/-- The plan of a property whose columns are those of another entity. -/
def inlinePlan (inner : EntityPlanner) (d : Declaration) (site : Site) (s : Strategy) :
    Option Plan :=
  (ctx.model.referencedEntity d.owner d.property).toOption.bind fun e => inner e site s

/-- The plan of a property, given those of entities. -/
def propertyPlanBy (inner : EntityPlanner) (d : Declaration) (site : Site) (s : Strategy) :
    Option Plan :=
  match d.property.kind.tableRule with
  | .scalar => ctx.scalarPlan d site s
  | .lookup => ctx.lookupPlan d site s
  | .reference => ctx.referencePlan d site s
  | .common =>
    if d.property.isExtensionOverride then ctx.commonExtensionPlan repo inner d site s
    else ctx.commonPlan inner d site s
  | .choice => ctx.inlinePlan inner d site s.leafNullable
  | .inlineCommon => ctx.inlinePlan inner d site (inlineStrategy d.property s)

/-- The plan of an entity, through at most the given number of composites. -/
def entityPlanWithin : Nat → EntityPlanner
  | 0, _, _, _ => none
  | n + 1, e, site, s =>
    gather (fun d => ctx.propertyPlanBy repo (entityPlanWithin n) d site s) e.declarations

/-- The plan of an entity. -/
def entityPlan : EntityPlanner :=
  ctx.entityPlanWithin repo ctx.model.depthLimit

/-- The site of the main table of an entity. -/
def mainSite (e : Entity) (ids : Multiset String) : Site where
  namespaceName := e.namespaceName
  tableId := (TableNaming.main e.name).tableId
  nameGroup := (TableNaming.main e.name).nameGroup
  storedParent := none
  keyIds := ids

/-- The tables of a domain entity, association or subclass. -/
def mainPlan (e : Entity) : Option (Multiset TableOutline) :=
  (outlinesOf (ctx.model.keys e .root)).bind fun keys =>
    (outlinesOf (if e.kind.isSubclass then ctx.model.inheritedKeys e .root else pure [])).bind
      fun inherited =>
        (ctx.entityPlan repo e (mainSite e (keys.map ColumnOutline.id)) .root).map fun plan =>
          (Plan.hanging ⟨e.namespaceName, (TableNaming.main e.name).tableId⟩ none
            (inherited + plan.columns) plan.tables).tables []

end TableContext

end Tabular
