import Mathlib.Tactic.Common
import Tabular.Proofs.Derive.Flattening

/-!
# Committed tables and nested inline commons

Writing the properties of a nested inline common in its place changes no committed table: the
addresses are the same, and so are the names and flags of the columns, from version 7.0 on also
their order. The one exception is an identity rename that takes the place of an identity property of
the inner inline common once this has become a property of the base of a subclass.

## Main results

* `store_mainTable_flattened`: committed tables of the two models.
* `store_mainTable_renamed_branches`: a model with a rename in which they are different.
-/

namespace Tabular

/-- The columns of a table by name and flags, regardless of order. -/
def Table.outline (t : Table) : Multiset ColumnOutline :=
  outlines t.columns

/-- Let a model without cycles and without merge directives have an inline common that is nested in
another one by a single, required property without a role, and let no subclass of the outer one have
an identity rename that names an identity property of the inner one. With the properties of the
inner inline common in place of the nested property, the tables of a domain entity or association
can be built and committed exactly when they can in the model itself. There are then tables at the
same addresses, and their columns have the same names and flags in every version, and from version
7.0 on in the same order. -/
theorem store_mainTable_flattened {ctx : TableContext} (N : ctx.model.Nesting) {e : Entity}
    {reason : TableReason} {repo : Schema} (hacyclic : ctx.model.IsAcyclic)
    (hm : ctx.model.IsMergeFree) (hspares : N.SparesRenames) (he : e ∈ ctx.model.mainEntities) :
    ((∃ r, (ctx.mainTable e reason >>= fun set => set.store ctx.version repo) = .ok r) ↔
      ∃ r, ((ctx.withModel N.flattened).mainTable e reason >>= fun set =>
        set.store ctx.version repo) = .ok r) ∧
    ∀ set set' r r', ctx.mainTable e reason = .ok set → set.store ctx.version repo = .ok r →
      (ctx.withModel N.flattened).mainTable e reason = .ok set' →
      set'.store ctx.version repo = .ok r' →
        (∀ key, some key ∈ set.keys ↔ some key ∈ set'.keys) ∧
        (∀ key, (r.get? key).map Table.outline = (r'.get? key).map Table.outline) ∧
        (ctx.version.isAtLeast 7 0 = true →
          ∀ key, (r.get? key).map Table.layout = (r'.get? key).map Table.layout) := by
  have hplan : ctx.mainPlan repo e = (ctx.withModel N.flattened).mainPlan repo e :=
    N.mainPlan_eq repo hacyclic hm hspares (List.mem_filter.mp he).1
      (Model.not_isSubclass_of_mem_mainEntities he)
  have hok := ctx.exists_store_mainTable_iff repo e reason
  have hok' := (ctx.withModel N.flattened).exists_store_mainTable_iff repo e reason
  refine ⟨?_, ?_⟩
  · rw [hok, hplan]
    exact hok'.symm
  · intro set set' r r' hset hr hset' hr'
    obtain ⟨contents, hcontents, haccepts⟩ := hok.mp ⟨r, by rw [hset]; exact hr⟩
    have hcontents' := hplan.symm.trans hcontents
    have htables := ctx.get?_store_mainTable_hasColumns hset hr hcontents
    have htables' :=
      (ctx.withModel N.flattened).get?_store_mainTable_hasColumns hset' hr' hcontents'
    refine ⟨fun key => (htables key).1.trans (htables' key).1.symm, fun key => ?_,
      fun hversion key => ?_⟩
    · refine TableSet.map_get?_eq_of_outlines (fun o t t' ht ht' => ?_) haccepts.nodup
        (htables key).2 (htables' key).2
      exact ht.2.trans ht'.2.symm
    · refine TableSet.map_get?_eq_of_outlines (fun o t t' ht ht' => ?_) haccepts.nodup
        (ctx.get?_store_mainTable hversion hset hr hcontents key).2
        ((ctx.withModel N.flattened).get?_store_mainTable hversion hset' hr' hcontents' key).2
      rw [Table.layout, Table.layout, ht.map_outline_eq ht', ht.2.1, ht'.2.1]

/-! ### Residences

The address is nested in the home, which a person contains in town. A person also refers either to a
household, which is identified by its home, or to a villa, whose base is the home and whose identity
rename names the street.
-/

namespace Residences

def address : Entity :=
  { ((Entity.ofKind .inlineCommon "EdFi" "Address").withProperty
      (Property.ofKind "Line" (.scalar .integer)).optionalCollection).withProperty
        (Property.ofKind "City" (.scalar .integer)).identity with
    id := 0 }

def home : Entity :=
  { (((Entity.ofKind .inlineCommon "EdFi" "Home").withProperty
      (Property.ofKind "Floor" (.scalar .integer)).optional).withProperty
        { Property.ofKind "Address" .inlineCommon with referencedEntity := some 0 }).withProperty
          (Property.ofKind "Street" (.scalar .integer)).identity with
    id := 1 }

def household : Entity :=
  { (Entity.ofKind .domainEntity "EdFi" "Household").withProperty
      { Property.ofKind "Home" .inlineCommon with referencedEntity := some 1 } with
    id := 2 }

def villa : Entity :=
  { (Entity.ofKind .domainEntitySubclass "EdFi" "Villa").withProperty
      ((Property.ofKind "Avenue" (.scalar .integer)).identityRename "Street") with
    id := 2, baseEntity := some 1 }

/-- Persons who refer to the given entity. -/
def person (referenced : Entity) : Entity :=
  { (((Entity.ofKind .domainEntity "EdFi" "Person").withProperty
      (Property.ofKind "PersonId" (.scalar .integer)).identity).withProperty
        { Property.ofKind "Home" .inlineCommon with
          roleName := "Town", referencedEntity := some 1 }).withProperty
            { Property.ofKind referenced.name .domainEntity with
              referencedEntity := some referenced.id } with
    id := 3 }

/-- The model of persons who refer to the given entity, with an empty schema. -/
def context (referenced : Entity) : TableContext where
  model := ⟨[.core "EdFi"], [address, home, referenced, person referenced]⟩
  stored := .empty
  version := ⟨7, 0, 0⟩
  coreNamespace := "EdFi"
  createDateOnExtensions := false

/-- The address in the home. -/
def nesting (referenced : Entity) : (context referenced).model.Nesting where
  position := 1
  outer := home
  before := [(Property.ofKind "Floor" (.scalar .integer)).optional]
  nested := { Property.ofKind "Address" .inlineCommon with referencedEntity := some 0 }
  after := [(Property.ofKind "Street" (.scalar .integer)).identity]
  inner := address
  entity?_position := rfl
  kind_outer := rfl
  properties_outer := rfl
  kind_nested := rfl
  isCollection_nested := rfl
  isOptional_nested := rfl
  roleName_nested := rfl
  shortenTo_nested := rfl
  referencedEntity_nested := rfl
  kind_inner := rfl

/-- The tables of persons have the given columns in the two models before they are committed, and
then the same columns in the same order. -/
def Agrees (referenced : Entity) (ids ids' : List (List String)) : Prop :=
  ∃ set set' r r', (context referenced).mainTable (person referenced) .main = .ok set ∧
    set.store (context referenced).version .empty = .ok r ∧
    ((context referenced).withModel (nesting referenced).flattened).mainTable (person referenced)
      .main = .ok set' ∧
    set'.store (context referenced).version .empty = .ok r' ∧
    (set.tables.map fun t => t.columns.map Column.id) = ids ∧
    (set'.tables.map fun t => t.columns.map Column.id) = ids' ∧
    (∀ key, some key ∈ set.keys ↔ some key ∈ set'.keys) ∧
    (∀ key, (r.get? key).map Table.outline = (r'.get? key).map Table.outline) ∧
    ∀ key, (r.get? key).map Table.layout = (r'.get? key).map Table.layout

end Residences

/-- The sets of tables of persons list their columns in different orders, but the tables that are
committed do not. -/
theorem store_mainTable_flattened_residences :
    Residences.Agrees Residences.household
      [["PersonId", "TownFloor", "TownCity", "TownStreet", "Street", "City"],
        ["PersonId", "TownStreet", "TownCity", "Line"]]
      [["PersonId", "TownFloor", "TownCity", "TownStreet", "City", "Street"],
        ["PersonId", "TownCity", "TownStreet", "Line"]] ∧
    Residences.Agrees Residences.villa
      [["PersonId", "TownFloor", "TownCity", "TownStreet", "Avenue", "City"],
        ["PersonId", "TownStreet", "TownCity", "Line"]]
      [["PersonId", "TownFloor", "TownCity", "TownStreet", "City", "Avenue"],
        ["PersonId", "TownCity", "TownStreet", "Line"]] := by
  have hagrees (referenced : Entity) {ids ids' : List (List String)}
      (hacyclic : (Residences.context referenced).model.IsAcyclic)
      (hmerges : (Residences.context referenced).model.IsMergeFree)
      (hspares : (Residences.nesting referenced).SparesRenames)
      (he : Residences.person referenced ∈ (Residences.context referenced).model.mainEntities)
      (hrun : ((Residences.context referenced).mainTable (Residences.person referenced)
        .main).toOption.any (fun set =>
          (set.store (Residences.context referenced).version .empty).toOption.any fun _ =>
            (((Residences.context referenced).withModel
              (Residences.nesting referenced).flattened).mainTable (Residences.person referenced)
              .main).toOption.any fun set' =>
                (set'.store (Residences.context referenced).version .empty).toOption.any fun _ =>
                  (set.tables.map fun t => t.columns.map Column.id) = ids ∧
                  (set'.tables.map fun t => t.columns.map Column.id) = ids') = true) :
      Residences.Agrees referenced ids ids' := by
    obtain ⟨set, hset, hrun⟩ := exists_eq_ok_of_any hrun
    obtain ⟨r, hr, hrun⟩ := exists_eq_ok_of_any hrun
    obtain ⟨set', hset', hrun⟩ := exists_eq_ok_of_any hrun
    obtain ⟨r', hr', hrun⟩ := exists_eq_ok_of_any hrun
    obtain ⟨hids, hids'⟩ := of_decide_eq_true hrun
    obtain ⟨hkeys, houtlines, hlayouts⟩ := (store_mainTable_flattened
      (Residences.nesting referenced) hacyclic hmerges hspares he).2 set set' r r' hset hr hset' hr'
    exact ⟨set, set', r, r', hset, hr, hset', hr', hids, hids', hkeys, houtlines, hlayouts rfl⟩
  exact ⟨hagrees Residences.household (Model.isAcyclic_of_lt (by decide) (by decide) (by decide))
      (by decide) (by unfold Model.Nesting.SparesRenames; decide) (by decide) (by decide +kernel),
    hagrees Residences.villa (Model.isAcyclic_of_lt (by decide) (by decide) (by decide))
      (by decide) (by unfold Model.Nesting.SparesRenames; decide) (by decide) (by decide +kernel)⟩

/-! ### Identity renames -/

namespace Branches

/-- Persons of a branch. The code is nested in the base of the branch, whose identity rename names
it. -/
def model : Model :=
  (((Model.empty.addEntity
    ((Entity.ofKind .inlineCommon "EdFi" "Inner").withProperty
      (Property.ofKind "Code" (.scalar .integer)).identity)).addEntity
    ((Entity.ofKind .inlineCommon "EdFi" "Outer").withProperty
      { Property.ofKind "Inner" .inlineCommon with referencedEntity := some 0 })).addEntity
    { (Entity.ofKind .domainEntitySubclass "EdFi" "Branch").withProperty
      ((Property.ofKind "BranchCode" (.scalar .integer)).identityRename "Code") with
      baseEntity := some 1 }).addEntity
    (((Entity.ofKind .domainEntity "EdFi" "Person").withProperty
      (Property.ofKind "PersonId" (.scalar .integer)).identity).withProperty
        { Property.ofKind "Branch" .domainEntity with referencedEntity := some 2 })

/-- The context of the model, with an empty schema. -/
def context : TableContext where
  model := model
  stored := .empty
  version := ⟨6, 1, 0⟩
  coreNamespace := "EdFi"
  createDateOnExtensions := false

/-- The inner inline common in the outer one. -/
def nesting : context.model.Nesting where
  position := 1
  outer := model.entities[1]
  before := []
  nested := { Property.ofKind "Inner" .inlineCommon with referencedEntity := some 0 }
  after := []
  inner := model.entities[0]
  entity?_position := rfl
  kind_outer := rfl
  properties_outer := rfl
  kind_nested := rfl
  isCollection_nested := rfl
  isOptional_nested := rfl
  roleName_nested := rfl
  shortenTo_nested := rfl
  referencedEntity_nested := rfl
  kind_inner := rfl

end Branches

/-- The rename of the branch takes the place of the code only once the code is a property of its
base itself: the tables of persons in the two models have different columns. -/
theorem store_mainTable_renamed_branches :
    Branches.model.IsAcyclic ∧ Branches.model.IsMergeFree ∧
    ∃ e ∈ Branches.model.mainEntities, ∃ set set' r r',
      Branches.context.mainTable e .main = .ok set ∧
      set.store Branches.context.version .empty = .ok r ∧
      (Branches.context.withModel Branches.nesting.flattened).mainTable e .main = .ok set' ∧
      set'.store Branches.context.version .empty = .ok r' ∧
      ((r.get? ⟨"EdFi", "Person"⟩).map fun t => t.columns.map Column.id) =
        some ["PersonId", "Code"] ∧
      ((r'.get? ⟨"EdFi", "Person"⟩).map fun t => t.columns.map Column.id) =
        some ["PersonId", "BranchCode"] := by
  have hacyclic : Branches.model.IsAcyclic :=
    Model.isAcyclic_of_lt (by decide) (by decide) (by decide)
  have hrun : Branches.model.mainEntities.any (fun e =>
      (Branches.context.mainTable e .main).toOption.any fun set =>
        (set.store Branches.context.version .empty).toOption.any fun r =>
          ((Branches.context.withModel Branches.nesting.flattened).mainTable e
            .main).toOption.any fun set' =>
              (set'.store Branches.context.version .empty).toOption.any fun r' =>
                ((r.get? ⟨"EdFi", "Person"⟩).map fun t => t.columns.map Column.id) =
                  some ["PersonId", "Code"] ∧
                ((r'.get? ⟨"EdFi", "Person"⟩).map fun t => t.columns.map Column.id) =
                  some ["PersonId", "BranchCode"]) = true := by
    decide +kernel
  obtain ⟨e, he, hrun⟩ := List.any_eq_true.mp hrun
  obtain ⟨set, hset, hrun⟩ := exists_eq_ok_of_any hrun
  obtain ⟨r, hr, hrun⟩ := exists_eq_ok_of_any hrun
  obtain ⟨set', hset', hrun⟩ := exists_eq_ok_of_any hrun
  obtain ⟨r', hr', hrun⟩ := exists_eq_ok_of_any hrun
  obtain ⟨hcolumns, hcolumns'⟩ := of_decide_eq_true hrun
  exact ⟨hacyclic, by decide, e, he, set, set', r, r', hset, hr, hset', hr', hcolumns, hcolumns'⟩

end Tabular
