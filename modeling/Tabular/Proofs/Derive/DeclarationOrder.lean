import Mathlib.Data.List.Forall2
import Mathlib.Tactic.Common
import Tabular.Proofs.Derive.CommittedPlans
import Tabular.Proofs.Derive.RenamedKeys

/-!
# The order of declarations

From version 7.0 on the tables of an entity do not depend on the order in which properties are
declared. Columns and keys of reordered models are the same regardless of order, hence so are the
plans of entities, and plans determine what is committed.

An entity with two identity renames is an exception: the first one that is declared takes the place
of a key property of the base.

## Main definitions

* `Entity.Reordered`, `Model.Reordered`: the same declarations in another order.
* `KeyDerivation.Agrees`: columns and keys that are the same regardless of order.

## Main results

* `KeyDerivation.agrees_within`: columns and keys of reordered models.
* `TableContext.mainPlan_eq_of_reordered`: plans of reordered models.
* `store_mainTable_of_reordered`: committed tables of reordered models.
-/

namespace Tabular

/-! ### Reordered models -/

/-- The entity `e'` is `e` with its properties in another order. -/
structure Entity.Reordered (e e' : Entity) : Prop where
  perm : e.properties.Perm e'.properties
  eq : e' = { e with properties := e'.properties }

/-- The model `m'` is `m` with the properties of entities in another order. -/
structure Model.Reordered (m m' : Model) : Prop where
  namespaces : m'.namespaces = m.namespaces
  entities : List.Forall₂ Entity.Reordered m.entities m'.entities

/-- No entity has two identity renames. -/
def Model.HasSingleRenames (m : Model) : Prop :=
  ∀ e ∈ m.entities, e.identityRenames.length ≤ 1

instance (m : Model) : Decidable m.HasSingleRenames :=
  inferInstanceAs (Decidable (∀ e ∈ m.entities, e.identityRenames.length ≤ 1))

/-- Entities that are the same up to the order of properties, of which no two are identity
renames. -/
def Entity.Matches (e e' : Entity) : Prop :=
  e.Reordered e' ∧ e.identityRenames.length ≤ 1

section Declarations

variable {e e' : Entity} {ds ds' : List Declaration} {d d' : Declaration}

theorem Entity.map_property_declarations (e : Entity) :
    e.declarations.map Declaration.property = e.properties := by
  rw [declarations, List.map_map]
  exact List.zipIdx_map_fst 0 e.properties

/-- The property as an entity outside every model declares it. -/
private def Property.anywhere (p : Property) : Declaration :=
  ⟨.ofKind .domainEntity "" "", 0, p⟩

/-- The sum over declarations depends only on the properties that are declared, if the parts do. -/
theorem gather_eq_of_perm_properties {M : Type} [AddCommMonoid M] {f f' : Declaration → Option M}
    (h : (ds.map Declaration.property).Perm (ds'.map Declaration.property))
    (hf : ∀ d d', d.property = d'.property → f d = f' d') : gather f ds = gather f' ds' := by
  have hleft : gather f ds =
      gather (fun p => f' p.anywhere) (ds.map Declaration.property) := by
    rw [gather_map]
    exact gather_congr fun d _ => hf d d.property.anywhere rfl
  have hright : gather f' ds' =
      gather (fun p => f' p.anywhere) (ds'.map Declaration.property) := by
    rw [gather_map]
    refine gather_congr fun d _ => ?_
    rw [← hf d d rfl, hf d d.property.anywhere rfl]
  rw [hleft, hright, gather_eq_of_perm _ h]

/-- Filtering declarations by their properties, in terms of properties. -/
theorem map_property_filter (ds : List Declaration) (q : Property → Bool) :
    (ds.filter fun d => q d.property).map Declaration.property =
      (ds.map Declaration.property).filter q :=
  (List.filter_map ..).symm

namespace Entity.Reordered

theorem kind (h : e.Reordered e') : e'.kind = e.kind := by
  rw [h.eq]

theorem name (h : e.Reordered e') : e'.name = e.name := by
  rw [h.eq]

theorem namespaceName (h : e.Reordered e') : e'.namespaceName = e.namespaceName := by
  rw [h.eq]

theorem baseEntity (h : e.Reordered e') : e'.baseEntity = e.baseEntity := by
  rw [h.eq]

theorem declarations (h : e.Reordered e') : (e.declarations.map Declaration.property).Perm
    (e'.declarations.map Declaration.property) := by
  rw [map_property_declarations, map_property_declarations]
  exact h.perm

theorem plainIdentity (h : e.Reordered e') : (e.plainIdentity.map Declaration.property).Perm
    (e'.plainIdentity.map Declaration.property) := by
  have hfilter (e : Entity) := map_property_filter e.declarations fun p =>
    p.isPartOfIdentity && p.kind ≠ .inlineCommon
  rw [Entity.plainIdentity, hfilter, Entity.plainIdentity, hfilter]
  exact h.declarations.filter _

theorem inlineCommons (h : e.Reordered e') : (e.inlineCommons.map Declaration.property).Perm
    (e'.inlineCommons.map Declaration.property) := by
  have hfilter (e : Entity) := map_property_filter e.declarations fun p => p.kind = .inlineCommon
  rw [Entity.inlineCommons, hfilter, Entity.inlineCommons, hfilter]
  exact h.declarations.filter _

theorem addedIdentity (h : e.Reordered e') : (e.addedIdentity.map Declaration.property).Perm
    (e'.addedIdentity.map Declaration.property) := by
  have hfilter (f : Entity) := map_property_filter f.plainIdentity fun p =>
    !(e.kind.isSubclass && p.isIdentityRename)
  rw [Entity.addedIdentity, hfilter, Entity.addedIdentity, h.kind, hfilter]
  exact h.plainIdentity.filter _

end Entity.Reordered

/-- The identity rename of a subclass does not depend on the order of declarations, if there is no
other one. -/
theorem Entity.Matches.identityRename? (h : e.Matches e') :
    e.identityRename?.map Declaration.property = e'.identityRename?.map Declaration.property := by
  have hperm : (e.identityRenames.map Declaration.property).Perm
      (e'.identityRenames.map Declaration.property) := by
    rw [identityRenames, map_property_filter, identityRenames, map_property_filter]
    exact h.1.plainIdentity.filter _
  have hsame : e.identityRenames.map Declaration.property =
      e'.identityRenames.map Declaration.property := by
    have hlength := h.2
    cases hrenames : e.identityRenames with
    | nil =>
      rw [hrenames] at hperm
      exact hperm.nil_eq
    | cons r rest =>
      cases rest with
      | nil =>
        rw [hrenames] at hperm
        exact List.singleton_perm.mp hperm
      | cons _ _ => simp [hrenames] at hlength
  rw [Entity.identityRename?, Entity.identityRename?, ← List.head?_filter, ← List.head?_filter,
    ← List.head?_map, ← List.head?_map]
  exact congrArg List.head? hsame

/-- The property that stands for one of the base does not depend on the order of declarations. -/
theorem Entity.Matches.property_renamedBy (h : e.Matches e') (hd : d.property = d'.property) :
    (renamedBy e.identityRename? d).property = (renamedBy e'.identityRename? d').property := by
  have hrename := h.identityRename?
  cases hr : e.identityRename? <;> cases hr' : e'.identityRename? <;>
    simp only [hr, hr', Option.map_none, Option.map_some, reduceCtorEq, Option.some.injEq]
      at hrename
  · exact hd
  · rename_i r r'
    simp only [renamedBy, hrename, hd]
    split_ifs
    · exact hrename
    · exact hd

end Declarations

/-! ### Look-up in reordered models -/

section LookUp

variable {m m' : Model} {α β γ : Type} {R : α → β → Prop}

private theorem rel_getElem? {xs : List α} {ys : List β} (h : List.Forall₂ R xs ys) (i : Nat) :
    Option.Rel R xs[i]? ys[i]? := by
  induction h generalizing i with
  | nil => exact .none
  | cons hab _ ih =>
    cases i with
    | zero => exact .some hab
    | succ i => exact ih i

private theorem bind_eq_of_rel {x : Option α} {y : Option β} {f : α → Option γ} {g : β → Option γ}
    (h : Option.Rel R x y) (hfg : ∀ a b, R a b → f a = g b) : x.bind f = y.bind g := by
  cases h with
  | none => rfl
  | some hab => exact hfg _ _ hab

theorem Model.Reordered.rel_entity? (h : m.Reordered m') (hrenames : m.HasSingleRenames)
    (id : EntityId) : Option.Rel Entity.Matches (m.entity? id) (m'.entity? id) := by
  have hrel := rel_getElem? h.entities id
  unfold entity?
  cases he : m.entities[id]? <;> cases he' : m'.entities[id]? <;> rw [he, he'] at hrel <;>
    cases hrel
  · exact .none
  · rename_i hreordered
    exact .some ⟨hreordered, hrenames _ (List.mem_of_getElem? he)⟩

theorem Model.toOption_referencedEntity (m : Model) (owner : Entity) (p : Property) :
    (m.referencedEntity owner p).toOption = p.referencedEntity.bind m.entity? := by
  unfold referencedEntity
  cases p.referencedEntity.bind m.entity? <;> rfl

theorem Model.toOption_baseEntity (m : Model) (e : Entity) :
    (m.baseEntity e).toOption = e.baseEntity.bind m.entity? := by
  unfold baseEntity
  cases e.baseEntity.bind m.entity? <;> rfl

theorem Model.Reordered.rel_referencedEntity (h : m.Reordered m') (hrenames : m.HasSingleRenames)
    (owner owner' : Entity) (p : Property) :
    Option.Rel Entity.Matches (m.referencedEntity owner p).toOption
      (m'.referencedEntity owner' p).toOption := by
  rw [toOption_referencedEntity, toOption_referencedEntity]
  cases p.referencedEntity with
  | none => exact .none
  | some id => exact h.rel_entity? hrenames id

theorem Model.Reordered.rel_baseEntity (h : m.Reordered m') (hrenames : m.HasSingleRenames)
    {e e' : Entity} (he : e.Reordered e') :
    Option.Rel Entity.Matches (m.baseEntity e).toOption (m'.baseEntity e').toOption := by
  rw [toOption_baseEntity, toOption_baseEntity, he.baseEntity]
  cases e.baseEntity with
  | none => exact .none
  | some id => exact h.rel_entity? hrenames id

end LookUp

/-! ### Columns and keys of reordered models -/

theorem outlinesOf_bind {α : Type} (x : BuildResult α) (f : α → BuildResult (List Column)) :
    outlinesOf (x >>= f) = x.toOption.bind fun a => outlinesOf (f a) := by
  cases x <;> rfl

/-- Steps that do not look at the order of columns. -/
theorem outlinesOf_bind_congr {x y : BuildResult (List Column)}
    {f g : List Column → BuildResult (List Column)} (h : outlinesOf x = outlinesOf y)
    (hfg : ∀ cs ks, outlines cs = outlines ks → outlinesOf (f cs) = outlinesOf (g ks)) :
    outlinesOf (x >>= f) = outlinesOf (y >>= g) := by
  cases x with
  | error e =>
    cases y with
    | error e' => rfl
    | ok ks => cases h
  | ok cs =>
    cases y with
    | error e' => cases h
    | ok ks => exact hfg cs ks (Option.some.inj h)

/-- Columns as seen from a property further out. -/
theorem outlinesOf_bind_prefixColumns (x : BuildResult (List Column)) (name : String) :
    outlinesOf (x >>= fun cs => pure (prefixColumns name cs)) = outlinesOf x := by
  cases x with
  | error e => rfl
  | ok cs => exact congrArg some (outlines_prefixColumns name cs)

namespace KeyDerivation

/-- Columns and keys that are the same regardless of order, also of the order of declarations. -/
structure Agrees (k k' : KeyDerivation) : Prop where
  columns : ∀ {d d' : Declaration} (s : Strategy), d.property = d'.property →
    outlinesOf (k.columns d s) = outlinesOf (k'.columns d' s)
  keys : ∀ {e e' : Entity} (s : Strategy), e.Matches e' →
    outlinesOf (k.keys e s) = outlinesOf (k'.keys e' s)
  inheritedKeys : ∀ {e e' : Entity} (s : Strategy), e.Matches e' →
    outlinesOf (k.inheritedKeys e s) = outlinesOf (k'.inheritedKeys e' s)

variable {m m' : Model} {k k' : KeyDerivation} {d d' : Declaration} {e e' : Entity} {s : Strategy}

/-- The column of a scalar or lookup property does not depend on where it is declared, as far as its
name and flags go. -/
theorem outline_leafColumn (hd : d.property = d'.property) (naming : ColumnNaming)
    (type : ScalarType) :
    (leafColumn d s naming type).outline = (leafColumn d' s naming type).outline := by
  simp only [leafColumn, hd]
  split_ifs <;> rfl

theorem outlinesOf_referenceColumns (hm : m.Reordered m') (hrenames : m.HasSingleRenames)
    (hk : k.Agrees k') (hd : d.property = d'.property) :
    outlinesOf (referenceColumns m k d s) = outlinesOf (referenceColumns m' k' d' s) := by
  unfold referenceColumns
  rw [hd]
  simp only
  split_ifs
  · rfl
  · rw [outlinesOf_bind, outlinesOf_bind]
    refine bind_eq_of_rel (hm.rel_referencedEntity hrenames _ _ _) fun e e' he => ?_
    rw [outlinesOf_bind_prefixColumns, outlinesOf_bind_prefixColumns]
    exact hk.keys _ he

theorem outlinesOf_compositeColumns (hm : m.Reordered m') (hrenames : m.HasSingleRenames)
    (hk : k.Agrees k') (hd : d.property = d'.property) :
    outlinesOf (compositeColumns m k d s) = outlinesOf (compositeColumns m' k' d' s) := by
  unfold compositeColumns
  rw [hd]
  simp only
  split_ifs
  · rfl
  · rw [outlinesOf_bind, outlinesOf_bind]
    refine bind_eq_of_rel (hm.rel_referencedEntity hrenames _ _ _) fun e e' he => ?_
    rw [outlinesOf_bind_prefixColumns, outlinesOf_bind_prefixColumns, outlinesOf_collect,
      outlinesOf_collect]
    refine gather_eq_of_perm_properties ?_ fun q q' hq => hk.columns _ hq
    rw [map_property_filter e.declarations fun p => !p.isCollection,
      map_property_filter e'.declarations fun p => !p.isCollection]
    exact he.1.declarations.filter _

theorem outlinesOf_columnsBy (hm : m.Reordered m') (hrenames : m.HasSingleRenames)
    (hk : k.Agrees k') (hd : d.property = d'.property) (rule : ColumnRule) :
    outlinesOf (columnsBy m k rule d s) = outlinesOf (columnsBy m' k' rule d' s) := by
  have hleaf (naming : ColumnNaming) (type : ScalarType) :
      outlinesOf (.ok [leafColumn d s naming type]) =
        outlinesOf (.ok [leafColumn d' s naming type]) := by
    rw [outlinesOf_ok, outlinesOf_ok, outlines_cons, outlines_cons, outline_leafColumn hd]
  unfold columnsBy
  simp only [hd]
  split_ifs
  · rfl
  · cases rule with
    | scalar => cases d'.property.kind.scalarType? <;> [rfl; exact hleaf ..]
    | descriptor => exact hleaf ..
    | enumeration => exact hleaf ..
    | schoolYear => exact hleaf ..
    | composite => exact outlinesOf_compositeColumns hm hrenames hk hd
    | reference => exact outlinesOf_referenceColumns hm hrenames hk hd

theorem outlinesOf_inlineKeys (hm : m.Reordered m') (hrenames : m.HasSingleRenames)
    (hk : k.Agrees k') (he : e.Reordered e') :
    outlinesOf (inlineKeys m k e s) = outlinesOf (inlineKeys m' k' e' s) := by
  rw [inlineKeys, inlineKeys, outlinesOf_collect, outlinesOf_collect]
  refine gather_eq_of_perm_properties he.inlineCommons fun d d' hd => ?_
  rw [hd, outlinesOf_bind, outlinesOf_bind]
  refine bind_eq_of_rel (hm.rel_referencedEntity hrenames _ _ _) fun e e' he => ?_
  rw [outlinesOf_bind_prefixColumns, outlinesOf_bind_prefixColumns]
  exact hk.keys _ he

/-- Three parts of a key, one after the other. -/
private theorem outlinesOf_parts {x x' y y' z z' : BuildResult (List Column)}
    (hx : outlinesOf x = outlinesOf x') (hy : outlinesOf y = outlinesOf y')
    (hz : outlinesOf z = outlinesOf z') :
    outlinesOf (do return (← x) ++ (← y) ++ (← z)) =
      outlinesOf (do return (← x') ++ (← y') ++ (← z')) := by
  refine outlinesOf_bind_congr hx fun a a' ha => outlinesOf_bind_congr hy fun b b' hb =>
    outlinesOf_bind_congr hz fun c c' hc => ?_
  exact congrArg some (by rw [outlines_append, outlines_append, ha, hb, hc, outlines_append,
    outlines_append])

theorem outlinesOf_keysOf (hm : m.Reordered m') (hrenames : m.HasSingleRenames)
    (hk : k.Agrees k') (he : e.Matches e') :
    outlinesOf (keysOf m k e s) = outlinesOf (keysOf m' k' e' s) := by
  have hadded : outlinesOf (collect (fun d => k.columns d s) e.addedIdentity) =
      outlinesOf (collect (fun d => k'.columns d s) e'.addedIdentity) := by
    rw [outlinesOf_collect, outlinesOf_collect]
    exact gather_eq_of_perm_properties he.1.addedIdentity fun d d' hd => hk.columns s hd
  have hinlined := outlinesOf_inlineKeys (s := s) hm hrenames hk he.1
  unfold keysOf
  rw [he.1.kind]
  split_ifs
  · exact outlinesOf_parts (hk.inheritedKeys s he) hadded hinlined
  · exact outlinesOf_parts rfl hadded hinlined

theorem outlinesOf_inheritedKeysOf (hm : m.Reordered m') (hrenames : m.HasSingleRenames)
    (hk : k.Agrees k') (he : e.Matches e') :
    outlinesOf (inheritedKeysOf m k e s) = outlinesOf (inheritedKeysOf m' k' e' s) := by
  rw [inheritedKeysOf, inheritedKeysOf, outlinesOf_bind, outlinesOf_bind]
  refine bind_eq_of_rel (hm.rel_baseEntity hrenames he.1) fun b b' hb => ?_
  have hadded :
      outlinesOf (collect (fun d => k.columns (renamedBy e.identityRename? d) s) b.addedIdentity) =
        outlinesOf (collect (fun d => k'.columns (renamedBy e'.identityRename? d) s)
          b'.addedIdentity) := by
    rw [outlinesOf_collect, outlinesOf_collect]
    exact gather_eq_of_perm_properties hb.1.addedIdentity fun d d' hd =>
      hk.columns s (he.property_renamedBy hd)
  have hinlined := outlinesOf_inlineKeys (s := s) hm hrenames hk hb.1
  rw [hb.1.kind]
  split_ifs
  · exact outlinesOf_parts (hk.inheritedKeys s hb) hadded hinlined
  · exact outlinesOf_parts rfl hadded hinlined

/-- Columns and keys of reordered models are the same regardless of order. -/
theorem agrees_within (hm : m.Reordered m') (hrenames : m.HasSingleRenames) (n : Nat) :
    (within m n).Agrees (within m' n) := by
  induction n with
  | zero => exact ⟨fun _ _ => rfl, fun _ _ => rfl, fun _ _ => rfl⟩
  | succ n ih =>
    refine ⟨fun {d d'} s hd => ?_, fun s he => outlinesOf_keysOf hm hrenames ih he,
      fun s he => outlinesOf_inheritedKeysOf hm hrenames ih he⟩
    change outlinesOf (columnsBy m (within m n) d.property.kind.columnRule d s) =
      outlinesOf (columnsBy m' (within m' n) d'.property.kind.columnRule d' s)
    rw [hd]
    exact outlinesOf_columnsBy hm hrenames ih hd _

end KeyDerivation

namespace Model.Reordered

variable {m m' : Model}

theorem depthLimit (hm : m.Reordered m') : m'.depthLimit = m.depthLimit := by
  rw [Model.depthLimit, Model.depthLimit, hm.entities.length_eq]

/-- Columns and keys of reordered models are the same regardless of order. -/
theorem agrees (hm : m.Reordered m') (hrenames : m.HasSingleRenames) :
    m.derivation.Agrees m'.derivation := by
  rw [Model.derivation, Model.derivation, hm.depthLimit]
  exact KeyDerivation.agrees_within hm hrenames _

end Model.Reordered

/-! ### Plans of reordered models -/

namespace TableContext

variable {ctx : TableContext} {repo : Schema} {m' : Model} {plans plans' : EntityPlanner}
  {d d' : Declaration} {e e' : Entity} {site : Site} {s : Strategy}

/-- The same context with another model. -/
def withModel (ctx : TableContext) (m : Model) : TableContext :=
  { ctx with model := m }

theorem scalarPlan_eq_of_agrees (hk : ctx.model.derivation.Agrees m'.derivation)
    (hd : d.property = d'.property) :
    ctx.scalarPlan d site s = (ctx.withModel m').scalarPlan d' site s := by
  have hcolumns (s : Strategy) :
      outlinesOf (ctx.model.columns d s) = outlinesOf (m'.columns d' s) :=
    hk.columns s hd
  simp only [scalarPlan, collectionPlan, hd, hcolumns]
  rfl

private theorem rel_bind_pure {α β γ : Type} {R : α → β → Prop} {x : BuildResult α}
    {y : BuildResult β} {f : α → γ} {g : β → γ} (h : Option.Rel R x.toOption y.toOption) :
    Option.Rel (fun _ _ => True) (x >>= fun a => pure (f a)).toOption
      (y >>= fun b => pure (g b)).toOption := by
  cases x <;> cases y <;> cases h
  · exact .none
  · exact .some trivial

/-- The table of a lookup property is known in both models or in none. -/
theorem rel_lookupTarget (hm : ctx.model.Reordered m') (hrenames : ctx.model.HasSingleRenames)
    (hd : d.property = d'.property) :
    Option.Rel (fun _ _ => True) (ctx.lookupTarget d).toOption
      ((ctx.withModel m').lookupTarget d').toOption := by
  have hreferenced := hm.rel_referencedEntity hrenames d.owner d'.owner d'.property
  simp only [lookupTarget, hd]
  cases d'.property.kind with
  | schoolYearEnumeration => exact .some trivial
  | _ => exact rel_bind_pure hreferenced

theorem propertyPlanBy_eq_of_reordered (hm : ctx.model.Reordered m')
    (hrenames : ctx.model.HasSingleRenames)
    (hplans : ∀ e e' site s, e.Matches e' → plans e site s = plans' e' site s)
    (hd : d.property = d'.property) :
    ctx.propertyPlanBy repo plans d site s =
      (ctx.withModel m').propertyPlanBy repo plans' d' site s := by
  have hk := hm.agrees hrenames
  have hreferenced := hm.rel_referencedEntity hrenames d.owner d'.owner d'.property
  unfold propertyPlanBy
  rw [hd]
  cases d'.property.kind.tableRule with
  | scalar => exact scalarPlan_eq_of_agrees hk hd
  | lookup =>
    rw [lookupPlan, lookupPlan]
    exact bind_eq_of_rel (rel_lookupTarget hm hrenames hd) fun _ _ _ =>
      scalarPlan_eq_of_agrees hk hd
  | reference =>
    simp only [referencePlan, hd]
    refine bind_eq_of_rel hreferenced fun e e' he => ?_
    split_ifs
    · exact congrArg (Option.map _) (hk.keys _ he)
    · rfl
    · exact congrArg (Option.map _) (hk.columns s hd)
  | common =>
    simp only [commonExtensionPlan, commonPlan, hd]
    split_ifs
    · refine bind_eq_of_rel hreferenced fun e e' he => ?_
      have hadded (parent : Table) (key : TableKey) :
          addedPlan repo plans e parent key s.forNewTable =
            addedPlan repo plans' e' parent key s.forNewTable := by
        rw [addedPlan, addedPlan, he.1.namespaceName, hplans e e' _ _ he]
      simp only [hadded]
      rfl
    · refine bind_eq_of_rel hreferenced fun e e' he => ?_
      have hkeys : outlinesOf (ctx.model.keys e (commonStrategy d'.property s)) =
          outlinesOf (m'.keys e' (commonStrategy d'.property s)) := hk.keys _ he
      simp only [hkeys, hplans e e' _ _ he]
      rfl
  | choice =>
    simp only [inlinePlan, hd]
    exact bind_eq_of_rel hreferenced fun e e' he => hplans e e' site _ he
  | inlineCommon =>
    simp only [inlinePlan, hd]
    exact bind_eq_of_rel hreferenced fun e e' he => hplans e e' site _ he

theorem entityPlan_eq_of_reordered (repo : Schema) (hm : ctx.model.Reordered m')
    (hrenames : ctx.model.HasSingleRenames) (he : e.Matches e') (site : Site) (s : Strategy) :
    ctx.entityPlan repo e site s = (ctx.withModel m').entityPlan repo e' site s := by
  have hdepth : (ctx.withModel m').model.depthLimit = ctx.model.depthLimit := hm.depthLimit
  rw [entityPlan, entityPlan, hdepth]
  -- the bound is the same on both sides, and each step only asks for plans of matching entities
  induction ctx.model.depthLimit generalizing e e' site s with
  | zero => rfl
  | succ n ih =>
    exact gather_eq_of_perm_properties he.1.declarations fun d d' hd =>
      propertyPlanBy_eq_of_reordered hm hrenames (fun _ _ site s he => ih he site s) hd

/-- The tables of matching entities of reordered models are the same regardless of order. -/
theorem mainPlan_eq_of_reordered (repo : Schema) (hm : ctx.model.Reordered m')
    (hrenames : ctx.model.HasSingleRenames) (he : e.Matches e') :
    ctx.mainPlan repo e = (ctx.withModel m').mainPlan repo e' := by
  have hk := hm.agrees hrenames
  have hkeys : outlinesOf (ctx.model.keys e .root) = outlinesOf (m'.keys e' .root) :=
    hk.keys _ he
  have hinherited : outlinesOf (if e.kind.isSubclass then ctx.model.inheritedKeys e .root
      else pure []) = outlinesOf (if e.kind.isSubclass then m'.inheritedKeys e' .root
        else pure []) := by
    split_ifs
    · exact hk.inheritedKeys _ he
    · rfl
  have hsite (ids : Multiset String) : mainSite e' ids = mainSite e ids := by
    rw [mainSite, mainSite, he.1.name, he.1.namespaceName]
  have hplan := entityPlan_eq_of_reordered repo hm hrenames he
  simp only [mainPlan, hkeys, hinherited, he.1.kind, he.1.name, he.1.namespaceName, hsite, hplan]
  rfl

end TableContext

/-! ### Committed tables of reordered models -/

/-- The columns of a table by name and flags, in order, and the columns it has taken over from its
parent. -/
def Table.layout (t : Table) : List ColumnOutline × List String :=
  (t.columns.map Column.outline, t.parentKeyColumnIds)

/-- Let the properties of the entities of a model, none of which has two identity renames, be put in
another order. For versions from 7.0 on the tables of an entity can be built and committed in one
model exactly when they can in the other, and then there are tables at the same addresses, which
have the same columns, with the same names and flags and in the same order, and the same columns
from their parents. -/
theorem store_mainTable_of_reordered {ctx : TableContext} {m' : Model} {i : EntityId}
    {e e' : Entity} {reason : TableReason} {repo : Schema} (hm : ctx.model.Reordered m')
    (hrenames : ctx.model.HasSingleRenames) (hversion : ctx.version.isAtLeast 7 0 = true)
    (he : ctx.model.entity? i = some e) (he' : m'.entity? i = some e') :
    ((∃ r, (ctx.mainTable e reason >>= fun set => set.store ctx.version repo) = .ok r) ↔
      ∃ r, ((ctx.withModel m').mainTable e' reason >>= fun set =>
        set.store ctx.version repo) = .ok r) ∧
    ∀ set set' r r', ctx.mainTable e reason = .ok set → set.store ctx.version repo = .ok r →
      (ctx.withModel m').mainTable e' reason = .ok set' →
      set'.store ctx.version repo = .ok r' →
        (∀ key, some key ∈ set.keys ↔ some key ∈ set'.keys) ∧
        ∀ key, (r.get? key).map Table.layout = (r'.get? key).map Table.layout := by
  have hmatches : e.Matches e' := by
    have hrel := hm.rel_entity? hrenames i
    rw [he, he'] at hrel
    cases hrel with
    | some h => exact h
  have hplan := TableContext.mainPlan_eq_of_reordered repo hm hrenames hmatches
  have hok := ctx.store_mainTable_ok_iff repo e reason hversion
  have hok' := (ctx.withModel m').store_mainTable_ok_iff repo e' reason hversion
  refine ⟨?_, ?_⟩
  · rw [hok, hplan]
    exact hok'.symm
  · intro set set' r r' hset hr hset' hr'
    obtain ⟨contents, hcontents, haccepts⟩ := hok.mp ⟨r, by rw [hset]; exact hr⟩
    have hcontents' := hplan.symm.trans hcontents
    have htables := ctx.get?_store_mainTable hversion hset hr hcontents
    have htables' := (ctx.withModel m').get?_store_mainTable hversion hset' hr' hcontents'
    refine ⟨fun key => (htables key).1.trans (htables' key).1.symm, fun key => ?_⟩
    rcases (htables key).2 with ⟨o, ho, hkey, t, ht, hshows⟩ | ⟨hnone, hget⟩ <;>
      rcases (htables' key).2 with ⟨o', ho', hkey', t', ht', hshows'⟩ | ⟨hnone', hget'⟩
    · obtain rfl : o = o' := Multiset.inj_on_of_nodup_map haccepts.nodup o ho o' ho'
        (hkey.trans hkey'.symm)
      rw [ht, ht', Option.map_some, Option.map_some, Table.layout, Table.layout,
        hshows.map_outline_eq hshows', hshows.2.1, hshows'.2.1]
    · exact absurd hkey (hnone' o ho)
    · exact absurd hkey' (hnone o' ho')
    · rw [hget, hget']

namespace Households

/-- Persons of regions with an address, which is identified by its city and has any number of
lines. -/
def model : Model :=
  (Model.empty.addEntity
    (((Entity.ofKind .common "EdFi" "Address").withProperty
      (Property.ofKind "Line" (.scalar .integer)).optionalCollection).withProperty
        (Property.ofKind "City" (.scalar .integer)).identity)).addEntity
    ((((Entity.ofKind .domainEntity "EdFi" "Person").withProperty
      { Property.ofKind "Address" .common with referencedEntity := some 0 }).withProperty
        (Property.ofKind "RegionId" (.scalar .integer)).identity).withProperty
          (Property.ofKind "PersonId" (.scalar .integer)).identity)

/-- The same model with the properties of all entities in reverse order. -/
def reversed : Model :=
  { model with
    entities := model.entities.map fun e => { e with properties := e.properties.reverse } }

/-- The context of the model, with an empty schema. -/
def context : TableContext where
  model := model
  stored := .empty
  version := ⟨7, 0, 0⟩
  coreNamespace := "EdFi"
  createDateOnExtensions := false

theorem reordered : model.Reordered reversed where
  namespaces := rfl
  entities := by
    rw [reversed, List.forall₂_map_right_iff, List.forall₂_same]
    exact fun e _ => ⟨(List.reverse_perm e.properties).symm, rfl⟩

end Households

/-- The sets of tables of persons list their columns in different orders, but the tables that are
committed do not. -/
theorem store_mainTable_of_reordered_households :
    Households.model.Reordered Households.reversed ∧ Households.model.HasSingleRenames ∧
    ∃ e e' set set' r r', Households.model.entity? 1 = some e ∧
      Households.reversed.entity? 1 = some e' ∧
      Households.context.mainTable e .main = .ok set ∧
      set.store Households.context.version .empty = .ok r ∧
      (Households.context.withModel Households.reversed).mainTable e' .main = .ok set' ∧
      set'.store Households.context.version .empty = .ok r' ∧
      (set.tables.map fun t => t.columns.map Column.id) =
        [["RegionId", "PersonId"], ["RegionId", "PersonId", "City"],
          ["RegionId", "PersonId", "City", "Line"]] ∧
      (set'.tables.map fun t => t.columns.map Column.id) =
        [["PersonId", "RegionId"], ["PersonId", "RegionId", "City"],
          ["PersonId", "RegionId", "City", "Line"]] ∧
      (∀ key, some key ∈ set.keys ↔ some key ∈ set'.keys) ∧
      ∀ key, (r.get? key).map Table.layout = (r'.get? key).map Table.layout := by
  have hrenames : Households.model.HasSingleRenames := by decide +kernel
  have hrun : (Households.model.entity? 1).any (fun e =>
      (Households.context.mainTable e .main).toOption.any fun set =>
        (set.store Households.context.version .empty).toOption.any fun _ =>
          (set.tables.map fun t => t.columns.map Column.id) =
            [["RegionId", "PersonId"], ["RegionId", "PersonId", "City"],
              ["RegionId", "PersonId", "City", "Line"]]) = true := by decide +kernel
  have hrun' : (Households.reversed.entity? 1).any (fun e =>
      ((Households.context.withModel Households.reversed).mainTable e .main).toOption.any fun set =>
        (set.store Households.context.version .empty).toOption.any fun _ =>
          (set.tables.map fun t => t.columns.map Column.id) =
            [["PersonId", "RegionId"], ["PersonId", "RegionId", "City"],
              ["PersonId", "RegionId", "City", "Line"]]) = true := by decide +kernel
  obtain ⟨e, he, hrun⟩ := (Option.any_eq_true _ _).mp hrun
  obtain ⟨set, hset, hrun⟩ := exists_eq_ok_of_any hrun
  obtain ⟨r, hr, htables⟩ := exists_eq_ok_of_any hrun
  obtain ⟨e', he', hrun'⟩ := (Option.any_eq_true _ _).mp hrun'
  obtain ⟨set', hset', hrun'⟩ := exists_eq_ok_of_any hrun'
  obtain ⟨r', hr', htables'⟩ := exists_eq_ok_of_any hrun'
  have hreordered : Households.context.model.Reordered Households.reversed := Households.reordered
  obtain ⟨hkeys, hlayouts⟩ := (store_mainTable_of_reordered hreordered hrenames (by decide) he
    he').2 set set' r r' hset hr hset' hr'
  exact ⟨Households.reordered, hrenames, e, e', set, set', r, r', he, he', hset, hr, hset', hr',
    of_decide_eq_true htables, of_decide_eq_true htables', hkeys, hlayouts⟩

end Tabular
