import Mathlib.Tactic.Common
import Tabular.Proofs.Derive.AlikeStrategies
import Tabular.Proofs.Derive.DeclarationOrder

/-!
# Corresponding models

Two models correspond if their links lead to corresponding entities. What the first gives for the
columns of a property or the key of an entity is then also given by the second, regardless of order,
as soon as this is known of the contents of corresponding entities one step further on.

## Main definitions

* `Model.Corresponds`: models whose links lead to corresponding entities.
* `KeyDerivation.partOutlines`, `KeyDerivation.ownOutlines`: what an entity contributes to a
  composite, and to a key.
* `KeyDerivation.Refines`, `KeyDerivation.Compares`, `KeyDerivation.Contents`: what is compared.

## Main results

* `KeyDerivation.Refines.step`: one step of the derivation in corresponding models.
* `TableContext.foundIn_propertyPlanBy`: the plans of corresponding properties.
-/

namespace Tabular

/-! ### Corresponding models -/

/-- The links of the two models lead to entities in the relation `R`, and declarations in the
relation `D` declare the same property, which carries no merge directive. -/
structure Model.Corresponds (m m' : Model) (R : Entity → Entity → Prop)
    (D : Declaration → Declaration → Prop) : Prop where
  entity? : ∀ id, Option.Rel R (m.entity? id) (m'.entity? id)
  kind : ∀ {e e'}, R e e' → e.kind = e'.kind
  namespaceName : ∀ {e e'}, R e e' → e.namespaceName = e'.namespaceName
  base : ∀ {e e'}, R e e' → e.baseEntity = e'.baseEntity
  property : ∀ {d d'}, D d d' → d.property = d'.property
  mergeDirectives : ∀ {d d'}, D d d' → d.property.mergeDirectives = []

namespace Model.Corresponds

variable {m m' : Model} {R : Entity → Entity → Prop} {D : Declaration → Declaration → Prop}

theorem flip (h : m.Corresponds m' R D) : m'.Corresponds m (flip R) (flip D) where
  entity? id := by
    have hrel := h.entity? id
    cases he : m.entity? id <;> cases he' : m'.entity? id <;> rw [he, he'] at hrel <;> cases hrel
    · exact .none
    · exact .some ‹_›
  kind he := (h.kind he).symm
  namespaceName he := (h.namespaceName he).symm
  base he := (h.base he).symm
  property hd := (h.property hd).symm
  mergeDirectives hd := by
    rw [← h.property hd]
    exact h.mergeDirectives hd

theorem referencedEntity (h : m.Corresponds m' R D) (owner owner' : Entity) (p : Property) :
    Option.Rel R (m.referencedEntity owner p).toOption (m'.referencedEntity owner' p).toOption := by
  rw [toOption_referencedEntity, toOption_referencedEntity]
  cases p.referencedEntity with
  | none => exact .none
  | some id => exact h.entity? id

theorem baseEntity (h : m.Corresponds m' R D) {e e' : Entity} (he : R e e') :
    Option.Rel R (m.baseEntity e).toOption (m'.baseEntity e').toOption := by
  rw [toOption_baseEntity, toOption_baseEntity, h.base he]
  cases e'.baseEntity with
  | none => exact .none
  | some id => exact h.entity? id

end Model.Corresponds

/-! ### What an entity contributes -/

namespace KeyDerivation

section Contributions

variable (m : Model) (k : KeyDerivation)

/-- The columns that the properties of an entity contribute to a composite, regardless of order. -/
def partOutlines (e : Entity) (s : Strategy) : Option (Multiset ColumnOutline) :=
  gather (fun d => if d.property.isCollection then some 0 else outlinesOf (k.columns d s))
    e.declarations

/-- The key columns of a property of an entity, with a rename in place. A subclass leaves out its
identity renames. -/
def ownPart (rename : Option Declaration) (isSubclass : Bool) (d : Declaration) (s : Strategy) :
    Option (Multiset ColumnOutline) :=
  if d.property.kind = .inlineCommon then
    (m.referencedEntity d.owner d.property).toOption.bind fun f =>
      outlinesOf (k.keys f (s.append d.property))
  else if d.property.isPartOfIdentity && !(isSubclass && d.property.isIdentityRename) then
    outlinesOf (k.columns (renamedBy rename d) s)
  else some 0

/-- The key columns that the properties of an entity contribute, with a rename in place, regardless
of order. -/
def ownOutlines (rename : Option Declaration) (e : Entity) (s : Strategy) :
    Option (Multiset ColumnOutline) :=
  gather (fun d => ownPart m k rename e.kind.isSubclass d s) e.declarations

end Contributions

variable {m m' : Model} {k k' : KeyDerivation} {d d' : Declaration} {e e' : Entity}
  {s s' : Strategy}

theorem outlinesOf_compositeColumns_eq (m : Model) (k : KeyDerivation) (d : Declaration)
    (s : Strategy) : outlinesOf (compositeColumns m k d s) =
      if d.property.isCollection then some 0
      else (m.referencedEntity d.owner d.property).toOption.bind fun e =>
        k.partOutlines e (compositeStrategy d.property s) := by
  unfold compositeColumns
  simp only
  split_ifs
  · rfl
  · rw [outlinesOf_bind]
    congr 1
    funext e
    rw [outlinesOf_bind_prefixColumns, outlinesOf_collect, gather_filter]
    refine gather_congr fun q _ => ?_
    cases q.property.isCollection <;> rfl

theorem outlinesOf_referenceColumns_eq (m : Model) (k : KeyDerivation) (d : Declaration)
    (s : Strategy) : outlinesOf (referenceColumns m k d s) =
      if d.property.isCollection then some 0
      else (m.referencedEntity d.owner d.property).toOption.bind fun e =>
        outlinesOf (k.keys e ((s.merging d.property).append d.property)) := by
  unfold referenceColumns
  simp only
  split_ifs
  · rfl
  · rw [outlinesOf_bind]
    congr 1
    funext e
    rw [outlinesOf_bind_prefixColumns]

/-- The columns that an entity adds to a key and those of its inline commons. -/
theorem map₂_outlinesOf_eq_ownOutlines (m : Model) (k : KeyDerivation)
    (rename : Option Declaration) (e : Entity) (s : Strategy) :
    Option.map₂ (· + ·)
      (outlinesOf (collect (fun d => k.columns (renamedBy rename d) s) e.addedIdentity))
      (outlinesOf (inlineKeys m k e s)) = ownOutlines m k rename e s := by
  rw [outlinesOf_collect, Entity.addedIdentity, Entity.plainIdentity, inlineKeys,
    outlinesOf_collect, Entity.inlineCommons, gather_filter, gather_filter, gather_filter,
    map₂_gather]
  refine gather_congr fun d hd => ?_
  have howner := Entity.owner_of_mem_declarations hd
  rw [outlinesOf_bind, ← howner]
  simp only [outlinesOf_bind_prefixColumns, ownPart]
  by_cases hkind : d.property.kind = .inlineCommon
  · simp [hkind]
  · cases hidentity : d.property.isPartOfIdentity with
    | false => simp [hkind]
    | true =>
      cases hrename : d.owner.kind.isSubclass && d.property.isIdentityRename <;>
        simp [hkind]

private theorem outlinesOf_append {x y z : BuildResult (List Column)} :
    outlinesOf (do return (← x) ++ (← y) ++ (← z)) =
      Option.map₂ (· + ·) (outlinesOf x) (Option.map₂ (· + ·) (outlinesOf y) (outlinesOf z)) := by
  cases x with
  | error err => rfl
  | ok a =>
    cases y with
    | error err => rfl
    | ok b =>
      cases z with
      | error err => rfl
      | ok c =>
        refine congrArg some ?_
        rw [outlines_append, outlines_append, add_assoc]

theorem outlinesOf_keysOf_eq (m : Model) (k : KeyDerivation) (e : Entity) (s : Strategy) :
    outlinesOf (keysOf m k e s) =
      Option.map₂ (· + ·)
        (if e.kind.isSubclass then outlinesOf (k.inheritedKeys e s) else some 0)
        (ownOutlines m k none e s) := by
  rw [← map₂_outlinesOf_eq_ownOutlines]
  unfold keysOf
  split_ifs
  · exact outlinesOf_append
  · exact outlinesOf_append

theorem outlinesOf_inheritedKeysOf_eq (m : Model) (k : KeyDerivation) (e : Entity) (s : Strategy) :
    outlinesOf (inheritedKeysOf m k e s) = (m.baseEntity e).toOption.bind fun b =>
      Option.map₂ (· + ·)
        (if b.kind.isSubclass then outlinesOf (k.inheritedKeys b s) else some 0)
        (ownOutlines m k e.identityRename? b s) := by
  rw [inheritedKeysOf, outlinesOf_bind]
  congr 1
  funext b
  rw [← map₂_outlinesOf_eq_ownOutlines]
  split_ifs
  · exact outlinesOf_append
  · exact outlinesOf_append

/-! ### Refinement -/

/-- Names and flags that the derivation `k` finds are found by `k'` as well, for corresponding
entities and declarations and for strategies that are alike. -/
structure Refines (R : Entity → Entity → Prop) (D : Declaration → Declaration → Prop)
    (k k' : KeyDerivation) : Prop where
  columns : ∀ {d d' s s'}, D d d' → s.Alike s' →
    FoundIn (outlinesOf (k.columns d s)) (outlinesOf (k'.columns d' s'))
  keys : ∀ {e e' s s'}, R e e' → s.Alike s' →
    FoundIn (outlinesOf (k.keys e s)) (outlinesOf (k'.keys e' s'))
  inheritedKeys : ∀ {e e' s s'}, R e e' → e.kind.isSubclass = true → s.Alike s' →
    FoundIn (outlinesOf (k.inheritedKeys e s)) (outlinesOf (k'.inheritedKeys e' s'))

/-- The contents of corresponding entities that `k` finds are found by `k'` as well. -/
structure Contents (R : Entity → Entity → Prop) (m m' : Model) (k k' : KeyDerivation) : Prop where
  parts : ∀ {e e' s s'}, R e e' → s.Alike s' →
    FoundIn (k.partOutlines e s) (k'.partOutlines e' s')
  own : ∀ {e e' s s'}, R e e' → s.Alike s' →
    FoundIn (ownOutlines m k none e s) (ownOutlines m' k' none e' s')
  inherited : ∀ {e e' b b' s s'}, R e e' → e.kind.isSubclass = true →
    m.baseEntity e = .ok b → m'.baseEntity e' = .ok b' → s.Alike s' →
      FoundIn (ownOutlines m k e.identityRename? b s) (ownOutlines m' k' e'.identityRename? b' s')

variable {R : Entity → Entity → Prop} {D : Declaration → Declaration → Prop}

theorem IsBelow.foundIn (h : k.IsBelow k') (q : Query) (s : Strategy) :
    FoundIn (outlinesOf (k.ask s q)) (outlinesOf (k'.ask s q)) := by
  intro os hos
  cases hk : k.ask s q with
  | error err =>
    rw [hk] at hos
    cases hos
  | ok cs =>
    rw [h q s cs hk, ← hk]
    exact hos

/-- Columns and keys of corresponding declarations and entities under a comparison. -/
structure Compares (S : Option (Multiset ColumnOutline) → Option (Multiset ColumnOutline) → Prop)
    (R : Entity → Entity → Prop) (D : Declaration → Declaration → Prop) (k k' : KeyDerivation) :
    Prop where
  columns : ∀ {d d' s s'}, D d d' → s.Alike s' →
    S (outlinesOf (k.columns d s)) (outlinesOf (k'.columns d' s'))
  keys : ∀ {e e' s s'}, R e e' → s.Alike s' →
    S (outlinesOf (k.keys e s)) (outlinesOf (k'.keys e' s'))

theorem Refines.compares (h : Refines R D k k') : Compares FoundIn R D k k' :=
  ⟨h.columns, h.keys⟩

theorem Refines.compares_flip (h : Refines (flip R) (flip D) k' k) :
    Compares (flip FoundIn) R D k k' :=
  ⟨fun hd hs => h.columns hd hs.symm, fun he hs => h.keys he hs.symm⟩

/-- The key columns of corresponding properties. -/
theorem Compares.ownPart
    {S : Option (Multiset ColumnOutline) → Option (Multiset ColumnOutline) → Prop}
    (hS : IsComparison S) (hm : m.Corresponds m' R D) (hk : Compares S R D k k')
    {r r' : Option Declaration} (hd : d.property = d'.property)
    (hrenamed : d.property.isPartOfIdentity = true → d.property.kind ≠ .inlineCommon →
      D (renamedBy r d) (renamedBy r' d')) (hs : s.Alike s') (isSubclass : Bool) :
    S (KeyDerivation.ownPart m k r isSubclass d s)
      (KeyDerivation.ownPart m' k' r' isSubclass d' s') := by
  unfold KeyDerivation.ownPart
  rw [← hd]
  split_ifs with hkind hown
  · have hrel := hm.referencedEntity d.owner d'.owner d.property
    cases hf : m.referencedEntity d.owner d.property <;>
      cases hf' : m'.referencedEntity d'.owner d.property <;> rw [hf, hf'] at hrel <;> cases hrel
    · exact hS.refl _
    · rename_i hentities
      exact hk.keys hentities (hs.append _)
  · refine hk.columns (hrenamed ?_ hkind) hs
    simp only [Bool.and_eq_true] at hown
    exact hown.1
  · exact hS.refl _

private theorem foundIn_leafColumn (hd : d.property = d'.property) (hs : s.Alike s')
    (naming : ColumnNaming) (type : ScalarType) :
    FoundIn (outlinesOf (.ok [leafColumn d s naming type]))
      (outlinesOf (.ok [leafColumn d' s' naming type])) := by
  have hstrategy : leafColumn d' s' naming type = leafColumn d' s naming type := by
    simp only [leafColumn, hs.suppressesKeys_eq]
  refine .of_eq ?_
  rw [outlinesOf_ok, outlinesOf_ok, outlines_cons, outlines_cons, hstrategy, outline_leafColumn hd]

theorem Refines.columnsBy (hm : m.Corresponds m' R D) (hk : Refines R D k k')
    (hparts : ∀ {e e' s s'}, R e e' → s.Alike s' →
      FoundIn (k.partOutlines e s) (k'.partOutlines e' s'))
    (hd : D d d') (hs : s.Alike s') (rule : ColumnRule) :
    FoundIn (outlinesOf (KeyDerivation.columnsBy m k rule d s))
      (outlinesOf (KeyDerivation.columnsBy m' k' rule d' s')) := by
  have hp := hm.property hd
  have hbuilds := Strategy.buildsColumns_of_skips_eq_nil hs.left d.property
  have hbuilds' := Strategy.buildsColumns_of_skips_eq_nil hs.right d.property
  have hleaf := foundIn_leafColumn hp hs
  unfold KeyDerivation.columnsBy
  simp only [hbuilds, hbuilds', Bool.not_true, Bool.false_eq_true, if_false, ← hp,
    ← hs.columnNamer_eq]
  cases rule with
  | scalar =>
    cases d.property.kind.scalarType? with
    | none => exact .of_none _
    | some type => exact hleaf _ type
  | descriptor => exact hleaf _ .integer
  | enumeration => exact hleaf _ .integer
  | schoolYear => exact hleaf _ .short
  | composite =>
    rw [outlinesOf_compositeColumns_eq, outlinesOf_compositeColumns_eq, ← hp]
    split_ifs
    · exact .refl _
    · exact FoundIn.bind_rel (hm.referencedEntity _ _ _) fun e e' he =>
        hparts he (hs.compositeStrategy d.property)
  | reference =>
    rw [outlinesOf_referenceColumns_eq, outlinesOf_referenceColumns_eq, ← hp]
    split_ifs
    · exact .refl _
    · exact FoundIn.bind_rel (hm.referencedEntity _ _ _) fun e e' he =>
        hk.keys he ((hs.merging (hm.mergeDirectives hd)).append d.property)

/-- One step of the derivation in corresponding models. -/
theorem Refines.step (hm : m.Corresponds m' R D) (hk : Refines R D k k')
    (hc : Contents R m m' k k') : Refines R D (step m k) (step m' k') where
  columns {d d' s s'} hd hs := by
    change FoundIn (outlinesOf (KeyDerivation.columnsBy m k d.property.kind.columnRule d s))
      (outlinesOf (KeyDerivation.columnsBy m' k' d'.property.kind.columnRule d' s'))
    rw [← hm.property hd]
    exact hk.columnsBy hm hc.parts hd hs _
  keys {e e' s s'} he hs := by
    change FoundIn (outlinesOf (keysOf m k e s)) (outlinesOf (keysOf m' k' e' s'))
    rw [outlinesOf_keysOf_eq, outlinesOf_keysOf_eq, ← hm.kind he]
    refine FoundIn.map₂ ?_ (hc.own he hs)
    split_ifs with hkind
    · exact hk.inheritedKeys he hkind hs
    · exact .refl _
  inheritedKeys {e e' s s'} he hkind hs := by
    change FoundIn (outlinesOf (inheritedKeysOf m k e s)) (outlinesOf (inheritedKeysOf m' k' e' s'))
    rw [outlinesOf_inheritedKeysOf_eq, outlinesOf_inheritedKeysOf_eq]
    have hrel := hm.baseEntity he
    cases hb : m.baseEntity e with
    | error err => exact .of_none _
    | ok b =>
      cases hb' : m'.baseEntity e' with
      | error err =>
        rw [hb, hb'] at hrel
        cases hrel
      | ok b' =>
        rw [hb, hb'] at hrel
        cases hrel with
        | some hbase =>
          refine FoundIn.map₂ ?_ (hc.inherited he hkind hb hb' hs)
          rw [← hm.kind hbase]
          split_ifs with hsubclass
          · exact hk.inheritedKeys hbase hsubclass hs
          · exact .refl _

end KeyDerivation

/-! ### Plans -/

namespace TableContext

variable {ctx ctx' : TableContext} {repo : Schema} {plans plans' : EntityPlanner}
  {R : Entity → Entity → Prop} {D : Declaration → Declaration → Prop} {d d' : Declaration}
  {site : Site} {s s' : Strategy}

/-- Columns and keys of the models of two contexts are the same regardless of order, for
corresponding entities and declarations. -/
structure AgreesOn (R : Entity → Entity → Prop) (D : Declaration → Declaration → Prop)
    (ctx ctx' : TableContext) : Prop where
  stored : ctx.stored = ctx'.stored
  columns : ∀ {d d' s s'}, D d d' → s.Alike s' →
    outlinesOf (ctx.model.columns d s) = outlinesOf (ctx'.model.columns d' s')
  keys : ∀ {e e' s s'}, R e e' → s.Alike s' →
    outlinesOf (ctx.model.keys e s) = outlinesOf (ctx'.model.keys e' s')

/-- The plans of corresponding entities that `plans` finds are found by `plans'` as well. -/
def PlansRefine (R : Entity → Entity → Prop) (plans plans' : EntityPlanner) : Prop :=
  ∀ e e' site s s', R e e' → s.Alike s' → FoundIn (plans e site s) (plans' e' site s')

theorem AgreesOn.flip (h : AgreesOn R D ctx ctx') : AgreesOn (flip R) (flip D) ctx' ctx where
  stored := h.stored.symm
  columns hd hs := (h.columns hd hs.symm).symm
  keys he hs := (h.keys he hs.symm).symm

theorem scalarPlan_eq_of_agreesOn (hm : ctx.model.Corresponds ctx'.model R D)
    (hagree : AgreesOn R D ctx ctx') (hd : D d d') (hs : s.Alike s') (site : Site) :
    ctx.scalarPlan d site s = ctx'.scalarPlan d' site s' := by
  simp only [scalarPlan, collectionPlan, ← hm.property hd, hagree.columns hd hs,
    hagree.columns hd hs.forNewTable.ignoreRoleName, Site.joinKey, hs.joinNaming_eq,
    hs.leafColumns_eq]

/-- The table of a lookup property is known in both models or in none. -/
theorem rel_lookupTarget_of_corresponds (hm : ctx.model.Corresponds ctx'.model R D) (hd : D d d') :
    Option.Rel (fun _ _ => True) (ctx.lookupTarget d).toOption
      (ctx'.lookupTarget d').toOption := by
  have hreferenced := hm.referencedEntity d.owner d'.owner d.property
  have hbind {f g : Entity → LookupTarget} : Option.Rel (fun _ _ => True)
      (ctx.model.referencedEntity d.owner d.property >>= fun e => pure (f e)).toOption
      (ctx'.model.referencedEntity d'.owner d.property >>= fun e => pure (g e)).toOption := by
    cases hf : ctx.model.referencedEntity d.owner d.property <;>
      cases hf' : ctx'.model.referencedEntity d'.owner d.property <;>
        rw [hf, hf'] at hreferenced <;> cases hreferenced
    · exact .none
    · exact .some trivial
  simp only [lookupTarget, ← hm.property hd]
  cases d.property.kind with
  | schoolYearEnumeration => exact .some trivial
  | _ => exact hbind

theorem referencePlan_eq_of_agreesOn (hm : ctx.model.Corresponds ctx'.model R D)
    (hagree : AgreesOn R D ctx ctx') (hd : D d d') (hs : s.Alike s') (site : Site) :
    FoundIn (ctx.referencePlan d site s) (ctx'.referencePlan d' site s') := by
  have hbuilds := Strategy.buildsColumns_of_skips_eq_nil hs.left d.property
  have hbuilds' := Strategy.buildsColumns_of_skips_eq_nil hs.right d.property
  simp only [referencePlan, ← hm.property hd, hbuilds, hbuilds', Bool.not_true, Bool.false_eq_true,
    if_false]
  refine FoundIn.bind_rel (hm.referencedEntity _ _ _) fun e e' he => ?_
  split_ifs
  · refine .of_eq ?_
    simp only [referenceCollectionPlan, Site.joinKey, hs.joinNaming_eq,
      hagree.keys he ((hs.forNewTable.merging (hm.mergeDirectives hd)).append d.property)]
  · refine .of_eq ?_
    simp only [hagree.columns hd hs, referenceTransform, hs.suppressesKeys_eq, hs.leafColumns_eq]

theorem foundIn_commonPlan (hm : ctx.model.Corresponds ctx'.model R D)
    (hagree : AgreesOn R D ctx ctx')
    (hplans : PlansRefine R plans plans') (hd : D d d') (hs : s.Alike s') (site : Site) :
    FoundIn (ctx.commonPlan plans d site s) (ctx'.commonPlan plans' d' site s') := by
  have hcommon := hs.commonStrategy d.property
  simp only [commonPlan, ← hm.property hd, Site.joinKey, hs.joinNaming_eq, Site.insideCommon]
  refine FoundIn.bind_rel (hm.referencedEntity _ _ _) fun e e' he => ?_
  rw [hagree.keys he hcommon]
  exact (FoundIn.refl _).bind fun os => (hplans e e' _ _ _ he hcommon).map _

theorem foundIn_commonExtensionPlan (repo : Schema) (hm : ctx.model.Corresponds ctx'.model R D)
    (hagree : AgreesOn R D ctx ctx')
    (hplans : PlansRefine R plans plans') (hd : D d d') (hs : s.Alike s') (site : Site) :
    FoundIn (ctx.commonExtensionPlan repo plans d site s)
      (ctx'.commonExtensionPlan repo plans' d' site s') := by
  simp only [commonExtensionPlan, ← hm.property hd, hs.joinNaming_eq, ← hagree.stored]
  refine FoundIn.bind_rel (hm.referencedEntity _ _ _) fun e e' he => ?_
  refine (FoundIn.refl _).bind fun parent => ?_
  rw [addedPlan, addedPlan, ← hm.namespaceName he]
  exact (hplans e e' _ _ _ he hs.forNewTable).map _

/-- The plans of corresponding properties. -/
theorem foundIn_propertyPlanBy (repo : Schema) (hm : ctx.model.Corresponds ctx'.model R D)
    (hagree : AgreesOn R D ctx ctx')
    (hplans : PlansRefine R plans plans') (hd : D d d') (hs : s.Alike s') (site : Site) :
    FoundIn (ctx.propertyPlanBy repo plans d site s)
      (ctx'.propertyPlanBy repo plans' d' site s') := by
  have hinline {t t' : Strategy} (ht : t.Alike t') :
      FoundIn (ctx.inlinePlan plans d site t) (ctx'.inlinePlan plans' d' site t') := by
    rw [inlinePlan, inlinePlan, ← hm.property hd]
    exact FoundIn.bind_rel (hm.referencedEntity _ _ _) fun e e' he =>
      hplans e e' site t t' he ht
  unfold propertyPlanBy
  rw [← hm.property hd]
  cases d.property.kind.tableRule with
  | scalar => exact .of_eq (scalarPlan_eq_of_agreesOn hm hagree hd hs site)
  | lookup =>
    exact FoundIn.bind_rel (rel_lookupTarget_of_corresponds hm hd) fun _ _ _ =>
      .of_eq (scalarPlan_eq_of_agreesOn hm hagree hd hs site)
  | reference => exact referencePlan_eq_of_agreesOn hm hagree hd hs site
  | common =>
    simp only
    split_ifs
    · exact foundIn_commonExtensionPlan repo hm hagree hplans hd hs site
    · exact foundIn_commonPlan hm hagree hplans hd hs site
  | choice => exact hinline hs.leafNullable
  | inlineCommon => exact hinline (hs.inlineStrategy d.property)

end TableContext

end Tabular
