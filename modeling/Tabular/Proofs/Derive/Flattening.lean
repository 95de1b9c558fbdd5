import Mathlib.Tactic.Common
import Tabular.Proofs.Derive.Acyclic
import Tabular.Proofs.Derive.Refinement

/-!
# Nested inline commons

An inline common may contain another inline common. If the latter is single and required and has no
role, its properties may as well be written into the outer one in its place: keys collect inline
commons after the other properties and tables in between, and the nested property is a context, but
none of this shows in the result.

There is one exception. The identity rename of a subclass takes the place of properties that its
base adds itself. If the outer inline common is the base of a subclass, the identity properties of
the inner one are safe from the rename only as long as they are nested.

## Main definitions

* `Model.Nesting`: a nested inline common.
* `Model.Nesting.flattened`: the model with its properties in place.
* `Model.Nesting.SparesRenames`: no identity rename takes the place of one of its properties.

## Main results

* `Model.Nesting.rel_gather`: sums over the properties of the outer inline common.
* `Model.Nesting.agreesOn`: columns and keys of the two models.
* `Model.Nesting.entityPlan_eq`, `Model.Nesting.mainPlan_eq`: plans of the two models.
-/

namespace Tabular

/-- An inline common `inner` that is nested in the inline common `outer` of the model by a single,
required property without a role. -/
structure Model.Nesting (m : Model) where
  position : EntityId
  outer : Entity
  before : List Property
  nested : Property
  after : List Property
  inner : Entity
  entity?_position : m.entity? position = some outer
  kind_outer : outer.kind = .inlineCommon
  properties_outer : outer.properties = before ++ nested :: after
  kind_nested : nested.kind = .inlineCommon
  isCollection_nested : nested.isCollection = false
  isOptional_nested : nested.isOptional = false
  roleName_nested : nested.roleName = ""
  shortenTo_nested : nested.shortenTo = ""
  referencedEntity_nested : m.referencedEntity outer nested = .ok inner
  kind_inner : inner.kind = .inlineCommon

namespace Model.Nesting

variable {m : Model} (N : m.Nesting)

/-- The outer inline common with the properties of the inner one in place. -/
def flatOuter : Entity :=
  { N.outer with properties := N.before ++ N.inner.properties ++ N.after }

/-- The model with the properties of the inner inline common in place. -/
def flattened : Model :=
  { m with entities := m.entities.set N.position N.flatOuter }

/-- No identity rename of a subclass of the outer inline common names an identity property of the
inner one. -/
def SparesRenames : Prop :=
  ∀ e ∈ m.entities, e.kind.isSubclass = true → e.baseEntity = some N.position →
    ∀ r, e.identityRename? = some r → ∀ d ∈ N.inner.plainIdentity,
      r.property.baseKeyName ≠ d.property.fullName

/-- An entity of the model and what has become of it. -/
def Pairs (e e' : Entity) : Prop :=
  e ∈ m.entities ∧ (e' = e ∨ e = N.outer ∧ e' = N.flatOuter)

end Model.Nesting

/-- A declaration of the model and one of the same property. -/
def Model.DeclaresAs (m : Model) (d d' : Declaration) : Prop :=
  m.Declares d ∧ d.property = d'.property

namespace Model.Nesting

variable {m : Model} (N : m.Nesting)

/-! ### The two models -/

theorem outer_mem : N.outer ∈ m.entities :=
  List.mem_of_getElem? N.entity?_position

theorem inner_mem : N.inner ∈ m.entities :=
  mem_entities_of_referencedEntity N.referencedEntity_nested

theorem contextPrefix_nested : N.nested.contextPrefix = "" := by
  simp [Property.contextPrefix, N.roleName_nested, N.shortenTo_nested]

theorem entity?_flattened (id : EntityId) : N.flattened.entity? id =
    if id = N.position then some N.flatOuter else m.entity? id := by
  have hlt : N.position < m.entities.length :=
    (List.getElem?_eq_some_iff.mp N.entity?_position).1
  unfold entity? flattened
  rw [List.getElem?_set]
  split_ifs with h h' h'
  · rfl
  · exact absurd h.symm h'
  · exact absurd h'.symm h
  · rfl

theorem depthLimit_flattened : N.flattened.depthLimit = m.depthLimit := by
  simp [depthLimit, flattened]

theorem pairs_self {e : Entity} (he : e ∈ m.entities) : N.Pairs e e :=
  ⟨he, Or.inl rfl⟩

theorem pairs_outer : N.Pairs N.outer N.flatOuter :=
  ⟨N.outer_mem, Or.inr ⟨rfl, rfl⟩⟩

theorem corresponds (hm : m.IsMergeFree) : m.Corresponds N.flattened N.Pairs m.DeclaresAs where
  entity? id := by
    rw [N.entity?_flattened]
    split_ifs with h
    · rw [h, N.entity?_position]
      exact .some N.pairs_outer
    · cases he : m.entity? id with
      | none => exact .none
      | some e => exact .some (N.pairs_self (List.mem_of_getElem? he))
  kind := by
    rintro e e' ⟨-, rfl | ⟨rfl, rfl⟩⟩ <;> rfl
  namespaceName := by
    rintro e e' ⟨-, rfl | ⟨rfl, rfl⟩⟩ <;> rfl
  base := by
    rintro e e' ⟨-, rfl | ⟨rfl, rfl⟩⟩ <;> rfl
  property hd := hd.2
  mergeDirectives hd := hm.mergeDirectives hd.1

/-! ### Sums over the outer inline common -/

section Sums

variable {M : Type} [AddCommMonoid M] {S : Option M → Option M → Prop}
  {f f' g : Declaration → Option M}

private theorem rel_gather_of_map (hS : IsComparison S) {ds ds' : List Declaration}
    (h : ds.map Declaration.property = ds'.map Declaration.property)
    (hf : ∀ d ∈ ds, ∀ d', d.property = d'.property → S (f d) (f' d')) :
    S (gather f ds) (gather f' ds') := by
  induction ds generalizing ds' with
  | nil =>
    obtain rfl : ds' = [] := by simpa using h.symm
    exact hS.refl _
  | cons d rest ih =>
    obtain ⟨d', rest', rfl, hd, hrest⟩ := List.map_eq_cons_iff.mp h.symm
    rw [List.forall_mem_cons] at hf
    exact hS.add (hf.1 d' hd.symm) (ih hrest.symm hf.2)

/-- A sum over the properties of the outer inline common, in which the nested property stands for a
sum over the inner one, compared with the sum over the properties in place. -/
theorem rel_gather (hS : IsComparison S)
    (hf : ∀ d ∈ N.outer.declarations, ∀ d', d.property = d'.property → S (f d) (f' d'))
    (hg : ∀ d ∈ N.inner.declarations, ∀ d', d.property = d'.property → S (g d) (f' d'))
    (hnested : ∀ d ∈ N.outer.declarations, d.property = N.nested →
      S (f d) (gather g N.inner.declarations)) :
    S (gather f N.outer.declarations) (gather f' N.flatOuter.declarations) := by
  have houter := N.outer.map_property_declarations
  have hinner := N.inner.map_property_declarations
  have hflat := N.flatOuter.map_property_declarations
  rw [N.properties_outer] at houter
  obtain ⟨ds, rest, hdeclared, hds, hrest⟩ := List.map_eq_append_iff.mp houter
  obtain ⟨q, es, rfl, hq, hes⟩ := List.map_eq_cons_iff.mp hrest
  obtain ⟨front, es', hdeclared', hfront, hes'⟩ := List.map_eq_append_iff.mp hflat
  obtain ⟨ds', is, rfl, hds', his⟩ := List.map_eq_append_iff.mp hfront
  rw [hdeclared] at hf hnested
  rw [hdeclared, hdeclared', gather_append, gather_append, gather_append, gather_cons,
    Option.map₂_assoc add_assoc]
  refine hS.add ?_ (hS.add ?_ ?_)
  · exact rel_gather_of_map hS (hds.trans hds'.symm) fun d hd => hf d (by simp [hd])
  · refine hS.trans (hnested q (by simp) hq) ?_
    exact rel_gather_of_map hS (hinner.trans his.symm) hg
  · exact rel_gather_of_map hS (hes.trans hes'.symm) fun d hd => hf d (by simp [hd])

end Sums

/-! ### Contents of entities -/

section Contents

variable {k k' : KeyDerivation} {e : Entity} {s s' : Strategy} {r : Option Declaration}
  {S : Option (Multiset ColumnOutline) → Option (Multiset ColumnOutline) → Prop}

open KeyDerivation

/-- The nested property contributes what the properties of the inner inline common do. -/
theorem outlinesOf_step_nested (k : KeyDerivation) {d : Declaration}
    (hd : d ∈ N.outer.declarations) (hnested : d.property = N.nested) (hs : s.skips = []) :
    outlinesOf ((step m k).columns d s) = k.partOutlines N.inner (s.append N.nested) := by
  have hbuilds := Strategy.buildsColumns_of_skips_eq_nil hs N.nested
  have hrule : N.nested.kind.columnRule = .composite := by rw [N.kind_nested]; rfl
  have hstrategy : compositeStrategy N.nested s = s.append N.nested := by
    simp [compositeStrategy, N.kind_nested, N.isOptional_nested]
  have howner := Entity.owner_of_mem_declarations hd
  change outlinesOf (KeyDerivation.columnsBy m k d.property.kind.columnRule d s) = _
  rw [hnested, hrule]
  simp only [KeyDerivation.columnsBy, hnested, hbuilds, Bool.not_true, Bool.false_eq_true, if_false]
  rw [outlinesOf_compositeColumns_eq, hnested, howner, N.isCollection_nested,
    N.referencedEntity_nested, hstrategy]
  rfl

/-- The key of the inner inline common is what its properties contribute. -/
theorem outlinesOf_step_inner (k : KeyDerivation) (s : Strategy) :
    outlinesOf ((step m k).keys N.inner s) = ownOutlines m k none N.inner s := by
  change outlinesOf (keysOf m k N.inner s) = _
  have hkind : N.inner.kind.isSubclass = false := by rw [N.kind_inner]; rfl
  rw [outlinesOf_keysOf_eq, hkind]
  cases ownOutlines m k none N.inner s <;> simp

theorem ownPart_nested (k : KeyDerivation) (r : Option Declaration) (isSubclass : Bool)
    {d : Declaration} (hd : d ∈ N.outer.declarations) (hnested : d.property = N.nested)
    (s : Strategy) :
    ownPart m k r isSubclass d s = outlinesOf (k.keys N.inner (s.append N.nested)) := by
  rw [ownPart, hnested, if_pos N.kind_nested, Entity.owner_of_mem_declarations hd,
    N.referencedEntity_nested]
  rfl

variable (hS : IsComparison S) (hk : Compares S N.Pairs m.DeclaresAs k k')

include hS hk in
theorem partOutlines_self (he : e ∈ m.entities) (hs : s.Alike s') :
    S (k.partOutlines e s) (k'.partOutlines e s') := by
  refine hS.gather fun d hd => ?_
  split_ifs
  · exact hS.refl _
  · exact hk.columns ⟨declares_of_mem he hd, rfl⟩ hs

include hS hk in
theorem partOutlines_outer (hs : s.Alike s')
    (hnested : ∀ d ∈ N.outer.declarations, d.property = N.nested →
      S (outlinesOf (k.columns d s)) (k.partOutlines N.inner (s.append N.nested))) :
    S (k.partOutlines N.outer s) (k'.partOutlines N.flatOuter s') := by
  have hinside := hs.append_left N.contextPrefix_nested
  refine N.rel_gather (g := fun d => if d.property.isCollection then some 0
    else outlinesOf (k.columns d (s.append N.nested))) hS ?_ ?_ ?_
  · intro d hd d' hp
    rw [← hp]
    split_ifs
    · exact hS.refl _
    · exact hk.columns ⟨declares_of_mem N.outer_mem hd, hp⟩ hs
  · intro d hd d' hp
    rw [← hp]
    split_ifs
    · exact hS.refl _
    · exact hk.columns ⟨declares_of_mem N.inner_mem hd, hp⟩ hinside
  · intro d hd hp
    rw [hp, N.isCollection_nested]
    exact hnested d hd hp

/-- The property that stands for one of the base depends only on the latter. -/
theorem declaresAs_renamedBy {d d' : Declaration} (hr : ∀ x, r = some x → m.Declares x)
    (hd : m.DeclaresAs d d') : m.DeclaresAs (renamedBy r d) (renamedBy r d') := by
  cases r with
  | none => exact hd
  | some x =>
    simp only [renamedBy, ← hd.2]
    split_ifs
    · exact ⟨hr x rfl, rfl⟩
    · exact hd

include hS hk in
theorem ownOutlines_self (hm : m.IsMergeFree) (he : e ∈ m.entities)
    (hr : ∀ x, r = some x → m.Declares x) (hs : s.Alike s') :
    S (ownOutlines m k r e s) (ownOutlines N.flattened k' r e s') := by
  refine hS.gather fun d hd => hk.ownPart hS (N.corresponds hm) rfl (fun _ _ => ?_) hs _
  exact declaresAs_renamedBy hr ⟨declares_of_mem he hd, rfl⟩

include hS hk in
theorem ownOutlines_outer (hm : m.IsMergeFree) (hr : ∀ x, r = some x → m.Declares x)
    (hspares : ∀ x, r = some x → ∀ d ∈ N.inner.plainIdentity,
      x.property.baseKeyName ≠ d.property.fullName) (hs : s.Alike s')
    (hnested : S (outlinesOf (k.keys N.inner (s.append N.nested)))
      (ownOutlines m k none N.inner (s.append N.nested))) :
    S (ownOutlines m k r N.outer s) (ownOutlines N.flattened k' r N.flatOuter s') := by
  have hinside := hs.append_left N.contextPrefix_nested
  have hkind : N.inner.kind.isSubclass = N.outer.kind.isSubclass := by
    rw [N.kind_inner, N.kind_outer]
  refine N.rel_gather (g := fun d => KeyDerivation.ownPart m k none N.inner.kind.isSubclass d
    (s.append N.nested)) hS ?_ ?_ ?_
  · intro d hd d' hp
    refine hk.ownPart hS (N.corresponds hm) hp (fun _ _ => ?_) hs _
    exact declaresAs_renamedBy hr ⟨declares_of_mem N.outer_mem hd, hp⟩
  · intro d hd d' hp
    rw [hkind]
    refine hk.ownPart hS (N.corresponds hm) hp (fun hidentity hinline => ?_) hinside _
    -- the rename, if any, names no identity property of the inner inline common
    have hplain := Entity.mem_plainIdentity_iff.mpr ⟨hd, hidentity, hinline⟩
    have hsame : renamedBy r d' = d' := by
      cases hrename : r with
      | none => rfl
      | some x =>
        rw [renamedBy, if_neg]
        rw [← hp]
        exact hspares x hrename d hplain
    rw [hsame]
    exact ⟨declares_of_mem N.inner_mem hd, hp⟩
  · intro d hd hp
    rw [N.ownPart_nested k r _ hd hp]
    exact hnested

end Contents

/-! ### Columns and keys -/

open KeyDerivation

theorem declares_of_identityRename? {e : Entity} (he : e ∈ m.entities) :
    ∀ x, e.identityRename? = some x → m.Declares x := by
  intro x hx
  have hplain : x ∈ e.plainIdentity := List.mem_of_find?_eq_some hx
  exact declares_of_mem he (Entity.mem_plainIdentity_iff.mp hplain).1

/-- A subclass is not changed, and neither is its base unless that is the outer inline common. -/
theorem eq_of_pairs_of_isSubclass {e e' b b' : Entity} (he : N.Pairs e e')
    (hkind : e.kind.isSubclass = true) (hb : m.baseEntity e = .ok b)
    (hb' : N.flattened.baseEntity e' = .ok b') :
    e' = e ∧ (b' = b ∨ b = N.outer ∧ b' = N.flatOuter ∧ e.baseEntity = some N.position) := by
  have hsame : e' = e := by
    rcases he.2 with hsame | ⟨rfl, -⟩
    · exact hsame
    · simp [N.kind_outer, EntityKind.isSubclass] at hkind
  subst hsame
  obtain ⟨id, hid, hentity⟩ := Option.bind_eq_some_iff.mp (baseEntity_eq_ok_iff.mp hb)
  rw [baseEntity_eq_ok_iff, hid, Option.bind_some, N.entity?_flattened] at hb'
  refine ⟨rfl, ?_⟩
  split_ifs at hb' with hposition
  · subst hposition
    rw [N.entity?_position] at hentity
    exact Or.inr ⟨(Option.some.inj hentity).symm, (Option.some.inj hb').symm, hid⟩
  · exact Or.inl (Option.some.inj (hb'.symm.trans hentity))

/-- What the model gives for contents is given by the flattened model as well. -/
theorem contents_flattened {k k' : KeyDerivation} (hm : m.IsMergeFree) (hspares : N.SparesRenames)
    (hk : Refines N.Pairs m.DeclaresAs k k') (hstep : k.IsBelow (step m k)) :
    Contents N.Pairs m N.flattened k k' where
  parts := by
    rintro e e' s s' ⟨he, rfl | ⟨rfl, rfl⟩⟩ hs
    · exact N.partOutlines_self FoundIn.isComparison hk.compares he hs
    · refine N.partOutlines_outer FoundIn.isComparison hk.compares hs fun d hd hnested => ?_
      rw [← N.outlinesOf_step_nested k hd hnested hs.left]
      exact hstep.foundIn (.columns d) s
  own := by
    rintro e e' s s' ⟨he, rfl | ⟨rfl, rfl⟩⟩ hs
    · exact N.ownOutlines_self FoundIn.isComparison hk.compares hm he (by simp) hs
    · refine N.ownOutlines_outer FoundIn.isComparison hk.compares hm (by simp) (by simp) hs ?_
      rw [← N.outlinesOf_step_inner]
      exact hstep.foundIn (.keys N.inner) _
  inherited := by
    intro e e' b b' s s' he hkind hb hb' hs
    obtain ⟨rfl, rfl | ⟨rfl, rfl, hposition⟩⟩ := N.eq_of_pairs_of_isSubclass he hkind hb hb'
    · exact N.ownOutlines_self FoundIn.isComparison hk.compares hm (mem_entities_of_baseEntity hb)
        (declares_of_identityRename? he.1) hs
    · refine N.ownOutlines_outer FoundIn.isComparison hk.compares hm
        (declares_of_identityRename? he.1) (hspares _ he.1 hkind hposition) hs ?_
      rw [← N.outlinesOf_step_inner]
      exact hstep.foundIn (.keys N.inner) _

/-- What the flattened model gives for contents is given by a derivation of the model that further
steps do not change. -/
theorem contents_of_flattened {k k' : KeyDerivation} (hm : m.IsMergeFree)
    (hspares : N.SparesRenames) (hk : Refines (flip N.Pairs) (flip m.DeclaresAs) k' k)
    (hstep : ∀ q s, q.IsOf m → q.IsMet → (step m k).ask s q = k.ask s q) :
    Contents (flip N.Pairs) N.flattened m k' k where
  parts := by
    rintro e' e s' s ⟨he, rfl | ⟨rfl, rfl⟩⟩ hs
    · exact N.partOutlines_self (S := flip FoundIn) FoundIn.isComparison_flip hk.compares_flip he
        hs.symm
    · refine N.partOutlines_outer FoundIn.isComparison_flip hk.compares_flip hs.symm
        fun d hd hnested => ?_
      rw [← N.outlinesOf_step_nested k hd hnested hs.right]
      exact .of_eq (congrArg outlinesOf
        (hstep (.columns d) s (declares_of_mem N.outer_mem hd) trivial))
  own := by
    rintro e' e s' s ⟨he, rfl | ⟨rfl, rfl⟩⟩ hs
    · exact N.ownOutlines_self FoundIn.isComparison_flip hk.compares_flip hm he (by simp) hs.symm
    · refine N.ownOutlines_outer FoundIn.isComparison_flip hk.compares_flip hm (by simp) (by simp)
        hs.symm ?_
      rw [← N.outlinesOf_step_inner]
      exact .of_eq (congrArg outlinesOf (hstep (.keys N.inner) _ N.inner_mem trivial))
  inherited := by
    intro e' e b' b s' s he hkind hb' hb hs
    rw [show e'.kind = e.kind from ((N.corresponds hm).kind he).symm] at hkind
    obtain ⟨rfl, rfl | ⟨rfl, rfl, hposition⟩⟩ := N.eq_of_pairs_of_isSubclass he hkind hb hb'
    · exact N.ownOutlines_self FoundIn.isComparison_flip hk.compares_flip hm
        (mem_entities_of_baseEntity hb) (declares_of_identityRename? he.1) hs.symm
    · refine N.ownOutlines_outer FoundIn.isComparison_flip hk.compares_flip hm
        (declares_of_identityRename? he.1) (hspares _ he.1 hkind hposition) hs.symm ?_
      rw [← N.outlinesOf_step_inner]
      exact .of_eq (congrArg outlinesOf (hstep (.keys N.inner) _ N.inner_mem trivial))

/-- What the derivation of the model finds is found in the flattened model within as many steps. -/
theorem refines_within (hm : m.IsMergeFree) (hspares : N.SparesRenames) (n : Nat) :
    Refines N.Pairs m.DeclaresAs (within m n) (within N.flattened n) := by
  induction n with
  | zero => exact ⟨fun _ _ => .of_none _, fun _ _ => .of_none _, fun _ _ _ => .of_none _⟩
  | succ n ih =>
    exact ih.step (N.corresponds hm)
      (N.contents_flattened hm hspares ih (within_mono m (Nat.le_succ n)))

/-- What the derivation of the flattened model finds is found in the model. -/
theorem refines_derivation (hacyclic : m.IsAcyclic) (hm : m.IsMergeFree)
    (hspares : N.SparesRenames) (n : Nat) :
    Refines (flip N.Pairs) (flip m.DeclaresAs) (within N.flattened n) m.derivation := by
  have hfixed (q : Query) (s : Strategy) (hq : q.IsOf m) (hmet : q.IsMet) :
      (step m m.derivation).ask s q = m.derivation.ask s q :=
    hacyclic.ask_within hq hmet (Nat.le_succ m.depthLimit) s
  induction n with
  | zero => exact ⟨fun _ _ => .of_none _, fun _ _ => .of_none _, fun _ _ _ => .of_none _⟩
  | succ n ih =>
    have hnext := ih.step (N.corresponds hm).flip (N.contents_of_flattened hm hspares ih hfixed)
    refine ⟨fun {d' d s' s} hd hs => ?_, fun {e' e s' s} he hs => ?_,
      fun {e' e s' s} he hkind hs => ?_⟩
    · rw [← show (step m m.derivation).columns d s = m.derivation.columns d s from
        hfixed (.columns d) s hd.1 trivial]
      exact hnext.columns hd hs
    · rw [← show (step m m.derivation).keys e s = m.derivation.keys e s from
        hfixed (.keys e) s he.1 trivial]
      exact hnext.keys he hs
    · have hsubclass : e.kind.isSubclass = true := by rw [(N.corresponds hm).kind he, hkind]
      rw [← show (step m m.derivation).inheritedKeys e s = m.derivation.inheritedKeys e s from
        hfixed (.inherited e) s he.1 hsubclass]
      exact hnext.inheritedKeys he hkind hs

end Model.Nesting

/-! ### Plans -/

namespace Model.Nesting

variable {ctx : TableContext} (N : ctx.model.Nesting) (repo : Schema)

open TableContext

/-- Columns and keys of the two models are the same regardless of order. -/
theorem agreesOn (hacyclic : ctx.model.IsAcyclic) (hm : ctx.model.IsMergeFree)
    (hspares : N.SparesRenames) :
    AgreesOn N.Pairs ctx.model.DeclaresAs ctx (ctx.withModel N.flattened) := by
  have hthere := N.refines_within hm hspares ctx.model.depthLimit
  have hback := N.refines_derivation hacyclic hm hspares ctx.model.depthLimit
  have hderivation : N.flattened.derivation = .within N.flattened ctx.model.depthLimit := by
    rw [derivation, N.depthLimit_flattened]
  rw [← hderivation] at hthere hback
  exact ⟨rfl, fun hd hs => (hthere.columns hd hs).antisymm (hback.columns hd hs.symm),
    fun he hs => (hthere.keys he hs).antisymm (hback.keys he hs.symm)⟩

variable (hacyclic : ctx.model.IsAcyclic) (hm : ctx.model.IsMergeFree) (hspares : N.SparesRenames)

/-- The nested property is planned as the properties of the inner inline common. -/
theorem propertyPlanBy_nested (plans : EntityPlanner) {d : Declaration}
    (hd : d ∈ N.outer.declarations) (hnested : d.property = N.nested) (site : Site) (s : Strategy) :
    ctx.propertyPlanBy repo plans d site s = plans N.inner site (s.append N.nested) := by
  have hrule : N.nested.kind.tableRule = .inlineCommon := by rw [N.kind_nested]; rfl
  have hstrategy : inlineStrategy N.nested s = s.append N.nested := by
    simp [inlineStrategy, N.isOptional_nested]
  simp only [propertyPlanBy, hnested, hrule, inlinePlan, hstrategy,
    Entity.owner_of_mem_declarations hd, N.referencedEntity_nested]
  rfl

include hacyclic hm hspares in
/-- What is planned in the model is planned in the flattened model within as many steps. -/
theorem plansRefine_within (n k : Nat) (h : n ≤ k) :
    PlansRefine N.Pairs (ctx.entityPlanWithin repo n)
      ((ctx.withModel N.flattened).entityPlanWithin repo k) := by
  induction n using Nat.strong_induction_on generalizing k with
  | _ n ih =>
    cases n with
    | zero => exact fun _ _ _ _ _ _ _ => .of_none _
    | succ n =>
      obtain ⟨k, rfl⟩ : ∃ k', k = k' + 1 := ⟨k - 1, by omega⟩
      have hproperty (j : Nat) (hj : j ≤ n) {d d' : Declaration} {s s' : Strategy} (site : Site)
          (hd : ctx.model.DeclaresAs d d') (hs : s.Alike s') :
          FoundIn (ctx.propertyPlanBy repo (ctx.entityPlanWithin repo j) d site s)
            ((ctx.withModel N.flattened).propertyPlanBy repo
              ((ctx.withModel N.flattened).entityPlanWithin repo k) d' site s') :=
        foundIn_propertyPlanBy repo (N.corresponds hm) (N.agreesOn hacyclic hm hspares)
          (ih j (by omega) k (by omega)) hd hs site
      rintro e e' site s s' ⟨he, rfl | ⟨rfl, rfl⟩⟩ hs
      · exact FoundIn.isComparison.gather fun d hd =>
          hproperty n (le_refl n) site ⟨declares_of_mem he hd, rfl⟩ hs
      · -- the properties of the inner inline common are met one step earlier
        refine N.rel_gather (g := fun d => ctx.propertyPlanBy repo
          (ctx.entityPlanWithin repo (n - 1)) d site (s.append N.nested)) FoundIn.isComparison
          ?_ ?_ ?_
        · exact fun d hd d' hp =>
            hproperty n (le_refl n) site ⟨declares_of_mem N.outer_mem hd, hp⟩ hs
        · exact fun d hd d' hp => hproperty (n - 1) (by omega) site
            ⟨declares_of_mem N.inner_mem hd, hp⟩ (hs.append_left N.contextPrefix_nested)
        · intro d hd hp
          rw [N.propertyPlanBy_nested repo _ hd hp]
          cases n with
          | zero => exact .of_none _
          | succ n => exact .refl _

include hacyclic hm hspares in
/-- What is planned in the flattened model is planned in the model. -/
theorem plansRefine_flattened (n : Nat) :
    PlansRefine (flip N.Pairs) ((ctx.withModel N.flattened).entityPlanWithin repo n)
      (ctx.entityPlan repo) := by
  have hfixed {e : Entity} (he : e ∈ ctx.model.entities) (site : Site) (s : Strategy) :
      gather (fun d => ctx.propertyPlanBy repo (ctx.entityPlan repo) d site s) e.declarations =
        ctx.entityPlan repo e site s :=
    entityPlanWithin_eq hacyclic he (Nat.le_succ _) site s
  induction n with
  | zero => exact fun _ _ _ _ _ _ _ => .of_none _
  | succ n ih =>
    have hproperty {d d' : Declaration} {s s' : Strategy} (site : Site)
        (hd : ctx.model.DeclaresAs d d') (hs : s'.Alike s) :
        FoundIn ((ctx.withModel N.flattened).propertyPlanBy repo
            ((ctx.withModel N.flattened).entityPlanWithin repo n) d' site s')
          (ctx.propertyPlanBy repo (ctx.entityPlan repo) d site s) :=
      foundIn_propertyPlanBy repo (N.corresponds hm).flip (N.agreesOn hacyclic hm hspares).flip ih
        hd hs site
    rintro e' e site s' s ⟨he, rfl | ⟨rfl, rfl⟩⟩ hs
    · rw [← hfixed he]
      exact FoundIn.isComparison.gather fun d hd =>
        hproperty site ⟨declares_of_mem he hd, rfl⟩ hs
    · rw [← hfixed he]
      refine N.rel_gather (g := fun d => ctx.propertyPlanBy repo (ctx.entityPlan repo) d site
        (s.append N.nested)) FoundIn.isComparison_flip ?_ ?_ ?_
      · exact fun d hd d' hp => hproperty site ⟨declares_of_mem N.outer_mem hd, hp⟩ hs
      · exact fun d hd d' hp => hproperty site ⟨declares_of_mem N.inner_mem hd, hp⟩
          (hs.symm.append_left N.contextPrefix_nested).symm
      · intro d hd hp
        rw [N.propertyPlanBy_nested repo _ hd hp, ← hfixed N.inner_mem]
        exact .refl _

include hacyclic hm hspares in
/-- The plans of an entity of the two models are the same. -/
theorem entityPlan_eq {e e' : Entity} {s s' : Strategy} (he : N.Pairs e e') (hs : s.Alike s')
    (site : Site) :
    ctx.entityPlan repo e site s = (ctx.withModel N.flattened).entityPlan repo e' site s' := by
  have hdepth : (ctx.withModel N.flattened).model.depthLimit = ctx.model.depthLimit :=
    N.depthLimit_flattened
  rw [TableContext.entityPlan, TableContext.entityPlan, hdepth]
  exact FoundIn.antisymm
    (N.plansRefine_within repo hacyclic hm hspares _ _ (le_refl _) e e' site s s' he hs)
    (N.plansRefine_flattened repo hacyclic hm hspares _ e' e site s' s he hs.symm)

include hacyclic hm hspares in
/-- The tables of a domain entity or association are the same in the two models, regardless of
order. -/
theorem mainPlan_eq {e : Entity} (he : e ∈ ctx.model.entities) (hkind : e.kind.isSubclass = false) :
    ctx.mainPlan repo e = (ctx.withModel N.flattened).mainPlan repo e := by
  have hroot : Strategy.root.Alike .root := .refl rfl
  have hpairs := N.pairs_self he
  have hkeys : outlinesOf (ctx.model.keys e .root) =
      outlinesOf ((ctx.withModel N.flattened).model.keys e .root) :=
    (N.agreesOn hacyclic hm hspares).keys hpairs hroot
  have hplan := N.entityPlan_eq repo hacyclic hm hspares hpairs hroot
  simp only [mainPlan, hkind, Bool.false_eq_true, if_false, hkeys, hplan]

end Model.Nesting

end Tabular
