import Mathlib.Data.Finset.Card
import Mathlib.Data.Finset.Dedup
import Mathlib.Logic.Relation
import Mathlib.Tactic.Common
import Tabular.Proofs.Derive.Locality
import Tabular.Proofs.Derive.Plans

/-!
# Models without cycles

The derivation of columns, keys and tables follows some of the links between entities: the base of a
subclass, composites, references that are part of the identity, and all references of an entity that
a composite leads to. References of other entities outside the identity are followed at most once,
at the very start. If the links that are followed have no cycle, every derivation comes to an end,
and the bounds on the number of steps are never felt.

## Main definitions

* `Model.Needs`: a link that derivations follow.
* `Model.IsAcyclic`, `Model.rank`: models without cycles, and the number of entities that a
  derivation may meet.
* `Query.FitsIn`, `Query.IsMet`: a number of steps that suffices for a query, and the queries that
  are met on the way.

## Main results

* `Model.Step.fitsIn`: a step of the derivation leaves one step less to go.
* `Model.IsAcyclic.ask_within`: steps beyond the bound change no column and no key.
* `TableContext.entityPlanWithin_eq`: nor do they change a plan.
-/

namespace Tabular

namespace Model

/-! ### Links that derivations follow -/

/-- A composite of the model leads to the entity. -/
def IsPart (m : Model) (e : Entity) : Prop :=
  ∃ o ∈ m.entities, ∃ p ∈ o.properties, p.kind.columnRule = .composite ∧
    m.referencedEntity o p = .ok e

/-- The links that derivations follow. -/
inductive Needs (m : Model) : Entity → Entity → Prop
  | base {e b : Entity} (hkind : e.kind.isSubclass = true) (hb : m.baseEntity e = .ok b) :
      m.Needs e b
  | composite {e f : Entity} {p : Property} (hp : p ∈ e.properties)
      (hrule : p.kind.columnRule = .composite) (hf : m.referencedEntity e p = .ok f) : m.Needs e f
  | reference {e f : Entity} {p : Property} (hp : p ∈ e.properties)
      (hrule : p.kind.columnRule = .reference) (hf : m.referencedEntity e p = .ok f)
      (hfollowed : p.isPartOfIdentity = true ∨ m.IsPart e) : m.Needs e f

/-- No entity leads back to itself along the links that derivations follow. -/
def IsAcyclic (m : Model) : Prop :=
  ∀ e, ¬Relation.TransGen m.Needs e e

variable {m : Model} {e f : Entity} {d : Declaration}

theorem Needs.mem_entities (h : m.Needs e f) : f ∈ m.entities := by
  cases h with
  | base _ hb => exact mem_entities_of_baseEntity hb
  | composite _ _ hf => exact mem_entities_of_referencedEntity hf
  | reference _ _ hf => exact mem_entities_of_referencedEntity hf

/-- Derivations follow the link of the property of the entity. -/
def Follows (m : Model) (e : Entity) (p : Property) : Prop :=
  p.kind.columnRule = .composite ∨ p.kind.columnRule = .reference ∧
    (p.isPartOfIdentity = true ∨ ∃ o ∈ m.entities, ∃ q ∈ o.properties,
      q.kind.columnRule = .composite ∧ q.referencedEntity = some e.id)

instance (m : Model) (e : Entity) (p : Property) : Decidable (m.Follows e p) :=
  inferInstanceAs (Decidable (_ ∨ _ ∧ (_ ∨ ∃ o ∈ m.entities, ∃ q ∈ o.properties, _ ∧ _)))

/-- If all links that are followed lead to entities at earlier positions, there is no cycle. -/
theorem isAcyclic_of_follows_lt (hindexed : m.IsIndexed)
    (hbase : ∀ e ∈ m.entities, ∀ i, e.baseEntity = some i → i < e.id)
    (hreference : ∀ e ∈ m.entities, ∀ p ∈ e.properties, m.Follows e p →
      ∀ i, p.referencedEntity = some i → i < e.id) : m.IsAcyclic := by
  have hlink {o f : Entity} {p : Property} (hf : m.referencedEntity o p = .ok f) :
      p.referencedEntity = some f.id := by
    obtain ⟨i, hi, hentity⟩ := exists_of_referencedEntity hf
    rw [hindexed.id_of_entity? hentity, hi]
  have hneeds {e f : Entity} (he : e ∈ m.entities) (h : m.Needs e f) : f.id < e.id := by
    cases h with
    | base _ hb =>
      obtain ⟨i, hi, hentity⟩ := Option.bind_eq_some_iff.mp (baseEntity_eq_ok_iff.mp hb)
      rw [hindexed.id_of_entity? hentity]
      exact hbase e he i hi
    | composite hp hrule hf => exact hreference e he _ hp (Or.inl hrule) _ (hlink hf)
    | reference hp hrule hf hfollowed =>
      refine hreference e he _ hp (Or.inr ⟨hrule, hfollowed.imp_right ?_⟩) _ (hlink hf)
      rintro ⟨o, ho, q, hq, hcomposite, he⟩
      exact ⟨o, ho, q, hq, hcomposite, hlink he⟩
  have hpath {e f : Entity} (h : Relation.TransGen m.Needs e f) (he : e ∈ m.entities) :
      f ∈ m.entities ∧ f.id < e.id := by
    induction h with
    | single h => exact ⟨h.mem_entities, hneeds he h⟩
    | tail _ h ih => exact ⟨h.mem_entities, (hneeds ih.1 h).trans ih.2⟩
  intro e h
  have he : e ∈ m.entities := by
    cases h with
    | single h => exact h.mem_entities
    | tail _ h => exact h.mem_entities
  exact Nat.lt_irrefl _ (hpath h he).2

/-- If all links lead to entities at earlier positions, there is no cycle. -/
theorem isAcyclic_of_lt (hindexed : m.IsIndexed)
    (hbase : ∀ e ∈ m.entities, ∀ i, e.baseEntity = some i → i < e.id)
    (hreference : ∀ e ∈ m.entities, ∀ p ∈ e.properties, ∀ i, p.referencedEntity = some i →
      i < e.id) : m.IsAcyclic :=
  isAcyclic_of_follows_lt hindexed hbase fun e he p hp _ => hreference e he p hp

open Classical in
/-- The number of entities that a derivation may meet after the entity. -/
noncomputable def rank (m : Model) (e : Entity) : Nat :=
  (m.entities.toFinset.filter fun f => Relation.TransGen m.Needs e f).card

theorem rank_le (m : Model) (e : Entity) : m.rank e ≤ m.entities.length := by
  classical exact (Finset.card_filter_le _ _).trans (List.toFinset_card_le _)

theorem IsAcyclic.rank_lt (hm : m.IsAcyclic) (h : m.Needs e f) : m.rank f < m.rank e := by
  classical
  refine Finset.card_lt_card (Finset.ssubset_iff_subset_ne.mpr ⟨?_, ?_⟩)
  · intro g hg
    rw [Finset.mem_filter] at hg ⊢
    exact ⟨hg.1, .head h hg.2⟩
  · -- the entity that is needed is met after the first one, but not after itself
    intro hsame
    have hmem : f ∈ m.entities.toFinset.filter fun g => Relation.TransGen m.Needs e g :=
      Finset.mem_filter.mpr ⟨List.mem_toFinset.mpr h.mem_entities, .single h⟩
    rw [← hsame] at hmem
    exact hm f (Finset.mem_filter.mp hmem).2

/-! ### Columns and keys -/

/-- The property is met inside a derivation, and not only at its start. -/
def IsFollowed (m : Model) (d : Declaration) : Prop :=
  d.property.kind.columnRule = .reference → d.property.isPartOfIdentity = true ∨ m.IsPart d.owner

end Model

/-- The number of steps suffices for the query. -/
def Query.FitsIn (m : Model) (n : Nat) : Query → Prop
  | .columns d => m.IsFollowed d ∧ 3 * m.rank d.owner + 1 ≤ n ∨ 3 * m.entities.length + 4 ≤ n
  | .keys e => 3 * m.rank e + 3 ≤ n
  | .inherited e => e.kind.isSubclass = true ∧ 3 * m.rank e + 2 ≤ n

/-- What the derivation may be asked on the way: the key that an entity takes over is asked of
subclasses only. -/
def Query.IsMet : Query → Prop
  | .columns _ => True
  | .keys _ => True
  | .inherited e => e.kind.isSubclass = true

namespace Query

variable {m : Model} {q : Query} {n k : Nat}

theorem not_fitsIn_zero (q : Query) : ¬q.FitsIn m 0 := by
  cases q <;> simp [FitsIn]

theorem FitsIn.mono (hfits : q.FitsIn m n) (h : n ≤ k) : q.FitsIn m k := by
  cases q with
  | columns d =>
    exact hfits.imp (And.imp_right fun hfits => hfits.trans h) fun hfits => hfits.trans h
  | keys e => exact hfits.trans h
  | inherited e => exact ⟨hfits.1, hfits.2.trans h⟩

theorem IsMet.fitsIn_depthLimit (hmet : q.IsMet) : q.FitsIn m m.depthLimit := by
  unfold Model.depthLimit
  cases q with
  | columns d => exact Or.inr (by omega)
  | keys e =>
    have hle := m.rank_le e
    simp only [FitsIn]
    omega
  | inherited e =>
    have hle := m.rank_le e
    exact ⟨hmet, by omega⟩

end Query

namespace Model

variable {m : Model} {q q' : Query} {hops : List Hop} {n : Nat}

theorem columnRule_of_mem_inlineCommons {e : Entity} {d : Declaration} (hd : d ∈ e.inlineCommons) :
    d.property.kind.columnRule = .composite := by
  rw [(Entity.mem_inlineCommons_iff.mp hd).2]
  rfl

theorem needs_of_mem_inlineCommons {e f : Entity} {d : Declaration} (hd : d ∈ e.inlineCommons)
    (hf : m.referencedEntity e d.property = .ok f) : m.Needs e f :=
  .composite (Entity.property_mem_of_mem_declarations (Entity.mem_inlineCommons_iff.mp hd).1)
    (columnRule_of_mem_inlineCommons hd) hf

/-- A step of the derivation leaves one step less to go. -/
theorem Step.fitsIn (hm : m.IsAcyclic) (hq : q.IsOf m) (h : m.Step q hops q')
    (hfits : q.FitsIn m (n + 1)) : q'.FitsIn m n := by
  cases h with
  | @composite d part e hrule _ he hpart =>
    have hp := Entity.property_mem_of_mem_declarations hq.2
    have howner := Entity.owner_of_mem_declarations hpart
    have hlt := hm.rank_lt (.composite hp hrule he)
    have hle := m.rank_le d.owner
    refine Or.inl ⟨fun _ => Or.inr ?_, ?_⟩
    · rw [howner]
      exact ⟨d.owner, hq.1, d.property, hp, hrule, he⟩
    · rw [howner]
      rcases hfits with ⟨-, hfits⟩ | hfits <;> omega
  | @reference d e hrule _ he =>
    have hp := Entity.property_mem_of_mem_declarations hq.2
    have hle := m.rank_le e
    rcases hfits with ⟨hfollowed, hfits⟩ | hfits
    · have hlt := hm.rank_lt (.reference hp hrule he (hfollowed hrule))
      simp only [Query.FitsIn]
      omega
    · simp only [Query.FitsIn]
      omega
  | inherits hkind =>
    simp only [Query.FitsIn] at hfits ⊢
    exact ⟨hkind, by omega⟩
  | adds hd =>
    obtain ⟨hmem, hidentity, -⟩ :=
      Entity.mem_plainIdentity_iff.mp (Entity.mem_addedIdentity_iff.mp hd).1
    simp only [Query.FitsIn] at hfits
    refine Or.inl ⟨fun _ => Or.inl hidentity, ?_⟩
    rw [Entity.owner_of_mem_declarations hmem]
    omega
  | inlines hd hf =>
    have hlt := hm.rank_lt (needs_of_mem_inlineCommons hd hf)
    simp only [Query.FitsIn] at hfits ⊢
    omega
  | baseInherits hb hkind =>
    obtain ⟨hsubclass, hfits⟩ := hfits
    have hlt := hm.rank_lt (.base hsubclass hb)
    exact ⟨hkind, by omega⟩
  | @baseAdds e b d hb hd =>
    obtain ⟨hsubclass, hfits⟩ := hfits
    have hlt := hm.rank_lt (.base hsubclass hb)
    -- the property belongs to the identity of the base or of the subclass
    rcases renamedBy_cases e d with hsame | ⟨r, hr, hrename⟩
    · obtain ⟨hmem, hidentity, -⟩ :=
        Entity.mem_plainIdentity_iff.mp (Entity.mem_addedIdentity_iff.mp hd).1
      rw [hsame]
      refine Or.inl ⟨fun _ => Or.inl hidentity, ?_⟩
      rw [Entity.owner_of_mem_declarations hmem]
      omega
    · obtain ⟨hmem, hidentity, -⟩ := Entity.mem_plainIdentity_iff.mp hr
      rw [hrename]
      refine Or.inl ⟨fun _ => Or.inl hidentity, ?_⟩
      rw [Entity.owner_of_mem_declarations hmem]
      omega
  | baseInlines hb hd hf =>
    obtain ⟨hsubclass, hfits⟩ := hfits
    have hlt := hm.rank_lt (.base hsubclass hb)
    have hlt' := hm.rank_lt (needs_of_mem_inlineCommons hd hf)
    simp only [Query.FitsIn]
    omega

/-- A further step beyond those that suffice changes nothing. -/
theorem IsAcyclic.ask_within_succ (hm : m.IsAcyclic) (hq : q.IsOf m) (hfits : q.FitsIn m n)
    (s : Strategy) :
    (KeyDerivation.within m (n + 1)).ask s q = (KeyDerivation.within m n).ask s q := by
  induction n generalizing q s with
  | zero => exact absurd hfits q.not_fitsIn_zero
  | succ n ih =>
    exact KeyDerivation.ask_step_eq (.refl m) hq
      (fun _ _ hstep => ih (hstep.isOf hq).1 (hstep.fitsIn hm hq hfits)) s

/-- In a model without cycles steps beyond the bound change no column and no key. -/
theorem IsAcyclic.ask_within (hm : m.IsAcyclic) (hq : q.IsOf m) (hmet : q.IsMet)
    (hn : m.depthLimit ≤ n) (s : Strategy) :
    (KeyDerivation.within m n).ask s q = m.derivation.ask s q := by
  induction n, hn using Nat.le_induction with
  | base => rfl
  | succ n hn ih =>
    rw [hm.ask_within_succ hq (hmet.fitsIn_depthLimit.mono hn), ih]

end Model

/-! ### Plans -/

namespace TableContext

variable {ctx : TableContext} {repo : Schema} {plans plans' : EntityPlanner} {d : Declaration}
  {e : Entity} {n : Nat}

/-- The plan of a property depends on the plan of the entity that a composite leads to. -/
theorem propertyPlanBy_congr (site : Site) (s : Strategy)
    (h : d.property.kind.columnRule = .composite → ∀ f,
      ctx.model.referencedEntity d.owner d.property = .ok f →
        ∀ site s, plans f site s = plans' f site s) :
    ctx.propertyPlanBy repo plans d site s = ctx.propertyPlanBy repo plans' d site s := by
  have hbind {g g' : Entity → Option Plan} (hrule : d.property.kind.columnRule = .composite)
      (hg : ∀ f, (∀ site s, plans f site s = plans' f site s) → g f = g' f) :
      (ctx.model.referencedEntity d.owner d.property).toOption.bind g =
        (ctx.model.referencedEntity d.owner d.property).toOption.bind g' := by
    cases hf : ctx.model.referencedEntity d.owner d.property with
    | error err => rfl
    | ok f => exact hg f (h hrule f hf)
  have hrule := PropertyKind.columnRule_eq_composite_iff d.property.kind
  unfold propertyPlanBy
  cases htable : d.property.kind.tableRule with
  | scalar | lookup | reference => rfl
  | common =>
    have hcomposite := hrule.mpr (Or.inl htable)
    simp only
    split_ifs
    · refine hbind hcomposite fun f hf => ?_
      simp only [addedPlan, hf]
    · refine hbind hcomposite fun f hf => ?_
      simp only [hf]
  | choice => exact hbind (hrule.mpr (Or.inr (Or.inl htable))) fun f hf => hf site _
  | inlineCommon => exact hbind (hrule.mpr (Or.inr (Or.inr htable))) fun f hf => hf site _

/-- In a model without cycles as many composites are nested as entities may be met. -/
theorem entityPlanWithin_succ (hm : ctx.model.IsAcyclic) (he : e ∈ ctx.model.entities)
    (hn : ctx.model.rank e < n) (site : Site) (s : Strategy) :
    ctx.entityPlanWithin repo (n + 1) e site s = ctx.entityPlanWithin repo n e site s := by
  induction n generalizing e site s with
  | zero => omega
  | succ n ih =>
    refine gather_congr fun d hd => propertyPlanBy_congr site s fun hrule f hf site s => ?_
    rw [Entity.owner_of_mem_declarations hd] at hf
    have hlt := hm.rank_lt (.composite (Entity.property_mem_of_mem_declarations hd) hrule hf)
    exact ih (Model.mem_entities_of_referencedEntity hf) (by omega) site s

/-- In a model without cycles steps beyond the bound change no plan. -/
theorem entityPlanWithin_eq (hm : ctx.model.IsAcyclic) (he : e ∈ ctx.model.entities)
    (hn : ctx.model.depthLimit ≤ n) (site : Site) (s : Strategy) :
    ctx.entityPlanWithin repo n e site s = ctx.entityPlan repo e site s := by
  induction n, hn using Nat.le_induction with
  | base => rfl
  | succ n hn ih =>
    have hle := ctx.model.rank_le e
    have hlt : ctx.model.rank e < n := by
      unfold Model.depthLimit at hn
      omega
    rw [entityPlanWithin_succ hm he hlt, ih]

end TableContext

end Tabular
