import Mathlib.Tactic.Common
import Tabular.Proofs.Cascade.IdentityGraph
import Tabular.Proofs.Derive.CarriedKeys
import Tabular.Proofs.Derive.Descents

/-!
# Keys and the identity graph

The key of an entity contains columns of other entities. The identity graph should lead from the
entity to each of them, so that an update of their keys cascades to it. This file says when it does.

The graph follows references and bases. It looks through an inline common only if that is part of
the identity, while the key of every inline common is collected; and what it finds behind an inline
common are the references there, neither the base of a subclass nor the entity itself. It does not
look into commons and choices at all.

## Main definitions

* `isOverlooked`: a chain takes a step that the graph does not follow.
* `Model.CoversKey`: the graph leads to every entity with a column in the key.
* `Model.ShowsIdentity`: models in which nothing is overlooked.

## Main results

* `Model.leads_of_chain`: the graph leads along chains that it does not overlook.
* `coversKey_iff`: when the graph covers a key.
-/

namespace Tabular

/-- Domain entities, associations and their subclasses. -/
def EntityKind.isIdentified (k : EntityKind) : Bool :=
  k = .domainEntity || k = .association || k.isSubclass

/-- The entity that declares the last property of a chain. -/
def lastOwner? (ch : List Hop) : Option Entity :=
  ch.getLast?.map fun h => h.declaration.owner

/-- Whether the identity graph does not follow the step from a property of a chain to the next one.
Composites are not followed, and inline commons only if they are part of the identity. Behind an
inline common only the references of the entity it leads to are followed. -/
def Hop.hides (h k : Hop) (rest : List Hop) : Bool :=
  match h with
  | .column d => d.property.kind.columnRule = .composite
  | .inlined d => !d.property.isPartOfIdentity ||
    d.property.referencedEntity ≠ some k.declaration.owner.id ||
    (rest.isEmpty && k.declaration.owner.kind.isIdentified)

/-- Whether a chain takes a step that the identity graph does not follow. -/
def isOverlooked : List Hop → Bool
  | h :: k :: rest => h.hides k rest || isOverlooked (k :: rest)
  | _ => false

/-! ### Chains and the graph -/

theorem lastOwner?_cons_cons (h k : Hop) (rest : List Hop) :
    lastOwner? (h :: k :: rest) = lastOwner? (k :: rest) := by
  simp [lastOwner?]

theorem lastOwner?_singleton (h : Hop) : lastOwner? [h] = some h.declaration.owner :=
  rfl

namespace Model

variable {m : Model} {g : Graph EntityId} {q : Query} {ch rest : List Hop} {e b : Entity}
  {d : Declaration} {h : Hop}

/-- The chains of a property start with it. -/
theorem Chain.exists_cons_of_columns (hch : m.Chain (.columns d) ch) :
    ∃ rest, ch = .column d :: rest := by
  cases hch <;> exact ⟨_, rfl⟩

/-- Chains to key columns end in the model. -/
theorem Chain.lastOwner_mem (hch : m.Chain (.keys e) ch) (he : e ∈ m.entities)
    (hlast : lastOwner? ch = some b) : b ∈ m.entities := by
  obtain ⟨last, hgetLast, rfl⟩ := Option.map_eq_some_iff.mp hlast
  exact (hch.declares he last (List.mem_of_getLast? hgetLast)).1

/-- There is an edge to every entity that the identity references. -/
theorem IdentityRefers.mem_edges (hg : m.identityGraph = .ok g) (he : e ∈ m.entities)
    {id : EntityId} (h : m.IdentityRefers e id) : (e.id, id) ∈ g.edges := by
  have hnode : id ∈ m.entities.map Entity.id := by
    clear he
    induction h with
    | direct _ _ hf => exact List.mem_map_of_mem (mem_entities_of_referencedEntity hf)
    | through _ _ _ _ ih => exact ih
  exact (mem_edges_iff hg).mpr ⟨e, he, rfl, hnode, Or.inr h⟩

/-- There is an edge from a subclass to its base. -/
theorem mem_edges_of_baseEntity (hg : m.identityGraph = .ok g) (he : e ∈ m.entities)
    (hkind : e.kind.isSubclass = true) (hb : m.baseEntity e = .ok b) : (e.id, b.id) ∈ g.edges :=
  (mem_edges_iff hg).mpr ⟨e, he, rfl, List.mem_map_of_mem (mem_entities_of_baseEntity hb),
    Or.inl ⟨hkind, b, hb, rfl⟩⟩

theorem mem_identityDeclarations_of_mem_plainIdentity (hd : d ∈ e.plainIdentity) :
    d ∈ e.identityDeclarations := by
  obtain ⟨hmem, hidentity, -⟩ := Entity.mem_plainIdentity_iff.mp hd
  exact List.mem_filter.mpr ⟨hmem, hidentity⟩

/-- The graph leads from an entity to the entity that declares the first property of a chain to a
key column: the entity itself or one of its bases. -/
theorem Chain.leads_first (hg : m.identityGraph = .ok g) (hch : m.Chain q ch)
    (hq : q = .keys e ∨ q = .inherited e ∧ e.kind.isSubclass = true) (he : e ∈ m.entities)
    (hcons : ch = h :: rest) : g.Leads e.id h.declaration.owner.id := by
  induction hch generalizing e h rest with
  | leaf | composite | reference => simp at hq
  | inherits hkind _ ih =>
    obtain rfl : _ = e := by simpa using hq
    exact ih (Or.inr ⟨rfl, hkind⟩) he hcons
  | adds hd next =>
    obtain rfl : _ = e := by simpa using hq
    obtain ⟨_, hcolumns⟩ := next.exists_cons_of_columns
    obtain rfl : _ = h := (List.cons.inj (hcolumns.symm.trans hcons)).1
    have hplain := (Entity.mem_addedIdentity_iff.mp hd).1
    rw [Hop.declaration,
      Entity.owner_of_mem_declarations (Entity.mem_plainIdentity_iff.mp hplain).1]
    exact .refl
  | inlines hd _ _ =>
    obtain rfl : _ = e := by simpa using hq
    obtain rfl : _ = h := (List.cons.inj hcons).1
    rw [Hop.declaration, Entity.owner_of_mem_declarations (Entity.mem_inlineCommons_iff.mp hd).1]
    exact .refl
  | baseInherits hb hkind _ ih =>
    obtain ⟨rfl, hsubclass⟩ : _ = e ∧ _ := by simpa using hq
    have hrest := ih (Or.inr ⟨rfl, hkind⟩) (mem_entities_of_baseEntity hb) hcons
    exact .head (mem_edges_of_baseEntity hg he hsubclass hb) hrest
  | @baseAdds e' b d _ hb hd next =>
    obtain ⟨rfl, hsubclass⟩ : e' = e ∧ _ := by simpa using hq
    obtain ⟨_, hcolumns⟩ := next.exists_cons_of_columns
    obtain rfl : _ = h := (List.cons.inj (hcolumns.symm.trans hcons)).1
    rw [Hop.declaration]
    rcases renamedBy_cases e' d with hsame | ⟨r, hr, hrename⟩
    · have hplain := (Entity.mem_addedIdentity_iff.mp hd).1
      rw [hsame, Entity.owner_of_mem_declarations (Entity.mem_plainIdentity_iff.mp hplain).1]
      exact .single (mem_edges_of_baseEntity hg he hsubclass hb)
    · rw [hrename, Entity.owner_of_mem_declarations (Entity.mem_plainIdentity_iff.mp hr).1]
      exact .refl
  | baseInlines hb hd _ _ =>
    obtain ⟨rfl, hsubclass⟩ : _ = e ∧ _ := by simpa using hq
    obtain rfl : _ = h := (List.cons.inj hcons).1
    rw [Hop.declaration, Entity.owner_of_mem_declarations (Entity.mem_inlineCommons_iff.mp hd).1]
    exact .single (mem_edges_of_baseEntity hg he hsubclass hb)

/-- If the chain goes on beyond its first property, the identity of the entity that declares that
property references an entity from which the graph leads on. -/
def LeadsOn (m : Model) (g : Graph EntityId) (ch : List Hop) (x : Entity) : Prop :=
  ∀ h k rest, ch = h :: k :: rest →
    ∃ id, m.IdentityRefers h.declaration.owner id ∧ g.Leads id x.id

/-- The graph leads along a chain to a key column if it leads on from its first property. -/
theorem LeadsOn.leads {x : Entity} (hg : m.identityGraph = .ok g) (hch : m.Chain (.keys e) ch)
    (he : e ∈ m.entities) (hlast : lastOwner? ch = some x) (h : m.LeadsOn g ch x) :
    g.Leads e.id x.id := by
  obtain ⟨first, rest, rfl⟩ := List.exists_cons_of_ne_nil hch.ne_nil
  have hfirst := hch.leads_first hg (Or.inl rfl) he rfl
  cases rest with
  | nil =>
    obtain rfl : first.declaration.owner = x := by simpa [lastOwner?_singleton] using hlast
    exact hfirst
  | cons k rest =>
    obtain ⟨id, hrefers, hleads⟩ := h first k rest rfl
    have howner := (hch.declares he first List.mem_cons_self).1
    exact hfirst.trans (.head (hrefers.mem_edges hg howner) hleads)

/-- The graph leads on through an inline common that does not hide what lies behind it. -/
theorem LeadsOn.inlined {f x : Entity} (hindexed : m.IsIndexed) (hd : d ∈ e.inlineCommons)
    (hf : m.referencedEntity e d.property = .ok f) (next : m.Chain (.keys f) rest)
    (hover : isOverlooked (.inlined d :: rest) = false)
    (hlast : lastOwner? rest = some x) (hx : x.kind.isIdentified = true) (h : m.LeadsOn g rest x) :
    m.LeadsOn g (.inlined d :: rest) x := by
  rintro _ k tail heq
  obtain ⟨rfl, rfl⟩ := List.cons.inj heq
  obtain ⟨hmem, hkind⟩ := Entity.mem_inlineCommons_iff.mp hd
  simp only [isOverlooked, Hop.hides, Bool.or_eq_false_iff, Bool.not_eq_eq_eq_not, Bool.not_false,
    decide_eq_false_iff_not, ne_eq, not_not, Bool.and_eq_false_iff] at hover
  obtain ⟨⟨⟨hidentity, hleadsTo⟩, hend⟩, -⟩ := hover
  have howner : k.declaration.owner = f := by
    obtain ⟨i, hi, hentity⟩ := exists_of_referencedEntity hf
    obtain rfl : i = k.declaration.owner.id := Option.some.inj (hi.symm.trans hleadsTo)
    have hdeclared := next.declares (mem_entities_of_referencedEntity hf) k List.mem_cons_self
    exact Option.some.inj ((hindexed.entity?_id hdeclared.1).symm.trans hentity)
  have hself : (Hop.inlined d).declaration.owner = e := Entity.owner_of_mem_declarations hmem
  cases tail with
  | nil =>
    -- the chain ends behind the inline common, at an entity without identity of its own
    rw [lastOwner?_singleton, Option.some.injEq] at hlast
    simp [hlast, hx] at hend
  | cons k' tail =>
    obtain ⟨id, hrefers, hleads⟩ := h k k' tail rfl
    refine ⟨id, ?_, hleads⟩
    rw [hself]
    exact .through (List.mem_filter.mpr ⟨hmem, hidentity⟩) hkind hf (howner ▸ hrefers)

/-- The property that stands for a key property of the base belongs to an identity. -/
theorem isIdentity_renamedBy (he : e ∈ m.entities) (hb : m.baseEntity e = .ok b)
    (hd : d ∈ b.addedIdentity) : (Query.columns (renamedBy e.identityRename? d)).IsIdentity m := by
  rcases renamedBy_cases e d with hsame | ⟨r, hr, hrename⟩
  · rw [hsame]
    exact ⟨b, mem_entities_of_baseEntity hb, (Entity.mem_addedIdentity_iff.mp hd).1⟩
  · rw [hrename]
    exact ⟨e, he, hr⟩

/-- The graph leads on from the first property of every chain that it does not overlook. -/
theorem Chain.leadsOn {x : Entity} (hg : m.identityGraph = .ok g) (hindexed : m.IsIndexed)
    (hx : x.kind.isIdentified = true) (hch : m.Chain q ch) (hq : q.IsIdentity m)
    (hover : isOverlooked ch = false) (hlast : lastOwner? ch = some x) : m.LeadsOn g ch x := by
  induction hch with
  | leaf => simp [LeadsOn]
  | composite hrule _ _ _ _ next =>
    obtain ⟨k, rest, rfl⟩ := List.exists_cons_of_ne_nil next.ne_nil
    simp [isOverlooked, Hop.hides, hrule] at hover
  | reference hrule _ he next ih =>
    obtain ⟨o, ho, hd⟩ := hq
    obtain rfl := Entity.owner_of_mem_declarations (Entity.mem_plainIdentity_iff.mp hd).1
    obtain ⟨k, rest, rfl⟩ := List.exists_cons_of_ne_nil next.ne_nil
    have hf := mem_entities_of_referencedEntity he
    have hlast' : lastOwner? (k :: rest) = some x := by rwa [lastOwner?_cons_cons] at hlast
    have hleads := (ih hf (Bool.or_eq_false_iff.mp hover).2 hlast').leads hg next hf hlast'
    rintro h k' rest' heq
    obtain ⟨rfl, -⟩ := List.cons.inj heq
    exact ⟨_, .direct (mem_identityDeclarations_of_mem_plainIdentity hd) hrule he, hleads⟩
  | inherits _ _ ih => exact ih hq hover hlast
  | adds hd _ ih => exact ih ⟨_, hq, (Entity.mem_addedIdentity_iff.mp hd).1⟩ hover hlast
  | inlines hd hf next ih =>
    obtain ⟨k, rest, rfl⟩ := List.exists_cons_of_ne_nil next.ne_nil
    have hlast' : lastOwner? (k :: rest) = some x := by rwa [lastOwner?_cons_cons] at hlast
    refine LeadsOn.inlined hindexed hd hf next hover hlast' hx ?_
    exact ih (mem_entities_of_referencedEntity hf) (Bool.or_eq_false_iff.mp hover).2 hlast'
  | baseInherits hb _ _ ih => exact ih (mem_entities_of_baseEntity hb) hover hlast
  | baseAdds hb hd _ ih => exact ih (isIdentity_renamedBy hq hb hd) hover hlast
  | baseInlines hb hd hf next ih =>
    obtain ⟨k, rest, rfl⟩ := List.exists_cons_of_ne_nil next.ne_nil
    have hlast' : lastOwner? (k :: rest) = some x := by rwa [lastOwner?_cons_cons] at hlast
    refine LeadsOn.inlined hindexed hd hf next hover hlast' hx ?_
    exact ih (mem_entities_of_referencedEntity hf) (Bool.or_eq_false_iff.mp hover).2 hlast'

/-- The graph leads along chains that it does not overlook. -/
theorem leads_of_chain {x : Entity} (hg : m.identityGraph = .ok g) (hindexed : m.IsIndexed)
    (he : e ∈ m.entities) (hch : m.Chain (.keys e) ch) (hover : isOverlooked ch = false)
    (hlast : lastOwner? ch = some x) (hx : x.kind.isIdentified = true) : g.Leads e.id x.id :=
  (hch.leadsOn hg hindexed hx he hover hlast).leads hg hch he hlast

/-! ### Models in which nothing is overlooked -/

/-- No common or choice is part of an identity, and every inline common is, and leads to an entity
that is neither a domain entity nor an association nor a subclass. -/
def ShowsIdentity (m : Model) : Prop :=
  ∀ e ∈ m.entities, ∀ p ∈ e.properties,
    (p.isPartOfIdentity = true → p.kind ≠ .common ∧ p.kind ≠ .choice) ∧
    (p.kind = .inlineCommon → p.isPartOfIdentity = true ∧
      ∀ f ∈ p.referencedEntity.bind m.entity?, f.kind.isIdentified = false)

instance (m : Model) : Decidable m.ShowsIdentity :=
  inferInstanceAs (Decidable (∀ e ∈ m.entities, ∀ p ∈ e.properties,
    (p.isPartOfIdentity = true → p.kind ≠ .common ∧ p.kind ≠ .choice) ∧
    (p.kind = .inlineCommon → p.isPartOfIdentity = true ∧
      ∀ f ∈ p.referencedEntity.bind m.entity?, f.kind.isIdentified = false)))

/-- The first property of a chain to a key column of an entity that is no subclass is one of its
own. -/
theorem Chain.owner_first (hch : m.Chain (.keys e) (h :: rest))
    (hkind : e.kind.isSubclass = false) : h.declaration.owner = e := by
  cases hch with
  | inherits hsubclass => simp [hkind] at hsubclass
  | adds hd next =>
    obtain ⟨_, hcolumns⟩ := next.exists_cons_of_columns
    obtain rfl : _ = h := (List.cons.inj hcolumns.symm).1
    have hplain := (Entity.mem_addedIdentity_iff.mp hd).1
    exact Entity.owner_of_mem_declarations (Entity.mem_plainIdentity_iff.mp hplain).1
  | inlines hd =>
    exact Entity.owner_of_mem_declarations (Entity.mem_inlineCommons_iff.mp hd).1

/-- In such a model the inline commons of a key hide nothing. -/
theorem ShowsIdentity.isOverlooked_inlined {f : Entity} (hshows : m.ShowsIdentity)
    (hindexed : m.IsIndexed) (he : e ∈ m.entities) (hd : d ∈ e.inlineCommons)
    (hf : m.referencedEntity e d.property = .ok f) (next : m.Chain (.keys f) rest)
    (hrest : isOverlooked rest = false) : isOverlooked (.inlined d :: rest) = false := by
  obtain ⟨hmem, hkind⟩ := Entity.mem_inlineCommons_iff.mp hd
  obtain ⟨k, rest, rfl⟩ := List.exists_cons_of_ne_nil next.ne_nil
  obtain ⟨i, hi, hentity⟩ := exists_of_referencedEntity hf
  obtain ⟨hidentity, hplain⟩ :=
    (hshows e he d.property (Entity.property_mem_of_mem_declarations hmem)).2 hkind
  have hplain : f.kind.isIdentified = false := hplain f (by rw [hi]; exact hentity)
  have hsubclass : f.kind.isSubclass = false := by
    simp only [EntityKind.isIdentified, Bool.or_eq_false_iff] at hplain
    exact hplain.2
  have howner := next.owner_first hsubclass
  have hid : f.id = i := hindexed.id_of_entity? hentity
  simp [isOverlooked, Hop.hides, hidentity, hi, howner, hid, hplain, hrest]

theorem ShowsIdentity.isOverlooked_eq_false (hshows : m.ShowsIdentity) (hindexed : m.IsIndexed)
    (hch : m.Chain q ch) (hq : q.IsIdentity m) : isOverlooked ch = false := by
  induction hch with
  | leaf => rfl
  | @composite d _ _ _ hrule =>
    obtain ⟨o, ho, hd⟩ := hq
    obtain ⟨hmem, hidentity, hinline⟩ := Entity.mem_plainIdentity_iff.mp hd
    obtain ⟨hcommon, hchoice⟩ :=
      (hshows o ho d.property (Entity.property_mem_of_mem_declarations hmem)).1 hidentity
    cases hkind : d.property.kind <;> simp_all [PropertyKind.columnRule]
  | reference hrule _ he next ih =>
    obtain ⟨k, rest, rfl⟩ := List.exists_cons_of_ne_nil next.ne_nil
    have hrest := ih (mem_entities_of_referencedEntity he)
    simp [isOverlooked, Hop.hides, hrule, hrest]
  | inherits _ _ ih => exact ih hq
  | adds hd _ ih => exact ih ⟨_, hq, (Entity.mem_addedIdentity_iff.mp hd).1⟩
  | inlines hd hf next ih =>
    exact hshows.isOverlooked_inlined hindexed hq hd hf next
      (ih (mem_entities_of_referencedEntity hf))
  | baseInherits hb _ _ ih => exact ih (mem_entities_of_baseEntity hb)
  | baseAdds hb hd _ ih => exact ih (isIdentity_renamedBy hq hb hd)
  | baseInlines hb hd hf next ih =>
    exact hshows.isOverlooked_inlined hindexed (mem_entities_of_baseEntity hb) hd hf next
      (ih (mem_entities_of_referencedEntity hf))

/-! ### Covered keys -/

/-- The graph leads from the entity to every domain entity, association or subclass that a column of
the key comes from, and the entity cascades key updates if one of them allows updates. -/
def CoversKey (m : Model) (g : Graph EntityId) (a : Entity) (ks : List Column) : Prop :=
  ∀ b ∈ m.entities, b.kind.isIdentified = true →
    (∃ c ∈ ks, ∃ p ∈ c.sources, p.entity = b.id) →
      g.canReach a.id b.id = true ∧
        (b.allowPrimaryKeyUpdates = true → a.id ∈ m.cascadingEntities g)

/-- The entities that the columns of a key come from are the ends of chains. -/
theorem exists_source_iff {a : Entity} {ks : List Column} (hindexed : m.IsIndexed)
    (ha : a ∈ m.entities) (hks : m.keys a .root = .ok ks) (hb : b ∈ m.entities) :
    (∃ c ∈ ks, ∃ p ∈ c.sources, p.entity = b.id) ↔
      ∃ ch, m.Chain (.keys a) ch ∧ Strategy.root.admits ch = true ∧ lastOwner? ch = some b := by
  constructor
  · rintro ⟨c, hc, p, hp, hid⟩
    obtain ⟨ch, hch, hadmits, hcolumn⟩ := (mem_keys_iff hks).mp hc
    obtain ⟨last, hlast, hsources⟩ := Strategy.sources_of_columnOf? hcolumn
    rw [hsources, List.mem_singleton] at hp
    have hdeclared := hch.declares ha last (List.mem_of_getLast? hlast)
    have howner : last.declaration.owner = b := by
      have hentity := hindexed.entity?_id hdeclared.1
      rw [show last.declaration.owner.id = b.id by rw [← hid, hp]; rfl] at hentity
      exact Option.some.inj (hentity.symm.trans (hindexed.entity?_id hb))
    exact ⟨ch, hch, hadmits, by rw [lastOwner?, hlast, Option.map_some, howner]⟩
  · rintro ⟨ch, hch, hadmits, hlast⟩
    obtain ⟨c, hcolumn⟩ := hch.exists_columnOf? .root
    obtain ⟨last, hlast', hsources⟩ := Strategy.sources_of_columnOf? hcolumn
    obtain rfl : last.declaration.owner = b := by
      simpa [lastOwner?, hlast'] using hlast
    exact ⟨c, (mem_keys_iff hks).mpr ⟨ch, hch, hadmits, hcolumn⟩, last.declaration.id,
      by rw [hsources]; exact List.mem_singleton_self _, rfl⟩

end Model

variable {m : Model} {g : Graph EntityId} {a : Entity} {ks : List Column}

/-- The identity graph covers a key exactly if it leads to the ends of the chains that it overlooks.
It covers every key of a model in which nothing is overlooked. -/
theorem coversKey_iff (hindexed : m.IsIndexed) (hg : m.identityGraph = .ok g)
    (ha : a ∈ m.entities) (hks : m.keys a .root = .ok ks) :
    (m.CoversKey g a ks ↔ ∀ ch b, m.Chain (.keys a) ch → Strategy.root.admits ch = true →
      isOverlooked ch = true → lastOwner? ch = some b → b.kind.isIdentified = true →
        g.canReach a.id b.id = true) ∧
    (m.ShowsIdentity → m.CoversKey g a ks) := by
  have hnode : ∀ b ∈ m.entities, b.id ∈ g.nodes := fun b hb => by
    rw [Model.nodes_identityGraph hg]
    exact List.mem_map_of_mem hb
  have hreach (b : Entity) (hb : b ∈ m.entities) :
      g.canReach a.id b.id = true ↔ g.Leads a.id b.id := by
    rw [Graph.canReach_iff]
    exact ⟨fun h => h.2.2, fun h => ⟨hnode a ha, hnode b hb, h⟩⟩
  have hiff : m.CoversKey g a ks ↔ ∀ ch b, m.Chain (.keys a) ch →
      Strategy.root.admits ch = true → isOverlooked ch = true → lastOwner? ch = some b →
        b.kind.isIdentified = true → g.canReach a.id b.id = true := by
    constructor
    · intro hcovers ch b hch hadmits _ hlast hkind
      have hb : b ∈ m.entities := hch.lastOwner_mem ha hlast
      exact (hcovers b hb hkind
        ((Model.exists_source_iff hindexed ha hks hb).mpr ⟨ch, hch, hadmits, hlast⟩)).1
    · intro hoverlooked b hb hkind hsource
      obtain ⟨ch, hch, hadmits, hlast⟩ := (Model.exists_source_iff hindexed ha hks hb).mp hsource
      have hcan : g.canReach a.id b.id = true := by
        cases hover : isOverlooked ch with
        | true => exact hoverlooked ch b hch hadmits hover hlast hkind
        | false =>
          exact (hreach b hb).mpr (Model.leads_of_chain hg hindexed ha hch hover hlast hkind)
      refine ⟨hcan, fun hallows => ?_⟩
      exact (Model.mem_cascadingEntities_iff hg).mpr
        ⟨hnode a ha, b, hb, hallows, (hreach b hb).mp hcan⟩
  refine ⟨hiff, fun hshows => hiff.mpr fun ch b hch _ hover => ?_⟩
  have hnot := hshows.isOverlooked_eq_false hindexed hch ha
  simp [hover] at hnot

/-! ### An address outside the identity

An office has an address, which names a region. The address is not part of the identity of the
office, but the key of the address is part of its key. An update of the key of a region does not
cascade to the office.
-/

namespace Regions

def region : Entity :=
  { Entity.ofKind .domainEntity "EdFi" "Region" with
    id := 0
    allowPrimaryKeyUpdates := true
    properties := [(Property.ofKind "RegionId" (.scalar .integer)).identity] }

def address : Entity :=
  { Entity.ofKind .inlineCommon "EdFi" "Address" with
    id := 1
    properties := [{ (Property.ofKind "Region" .domainEntity).identity with
      referencedEntity := some 0 }] }

def office : Entity :=
  { Entity.ofKind .domainEntity "EdFi" "Office" with
    id := 2
    properties := [(Property.ofKind "OfficeId" (.scalar .integer)).identity,
      { (Property.ofKind "Address" .inlineCommon).required with referencedEntity := some 1 }] }

def model : Model :=
  ⟨[.core "EdFi"], [region, address, office]⟩

end Regions

/-- The key of an office has a column of its region, but the graph does not lead there. -/
theorem coversKey_iff_regions :
    Regions.model.IsIndexed ∧ ∃ g ks, Regions.model.identityGraph = .ok g ∧
      Regions.model.keys Regions.office .root = .ok ks ∧
      ks.map Column.id = ["OfficeId", "RegionId"] ∧
      g.canReach Regions.office.id Regions.region.id = false ∧
      ¬Regions.model.CoversKey g Regions.office ks ∧
      ∃ ch b, Regions.model.Chain (.keys Regions.office) ch ∧ isOverlooked ch = true ∧
        lastOwner? ch = some b ∧ ¬g.canReach Regions.office.id b.id = true := by
  have hindexed : Regions.model.IsIndexed := by decide
  have hgraph : Regions.model.identityGraph.toOption.any
      (fun g => g.canReach Regions.office.id Regions.region.id = false) = true := by decide +kernel
  have hrun : (Regions.model.keys Regions.office .root).toOption.any
      (fun ks => ks.map Column.id = ["OfficeId", "RegionId"] ∧
        ks.any fun c => c.sources.any fun p => p.entity = 0) = true := by decide +kernel
  obtain ⟨g, hg, hnot⟩ := exists_eq_ok_of_any hgraph
  obtain ⟨ks, hks, hcolumns⟩ := exists_eq_ok_of_any hrun
  simp only [decide_eq_true_eq, List.any_eq_true] at hnot hcolumns
  obtain ⟨hids, c, hc, p, hp, hentity⟩ := hcolumns
  have hiff := (coversKey_iff hindexed hg (.tail _ (.tail _ (.head _))) hks).1
  have huncovered : ¬Regions.model.CoversKey g Regions.office ks := fun hcovers => by
    have hreach := (hcovers Regions.region (.head _) rfl ⟨c, hc, p, hp, hentity⟩).1
    simp [hnot] at hreach
  refine ⟨hindexed, g, ks, hg, hks, hids, hnot, huncovered, ?_⟩
  by_contra hnone
  refine huncovered (hiff.mpr fun ch b hch _ hover hlast _ => ?_)
  by_contra hcan
  exact hnone ⟨ch, b, hch, hover, hlast, hcan⟩

end Tabular
