import Mathlib.Tactic.Common
import Tabular.Proofs.Derive.Commit
import Tabular.Proofs.Derive.FirmKeys

/-!
# Keys handed on to further tables

A table that hangs off another one takes over a key that was collected before the other table was
complete. It contains the key that the other table has in the end: every key column of an identity
property that is built is also collected, if each identity rename in the way stands in for a key
property of its base. Outer keys and the keys of commons add up along nested commons, whatever
choices and inline commons lie in between.

## Main definitions

* `Model.PlacesRenames`: the identity renames of embedded subclasses stand in for key properties.
* `TableSet.Carried`: the table at the start of a link has the key of the table at its end.
* `TableSet.Covered`: what is known about a new link while the table of the scope is built.

## Main results

* `Model.yieldsName_keys_of_firmKey`: what is built is collected.
* `TableContext.Built.covered`: building adds covered links only.
* `TableContext.carried_of_mainTable`, `TableContext.carried_of_extensionTable`: in the sets of
  tables that are committed every link is carried.
-/

namespace Tabular

/-! ### Renames -/

deriving instance DecidableEq for Declaration

namespace Model

/-- Every identity rename of the entity takes the place of a key property that its base adds. -/
def PlacesRename (m : Model) (e : Entity) : Prop :=
  ∀ d ∈ e.plainIdentity, d.property.isIdentityRename = true →
    ∃ b ∈ e.baseEntity.bind m.entity?, ∃ k ∈ b.addedIdentity, renamedBy e.identityRename? k = d

instance (m : Model) (e : Entity) : Decidable (m.PlacesRename e) :=
  inferInstanceAs (Decidable (∀ d ∈ e.plainIdentity, d.property.isIdentityRename = true →
    ∃ b ∈ e.baseEntity.bind m.entity?, ∃ k ∈ b.addedIdentity, renamedBy e.identityRename? k = d))

/-- Where a common or inline common leads to a subclass, every identity rename of the subclass takes
the place of a key property that its base adds. -/
def PlacesRenames (m : Model) : Prop :=
  ∀ e ∈ m.entities, ∀ p ∈ e.properties, p.kind = .common ∨ p.kind = .inlineCommon →
    ∀ f ∈ p.referencedEntity.bind m.entity?, f.kind.isSubclass = true → m.PlacesRename f

instance (m : Model) : Decidable m.PlacesRenames :=
  inferInstanceAs (Decidable (∀ e ∈ m.entities, ∀ p ∈ e.properties,
    p.kind = .common ∨ p.kind = .inlineCommon →
      ∀ f ∈ p.referencedEntity.bind m.entity?, f.kind.isSubclass = true → m.PlacesRename f))

variable {m : Model} {e f : Entity} {s s' : Strategy} {d : Declaration} {id : String}

theorem PlacesRenames.of_referencedEntity (h : m.PlacesRenames) (he : e ∈ m.entities)
    (hd : d ∈ e.declarations) (hkind : d.property.kind = .common ∨ d.property.kind = .inlineCommon)
    (hf : m.referencedEntity e d.property = .ok f) (hsubclass : f.kind.isSubclass = true) :
    m.PlacesRename f := by
  obtain ⟨i, hi, hentity⟩ := exists_of_referencedEntity hf
  refine h e he d.property (Entity.property_mem_of_mem_declarations hd) hkind f ?_ hsubclass
  rw [hi]
  exact hentity

/-- A rename that takes the place of a key property is in the key that the subclass inherits. -/
theorem PlacesRename.yieldsName_inherited (h : m.PlacesRename e) (hd : d ∈ e.plainIdentity)
    (hrename : d.property.isIdentityRename = true) (hid : m.YieldsName (.columns d) s id) :
    m.YieldsName (.inherited e) s id := by
  obtain ⟨b, hb, k, hk, rfl⟩ := h d hd hrename
  obtain ⟨c, hc, rfl⟩ := hid
  exact ⟨c, yields_inherited_iff.mpr
    ⟨b, baseEntity_eq_ok_iff.mpr hb, Or.inr (Or.inl ⟨k, hk, hc⟩)⟩, rfl⟩

/-- The subclasses among embedded entities place their renames if the entity itself does. -/
theorem Embeds.placesRename (h : m.Embeds e s f s') (hrenames : m.PlacesRenames)
    (he : e ∈ m.entities) (hself : e.kind.isSubclass = true → m.PlacesRename e) :
    f.kind.isSubclass = true → m.PlacesRename f := by
  induction h with
  | self => exact hself
  | through hd _ hf _ ih =>
    obtain ⟨hmem, hkind⟩ := Entity.mem_inlineCommons_iff.mp hd
    exact ih (mem_entities_of_referencedEntity hf)
      (hrenames.of_referencedEntity he hmem (Or.inr hkind) hf)

/-- What is built is collected: a stray column is one that the subclass inherits. -/
theorem yieldsName_keys_of_firmKey (hidentity : m.HasSimpleIdentity) (hrenames : m.PlacesRenames)
    (he : e ∈ m.entities) (hself : e.kind.isSubclass = true → m.PlacesRename e)
    (h : m.FirmKey e s id) : m.YieldsName (.keys e) s id := by
  rw [yieldsName_keys_iff]
  rcases (firmKey_iff hidentity he).mp h with hadded | hstray
  · exact Or.inl hadded
  · obtain ⟨f, s', hembeds, hsubclass, d, hd, hrename, hid⟩ := hstray
    have hplaces := hembeds.placesRename hrenames he hself hsubclass
    exact Or.inr ⟨f, s', hembeds,
      Or.inl ⟨hsubclass, hplaces.yieldsName_inherited hd hrename hid⟩⟩

end Model

/-! ### Flags of collected columns -/

/-- What is asked for belongs to the key of an entity of the model. -/
def Query.IsIdentity (m : Model) : Query → Prop
  | .columns d => ∃ e ∈ m.entities, d ∈ e.plainIdentity
  | .keys e => e ∈ m.entities
  | .inherited e => e ∈ m.entities

theorem Strategy.suppressesKeys_append (s : Strategy) (p : Property) :
    (s.append p).suppressesKeys = s.suppressesKeys := by
  simp only [suppressesKeys, mem_layers_append_iff (l := .suppressKeys) rfl rfl]

theorem Strategy.suppressesKeys_merging (s : Strategy) (p : Property) :
    (s.merging p).suppressesKeys = s.suppressesKeys :=
  suppressesKeys_congr (s.plain_merging p)

/-- Properties further out do not change whether a column is part of the key. -/
private theorem isPartOfPrimaryKey_of_cons {m : Model} {q : Query} {rest : List Hop}
    (next : m.Chain q rest) {s : Strategy} {hop : Hop} {c : Column}
    (hinside : (s.inside hop).suppressesKeys = s.suppressesKeys)
    (hrest : ∀ c', (s.inside hop).columnOf? rest = some c' →
      c'.isPartOfPrimaryKey = !(s.inside hop).suppressesKeys)
    (hc : s.columnOf? (hop :: rest) = some c) : c.isPartOfPrimaryKey = !s.suppressesKeys := by
  rw [next.columnOf?_cons, Option.map_eq_some_iff] at hc
  obtain ⟨c', hc', rfl⟩ := hc
  rw [← hinside]
  exact hrest c' hc'

/-- The column at the end of a chain of identity properties is part of the key unless keys are
suppressed. -/
theorem Model.Chain.isPartOfPrimaryKey {m : Model} (hidentity : m.HasSimpleIdentity) {q : Query}
    {ch : List Hop} (h : m.Chain q ch) (hq : q.IsIdentity m) {s : Strategy} {c : Column}
    (hc : s.columnOf? ch = some c) : c.isPartOfPrimaryKey = !s.suppressesKeys := by
  induction h generalizing s c with
  | @leaf d hrule =>
    obtain ⟨e, -, hd⟩ := hq
    obtain ⟨naming, type, rfl⟩ := exists_leafColumn_of_leafColumn? hc
    simp [(Entity.mem_plainIdentity_iff.mp hd).2.1]
  | @composite d _ _ _ hrule =>
    obtain ⟨e, he, hd⟩ := hq
    exact absurd hrule ((hidentity.mem_plainIdentity_iff he).mp hd).2.2.1
  | @reference d _ _ hrule _ he next ih =>
    refine isPartOfPrimaryKey_of_cons next ?_
      (fun _ => ih (mem_entities_of_referencedEntity he)) hc
    simp only [Strategy.inside, hrule, Strategy.suppressesKeys_append,
      Strategy.suppressesKeys_merging]
  | inherits _ _ ih => exact ih hq hc
  | adds hd _ ih =>
    exact ih ⟨_, hq, (Entity.mem_addedIdentity_iff.mp hd).1⟩ hc
  | @inlines _ _ d _ _ hf next ih =>
    refine isPartOfPrimaryKey_of_cons next ?_
      (fun _ => ih (mem_entities_of_referencedEntity hf)) hc
    exact s.suppressesKeys_append d.property
  | baseInherits hb _ _ ih => exact ih (Model.mem_entities_of_baseEntity hb) hc
  | @baseAdds e b d _ hb hd _ ih =>
    refine ih ?_ hc
    -- the property in question is the base's own or the rename of the subclass
    have hown : d ∈ b.plainIdentity := (Entity.mem_addedIdentity_iff.mp hd).1
    unfold renamedBy
    split
    · rename_i r hr
      split_ifs
      · exact ⟨e, hq, List.mem_of_find?_eq_some hr⟩
      · exact ⟨b, Model.mem_entities_of_baseEntity hb, hown⟩
    · exact ⟨b, Model.mem_entities_of_baseEntity hb, hown⟩
  | @baseInlines _ _ _ d _ _ _ hf next ih =>
    refine isPartOfPrimaryKey_of_cons next ?_
      (fun _ => ih (mem_entities_of_referencedEntity hf)) hc
    exact s.suppressesKeys_append d.property

/-! ### The keys of further tables -/

namespace TableContext

variable {ctx : TableContext} {d : Declaration} {scope : Scope} {s : Strategy} {set : TableSet}

/-- The table of a collection has the key of the scope. -/
private theorem mem_primaryKeyIds_collectionJoin {lookup : Option LookupTarget}
    {columns : List Column} {c : Column} (hc : c ∈ scope.primaryKeys) :
    c.id ∈ (ctx.collectionJoin d scope s lookup columns).primaryKeyIds := by
  have hparent : c.id ∈ ((joinTable scope s d.property .collection).addParentKeys ctx.version
      scope.primaryKeys).primaryKeyIds :=
    Table.mem_primaryKeyIds_addParentKeys_iff.mpr (Or.inr (List.mem_map_of_mem hc))
  refine Table.mem_primaryKeyIds_addColumns_iff.mpr (Or.inl ?_)
  split
  · rwa [Table.primaryKeyIds_addForeignKey]
  · exact hparent

/-- The table of a collection of references has the key of the scope. -/
private theorem mem_primaryKeyIds_referenceJoin {referenced : Entity} {keys : List Column}
    {c : Column} (hc : c ∈ scope.primaryKeys) :
    c.id ∈ (ctx.referenceJoin d referenced scope s keys).primaryKeyIds := by
  unfold referenceJoin
  rw [Table.primaryKeyIds_addReferenceSource]
  exact Table.mem_primaryKeyIds_addColumns_iff.mpr (Or.inl
    (Table.mem_primaryKeyIds_addParentKeys_iff.mpr (Or.inr (List.mem_map_of_mem hc))))

/-- A table that adds columns to a stored one has the key of the latter. -/
private theorem mem_primaryKeyIds_suffixedTable {e : Entity} {parent : Table} {r : TableReason}
    {id : String} (hid : id ∈ parent.primaryKeyIds) :
    id ∈ (ctx.suffixedTable e parent r).primaryKeyIds :=
  Table.mem_primaryKeyIds_addParentKeys_iff.mpr (Or.inr hid)

/-- The table of a common starts with the key of the scope, or without a key. -/
private theorem mem_primaryKeyIds_commonJoin_iff {common : Entity} {id : String} :
    id ∈ (ctx.commonJoin d common scope s).primaryKeyIds ↔
      ctx.version.parentKeysFirst = true ∧ id ∈ scope.primaryKeys.map Column.id := by
  have hbare : (joinTable scope s d.property .common).primaryKeyIds = [] := rfl
  have hdescribed : ({ joinTable scope s d.property .common with
      description := common.documentation } : Table).primaryKeyIds = [] := rfl
  simp only [commonJoin]
  split_ifs with hfirst hdescription hdescription <;>
    simp [Table.mem_primaryKeyIds_addParentKeys_iff, hbare, hdescribed, hfirst]

/-- The key of the finished table of a common consists of the key of the scope and, unless the
common is optional, of the firm columns of the common. -/
private theorem exists_key_of_common {common : Entity} {commonKeys : List Column} {mid : TableSet}
    (h : ctx.Built common.declarations (ctx.commonScope d common scope s set.next commonKeys)
      (commonStrategy d.property s) (set.push (ctx.commonJoin d common scope s)) mid) :
    ∃ t, (ctx.commonClosed scope set.next mid).get? set.next = some t ∧
      ∀ id, id ∈ t.primaryKeyIds ↔ id ∈ scope.primaryKeys.map Column.id ∨
        (commonStrategy d.property s).MakesKeys ∧
          ctx.model.FirmKey common (commonStrategy d.property s) id := by
  obtain ⟨owner, hstart⟩ := set.get?_push_next (ctx.commonJoin d common scope s)
  obtain ⟨t, ht, hgains⟩ := h.exists_gainsKeys hstart
  have hkey (id : String) : id ∈ t.primaryKeyIds ↔
      (ctx.version.parentKeysFirst = true ∧ id ∈ scope.primaryKeys.map Column.id) ∨
        (commonStrategy d.property s).MakesKeys ∧
          ctx.model.FirmKey common (commonStrategy d.property s) id := by
    rw [hgains id, Model.exists_writesKey_iff]
    exact or_congr mem_primaryKeyIds_commonJoin_iff Iff.rfl
  unfold commonClosed
  split_ifs with hfirst
  · exact ⟨t, ht, fun id => by simp [hkey id, hfirst]⟩
  · refine ⟨_, TableSet.get?_modify_self _ ht, fun id => ?_⟩
    rw [Table.mem_primaryKeyIds_addParentKeys_iff, hkey id, or_comm]
    simp [hfirst]

/-- The key that the scope of a common hands on contains the key of its finished table. -/
private theorem mem_primaryKeys_commonScope {common : Entity} {commonKeys : List Column}
    (hidentity : ctx.model.HasSimpleIdentity) (hrenames : ctx.model.PlacesRenames)
    (hd : ctx.model.Declares d) (hrule : d.property.kind.tableRule = .common)
    (hreferenced : ctx.model.referencedEntity d.owner d.property = .ok common)
    (hkeys : ctx.model.keys common (commonStrategy d.property s) = .ok commonKeys) {index : Nat}
    {id : String} (hid : id ∈ scope.primaryKeys.map Column.id ∨
      (commonStrategy d.property s).MakesKeys ∧
        ctx.model.FirmKey common (commonStrategy d.property s) id) :
    ∃ c ∈ (ctx.commonScope d common scope s index commonKeys).primaryKeys, c.id = id := by
  have hcommon : common ∈ ctx.model.entities := Model.mem_entities_of_referencedEntity hreferenced
  have hkind : d.property.kind = .common := by
    revert hrule
    cases d.property.kind <;> simp [PropertyKind.tableRule]
  rcases hid with hid | ⟨hmakes, hfirm⟩
  · obtain ⟨c, hc, rfl⟩ := List.mem_map.mp hid
    exact ⟨c.asParentKey, List.mem_append_left _ (List.mem_map_of_mem hc), rfl⟩
  · obtain ⟨c, hc, rfl⟩ := Model.yieldsName_keys_of_firmKey hidentity hrenames hcommon
      (hrenames.of_referencedEntity hd.1 hd.2 (Or.inl hkind) hreferenced) hfirm
    obtain ⟨ch, hch, -, hcolumn⟩ := id hc
    have hflag := hch.isPartOfPrimaryKey hidentity hcommon hcolumn
    have hsuppress : (commonStrategy d.property s).suppressesKeys = false := by
      simpa [Strategy.suppressesKeys] using hmakes.1
    refine ⟨c, List.mem_append_right _ (List.mem_filter.mpr ⟨?_, ?_⟩), rfl⟩
    · exact (Model.mem_keys_iff hkeys).mpr hc
    · rw [hflag, hsuppress]
      rfl

end TableContext

/-! ### Links -/

namespace TableSet

/-- The key of the table that a link leads to is part of the key of the table at its start. -/
def Carried (stored : Schema) (set : TableSet) (l : ParentLink) : Prop :=
  ∃ child parent, set.get? l.child = some child ∧ ParentIs set.tables stored l.target parent ∧
    ∀ id ∈ parent.primaryKeyIds, id ∈ child.primaryKeyIds

/-- What is known about a link that building adds in a scope, all of whose new tables are at a
position or beyond it. Either the link leads to the table that further tables of the scope hang off,
which may not be finished, and its child has the key that the scope hands on; or it leads to a new
table or a stored one, whose key is carried. -/
structure Covered (stored : Schema) (scope : Scope) (start : Nat) (set : TableSet)
    (l : ParentLink) : Prop where
  fresh : start ≤ l.child
  carries : (l.target = scope.parentLink ∧ ∃ child, set.get? l.child = some child ∧
      ∀ c ∈ scope.primaryKeys, c.id ∈ child.primaryKeyIds) ∨
    (∀ j, l.target = .inSet j → start ≤ j) ∧ set.Carried stored l

variable {stored : Schema} {scope inner : Scope} {start start' : Nat} {set next : TableSet}
  {l : ParentLink}

/-- A set in which the tables at the new positions are the same. -/
theorem Covered.mono (h : Covered stored scope start set l)
    (hget : ∀ i t, start ≤ i → set.get? i = some t → next.get? i = some t) :
    Covered stored scope start next l := by
  refine ⟨h.fresh, h.carries.imp ?_ ?_⟩
  · rintro ⟨htarget, child, hchild, hkeys⟩
    exact ⟨htarget, child, hget _ child h.fresh hchild, hkeys⟩
  · rintro ⟨hnew, child, parent, hchild, hparent, hkeys⟩
    refine ⟨hnew, child, parent, hget _ child h.fresh hchild, ?_, hkeys⟩
    cases htarget : l.target with
    | inSet j =>
      rw [htarget] at hparent
      exact hget j parent (hnew j htarget) hparent
    | stored key =>
      rw [htarget] at hparent
      exact hparent

theorem Covered.weaken (h : Covered stored scope start set l) (hle : start' ≤ start) :
    Covered stored scope start' set l :=
  ⟨Nat.le_trans hle h.fresh, h.carries.imp_right fun ⟨hnew, hcarried⟩ =>
    ⟨fun j hj => Nat.le_trans hle (hnew j hj), hcarried⟩⟩

/-- Once the table that the tables of a scope hang off is finished, and the scope has handed on its
whole key, the key is carried. -/
theorem Covered.carried (h : Covered stored inner start set l) {parent : Table}
    (hparent : ParentIs set.tables stored inner.parentLink parent)
    (hkeys : ∀ id ∈ parent.primaryKeyIds, ∃ c ∈ inner.primaryKeys, c.id = id) :
    set.Carried stored l := by
  rcases h.carries with ⟨htarget, child, hchild, hchildKeys⟩ | ⟨-, hcarried⟩
  · refine ⟨child, parent, hchild, htarget ▸ hparent, fun id hid => ?_⟩
    obtain ⟨c, hc, rfl⟩ := hkeys id hid
    exact hchildKeys c hc
  · exact hcarried

/-- The same as seen from the scope further out. -/
theorem Covered.nested (h : Covered stored inner start set l) (hle : start' ≤ start)
    (hlink : ∀ j, inner.parentLink = .inSet j → start' ≤ j) {parent : Table}
    (hparent : ParentIs set.tables stored inner.parentLink parent)
    (hkeys : ∀ id ∈ parent.primaryKeyIds, ∃ c ∈ inner.primaryKeys, c.id = id) :
    Covered stored scope start' set l := by
  refine ⟨Nat.le_trans hle h.fresh, Or.inr ⟨fun j hj => ?_, h.carried hparent hkeys⟩⟩
  rcases h.carries with ⟨htarget, -⟩ | ⟨hnew, -⟩
  · exact hlink j (htarget.symm.trans hj)
  · exact Nat.le_trans hle (hnew j hj)

/-- A new table that hangs off the table of the scope and has the key that the scope hands on. -/
theorem covered_push_link {t : Table} {r : ForeignKeyReason}
    (ht : ∀ c ∈ scope.primaryKeys, c.id ∈ t.primaryKeyIds) :
    ∀ l ∈ ((set.push t).link set.next scope.parentLink r).links, l ∈ set.links ∨
      Covered stored scope set.next ((set.push t).link set.next scope.parentLink r) l := by
  intro l hl
  rcases List.mem_append.mp hl with hl | hl
  · exact Or.inl hl
  · rw [List.mem_singleton.mp hl]
    obtain ⟨owner, hget⟩ := set.get?_push_next t
    exact Or.inr ⟨Nat.le_refl _, Or.inl ⟨rfl, _, hget, ht⟩⟩

end TableSet

namespace TableContext

variable {ctx : TableContext} {ds : List Declaration} {scope : Scope} {s : Strategy}
  {set next : TableSet}

private theorem next_commonClosed (index : Nat) :
    (ctx.commonClosed scope index set).next = set.next := by
  unfold commonClosed
  split_ifs <;> simp

private theorem next_linkOrDiscard (index : Nat) (key : TableKey) (r : ForeignKeyReason) :
    (linkOrDiscard index key r set).next = set.next :=
  congrArg List.length (tables_linkOrDiscard index key r set)

theorem Built.next_le (h : ctx.Built ds scope s set next) : set.next ≤ next.next := by
  induction h with
  | nil | lookupSkipped | referenceSkipped => exact Nat.le_refl _
  | cons _ _ ihhead ihtail => exact Nat.le_trans ihhead ihtail
  | column | lookup | reference => simp [Scope.addColumns]
  | collection | referenceCollection => simp
  | common _ _ _ _ ih =>
    rw [TableSet.next_push] at ih
    rw [TableSet.next_link, next_commonClosed]
    omega
  | commonExtension _ _ _ _ ih =>
    rw [TableSet.next_push] at ih
    rw [next_linkOrDiscard]
    omega
  | choice _ _ _ ih | inlineCommon _ _ _ ih => exact ih

/-- The links that a table adding columns to a stored one brings with it: those of the tables built
with it, and its own. -/
private theorem covered_linkOrDiscard {index : Nat} {key : TableKey} {r : ForeignKeyReason}
    {parent child : Table} {namespaceName : String} {mid : TableSet}
    (hparent : ctx.stored.get? key = some parent) (hchild : mid.get? index = some child)
    (hkeys : ∀ id ∈ parent.primaryKeyIds, id ∈ child.primaryKeyIds)
    (hmid : ∀ l ∈ mid.links, l ∈ set.links ∨ TableSet.Covered ctx.stored
      (Scope.detached index namespaceName parent key) (index + 1) mid l) :
    ∀ l ∈ (linkOrDiscard index key r mid).links, l ∈ set.links ∨
      TableSet.Covered ctx.stored scope index (linkOrDiscard index key r mid) l := by
  have hget (i : Nat) : (linkOrDiscard index key r mid).get? i = mid.get? i :=
    get?_linkOrDiscard i index key r
  intro l hl
  rcases mem_links_linkOrDiscard hl with hl | rfl
  · refine (hmid l hl).imp_right fun hcovered => ?_
    have hsame : TableSet.Covered ctx.stored (Scope.detached index namespaceName parent key)
        (index + 1) (linkOrDiscard index key r mid) l :=
      hcovered.mono fun i t _ ht => (hget i).trans ht
    refine hsame.nested (Nat.le_succ _) (fun j hj => by simp [Scope.detached] at hj) hparent ?_
    exact fun id hid => List.mem_map.mp hid
  · refine Or.inr ⟨Nat.le_refl _, Or.inr ⟨fun j hj => by simp at hj, ?_⟩⟩
    exact ⟨child, parent, (hget index).trans hchild, hparent, hkeys⟩

/-- Every link that building adds is covered. -/
theorem Built.covered (hidentity : ctx.model.HasSimpleIdentity)
    (hrenames : ctx.model.PlacesRenames) (h : ctx.Built ds scope s set next)
    (hds : ∀ d ∈ ds, ctx.model.Declares d) (hscope : scope.table < set.next) :
    ∀ l ∈ next.links, l ∈ set.links ∨ TableSet.Covered ctx.stored scope set.next next l := by
  have hself {d : Declaration} : d ∈ [d] := List.mem_singleton.mpr rfl
  induction h with
  | nil | lookupSkipped | referenceSkipped | column | lookup | reference =>
    exact fun l hl => Or.inl hl
  | cons head tail ihhead ihtail =>
    obtain ⟨hd, hrest⟩ := List.forall_mem_cons.mp hds
    have hle := head.next_le
    intro l hl
    rcases ihtail hrest (by omega) l hl with hl | hcovered
    · refine (ihhead (by simpa using hd) hscope l hl).imp_right fun hcovered => ?_
      -- the rest changes the table of the scope only, which is not among the new ones
      exact hcovered.mono fun i t hi ht => tail.get?_eq_some ht (by omega)
    · exact Or.inr (hcovered.weaken hle)
  | collection => exact TableSet.covered_push_link fun c hc => mem_primaryKeyIds_collectionJoin hc
  | referenceCollection =>
    exact TableSet.covered_push_link fun c hc => mem_primaryKeyIds_referenceJoin hc
  | @common d scope s set mid common commonKeys hrule hreferenced hkeys inner ih =>
    have hcommon := Model.mem_entities_of_referencedEntity hreferenced
    have hmid := ih (fun _ => Model.declares_of_mem hcommon) (by simp [commonScope, Scope.descend,
      Scope.root])
    obtain ⟨t, ht, hkey⟩ := exists_key_of_common inner
    intro l hl
    have hlinks : (ctx.commonClosed scope set.next mid).links = mid.links := by
      unfold commonClosed
      split_ifs <;> rfl
    rcases List.mem_append.mp hl with hl | hl
    · rw [hlinks] at hl
      refine (hmid l hl).imp_right fun hcovered => ?_
      rw [TableSet.next_push] at hcovered
      have hclosed : TableSet.Covered ctx.stored
          (ctx.commonScope d common scope s set.next commonKeys) (set.next + 1)
          ((ctx.commonClosed scope set.next mid).link set.next scope.parentLink .common) l :=
        hcovered.mono fun i t hi ht => (get?_commonClosed (by omega)).trans ht
      refine hclosed.nested (Nat.le_succ _) (fun j hj => ?_) ht fun id hid => ?_
      · exact Nat.le_of_eq (LinkTarget.inSet.inj hj)
      · exact mem_primaryKeys_commonScope hidentity hrenames (hds d hself) hrule hreferenced hkeys
          ((hkey id).mp hid)
    · rw [List.mem_singleton.mp hl]
      refine Or.inr ⟨Nat.le_refl _, Or.inl ⟨rfl, t, ht, fun c hc => ?_⟩⟩
      exact (hkey c.id).mpr (Or.inl (List.mem_map_of_mem hc))
  | @commonExtension d scope s set mid extension parent hrule hreferenced hstored inner ih =>
    have hextension := Model.mem_entities_of_referencedEntity hreferenced
    have hmid := ih (fun _ => Model.declares_of_mem hextension) (by simp [Scope.detached])
    obtain ⟨owner, hstart⟩ :=
      set.get?_push_next (ctx.suffixedTable extension parent .commonExtension)
    obtain ⟨t, ht, hgains⟩ := inner.exists_gainsKeys hstart
    rw [TableSet.next_push] at hmid
    refine covered_linkOrDiscard hstored ht (fun id hid => (hgains id).mpr (Or.inl ?_)) hmid
    exact mem_primaryKeyIds_suffixedTable hid
  | choice _ hreferenced _ ih | inlineCommon _ hreferenced _ ih =>
    have hentity := Model.mem_entities_of_referencedEntity hreferenced
    have hinner := ih (fun _ => Model.declares_of_mem hentity) hscope
    -- the scope inside has the same link and key
    exact fun l hl => (hinner l hl).imp_right fun hcovered => ⟨hcovered.fresh, hcovered.carries⟩

/-- The tables of a domain entity or association carry the keys of the tables they hang off. -/
theorem carried_of_mainTable {e : Entity} (hidentity : ctx.model.HasSimpleIdentity)
    (hrenames : ctx.model.PlacesRenames) (he : e ∈ ctx.model.mainEntities)
    (h : ctx.mainTable e .main = .ok set) : ∀ l ∈ set.links, set.Carried ctx.stored l := by
  obtain ⟨keys, inherited, hkeys, -, hbuilt⟩ := built_of_mainTable h
  obtain ⟨t, ht, hfirm⟩ := exists_firmKey_of_mainTable he h
  have hentity : e ∈ ctx.model.entities := (List.mem_filter.mp he).1
  intro l hl
  rcases hbuilt.covered hidentity hrenames (fun _ => Model.declares_of_mem hentity)
    (by simp [Scope.root]) l hl with hl | hcovered
  · simp [TableSet.empty] at hl
  · have hparent : TableSet.ParentIs set.tables ctx.stored (.inSet 0) t := ht
    refine hcovered.carried hparent fun id hid => ?_
    obtain ⟨c, hc, hid⟩ := Model.yieldsName_keys_of_firmKey hidentity hrenames hentity
      (by simp [Model.not_isSubclass_of_mem_mainEntities he]) ((hfirm id).mp hid)
    exact ⟨c, (Model.mem_keys_iff hkeys).mpr hc, hid⟩

/-- The tables of an extension carry the keys of the tables they hang off. -/
theorem carried_of_extensionTable {e : Entity} (hidentity : ctx.model.HasSimpleIdentity)
    (hrenames : ctx.model.PlacesRenames) (he : e ∈ ctx.model.entities)
    (h : ctx.extensionTable e = .ok set) : ∀ l ∈ set.links, set.Carried ctx.stored l := by
  obtain ⟨base, key, parent, mid, -, -, hparent, hbuilt, rfl⟩ := built_of_extensionTable h
  obtain ⟨owner, hstart⟩ :=
    TableSet.get?_push_next (.empty e.id) (ctx.suffixedTable e parent .extension)
  obtain ⟨t, ht, hgains⟩ := hbuilt.exists_gainsKeys hstart
  have hmid := hbuilt.covered hidentity hrenames (fun _ => Model.declares_of_mem he)
    (by simp [Scope.detached])
  have hlinks : ∀ l ∈ (linkOrDiscard 0 key .extension mid).links,
      l ∈ (TableSet.empty e.id).links ∨ TableSet.Covered ctx.stored
        (Scope.detached 0 e.namespaceName parent key) 0 (linkOrDiscard 0 key .extension mid) l :=
    covered_linkOrDiscard hparent ht
      (fun id hid => (hgains id).mpr (Or.inl (mem_primaryKeyIds_suffixedTable hid))) hmid
  intro l hl
  rcases hlinks l hl with hl | hcovered
  · simp [TableSet.empty] at hl
  · exact hcovered.carried hparent fun id hid => List.mem_map.mp hid

end TableContext

end Tabular
