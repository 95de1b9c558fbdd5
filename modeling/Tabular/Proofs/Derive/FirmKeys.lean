import Mathlib.Tactic.Common
import Tabular.Inheritance
import Tabular.Proofs.Derive.Contributions
import Tabular.Proofs.Reference.Sources
import Tabular.Proofs.Schema.KeyColumns

/-!
# The key that is collected and the key that is built

The key of an entity is worked out twice. It is collected from the identity properties and the
inline commons, to be handed on to further tables and to references; and the table of the entity
comes by its key columns one by one while its properties are built. The two recursions differ where
an inline common is optional: its columns are nullable in the table, while its key is collected all
the same. They also differ where an inline common leads to a subclass, whose inherited key is
collected and whose identity rename is built.

## Main definitions

* `Model.HasSimpleIdentity`: identity properties are single values and no commons or choices.
* `Strategy.MakesKeys`: identity properties have key columns under the strategy.
* `Model.Embeds`: one entity is reached from another through inline commons that are not optional.
* `Model.FirmKey`, `Model.LooseKey`, `Model.StrayKey`: the names of key columns that the table has,
  that are collected without counterpart, and that are built without counterpart.

## Main results

* `TableContext.Built.exists_gainsKeys`: the key of a table after building.
* `Model.yieldsName_keys_iff`, `Model.firmKey_iff`: the two keys.
* `keys_eq_primaryKeyIds_iff`: when the two keys are the same.
-/

namespace Tabular

/-! ### Models -/

/-- Every identity property of the model holds a single value, and it is neither a common nor a
choice. -/
def Model.HasSimpleIdentity (m : Model) : Prop :=
  ∀ e ∈ m.entities, ∀ p ∈ e.properties, p.isPartOfIdentity = true →
    p.isCollection = false ∧ p.kind ≠ .common ∧ p.kind ≠ .choice

instance (m : Model) : Decidable m.HasSimpleIdentity :=
  inferInstanceAs (Decidable (∀ e ∈ m.entities, ∀ p ∈ e.properties, p.isPartOfIdentity = true →
    p.isCollection = false ∧ p.kind ≠ .common ∧ p.kind ≠ .choice))

namespace Entity

variable {e : Entity} {d : Declaration}

theorem mem_plainIdentity_iff : d ∈ e.plainIdentity ↔
    d ∈ e.declarations ∧ d.property.isPartOfIdentity = true ∧ d.property.kind ≠ .inlineCommon := by
  simp [plainIdentity]

theorem mem_inlineCommons_iff : d ∈ e.inlineCommons ↔
    d ∈ e.declarations ∧ d.property.kind = .inlineCommon := by
  simp [inlineCommons]

/-- A subclass adds its identity properties except for the renames. -/
theorem mem_addedIdentity_iff : d ∈ e.addedIdentity ↔ d ∈ e.plainIdentity ∧
    ¬(e.kind.isSubclass = true ∧ d.property.isIdentityRename = true) := by
  rw [addedIdentity, List.mem_filter]
  cases e.kind.isSubclass <;> simp

theorem owner_of_mem_declarations (hd : d ∈ e.declarations) : d.owner = e :=
  (mem_declarations_iff.mp hd).1

theorem property_mem_of_mem_declarations (hd : d ∈ e.declarations) : d.property ∈ e.properties :=
  List.mem_of_getElem? (mem_declarations_iff.mp hd).2

theorem exists_declaration_of_mem {p : Property} (hp : p ∈ e.properties) :
    ∃ d ∈ e.declarations, d.property = p := by
  obtain ⟨i, hi⟩ := List.mem_iff_getElem?.mp hp
  exact ⟨⟨e, i, p⟩, mem_declarations_iff.mpr ⟨rfl, hi⟩, rfl⟩

end Entity

/-- The identity properties of an entity that are no inline commons are single scalars, lookups and
references. -/
theorem Model.HasSimpleIdentity.mem_plainIdentity_iff {m : Model} (h : m.HasSimpleIdentity)
    {e : Entity} (he : e ∈ m.entities) {d : Declaration} : d ∈ e.plainIdentity ↔
      d ∈ e.declarations ∧ d.property.isPartOfIdentity = true ∧
        d.property.kind.columnRule ≠ .composite ∧ d.property.isCollection = false := by
  rw [Entity.mem_plainIdentity_iff]
  refine and_congr_right fun hd => and_congr_right fun hidentity => ?_
  obtain ⟨hsingle, hcommon, hchoice⟩ :=
    h e he d.property (Entity.property_mem_of_mem_declarations hd) hidentity
  cases hkind : d.property.kind <;> simp_all [PropertyKind.columnRule]

/-! ### Flags of columns -/

namespace Strategy

/-- Under the strategy the columns of identity properties belong to the key: it neither suppresses
keys nor makes columns nullable. -/
def MakesKeys (s : Strategy) : Prop :=
  Layer.suppressKeys ∉ s.layers ∧ Layer.leafNullable ∉ s.layers

theorem makesKeys_root : root.MakesKeys := by
  simp [MakesKeys, root]

theorem makesKeys_append_iff (s : Strategy) (p : Property) :
    (s.append p).MakesKeys ↔ s.MakesKeys := by
  unfold MakesKeys
  rw [mem_layers_append_iff rfl rfl, mem_layers_append_iff rfl rfl]

theorem not_makesKeys_leafNullable (s : Strategy) : ¬s.leafNullable.MakesKeys := by
  simp [MakesKeys, leafNullable, push]

end Strategy

@[simp] theorem Scope.isPartOfPrimaryKey_place (scope : Scope) (c : Column) :
    (scope.place c).isPartOfPrimaryKey = c.isPartOfPrimaryKey := by
  unfold place
  induction scope.path with
  | nil => rfl
  | cons name rest ih => exact ih

@[simp] theorem isPartOfPrimaryKey_leafColumn (d : Declaration) (s : Strategy)
    (naming : ColumnNaming) (type : ScalarType) :
    (leafColumn d s naming type).isPartOfPrimaryKey =
      (d.property.isPartOfIdentity && !s.suppressesKeys) := by
  simp only [leafColumn]
  split_ifs with hkey
  · simp only [Column.primaryKey, hkey]
  · simpa [Column.nullable, Column.ofType] using hkey
  · simpa [Column.ofType] using hkey

@[simp] theorem isPartOfPrimaryKey_referenceTransform (p : Property) (s : Strategy) (c : Column) :
    ((TableContext.referenceTransform p s).apply c).isPartOfPrimaryKey =
      (p.isPartOfIdentity && !s.suppressesKeys) := by
  unfold TableContext.referenceTransform
  split_ifs with hkey
  · simp only [ColumnTransform.apply, Column.primaryKey, hkey]
  · simpa [ColumnTransform.apply, Column.nullable] using hkey
  · simpa [ColumnTransform.apply, Column.notNull] using hkey

/-- The key columns among those that a property adds to the table of a scope: all of them if the
property is part of the identity and the strategy makes keys, and none otherwise. -/
theorem hasKey_map_place_iff {scope : Scope} {s : Strategy} {f : ColumnTransform} {p : Property}
    {cs : List Column} {id : String} (hflag : ∀ c ∈ cs,
      (f.apply c).isPartOfPrimaryKey = (p.isPartOfIdentity && !s.suppressesKeys)) :
    HasKey (cs.map fun c => scope.place ((s.leafColumns f).apply c)) id ↔
      s.MakesKeys ∧ p.isPartOfIdentity = true ∧ ∃ c ∈ cs, c.id = id := by
  have hkey (c : Column) (hc : c ∈ cs) :
      ((s.leafColumns f).apply c).isPartOfPrimaryKey = true ↔
        s.MakesKeys ∧ p.isPartOfIdentity = true := by
    unfold Strategy.leafColumns Strategy.MakesKeys
    split_ifs with hnullable
    · simp [ColumnTransform.apply, Column.nullable, hnullable]
    · rw [hflag c hc]
      simp [hnullable, Strategy.suppressesKeys, and_comm]
  constructor
  · rintro ⟨_, hmem, rfl, hflagged⟩
    obtain ⟨c, hc, rfl⟩ := List.mem_map.mp hmem
    rw [Scope.isPartOfPrimaryKey_place, hkey c hc] at hflagged
    exact ⟨hflagged.1, hflagged.2, c, hc, by simp⟩
  · rintro ⟨hkeys, hidentity, c, hc, rfl⟩
    refine ⟨_, List.mem_map.mpr ⟨c, hc, rfl⟩, by simp, ?_⟩
    rw [Scope.isPartOfPrimaryKey_place, hkey c hc]
    exact ⟨hkeys, hidentity⟩

/-! ### Embedded entities -/

namespace Model

/-- Some column of the given name is among those asked for. -/
def YieldsName (m : Model) (q : Query) (s : Strategy) (id : String) : Prop :=
  ∃ c, m.Yields q s c ∧ c.id = id

/-- The second entity is reached from the first through inline commons none of which is optional,
and the strategy changes accordingly on the way. -/
inductive Embeds (m : Model) : Entity → Strategy → Entity → Strategy → Prop
  | self {e : Entity} {s : Strategy} : m.Embeds e s e s
  | through {e f g : Entity} {s s' : Strategy} {d : Declaration} (hd : d ∈ e.inlineCommons)
      (hrequired : d.property.isOptional = false) (hf : m.referencedEntity e d.property = .ok f)
      (rest : m.Embeds f (s.append d.property) g s') : m.Embeds e s g s'

/-- The entity or one that it embeds has a property that depends on the strategy. -/
def EmbedsWith (m : Model) (P : Entity → Strategy → Prop) (e : Entity) (s : Strategy) : Prop :=
  ∃ f s', m.Embeds e s f s' ∧ P f s'

/-- An identity property of a single value writes a key column of the given name. -/
def OwnKey (m : Model) (d : Declaration) (s : Strategy) (id : String) : Prop :=
  d.property.isPartOfIdentity = true ∧ d.property.kind.columnRule ≠ .composite ∧
    d.property.isCollection = false ∧ m.YieldsName (.columns d) s id

/-- The table of the entity has a key column of the given name: an identity property of the entity,
or of one that it embeds, writes it. -/
def FirmKey (m : Model) (e : Entity) (s : Strategy) (id : String) : Prop :=
  m.EmbedsWith (fun f s' => ∃ d ∈ f.declarations, m.OwnKey d s' id) e s

/-- The collected key has a column of the given name that comes from an optional inline common or
that an embedded subclass inherits. -/
def LooseKey (m : Model) (e : Entity) (s : Strategy) (id : String) : Prop :=
  m.EmbedsWith (fun f s' => (f.kind.isSubclass = true ∧ m.YieldsName (.inherited f) s' id) ∨
    ∃ d ∈ f.inlineCommons, d.property.isOptional = true ∧
      ∃ g, m.referencedEntity f d.property = .ok g ∧
        m.YieldsName (.keys g) (s'.append d.property) id) e s

/-- The table of the entity has a key column of the given name that comes from the identity rename
of an embedded subclass. -/
def StrayKey (m : Model) (e : Entity) (s : Strategy) (id : String) : Prop :=
  m.EmbedsWith (fun f s' => f.kind.isSubclass = true ∧ ∃ d ∈ f.plainIdentity,
    d.property.isIdentityRename = true ∧ m.YieldsName (.columns d) s' id) e s

/-- A key column of the given name that the entity, or one that it embeds, adds itself. It is
collected and built alike. -/
def AddedKey (m : Model) (e : Entity) (s : Strategy) (id : String) : Prop :=
  m.EmbedsWith (fun f s' => ∃ d ∈ f.addedIdentity, m.YieldsName (.columns d) s' id) e s

variable {m : Model} {e : Entity} {s : Strategy} {id : String} {P Q : Entity → Strategy → Prop}

theorem Embeds.mem_entities {f : Entity} {s' : Strategy} (h : m.Embeds e s f s')
    (he : e ∈ m.entities) : f ∈ m.entities := by
  induction h with
  | self => exact he
  | through _ _ hf _ ih => exact ih (mem_entities_of_referencedEntity hf)

/-- The entity itself, or one that an inline common leads to, embeds what the entity embeds. -/
theorem embedsWith_iff : m.EmbedsWith P e s ↔ P e s ∨
    ∃ d ∈ e.inlineCommons, d.property.isOptional = false ∧
      ∃ f, m.referencedEntity e d.property = .ok f ∧
        m.EmbedsWith P f (s.append d.property) := by
  constructor
  · rintro ⟨g, s', h, hP⟩
    cases h with
    | self => exact Or.inl hP
    | through hd hrequired hf rest => exact Or.inr ⟨_, hd, hrequired, _, hf, g, s', rest, hP⟩
  · rintro (hP | ⟨d, hd, hrequired, f, hf, g, s', rest, hP⟩)
    · exact ⟨e, s, .self, hP⟩
    · exact ⟨g, s', .through hd hrequired hf rest, hP⟩

theorem embedsWith_or_iff : m.EmbedsWith (fun f s' => P f s' ∨ Q f s') e s ↔
    m.EmbedsWith P e s ∨ m.EmbedsWith Q e s := by
  simp only [EmbedsWith, and_or_left, exists_or]

theorem embedsWith_congr (he : e ∈ m.entities)
    (h : ∀ f ∈ m.entities, ∀ s', P f s' ↔ Q f s') : m.EmbedsWith P e s ↔ m.EmbedsWith Q e s :=
  exists_congr fun f => exists_congr fun s' => and_congr_right fun hembeds =>
    h f (hembeds.mem_entities he) s'

/-! ### The collected key -/

/-- A key column of an embedded entity is a key column of the entity. -/
theorem Embeds.yieldsName_keys {f : Entity} {s' : Strategy} (h : m.Embeds e s f s')
    (hid : m.YieldsName (.keys f) s' id) : m.YieldsName (.keys e) s id := by
  induction h with
  | self => exact hid
  | through hd _ hf _ ih =>
    obtain ⟨c, hc, rfl⟩ := ih hid
    exact ⟨_, yields_keys_iff.mpr (Or.inr (Or.inr ⟨_, hd, _, hf, c, hc, rfl⟩)), rfl⟩

/-- The column at the end of a chain to the key of an entity is added or loose. -/
private theorem added_or_loose_of_chain {q : Query} {ch : List Hop} (h : m.Chain q ch) :
    ∀ (e : Entity), q = .keys e → ∀ (s : Strategy) (c : Column), s.admits ch = true →
      s.columnOf? ch = some c → m.AddedKey e s c.id ∨ m.LooseKey e s c.id := by
  -- induction on the chain: beyond an inline common that is not optional it is shorter
  induction h with
  | leaf | composite | reference | baseInherits | baseAdds | baseInlines =>
    intro e he
    cases he
  | @inherits e rest hkind next =>
    rintro _ ⟨⟩ s c hadmits hc
    exact Or.inr ⟨e, s, .self, Or.inl ⟨hkind, c, ⟨rest, next, hadmits, hc⟩, rfl⟩⟩
  | @adds e d rest hd next =>
    rintro _ ⟨⟩ s c hadmits hc
    exact Or.inl ⟨e, s, .self, d, hd, c, ⟨rest, next, hadmits, hc⟩, rfl⟩
  | @inlines e f d rest hd hf next ih =>
    rintro _ ⟨⟩ s c hadmits hc
    rw [next.columnOf?_cons, Option.map_eq_some_iff] at hc
    obtain ⟨c', hc', rfl⟩ := hc
    have hadmits' : (s.append d.property).admits rest = true := by
      simpa [Strategy.admits, Strategy.passes, Strategy.inside] using hadmits
    cases hoptional : d.property.isOptional with
    | true =>
      refine Or.inr ⟨e, s, .self, Or.inr ⟨d, hd, hoptional, f, hf, c', ?_, rfl⟩⟩
      exact ⟨rest, next, hadmits', hc'⟩
    | false =>
      refine (ih f rfl _ c' hadmits' hc').imp ?_ ?_ <;>
        exact fun hkey => embedsWith_iff.mpr (Or.inr ⟨d, hd, hoptional, f, hf, hkey⟩)

/-- The collected key consists of added and loose columns. -/
theorem yieldsName_keys_iff :
    m.YieldsName (.keys e) s id ↔ m.AddedKey e s id ∨ m.LooseKey e s id := by
  constructor
  · rintro ⟨c, ⟨ch, hch, hadmits, hc⟩, rfl⟩
    exact added_or_loose_of_chain hch e rfl s c hadmits hc
  · rintro (⟨f, s', hembeds, d, hd, c, hc, rfl⟩ |
      ⟨f, s', hembeds, ⟨hkind, c, hc, rfl⟩ | ⟨d, hd, -, g, hg, c, hc, rfl⟩⟩)
    · exact hembeds.yieldsName_keys ⟨c, yields_keys_iff.mpr (Or.inr (Or.inl ⟨d, hd, hc⟩)), rfl⟩
    · exact hembeds.yieldsName_keys ⟨c, yields_keys_iff.mpr (Or.inl ⟨hkind, hc⟩), rfl⟩
    · exact hembeds.yieldsName_keys
        ⟨_, yields_keys_iff.mpr (Or.inr (Or.inr ⟨d, hd, g, hg, c, hc, rfl⟩)), rfl⟩

/-! ### The key that is built -/

/-- The key that is built consists of added and stray columns. -/
theorem firmKey_iff (hidentity : m.HasSimpleIdentity) (he : e ∈ m.entities) :
    m.FirmKey e s id ↔ m.AddedKey e s id ∨ m.StrayKey e s id := by
  rw [AddedKey, StrayKey, ← embedsWith_or_iff]
  refine embedsWith_congr he fun f hf s' => ?_
  have hown {d : Declaration} : (d ∈ f.declarations ∧ m.OwnKey d s' id) ↔
      d ∈ f.plainIdentity ∧ m.YieldsName (.columns d) s' id := by
    rw [hidentity.mem_plainIdentity_iff hf, OwnKey]
    tauto
  simp only [hown, Entity.mem_addedIdentity_iff]
  constructor
  · rintro ⟨d, hd, hyields⟩
    by_cases hrename : f.kind.isSubclass = true ∧ d.property.isIdentityRename = true
    · exact Or.inr ⟨hrename.1, d, hd, hrename.2, hyields⟩
    · exact Or.inl ⟨d, ⟨hd, hrename⟩, hyields⟩
  · rintro (⟨d, ⟨hd, -⟩, hyields⟩ | ⟨-, d, hd, -, hyields⟩) <;> exact ⟨d, hd, hyields⟩

/-- A property writes a key column of the given name into the table of its scope: its own, or one
of an inline common that is not optional. -/
def WritesKey (m : Model) (d : Declaration) (s : Strategy) (id : String) : Prop :=
  m.OwnKey d s id ∨ d.property.kind.tableRule = .inlineCommon ∧ d.property.isOptional = false ∧
    ∃ f, m.referencedEntity d.owner d.property = .ok f ∧ m.FirmKey f (s.append d.property) id

theorem exists_writesKey_iff :
    (∃ d ∈ e.declarations, m.WritesKey d s id) ↔ m.FirmKey e s id := by
  have hinline (d : Declaration) : d ∈ e.inlineCommons ↔
      d ∈ e.declarations ∧ d.property.kind.tableRule = .inlineCommon := by
    rw [Entity.mem_inlineCommons_iff]
    cases d.property.kind <;> simp [PropertyKind.tableRule]
  rw [FirmKey, embedsWith_iff]
  constructor
  · rintro ⟨d, hd, hown | ⟨hrule, hrequired, f, hf, hkey⟩⟩
    · exact Or.inl ⟨d, hd, hown⟩
    · rw [Entity.owner_of_mem_declarations hd] at hf
      exact Or.inr ⟨d, (hinline d).mpr ⟨hd, hrule⟩, hrequired, f, hf, hkey⟩
  · rintro (⟨d, hd, hown⟩ | ⟨d, hd, hrequired, f, hf, hkey⟩)
    · exact ⟨d, hd, Or.inl hown⟩
    · obtain ⟨hmem, hrule⟩ := (hinline d).mp hd
      rw [← Entity.owner_of_mem_declarations hmem] at hf
      exact ⟨d, hmem, Or.inr ⟨hrule, hrequired, f, hf, hkey⟩⟩

end Model

/-- The key of the second table is the key of the first together with what properties write into
it under a strategy. -/
def Table.GainsKeys (m : Model) (ds : List Declaration) (s : Strategy) (t t' : Table) : Prop :=
  ∀ id, id ∈ t'.primaryKeyIds ↔
    id ∈ t.primaryKeyIds ∨ s.MakesKeys ∧ ∃ d ∈ ds, m.WritesKey d s id

namespace Table.GainsKeys

variable {m : Model} {ds : List Declaration} {d : Declaration} {s : Strategy} {t t' t'' : Table}

/-- Properties that write no key columns leave the key as it is. -/
theorem of_not_writesKey (h : ∀ d ∈ ds, ∀ id, ¬m.WritesKey d s id) : GainsKeys m ds s t t := by
  intro id
  have hnone : ¬∃ d ∈ ds, m.WritesKey d s id := fun ⟨d, hd, hkey⟩ => h d hd id hkey
  simp [hnone]

/-- One property after the other. -/
theorem cons {rest : List Declaration} (head : GainsKeys m [d] s t t')
    (tail : GainsKeys m rest s t' t'') : GainsKeys m (d :: rest) s t t'' := by
  intro id
  rw [tail id, head id]
  simp only [List.mem_cons, exists_eq_or_imp]
  tauto

/-- A scalar, lookup or reference adds its columns. -/
theorem of_columns {scope : Scope} {v : Version} {f : ColumnTransform} {columns : List Column}
    (hrule : d.property.kind.columnRule ≠ .composite) (hsingle : d.property.isCollection = false)
    (hcolumns : m.columns d s = .ok columns)
    (hflag : ∀ c ∈ columns, (f.apply c).isPartOfPrimaryKey =
      (d.property.isPartOfIdentity && !s.suppressesKeys))
    (htable : t'.primaryKeyIds = (t.addColumns v
      (columns.map fun c => scope.place ((s.leafColumns f).apply c))).primaryKeyIds) :
    GainsKeys m [d] s t t' := by
  intro id
  have hinline : d.property.kind.tableRule ≠ .inlineCommon := fun h =>
    hrule ((PropertyKind.columnRule_eq_composite_iff _).mpr (Or.inr (Or.inr h)))
  have hwrites : m.WritesKey d s id ↔
      d.property.isPartOfIdentity = true ∧ ∃ c ∈ columns, c.id = id := by
    simp [Model.WritesKey, Model.OwnKey, Model.YieldsName, Model.mem_columns_iff hcolumns, hrule,
      hsingle, hinline]
  rw [htable, Table.mem_primaryKeyIds_addColumns_iff, hasKey_map_place_iff hflag]
  simp [hwrites]

/-- A choice makes the columns of its properties nullable and gives the table no key columns. -/
theorem of_choice {e : Entity} (hrule : d.property.kind.tableRule = .choice)
    (inner : GainsKeys m e.declarations s.leafNullable t t') : GainsKeys m [d] s t t' := by
  intro id
  have hcomposite : d.property.kind.columnRule = .composite :=
    (PropertyKind.columnRule_eq_composite_iff _).mpr (Or.inr (Or.inl hrule))
  rw [inner id]
  simp [Strategy.not_makesKeys_leafNullable, Model.WritesKey, Model.OwnKey, hcomposite, hrule]

/-- An inline common gives the table the key columns of its properties unless it is optional. -/
theorem of_inlineCommon {e : Entity} (hrule : d.property.kind.tableRule = .inlineCommon)
    (he : m.referencedEntity d.owner d.property = .ok e)
    (inner : GainsKeys m e.declarations (TableContext.inlineStrategy d.property s) t t') :
    GainsKeys m [d] s t t' := by
  intro id
  have hcomposite : d.property.kind.columnRule = .composite :=
    (PropertyKind.columnRule_eq_composite_iff _).mpr (Or.inr (Or.inr hrule))
  have hwrites : m.WritesKey d s id ↔ d.property.isOptional = false ∧
      m.FirmKey e (s.append d.property) id := by
    simp [Model.WritesKey, Model.OwnKey, hcomposite, hrule, he]
  rw [inner id, Model.exists_writesKey_iff]
  unfold TableContext.inlineStrategy
  split_ifs with hoptional
  · simp [Strategy.not_makesKeys_leafNullable, hwrites, hoptional]
  · simp [hwrites, hoptional, Strategy.makesKeys_append_iff]

end Table.GainsKeys

namespace TableContext

variable {ctx : TableContext} {ds : List Declaration} {scope : Scope} {s : Strategy}
  {set next : TableSet}

/-- The column of a scalar or lookup is part of the key if the property is part of the identity and
keys are not suppressed. -/
private theorem isPartOfPrimaryKey_of_leaf {m : Model} {d : Declaration} {columns : List Column}
    (hrule : d.property.kind.tableRule = .scalar ∨ d.property.kind.tableRule = .lookup)
    (hcolumns : m.columns d s = .ok columns) : ∀ c ∈ columns,
      (ColumnTransform.unchanged.apply c).isPartOfPrimaryKey =
        (d.property.isPartOfIdentity && !s.suppressesKeys) := by
  intro c hc
  have hleaf : d.property.kind.columnRule.isLeaf = true := by
    rcases hrule with h | h <;> revert h <;>
      cases d.property.kind <;> simp [PropertyKind.tableRule, PropertyKind.columnRule,
        ColumnRule.isLeaf]
  have hyields := (Model.mem_columns_iff hcolumns).mp hc
  obtain ⟨naming, type, rfl⟩ := exists_leafColumn_of_leafColumn?
    ((Model.yields_leaf_iff hleaf).mp hyields).2
  exact isPartOfPrimaryKey_leafColumn d s naming type

/-- A collection writes no key columns into the table of its owner. -/
private theorem not_writesKey_collection {m : Model} {d : Declaration}
    (hcollection : d.property.isCollection = true)
    (hrule : d.property.kind.columnRule ≠ .composite) (id : String) : ¬m.WritesKey d s id := by
  have hinline : d.property.kind.tableRule ≠ .inlineCommon := fun h =>
    hrule ((PropertyKind.columnRule_eq_composite_iff _).mpr (Or.inr (Or.inr h)))
  simp [Model.WritesKey, Model.OwnKey, hcollection, hinline]

/-- A common writes no key columns into the table of its owner. -/
private theorem not_writesKey_common {m : Model} {d : Declaration}
    (hrule : d.property.kind.tableRule = .common) (id : String) : ¬m.WritesKey d s id := by
  have hcomposite : d.property.kind.columnRule = .composite :=
    (PropertyKind.columnRule_eq_composite_iff _).mpr (Or.inl hrule)
  simp [Model.WritesKey, Model.OwnKey, hcomposite, hrule]

/-- A scalar, lookup or reference without columns writes no key columns. -/
private theorem not_writesKey_of_not_yields {m : Model} {d : Declaration}
    (hrule : d.property.kind.columnRule ≠ .composite)
    (hnone : ∀ c, ¬m.Yields (.columns d) s c) (id : String) : ¬m.WritesKey d s id := by
  have hinline : d.property.kind.tableRule ≠ .inlineCommon := fun h =>
    hrule ((PropertyKind.columnRule_eq_composite_iff _).mpr (Or.inr (Or.inr h)))
  simp [Model.WritesKey, Model.OwnKey, Model.YieldsName, hnone, hinline]

/-- Building gives the table of its scope the key columns that the properties write, and takes none
away. -/
theorem Built.exists_gainsKeys (h : ctx.Built ds scope s set next) {t : Table}
    (ht : set.get? scope.table = some t) :
    ∃ t', next.get? scope.table = some t' ∧ t.GainsKeys ctx.model ds s t' := by
  induction h generalizing t with
  | nil => exact ⟨t, ht, .of_not_writesKey (by simp)⟩
  | cons _ _ ihhead ihtail =>
    obtain ⟨t', ht', hhead⟩ := ihhead ht
    obtain ⟨t'', ht'', htail⟩ := ihtail ht'
    exact ⟨t'', ht'', hhead.cons htail⟩
  | column hrule hsingle hcolumns =>
    exact ⟨_, TableSet.get?_modify_self _ ht, .of_columns
      (columnRule_of_tableRule (Or.inl hrule)) hsingle hcolumns
      (isPartOfPrimaryKey_of_leaf (Or.inl hrule) hcolumns) rfl⟩
  | lookup hrule hsingle htarget hcolumns =>
    exact ⟨_, TableSet.get?_modify_self _ (TableSet.get?_modify_self _ ht), .of_columns
      (columnRule_of_tableRule (Or.inr (Or.inl hrule))) hsingle hcolumns
      (isPartOfPrimaryKey_of_leaf (Or.inr hrule) hcolumns)
      (Table.primaryKeyIds_addForeignKey _ _)⟩
  | lookupSkipped hrule hsingle hcolumns =>
    refine ⟨t, ht, .of_not_writesKey fun d hd => ?_⟩
    rw [List.mem_singleton.mp hd]
    refine not_writesKey_of_not_yields (columnRule_of_tableRule (Or.inr (Or.inl hrule)))
      fun c hc => ?_
    simpa using (Model.mem_columns_iff hcolumns).mpr hc
  | collection hcollection hrule =>
    refine ⟨t, TableSet.get?_push ht, .of_not_writesKey fun d hd => ?_⟩
    rw [List.mem_singleton.mp hd]
    exact not_writesKey_collection hcollection (columnRule_of_tableRule (hrule.imp_right Or.inl))
  | reference hrule hsingle hreferenced hbuilds hcolumns =>
    exact ⟨_, TableSet.get?_modify_self _ (TableSet.get?_modify_self _ ht), .of_columns
      (columnRule_of_tableRule (Or.inr (Or.inr hrule))) hsingle hcolumns
      (fun c _ => isPartOfPrimaryKey_referenceTransform _ _ c)
      (Table.primaryKeyIds_addReferenceSource _)⟩
  | referenceSkipped hrule hskips =>
    refine ⟨t, ht, .of_not_writesKey fun d hd => ?_⟩
    rw [List.mem_singleton.mp hd]
    refine not_writesKey_of_not_yields (columnRule_of_tableRule (Or.inr (Or.inr hrule)))
      fun c hc => ?_
    rw [Model.yields_reference_iff ((PropertyKind.columnRule_eq_reference_iff _).mpr hrule),
      hskips] at hc
    simp at hc
  | referenceCollection hrule hcollection =>
    refine ⟨t, TableSet.get?_push ht, .of_not_writesKey fun d hd => ?_⟩
    rw [List.mem_singleton.mp hd]
    exact not_writesKey_collection hcollection (columnRule_of_tableRule (Or.inr (Or.inr hrule)))
  | common hrule _ _ inner =>
    have hnew := Nat.ne_of_lt (TableSet.lt_next_of_get? ht)
    refine ⟨t, (get?_commonClosed hnew).trans (inner.get?_eq_some (TableSet.get?_push ht) hnew),
      .of_not_writesKey fun d hd => ?_⟩
    rw [List.mem_singleton.mp hd]
    exact not_writesKey_common hrule
  | commonExtension hrule _ _ inner =>
    have hnew := Nat.ne_of_lt (TableSet.lt_next_of_get? ht)
    refine ⟨t, ?_, .of_not_writesKey fun d hd => ?_⟩
    · rw [get?_linkOrDiscard]
      exact inner.get?_eq_some (TableSet.get?_push ht) hnew
    · rw [List.mem_singleton.mp hd]
      exact not_writesKey_common hrule
  | choice hrule hreferenced _ ih =>
    obtain ⟨t', ht', hinner⟩ := ih ht
    exact ⟨t', ht', .of_choice hrule hinner⟩
  | inlineCommon hrule hreferenced _ ih =>
    obtain ⟨t', ht', hinner⟩ := ih ht
    exact ⟨t', ht', .of_inlineCommon hrule hreferenced hinner⟩

/-- The key of a main table consists of the key that a subclass takes over and of the firm
columns. -/
theorem exists_hasKey_or_firmKey_of_mainTable {e : Entity} {reason : TableReason}
    (h : ctx.mainTable e reason = .ok set) : ∃ inherited t,
      (if e.kind.isSubclass then ctx.model.inheritedKeys e .root else pure []) = .ok inherited ∧
      set.get? 0 = some t ∧
      ∀ id, id ∈ t.primaryKeyIds ↔ HasKey inherited id ∨ ctx.model.FirmKey e .root id := by
  obtain ⟨keys, inherited, -, hinherited, hbuilt⟩ := built_of_mainTable h
  obtain ⟨owner, hstart⟩ :=
    TableSet.get?_push_next (.empty e.id) (ctx.mainTableStart e reason inherited)
  obtain ⟨t, ht, hgains⟩ := hbuilt.exists_gainsKeys hstart
  refine ⟨inherited, t, hinherited, ht, fun id => ?_⟩
  have hkey : id ∈ ({ ctx.mainTableStart e reason inherited with parentEntity := owner } :
      Table).primaryKeyIds ↔ HasKey inherited id :=
    Table.mem_primaryKeyIds_addColumns_iff.trans (or_iff_right List.not_mem_nil)
  rw [hgains id, hkey, and_iff_right Strategy.makesKeys_root, Model.exists_writesKey_iff]

/-- The key of the main table of a domain entity or association consists of the firm columns. -/
theorem exists_firmKey_of_mainTable {e : Entity} (he : e ∈ ctx.model.mainEntities)
    (h : ctx.mainTable e .main = .ok set) : ∃ t, set.get? 0 = some t ∧
      ∀ id, id ∈ t.primaryKeyIds ↔ ctx.model.FirmKey e .root id := by
  obtain ⟨inherited, t, hinherited, ht, hkeys⟩ := exists_hasKey_or_firmKey_of_mainTable h
  rw [if_neg (by simp [Model.not_isSubclass_of_mem_mainEntities he]), pure_eq_ok_iff]
    at hinherited
  subst hinherited
  exact ⟨t, ht, fun id => (hkeys id).trans (or_iff_right (by simp [HasKey]))⟩

end TableContext

/-! ### Agreement -/

/-- For a domain entity or association without base whose tables are built, the collected key and
the key of the main table have the same columns if and only if every loose column has the name of a
firm one, and every stray column has the name of a collected one. The firm columns are those of the
main table. -/
theorem keys_eq_primaryKeyIds_iff {ctx : TableContext} {e : Entity} {set : TableSet}
    (hidentity : ctx.model.HasSimpleIdentity) (he : e ∈ ctx.model.mainEntities)
    (h : ctx.mainTable e .main = .ok set) :
    ∃ keys t, ctx.model.keys e .root = .ok keys ∧ set.get? 0 = some t ∧
      (∀ id, id ∈ t.primaryKeyIds ↔ ctx.model.FirmKey e .root id) ∧
      ((∀ id, id ∈ keys.map Column.id ↔ id ∈ t.primaryKeyIds) ↔
        (∀ id, ctx.model.LooseKey e .root id → ctx.model.FirmKey e .root id) ∧
          ∀ id, ctx.model.StrayKey e .root id → id ∈ keys.map Column.id) := by
  obtain ⟨keys, inherited, hkeys, -, -⟩ := TableContext.built_of_mainTable h
  obtain ⟨t, ht, hfirm⟩ := TableContext.exists_firmKey_of_mainTable he h
  refine ⟨keys, t, hkeys, ht, hfirm, ?_⟩
  have hcollected (id : String) : id ∈ keys.map Column.id ↔
      ctx.model.AddedKey e .root id ∨ ctx.model.LooseKey e .root id := by
    rw [← Model.yieldsName_keys_iff]
    simp [Model.YieldsName, Model.mem_keys_iff hkeys]
  have hbuilt (id : String) : ctx.model.FirmKey e .root id ↔
      ctx.model.AddedKey e .root id ∨ ctx.model.StrayKey e .root id :=
    Model.firmKey_iff hidentity (List.mem_filter.mp he).1
  constructor
  · intro hsame
    refine ⟨fun id hloose => ?_, fun id hstray => ?_⟩
    · exact (hfirm id).mp ((hsame id).mp ((hcollected id).mpr (Or.inr hloose)))
    · exact (hsame id).mpr ((hfirm id).mpr ((hbuilt id).mpr (Or.inr hstray)))
  · rintro ⟨hloose, hstray⟩ id
    constructor
    · intro hid
      rw [hfirm]
      rcases (hcollected id).mp hid with hadded | hid
      · exact (hbuilt id).mpr (Or.inl hadded)
      · exact hloose id hid
    · intro hid
      rcases (hbuilt id).mp ((hfirm id).mp hid) with hadded | hid
      · exact (hcollected id).mpr (Or.inl hadded)
      · exact hstray id hid

/-- Staff with a contact, which is optional and identified by an address. -/
def staffModel : Model :=
  (Model.empty.addEntity
    ((Entity.ofKind .inlineCommon "EdFi" "Contact").withProperty
      (Property.ofKind "Email" (.scalar .integer)).identity)).addEntity
    (((Entity.ofKind .domainEntity "EdFi" "Staff").withProperty
      (Property.ofKind "StaffId" (.scalar .integer)).identity).withProperty
        { (Property.ofKind "Contact" .inlineCommon).optional with referencedEntity := some 0 })

/-- The address of an optional contact is collected for the key of staff, and it is not in the key of
their table. -/
theorem keys_eq_primaryKeyIds_iff_staff :
    ∃ e ∈ staffModel.mainEntities, ∃ set keys t,
      (Config.standard.tableContext staffModel .empty).mainTable e .main = .ok set ∧
      staffModel.keys e .root = .ok keys ∧ set.get? 0 = some t ∧
      keys.map Column.id = ["StaffId", "Email"] ∧ t.primaryKeyIds = ["StaffId"] ∧
      ¬((∀ id, staffModel.LooseKey e .root id → staffModel.FirmKey e .root id) ∧
        ∀ id, staffModel.StrayKey e .root id → id ∈ keys.map Column.id) := by
  have hrun : staffModel.mainEntities.any (fun e =>
      ((Config.standard.tableContext staffModel .empty).mainTable e .main).toOption.any (fun set =>
        (set.get? 0).any (fun t => t.primaryKeyIds = ["StaffId"])) &&
      (staffModel.keys e .root).toOption.any
        (fun keys => keys.map Column.id = ["StaffId", "Email"])) = true := by decide +kernel
  obtain ⟨e, he, hboth⟩ := List.any_eq_true.mp hrun
  obtain ⟨hset, hkeys⟩ := Bool.and_eq_true_iff.mp hboth
  obtain ⟨set, hset, htable⟩ := exists_eq_ok_of_any hset
  obtain ⟨keys, hkeys, hnames⟩ := exists_eq_ok_of_any hkeys
  obtain ⟨keys', t, hkeys', ht, -, hagree⟩ :=
    keys_eq_primaryKeyIds_iff (by decide +kernel) he hset
  obtain rfl : keys' = keys := Except.ok.inj (hkeys'.symm.trans hkeys)
  have hnames : keys'.map Column.id = ["StaffId", "Email"] := by simpa using hnames
  have htable : t.primaryKeyIds = ["StaffId"] := by simpa [ht] using htable
  refine ⟨e, he, set, keys', t, hset, hkeys, ht, hnames, htable, fun hcondition => ?_⟩
  simpa [hnames, htable] using (hagree.mpr hcondition "Email").mp

end Tabular
