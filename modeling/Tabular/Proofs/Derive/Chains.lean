import Mathlib.Tactic.Common
import Tabular.Proofs.Result

/-!
# Chains of properties

Every column comes from a chain of properties: a reference leads to a key property of another
entity, a composite to one of its parts, and so on up to a property with a column of its own. This
file describes the derivation of columns and keys through these chains. A strategy lets some chains
pass and gives each of them its column; the columns of a property are those of the chains that
pass.

## Main definitions

* `Hop`, `Query`, `Model.Chain`: properties on the way to a column, and chains of them.
* `Strategy.inside`, `Strategy.admits`: the strategy along a chain, and whether a chain passes.
* `Strategy.columnOf?`: the column of a chain.

## Main results

* `KeyDerivation.mem_ask_iff`: the columns and keys are the columns of the chains that pass.
* `Model.mem_columns_iff`, `Model.mem_keys_iff`, `Model.mem_inheritedKeys_iff`: the same for models.
-/

namespace Tabular

/-! ### Chains -/

/-- A property on the way to a column. -/
inductive Hop where
  /-- A property whose columns are derived. -/
  | column (d : Declaration)
  /-- An inline common whose key is part of the key of its owner. -/
  | inlined (d : Declaration)

namespace Hop

/-- The declaration of the property. -/
def declaration : Hop → Declaration
  | column d | inlined d => d

/-- The full name of the property. -/
def name (h : Hop) : String :=
  h.declaration.property.fullName

end Hop

/-- What the derivation of columns and keys is asked for. -/
inductive Query where
  /-- The columns of a property. -/
  | columns (d : Declaration)
  /-- The key of an entity. -/
  | keys (e : Entity)
  /-- The key a subclass takes over from its base. -/
  | inherited (e : Entity)

/-- A property of this rule has a column of its own. -/
def ColumnRule.isLeaf : ColumnRule → Bool
  | scalar | descriptor | enumeration | schoolYear => true
  | composite | reference => false

/-- The chains of properties that lead to the columns asked for. -/
inductive Model.Chain (m : Model) : Query → List Hop → Prop
  | leaf {d : Declaration} (hrule : d.property.kind.columnRule.isLeaf = true) :
      m.Chain (.columns d) [.column d]
  | composite {d part : Declaration} {e : Entity} {rest : List Hop}
      (hrule : d.property.kind.columnRule = .composite) (hsingle : d.property.isCollection = false)
      (he : m.referencedEntity d.owner d.property = .ok e) (hpart : part ∈ e.declarations)
      (hpartSingle : part.property.isCollection = false) (next : m.Chain (.columns part) rest) :
      m.Chain (.columns d) (.column d :: rest)
  | reference {d : Declaration} {e : Entity} {rest : List Hop}
      (hrule : d.property.kind.columnRule = .reference) (hsingle : d.property.isCollection = false)
      (he : m.referencedEntity d.owner d.property = .ok e) (next : m.Chain (.keys e) rest) :
      m.Chain (.columns d) (.column d :: rest)
  | inherits {e : Entity} {rest : List Hop} (hkind : e.kind.isSubclass = true)
      (next : m.Chain (.inherited e) rest) : m.Chain (.keys e) rest
  | adds {e : Entity} {d : Declaration} {rest : List Hop} (hd : d ∈ e.addedIdentity)
      (next : m.Chain (.columns d) rest) : m.Chain (.keys e) rest
  | inlines {e f : Entity} {d : Declaration} {rest : List Hop} (hd : d ∈ e.inlineCommons)
      (hf : m.referencedEntity e d.property = .ok f) (next : m.Chain (.keys f) rest) :
      m.Chain (.keys e) (.inlined d :: rest)
  | baseInherits {e b : Entity} {rest : List Hop} (hb : m.baseEntity e = .ok b)
      (hkind : b.kind.isSubclass = true) (next : m.Chain (.inherited b) rest) :
      m.Chain (.inherited e) rest
  | baseAdds {e b : Entity} {d : Declaration} {rest : List Hop} (hb : m.baseEntity e = .ok b)
      (hd : d ∈ b.addedIdentity)
      (next : m.Chain (.columns (renamedBy e.identityRename? d)) rest) :
      m.Chain (.inherited e) rest
  | baseInlines {e b f : Entity} {d : Declaration} {rest : List Hop} (hb : m.baseEntity e = .ok b)
      (hd : d ∈ b.inlineCommons) (hf : m.referencedEntity b d.property = .ok f)
      (next : m.Chain (.keys f) rest) : m.Chain (.inherited e) (.inlined d :: rest)

/-! ### Strategies along chains -/

/-- The column of a property with a column of its own. -/
def leafColumn? (d : Declaration) (s : Strategy) : Option Column :=
  let p := d.property
  match p.kind.columnRule with
  | .scalar =>
    p.kind.scalarType?.map (leafColumn d s (s.columnNamer p.contextPrefix p.name))
  | .descriptor =>
    some (leafColumn d s ((s.columnNamer p.contextPrefix
      (TableNaming.descriptorTable p.name)).withSuffix "Id") .integer)
  | .enumeration =>
    some (leafColumn d s ((s.columnNamer p.contextPrefix
      (TableNaming.enumerationTable p.name)).withSuffix "Id") .integer)
  | .schoolYear =>
    some (leafColumn d s (s.columnNamer p.contextPrefix TableNaming.schoolYearColumn) .short)
  | .composite | .reference => none

namespace Strategy

/-- The strategy beyond a property. A property with a column of its own ends its chain; the
strategy beyond it is never used. -/
def inside (s : Strategy) : Hop → Strategy
  | .column d =>
    match d.property.kind.columnRule with
    | .reference => (s.merging d.property).append d.property
    | .composite => KeyDerivation.compositeStrategy d.property s
    | _ => s.append d.property
  | .inlined d => s.append d.property

/-- Whether a property has columns. The key of an inline common is never asked. -/
def passes (s : Strategy) : Hop → Bool
  | .column d => s.buildsColumns d.property
  | .inlined _ => true

/-- Whether every property of a chain has columns. -/
def admits : Strategy → List Hop → Bool
  | _, [] => true
  | s, h :: rest => s.passes h && (s.inside h).admits rest

/-- The column at the end of a chain, as seen from its start. -/
def columnOf? : Strategy → List Hop → Option Column
  | _, [] => none
  | s, [.column d] => leafColumn? d s
  | _, [.inlined _] => none
  | s, h :: k :: rest => ((s.inside h).columnOf? (k :: rest)).map (Column.prefixedBy h.name)

end Strategy

namespace Model.Chain

variable {m : Model} {q : Query} {ch : List Hop}

theorem ne_nil (h : m.Chain q ch) : ch ≠ [] := by
  induction h with
  | inherits _ _ ih | adds _ _ ih | baseInherits _ _ _ ih | baseAdds _ _ _ ih => exact ih
  | leaf | composite | reference | inlines | baseInlines => exact List.cons_ne_nil _ _

theorem columnOf?_cons (h : m.Chain q ch) (s : Strategy) (hop : Hop) :
    s.columnOf? (hop :: ch) = ((s.inside hop).columnOf? ch).map (Column.prefixedBy hop.name) := by
  cases ch with
  | nil => exact absurd rfl h.ne_nil
  | cons k rest => cases hop <;> rfl

end Model.Chain

/-- A property with a column of its own has that column. -/
theorem leafColumn?_isSome {d : Declaration} (hrule : d.property.kind.columnRule.isLeaf = true)
    (s : Strategy) : ∃ c, leafColumn? d s = some c := by
  unfold leafColumn?
  cases hkind : d.property.kind <;> rw [hkind] at hrule <;>
    simp_all [PropertyKind.columnRule, ColumnRule.isLeaf, PropertyKind.scalarType?]

/-- Every chain has a column. -/
theorem Model.Chain.exists_columnOf? {m : Model} {q : Query} {ch : List Hop} (h : m.Chain q ch)
    (s : Strategy) : ∃ c, s.columnOf? ch = some c := by
  induction h generalizing s with
  | leaf hrule => exact leafColumn?_isSome hrule s
  | inherits _ _ ih | adds _ _ ih | baseInherits _ _ _ ih | baseAdds _ _ _ ih => exact ih s
  | @composite d _ _ _ _ _ _ _ _ next ih =>
    obtain ⟨c, hc⟩ := ih (s.inside (.column d))
    exact ⟨_, by rw [next.columnOf?_cons, hc]; rfl⟩
  | @reference d _ _ _ _ _ next ih =>
    obtain ⟨c, hc⟩ := ih (s.inside (.column d))
    exact ⟨_, by rw [next.columnOf?_cons, hc]; rfl⟩
  | @inlines _ _ d _ _ _ next ih =>
    obtain ⟨c, hc⟩ := ih (s.inside (.inlined d))
    exact ⟨_, by rw [next.columnOf?_cons, hc]; rfl⟩
  | @baseInlines _ _ _ d _ _ _ _ next ih =>
    obtain ⟨c, hc⟩ := ih (s.inside (.inlined d))
    exact ⟨_, by rw [next.columnOf?_cons, hc]; rfl⟩

/-! ### The derivation through chains -/

/-- The chains that pass and end in the given column. -/
def Model.Yields (m : Model) (q : Query) (s : Strategy) (c : Column) : Prop :=
  ∃ ch, m.Chain q ch ∧ s.admits ch = true ∧ s.columnOf? ch = some c

namespace Model

variable {m : Model} {s : Strategy} {c : Column}

/-- A chain that passes has a first property that passes and a rest that passes beyond it. -/
private theorem admits_cons_iff {q : Query} {hop : Hop} {ch : List Hop} (hch : m.Chain q ch) :
    (s.admits (hop :: ch) = true ∧ s.columnOf? (hop :: ch) = some c) ↔
      s.passes hop = true ∧ ∃ c', ((s.inside hop).admits ch = true ∧
        (s.inside hop).columnOf? ch = some c') ∧ c = c'.prefixedBy hop.name := by
  rw [hch.columnOf?_cons, Option.map_eq_some_iff, Strategy.admits, Bool.and_eq_true]
  constructor
  · rintro ⟨⟨hpass, hadmits⟩, c', hc', rfl⟩
    exact ⟨hpass, c', ⟨hadmits, hc'⟩, rfl⟩
  · rintro ⟨hpass, c', ⟨hadmits, hc'⟩, rfl⟩
    exact ⟨⟨hpass, hadmits⟩, c', hc', rfl⟩

/-- The columns of a property with a column of its own. -/
theorem yields_leaf_iff {d : Declaration} (hrule : d.property.kind.columnRule.isLeaf = true) :
    m.Yields (.columns d) s c ↔
      s.buildsColumns d.property = true ∧ leafColumn? d s = some c := by
  constructor
  · rintro ⟨ch, hch, hadmits, hc⟩
    cases hch with
    | leaf => exact ⟨by simpa [Strategy.admits, Strategy.passes] using hadmits, hc⟩
    | composite h => simp [h, ColumnRule.isLeaf] at hrule
    | reference h => simp [h, ColumnRule.isLeaf] at hrule
  · rintro ⟨hbuilds, hc⟩
    exact ⟨[.column d], .leaf hrule, by simpa [Strategy.admits, Strategy.passes] using hbuilds, hc⟩

/-- The columns of a composite are those of its parts. -/
theorem yields_composite_iff {d : Declaration}
    (hrule : d.property.kind.columnRule = .composite) :
    m.Yields (.columns d) s c ↔
      s.buildsColumns d.property = true ∧ d.property.isCollection = false ∧
        ∃ e, m.referencedEntity d.owner d.property = .ok e ∧
          ∃ part ∈ e.declarations, part.property.isCollection = false ∧
            ∃ c', m.Yields (.columns part) (KeyDerivation.compositeStrategy d.property s) c' ∧
              c = c'.prefixedBy d.property.fullName := by
  have hinside : s.inside (.column d) = KeyDerivation.compositeStrategy d.property s := by
    simp [Strategy.inside, hrule]
  constructor
  · rintro ⟨ch, hch, hadmits, hc⟩
    cases hch with
    | leaf h => simp [hrule, ColumnRule.isLeaf] at h
    | composite h hsingle he hpart hpartSingle next =>
      obtain ⟨hpass, c', ⟨hadmits', hc'⟩, rfl⟩ := (admits_cons_iff next).mp ⟨hadmits, hc⟩
      rw [hinside] at hadmits' hc'
      exact ⟨hpass, hsingle, _, he, _, hpart, hpartSingle, c', ⟨_, next, hadmits', hc'⟩, rfl⟩
    | reference h => simp [hrule] at h
  · rintro ⟨hbuilds, hsingle, e, he, part, hpart, hpartSingle, c', ⟨ch, hch, hadmits, hc⟩, rfl⟩
    rw [← hinside] at hadmits hc
    have hcons : m.Chain (.columns d) (.column d :: ch) :=
      .composite hrule hsingle he hpart hpartSingle hch
    exact ⟨_, hcons, (admits_cons_iff hch).mpr ⟨hbuilds, c', ⟨hadmits, hc⟩, rfl⟩⟩

/-- The columns of a reference are the key of the entity it leads to. -/
theorem yields_reference_iff {d : Declaration}
    (hrule : d.property.kind.columnRule = .reference) :
    m.Yields (.columns d) s c ↔
      s.buildsColumns d.property = true ∧ d.property.isCollection = false ∧
        ∃ e, m.referencedEntity d.owner d.property = .ok e ∧
          ∃ c', m.Yields (.keys e) ((s.merging d.property).append d.property) c' ∧
            c = c'.prefixedBy d.property.fullName := by
  have hinside : s.inside (.column d) = (s.merging d.property).append d.property := by
    simp [Strategy.inside, hrule]
  constructor
  · rintro ⟨ch, hch, hadmits, hc⟩
    cases hch with
    | leaf h => simp [hrule, ColumnRule.isLeaf] at h
    | composite h => simp [hrule] at h
    | reference h hsingle he next =>
      obtain ⟨hpass, c', ⟨hadmits', hc'⟩, rfl⟩ := (admits_cons_iff next).mp ⟨hadmits, hc⟩
      rw [hinside] at hadmits' hc'
      exact ⟨hpass, hsingle, _, he, c', ⟨_, next, hadmits', hc'⟩, rfl⟩
  · rintro ⟨hbuilds, hsingle, e, he, c', ⟨ch, hch, hadmits, hc⟩, rfl⟩
    rw [← hinside] at hadmits hc
    have hcons : m.Chain (.columns d) (.column d :: ch) := .reference hrule hsingle he hch
    exact ⟨_, hcons, (admits_cons_iff hch).mpr ⟨hbuilds, c', ⟨hadmits, hc⟩, rfl⟩⟩

/-- A column of the key of one of the inline commons of an entity. -/
def YieldsInlined (m : Model) (e : Entity) (s : Strategy) (c : Column) : Prop :=
  ∃ d ∈ e.inlineCommons, ∃ f, m.referencedEntity e d.property = .ok f ∧
    ∃ c', m.Yields (.keys f) (s.append d.property) c' ∧ c = c'.prefixedBy d.property.fullName

/-- The key of an entity is what it inherits, what it adds, and the keys of its inline commons. -/
theorem yields_keys_iff {e : Entity} : m.Yields (.keys e) s c ↔
    (e.kind.isSubclass = true ∧ m.Yields (.inherited e) s c) ∨
      (∃ d ∈ e.addedIdentity, m.Yields (.columns d) s c) ∨ m.YieldsInlined e s c := by
  constructor
  · rintro ⟨ch, hch, hadmits, hc⟩
    cases hch with
    | inherits hkind next => exact Or.inl ⟨hkind, ch, next, hadmits, hc⟩
    | adds hd next => exact Or.inr (Or.inl ⟨_, hd, ch, next, hadmits, hc⟩)
    | inlines hd hf next =>
      obtain ⟨-, c', ⟨hadmits', hc'⟩, rfl⟩ := (admits_cons_iff next).mp ⟨hadmits, hc⟩
      exact Or.inr (Or.inr ⟨_, hd, _, hf, c', ⟨_, next, hadmits', hc'⟩, rfl⟩)
  · rintro (⟨hkind, ch, hch, h⟩ | ⟨d, hd, ch, hch, h⟩ |
      ⟨d, hd, f, hf, c', ⟨ch, hch, hadmits, hc⟩, rfl⟩)
    · exact ⟨ch, .inherits hkind hch, h⟩
    · exact ⟨ch, .adds hd hch, h⟩
    · have hcons : m.Chain (.keys e) (.inlined d :: ch) := .inlines hd hf hch
      exact ⟨_, hcons, (admits_cons_iff hch).mpr ⟨rfl, c', ⟨hadmits, hc⟩, rfl⟩⟩

/-- The key a subclass takes over is the key of its base with the rename in place. -/
theorem yields_inherited_iff {e : Entity} : m.Yields (.inherited e) s c ↔
    ∃ b, m.baseEntity e = .ok b ∧
      ((b.kind.isSubclass = true ∧ m.Yields (.inherited b) s c) ∨
        (∃ d ∈ b.addedIdentity, m.Yields (.columns (renamedBy e.identityRename? d)) s c) ∨
        m.YieldsInlined b s c) := by
  constructor
  · rintro ⟨ch, hch, hadmits, hc⟩
    cases hch with
    | baseInherits hb hkind next => exact ⟨_, hb, Or.inl ⟨hkind, ch, next, hadmits, hc⟩⟩
    | baseAdds hb hd next => exact ⟨_, hb, Or.inr (Or.inl ⟨_, hd, ch, next, hadmits, hc⟩)⟩
    | baseInlines hb hd hf next =>
      obtain ⟨-, c', ⟨hadmits', hc'⟩, rfl⟩ := (admits_cons_iff next).mp ⟨hadmits, hc⟩
      exact ⟨_, hb, Or.inr (Or.inr ⟨_, hd, _, hf, c', ⟨_, next, hadmits', hc'⟩, rfl⟩)⟩
  · rintro ⟨b, hb, ⟨hkind, ch, hch, h⟩ | ⟨d, hd, ch, hch, h⟩ |
      ⟨d, hd, f, hf, c', ⟨ch, hch, hadmits, hc⟩, rfl⟩⟩
    · exact ⟨ch, .baseInherits hb hkind hch, h⟩
    · exact ⟨ch, .baseAdds hb hd hch, h⟩
    · have hcons : m.Chain (.inherited e) (.inlined d :: ch) := .baseInlines hb hd hf hch
      exact ⟨_, hcons, (admits_cons_iff hch).mpr ⟨rfl, c', ⟨hadmits, hc⟩, rfl⟩⟩

end Model

namespace KeyDerivation

/-- The answer of a derivation. -/
def ask (k : KeyDerivation) (s : Strategy) : Query → BuildResult (List Column)
  | .columns d => k.columns d s
  | .keys e => k.keys e s
  | .inherited e => k.inheritedKeys e s

/-- All answers of a derivation consist of the columns of the chains that pass. -/
def Exact (m : Model) (inner : KeyDerivation) : Prop :=
  ∀ q s cs, inner.ask s q = .ok cs → ∀ c, c ∈ cs ↔ m.Yields q s c

variable {m : Model} {inner : KeyDerivation} {s : Strategy} {cs : List Column} {c : Column}

theorem mem_prefixColumns_iff {name : String} :
    c ∈ prefixColumns name cs ↔ ∃ c' ∈ cs, c = c'.prefixedBy name := by
  simp [prefixColumns, eq_comm]

private theorem mem_inlineKeys_iff (hinner : Exact m inner) {e : Entity}
    (h : inlineKeys m inner e s = .ok cs) : c ∈ cs ↔ m.YieldsInlined e s c := by
  rw [mem_collect_iff h]
  refine exists_congr fun d => and_congr_right fun hd => ?_
  simp only [bind_eq_ok_iff, pure_eq_ok_iff]
  constructor
  · rintro ⟨_, ⟨f, hf, keys, hkeys, rfl⟩, hc⟩
    obtain ⟨c', hc', rfl⟩ := mem_prefixColumns_iff.mp hc
    exact ⟨f, hf, c', (hinner (.keys f) _ keys hkeys c').mp hc', rfl⟩
  · rintro ⟨f, hf, c', hc', rfl⟩
    obtain ⟨zs, hzs⟩ := collect_ok_iff.mp ⟨cs, h⟩ d hd
    simp only [hf, bind_eq_ok_iff, pure_eq_ok_iff, Except.ok.injEq, exists_eq_left'] at hzs
    obtain ⟨keys, hkeys, rfl⟩ := hzs
    exact ⟨_, ⟨f, hf, keys, hkeys, rfl⟩, mem_prefixColumns_iff.mpr
      ⟨c', (hinner (.keys f) _ keys hkeys c').mpr hc', rfl⟩⟩

/-- The columns collected from several properties. -/
private theorem mem_collect_columns_iff (hinner : Exact m inner) {f : Declaration → Declaration}
    {ds : List Declaration} (h : collect (fun d => inner.columns (f d) s) ds = .ok cs) :
    c ∈ cs ↔ ∃ d ∈ ds, m.Yields (.columns (f d)) s c := by
  rw [mem_collect_iff h]
  refine exists_congr fun d => and_congr_right fun hd => ?_
  constructor
  · rintro ⟨zs, hzs, hc⟩
    exact (hinner (.columns (f d)) s zs hzs c).mp hc
  · intro hc
    obtain ⟨zs, hzs⟩ := collect_ok_iff.mp ⟨cs, h⟩ d hd
    exact ⟨zs, hzs, (hinner (.columns (f d)) s zs hzs c).mpr hc⟩

/-- The derivation of a property with a column of its own. -/
theorem columnsBy_leaf {d : Declaration} {x : Column}
    (hbuilds : s.buildsColumns d.property = true) (hx : leafColumn? d s = some x) :
    columnsBy m inner d.property.kind.columnRule d s = .ok [x] := by
  unfold leafColumn? at hx
  unfold columnsBy
  simp only [hbuilds, Bool.not_true, Bool.false_eq_true, if_false]
  cases hrule : d.property.kind.columnRule with
  | scalar =>
    simp only [hrule, Option.map_eq_some_iff] at hx
    obtain ⟨type, htype, rfl⟩ := hx
    simp only [htype]
  | descriptor | enumeration | schoolYear =>
    simp only [hrule, Option.some.injEq] at hx
    rw [← hx]
  | composite | reference => simp [hrule] at hx

private theorem mem_compositeColumns_iff (hinner : Exact m inner) {d : Declaration}
    (hrule : d.property.kind.columnRule = .composite)
    (hbuilds : s.buildsColumns d.property = true) (h : compositeColumns m inner d s = .ok cs) :
    c ∈ cs ↔ m.Yields (.columns d) s c := by
  rw [Model.yields_composite_iff hrule]
  simp only [compositeColumns] at h
  split_ifs at h with hcollection
  · obtain rfl := Except.ok.inj h
    simp [hcollection]
  · simp only [bind_eq_ok_iff, pure_eq_ok_iff] at h
    obtain ⟨e, he, parts, hparts, rfl⟩ := h
    have hmem := fun c' => mem_collect_columns_iff (c := c') hinner (f := fun q => q) hparts
    simp only [List.mem_filter, Bool.not_eq_true'] at hmem
    simp only [mem_prefixColumns_iff, hmem]
    constructor
    · rintro ⟨c', ⟨part, ⟨hpart, hsingle⟩, hc'⟩, rfl⟩
      exact ⟨hbuilds, by simpa using hcollection, e, he, part, hpart, hsingle, c', hc', rfl⟩
    · rintro ⟨-, -, e', he', part, hpart, hsingle, c', hc', rfl⟩
      obtain rfl : e' = e := Except.ok.inj (he'.symm.trans he)
      exact ⟨c', ⟨part, ⟨hpart, hsingle⟩, hc'⟩, rfl⟩

private theorem mem_referenceColumns_iff (hinner : Exact m inner) {d : Declaration}
    (hrule : d.property.kind.columnRule = .reference)
    (hbuilds : s.buildsColumns d.property = true) (h : referenceColumns m inner d s = .ok cs) :
    c ∈ cs ↔ m.Yields (.columns d) s c := by
  rw [Model.yields_reference_iff hrule]
  simp only [referenceColumns] at h
  split_ifs at h with hcollection
  · obtain rfl := Except.ok.inj h
    simp [hcollection]
  · simp only [bind_eq_ok_iff, pure_eq_ok_iff] at h
    obtain ⟨e, he, keys, hkeys, rfl⟩ := h
    simp only [mem_prefixColumns_iff, hinner (.keys e) _ keys hkeys]
    constructor
    · rintro ⟨c', hc', rfl⟩
      exact ⟨hbuilds, by simpa using hcollection, e, he, c', hc', rfl⟩
    · rintro ⟨-, -, e', he', c', hc', rfl⟩
      obtain rfl : e' = e := Except.ok.inj (he'.symm.trans he)
      exact ⟨c', hc', rfl⟩

private theorem mem_columnsBy_iff (hinner : Exact m inner) {d : Declaration}
    (h : columnsBy m inner d.property.kind.columnRule d s = .ok cs) :
    c ∈ cs ↔ m.Yields (.columns d) s c := by
  by_cases hbuilds : s.buildsColumns d.property = true
  · by_cases hleaf : d.property.kind.columnRule.isLeaf = true
    · obtain ⟨x, hx⟩ := leafColumn?_isSome hleaf s
      obtain rfl := Except.ok.inj ((columnsBy_leaf hbuilds hx).symm.trans h)
      rw [Model.yields_leaf_iff hleaf, hx, List.mem_singleton, Option.some.injEq, eq_comm]
      exact (and_iff_right hbuilds).symm
    · simp only [columnsBy, hbuilds, Bool.not_true, Bool.false_eq_true, if_false] at h
      cases hrule : d.property.kind.columnRule with
      | composite => exact mem_compositeColumns_iff hinner hrule hbuilds (by simpa [hrule] using h)
      | reference => exact mem_referenceColumns_iff hinner hrule hbuilds (by simpa [hrule] using h)
      | scalar | descriptor | enumeration | schoolYear => simp [hrule, ColumnRule.isLeaf] at hleaf
  · have hcs : cs = [] := by
      simpa [columnsBy, hbuilds, eq_comm] using h
    subst hcs
    constructor
    · intro hc
      simp at hc
    · rintro ⟨ch, hch, hadmits, -⟩
      cases hch <;> simp [Strategy.admits, Strategy.passes, hbuilds] at hadmits

private theorem exact_exhausted (m : Model) : Exact m exhausted := by
  intro q s cs h
  cases q <;> simp [ask, exhausted] at h

private theorem exact_step (hinner : Exact m inner) : Exact m (step m inner) := by
  intro q s cs h c
  cases q with
  | columns d => exact mem_columnsBy_iff hinner h
  | keys e =>
    simp only [ask, step, keysOf] at h
    rw [Model.yields_keys_iff]
    split_ifs at h with hkind <;> simp only [bind_eq_ok_iff, pure_eq_ok_iff] at h
    · obtain ⟨inherited, hinherited, added, hadded, inlined, hinlined, rfl⟩ := h
      simp only [List.mem_append, hinner (.inherited e) s inherited hinherited, hkind, true_and,
        mem_collect_columns_iff hinner (f := fun d => d) hadded, mem_inlineKeys_iff hinner hinlined,
        or_assoc]
    · obtain ⟨inherited, rfl, added, hadded, inlined, hinlined, rfl⟩ := h
      simp [hkind, mem_collect_columns_iff hinner (f := fun d => d) hadded,
        mem_inlineKeys_iff hinner hinlined]
  | inherited e =>
    simp only [ask, step, inheritedKeysOf, bind_eq_ok_iff] at h
    obtain ⟨b, hb, h⟩ := h
    have hbase : m.Yields (.inherited e) s c ↔
        (b.kind.isSubclass = true ∧ m.Yields (.inherited b) s c) ∨
          (∃ d ∈ b.addedIdentity, m.Yields (.columns (renamedBy e.identityRename? d)) s c) ∨
          m.YieldsInlined b s c := by
      rw [Model.yields_inherited_iff]
      simp [hb]
    rw [hbase]
    split_ifs at h with hkind <;> simp only [bind_eq_ok_iff, pure_eq_ok_iff] at h
    · obtain ⟨inherited, hinherited, added, hadded, inlined, hinlined, rfl⟩ := h
      simp only [List.mem_append, hinner (.inherited b) s inherited hinherited, hkind, true_and,
        mem_collect_columns_iff hinner hadded, mem_inlineKeys_iff hinner hinlined, or_assoc]
    · obtain ⟨inherited, rfl, added, hadded, inlined, hinlined, rfl⟩ := h
      simp [hkind, mem_collect_columns_iff hinner hadded, mem_inlineKeys_iff hinner hinlined]

/-- The answers of the derivation consist of the columns of the chains that pass. -/
theorem mem_ask_iff (m : Model) (n : Nat) : Exact m (within m n) := by
  induction n with
  | zero => exact exact_exhausted m
  | succ n ih => exact exact_step ih

end KeyDerivation

namespace Model

variable {m : Model} {s : Strategy} {cs : List Column} {c : Column}

theorem mem_columns_iff {d : Declaration} (h : m.columns d s = .ok cs) :
    c ∈ cs ↔ m.Yields (.columns d) s c :=
  KeyDerivation.mem_ask_iff m m.depthLimit (.columns d) s cs h c

theorem mem_keys_iff {e : Entity} (h : m.keys e s = .ok cs) : c ∈ cs ↔ m.Yields (.keys e) s c :=
  KeyDerivation.mem_ask_iff m m.depthLimit (.keys e) s cs h c

theorem mem_inheritedKeys_iff {e : Entity} (h : m.inheritedKeys e s = .ok cs) :
    c ∈ cs ↔ m.Yields (.inherited e) s c :=
  KeyDerivation.mem_ask_iff m m.depthLimit (.inherited e) s cs h c

end Model

end Tabular
