import Mathlib.Tactic.Common
import Tabular.Proofs.Derive.Chains

/-!
# Models without merge directives

Deleting all merge directives from a model changes neither its chains nor their columns. It only
lets every chain pass: merge directives act through skip layers, and naming never looks at these.

## Main definitions

* `Model.withoutMerges`: the model without its merge directives.
* `Strategy.plain`, `Strategy.skips`: the layers that naming reads, and the others.

## Main results

* `Model.chain_withoutMerges_iff`: the chains of a model without its merge directives.
* `Strategy.columnOf?_congr`: the column of a chain depends on plain layers only.
* `Strategy.admits_of_mergeFree`: without merge directives every chain passes.
* `KeyDerivation.exists_ask_of_withoutMerges`: merge directives never make a derivation fail.
-/

namespace Tabular

/-! ### Deleting merge directives -/

/-- The property without its merge directives. -/
def Property.withoutMerges (p : Property) : Property :=
  { p with mergeDirectives := [] }

/-- The entity without the merge directives of its properties. -/
def Entity.withoutMerges (e : Entity) : Entity :=
  { e with properties := e.properties.map Property.withoutMerges }

/-- The declaration without merge directives, of the property and of its owner. -/
def Declaration.withoutMerges (d : Declaration) : Declaration :=
  ⟨d.owner.withoutMerges, d.index, d.property.withoutMerges⟩

/-- The model without merge directives. -/
def Model.withoutMerges (m : Model) : Model :=
  { m with entities := m.entities.map Entity.withoutMerges }

/-- The property on the way to a column, without merge directives. -/
def Hop.withoutMerges : Hop → Hop
  | column d => column d.withoutMerges
  | inlined d => inlined d.withoutMerges

/-- The query without merge directives. -/
def Query.withoutMerges : Query → Query
  | columns d => columns d.withoutMerges
  | keys e => keys e.withoutMerges
  | inherited e => inherited e.withoutMerges

@[simp] theorem Property.fullName_withoutMerges (p : Property) :
    p.withoutMerges.fullName = p.fullName :=
  rfl

@[simp] theorem Hop.name_withoutMerges (h : Hop) : h.withoutMerges.name = h.name := by
  cases h <;> rfl

@[simp] theorem Hop.withoutMerges_withoutMerges (h : Hop) :
    h.withoutMerges.withoutMerges = h.withoutMerges := by
  have hentity (e : Entity) : e.withoutMerges.withoutMerges = e.withoutMerges := by
    simp [Entity.withoutMerges, Property.withoutMerges]
  cases h <;> simp [Hop.withoutMerges, Declaration.withoutMerges, hentity, Property.withoutMerges]

namespace Entity

variable (e : Entity)

theorem declarations_withoutMerges :
    e.withoutMerges.declarations = e.declarations.map Declaration.withoutMerges := by
  simp only [declarations, withoutMerges, List.zipIdx_map, List.map_map]
  rfl

theorem plainIdentity_withoutMerges :
    e.withoutMerges.plainIdentity = e.plainIdentity.map Declaration.withoutMerges := by
  rw [plainIdentity, declarations_withoutMerges, List.filter_map]
  rfl

theorem inlineCommons_withoutMerges :
    e.withoutMerges.inlineCommons = e.inlineCommons.map Declaration.withoutMerges := by
  rw [inlineCommons, declarations_withoutMerges, List.filter_map]
  rfl

theorem addedIdentity_withoutMerges :
    e.withoutMerges.addedIdentity = e.addedIdentity.map Declaration.withoutMerges := by
  rw [addedIdentity, plainIdentity_withoutMerges, List.filter_map]
  rfl

theorem identityRename?_withoutMerges :
    e.withoutMerges.identityRename? = e.identityRename?.map Declaration.withoutMerges := by
  rw [identityRename?, plainIdentity_withoutMerges, List.find?_map]
  rfl

end Entity

theorem renamedBy_withoutMerges (rename : Option Declaration) (d : Declaration) :
    renamedBy (rename.map Declaration.withoutMerges) d.withoutMerges =
      (renamedBy rename d).withoutMerges := by
  cases rename with
  | none => rfl
  | some r =>
    simp only [renamedBy, Option.map_some]
    by_cases h : r.property.baseKeyName = d.property.fullName
    · rw [if_pos h, if_pos (show r.withoutMerges.property.baseKeyName =
        d.withoutMerges.property.fullName from h)]
    · rw [if_neg h, if_neg (show r.withoutMerges.property.baseKeyName ≠
        d.withoutMerges.property.fullName from h)]

namespace Model

variable (m : Model)

theorem entity?_withoutMerges (id : EntityId) :
    m.withoutMerges.entity? id = (m.entity? id).map Entity.withoutMerges := by
  simp [entity?, withoutMerges]

/-- Links lead to the same entities. -/
theorem referencedEntity_withoutMerges_iff {owner : Entity} {p : Property} {e₀ : Entity} :
    m.withoutMerges.referencedEntity owner.withoutMerges p.withoutMerges = .ok e₀ ↔
      ∃ e, m.referencedEntity owner p = .ok e ∧ e₀ = e.withoutMerges := by
  have hlink : p.withoutMerges.referencedEntity.bind m.withoutMerges.entity? =
      (p.referencedEntity.bind m.entity?).map Entity.withoutMerges := by
    cases h : p.referencedEntity with
    | none => simp [Property.withoutMerges, h]
    | some id => simp [Property.withoutMerges, h, entity?_withoutMerges]
  unfold referencedEntity
  rw [hlink]
  cases p.referencedEntity.bind m.entity? <;> simp [eq_comm]

theorem baseEntity_withoutMerges_iff {e b₀ : Entity} :
    m.withoutMerges.baseEntity e.withoutMerges = .ok b₀ ↔
      ∃ b, m.baseEntity e = .ok b ∧ b₀ = b.withoutMerges := by
  have hlink : e.withoutMerges.baseEntity.bind m.withoutMerges.entity? =
      (e.baseEntity.bind m.entity?).map Entity.withoutMerges := by
    cases h : e.baseEntity with
    | none => simp [Entity.withoutMerges, h]
    | some id => simp [Entity.withoutMerges, h, entity?_withoutMerges]
  unfold baseEntity
  rw [hlink]
  cases e.baseEntity.bind m.entity? <;> simp [eq_comm]

theorem depthLimit_withoutMerges : m.withoutMerges.depthLimit = m.depthLimit := by
  simp [depthLimit, withoutMerges]

variable {m}

/-- Every chain is a chain without merge directives. -/
theorem Chain.withoutMerges {q : Query} {ch : List Hop} (h : m.Chain q ch) :
    m.withoutMerges.Chain q.withoutMerges (ch.map Hop.withoutMerges) := by
  induction h with
  | leaf hrule => exact .leaf hrule
  | @composite d part e _ hrule hsingle he hpart hpartSingle _ ih =>
    have hmem : part.withoutMerges ∈ e.withoutMerges.declarations := by
      rw [Entity.declarations_withoutMerges]
      exact List.mem_map_of_mem hpart
    exact .composite hrule hsingle (m.referencedEntity_withoutMerges_iff.mpr ⟨e, he, rfl⟩) hmem
      hpartSingle ih
  | reference hrule hsingle he _ ih =>
    exact .reference hrule hsingle (m.referencedEntity_withoutMerges_iff.mpr ⟨_, he, rfl⟩) ih
  | inherits hkind _ ih => exact .inherits hkind ih
  | adds hd _ ih =>
    refine .adds ?_ ih
    rw [Entity.addedIdentity_withoutMerges]
    exact List.mem_map_of_mem hd
  | inlines hd hf _ ih =>
    refine .inlines ?_ (m.referencedEntity_withoutMerges_iff.mpr ⟨_, hf, rfl⟩) ih
    rw [Entity.inlineCommons_withoutMerges]
    exact List.mem_map_of_mem hd
  | baseInherits hb hkind _ ih =>
    exact .baseInherits (m.baseEntity_withoutMerges_iff.mpr ⟨_, hb, rfl⟩) hkind ih
  | @baseAdds e b d _ hb hd _ ih =>
    refine .baseAdds (d := d.withoutMerges) (m.baseEntity_withoutMerges_iff.mpr ⟨_, hb, rfl⟩) ?_ ?_
    · rw [Entity.addedIdentity_withoutMerges]
      exact List.mem_map_of_mem hd
    · rw [Entity.identityRename?_withoutMerges, renamedBy_withoutMerges]
      exact ih
  | baseInlines hb hd hf _ ih =>
    refine .baseInlines (m.baseEntity_withoutMerges_iff.mpr ⟨_, hb, rfl⟩) ?_
      (m.referencedEntity_withoutMerges_iff.mpr ⟨_, hf, rfl⟩) ih
    rw [Entity.inlineCommons_withoutMerges]
    exact List.mem_map_of_mem hd

/-- Every chain of the model without merge directives comes from a chain of the model. -/
private theorem Chain.of_withoutMerges {q₀ : Query} {ch₀ : List Hop}
    (h : m.withoutMerges.Chain q₀ ch₀) : ∀ q : Query, q₀ = q.withoutMerges →
      ∃ ch, m.Chain q ch ∧ ch₀ = ch.map Hop.withoutMerges := by
  induction h with
  | @leaf d₀ hrule =>
    rintro (d | e | e) ⟨⟩
    exact ⟨[.column d], .leaf hrule, rfl⟩
  | composite hrule hsingle he hpart hpartSingle _ ih =>
    rintro (d | e | e) ⟨⟩
    obtain ⟨f, hf, rfl⟩ := m.referencedEntity_withoutMerges_iff.mp he
    rw [Entity.declarations_withoutMerges] at hpart
    obtain ⟨part, hmem, rfl⟩ := List.mem_map.mp hpart
    obtain ⟨ch, hch, rfl⟩ := ih (.columns part) rfl
    exact ⟨.column d :: ch, .composite hrule hsingle hf hmem hpartSingle hch, rfl⟩
  | reference hrule hsingle he _ ih =>
    rintro (d | e | e) ⟨⟩
    obtain ⟨f, hf, rfl⟩ := m.referencedEntity_withoutMerges_iff.mp he
    obtain ⟨ch, hch, rfl⟩ := ih (.keys f) rfl
    exact ⟨.column d :: ch, .reference hrule hsingle hf hch, rfl⟩
  | inherits hkind _ ih =>
    rintro (d | e | e) ⟨⟩
    obtain ⟨ch, hch, rfl⟩ := ih (.inherited e) rfl
    exact ⟨ch, .inherits hkind hch, rfl⟩
  | adds hd _ ih =>
    rintro (d | e | e) ⟨⟩
    rw [Entity.addedIdentity_withoutMerges] at hd
    obtain ⟨d, hmem, rfl⟩ := List.mem_map.mp hd
    obtain ⟨ch, hch, rfl⟩ := ih (.columns d) rfl
    exact ⟨ch, .adds hmem hch, rfl⟩
  | inlines hd hf _ ih =>
    rintro (d | e | e) ⟨⟩
    rw [Entity.inlineCommons_withoutMerges] at hd
    obtain ⟨d, hmem, rfl⟩ := List.mem_map.mp hd
    obtain ⟨f, hlink, rfl⟩ := m.referencedEntity_withoutMerges_iff.mp hf
    obtain ⟨ch, hch, rfl⟩ := ih (.keys f) rfl
    exact ⟨.inlined d :: ch, .inlines hmem hlink hch, rfl⟩
  | baseInherits hb hkind _ ih =>
    rintro (d | e | e) ⟨⟩
    obtain ⟨b, hbase, rfl⟩ := m.baseEntity_withoutMerges_iff.mp hb
    obtain ⟨ch, hch, rfl⟩ := ih (.inherited b) rfl
    exact ⟨ch, .baseInherits hbase hkind hch, rfl⟩
  | baseAdds hb hd _ ih =>
    rintro (d | e | e) ⟨⟩
    obtain ⟨b, hbase, rfl⟩ := m.baseEntity_withoutMerges_iff.mp hb
    rw [Entity.addedIdentity_withoutMerges] at hd
    obtain ⟨d, hmem, rfl⟩ := List.mem_map.mp hd
    rw [Entity.identityRename?_withoutMerges, renamedBy_withoutMerges] at ih
    obtain ⟨ch, hch, rfl⟩ := ih (.columns (renamedBy e.identityRename? d)) rfl
    exact ⟨ch, .baseAdds hbase hmem hch, rfl⟩
  | baseInlines hb hd hf _ ih =>
    rintro (d | e | e) ⟨⟩
    obtain ⟨b, hbase, rfl⟩ := m.baseEntity_withoutMerges_iff.mp hb
    rw [Entity.inlineCommons_withoutMerges] at hd
    obtain ⟨d, hmem, rfl⟩ := List.mem_map.mp hd
    obtain ⟨f, hlink, rfl⟩ := m.referencedEntity_withoutMerges_iff.mp hf
    obtain ⟨ch, hch, rfl⟩ := ih (.keys f) rfl
    exact ⟨.inlined d :: ch, .baseInlines hbase hmem hlink hch, rfl⟩

/-- Deleting merge directives changes no chain. -/
theorem chain_withoutMerges_iff {q : Query} {ch₀ : List Hop} :
    m.withoutMerges.Chain q.withoutMerges ch₀ ↔
      ∃ ch, m.Chain q ch ∧ ch₀ = ch.map Hop.withoutMerges := by
  constructor
  · intro h
    exact h.of_withoutMerges q rfl
  · rintro ⟨ch, hch, rfl⟩
    exact hch.withoutMerges

end Model

/-! ### Plain layers -/

namespace Strategy

/-- The layers that are not skip layers. -/
def plain (s : Strategy) : List Layer :=
  s.layers.filter fun l => l.skip?.isNone

/-- The paths of the skip layers, the latest first. -/
def skips (s : Strategy) : List (List (List String)) :=
  s.layers.filterMap Layer.skip?

variable {s s' : Strategy}

@[simp] theorem plain_suppressKeys (s : Strategy) :
    s.suppressKeys.plain = .suppressKeys :: s.plain :=
  rfl

private theorem filter_dropLeadingSkip (layers : List Layer) :
    (dropLeadingSkip layers).filter (fun l => l.skip?.isNone) =
      layers.filter fun l => l.skip?.isNone := by
  unfold dropLeadingSkip
  split <;> rfl

private theorem filter_rerootSkip (name : String) (layers : List Layer) :
    (rerootSkip name layers).filter (fun l => l.skip?.isNone) =
      layers.filter fun l => l.skip?.isNone := by
  fun_induction rerootSkip name layers with
  | case1 => rfl
  | case2 | case3 => simp [Layer.skip?]
  | case4 layer rest _ ih => simp [List.filter_cons, ih]

@[simp] theorem plain_append (s : Strategy) (p : Property) :
    (s.append p).plain = .context (.of p) :: s.plain :=
  congrArg (List.cons _) (filter_rerootSkip p.fullName s.layers)

@[simp] theorem plain_ignoreRoleName (s : Strategy) :
    s.ignoreRoleName.plain = .ignoreRoleName :: s.plain :=
  congrArg (List.cons _) (filter_dropLeadingSkip s.layers)

@[simp] theorem plain_skipPaths (s : Strategy) (paths : List (List String)) :
    (s.skipPaths paths).plain = s.plain :=
  filter_dropLeadingSkip s.layers

theorem merging_of_mergeFree (s : Strategy) {p : Property} (h : p.mergeDirectives = []) :
    s.merging p = s := by
  simp [merging, h]

@[simp] theorem plain_merging (s : Strategy) (p : Property) : (s.merging p).plain = s.plain := by
  unfold merging
  split_ifs
  · rfl
  · exact s.plain_skipPaths _

end Strategy

/-- The plain layers that a property adds for those beyond it. -/
def Hop.plainLayers : Hop → List Strategy.Layer
  | column d =>
    if d.property.kind.columnRule = .composite then
      (if d.property.isOptional then [.suppressKeys] else []) ++
        if d.property.kind = .inlineCommon then [.context (.of d.property)] else []
    else [.context (.of d.property)]
  | inlined d => [.context (.of d.property)]

theorem Hop.plainLayers_withoutMerges (h : Hop) : h.withoutMerges.plainLayers = h.plainLayers := by
  cases h <;> rfl

namespace Strategy

variable {s s' : Strategy}

theorem plain_inside (s : Strategy) (h : Hop) : (s.inside h).plain = h.plainLayers ++ s.plain := by
  cases h with
  | inlined d => exact s.plain_append d.property
  | column d =>
    cases hrule : d.property.kind.columnRule with
    | reference => simp [inside, Hop.plainLayers, hrule]
    | composite =>
      simp only [inside, Hop.plainLayers, hrule, KeyDerivation.compositeStrategy]
      split_ifs <;> simp
    | scalar | descriptor | enumeration | schoolYear => simp [inside, Hop.plainLayers, hrule]

/-! ### Naming reads plain layers only -/

theorem mem_plain_iff {l : Layer} (hl : l.skip? = none) : l ∈ s.plain ↔ l ∈ s.layers := by
  simp [plain, hl]

theorem parentContexts_eq (s : Strategy) :
    s.parentContexts = (s.plain.filterMap Layer.context?).reverse := by
  rw [parentContexts, plain, List.filterMap_filter]
  congr 2
  funext l
  cases l <;> rfl

theorem columnNamer_congr (hplain : s.plain = s'.plain) (role base : String) :
    s.columnNamer role base = s'.columnNamer role base := by
  have hcontexts : s.parentContexts = s'.parentContexts := by
    rw [parentContexts_eq, parentContexts_eq, hplain]
  have hrole : Layer.ignoreRoleName ∈ s.layers ↔ Layer.ignoreRoleName ∈ s'.layers := by
    rw [← mem_plain_iff rfl, hplain, mem_plain_iff rfl]
  simp only [columnNamer, parentContext, parentPrefixes, hcontexts, hrole]

theorem suppressesKeys_congr (hplain : s.plain = s'.plain) :
    s.suppressesKeys = s'.suppressesKeys := by
  have hmem : Layer.suppressKeys ∈ s.layers ↔ Layer.suppressKeys ∈ s'.layers := by
    rw [← mem_plain_iff rfl, hplain, mem_plain_iff rfl]
  simp only [suppressesKeys, hmem]

theorem leafColumn?_congr (hplain : s.plain = s'.plain) (d : Declaration) :
    leafColumn? d s = leafColumn? d s' := by
  have hleaf (naming : ColumnNaming) (type : ScalarType) :
      leafColumn d s naming type = leafColumn d s' naming type := by
    simp only [leafColumn, suppressesKeys_congr hplain]
  simp only [leafColumn?, columnNamer_congr hplain]
  cases d.property.kind.columnRule with
  | scalar => exact congrArg (Option.map · _) (funext (hleaf _))
  | descriptor | enumeration | schoolYear => exact congrArg some (hleaf _ _)
  | composite | reference => rfl

theorem leafColumn?_withoutMerges (d : Declaration) (s : Strategy) :
    leafColumn? d.withoutMerges s = leafColumn? d s := by
  unfold leafColumn?
  rfl

private theorem columnOf?_singleton_congr (hplain : s.plain = s'.plain) {h h' : Hop}
    (hhop : h.withoutMerges = h'.withoutMerges) : s.columnOf? [h] = s'.columnOf? [h'] := by
  cases h with
  | inlined d =>
    cases h' with
    | inlined d' => rfl
    | column d' => simp [Hop.withoutMerges] at hhop
  | column d =>
    cases h' with
    | inlined d' => simp [Hop.withoutMerges] at hhop
    | column d' =>
      have hd : d.withoutMerges = d'.withoutMerges := by simpa [Hop.withoutMerges] using hhop
      simp only [columnOf?]
      rw [leafColumn?_congr hplain, ← leafColumn?_withoutMerges, hd, leafColumn?_withoutMerges]

theorem columnOf?_cons_cons (s : Strategy) (h k : Hop) (rest : List Hop) :
    s.columnOf? (h :: k :: rest) =
      ((s.inside h).columnOf? (k :: rest)).map (Column.prefixedBy h.name) := by
  cases h <;> rfl

/-- The column of a chain depends neither on skip layers nor on merge directives. -/
theorem columnOf?_congr (hplain : s.plain = s'.plain) {ch ch' : List Hop}
    (hch : ch.map Hop.withoutMerges = ch'.map Hop.withoutMerges) :
    s.columnOf? ch = s'.columnOf? ch' := by
  induction ch generalizing s s' ch' with
  | nil =>
    cases ch' with
    | nil => rfl
    | cons => simp at hch
  | cons h rest ih =>
    cases ch' with
    | nil => simp at hch
    | cons h' rest' =>
      rw [List.map_cons, List.map_cons, List.cons.injEq] at hch
      obtain ⟨hhop, hrest⟩ := hch
      cases rest with
      | nil =>
        obtain rfl : rest' = [] := by simpa using hrest.symm
        exact columnOf?_singleton_congr hplain hhop
      | cons k rest =>
        cases rest' with
        | nil => simp at hrest
        | cons k' rest' =>
          have hinside : (s.inside h).plain = (s'.inside h').plain := by
            rw [plain_inside, plain_inside, hplain, ← h.plainLayers_withoutMerges, hhop,
              h'.plainLayers_withoutMerges]
          have hname : h.name = h'.name := by
            rw [← h.name_withoutMerges, hhop, h'.name_withoutMerges]
          rw [columnOf?_cons_cons, columnOf?_cons_cons, ih hinside hrest, hname]

theorem columnOf?_map_withoutMerges (s : Strategy) (ch : List Hop) :
    s.columnOf? (ch.map Hop.withoutMerges) = s.columnOf? ch :=
  columnOf?_congr rfl (by simp)

/-! ### Skip layers -/

/-- The paths of the skip layers beyond a property of the given name. The latest layer is seen from
the property, the others stay as they are. -/
def rerootPaths (name : String) : List (List (List String)) → List (List (List String))
  | [] => []
  | paths :: rest =>
    match (paths.filter fun path => path.head? = some name).map List.tail with
    | [] => rest
    | tails => tails :: rest

theorem skips_append (s : Strategy) (p : Property) :
    (s.append p).skips = rerootPaths p.fullName s.skips := by
  have hreroot (layers : List Layer) : (rerootSkip p.fullName layers).filterMap Layer.skip? =
      rerootPaths p.fullName (layers.filterMap Layer.skip?) := by
    fun_induction rerootSkip p.fullName layers with
    | case1 => rfl
    | case2 rest paths htails => simp [Layer.skip?, rerootPaths, htails]
    | case3 rest paths htails =>
      simp only [Layer.skip?, List.filterMap_cons, rerootPaths]
    | case4 layer rest hlayer ih =>
      cases layer with
      | skip paths => exact absurd rfl (hlayer paths)
      | context | ignoreRoleName | leafNullable | suppressKeys =>
        simpa [Layer.skip?, List.filterMap_cons] using ih
  exact hreroot s.layers

@[simp] theorem skips_suppressKeys (s : Strategy) : s.suppressKeys.skips = s.skips :=
  rfl

theorem skippedPaths?_eq (s : Strategy) : s.skippedPaths? = s.skips.head? := by
  rw [skippedPaths?, skips, List.head?_filterMap]

/-! ### Without merge directives every chain passes -/

theorem buildsColumns_of_skips_eq_nil (hskips : s.skips = []) (p : Property) :
    s.buildsColumns p = true := by
  rw [buildsColumns, skippedPaths?_eq, hskips]
  rfl

theorem skips_append_of_eq_nil (hskips : s.skips = []) (p : Property) :
    (s.append p).skips = [] := by
  rw [skips_append, hskips]
  rfl

theorem skips_compositeStrategy_of_eq_nil (hskips : s.skips = []) (p : Property) :
    (KeyDerivation.compositeStrategy p s).skips = [] := by
  simp only [KeyDerivation.compositeStrategy]
  split_ifs <;> simp [hskips, skips_append_of_eq_nil]

theorem skips_inside_of_eq_nil (hskips : s.skips = []) {h : Hop}
    (hmerges : h.declaration.property.mergeDirectives = []) : (s.inside h).skips = [] := by
  cases h with
  | inlined d => exact skips_append_of_eq_nil hskips d.property
  | column d =>
    have hmerging : s.merging d.property = s := s.merging_of_mergeFree hmerges
    cases hrule : d.property.kind.columnRule with
    | reference =>
      simp only [inside, hrule, hmerging]
      exact skips_append_of_eq_nil hskips d.property
    | composite =>
      simp only [inside, hrule]
      exact skips_compositeStrategy_of_eq_nil hskips d.property
    | scalar | descriptor | enumeration | schoolYear =>
      simp only [inside, hrule]
      exact skips_append_of_eq_nil hskips d.property

/-- A chain without merge directives passes a strategy without skip layers. -/
theorem admits_of_mergeFree (hskips : s.skips = []) {ch : List Hop}
    (hch : ∀ h ∈ ch, h.declaration.property.mergeDirectives = []) : s.admits ch = true := by
  induction ch generalizing s with
  | nil => rfl
  | cons h rest ih =>
    have hpass : s.passes h = true := by
      cases h with
      | inlined d => rfl
      | column d => exact buildsColumns_of_skips_eq_nil hskips d.property
    rw [List.forall_mem_cons] at hch
    rw [admits, hpass, Bool.true_and]
    exact ih (skips_inside_of_eq_nil hskips hch.1) hch.2

end Strategy

/-! ### Merge directives never make a derivation fail -/

namespace KeyDerivation

variable {m : Model} {inner : KeyDerivation} {s : Strategy}

/-- The key of every inline common of an entity can be derived. -/
private def InlinesSucceed (m : Model) (inner : KeyDerivation) (e : Entity) (s : Strategy) : Prop :=
  ∀ d ∈ e.inlineCommons, ∃ f, m.referencedEntity e d.property = .ok f ∧
    ∃ cs, inner.keys f (s.append d.property) = .ok cs

private theorem exists_inlineKeys_iff {e : Entity} :
    (∃ cs, inlineKeys m inner e s = .ok cs) ↔ InlinesSucceed m inner e s := by
  rw [inlineKeys, collect_ok_iff]
  refine forall_congr' fun d => imp_congr_right fun _ => ?_
  simp only [bind_eq_ok_iff, pure_eq_ok_iff]
  constructor
  · rintro ⟨_, f, hf, cs, hcs, -⟩
    exact ⟨f, hf, cs, hcs⟩
  · rintro ⟨f, hf, cs, hcs⟩
    exact ⟨_, f, hf, cs, hcs, rfl⟩

private theorem exists_append_iff {x y z : BuildResult (List Column)} :
    (∃ cs, (do
      let a ← x
      let b ← y
      let c ← z
      return a ++ b ++ c) = .ok cs) ↔
      (∃ a, x = .ok a) ∧ (∃ b, y = .ok b) ∧ ∃ c, z = .ok c := by
  simp only [bind_eq_ok_iff, pure_eq_ok_iff]
  constructor
  · rintro ⟨_, a, ha, b, hb, c, hc, -⟩
    exact ⟨⟨a, ha⟩, ⟨b, hb⟩, c, hc⟩
  · rintro ⟨⟨a, ha⟩, ⟨b, hb⟩, c, hc⟩
    exact ⟨_, a, ha, b, hb, c, hc, rfl⟩

private theorem exists_keysOf_iff {e : Entity} : (∃ cs, keysOf m inner e s = .ok cs) ↔
    (e.kind.isSubclass = true → ∃ cs, inner.inheritedKeys e s = .ok cs) ∧
      (∀ d ∈ e.addedIdentity, ∃ cs, inner.columns d s = .ok cs) ∧ InlinesSucceed m inner e s := by
  rw [← exists_inlineKeys_iff, ← collect_ok_iff]
  unfold keysOf
  split_ifs with hkind <;> simp only [exists_append_iff, hkind]
  · simp
  · simp

private theorem exists_inheritedKeysOf_iff {e : Entity} :
    (∃ cs, inheritedKeysOf m inner e s = .ok cs) ↔ ∃ b, m.baseEntity e = .ok b ∧
      (b.kind.isSubclass = true → ∃ cs, inner.inheritedKeys b s = .ok cs) ∧
      (∀ d ∈ b.addedIdentity, ∃ cs, inner.columns (renamedBy e.identityRename? d) s = .ok cs) ∧
      InlinesSucceed m inner b s := by
  simp only [← exists_inlineKeys_iff, ← collect_ok_iff, inheritedKeysOf, bind_eq_ok_iff (x :=
    m.baseEntity e)]
  rw [exists_comm]
  refine exists_congr fun b => ?_
  rw [exists_and_left]
  refine and_congr_right fun _ => ?_
  split_ifs with hkind <;> simp only [exists_append_iff, hkind]
  · simp
  · simp

private theorem exists_compositeColumns_iff {d : Declaration}
    (hsingle : d.property.isCollection = false) :
    (∃ cs, compositeColumns m inner d s = .ok cs) ↔
      ∃ e, m.referencedEntity d.owner d.property = .ok e ∧
        ∀ part ∈ e.declarations, part.property.isCollection = false →
          ∃ cs, inner.columns part (compositeStrategy d.property s) = .ok cs := by
  simp only [compositeColumns, hsingle, Bool.false_eq_true, if_false, bind_eq_ok_iff,
    pure_eq_ok_iff]
  constructor
  · rintro ⟨_, e, he, parts, hparts, -⟩
    refine ⟨e, he, fun part hpart hpartSingle => collect_ok_iff.mp ⟨parts, hparts⟩ part ?_⟩
    exact List.mem_filter.mpr ⟨hpart, by simp [hpartSingle]⟩
  · rintro ⟨e, he, hparts⟩
    obtain ⟨parts, hcollect⟩ := collect_ok_iff.mpr fun part
        (hpart : part ∈ e.declarations.filter fun q => !q.property.isCollection) =>
      hparts part (List.mem_filter.mp hpart).1 (by simpa using (List.mem_filter.mp hpart).2)
    exact ⟨_, e, he, parts, hcollect, rfl⟩

private theorem exists_referenceColumns_iff {d : Declaration}
    (hsingle : d.property.isCollection = false) :
    (∃ cs, referenceColumns m inner d s = .ok cs) ↔
      ∃ e, m.referencedEntity d.owner d.property = .ok e ∧
        ∃ cs, inner.keys e ((s.merging d.property).append d.property) = .ok cs := by
  simp only [referenceColumns, hsingle, Bool.false_eq_true, if_false, bind_eq_ok_iff,
    pure_eq_ok_iff]
  constructor
  · rintro ⟨_, e, he, keys, hkeys, -⟩
    exact ⟨e, he, keys, hkeys⟩
  · rintro ⟨e, he, keys, hkeys⟩
    exact ⟨_, e, he, keys, hkeys, rfl⟩

private theorem exists_columnsBy_iff {d : Declaration} :
    (∃ cs, columnsBy m inner d.property.kind.columnRule d s = .ok cs) ↔
      (s.buildsColumns d.property = true → d.property.isCollection = false →
        (d.property.kind.columnRule = .composite →
          ∃ e, m.referencedEntity d.owner d.property = .ok e ∧
            ∀ part ∈ e.declarations, part.property.isCollection = false →
              ∃ cs, inner.columns part (compositeStrategy d.property s) = .ok cs) ∧
        (d.property.kind.columnRule = .reference →
          ∃ e, m.referencedEntity d.owner d.property = .ok e ∧
            ∃ cs, inner.keys e ((s.merging d.property).append d.property) = .ok cs)) := by
  cases hbuilds : s.buildsColumns d.property with
  | false => simp [columnsBy, hbuilds]
  | true =>
    by_cases hleaf : d.property.kind.columnRule.isLeaf = true
    · obtain ⟨x, hx⟩ := leafColumn?_isSome hleaf s
      have hcomposite : d.property.kind.columnRule ≠ .composite := by
        intro hrule
        simp [hrule, ColumnRule.isLeaf] at hleaf
      have hreference : d.property.kind.columnRule ≠ .reference := by
        intro hrule
        simp [hrule, ColumnRule.isLeaf] at hleaf
      simp [columnsBy_leaf hbuilds hx, hcomposite, hreference]
    · cases hrule : d.property.kind.columnRule with
      | composite =>
        cases hcollection : d.property.isCollection with
        | true => simp [columnsBy, hbuilds, compositeColumns, hcollection]
        | false => simp [columnsBy, hbuilds, exists_compositeColumns_iff hcollection]
      | reference =>
        cases hcollection : d.property.isCollection with
        | true => simp [columnsBy, hbuilds, referenceColumns, hcollection]
        | false => simp [columnsBy, hbuilds, exists_referenceColumns_iff hcollection]
      | scalar | descriptor | enumeration | schoolYear => simp [hrule, ColumnRule.isLeaf] at hleaf

/-- The keys of inline commons can be derived if they can without merge directives. -/
private theorem inlinesSucceed_of_withoutMerges {inner₀ : KeyDerivation} {s₀ : Strategy}
    (hinner : ∀ f (t t₀ : Strategy), t₀.skips = [] →
      (∃ us, inner₀.keys f.withoutMerges t₀ = .ok us) → ∃ cs, inner.keys f t = .ok cs)
    (hskips : s₀.skips = []) {e : Entity}
    (h : InlinesSucceed m.withoutMerges inner₀ e.withoutMerges s₀) :
    InlinesSucceed m inner e s := by
  intro d hd
  obtain ⟨f₀, hf₀, hkeys⟩ := h d.withoutMerges (by
    rw [Entity.inlineCommons_withoutMerges]
    exact List.mem_map_of_mem hd)
  obtain ⟨f, hf, rfl⟩ := m.referencedEntity_withoutMerges_iff.mp hf₀
  exact ⟨f, hf, hinner f _ _ (Strategy.skips_append_of_eq_nil hskips _) hkeys⟩

/-- A derivation that succeeds without merge directives succeeds with them. -/
theorem exists_ask_of_withoutMerges (m : Model) (n : Nat) (q : Query) (s s₀ : Strategy)
    (hskips : s₀.skips = [])
    (h : ∃ us, (within m.withoutMerges n).ask s₀ q.withoutMerges = .ok us) :
    ∃ cs, (within m n).ask s q = .ok cs := by
  induction n generalizing q s s₀ with
  | zero =>
    obtain ⟨us, hus⟩ := h
    cases q <;> simp [ask, within, exhausted, Query.withoutMerges] at hus
  | succ n ih =>
    cases q with
    | columns d =>
      have hstep := exists_columnsBy_iff.mp h (Strategy.buildsColumns_of_skips_eq_nil hskips _)
      refine exists_columnsBy_iff.mpr fun _ hsingle =>
        ⟨fun hrule => ?_, fun hrule => ?_⟩
      · obtain ⟨e₀, he₀, hparts⟩ := (hstep hsingle).1 hrule
        obtain ⟨e, he, rfl⟩ := m.referencedEntity_withoutMerges_iff.mp he₀
        refine ⟨e, he, fun part hpart hpartSingle => ?_⟩
        refine ih (.columns part) _ (compositeStrategy d.property.withoutMerges s₀)
          (Strategy.skips_compositeStrategy_of_eq_nil hskips _) (hparts part.withoutMerges ?_ hpartSingle)
        rw [Entity.declarations_withoutMerges]
        exact List.mem_map_of_mem hpart
      · obtain ⟨e₀, he₀, hkeys⟩ := (hstep hsingle).2 hrule
        obtain ⟨e, he, rfl⟩ := m.referencedEntity_withoutMerges_iff.mp he₀
        exact ⟨e, he, ih (.keys e) _ _ (Strategy.skips_append_of_eq_nil hskips _) hkeys⟩
    | keys e =>
      obtain ⟨hinherited, hadded, hinlined⟩ := exists_keysOf_iff.mp h
      refine exists_keysOf_iff.mpr ⟨fun hkind => ih (.inherited e) s s₀ hskips (hinherited hkind),
        fun d hd => ih (.columns d) s s₀ hskips (hadded _ ?_),
        inlinesSucceed_of_withoutMerges (fun f => ih (.keys f)) hskips hinlined⟩
      rw [Entity.addedIdentity_withoutMerges]
      exact List.mem_map_of_mem hd
    | inherited e =>
      obtain ⟨b₀, hb₀, hinherited, hadded, hinlined⟩ := exists_inheritedKeysOf_iff.mp h
      obtain ⟨b, hb, rfl⟩ := m.baseEntity_withoutMerges_iff.mp hb₀
      refine exists_inheritedKeysOf_iff.mpr ⟨b, hb,
        fun hkind => ih (.inherited b) s s₀ hskips (hinherited hkind), fun d hd => ?_,
        inlinesSucceed_of_withoutMerges (fun f => ih (.keys f)) hskips hinlined⟩
      have hcolumns := hadded d.withoutMerges (by
        rw [Entity.addedIdentity_withoutMerges]
        exact List.mem_map_of_mem hd)
      rw [Entity.identityRename?_withoutMerges, renamedBy_withoutMerges] at hcolumns
      exact ih (.columns (renamedBy e.identityRename? d)) s s₀ hskips hcolumns

end KeyDerivation

end Tabular
