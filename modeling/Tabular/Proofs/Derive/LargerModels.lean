import Mathlib.Tactic.Common
import Tabular.Inheritance
import Tabular.Lookup.Descriptor
import Tabular.Proofs.Derive.KeyParts
import Tabular.Proofs.Derive.Locality

/-!
# Building in larger models

The tables of an entity are built from the entities that its links lead to and from stored tables.
If another model follows the links of these entities in the same way and another schema has the same
tables at their addresses, whatever else they contain, then the entity has the same tables there.
Since a larger model allows more steps, a derivation that ends still ends.

## Main definitions

* `Model.IsLinked`: all links of the model lead to entities of the model.
* `Model.ExtendedBy`: a model with further entities.
* `TableContext.onto`: the same derivation in another model and on another schema.
* `TableContext.ServedBy`: a model and a schema have all that a derivation reads of its own.

## Main results

* `Model.ExtendedBy.keepsLinks`: further entities leave the links of a model alone.
* `TableContext.ServedBy.entityTables`: the tables of properties.
* `TableContext.ServedBy.mainTable`, `TableContext.ServedBy.descriptorTable`,
  `TableContext.ServedBy.subclassTable`, `TableContext.ServedBy.extensionTable`: the tables of whole
  entities.
-/

namespace Tabular

/-! ### Further entities -/

/-- All links of the model lead to entities of the model. -/
def Model.IsLinked (m : Model) : Prop :=
  ∀ e ∈ m.entities, (∀ id ∈ e.baseEntity, id < m.entities.length) ∧
    (∀ id ∈ e.mapType, id < m.entities.length) ∧
    ∀ p ∈ e.properties, ∀ id ∈ p.referencedEntity, id < m.entities.length

instance (m : Model) : Decidable m.IsLinked :=
  inferInstanceAs (Decidable (∀ e ∈ m.entities, (∀ id ∈ e.baseEntity, id < m.entities.length) ∧
    (∀ id ∈ e.mapType, id < m.entities.length) ∧
    ∀ p ∈ e.properties, ∀ id ∈ p.referencedEntity, id < m.entities.length))

/-- The model `m'` has the entities of `m`, whose links stay among them, and then the entities
`added`. -/
structure Model.ExtendedBy (m : Model) (added : List Entity) (m' : Model) : Prop where
  entities : m'.entities = m.entities ++ added
  indexed : m'.IsIndexed
  linked : m.IsLinked

namespace Model.ExtendedBy

variable {m m' : Model} {added : List Entity} {e : Entity} {id : EntityId}

theorem mem_entities (h : m.ExtendedBy added m') (he : e ∈ m.entities) : e ∈ m'.entities :=
  h.entities ▸ List.mem_append_left added he

theorem entity?_eq (h : m.ExtendedBy added m') (hid : id < m.entities.length) :
    m'.entity? id = m.entity? id := by
  rw [entity?, entity?, h.entities, List.getElem?_append_left hid]

theorem entity?_of_eq_some (h : m.ExtendedBy added m') (he : m.entity? id = some e) :
    m'.entity? id = some e :=
  (h.entity?_eq (List.getElem?_eq_some_iff.mp he).1).trans he

theorem isIndexed (h : m.ExtendedBy added m') : m.IsIndexed := by
  have hindexed := h.indexed
  rw [IsIndexed, h.entities, List.map_append, List.length_append, List.range_add] at hindexed
  exact (List.append_inj hindexed (by simp)).1

theorem id_lt (h : m.ExtendedBy added m') (he : e ∈ m.entities) : e.id < m.entities.length :=
  (List.getElem?_eq_some_iff.mp (h.isIndexed.entity?_id he)).1

theorem le_id (h : m.ExtendedBy added m') (he : e ∈ added) : m.entities.length ≤ e.id := by
  have hindexed := h.indexed
  rw [IsIndexed, h.entities, List.map_append, List.length_append, List.range_add] at hindexed
  have hids := (List.append_inj hindexed (by simp)).2
  have hmem : e.id ∈ added.map Entity.id := List.mem_map_of_mem he
  rw [hids] at hmem
  obtain ⟨i, -, hi⟩ := List.mem_map.mp hmem
  exact hi ▸ Nat.le_add_right m.entities.length i

theorem keepsLinks (h : m.ExtendedBy added m') : m.KeepsLinks m' := by
  have hlink (link : Option EntityId) (hlink : ∀ id ∈ link, id < m.entities.length) :
      link.bind m'.entity? = link.bind m.entity? := by
    cases link with
    | none => rfl
    | some id => exact h.entity?_eq (hlink id rfl)
  refine ⟨fun e he => ?_, fun e he p hp => ?_⟩
  · rw [baseEntity, baseEntity, hlink _ (h.linked e he).1]
  · rw [referencedEntity, referencedEntity, hlink _ ((h.linked e he).2.2 p hp)]

theorem depthLimit_le (h : m.ExtendedBy added m') : m.depthLimit ≤ m'.depthLimit := by
  rw [depthLimit, depthLimit, h.entities, List.length_append]
  omega

theorem ofKind (h : m.ExtendedBy added m') (kind : EntityKind) :
    m'.ofKind kind = m.ofKind kind ++ added.filter fun e => e.kind = kind := by
  rw [Model.ofKind, Model.ofKind, h.entities, List.filter_append]

end Model.ExtendedBy

/-! ### Columns and keys -/

/-- Columns and keys are found in a model that keeps links and allows as many steps. -/
theorem Model.KeepsLinks.keptIn_derivation {m m' : Model} (hm : m.KeepsLinks m')
    (hdepth : m.depthLimit ≤ m'.depthLimit) {q : Query} (hq : q.IsOf m) (s : Strategy) :
    KeptIn (m.derivation.ask s q) (m'.derivation.ask s q) := by
  intro columns h
  rw [Model.derivation, ← hm.ask_within m.depthLimit hq] at h
  exact KeyDerivation.within_mono m' hdepth q s columns h

namespace TableContext

/-- The same derivation in another model and on another schema. -/
def onto (ctx : TableContext) (m : Model) (repo : Schema) : TableContext :=
  { ctx with model := m, stored := repo }

/-- The model `m` and the schema `repo` have all that the derivation reads of its own. -/
structure ServedBy (ctx : TableContext) (m : Model) (repo : Schema) : Prop where
  links : ctx.model.KeepsLinks m
  depth : ctx.model.depthLimit ≤ m.depthLimit
  schoolYears : (m.ofKind .schoolYearEnumeration).head? =
    (ctx.model.ofKind .schoolYearEnumeration).head?
  stored : ∀ key t, ctx.stored.get? key = some t → repo.get? key = some t
  registered : ∀ e ∈ ctx.model.entities,
    repo.entityTableKey? e.id = ctx.stored.entityTableKey? e.id

namespace ServedBy

variable {ctx : TableContext} {m : Model} {repo : Schema} {d : Declaration} {e : Entity}

theorem columns (h : ctx.ServedBy m repo) (hd : ctx.model.Declares d) (s : Strategy) :
    KeptIn (ctx.model.columns d s) (m.columns d s) :=
  h.links.keptIn_derivation h.depth (show (Query.columns d).IsOf ctx.model from hd) s

theorem keys (h : ctx.ServedBy m repo) (he : e ∈ ctx.model.entities) (s : Strategy) :
    KeptIn (ctx.model.keys e s) (m.keys e s) :=
  h.links.keptIn_derivation h.depth (show (Query.keys e).IsOf ctx.model from he) s

theorem inheritedKeys (h : ctx.ServedBy m repo) (he : e ∈ ctx.model.entities) (s : Strategy) :
    KeptIn (ctx.model.inheritedKeys e s) (m.inheritedKeys e s) :=
  h.links.keptIn_derivation h.depth (show (Query.inherited e).IsOf ctx.model from he) s

theorem referencedEntity (h : ctx.ServedBy m repo) (hd : ctx.model.Declares d) :
    m.referencedEntity d.owner d.property = ctx.model.referencedEntity d.owner d.property :=
  h.links.referencedEntity hd

/-! ### Properties -/

theorem lookupTarget (h : ctx.ServedBy m repo) (hd : ctx.model.Declares d) :
    (ctx.onto m repo).lookupTarget d = ctx.lookupTarget d := by
  unfold TableContext.lookupTarget
  simp only [onto, h.schoolYears, h.referencedEntity hd]

theorem collectionTable (h : ctx.ServedBy m repo) (hd : ctx.model.Declares d) (scope : Scope)
    (s : Strategy) (lookup : Option LookupTarget) (set : TableSet) :
    KeptIn (ctx.collectionTable d scope s lookup set)
      ((ctx.onto m repo).collectionTable d scope s lookup set) :=
  (h.columns hd _).bind fun _ _ => .refl _

theorem scalarTables (h : ctx.ServedBy m repo) (hd : ctx.model.Declares d) (scope : Scope)
    (s : Strategy) (set : TableSet) :
    KeptIn (ctx.scalarTables d scope s set) ((ctx.onto m repo).scalarTables d scope s set) := by
  unfold TableContext.scalarTables
  split_ifs
  · exact h.collectionTable hd scope s none set
  · exact (h.columns hd s).bind fun _ _ => .refl _

theorem lookupTables (h : ctx.ServedBy m repo) (hd : ctx.model.Declares d) (scope : Scope)
    (s : Strategy) (set : TableSet) :
    KeptIn (ctx.lookupTables d scope s set) ((ctx.onto m repo).lookupTables d scope s set) := by
  unfold TableContext.lookupTables
  rw [h.lookupTarget hd]
  refine (KeptIn.refl _).bind fun target _ => ?_
  split_ifs
  · exact h.collectionTable hd scope s (some target) set
  · exact (h.columns hd s).bind fun _ _ => .refl _

theorem referenceTables (h : ctx.ServedBy m repo) (hd : ctx.model.Declares d) (scope : Scope)
    (s : Strategy) (set : TableSet) :
    KeptIn (ctx.referenceTables d scope s set)
      ((ctx.onto m repo).referenceTables d scope s set) := by
  refine (KeptIn.of_eq (h.referencedEntity hd)).bind fun referenced hreferenced => ?_
  have he : referenced ∈ ctx.model.entities := Model.mem_entities_of_referencedEntity hreferenced
  split_ifs
  · exact (h.keys he _).bind fun _ _ => .refl _
  · exact .refl _
  · exact (h.columns hd s).bind fun _ _ => .refl _

section Composites

variable {inner inner' : EntityBuilder}
  (hinner : ∀ e ∈ ctx.model.entities, ∀ scope s set,
    KeptIn (inner e scope s set) (inner' e scope s set))

include hinner

theorem commonTables (h : ctx.ServedBy m repo) (hd : ctx.model.Declares d) (scope : Scope)
    (s : Strategy) (set : TableSet) :
    KeptIn (ctx.commonTables inner d scope s set)
      ((ctx.onto m repo).commonTables inner' d scope s set) := by
  refine (KeptIn.of_eq (h.referencedEntity hd)).bind fun common hcommon => ?_
  have he : common ∈ ctx.model.entities := Model.mem_entities_of_referencedEntity hcommon
  refine (h.keys he _).bind fun commonKeys _ => ?_
  exact (hinner common he _ _ _).bind fun _ _ => .refl _

theorem addedTable (he : e ∈ ctx.model.entities) (parent : Table) (key : TableKey)
    (tableReason : TableReason) (reason : ForeignKeyReason) (s : Strategy) (set : TableSet) :
    KeptIn (ctx.addedTable inner e parent key tableReason reason s set)
      ((ctx.onto m repo).addedTable inner' e parent key tableReason reason s set) :=
  (hinner e he _ _ _).bind fun _ _ => .refl _

theorem commonExtensionTables (h : ctx.ServedBy m repo) (hd : ctx.model.Declares d) (scope : Scope)
    (s : Strategy) (set : TableSet) :
    KeptIn (ctx.commonExtensionTables inner d scope s set)
      ((ctx.onto m repo).commonExtensionTables inner' d scope s set) := by
  refine (KeptIn.of_eq (h.referencedEntity hd)).bind fun extension hextension => ?_
  have he : extension ∈ ctx.model.entities := Model.mem_entities_of_referencedEntity hextension
  intro next hnext
  cases hget : ctx.stored.get? (extendedKey d scope s set) with
  | none =>
    rw [extendedKey] at hget
    simp [hget] at hnext
  | some parent =>
    have hget' : (ctx.onto m repo).stored.get? (extendedKey d scope s set) = some parent :=
      h.stored _ parent hget
    rw [extendedKey] at hget hget'
    simp only [hget] at hnext
    simp only [hget']
    exact addedTable hinner he parent _ _ _ _ set next hnext

theorem propertyTablesBy (h : ctx.ServedBy m repo) (hd : ctx.model.Declares d) (scope : Scope)
    (s : Strategy) (set : TableSet) :
    KeptIn (ctx.propertyTablesBy inner d scope s set)
      ((ctx.onto m repo).propertyTablesBy inner' d scope s set) := by
  have hinlined (scope : Scope) (s : Strategy) :
      KeptIn (ctx.model.referencedEntity d.owner d.property >>= fun e => inner e scope s set)
        (m.referencedEntity d.owner d.property >>= fun e => inner' e scope s set) := by
    refine (KeptIn.of_eq (h.referencedEntity hd)).bind fun e he => ?_
    exact hinner e (Model.mem_entities_of_referencedEntity he) scope s set
  unfold TableContext.propertyTablesBy
  cases d.property.kind.tableRule with
  | scalar => exact h.scalarTables hd scope s set
  | lookup => exact h.lookupTables hd scope s set
  | reference => exact h.referenceTables hd scope s set
  | common =>
    dsimp only
    split_ifs
    · exact h.commonExtensionTables hinner hd scope s set
    · exact h.commonTables hinner hd scope s set
  | choice => exact hinlined _ _
  | inlineCommon => exact hinlined _ _

end Composites

/-! ### Entities -/

/-- The tables of the properties of an entity, if there are steps enough. -/
theorem entityTablesWithin (h : ctx.ServedBy m repo) {n k : Nat} (hnk : n ≤ k)
    (he : e ∈ ctx.model.entities) (scope : Scope) (s : Strategy) (set : TableSet) :
    KeptIn (ctx.entityTablesWithin n e scope s set)
      ((ctx.onto m repo).entityTablesWithin k e scope s set) := by
  induction n generalizing k e scope s set with
  | zero => exact .of_error _ _
  | succ n ih =>
    obtain ⟨k, rfl⟩ : ∃ k', k = k' + 1 := ⟨k - 1, by omega⟩
    refine .foldlM (fun set d hd => ?_) set
    refine h.propertyTablesBy (fun f hf scope s set => ?_) (Model.declares_of_mem he hd) scope s set
    exact ih (by omega) hf scope s set

theorem entityTables (h : ctx.ServedBy m repo) (he : e ∈ ctx.model.entities) (scope : Scope)
    (s : Strategy) (set : TableSet) :
    KeptIn (ctx.entityTables e scope s set) ((ctx.onto m repo).entityTables e scope s set) :=
  h.entityTablesWithin h.depth he scope s set

theorem mainTable (h : ctx.ServedBy m repo) (he : e ∈ ctx.model.entities) (reason : TableReason) :
    KeptIn (ctx.mainTable e reason) ((ctx.onto m repo).mainTable e reason) := by
  refine (h.keys he .root).bind fun keys _ => ?_
  dsimp only
  split_ifs
  · exact (h.inheritedKeys he .root).bind fun inherited _ => h.entityTables he _ _ _
  · exact (KeptIn.refl _).bind fun inherited _ => h.entityTables he _ _ _

theorem descriptorTable (h : ctx.ServedBy m repo) (he : e ∈ ctx.model.entities) :
    KeptIn (ctx.descriptorTable e) ((ctx.onto m repo).descriptorTable e) :=
  h.entityTables he _ _ _

theorem storedTable (h : ctx.ServedBy m repo) (he : e ∈ ctx.model.entities) (requester : Entity) :
    KeptIn (ctx.storedTable requester e) ((ctx.onto m repo).storedTable requester e) := by
  rintro ⟨key, t⟩ hstored
  obtain ⟨hkey, hget⟩ := storedTable_eq_ok hstored
  have hkey' : (ctx.onto m repo).stored.entityTableKey? e.id = some key :=
    (h.registered e he).trans hkey
  have hget' : (ctx.onto m repo).stored.get? key = some t := h.stored key t hget
  simp only [TableContext.storedTable, hkey', hget']

theorem baseKey (h : ctx.ServedBy m repo) (he : e ∈ ctx.model.entities) (tableId : String) :
    KeptIn (ctx.baseKey e tableId) ((ctx.onto m repo).baseKey e tableId) := by
  refine (KeptIn.of_eq (h.links.base e he)).bind fun base hbase => ?_
  have hmem : base ∈ ctx.model.entities := Model.mem_entities_of_baseEntity hbase
  refine (h.storedTable hmem e).bind fun found _ => ?_
  refine (h.keys hmem .root).bind fun baseKeys _ => ?_
  exact (h.inheritedKeys he .root).bind fun _ _ => .refl _

theorem subclassTable (h : ctx.ServedBy m repo) (he : e ∈ ctx.model.entities) :
    KeptIn (ctx.subclassTable e) ((ctx.onto m repo).subclassTable e) :=
  (h.mainTable he .subclass).bind fun _ _ => (h.baseKey he e.name).bind fun _ _ => .refl _

theorem extensionTable (h : ctx.ServedBy m repo) (he : e ∈ ctx.model.entities) :
    KeptIn (ctx.extensionTable e) ((ctx.onto m repo).extensionTable e) := by
  refine (KeptIn.of_eq (h.links.base e he)).bind fun base hbase => ?_
  refine (h.storedTable (Model.mem_entities_of_baseEntity hbase) e).bind fun found _ => ?_
  exact addedTable (fun f hf => h.entityTables hf) he _ _ _ _ _ _

end ServedBy

end TableContext

end Tabular
