import Mathlib.Logic.Relation
import Mathlib.Tactic.Common
import Tabular.Proofs.Derive.Contributions
import Tabular.Proofs.Derive.FirmKeys

/-!
# Links behind successful builds

Each kind of property follows its link at a point of its own: a lookup before it asks whether it is
a collection, a reference before it asks whether its path is skipped, a composite before it builds
anything. Whatever way a property takes, it does not succeed without its link. So if the tables of
an entity can be built, no link dangles among its properties and the properties of the entities
that its composites lead to.

## Main definitions

* `Model.Resolves`: a property's link leads to an entity, if the kind of the property needs one.
* `Model.HasPart`: a composite of an entity leads to another entity.

## Main results

* `TableContext.resolves_of_propertyTablesBy`: a property that is built has its link.
* `TableContext.exists_inner_of_propertyTablesBy`: with a composite, its entity is built.
* `TableContext.links_resolve_of_entityTables`: an entity that is built has all its links.
-/

namespace Tabular

theorem PropertyKind.requiresReferencedEntity_of_scalar {k : PropertyKind}
    (h : k.tableRule = .scalar) : k.requiresReferencedEntity = false := by
  cases k <;> simp_all [tableRule, requiresReferencedEntity]

namespace Model

/-- The link of the property leads to an entity of the model, if its kind needs one. -/
def Resolves (m : Model) (p : Property) : Prop :=
  p.kind.requiresReferencedEntity = true →
    ∃ i e, p.referencedEntity = some i ∧ m.entity? i = some e

/-- A common, choice or inline common of the entity leads to the other entity. -/
def HasPart (m : Model) (e f : Entity) : Prop :=
  ∃ p ∈ e.properties, p.kind.columnRule = .composite ∧ m.referencedEntity e p = .ok f

variable {m : Model} {e owner : Entity} {p : Property}

theorem resolves_of_referencedEntity (h : m.referencedEntity owner p = .ok e) : m.Resolves p := by
  intro _
  obtain ⟨i, hi, hentity⟩ := exists_of_referencedEntity h
  exact ⟨i, e, hi, hentity⟩

theorem resolves_of_not_required (h : p.kind.requiresReferencedEntity = false) : m.Resolves p :=
  fun hrequired => absurd hrequired (by simp [h])

end Model

namespace TableContext

variable {ctx : TableContext} {inner : EntityBuilder} {d : Declaration} {e f : Entity}
  {scope : Scope} {s : Strategy} {set next : TableSet}

/-! ### One property -/

/-- There is no lookup table without a link, save that of school years. -/
theorem resolves_of_lookupTarget {target : LookupTarget} (h : ctx.lookupTarget d = .ok target) :
    ctx.model.Resolves d.property := by
  unfold lookupTarget at h
  split at h
  · rename_i hkind
    exact Model.resolves_of_not_required (by rw [hkind]; rfl)
  all_goals
    obtain ⟨g, hg, -⟩ := bind_eq_ok_iff.mp h
    exact Model.resolves_of_referencedEntity hg

/-- A property that is built has its link, whether or not it adds anything. -/
theorem resolves_of_propertyTablesBy (h : ctx.propertyTablesBy inner d scope s set = .ok next) :
    ctx.model.Resolves d.property := by
  have hlink {g : Entity → BuildResult TableSet}
      (h : ctx.model.referencedEntity d.owner d.property >>= g = .ok next) :
      ctx.model.Resolves d.property := by
    obtain ⟨e, he, -⟩ := bind_eq_ok_iff.mp h
    exact Model.resolves_of_referencedEntity he
  unfold propertyTablesBy at h
  split at h
  case h_1 hrule =>
    exact Model.resolves_of_not_required (PropertyKind.requiresReferencedEntity_of_scalar hrule)
  case h_2 =>
    obtain ⟨target, htarget, -⟩ := bind_eq_ok_iff.mp h
    exact resolves_of_lookupTarget htarget
  case h_4 =>
    split_ifs at h
    · exact hlink h
    · exact hlink h
  all_goals exact hlink h

/-- A composite is built only if the properties of the entity it leads to are. -/
theorem exists_inner_of_propertyTablesBy (hrule : d.property.kind.columnRule = .composite)
    (hf : ctx.model.referencedEntity d.owner d.property = .ok f)
    (h : ctx.propertyTablesBy inner d scope s set = .ok next) :
    ∃ scope' s' set' next', inner f scope' s' set' = .ok next' := by
  unfold propertyTablesBy at h
  rcases (PropertyKind.columnRule_eq_composite_iff _).mp hrule with hrule | hrule | hrule <;>
    simp only [hrule] at h
  · split_ifs at h
    · simp only [commonExtensionTables, hf, bind_eq_ok_iff, Except.ok.injEq] at h
      obtain ⟨_, rfl, h⟩ := h
      split at h
      · simp at h
      · obtain ⟨mid, hmid, -⟩ := bind_eq_ok_iff.mp h
        exact ⟨_, _, _, mid, hmid⟩
    · simp only [commonTables, hf, bind_eq_ok_iff, Except.ok.injEq] at h
      obtain ⟨_, rfl, _, -, mid, hmid, -⟩ := h
      exact ⟨_, _, _, mid, hmid⟩
  · simp only [choiceTables, hf, bind_eq_ok_iff, Except.ok.injEq] at h
    obtain ⟨_, rfl, h⟩ := h
    exact ⟨_, _, _, next, h⟩
  · simp only [inlineCommonTables, hf, bind_eq_ok_iff, Except.ok.injEq] at h
    obtain ⟨_, rfl, h⟩ := h
    exact ⟨_, _, _, next, h⟩

/-! ### Whole entities -/

/-- If the properties of an entity are built, each of them is. -/
theorem exists_property_of_entityTablesWithin {n : Nat} (hd : d ∈ e.declarations)
    (h : ctx.entityTablesWithin n e scope s set = .ok next) : ∃ k mid mid', n = k + 1 ∧
      ctx.propertyTablesBy (ctx.entityTablesWithin k) d scope s mid = .ok mid' := by
  cases n with
  | zero => simp [entityTablesWithin] at h
  | succ k =>
    obtain ⟨-, -, mid, mid', -, -, hmid, -⟩ := foldlM_ok_of_mem h hd
    exact ⟨k, mid, mid', rfl, hmid⟩

/-- If the properties of an entity are built, so are those of the entities that composites lead to
from there. -/
theorem exists_build_of_reaches {n : Nat} (hreach : Relation.ReflTransGen ctx.model.HasPart e f)
    (h : ctx.entityTablesWithin n e scope s set = .ok next) :
    ∃ k scope' s' set' next', ctx.entityTablesWithin k f scope' s' set' = .ok next' := by
  induction hreach using Relation.ReflTransGen.head_induction_on generalizing n scope s set next with
  | refl => exact ⟨n, scope, s, set, next, h⟩
  | head hpart _ ih =>
    obtain ⟨p, hp, hrule, hf⟩ := hpart
    obtain ⟨d, hd, rfl⟩ := Entity.exists_declaration_of_mem hp
    obtain ⟨k, mid, mid', rfl, hmid⟩ := exists_property_of_entityTablesWithin hd h
    rw [← Entity.owner_of_mem_declarations hd] at hf
    obtain ⟨_, _, _, _, hinner⟩ := exists_inner_of_propertyTablesBy hrule hf hmid
    exact ih hinner

/-- **Dangling links fail every build.** If the tables of the properties of an entity can be built,
in whatever scope and under whatever strategy, the link of every property leads to an entity of the
model, for the entity and for all entities that commons, choices and inline commons lead to from
there. -/
theorem links_resolve_of_entityTables (h : ctx.entityTables e scope s set = .ok next)
    (hreach : Relation.ReflTransGen ctx.model.HasPart e f) {p : Property} (hp : p ∈ f.properties)
    (hrequired : p.kind.requiresReferencedEntity = true) :
    ∃ i g, p.referencedEntity = some i ∧ ctx.model.entity? i = some g := by
  obtain ⟨n, scope', s', set', next', hbuild⟩ := exists_build_of_reaches hreach h
  obtain ⟨d, hd, rfl⟩ := Entity.exists_declaration_of_mem hp
  obtain ⟨k, mid, mid', -, hmid⟩ := exists_property_of_entityTablesWithin hd hbuild
  exact resolves_of_propertyTablesBy hmid hrequired

/-! ### Visits to towns

A visit has a trip, written into its table, and a trip has a choice of places: a town, or several
towns.
-/

namespace Visits

def town : Entity :=
  { Entity.ofKind .domainEntity "EdFi" "Town" with
    id := 0
    properties := [(Property.ofKind "TownId" (.scalar .integer)).identity] }

/-- A property that leads to a town at the given position. -/
def townAt (position : EntityId) : Property :=
  { Property.ofKind "Town" .domainEntity with referencedEntity := some position }

/-- The choice of places, the single town at the given position. -/
def place (position : EntityId) : Entity :=
  { Entity.ofKind .choice "EdFi" "Place" with
    id := 1
    properties := [townAt position,
      { (townAt 0).optionalCollection with roleName := "Other" }] }

def trip : Entity :=
  { Entity.ofKind .inlineCommon "EdFi" "Trip" with
    id := 2
    properties := [{ Property.ofKind "Place" .choice with referencedEntity := some 1 }] }

def visit : Entity :=
  { Entity.ofKind .domainEntity "EdFi" "Visit" with
    id := 3
    properties := [(Property.ofKind "VisitId" (.scalar .integer)).identity,
      { Property.ofKind "Trip" .inlineCommon with referencedEntity := some 2 }] }

def context (position : EntityId) : TableContext where
  model := ⟨[.core "EdFi"], [town, place position, trip, visit]⟩
  stored := .empty
  version := ⟨7, 0, 0⟩
  coreNamespace := "EdFi"
  createDateOnExtensions := false

/-- The town of a visit has no columns. -/
def withoutTown : Strategy :=
  Strategy.root.skipPaths [["Trip", "Town"]]

theorem reaches_place (position : EntityId) :
    Relation.ReflTransGen (context position).model.HasPart visit (place position) := by
  have htrip : (context position).model.HasPart visit trip := ⟨_, .tail _ (.head _), rfl, rfl⟩
  have hplace : (context position).model.HasPart trip (place position) := ⟨_, .head _, rfl, rfl⟩
  exact .head htrip (.single hplace)

end Visits

/-- Visits can be built without the columns of their towns, and then the town of a place is an
entity. If it is not, visits cannot be built, also where towns have no columns. -/
theorem links_resolve_of_entityTables_visits :
    (∃ next, (Visits.context 0).entityTables Visits.visit
        (Scope.root (Table.ofReason "EdFi" "Visit" .main) 0 []) Visits.withoutTown
        ((TableSet.empty 3).push (Table.ofReason "EdFi" "Visit" .main)) = .ok next ∧
      (next.get? 0).map (fun t => t.columns.map Column.id) = some ["VisitId"] ∧
      ∃ i g, (Visits.townAt 0).referencedEntity = some i ∧
        (Visits.context 0).model.entity? i = some g) ∧
    ∀ scope s set next, (Visits.context 4).entityTables Visits.visit scope s set ≠ .ok next := by
  constructor
  · have hrun : ((Visits.context 0).entityTables Visits.visit
        (Scope.root (Table.ofReason "EdFi" "Visit" .main) 0 []) Visits.withoutTown
        ((TableSet.empty 3).push (Table.ofReason "EdFi" "Visit" .main))).toOption.any (fun next =>
          (next.get? 0).map (fun t => t.columns.map Column.id) = some ["VisitId"]) = true := by
      decide +kernel
    obtain ⟨next, hnext, hids⟩ := exists_eq_ok_of_any hrun
    exact ⟨next, hnext, of_decide_eq_true hids,
      links_resolve_of_entityTables hnext (Visits.reaches_place 0) (.head _) rfl⟩
  · intro scope s set next h
    obtain ⟨i, g, hi, hentity⟩ :=
      links_resolve_of_entityTables h (Visits.reaches_place 4) (.head _) rfl
    cases hi
    cases hentity

end TableContext

end Tabular
