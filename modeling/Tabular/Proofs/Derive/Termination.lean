import Mathlib.Tactic.Common
import Tabular.Proofs.Derive.Acyclic
import Tabular.Proofs.Derive.ResolvedLinks

/-!
# Derivations come to an end

Columns, keys and tables refer to each other along the links of the model, and their definitions
stop after a number of steps. This file shows that the bound is of no importance for a model without
cycles: every sequence of calls ends by itself, the results satisfy the equations without a bound,
and no result says that there are too few steps.

## Main definitions

* `Call`, `Model.Calls`: what is asked for on the way, and what a call asks for in turn.
* `Concludes`: a computation that does not run out of steps.

## Main results

* `Model.IsAcyclic.acc_calls`: no sequence of calls goes on forever.
* `Model.IsAcyclic.ask_derivation`, `TableContext.entityTables_eq`: the equations without a bound.
* `Model.IsAcyclic.concludes_ask`, `TableContext.concludes_entityTables`: the bound is not reached.
* `derivations_end`: all of this in one statement.
-/

namespace Tabular

/-! ### Calls -/

/-- What a derivation is asked for: columns or a key, or the tables of the properties of an
entity. -/
inductive Call where
  | query (q : Query)
  | tables (e : Entity)

/-- What is asked for belongs to the model. -/
def Call.IsOf (m : Model) : Call → Prop
  | .query q => q.IsOf m
  | .tables e => e ∈ m.entities

/-- A call asks for the other on its way. -/
inductive Model.Calls (m : Model) : Call → Call → Prop
  | step {q q' : Query} {hops : List Hop} (h : m.Step q hops q') : m.Calls (.query q) (.query q')
  | columns {e : Entity} {d : Declaration} (hd : d ∈ e.declarations) :
      m.Calls (.tables e) (.query (.columns d))
  | keys {e f : Entity} {p : Property} (hp : p ∈ e.properties)
      (hf : m.referencedEntity e p = .ok f) : m.Calls (.tables e) (.query (.keys f))
  | tables {e f : Entity} (h : m.HasPart e f) : m.Calls (.tables e) (.tables f)

namespace Model

variable {m : Model} {q q' : Query} {hops : List Hop} {e f : Entity} {n : Nat}

theorem HasPart.needs (h : m.HasPart e f) : m.Needs e f := by
  obtain ⟨p, hp, hrule, hf⟩ := h
  exact .composite hp hrule hf

theorem Calls.isOf {call call' : Call} (h : m.Calls call call') (hcall : call.IsOf m) :
    call'.IsOf m := by
  cases h with
  | step h => exact (h.isOf hcall).1
  | columns hd => exact declares_of_mem hcall hd
  | keys _ hf => exact mem_entities_of_referencedEntity hf
  | tables h => exact h.needs.mem_entities

/-- The key that an entity takes over is asked for on the way only if the entity is a subclass. -/
theorem Step.isMet (h : m.Step q hops q') : q'.IsMet := by
  cases h with
  | inherits hkind => exact hkind
  | baseInherits _ hkind => exact hkind
  | _ => exact trivial

theorem entities_length_pos (hq : q.IsOf m) : 0 < m.entities.length := by
  cases q with
  | columns d => exact List.length_pos_of_mem hq.1
  | keys e => exact List.length_pos_of_mem hq
  | inherited e => exact List.length_pos_of_mem hq

/-- Whatever is asked for on the way needs one step less than the bound. -/
theorem Step.fitsIn_bound (hq : q.IsOf m) (h : m.Step q hops q') :
    q'.FitsIn m (4 * m.entities.length + 3) := by
  have hpos := entities_length_pos hq
  have hmet := h.isMet
  cases q' with
  | columns d => exact Or.inr (by omega)
  | keys e =>
    have hle := m.rank_le e
    simp only [Query.FitsIn]
    omega
  | inherited e =>
    have hle := m.rank_le e
    exact ⟨hmet, by omega⟩

/-- As many calls are nested below a query as steps suffice for it. -/
theorem IsAcyclic.acc_query_of_fitsIn (hm : m.IsAcyclic) (hq : q.IsOf m) (hfits : q.FitsIn m n) :
    Acc (flip m.Calls) (.query q) := by
  induction n generalizing q with
  | zero => exact absurd hfits q.not_fitsIn_zero
  | succ n ih =>
    refine .intro _ fun call hcall => ?_
    cases hcall with
    | step h => exact ih (h.isOf hq).1 (h.fitsIn hm hq hfits)

theorem IsAcyclic.acc_query (hm : m.IsAcyclic) (hq : q.IsOf m) :
    Acc (flip m.Calls) (.query q) := by
  refine .intro _ fun call hcall => ?_
  cases hcall with
  | step h => exact hm.acc_query_of_fitsIn (h.isOf hq).1 (h.fitsIn_bound hq)

theorem IsAcyclic.acc_tables (hm : m.IsAcyclic) (he : e ∈ m.entities) :
    Acc (flip m.Calls) (.tables e) := by
  induction hn : m.rank e using Nat.strong_induction_on generalizing e with
  | _ n ih =>
    refine .intro _ fun call hcall => ?_
    have hof := hcall.isOf he
    cases hcall with
    | columns hd => exact hm.acc_query hof
    | keys _ hf => exact hm.acc_query hof
    | tables h => exact ih _ (hn ▸ hm.rank_lt h.needs) hof rfl

/-- In a model without cycles no sequence of calls goes on forever. -/
theorem IsAcyclic.acc_calls (hm : m.IsAcyclic) {call : Call} (hcall : call.IsOf m) :
    Acc (flip m.Calls) call := by
  cases call with
  | query q => exact hm.acc_query hcall
  | tables e => exact hm.acc_tables hcall

/-! ### Equations without a bound -/

/-- The columns and keys one step before the bound are already those of the model. -/
theorem IsAcyclic.ask_within_of_step (hm : m.IsAcyclic) (hq : q.IsOf m) (h : m.Step q hops q')
    (hn : 4 * m.entities.length + 3 ≤ n) (s : Strategy) :
    (KeyDerivation.within m n).ask s q' = m.derivation.ask s q' := by
  have hof := (h.isOf hq).1
  have hfits := h.fitsIn_bound hq
  rcases hn.eq_or_lt with rfl | hlt
  · exact (hm.ask_within_succ hof hfits s).symm
  · exact hm.ask_within hof h.isMet hlt s

/-- Columns and keys satisfy their equations without a bound. -/
theorem IsAcyclic.ask_derivation (hm : m.IsAcyclic) (hq : q.IsOf m) (s : Strategy) :
    m.derivation.ask s q = (KeyDerivation.step m m.derivation).ask s q :=
  KeyDerivation.ask_step_eq (.refl m) hq
    (fun _ _ hstep => hm.ask_within_of_step hq hstep (Nat.le_refl _)) s

/-- Steps beyond the bound change no column and no key, whoever asks for them. -/
theorem IsAcyclic.ask_within_of_isOf (hm : m.IsAcyclic) (hq : q.IsOf m) (hn : m.depthLimit ≤ n)
    (s : Strategy) : (KeyDerivation.within m n).ask s q = m.derivation.ask s q := by
  obtain ⟨k, rfl⟩ : ∃ k, n = k + 1 := ⟨n - 1, by unfold depthLimit at hn; omega⟩
  rw [hm.ask_derivation hq]
  refine KeyDerivation.ask_step_eq (.refl m) hq (fun _ _ hstep => ?_) s
  exact hm.ask_within_of_step hq hstep (by unfold depthLimit at hn; omega)

end Model

/-! ### Computations that do not run out of steps -/

/-- The computation does not run out of steps. -/
def Concludes {α : Type} (x : BuildResult α) : Prop :=
  ∀ ns name, x ≠ .error (.cyclicModel ns name)

namespace Concludes

variable {α β σ : Type}

theorem pure (a : α) : Concludes (.ok a) :=
  fun _ _ => nofun

theorem bind {x : BuildResult α} {f : α → BuildResult β} (hx : Concludes x)
    (hf : ∀ a, x = .ok a → Concludes (f a)) : Concludes (x >>= f) := by
  intro ns name h
  rcases bind_eq_error_iff.mp h with h | ⟨a, ha, h⟩
  · exact hx ns name h
  · exact hf a ha ns name h

theorem collect {f : α → BuildResult (List β)} {xs : List α} (h : ∀ x ∈ xs, Concludes (f x)) :
    Concludes (collect f xs) := by
  intro ns name herr
  obtain ⟨x, hx, herr⟩ := exists_of_collect_eq_error herr
  exact h x hx ns name herr

theorem foldlM {f : σ → α → BuildResult σ} {xs : List α} (h : ∀ s, ∀ a ∈ xs, Concludes (f s a))
    (s : σ) : Concludes (xs.foldlM f s) := by
  intro ns name herr
  obtain ⟨before, a, after, t, rfl, -, herr⟩ := exists_of_foldlM_eq_error herr
  exact h t a (by simp) ns name herr

theorem referencedEntity (m : Model) (owner : Entity) (p : Property) :
    Concludes (m.referencedEntity owner p) := by
  unfold Model.referencedEntity
  split <;> exact fun _ _ => nofun

theorem baseEntity (m : Model) (e : Entity) : Concludes (m.baseEntity e) := by
  unfold Model.baseEntity
  split <;> exact fun _ _ => nofun

end Concludes

namespace KeyDerivation

variable {m : Model} {k : KeyDerivation} {d : Declaration} {e : Entity}

theorem concludes_columnsBy
    (h : ∀ hops q, m.Step (.columns d) hops q → ∀ s, Concludes (k.ask s q)) (s : Strategy) :
    Concludes (columnsBy m k d.property.kind.columnRule d s) := by
  unfold columnsBy
  dsimp only
  split_ifs
  · exact .pure _
  · cases hrule : d.property.kind.columnRule with
    | scalar =>
      dsimp only
      split
      · exact .pure _
      · exact fun _ _ => nofun
    | descriptor | enumeration | schoolYear => exact .pure _
    | composite =>
      unfold compositeColumns
      dsimp only
      split_ifs with hcollection
      · exact .pure _
      · refine (Concludes.referencedEntity m _ _).bind fun composite he => ?_
        refine Concludes.bind (.collect fun part hpart => ?_) fun _ _ => .pure _
        obtain ⟨hmem, hsingle⟩ := List.mem_filter.mp hpart
        exact h _ (.columns part) (.composite hrule (by simpa using hcollection) he hmem
          (by simpa using hsingle)) _
    | reference =>
      unfold referenceColumns
      dsimp only
      split_ifs with hcollection
      · exact .pure _
      · refine (Concludes.referencedEntity m _ _).bind fun referenced he => ?_
        refine Concludes.bind ?_ fun _ _ => .pure _
        exact h _ (.keys referenced) (.reference hrule (by simpa using hcollection) he) _

theorem concludes_inlineKeys (h : ∀ d ∈ e.inlineCommons, ∀ f,
      m.referencedEntity e d.property = .ok f → ∀ s, Concludes (k.keys f s)) (s : Strategy) :
    Concludes (inlineKeys m k e s) := by
  refine .collect fun d hd => (Concludes.referencedEntity m _ _).bind fun f hf => ?_
  exact (h d hd f hf _).bind fun _ _ => .pure _

/-- A step of the derivation does not run out of steps if what it asks for does not. -/
theorem concludes_ask_step {q : Query}
    (h : ∀ hops q', m.Step q hops q' → ∀ s, Concludes (k.ask s q')) (s : Strategy) :
    Concludes ((step m k).ask s q) := by
  cases q with
  | columns d => exact concludes_columnsBy h s
  | keys e =>
    have hadded : Concludes (collect (fun d => k.columns d s) e.addedIdentity) :=
      .collect fun d hd => h _ (.columns d) (.adds hd) s
    have hinlined : Concludes (inlineKeys m k e s) :=
      concludes_inlineKeys (fun d hd f hf => h _ (.keys f) (.inlines hd hf)) s
    change Concludes (keysOf m k e s)
    unfold keysOf
    split_ifs with hkind
    · refine (h _ (.inherited e) (.inherits hkind) s).bind fun _ _ => ?_
      exact hadded.bind fun _ _ => hinlined.bind fun _ _ => .pure _
    · exact (Concludes.pure _).bind fun _ _ =>
        hadded.bind fun _ _ => hinlined.bind fun _ _ => .pure _
  | inherited e =>
    refine (Concludes.baseEntity m e).bind fun b hb => ?_
    have hadded : Concludes
        (collect (fun d => k.columns (renamedBy e.identityRename? d) s) b.addedIdentity) :=
      .collect fun d hd => h _ (.columns _) (.baseAdds hb hd) s
    have hinlined : Concludes (inlineKeys m k b s) :=
      concludes_inlineKeys (fun d hd f hf => h _ (.keys f) (.baseInlines hb hd hf)) s
    dsimp only
    split_ifs with hkind
    · refine (h _ (.inherited b) (.baseInherits hb hkind) s).bind fun _ _ => ?_
      exact hadded.bind fun _ _ => hinlined.bind fun _ _ => .pure _
    · exact (Concludes.pure _).bind fun _ _ =>
        hadded.bind fun _ _ => hinlined.bind fun _ _ => .pure _

end KeyDerivation

namespace Model

variable {m : Model} {q : Query} {n : Nat}

/-- In a model without cycles no derivation of columns and keys runs out of steps. -/
theorem IsAcyclic.concludes_ask (hm : m.IsAcyclic) (hq : q.IsOf m) (s : Strategy) :
    Concludes (m.derivation.ask s q) := by
  -- along the calls, each of which satisfies its equation without a bound
  have hacc := hm.acc_query hq
  generalize hcall : Call.query q = call at hacc
  induction hacc generalizing q s with
  | intro call _ ih =>
    subst hcall
    rw [hm.ask_derivation hq]
    exact KeyDerivation.concludes_ask_step
      (fun _ q' hstep s => ih (.query q') (.step hstep) (hstep.isOf hq).1 s rfl) s

end Model

/-! ### Tables -/

namespace TableContext

variable {ctx : TableContext} {inner inner' : EntityBuilder} {d : Declaration} {e : Entity}
  {n : Nat}

/-- The tables of a property depend on the builder only for the entity that a composite leads
to. -/
theorem propertyTablesBy_congr (scope : Scope) (s : Strategy) (set : TableSet)
    (h : d.property.kind.columnRule = .composite → ∀ f,
      ctx.model.referencedEntity d.owner d.property = .ok f → inner f = inner' f) :
    ctx.propertyTablesBy inner d scope s set = ctx.propertyTablesBy inner' d scope s set := by
  have hbind {g g' : Entity → BuildResult TableSet}
      (hrule : d.property.kind.columnRule = .composite)
      (hg : ∀ f, inner f = inner' f → g f = g' f) :
      ctx.model.referencedEntity d.owner d.property >>= g =
        ctx.model.referencedEntity d.owner d.property >>= g' := by
    cases hf : ctx.model.referencedEntity d.owner d.property with
    | error err => rfl
    | ok f => exact hg f (h hrule f hf)
  have hrule := PropertyKind.columnRule_eq_composite_iff d.property.kind
  unfold propertyTablesBy
  cases htable : d.property.kind.tableRule with
  | scalar | lookup | reference => rfl
  | common =>
    have hcomposite := hrule.mpr (Or.inl htable)
    dsimp only
    split_ifs
    · refine hbind hcomposite fun f hf => ?_
      simp only [addedTable, hf]
    · refine hbind hcomposite fun f hf => ?_
      simp only [hf]
  | choice =>
    refine hbind (hrule.mpr (Or.inr (Or.inl htable))) fun f hf => ?_
    simp only [hf]
  | inlineCommon =>
    refine hbind (hrule.mpr (Or.inr (Or.inr htable))) fun f hf => ?_
    simp only [hf]

/-- The entity that a composite of a model without cycles leads to has a smaller rank. -/
theorem rank_lt_of_composite (hm : ctx.model.IsAcyclic) (hd : d ∈ e.declarations)
    (hrule : d.property.kind.columnRule = .composite) {f : Entity}
    (hf : ctx.model.referencedEntity d.owner d.property = .ok f) :
    ctx.model.rank f < ctx.model.rank e := by
  rw [Entity.owner_of_mem_declarations hd] at hf
  exact hm.rank_lt (.composite (Entity.property_mem_of_mem_declarations hd) hrule hf)

/-- In a model without cycles as many composites are nested as entities may be met. -/
theorem entityTablesWithin_succ (hm : ctx.model.IsAcyclic) (hn : ctx.model.rank e < n) :
    ctx.entityTablesWithin (n + 1) e = ctx.entityTablesWithin n e := by
  induction n generalizing e with
  | zero => omega
  | succ n ih =>
    funext scope s set
    refine foldlM_congr fun set d hd => propertyTablesBy_congr scope s set fun hrule f hf => ?_
    have hlt := rank_lt_of_composite hm hd hrule hf
    exact ih (by omega)

/-- In a model without cycles steps beyond the bound change no table. -/
theorem entityTablesWithin_eq (hm : ctx.model.IsAcyclic) (hn : ctx.model.depthLimit ≤ n) :
    ctx.entityTablesWithin n e = ctx.entityTables e := by
  induction n, hn using Nat.le_induction with
  | base => rfl
  | succ n hn ih =>
    have hle := ctx.model.rank_le e
    unfold Model.depthLimit at hn
    rw [entityTablesWithin_succ hm (by omega), ih]

/-- The tables of an entity satisfy their equation without a bound. -/
theorem entityTables_eq (hm : ctx.model.IsAcyclic) (e : Entity) (scope : Scope) (s : Strategy)
    (set : TableSet) : ctx.entityTables e scope s set =
      e.declarations.foldlM (fun set d => ctx.propertyTables d scope s set) set := by
  refine foldlM_congr fun set d _ => propertyTablesBy_congr scope s set fun _ f _ => ?_
  have hle := ctx.model.rank_le f
  exact (entityTablesWithin_succ hm (by omega)).symm

theorem concludes_lookupTarget (ctx : TableContext) (d : Declaration) :
    Concludes (ctx.lookupTarget d) := by
  unfold lookupTarget
  split
  · exact .pure _
  · exact (Concludes.referencedEntity _ _ _).bind fun _ _ => .pure _
  · exact (Concludes.referencedEntity _ _ _).bind fun _ _ => .pure _

/-- The tables of a property do not run out of steps if nothing that they ask for does. -/
theorem concludes_propertyTablesBy (hcolumns : ∀ s, Concludes (ctx.model.columns d s))
    (hkeys : ∀ f, ctx.model.referencedEntity d.owner d.property = .ok f →
      ∀ s, Concludes (ctx.model.keys f s))
    (hinner : d.property.kind.columnRule = .composite → ∀ f,
      ctx.model.referencedEntity d.owner d.property = .ok f →
        ∀ scope s set, Concludes (inner f scope s set))
    (scope : Scope) (s : Strategy) (set : TableSet) :
    Concludes (ctx.propertyTablesBy inner d scope s set) := by
  have hlink := Concludes.referencedEntity ctx.model d.owner d.property
  have hcollection (lookup : Option LookupTarget) :
      Concludes (ctx.collectionTable d scope s lookup set) :=
    (hcolumns _).bind fun _ _ => .pure _
  have hrule := PropertyKind.columnRule_eq_composite_iff d.property.kind
  unfold propertyTablesBy
  cases htable : d.property.kind.tableRule with
  | scalar =>
    dsimp only [scalarTables]
    split_ifs
    · exact hcollection none
    · exact (hcolumns _).bind fun _ _ => .pure _
  | lookup =>
    refine (concludes_lookupTarget ctx d).bind fun target _ => ?_
    split_ifs
    · exact hcollection (some target)
    · refine (hcolumns _).bind fun columns _ => ?_
      cases columns with
      | nil => exact .pure _
      | cons c rest => exact .pure _
  | reference =>
    refine hlink.bind fun f hf => ?_
    split_ifs
    · exact (hkeys f hf _).bind fun _ _ => .pure _
    · exact .pure _
    · exact (hcolumns _).bind fun _ _ => .pure _
  | common =>
    have hcomposite := hinner (hrule.mpr (Or.inl htable))
    dsimp only
    split_ifs
    · refine hlink.bind fun f hf => ?_
      dsimp only
      split
      · exact fun _ _ => nofun
      · exact (hcomposite f hf _ _ _).bind fun _ _ => .pure _
    · refine hlink.bind fun f hf => (hkeys f hf _).bind fun _ _ => ?_
      exact (hcomposite f hf _ _ _).bind fun _ _ => .pure _
  | choice => exact hlink.bind fun f hf => hinner (hrule.mpr (Or.inr (Or.inl htable))) f hf _ _ _
  | inlineCommon =>
    exact hlink.bind fun f hf => hinner (hrule.mpr (Or.inr (Or.inr htable))) f hf _ _ _

/-- In a model without cycles the tables of no entity run out of steps. -/
theorem concludes_entityTables (hm : ctx.model.IsAcyclic) (he : e ∈ ctx.model.entities)
    (scope : Scope) (s : Strategy) (set : TableSet) :
    Concludes (ctx.entityTables e scope s set) := by
  induction hn : ctx.model.rank e using Nat.strong_induction_on generalizing e scope s set with
  | _ n ih =>
    rw [entityTables_eq hm]
    refine .foldlM (fun set d hd => ?_) set
    refine concludes_propertyTablesBy ?_ (fun f hf => ?_) (fun hrule f hf scope s set => ?_) _ _ _
    · exact hm.concludes_ask (q := .columns d) (Model.declares_of_mem he hd)
    · exact hm.concludes_ask (q := .keys f) (Model.mem_entities_of_referencedEntity hf)
    · exact ih _ (hn ▸ rank_lt_of_composite hm hd hrule hf)
        (Model.mem_entities_of_referencedEntity hf) scope s set rfl

end TableContext

/-- **Derivations end in models without cycles.** No sequence of calls for columns, keys, inherited
keys and tables goes on forever. All of these satisfy their equations without a bound on the number
of steps: a larger bound changes nothing, and no derivation runs out of steps. References outside
the identity of an entity that no composite leads to may form cycles. -/
theorem derivations_end {m : Model} (hm : m.IsAcyclic) :
    (∀ call : Call, call.IsOf m → Acc (flip m.Calls) call) ∧
    (∀ q : Query, q.IsOf m → ∀ s,
      m.derivation.ask s q = (KeyDerivation.step m m.derivation).ask s q ∧
      (∀ n, m.depthLimit ≤ n → (KeyDerivation.within m n).ask s q = m.derivation.ask s q) ∧
      Concludes (m.derivation.ask s q)) ∧
    ∀ ctx : TableContext, ctx.model = m → ∀ e ∈ m.entities, ∀ scope s set,
      ctx.entityTables e scope s set =
        e.declarations.foldlM (fun set d => ctx.propertyTables d scope s set) set ∧
      (∀ n, m.depthLimit ≤ n →
        ctx.entityTablesWithin n e scope s set = ctx.entityTables e scope s set) ∧
      Concludes (ctx.entityTables e scope s set) := by
  refine ⟨fun call hcall => hm.acc_calls hcall, fun q hq s => ?_, ?_⟩
  · exact ⟨hm.ask_derivation hq s, fun n hn => hm.ask_within_of_isOf hq hn s, hm.concludes_ask hq s⟩
  · rintro ctx rfl e he scope s set
    refine ⟨TableContext.entityTables_eq hm e scope s set, fun n hn => ?_,
      TableContext.concludes_entityTables hm he scope s set⟩
    rw [TableContext.entityTablesWithin_eq hm hn]

/-! ### People and their mentors

A person has a mentor, who is a person, and a class teacher; teachers are people. Addresses are
commons and lead to regions.
-/

namespace People

def region : Entity :=
  { Entity.ofKind .domainEntity "EdFi" "Region" with
    id := 0
    properties := [(Property.ofKind "RegionId" (.scalar .integer)).identity] }

def address : Entity :=
  { Entity.ofKind .common "EdFi" "Address" with
    id := 1
    properties := [{ Property.ofKind "Region" .domainEntity with referencedEntity := some 0 }] }

def mentor : Property :=
  { Property.ofKind "Person" .domainEntity with
    roleName := "Mentor"
    referencedEntity := some 2 }

def person : Entity :=
  { Entity.ofKind .domainEntity "EdFi" "Person" with
    id := 2
    properties := [(Property.ofKind "PersonId" (.scalar .integer)).identity, mentor,
      { Property.ofKind "Teacher" .domainEntity with referencedEntity := some 3 },
      { Property.ofKind "Address" .common with referencedEntity := some 1 }] }

def teacher : Entity :=
  { Entity.ofKind .domainEntitySubclass "EdFi" "Teacher" with
    id := 3
    baseEntity := some 2 }

def model : Model :=
  ⟨[.core "EdFi"], [region, address, person, teacher]⟩

/-- A person whose mentor is part of the identity. -/
def pupil : Entity :=
  { Entity.ofKind .domainEntity "EdFi" "Person" with
    id := 0
    properties := [{ mentor.identity with referencedEntity := some 0 }] }

example : (Model.mk [.core "EdFi"] [pupil]).keys pupil .root =
    .error (.cyclicModel "EdFi" "Person") := by decide +kernel

end People

/-- People refer to people and to teachers, who are people, and still all derivations end. The
columns of a mentor are the key of a person. -/
theorem derivations_end_people : People.model.IsAcyclic ∧
    Acc (flip People.model.Calls) (.tables People.person) ∧
    Acc (flip People.model.Calls) (.query (.inherited People.teacher)) ∧
    Concludes (People.model.derivation.ask .root (.columns ⟨People.person, 1, People.mentor⟩)) ∧
    ∃ columns, People.model.columns ⟨People.person, 1, People.mentor⟩ .root = .ok columns ∧
      columns.map Column.id = ["MentorPersonId"] := by
  have hacyclic : People.model.IsAcyclic :=
    Model.isAcyclic_of_follows_lt (by decide) (by decide) (by decide)
  obtain ⟨hcalls, hquery, -⟩ := derivations_end hacyclic
  have hrun : (People.model.columns ⟨People.person, 1, People.mentor⟩ .root).toOption.any
      (fun columns => columns.map Column.id = ["MentorPersonId"]) = true := by decide +kernel
  obtain ⟨columns, hcolumns, hids⟩ := exists_eq_ok_of_any hrun
  have hmentor : Query.IsOf People.model (.columns ⟨People.person, 1, People.mentor⟩) :=
    ⟨by decide, Entity.mem_declarations_iff.mpr ⟨rfl, rfl⟩⟩
  have hteacher : People.teacher ∈ People.model.entities := by decide
  exact ⟨hacyclic, hcalls (.tables People.person) hmentor.1, hcalls (.query _) hteacher,
    (hquery _ hmentor .root).2.2, columns, hcolumns, of_decide_eq_true hids⟩

end Tabular
