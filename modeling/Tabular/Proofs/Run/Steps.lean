import Mathlib.Logic.Relation
import Mathlib.Tactic.Common
import Tabular.Proofs.Result
import Tabular.Run.Basic

/-!
# Runs as sequences of steps

A run goes through stages, passes and entities. Seen from the schema it is a sequence of steps, each
of which stores the tables of one entity, or adds the foreign keys of all references. What every
step preserves holds after every run.

## Main definitions

* `DerivationStep`: one step.
* `Reaches`: any number of steps.

## Main results

* `storeBaseDescriptor_eq_ok`, `storeSchoolYear_eq_ok`, `storeMapType_eq_ok`, `referenceKeys_eq_ok`:
  what a step has done if it succeeds.
* `reaches_of_run`: a pass is a sequence of steps.
* `runPasses_ok_induction`: what every pass preserves holds after all of them.
* `reaches_of_derive`: the schema of a run is reached from the empty schema.
-/

namespace Tabular

/-- One step of a derivation: the tables of one entity are stored, or the foreign keys of all
references are added. -/
inductive DerivationStep (c : Config) (m : Model) (s s' : Schema) : Prop
  | entity {e : Entity} (he : e ∈ m.mainEntities) (h : storeEntity c m s e = .ok s')
  | baseDescriptor (h : storeBaseDescriptor c s = .ok s')
  | descriptor {e : Entity} (he : e ∈ m.ofKind .descriptor) (h : storeDescriptor c m s e = .ok s')
  | mapType {e : Entity} (hversion : c.dataStandardVersion.hasMapTypes = true)
      (he : e ∈ m.ofKind .descriptor) (h : storeMapType c m s e = .ok s')
  | enumeration {e : Entity} (he : e ∈ m.ofKind .enumeration) (h : storeEnumeration c s e = .ok s')
  | schoolYear {e : Entity} (he : e ∈ m.ofKind .schoolYearEnumeration)
      (h : storeSchoolYear c s e = .ok s')
  | subclass {e : Entity} (he : e ∈ m.entities) (hkind : e.kind.isSubclass = true)
      (h : storeSubclass c m s e = .ok s')
  | extension {e : Entity} (he : e ∈ m.extensions) (h : storeExtension c m s e = .ok s')
  | references {info : CascadeInfo} (h : referenceKeys m info s = .ok s')

/-- The second schema is reached from the first by any number of steps. -/
def Reaches (c : Config) (m : Model) : Schema → Schema → Prop :=
  Relation.ReflTransGen (DerivationStep c m)

variable {c : Config} {m : Model} {s s' : Schema}

/-! ### Steps by cases -/

/-- The table of all descriptors is there already, or it is inserted. -/
theorem storeBaseDescriptor_eq_ok (h : storeBaseDescriptor c s = .ok s') :
    s' = s ∨ s.insert (TableSet.arranged c.targetVersion
      (baseDescriptorTable c.targetVersion c.coreNamespace)) = .ok s' := by
  unfold storeBaseDescriptor at h
  split at h
  · exact Or.inl (Except.ok.inj h).symm
  · exact Or.inr h

/-- The table of a school year enumeration is there already and registered, or it is committed. -/
theorem storeSchoolYear_eq_ok {e : Entity} (h : storeSchoolYear c s e = .ok s') :
    (∃ key, s' = s.setEntityTable e.id key) ∨
      ((TableSet.empty e.id).push (schoolYearTable c.targetVersion e)).storeMain
        c.targetVersion e.id s = .ok s' := by
  unfold storeSchoolYear at h
  split at h
  · exact Or.inl ⟨_, (Except.ok.inj h).symm⟩
  · exact Or.inr h

/-- A descriptor has no map type, or the table of its map type is committed, and then a table of the
schema gets a column for it. -/
theorem storeMapType_eq_ok {e : Entity} (h : storeMapType c m s e = .ok s') :
    s' = s ∨ ∃ id mapType mid key, e.mapType = some id ∧ m.entity? id = some mapType ∧
      ((TableSet.empty mapType.id).push (codeValueTable c.targetVersion e.namespaceName
        (TableNaming.enumerationTable e.name) .mapType mapType.documentation)).storeMain
          c.targetVersion mapType.id s = .ok mid ∧
      s' = mid.modify key (withMapType c.targetVersion e.namespaceName
        (TableNaming.enumerationTable e.name)) := by
  unfold storeMapType at h
  split at h
  · exact Or.inl (Except.ok.inj h).symm
  · rename_i id hid
    split at h
    · simp at h
    · rename_i mapType hentity
      obtain ⟨mid, hmid, h⟩ := bind_eq_ok_iff.mp h
      split at h
      · simp at h
      · rename_i key _
        exact Or.inr ⟨id, mapType, mid, key, hid, hentity, hmid, (pure_eq_ok_iff.mp h).symm⟩

/-- The foreign keys of all references are found first and then added. -/
theorem referenceKeys_eq_ok {info : CascadeInfo} (h : referenceKeys m info s = .ok s') :
    ∃ planned, collect (Table.referenceKeys m info s) s.tables = .ok planned ∧
      planned.foldl (fun s (key, k) => s.modify key fun t => t.addForeignKey k) s = s' := by
  obtain ⟨planned, hplanned, h⟩ := bind_eq_ok_iff.mp h
  exact ⟨planned, hplanned, pure_eq_ok_iff.mp h⟩

/-! ### Passes -/

theorem reaches_of_foldlM {f : Schema → Entity → BuildResult Schema} {es : List Entity}
    (step : ∀ s e s', e ∈ es → f s e = .ok s' → DerivationStep c m s s')
    (h : es.foldlM f s = .ok s') : Reaches c m s s' :=
  foldlM_ok_induction (Reaches c m s)
    (fun t e t' he ht hstep => Relation.ReflTransGen.tail ht (step t e t' he hstep))
    Relation.ReflTransGen.refl h

/-- A successful fold along entities contains the step for each of them. -/
theorem exists_reaches_of_foldlM {f : Schema → Entity → BuildResult Schema} {es : List Entity}
    (step : ∀ s e s', e ∈ es → f s e = .ok s' → DerivationStep c m s s')
    (h : es.foldlM f s = .ok s') {e : Entity} (he : e ∈ es) :
    ∃ before after, f before e = .ok after ∧ Reaches c m after s' := by
  obtain ⟨_, rest, before, after, rfl, -, hstep, hrest⟩ := foldlM_ok_of_mem h he
  refine ⟨before, after, hstep, reaches_of_foldlM (fun s e s' he => step s e s' ?_) hrest⟩
  exact List.mem_append_right _ (List.mem_cons_of_mem _ he)

/-- What storing each of the pending subclasses preserves holds after all rounds. -/
theorem subclassRounds_ok_induction {store : Schema → Entity → BuildResult Schema}
    (motive : Schema → Prop) {pending : List Entity}
    (step : ∀ s e s', e ∈ pending → motive s → store s e = .ok s' → motive s') {s s' : Schema}
    (start : motive s) (h : subclassRounds m store pending s = .ok s') : motive s' := by
  fun_induction subclassRounds m store pending s with
  | case1 s =>
    rw [Except.ok.injEq] at h
    exact h ▸ start
  | case2 s first rest hany ih =>
    rw [bind_eq_ok_iff] at h
    obtain ⟨mid, hmid, h⟩ := h
    have hmotive : motive mid := foldlM_ok_induction motive
      (fun t e t' he => step t e t' (List.mem_filter.mp he).1) start hmid
    exact ih mid (fun t e t' he => step t e t' (List.mem_filter.mp he).1) hmotive h
  | case3 => simp at h

private theorem reaches_of_descriptorTables (h : descriptorTables c m s = .ok s') :
    Reaches c m s s' := by
  unfold descriptorTables at h
  split at h
  · rw [Except.ok.injEq] at h
    exact h ▸ Relation.ReflTransGen.refl
  · rw [bind_eq_ok_iff] at h
    obtain ⟨mid, hmid, h⟩ := h
    exact Relation.ReflTransGen.head (.baseDescriptor hmid)
      (reaches_of_foldlM (fun _ _ _ he hstep => .descriptor he hstep) h)

private theorem reaches_of_subclassTables (h : subclassTables c m s = .ok s') :
    Reaches c m s s' := by
  refine subclassRounds_ok_induction (Reaches c m s) (fun t e t' he ht hstep => ?_)
    Relation.ReflTransGen.refl h
  obtain ⟨hmem, hkind⟩ := List.mem_filter.mp he
  exact Relation.ReflTransGen.tail ht (.subclass hmem hkind hstep)

private theorem reaches_of_schemaAfter {p : Pass} {info : CascadeInfo}
    (happlies : p.appliesTo c = true) (h : p.schemaAfter c m info s = .ok s') :
    Reaches c m s s' := by
  cases p with
  | entityTables => exact reaches_of_foldlM (fun _ _ _ he hstep => .entity he hstep) h
  | descriptorTables => exact reaches_of_descriptorTables h
  | mapTypeTables =>
    exact reaches_of_foldlM (fun _ _ _ he hstep => .mapType happlies he hstep) h
  | enumerationTables => exact reaches_of_foldlM (fun _ _ _ he hstep => .enumeration he hstep) h
  | schoolYearTables => exact reaches_of_foldlM (fun _ _ _ he hstep => .schoolYear he hstep) h
  | subclassTables => exact reaches_of_subclassTables h
  | extensionTables => exact reaches_of_foldlM (fun _ _ _ he hstep => .extension he hstep) h
  | updateCascade =>
    rw [Pass.schemaAfter, Except.ok.injEq] at h
    exact h ▸ Relation.ReflTransGen.refl
  | foreignKeys => exact Relation.ReflTransGen.single (.references h)

/-- The schema that a pass leaves behind if it applies. -/
theorem schemaAfter_of_run {p : Pass} {progress next : Progress} {outcome : PassOutcome}
    (happlies : p.appliesTo c = true) (h : p.run c m progress = .ok (next, outcome)) :
    p.schemaAfter c m progress.cascade progress.schema = .ok next.schema := by
  rw [Pass.run, if_pos happlies] at h
  simp only [Pass.advance, bind_eq_ok_iff, pure_eq_ok_iff, Prod.mk.injEq] at h
  obtain ⟨_, ⟨schema, hschema, cascade, -, rfl⟩, rfl, -⟩ := h
  exact hschema

/-- A pass is a sequence of steps. -/
theorem reaches_of_run {p : Pass} {progress next : Progress} {outcome : PassOutcome}
    (h : p.run c m progress = .ok (next, outcome)) :
    Reaches c m progress.schema next.schema := by
  by_cases happlies : p.appliesTo c = true
  · exact reaches_of_schemaAfter happlies (schemaAfter_of_run happlies h)
  · rw [Pass.run, if_neg happlies] at h
    simp only [Except.ok.injEq, Prod.mk.injEq] at h
    exact h.1 ▸ Relation.ReflTransGen.refl

/-! ### Runs -/

theorem mapError_eq_ok_iff {ε ε' α : Type} {f : ε → ε'} {x : Except ε α} {a : α} :
    x.mapError f = .ok a ↔ x = .ok a := by
  cases x <;> simp [Except.mapError]

theorem mapError_eq_error_iff {ε ε' α : Type} {f : ε → ε'} {x : Except ε α} {e : ε'} :
    x.mapError f = .error e ↔ ∃ e', x = .error e' ∧ f e' = e := by
  cases x <;> simp [Except.mapError]

theorem reaches_of_runPasses {stage : Stage} :
    {passes : List Pass} → {progress next : Progress} → {outcomes : List PassOutcome} →
      runPasses c m stage passes progress = .ok (next, outcomes) →
      Reaches c m progress.schema next.schema
  | [], _, _, _, h => by
    simp only [runPasses, Except.ok.injEq, Prod.mk.injEq] at h
    exact h.1 ▸ Relation.ReflTransGen.refl
  | _ :: _, _, _, _, h => by
    simp only [runPasses, bind_eq_ok_iff, pure_eq_ok_iff, Prod.mk.injEq, Prod.exists] at h
    obtain ⟨mid, _, hmid, _, _, hrest, rfl, -⟩ := h
    exact Relation.ReflTransGen.trans (reaches_of_run (mapError_eq_ok_iff.mp hmid))
      (reaches_of_runPasses hrest)

/-- What every pass that applies preserves holds after all passes. -/
theorem runPasses_ok_induction {stage : Stage} (motive : Schema → Prop) {passes : List Pass}
    (step : ∀ p ∈ passes, ∀ info s s', p.appliesTo c = true →
      p.schemaAfter c m info s = .ok s' → motive s → motive s')
    {progress next : Progress} {outcomes : List PassOutcome} (start : motive progress.schema)
    (h : runPasses c m stage passes progress = .ok (next, outcomes)) : motive next.schema := by
  induction passes generalizing progress outcomes with
  | nil =>
    simp only [runPasses, Except.ok.injEq, Prod.mk.injEq] at h
    exact h.1 ▸ start
  | cons p rest ih =>
    simp only [runPasses, bind_eq_ok_iff, pure_eq_ok_iff, Prod.mk.injEq, Prod.exists,
      mapError_eq_ok_iff] at h
    obtain ⟨mid, outcome, hmid, next, outcomes, hrest, rfl, rfl⟩ := h
    refine ih (fun q hq => step q (List.mem_cons_of_mem p hq)) ?_ hrest
    by_cases happlies : p.appliesTo c = true
    · exact step p List.mem_cons_self _ _ _ happlies (schemaAfter_of_run happlies hmid) start
    · rw [Pass.run, if_neg happlies] at hmid
      simp only [Except.ok.injEq, Prod.mk.injEq] at hmid
      exact hmid.1 ▸ start

/-- Passes that succeed in a row succeed one by one. -/
theorem exists_run_of_mem {stage : Stage} {passes : List Pass} {progress next : Progress}
    {outcomes : List PassOutcome} (h : runPasses c m stage passes progress = .ok (next, outcomes))
    {p : Pass} (hp : p ∈ passes) : ∃ before after outcome,
      p.run c m before = .ok (after, outcome) ∧ Reaches c m after.schema next.schema := by
  induction passes generalizing progress outcomes with
  | nil => simp at hp
  | cons q rest ih =>
    simp only [runPasses, bind_eq_ok_iff, pure_eq_ok_iff, Prod.mk.injEq, Prod.exists,
      mapError_eq_ok_iff] at h
    obtain ⟨mid, outcome, hmid, next, outcomes, hrest, rfl, rfl⟩ := h
    rcases List.mem_cons.mp hp with rfl | hp
    · exact ⟨progress, mid, outcome, hmid, reaches_of_runPasses hrest⟩
    · exact ih hrest hp

theorem reaches_of_runStages : {stages : List Stage} → {progress next : Progress} →
    {reports : List StageReport} → runStages c m stages progress = .ok (next, reports) →
      Reaches c m progress.schema next.schema
  | [], _, _, _, h => by
    simp only [runStages, Except.ok.injEq, Prod.mk.injEq] at h
    exact h.1 ▸ Relation.ReflTransGen.refl
  | _ :: _, _, _, _, h => by
    simp only [runStages, bind_eq_ok_iff, pure_eq_ok_iff, Prod.mk.injEq, Prod.exists] at h
    obtain ⟨mid, _, hmid, _, _, hrest, rfl, -⟩ := h
    exact Relation.ReflTransGen.trans (reaches_of_runPasses hmid) (reaches_of_runStages hrest)

/-- Stages that succeed in a row succeed one by one. -/
theorem exists_runPasses_of_mem {stages : List Stage} {progress next : Progress}
    {reports : List StageReport} (h : runStages c m stages progress = .ok (next, reports))
    {stage : Stage} (hstage : stage ∈ stages) : ∃ before after outcomes,
      runPasses c m stage (Pass.ofStage stage) before = .ok (after, outcomes) ∧
        Reaches c m after.schema next.schema := by
  induction stages generalizing progress reports with
  | nil => simp at hstage
  | cons first rest ih =>
    simp only [runStages, bind_eq_ok_iff, pure_eq_ok_iff, Prod.mk.injEq, Prod.exists] at h
    obtain ⟨mid, outcomes, hmid, next, reports, hrest, rfl, rfl⟩ := h
    rcases List.mem_cons.mp hstage with rfl | hstage
    · exact ⟨progress, mid, outcomes, hmid, reaches_of_runStages hrest⟩
    · exact ih hrest hstage

/-- Stages that succeed in a row succeed one part after the other. -/
theorem exists_of_runStages_append {before after : List Stage} {progress next : Progress}
    {reports : List StageReport}
    (h : runStages c m (before ++ after) progress = .ok (next, reports)) :
    ∃ mid first second, runStages c m before progress = .ok (mid, first) ∧
      runStages c m after mid = .ok (next, second) := by
  induction before generalizing progress reports with
  | nil => exact ⟨progress, [], reports, rfl, h⟩
  | cons stage rest ih =>
    simp only [List.cons_append, runStages, bind_eq_ok_iff, pure_eq_ok_iff, Prod.mk.injEq,
      Prod.exists] at h ⊢
    obtain ⟨one, outcomes, hone, two, later, hlater, rfl, rfl⟩ := h
    obtain ⟨mid, first, second, hfirst, hsecond⟩ := ih hlater
    exact ⟨mid, _, second, ⟨one, outcomes, hone, mid, first, hfirst, rfl, rfl⟩, hsecond⟩

/-- A successful run is a successful run of its stages. -/
theorem runStages_of_derive {r : Report} (h : derive c m = .ok r) :
    ∃ progress, runStages c m c.effectiveStages .start = .ok (progress, r.stages) ∧
      r.schema = progress.schema := by
  rw [derive, bind_eq_ok_iff] at h
  obtain ⟨c', hc', h⟩ := h
  have hsame : c' = c := by
    unfold Config.checked at hc'
    split at hc'
    · simp at hc'
    · exact (Except.ok.inj hc').symm
  subst hsame
  simp only [deriveChecked, bind_eq_ok_iff, Prod.exists] at h
  obtain ⟨progress, stages, hstages, h⟩ := h
  split_ifs at h
  · simp only [bind_eq_ok_iff, pure_eq_ok_iff, Schema.validated] at h
    obtain ⟨schema, hschema, rfl⟩ := h
    split_ifs at hschema
    exact ⟨progress, hstages, (Except.ok.inj hschema).symm⟩
  · simp only [bind_eq_ok_iff, pure_eq_ok_iff] at h
    obtain ⟨schema, rfl, rfl⟩ := h
    exact ⟨progress, hstages, rfl⟩

/-- The schema of a run is reached from the empty schema. -/
theorem reaches_of_derive {r : Report} (h : derive c m = .ok r) : Reaches c m .empty r.schema := by
  obtain ⟨progress, hstages, hschema⟩ := runStages_of_derive h
  rw [hschema]
  exact reaches_of_runStages hstages

end Tabular
