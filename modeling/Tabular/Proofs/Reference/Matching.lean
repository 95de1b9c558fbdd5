import Mathlib.Tactic.Common
import Tabular.Proofs.Reference.Sources

/-!
# References without a local column

The foreign key of a reference pairs every key column of the referenced table with a local column.
A key column of a table remembers the text of the first property that produced a column of its
name, which need not be a property of the key. This file says when a reference finds no local column
for such a key column, in a model without merge directives.

## Main definitions

* `Table.Strands`: a key column for which a reference finds no local column.
* `Schema.HasStranded`: some reference of a schema finds no local column.

## Main results

* `Table.strands_iff`: what it takes for a key column to be stranded.
* `referenceKeys_eq_error`: the pass for foreign keys fails for stranded key columns only.
* `exists_unmatched_iff_hasStranded`: a run fails for want of a local column exactly if a key column
  is stranded.
-/

namespace Tabular

/-! ### Stranded key columns -/

/-- A reference of the table finds no local column for the key column `f` of the entity `e`. No
chain of the key has the text of the column, or its name if the reference belongs to the entity of
the table itself; and no other property has put a column of the text or the name in the table. -/
structure Table.Strands (m : Model) (t : Table) (r : ReferenceSource) (p : Property) (e : Entity)
    (f : Column) : Prop where
  keyText : ∀ k, m.Yields (.keys e) .root k → k.referenceContext ≠ f.referenceContext
  keyName : r.ownerPath = [] → ∀ k, m.Yields (.keys e) .root k → k.id ≠ f.id
  text : ∀ id, ¬Carries t.columns id
    (Text.concat r.ownerPath ++ p.fullName ++ f.referenceContext)
  name : ∀ b ∈ t.columns, b.id ≠ p.contextPrefix ++ f.id

/-- Some reference of the schema that is not weak finds no local column for a key column of the
main table of the referenced entity. -/
def Schema.HasStranded (m : Model) (s : Schema) : Prop :=
  ∃ t ∈ s.tables, ∃ r ∈ t.referenceSources, ∃ p e f,
    m.property? r.property = some p ∧ p.isWeak = false ∧
    m.entity? r.referencedEntity = some e ∧
    (∃ foreign, s.entityTable? e.id = some foreign ∧ f ∈ foreign.primaryKeys) ∧
    t.Strands m r p e f

namespace Table

variable {m : Model} {t : Table} {r : ReferenceSource} {d : Declaration} {e : Entity}
  {f : Column} {p : Property} {context : String}

theorem columnOfContext?_eq_none_iff :
    t.columnOfContext? context = none ↔ ∀ id, ¬Carries t.columns id context := by
  simp only [columnOfContext?, List.find?_eq_none, Carries, not_exists, not_and]
  constructor
  · rintro h id c hc -
    exact h c hc
  · intro h c hc
    exact h c.id c hc rfl

/-- Without merge directives a local column is sought by text and by name. -/
theorem matchingColumn?_of_mergeFree (hmerges : p.mergeDirectives = []) :
    t.matchingColumn? p context f =
      (t.columnOfContext? (context ++ p.fullName ++ f.referenceContext)).or
        (t.column? (p.contextPrefix ++ f.id)) := by
  simp [matchingColumn?, mergedContext?, hmerges]

theorem matchingColumn?_eq_none_iff (hmerges : p.mergeDirectives = []) :
    t.matchingColumn? p context f = none ↔
      (∀ id, ¬Carries t.columns id (context ++ p.fullName ++ f.referenceContext)) ∧
        ∀ b ∈ t.columns, b.id ≠ p.contextPrefix ++ f.id := by
  rw [matchingColumn?_of_mergeFree hmerges, Option.or_eq_none_iff, columnOfContext?_eq_none_iff]
  simp [column?]

/-- A key column is stranded if there is no local column of its text or its name. The columns that
the table has for the reference exclude the texts and names of the key itself. -/
theorem strands_iff (hsupplies : t.Supplies m r d e)
    (hmerges : d.property.mergeDirectives = []) : t.Strands m r d.property e f ↔
      t.matchingColumn? d.property (Text.concat r.ownerPath) f = none := by
  rw [matchingColumn?_eq_none_iff hmerges]
  refine ⟨fun h => ⟨h.text, h.name⟩, fun ⟨htext, hname⟩ => ⟨?_, ?_, htext, hname⟩⟩
  · intro k hk hsame
    obtain ⟨id, hid, -⟩ := hsupplies.columns k hk
    exact htext id (hsame ▸ hid)
  · intro hpath k hk hsame
    obtain ⟨id, ⟨b, hb, hid, -⟩, hfound⟩ := hsupplies.columns k hk
    exact hname b hb (by rw [hid, hfound hpath, hsame])

end Table

/-! ### The pass for foreign keys -/

/-- Pairing fails at a key column without local column. -/
theorem exists_of_referencePairs_eq_error {t : Table} {p : Property} {context : String}
    {keys : List Column} {cause : BuildError}
    (h : referencePairs t p context keys = .error cause) :
    ∃ f ∈ keys, t.matchingColumn? p context f = none ∧
      cause = .unmatchedForeignKeyColumns t.namespaceName t.tableId p.fullName f.id := by
  induction keys with
  | nil => simp [referencePairs] at h
  | cons f rest ih =>
    rw [referencePairs] at h
    split at h
    · simp only [bind_eq_error_iff, pure_ne_error, and_false, exists_false, or_false] at h
      obtain ⟨f', hf', hnone⟩ := ih h
      exact ⟨f', List.mem_cons_of_mem f hf', hnone⟩
    · rename_i hnone
      exact ⟨f, List.mem_cons_self, hnone, (Except.error.inj h).symm⟩

/-- Pairing succeeds only if every key column has a local column. -/
theorem matchingColumn?_isSome_of_referencePairs {t : Table} {p : Property} {context : String}
    {keys : List Column} {pairs : List ColumnPair}
    (h : referencePairs t p context keys = .ok pairs) {f : Column} (hf : f ∈ keys) :
    (t.matchingColumn? p context f).isSome := by
  induction keys generalizing pairs with
  | nil => simp at hf
  | cons f' rest ih =>
    rw [referencePairs] at h
    split at h
    · rename_i c hc
      simp only [bind_eq_ok_iff] at h
      obtain ⟨others, hothers, -⟩ := h
      rcases List.mem_cons.mp hf with rfl | hf
      · rw [hc]
        rfl
      · exact ih hothers hf
    · simp at h

section Pass

variable {m : Model} {info : CascadeInfo} {s s' : Schema} {t : Table} {r : ReferenceSource}
  {cause : BuildError}

/-- Every reference of the model leads to an entity with a main table. -/
def Schema.Registers (m : Model) (s : Schema) : Prop :=
  ∀ e ∈ m.entities, ∀ p ∈ e.properties, p.kind.tableRule = .reference →
    ((p.referencedEntity.bind s.entityTable?).isSome)

instance (m : Model) (s : Schema) : Decidable (s.Registers m) :=
  inferInstanceAs (Decidable (∀ e ∈ m.entities, ∀ p ∈ e.properties,
    p.kind.tableRule = .reference → ((p.referencedEntity.bind s.entityTable?).isSome)))

/-- What the foreign key of a reference is made from. -/
private theorem lookups_of_supplies {d : Declaration} {e : Entity} (hindexed : m.IsIndexed)
    (hregisters : s.Registers m) (hsupplies : t.Supplies m r d e) :
    m.property? r.property = some d.property ∧ m.entity? r.referencedEntity = some e ∧
      ∃ foreign, s.entityTable? e.id = some foreign := by
  obtain ⟨howner, hmem⟩ := hsupplies.declared
  have hproperty := List.mem_of_getElem? (Entity.mem_declarations_iff.mp hmem).2
  have hsome := hregisters d.owner howner d.property hproperty hsupplies.rule
  obtain ⟨id, hid, he⟩ := Model.exists_of_referencedEntity hsupplies.leads
  have hsame := hindexed.id_of_entity? he
  subst hsame
  refine ⟨hsupplies.property ▸ hsupplies.declared.property? hindexed, hsupplies.entity ▸ he, ?_⟩
  rw [hid] at hsome
  exact Option.isSome_iff_exists.mp hsome

/-- The foreign key of a reference that is not weak, given what it is made from. -/
theorem referenceKey_eq {p : Property} {e : Entity} {foreign : Table}
    (hproperty : m.property? r.property = some p)
    (hentity : m.entity? r.referencedEntity = some e)
    (hforeign : s.entityTable? e.id = some foreign) (hweak : p.isWeak = false) :
    referenceKey m info s t r = (do
      let pairs ← referencePairs t p (Text.concat r.ownerPath) foreign.primaryKeys
      return some
        { ForeignKey.ofPairs t.tableId foreign.namespaceName foreign.tableId pairs .reference with
          withDeleteCascade := p.deleteCascade
          withUpdateCascade := info.cascades e.id (referencingEntity m t r)
          sourceProperty := some p.fullName }) := by
  simp only [referenceKey, hproperty, hentity, hforeign, hweak, Bool.false_eq_true, if_false]

/-- In a model without merge directives whose references lead to main tables, the pass fails for
want of a local column only. -/
theorem referenceKeys_eq_error (hindexed : m.IsIndexed) (hmerges : m.IsMergeFree)
    (hregisters : s.Registers m) (hsupplied : ∀ t ∈ s.tables, t.IsSupplied m)
    (h : referenceKeys m info s = .error cause) :
    s.HasStranded m ∧ ∃ ns id property column,
      cause = .unmatchedForeignKeyColumns ns id property column := by
  simp only [referenceKeys, bind_eq_error_iff, pure_ne_error, and_false, exists_false,
    or_false] at h
  obtain ⟨t, ht, h⟩ := exists_of_collect_eq_error h
  obtain ⟨r, hr, h⟩ := exists_of_collect_eq_error h
  simp only [bind_eq_error_iff, pure_ne_error, and_false, exists_false, or_false] at h
  obtain ⟨d, e, hsupplies⟩ := hsupplied t ht r hr
  obtain ⟨hproperty, hentity, foreign, hforeign⟩ :=
    lookups_of_supplies hindexed hregisters hsupplies
  have hweak : d.property.isWeak = false := by
    cases hweak : d.property.isWeak with
    | false => rfl
    | true => simp only [referenceKey, hproperty, hweak, if_true, reduceCtorEq] at h
  rw [referenceKey_eq hproperty hentity hforeign hweak] at h
  simp only [bind_eq_error_iff, pure_ne_error, and_false, exists_false, or_false] at h
  obtain ⟨f, hf, hnone, rfl⟩ := exists_of_referencePairs_eq_error h
  have hstrands := (Table.strands_iff hsupplies (hmerges.mergeDirectives hsupplies.declared)).mpr
    hnone
  exact ⟨⟨t, ht, r, hr, d.property, e, f, hproperty, hweak, hentity, ⟨foreign, hforeign, hf⟩,
    hstrands⟩, _, _, _, _, rfl⟩

/-- The pass does not succeed if a key column is stranded. -/
theorem referenceKeys_ne_ok (hmerges : m.IsMergeFree)
    (hsupplied : ∀ t ∈ s.tables, t.IsSupplied m) (hindexed : m.IsIndexed)
    (hregisters : s.Registers m) (h : s.HasStranded m) : referenceKeys m info s ≠ .ok s' := by
  intro hok
  simp only [referenceKeys, bind_eq_ok_iff] at hok
  obtain ⟨planned, hplanned, -⟩ := hok
  obtain ⟨t, ht, r, hr, p, e, f, hp, hweak, he, ⟨foreign, hforeign, hf⟩, hstrands⟩ := h
  obtain ⟨d, e', hsupplies⟩ := hsupplied t ht r hr
  obtain ⟨hproperty, hentity, -⟩ := lookups_of_supplies hindexed hregisters hsupplies
  obtain rfl : d.property = p := Option.some.inj (hproperty.symm.trans hp)
  obtain rfl : e' = e := Option.some.inj (hentity.symm.trans he)
  -- all parts of the pass have succeeded, the one for the stranded column among them
  obtain ⟨keys, hkeys⟩ := collect_ok_iff.mp ⟨planned, hplanned⟩ t ht
  obtain ⟨one, hone⟩ := collect_ok_iff.mp ⟨keys, hkeys⟩ r hr
  rw [referenceKey_eq hproperty hentity hforeign hweak] at hone
  simp only [bind_eq_ok_iff] at hone
  obtain ⟨_, ⟨pairs, hpairs, -⟩, -⟩ := hone
  have hsome := matchingColumn?_isSome_of_referencePairs hpairs hf
  rw [(Table.strands_iff hsupplies (hmerges.mergeDirectives hsupplies.declared)).mp hstrands]
    at hsome
  exact Bool.false_ne_true hsome

end Pass

/-! ### The graph of identity dependencies -/

private theorem referencedEntity_ne_unmatched {m : Model} {owner : Entity} {p : Property}
    {ns id property column : String} :
    m.referencedEntity owner p ≠ .error (.unmatchedForeignKeyColumns ns id property column) := by
  unfold Model.referencedEntity
  split <;> simp

private theorem identityReferencesWithin_ne_unmatched {m : Model} {n : Nat} {e : Entity}
    {ns id property column : String} : m.identityReferencesWithin n e ≠
      .error (.unmatchedForeignKeyColumns ns id property column) := by
  induction n generalizing e with
  | zero => simp [Model.identityReferencesWithin]
  | succ n ih =>
    intro h
    rw [Model.identityReferencesWithin] at h
    obtain ⟨d, -, h⟩ := exists_of_collect_eq_error h
    split at h
    · rcases bind_eq_error_iff.mp h with h | ⟨_, _, h⟩
      · exact referencedEntity_ne_unmatched h
      · exact pure_ne_error h
    · rcases bind_eq_error_iff.mp h with h | ⟨_, _, h⟩
      · exact referencedEntity_ne_unmatched h
      · exact pure_ne_error h
    · rcases bind_eq_error_iff.mp h with h | ⟨_, _, h⟩
      · exact referencedEntity_ne_unmatched h
      · exact ih h
    · simp at h

private theorem identityTargets_ne_unmatched {m : Model} {e : Entity}
    {ns id property column : String} :
    m.identityTargets e ≠ .error (.unmatchedForeignKeyColumns ns id property column) := by
  have hreferences (base : List EntityId) : (do
      let references ← m.identityReferences e
      return base ++ references : BuildResult (List EntityId)) ≠
        .error (.unmatchedForeignKeyColumns ns id property column) := by
    intro h
    rcases bind_eq_error_iff.mp h with h | ⟨_, _, h⟩
    · exact identityReferencesWithin_ne_unmatched h
    · exact pure_ne_error h
  intro h
  simp only [Model.identityTargets] at h
  split_ifs at h
  · rcases bind_eq_error_iff.mp h with h | ⟨base, -, h⟩
    · rw [map_eq_error_iff, Model.baseEntity] at h
      split at h <;> simp at h
    · exact hreferences base h
  · rcases bind_eq_error_iff.mp h with h | ⟨base, -, h⟩
    · exact pure_ne_error h
    · exact hreferences base h

/-- No local column is sought when the graph of identity dependencies is computed. -/
theorem identityGraph_ne_unmatched {m : Model} {ns id property column : String} :
    m.identityGraph ≠ .error (.unmatchedForeignKeyColumns ns id property column) := by
  intro h
  simp only [Model.identityGraph, bind_eq_error_iff, pure_ne_error, and_false, exists_false,
    or_false] at h
  obtain ⟨e, -, h⟩ := exists_of_collect_eq_error h
  rcases bind_eq_error_iff.mp h with h | ⟨_, _, h⟩
  · exact identityTargets_ne_unmatched h
  · exact pure_ne_error h

/-! ### Runs -/

section Runs

variable {c : Config} {m : Model} {progress : Progress}

/-- Once the first two stages have succeeded, a run fails in the third. -/
theorem runStages_all_eq_error_iff {reports : List StageReport} {e : RunError}
    (hrun : runStages c m [.mainTables, .derivedTables] .start = .ok (progress, reports)) :
    runStages c m Stage.all .start = .error e ↔
      runPasses c m .crossCutting (Pass.ofStage .crossCutting) progress = .error e := by
  simp only [runStages, bind_eq_ok_iff, pure_eq_ok_iff, Prod.exists, Prod.mk.injEq,
    Except.ok.injEq] at hrun
  obtain ⟨first, outcomes, hfirst, second, later, ⟨third, outcomes', hsecond, _, _, ⟨rfl, rfl⟩,
    rfl, rfl⟩, rfl, rfl⟩ := hrun
  have hbind {α β : Type} (a : α) (f : α → Except RunError β) : (Except.ok a >>= f) = f a := rfl
  simp only [Stage.all, runStages, hfirst, hsecond, hbind, bind_eq_error_iff, pure_ne_error,
    and_false, exists_false, or_false]

private theorem run_updateCascade_eq_error_iff {cause : BuildError} :
    Pass.updateCascade.run c m progress = .error cause ↔ m.identityGraph = .error cause := by
  simp only [Pass.run, Pass.appliesTo, Pass.advance, Pass.schemaAfter, Pass.cascadeAfter, if_true,
    bind_eq_error_iff, pure_ne_error, and_false, exists_false, or_false, reduceCtorEq, false_or,
    Except.ok.injEq, exists_eq_left']

private theorem run_updateCascade_eq_ok_iff {next : Progress} :
    (∃ outcome, Pass.updateCascade.run c m progress = .ok (next, outcome)) ↔
      ∃ g, m.identityGraph = .ok g ∧ next = ⟨progress.schema, m.cascadingEntities g, some g⟩ := by
  simp only [Pass.run, Pass.appliesTo, Pass.advance, Pass.schemaAfter, Pass.cascadeAfter, if_true,
    bind_eq_ok_iff, pure_eq_ok_iff, Except.ok.injEq, exists_eq_left', Prod.mk.injEq]
  constructor
  · rintro ⟨_, _, ⟨_, ⟨g, hg, rfl⟩, rfl⟩, rfl, -⟩
    exact ⟨g, hg, rfl⟩
  · rintro ⟨g, hg, rfl⟩
    exact ⟨_, _, ⟨_, ⟨g, hg, rfl⟩, rfl⟩, rfl, rfl⟩

private theorem run_foreignKeys_eq_error_iff {cause : BuildError} :
    Pass.foreignKeys.run c m progress = .error cause ↔
      referenceKeys m progress.cascade progress.schema = .error cause := by
  simp only [Pass.run, Pass.appliesTo, Pass.advance, Pass.schemaAfter, Pass.cascadeAfter, if_true,
    bind_eq_error_iff, pure_ne_error, and_false, exists_false, or_false, reduceCtorEq]

/-- The third stage fails with the graph of identity dependencies or with the foreign keys. -/
theorem crossCutting_eq_error_iff {stage pass : String} {cause : BuildError} :
    runPasses c m .crossCutting (Pass.ofStage .crossCutting) progress =
        .error (.stageFailure stage pass cause) ↔
      (m.identityGraph = .error cause ∧ stage = "cross-cutting" ∧ pass = "update-cascade") ∨
      ∃ g, m.identityGraph = .ok g ∧
        referenceKeys m ⟨m.cascadingEntities g, some g⟩ progress.schema = .error cause ∧
        stage = "cross-cutting" ∧ pass = "foreign-keys" := by
  simp only [Pass.ofStage, runPasses, bind_eq_error_iff, Prod.exists, mapError_eq_error_iff,
    mapError_eq_ok_iff, pure_ne_error, and_false, exists_false, or_false, reduceCtorEq,
    RunError.stageFailure.injEq]
  refine or_congr ?_ ?_
  · constructor
    · rintro ⟨cause', hrun, hstage, hpass, rfl⟩
      exact ⟨run_updateCascade_eq_error_iff.mp hrun, hstage.symm, hpass.symm⟩
    · rintro ⟨hgraph, rfl, rfl⟩
      exact ⟨cause, run_updateCascade_eq_error_iff.mpr hgraph, rfl, rfl, rfl⟩
  · constructor
    · rintro ⟨next, outcome, hrun, cause', hkeys, hstage, hpass, rfl⟩
      obtain ⟨g, hg, rfl⟩ := run_updateCascade_eq_ok_iff.mp ⟨outcome, hrun⟩
      exact ⟨g, hg, run_foreignKeys_eq_error_iff.mp hkeys, hstage.symm, hpass.symm⟩
    · rintro ⟨g, hg, hkeys, rfl, rfl⟩
      obtain ⟨outcome, hrun⟩ := run_updateCascade_eq_ok_iff.mpr ⟨g, hg, rfl⟩
      exact ⟨_, outcome, hrun, cause, run_foreignKeys_eq_error_iff.mpr hkeys, rfl, rfl, rfl⟩

/-- Let no property of the model carry a merge directive, let the stages for main and derived tables
succeed, and let every reference lead to an entity with a main table then. A run fails for want of
a local column exactly if the graph of identity dependencies can be computed and some key column is
stranded. -/
theorem exists_unmatched_iff_hasStranded (c : Config) (m : Model) (hindexed : m.IsIndexed)
    (hmerges : m.IsMergeFree) {progress : Progress} {reports : List StageReport}
    (hrun : runStages c m [.mainTables, .derivedTables] .start = .ok (progress, reports))
    (hregisters : progress.schema.Registers m) :
    (∃ stage pass ns id property column, runStages c m Stage.all .start =
      .error (.stageFailure stage pass
        (.unmatchedForeignKeyColumns ns id property column))) ↔
      (∃ g, m.identityGraph = .ok g) ∧ progress.schema.HasStranded m := by
  have hsupplied : ∀ t ∈ progress.schema.tables, t.IsSupplied m := fun t ht =>
    (reaches_of_runStages hrun).isSupplied hmerges (Schema.mem_tables_iff.mp ht)
  simp only [runStages_all_eq_error_iff hrun, crossCutting_eq_error_iff]
  constructor
  · rintro ⟨stage, pass, ns, id, property, column, ⟨hgraph, -⟩ | ⟨g, hg, hkeys, -⟩⟩
    · exact absurd hgraph identityGraph_ne_unmatched
    · exact ⟨⟨g, hg⟩, (referenceKeys_eq_error hindexed hmerges hregisters hsupplied hkeys).1⟩
  · rintro ⟨⟨g, hg⟩, hstranded⟩
    cases hkeys : referenceKeys m ⟨m.cascadingEntities g, some g⟩ progress.schema with
    | ok s' => exact absurd hkeys (referenceKeys_ne_ok hmerges hsupplied hindexed hregisters hstranded)
    | error cause =>
      obtain ⟨-, ns, id, property, column, rfl⟩ :=
        referenceKeys_eq_error hindexed hmerges hregisters hsupplied hkeys
      exact ⟨_, _, ns, id, property, column, Or.inr ⟨g, hg, hkeys, rfl, rfl⟩⟩

end Runs

/-- Offices have a code of their own and are identified by their region, which has a code too; the
home address of a person refers to an office. -/
def officeModel : Model :=
  (((Model.empty.addEntity
    ((Entity.ofKind .domainEntity "EdFi" "Region").withProperty
      (Property.ofKind "Code" (.scalar .integer)).identity)).addEntity
    (((Entity.ofKind .domainEntity "EdFi" "Office").withProperty
      (Property.ofKind "Code" (.scalar .integer)).required).withProperty
        { (Property.ofKind "Region" .domainEntity).identity with
          referencedEntity := some 0 })).addEntity
    ((Entity.ofKind .inlineCommon "EdFi" "Address").withProperty
      { (Property.ofKind "Office" .domainEntity).required with
        referencedEntity := some 1 })).addEntity
    (((Entity.ofKind .domainEntity "EdFi" "Person").withProperty
      (Property.ofKind "PersonId" (.scalar .integer)).identity).withProperty
        { (Property.ofKind "Address" .inlineCommon).required with
          roleName := "Home"
          referencedEntity := some 2 })

/-- The code of an office is one column for the office and its region, and remembers the former.
The table of persons has the code of the region only, under another name. -/
theorem exists_unmatched_iff_hasStranded_offices :
    ∃ progress reports,
      runStages { Config.standard with targetVersion := ⟨6, 1, 0⟩ } officeModel
        [.mainTables, .derivedTables] .start = .ok (progress, reports) ∧
      runStages { Config.standard with targetVersion := ⟨6, 1, 0⟩ } officeModel Stage.all .start =
        .error (.stageFailure "cross-cutting" "foreign-keys"
          (.unmatchedForeignKeyColumns "EdFi" "Person" "Office" "Code")) ∧
      progress.schema.HasStranded officeModel := by
  have hfirst : (runStages { Config.standard with targetVersion := ⟨6, 1, 0⟩ } officeModel
      [.mainTables, .derivedTables] .start).toOption.any
        (fun result => result.1.schema.Registers officeModel) = true := by decide +kernel
  have hall : ((fun _ => ()) <$> runStages { Config.standard with targetVersion := ⟨6, 1, 0⟩ }
      officeModel Stage.all .start) = .error (.stageFailure "cross-cutting" "foreign-keys"
        (.unmatchedForeignKeyColumns "EdFi" "Person" "Office" "Code")) := by decide +kernel
  rw [map_eq_error_iff] at hall
  obtain ⟨⟨progress, reports⟩, hrun, hregisters⟩ := exists_eq_ok_of_any hfirst
  refine ⟨progress, reports, hrun, hall, ?_⟩
  exact ((exists_unmatched_iff_hasStranded _ officeModel (by decide +kernel) (by decide +kernel)
    hrun (by simpa using hregisters)).mp ⟨_, _, _, _, _, _, hall⟩).2

end Tabular
