import Mathlib.Tactic.Common
import Tabular.Proofs.Derive.MergeScopes
import Tabular.Proofs.Reference.Matching
import Tabular.Proofs.Schema.AddedKeys

/-!
# Whose columns a foreign key uses

The foreign key of a reference looks for local columns by the text of a chain of properties. Such a
text does not show where one name ends and the next begins, so chains of different properties may
have the same one. This file says what the main table of an entity carries after a run, and when the
foreign key of a reference uses columns of this reference only.

## Main definitions

* `Table.Describes`: a table carries what the properties of an entity contribute.
* `Table.IsFirstOf`: the first column that chains with a text have contributed to.
* `Table.FindsOwn`: the column found for a key column is one of the reference itself.

## Main results

* `exists_describes_of_runStages`: the main table of an entity describes it.
* `parentColumnIds_own_iff`: when a foreign key uses the columns of its own reference only.
-/

namespace Tabular

/-! ### Main tables -/

/-- The table carries what the properties of the entity contribute and nothing else, under names that
are all different, and knows the references among them. -/
structure Table.Describes (m : Model) (t : Table) (e : Entity) : Prop where
  distinct : (t.columns.map Column.id).Nodup
  carries : ∀ id context, context ≠ "" →
    (Carries t.columns id context ↔ m.Contributes e.declarations .root id context)
  recorded : ∀ d ∈ e.declarations, d.property.kind.tableRule = .reference →
    d.property.isCollection = false → ∃ f cs, m.referencedEntity d.owner d.property = .ok f ∧
      m.columns d .root = .ok cs ∧ ⟨[], d.id, f.id⟩ ∈ t.referenceSources

section Runs

variable {c : Config} {m : Model} {s s' : Schema} {e : Entity} {t t' : Table}

theorem Table.Describes.evolves (h : t.Describes m e) (hevolves : t.Evolves t') :
    t'.Describes m e where
  distinct := hevolves.distinct h.distinct
  carries id context hne := by
    rw [← h.carries id context hne]
    exact ⟨hevolves.carried id context hne, hevolves.carries id context⟩
  recorded d hd hrule hsingle := by
    rw [hevolves.sources]
    exact h.recorded d hd hrule hsingle

/-- Storing an entity without base puts a table that describes it in the schema. -/
theorem exists_describes_of_storeEntity (he : e ∈ m.mainEntities)
    (h : storeEntity c m s e = .ok s') :
    ∃ t, s'.get? ⟨e.namespaceName, e.name⟩ = some t ∧ t.Describes m e := by
  rw [storeEntity, bind_eq_ok_iff] at h
  obtain ⟨set, hset, h⟩ := h
  obtain ⟨keys, inherited, -, hinherited, hbuilt⟩ := TableContext.built_of_mainTable hset
  rw [Model.not_isSubclass_of_mem_mainEntities he, if_neg Bool.false_ne_true, pure_eq_ok_iff] at hinherited
  subst hinherited
  -- the table starts without columns and receives the contributions of all properties
  obtain ⟨owner, hstart⟩ := (TableSet.empty e.id).get?_push_next
    ((c.tableContext m s).mainTableStart e .main [])
  obtain ⟨t, ht, hreceives⟩ := hbuilt.exists_receives hstart
  have hdescribes : t.Describes m e := by
    refine ⟨hreceives.distinct ?_, fun id context _ => ?_, fun d hd hrule hsingle => ?_⟩
    · exact List.nodup_nil
    · rw [hreceives.carries]
      simp [TableContext.mainTableStart, Table.addColumns, Table.ofReason, Carries, Scope.root,
        Config.tableContext]
    · exact hreceives.recorded d hd hrule hsingle rfl
  -- it is not discarded
  have hkept : 0 ∉ set.discarded := by
    intro hmem
    rcases (hbuilt.grown (by simp [TableSet.empty])).discarded 0 hmem with hmem | hmem
    · simp [TableSet.empty] at hmem
    · simp [TableSet.next, TableSet.push, TableSet.empty] at hmem
  obtain ⟨next, hnext, hs'⟩ := TableSet.storeMain_eq_ok h
  obtain ⟨-, -, hcommitted⟩ := TableSet.evolves_of_store hnext
  obtain ⟨t', ht', hevolves⟩ := hcommitted 0 t ht hkept
  have hkey : t.key = ⟨e.namespaceName, e.name⟩ := hreceives.key
  rw [hkey] at ht'
  refine ⟨t', ?_, hdescribes.evolves hevolves⟩
  rcases hs' with rfl | ⟨key, rfl⟩
  · exact ht'
  · exact ht'

/-- What the stage for main tables has put in the schema. -/
theorem exists_describes_of_mainTables (h : mainTables c m s = .ok s') (he : e ∈ m.mainEntities) :
    ∃ t, s'.get? ⟨e.namespaceName, e.name⟩ = some t ∧ t.Describes m e := by
  obtain ⟨before, after, mid, mid', hsplit, -, hstore, hafter⟩ := foldlM_ok_of_mem h he
  obtain ⟨t, ht, hdescribes⟩ := exists_describes_of_storeEntity he hstore
  have hreaches : Reaches c m mid' s' := reaches_of_foldlM
    (fun _ _ _ hmem hstep => .entity (hsplit ▸ by simp [hmem]) hstep) hafter
  obtain ⟨t', ht', hevolves⟩ := hreaches.evolves.kept _ t ht
  exact ⟨t', ht', hdescribes.evolves hevolves⟩

/-- A run of the stage for main tables starts with them. -/
theorem exists_mainTables_of_runStages {progress next : Progress} {reports : List StageReport}
    (h : runStages c m [.mainTables] progress = .ok (next, reports)) :
    ∃ mid, mainTables c m progress.schema = .ok mid ∧ Reaches c m mid next.schema := by
  simp only [runStages, Pass.ofStage, bind_eq_ok_iff, pure_eq_ok_iff, Prod.exists, Prod.mk.injEq,
    Except.ok.injEq] at h
  obtain ⟨_, outcomes, hpasses, _, _, ⟨rfl, rfl⟩, rfl, rfl⟩ := h
  rw [runPasses] at hpasses
  simp only [bind_eq_ok_iff, pure_eq_ok_iff, Prod.exists, Prod.mk.injEq, mapError_eq_ok_iff]
    at hpasses
  obtain ⟨mid, outcome, hrun, _, _, hrest, rfl, rfl⟩ := hpasses
  simp only [Pass.run, Pass.appliesTo, if_true, Pass.advance, Pass.schemaAfter, Pass.cascadeAfter,
    bind_eq_ok_iff, pure_eq_ok_iff, Prod.mk.injEq] at hrun
  obtain ⟨_, ⟨schema, hschema, _, _, rfl⟩, rfl, -⟩ := hrun
  exact ⟨schema, hschema, reaches_of_runPasses hrest⟩

/-- The main table of an entity without base describes it at every later point of a run. -/
theorem exists_describes_of_runStages {stages : List Stage} {progress : Progress}
    {reports : List StageReport}
    (h : runStages c m (.mainTables :: stages) .start = .ok (progress, reports))
    (he : e ∈ m.mainEntities) :
    ∃ t, progress.schema.get? ⟨e.namespaceName, e.name⟩ = some t ∧ t.Describes m e := by
  have hsplit : runStages c m ([.mainTables] ++ stages) .start = .ok (progress, reports) := h
  obtain ⟨mid, _, _, hfirst, hrest⟩ := exists_of_runStages_append hsplit
  obtain ⟨main, hmain, hreaches⟩ := exists_mainTables_of_runStages hfirst
  obtain ⟨t, ht, hdescribes⟩ := exists_describes_of_mainTables hmain he
  have hall : Reaches c m main progress.schema := hreaches.trans (reaches_of_runStages hrest)
  obtain ⟨t', ht', hevolves⟩ := hall.evolves.kept _ t ht
  exact ⟨t', ht', hdescribes.evolves hevolves⟩

/-! ### Foreign keys of a finished schema -/

/-- What the foreign key of a reference that is not weak was made from. -/
theorem exists_of_referenceKey_eq_ok {info : CascadeInfo} {source : ReferenceSource}
    {p : Property} {f : Entity} {k? : Option ForeignKey}
    (hproperty : m.property? source.property = some p)
    (hentity : m.entity? source.referencedEntity = some f) (hweak : p.isWeak = false)
    (h : referenceKey m info s t source = .ok k?) : ∃ foreign pairs k,
      s.entityTable? f.id = some foreign ∧
      referencePairs t p (Text.concat source.ownerPath) foreign.primaryKeys = .ok pairs ∧
      k? = some k ∧ k.pairs = pairs := by
  cases hforeign : s.entityTable? f.id with
  | none => simp [referenceKey, hproperty, hentity, hweak, hforeign] at h
  | some foreign =>
    rw [referenceKey_eq hproperty hentity hforeign hweak] at h
    simp only [bind_eq_ok_iff, pure_eq_ok_iff] at h
    obtain ⟨pairs, hpairs, rfl⟩ := h
    exact ⟨foreign, pairs, _, rfl, hpairs, rfl, rfl⟩

/-- The pairs of a foreign key do not depend on the foreign keys that are there. -/
theorem referencePairs_foreignKeys {p : Property} {context : String} (fks : List ForeignKey)
    (keys : List Column) :
    referencePairs { t with foreignKeys := fks } p context keys =
      referencePairs t p context keys := by
  induction keys with
  | nil => rfl
  | cons b rest ih =>
    have hsame : { t with foreignKeys := fks }.matchingColumn? p context b =
        t.matchingColumn? p context b := rfl
    rw [referencePairs, referencePairs, hsame, ih]

/-- After the pass for foreign keys the foreign key of a reference can be computed again. -/
theorem exists_referenceKey_of_referenceKeys {info : CascadeInfo} {source : ReferenceSource}
    {p : Property} {f : Entity} {key : TableKey} (h : referenceKeys m info s = .ok s')
    (hproperty : m.property? source.property = some p)
    (hentity : m.entity? source.referencedEntity = some f) (hweak : p.isWeak = false)
    (ht : s.get? key = some t) (hsource : source ∈ t.referenceSources)
    (ht' : s'.get? key = some t') : ∃ k, referenceKey m info s' t' source = .ok (some k) := by
  obtain ⟨planned, hplanned, rfl⟩ := referenceKeys_eq_ok h
  have hmem : t ∈ s.tables := Schema.mem_tables_iff.mpr (Schema.mem_of_get? ht)
  obtain ⟨keys, hkeys⟩ := collect_ok_iff.mp ⟨planned, hplanned⟩ t hmem
  obtain ⟨one, hone⟩ := collect_ok_iff.mp ⟨keys, hkeys⟩ source hsource
  rw [bind_eq_ok_iff] at hone
  obtain ⟨k?, hk, -⟩ := hone
  obtain ⟨foreign, pairs, k, hforeign, hpairs, -, -⟩ :=
    exists_of_referenceKey_eq_ok hproperty hentity hweak hk
  -- both tables are as before but for their foreign keys, which the computation does not read
  obtain ⟨fks, hfks⟩ := get?_addForeignKeys planned ht
  obtain rfl : { t with foreignKeys := fks } = t' := Option.some.inj (hfks.symm.trans ht')
  obtain ⟨others, hothers⟩ := entityTable?_addForeignKeys planned hforeign
  have hsame : referencePairs { t with foreignKeys := fks } p (Text.concat source.ownerPath)
      foreign.primaryKeys = .ok pairs := (referencePairs_foreignKeys fks _).trans hpairs
  rw [referenceKey_eq hproperty hentity hothers hweak]
  simp only [bind_eq_ok_iff, pure_eq_ok_iff, Option.some.injEq]
  exact ⟨_, pairs, hsame, rfl⟩

/-- The last stage of a run ends with the pass for foreign keys. -/
theorem exists_referenceKeys_of_runStages {progress next : Progress} {reports : List StageReport}
    (h : runStages c m [.crossCutting] progress = .ok (next, reports)) :
    ∃ info, referenceKeys m info progress.schema = .ok next.schema := by
  simp only [runStages, runPasses, Pass.ofStage, bind_eq_ok_iff, pure_eq_ok_iff, Prod.exists,
    Prod.mk.injEq, Except.ok.injEq, mapError_eq_ok_iff] at h
  obtain ⟨_, _, ⟨mid, _, hfirst, _, _, ⟨last, _, hsecond, _, _, ⟨rfl, rfl⟩, rfl, rfl⟩, rfl, rfl⟩,
    _, _, ⟨rfl, rfl⟩, rfl, rfl⟩ := h
  simp only [Pass.run, Pass.appliesTo, if_true, Pass.advance, Pass.schemaAfter, Pass.cascadeAfter,
    bind_eq_ok_iff, pure_eq_ok_iff, Prod.mk.injEq, Except.ok.injEq] at hfirst hsecond
  obtain ⟨_, ⟨_, rfl, _, _, rfl⟩, rfl, -⟩ := hfirst
  obtain ⟨_, ⟨_, hkeys, _, _, rfl⟩, rfl, -⟩ := hsecond
  exact ⟨_, hkeys⟩

end Runs

/-! ### Own columns -/

/-- The names of the columns of a reference are those of the key of the entity it leads to, behind
the prefix of the reference. -/
theorem Model.exists_yields_columns_iff {m : Model} {d : Declaration} {f : Entity} {id : String}
    (hrule : d.property.kind.columnRule = .reference) (hsingle : d.property.isCollection = false)
    (hmerges : d.property.mergeDirectives = [])
    (hf : m.referencedEntity d.owner d.property = .ok f) :
    (∃ c, m.Yields (.columns d) .root c ∧ c.id = d.property.contextPrefix ++ id) ↔
      ∃ k, m.Yields (.keys f) .root k ∧ k.id = id := by
  have hmerging : Strategy.root.merging d.property = .root :=
    Strategy.root.merging_of_mergeFree hmerges
  have hadmits (ch : List Hop) :
      (Strategy.root.append d.property).admits ch = Strategy.root.admits ch := by
    rw [(Strategy.follows_root.append d.property).admits, Strategy.follows_root.admits]
    rfl
  have hid {ch : List Hop} {c k : Column}
      (hc : (Strategy.root.append d.property).columnOf? ch = some c)
      (hk : Strategy.root.columnOf? ch = some k) : c.id = d.property.contextPrefix ++ k.id := by
    refine Strategy.id_of_columnOf? ?_ (Strategy.mem_layers_append_iff rfl rfl _) hc hk
    rw [Strategy.parentContext_append]
    exact String.empty_append.trans String.append_empty.symm
  simp only [Model.yields_reference_iff hrule, hmerging, hsingle, hf, Except.ok.injEq,
    true_and, exists_eq_left']
  constructor
  · rintro ⟨_, ⟨-, c, ⟨ch, hch, hadmitted, hc⟩, rfl⟩, hname⟩
    obtain ⟨k, hk⟩ := hch.exists_columnOf? .root
    refine ⟨k, ⟨ch, hch, hadmits ch ▸ hadmitted, hk⟩, ?_⟩
    exact (String.append_right_inj _).mp ((hid hc hk).symm.trans hname)
  · rintro ⟨k, ⟨ch, hch, hadmitted, hk⟩, rfl⟩
    obtain ⟨c, hc⟩ := hch.exists_columnOf? (Strategy.root.append d.property)
    have hname : c.id = d.property.contextPrefix ++ k.id := hid hc hk
    exact ⟨_, ⟨rfl, c, ⟨ch, hch, (hadmits ch).trans hadmitted, hc⟩, rfl⟩, hname⟩

/-- The column is the first one of the table that some chain of properties of the entity with the
given text has contributed to. -/
def Table.IsFirstOf (m : Model) (t : Table) (e : Entity) (text : String) (a : Column) : Prop :=
  ∃ before after, t.columns = before ++ a :: after ∧
    m.Contributes e.declarations .root a.id text ∧
    ∀ b ∈ before, ¬m.Contributes e.declarations .root b.id text

/-- The local column found for the key column `b` of the entity `f` is one of the reference itself.
The first column with the text of the chain has the name of one of its columns; or no property of
the entity contributes such a column, and the key column has the name of a column of the key. -/
def Table.FindsOwn (m : Model) (t : Table) (e : Entity) (d : Declaration) (f : Entity)
    (b : Column) : Prop :=
  (∃ a, t.IsFirstOf m e (d.property.fullName ++ b.referenceContext) a ∧
    ∃ c, m.Yields (.columns d) .root c ∧ c.id = a.id) ∨
  (∀ id, ¬m.Contributes e.declarations .root id (d.property.fullName ++ b.referenceContext)) ∧
    ∃ k, m.Yields (.keys f) .root k ∧ k.id = b.id

namespace Table.Describes

variable {m : Model} {t : Table} {e : Entity} {text : String}

/-- A look-up by text finds the first column that a chain with the text has contributed to. -/
theorem columnOfContext?_eq_some_iff (h : t.Describes m e) (hne : text ≠ "") {a : Column} :
    t.columnOfContext? text = some a ↔ t.IsFirstOf m e text a := by
  have hcarries {b : Column} (hb : b ∈ t.columns) : b.hasReferenceContext text = true ↔
      m.Contributes e.declarations .root b.id text := by
    rw [← h.carries b.id text hne, carries_id_iff h.distinct hb]
  rw [columnOfContext?, List.find?_eq_some_iff_append]
  constructor
  · rintro ⟨ha, before, after, hcolumns, hbefore⟩
    refine ⟨before, after, hcolumns, (hcarries (by simp [hcolumns])).mp ha, fun b hb => ?_⟩
    rw [← hcarries (by simp [hcolumns, hb])]
    simpa using hbefore b hb
  · rintro ⟨before, after, hcolumns, ha, hbefore⟩
    refine ⟨(hcarries (by simp [hcolumns])).mpr ha, before, after, hcolumns, fun b hb => ?_⟩
    have hnot := hbefore b hb
    rw [← hcarries (by simp [hcolumns, hb])] at hnot
    simpa using hnot

theorem columnOfContext?_eq_none_iff (h : t.Describes m e) (hne : text ≠ "") :
    t.columnOfContext? text = none ↔ ∀ id, ¬m.Contributes e.declarations .root id text := by
  rw [Table.columnOfContext?_eq_none_iff]
  exact forall_congr' fun id => not_congr (h.carries id text hne)

theorem findsOwn_iff (h : t.Describes m e) {d : Declaration} {f : Entity} {a b : Column}
    (hrule : d.property.kind.columnRule = .reference) (hsingle : d.property.isCollection = false)
    (hmerges : d.property.mergeDirectives = []) (hname : d.property.fullName ≠ "")
    (hf : m.referencedEntity d.owner d.property = .ok f)
    (ha : t.matchingColumn? d.property "" b = some a) :
    t.FindsOwn m e d f b ↔ ∃ c, m.Yields (.columns d) .root c ∧ c.id = a.id := by
  have hne : d.property.fullName ++ b.referenceContext ≠ "" := by simp [hname]
  rw [matchingColumn?_of_mergeFree hmerges, String.empty_append] at ha
  simp only [FindsOwn, ← h.columnOfContext?_eq_some_iff hne, ← h.columnOfContext?_eq_none_iff hne]
  cases hfound : t.columnOfContext? (d.property.fullName ++ b.referenceContext) with
  | some a' =>
    rw [hfound, Option.some_or, Option.some.injEq] at ha
    simp [ha]
  | none =>
    rw [hfound, Option.none_or] at ha
    have hcolumn : a.id = d.property.contextPrefix ++ b.id := by simpa using List.find?_some ha
    rw [hcolumn]
    simpa using (Model.exists_yields_columns_iff hrule hsingle hmerges hf).symm

end Table.Describes

/-- The local columns of a foreign key are those found for the key columns. -/
theorem forall_parent_referencePairs_iff {t : Table} {p : Property} {context : String}
    {keys : List Column} {pairs : List ColumnPair} {P : String → Prop}
    (h : referencePairs t p context keys = .ok pairs) :
    (∀ id ∈ pairs.map ColumnPair.parent, P id) ↔
      ∀ b ∈ keys, ∃ a, t.matchingColumn? p context b = some a ∧ P a.id := by
  induction keys generalizing pairs with
  | nil =>
    rw [referencePairs, Except.ok.injEq] at h
    simp [← h]
  | cons b rest ih =>
    rw [referencePairs] at h
    split at h
    · rename_i a ha
      simp only [bind_eq_ok_iff, pure_eq_ok_iff] at h
      obtain ⟨others, hothers, rfl⟩ := h
      rw [List.map_cons, List.forall_mem_cons, List.forall_mem_cons, ih hothers, ha]
      simp
    · simp at h

/-- The foreign key of a reference uses columns of the reference only, exactly if these are found for
every key column of the referenced table. -/
theorem Table.Describes.parentColumnIds_iff {m : Model} {info : CascadeInfo} {s : Schema} {t : Table}
    {e f : Entity} {d : Declaration} {cs : List Column} {k : ForeignKey} (h : t.Describes m e)
    (hrule : d.property.kind.tableRule = .reference) (hsingle : d.property.isCollection = false)
    (hweak : d.property.isWeak = false) (hmerges : d.property.mergeDirectives = [])
    (hname : d.property.fullName ≠ "") (hproperty : m.property? d.id = some d.property)
    (hentity : m.entity? f.id = some f) (hf : m.referencedEntity d.owner d.property = .ok f)
    (hcs : m.columns d .root = .ok cs)
    (hk : referenceKey m info s t ⟨[], d.id, f.id⟩ = .ok (some k)) :
    (∀ id ∈ k.parentColumnIds, id ∈ cs.map Column.id) ↔
      ∀ foreign, s.entityTable? f.id = some foreign →
        ∀ b ∈ foreign.primaryKeys, t.FindsOwn m e d f b := by
  obtain ⟨foreign, pairs, k', hforeign, hpairs, hsome, rfl⟩ :=
    exists_of_referenceKey_eq_ok hproperty hentity hweak hk
  obtain rfl : k = k' := Option.some.inj hsome
  have hreference : d.property.kind.columnRule = .reference :=
    (PropertyKind.columnRule_eq_reference_iff _).mpr hrule
  have hown (id : String) : id ∈ cs.map Column.id ↔
      ∃ c, m.Yields (.columns d) .root c ∧ c.id = id := by
    simp [Model.mem_columns_iff hcs]
  have hfinds {a b : Column} (ha : t.matchingColumn? d.property "" b = some a) :
      t.FindsOwn m e d f b ↔ a.id ∈ cs.map Column.id :=
    (h.findsOwn_iff hreference hsingle hmerges hname hf ha).trans (hown a.id).symm
  rw [ForeignKey.parentColumnIds, forall_parent_referencePairs_iff hpairs]
  constructor
  · intro hall foreign' hforeign' b hb
    obtain rfl : foreign = foreign' := Option.some.inj (hforeign.symm.trans hforeign')
    obtain ⟨a, ha, hmem⟩ := hall b hb
    exact (hfinds ha).mpr hmem
  · intro hall b hb
    obtain ⟨a, ha⟩ := Option.isSome_iff_exists.mp
      (matchingColumn?_isSome_of_referencePairs hpairs hb)
    exact ⟨a, ha, (hfinds ha).mp (hall foreign hforeign b hb)⟩

/-- After a successful run, let `d` be a reference of an entity without base that is not weak, not
a collection and carries no merge directives. The main table of the entity carries what the
properties of the entity contribute, and knows the reference; if the last stage has run, the foreign
key can be computed. The foreign key uses columns of the reference only, exactly if for every key
column of the referenced table the first column with the text of the chain is one of the
reference. -/
theorem parentColumnIds_own_iff (c : Config) (m : Model) (hindexed : m.IsIndexed)
    (hstage : c.runsStage .mainTables = true) {r : Report} (hr : derive c m = .ok r)
    {e : Entity} (he : e ∈ m.mainEntities) {d : Declaration} (hd : d ∈ e.declarations)
    (hrule : d.property.kind.tableRule = .reference) (hsingle : d.property.isCollection = false)
    (hweak : d.property.isWeak = false) (hmerges : d.property.mergeDirectives = [])
    (hname : d.property.fullName ≠ "") :
    ∃ t f cs, r.schema.table? e.namespaceName e.name = some t ∧ t.Describes m e ∧
      m.referencedEntity e d.property = .ok f ∧ m.columns d .root = .ok cs ∧
      ⟨[], d.id, f.id⟩ ∈ t.referenceSources ∧
      (c.runsStage .crossCutting = true →
        ∃ info k, referenceKey m info r.schema t ⟨[], d.id, f.id⟩ = .ok (some k)) ∧
      ∀ info k, referenceKey m info r.schema t ⟨[], d.id, f.id⟩ = .ok (some k) →
        ((∀ id ∈ k.parentColumnIds, id ∈ cs.map Column.id) ↔
          ∀ foreign, r.schema.entityTable? f.id = some foreign →
            ∀ b ∈ foreign.primaryKeys, t.FindsOwn m e d f b) := by
  obtain ⟨progress, hstages, hschema⟩ := runStages_of_derive hr
  rw [hschema]
  have hmain : c.effectiveStages =
      .mainTables :: [Stage.derivedTables, .crossCutting].filter c.runsStage := by
    simp [Config.effectiveStages, Stage.all, hstage]
  obtain ⟨t, ht, hdescribes⟩ := exists_describes_of_runStages (hmain ▸ hstages) he
  obtain ⟨f, cs, hf, hcs, hsource⟩ := hdescribes.recorded d hd hrule hsingle
  obtain ⟨howner, -⟩ := Entity.mem_declarations_iff.mp hd
  have hproperty : m.property? d.id = some d.property :=
    (Model.declares_of_mem (List.mem_filter.mp he).1 hd).property? hindexed
  have hentity : m.entity? f.id = some f :=
    hindexed.entity?_id (Model.mem_entities_of_referencedEntity hf)
  refine ⟨t, f, cs, ht, hdescribes, howner ▸ hf, hcs, hsource, fun hcross => ?_,
    fun info k hk => ?_⟩
  · -- the pass for foreign keys has computed the key from the schema before it
    have hlast : c.effectiveStages =
        (.mainTables :: [Stage.derivedTables].filter c.runsStage) ++ [.crossCutting] := by
      cases hderived : c.runsStage .derivedTables <;>
        simp [Config.effectiveStages, Stage.all, hstage, hcross, hderived]
    obtain ⟨mid, _, _, hbefore, hpass⟩ := exists_of_runStages_append (hlast ▸ hstages)
    obtain ⟨info, hkeys⟩ := exists_referenceKeys_of_runStages hpass
    obtain ⟨t₀, ht₀, hdescribes₀⟩ := exists_describes_of_runStages hbefore he
    obtain ⟨f₀, _, hf₀, -, hsource₀⟩ := hdescribes₀.recorded d hd hrule hsingle
    obtain rfl : f₀ = f := Except.ok.inj (hf₀.symm.trans hf)
    exact ⟨info, exists_referenceKey_of_referenceKeys hkeys hproperty hentity hweak ht₀ hsource₀
      ht⟩
  · exact hdescribes.parentColumnIds_iff hrule hsingle hweak hmerges hname hproperty hentity hf hcs
      hk

namespace Enrollments

/-- A domain entity at a position, identified by a number. -/
def entity (id : EntityId) (name key : String) (properties : List Property) : Entity :=
  { Entity.ofKind .domainEntity "EdFi" name with
    id := id
    properties := (Property.ofKind key (.scalar .integer)).identity :: properties }

def school : Entity :=
  entity 0 "School" "ClassId" []

def schoolClass : Entity :=
  entity 1 "SchoolClass" "Id" []

/-- A required reference to the entity at a position. -/
def reference (name : String) (id : EntityId) : Property :=
  { Property.ofKind name .domainEntity with referencedEntity := some id }

/-- An enrollment refers to a school and to a school class. -/
def enrollment : Entity :=
  entity 2 "Enrollment" "EnrollmentId" [reference "School" 0, reference "SchoolClass" 1]

def model : Model :=
  ⟨[.core "EdFi"], [school, schoolClass, enrollment]⟩

def declaration : Declaration :=
  ⟨enrollment, 2, reference "SchoolClass" 1⟩

/-- The identifier of a class, reached through the school class, and the class identifier of a
school, reached through the school, are spelled alike. The foreign key of the school class uses the
column of the school. -/
theorem parentColumnIds_own_iff_enrollments :
    ∃ r t k cs, derive { Config.standard with targetVersion := ⟨6, 1, 0⟩ } model = .ok r ∧
      r.schema.table? "EdFi" "Enrollment" = some t ∧
      referenceKey model .none r.schema t ⟨[], declaration.id, schoolClass.id⟩ = .ok (some k) ∧
      k.parentColumnIds = ["ClassId"] ∧
      model.columns declaration .root = .ok cs ∧ cs.map Column.id = ["Id"] ∧
      ¬∀ foreign, r.schema.entityTable? schoolClass.id = some foreign →
        ∀ b ∈ foreign.primaryKeys, t.FindsOwn model enrollment declaration schoolClass b := by
  have hrun : (derive { Config.standard with targetVersion := ⟨6, 1, 0⟩ } model).toOption.any
      (fun r => (r.schema.table? "EdFi" "Enrollment").any fun t =>
        (referenceKey model .none r.schema t
          ⟨[], declaration.id, schoolClass.id⟩).toOption.any fun k? =>
            k?.any fun k => k.parentColumnIds = ["ClassId"]) = true := by decide +kernel
  have hcolumns : (model.columns declaration .root).toOption.any
      (fun cs => cs.map Column.id = ["Id"]) = true := by decide +kernel
  obtain ⟨r, hr, htable⟩ := exists_eq_ok_of_any hrun
  obtain ⟨t, ht, hkey⟩ := (Option.any_eq_true _ _).mp htable
  obtain ⟨k?, hreference, hk?⟩ := exists_eq_ok_of_any hkey
  obtain ⟨k, rfl, hk⟩ := (Option.any_eq_true _ _).mp hk?
  obtain ⟨cs, hcs, hids⟩ := exists_eq_ok_of_any hcolumns
  rw [decide_eq_true_eq] at hk hids
  obtain ⟨t', f, cs', ht', -, hf, hcs', -, -, hiff⟩ := parentColumnIds_own_iff _ model
    (by decide +kernel) (by decide) hr (e := enrollment) (by decide +kernel) (d := declaration)
    (.tail _ (.tail _ (.head _))) rfl rfl rfl rfl (by decide)
  obtain rfl : t = t' := Option.some.inj (ht.symm.trans ht')
  obtain rfl : schoolClass = f := Except.ok.inj hf
  obtain rfl : cs = cs' := Except.ok.inj (hcs.symm.trans hcs')
  refine ⟨r, t, k, cs, hr, ht, hreference, hk, hcs, hids, fun hfinds => ?_⟩
  have hown := (hiff .none k hreference).mpr hfinds
  rw [hk, hids] at hown
  exact absurd (hown "ClassId" List.mem_cons_self) (by decide)

end Enrollments

end Tabular
