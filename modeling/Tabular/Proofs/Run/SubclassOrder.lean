import Mathlib.Data.List.Perm.Subperm
import Mathlib.Logic.Relation
import Mathlib.Tactic.Common
import Tabular.Proofs.Run.BaseKeys

/-!
# Subclasses are built after their bases

The tables of subclasses are built in rounds. A round goes through the subclasses that are pending
and builds those whose base has a table when the round starts; the others wait for the next round. A
round in which none can be built ends the derivation with a failure.

Every round that builds a subclass leaves fewer of them, so the rounds come to an end whatever the
bases are: missing, outside the model, declared later, or on a cycle. Tables stay registered, so the
base of a subclass still has its table when the turn of the subclass comes. A base that can only get
a table after itself never gets one, and neither do the subclasses that depend on it.

## Main definitions

* `SubclassRun`: the rounds, with the subclasses that they build in order.
* `BuiltAfterBases`: every subclass of a list is built when its base has a table.
* `Model.IsBasedOn`: an entity is reached along the bases.
* `LacksBase`: the failure of a round in which no subclass can be built.

## Main results

* `exists_subclassRun`: the rounds come to an end.
* `SubclassRun.perm_of_ok`: successful rounds build every subclass once.
* `SubclassRun.hasBaseTable`: what is built has a base with a table.
* `not_registered_of_foldlM`: what is based on nothing but entities without table gets none.
* `subclassTables_after_bases`: the derivation of all subclasses.
-/

namespace Tabular

/-- The subclasses of a model in order. -/
def Model.subclasses (m : Model) : List Entity :=
  m.entities.filter fun e => e.kind.isSubclass

/-! ### Rounds -/

/-- `SubclassRun m store pending s built result`: the rounds for the pending subclasses that start
from the schema `s` build the subclasses `built`, in this order, and end with `result`. If the last
of them cannot be built, its failure is the result. -/
inductive SubclassRun (m : Model) (store : Schema → Entity → BuildResult Schema) :
    List Entity → Schema → List Entity → BuildResult Schema → Prop
  | done {s : Schema} : SubclassRun m store [] s [] (.ok s)
  | stuck {first : Entity} {rest : List Entity} {s : Schema}
      (hnone : ∀ e ∈ first :: rest, s.hasBaseTable e = false) :
      SubclassRun m store (first :: rest) s [] (.error (missingBaseTable m first))
  | failed {pending before after : List Entity} {e : Entity} {s t : Schema} {err : BuildError}
      (hready : pending.filter s.hasBaseTable = before ++ e :: after)
      (hbefore : before.foldlM store s = .ok t) (hfail : store t e = .error err) :
      SubclassRun m store pending s (before ++ [e]) (.error err)
  | round {pending built : List Entity} {s next : Schema} {result : BuildResult Schema}
      (hready : pending.filter s.hasBaseTable ≠ [])
      (hround : (pending.filter s.hasBaseTable).foldlM store s = .ok next)
      (later : SubclassRun m store (pending.filter fun e => !s.hasBaseTable e) next built result) :
      SubclassRun m store pending s (pending.filter s.hasBaseTable ++ built) result

section Rounds

variable {m : Model} {store : Schema → Entity → BuildResult Schema} {pending built : List Entity}
  {s s' : Schema} {result : BuildResult Schema}

/-- The rounds come to an end. -/
theorem exists_subclassRun (m : Model) (store : Schema → Entity → BuildResult Schema)
    (pending : List Entity) (s : Schema) :
    ∃ built, SubclassRun m store pending s built (subclassRounds m store pending s) := by
  fun_induction subclassRounds m store pending s with
  | case1 s => exact ⟨[], .done⟩
  | case2 s first rest hany ih =>
    cases hround : ((first :: rest).filter s.hasBaseTable).foldlM store s with
    | error err =>
      obtain ⟨before, e, after, t, hready, hbefore, hfail⟩ := exists_of_foldlM_eq_error hround
      exact ⟨_, .failed hready hbefore hfail⟩
    | ok next =>
      obtain ⟨built, later⟩ := ih next
      refine ⟨_, .round (fun hnil => ?_) hround later⟩
      obtain ⟨e, he, hbase⟩ := List.any_eq_true.mp hany
      exact List.filter_eq_nil_iff.mp hnil e he hbase
  | case3 s first rest hany =>
    refine ⟨[], .stuck fun e he => ?_⟩
    rw [List.any_eq_true, not_exists] at hany
    simpa [he] using hany e

/-- No subclass is built twice. -/
theorem SubclassRun.subperm (h : SubclassRun m store pending s built result) :
    built.Subperm pending := by
  induction h with
  | done => exact .refl _
  | stuck => exact List.nil_subperm
  | @failed pending before after e s _ _ hready _ _ =>
    have hinitial : before ++ [e] <+: pending.filter s.hasBaseTable :=
      ⟨after, by rw [hready, List.append_assoc, List.singleton_append]⟩
    exact (hinitial.sublist.trans List.filter_sublist).subperm
  | @round pending built s _ _ _ _ _ ih =>
    refine List.Subperm.trans ?_ (List.filter_append_perm s.hasBaseTable pending).subperm
    exact (List.subperm_append_left _).mpr ih

/-- Rounds that succeed build every subclass once. -/
theorem SubclassRun.perm_of_ok (h : SubclassRun m store pending s built (.ok s')) :
    built.Perm pending ∧ built.foldlM store s = .ok s' := by
  generalize hresult : (Except.ok s' : BuildResult Schema) = result at h
  induction h with
  | done => exact ⟨.refl _, rfl⟩
  | stuck | failed => cases hresult
  | @round pending built s _ _ _ hround _ ih =>
    obtain ⟨hperm, hbuilt⟩ := ih hresult
    refine ⟨(hperm.append_left _).trans (List.filter_append_perm s.hasBaseTable pending), ?_⟩
    rw [List.foldlM_append, hround]
    exact hbuilt

/-- If building subclasses unregisters no table, a subclass is built when its base has a table. -/
theorem SubclassRun.hasBaseTable
    (hkeeps : ∀ s e s', store s e = .ok s' → ∀ f, s.hasBaseTable f = true → s'.hasBaseTable f = true)
    (h : SubclassRun m store pending s built result) {before after : List Entity} {e : Entity}
    {t : Schema} (hbuilt : built = before ++ e :: after) (ht : before.foldlM store s = .ok t) :
    t.hasBaseTable e = true := by
  -- a subclass of the first round has a base with a table from the start
  have hfirst {s t : Schema} {before : List Entity} {e : Entity} (he : s.hasBaseTable e = true)
      (ht : before.foldlM store s = .ok t) : t.hasBaseTable e = true :=
    foldlM_ok_induction (fun t => t.hasBaseTable e = true)
      (fun t f t' _ ht hstep => hkeeps t f t' hstep e ht) he ht
  induction h generalizing before with
  | done | stuck => simp at hbuilt
  | @failed pending head _ last s _ _ hready =>
    have hmem : e ∈ pending.filter s.hasBaseTable := by
      have he : e ∈ head ++ [last] := by simp [hbuilt]
      rw [hready]
      rcases List.mem_append.mp he with he | he
      · exact List.mem_append_left _ he
      · exact List.mem_append_right _ (List.mem_singleton.mp he ▸ List.mem_cons_self)
    exact hfirst (List.mem_filter.mp hmem).2 ht
  | @round pending built s next _ _ hround _ ih =>
    rcases List.append_eq_append_iff.mp hbuilt with ⟨others, rfl, hlater⟩ | ⟨others, hready, hrest⟩
    · rw [List.foldlM_append, hround] at ht
      exact ih hlater ht
    · cases others with
      | nil =>
        rw [List.append_nil] at hready
        rw [← hready, hround, Except.ok.injEq] at ht
        subst ht
        exact @ih [] hrest.symm rfl
      | cons other others =>
        obtain ⟨rfl, -⟩ := List.cons.inj hrest
        have hmem : e ∈ pending.filter s.hasBaseTable := by simp [hready]
        exact hfirst (List.mem_filter.mp hmem).2 ht

/-- A subclass has no base in the model, or its base has no table. -/
def LacksBase (m : Model) (e : Entity) (err : BuildError) : Prop :=
  err = .missingBaseEntity e.namespaceName e.name ∨
    ∃ b, m.baseEntity e = .ok b ∧ err = .missingTable b.namespaceName e.name b.name

theorem lacksBase_missingBaseTable (m : Model) (e : Entity) :
    LacksBase m e (missingBaseTable m e) := by
  unfold missingBaseTable
  cases hb : m.baseEntity e with
  | ok b => exact Or.inr ⟨b, hb, rfl⟩
  | error cause =>
    refine Or.inl ?_
    unfold Model.baseEntity at hb
    split at hb
    · simp at hb
    · exact (Except.error.inj hb).symm

/-- Rounds fail because a subclass lacks its base, or because the last subclass cannot be built. -/
theorem SubclassRun.cases_of_error {err : BuildError}
    (h : SubclassRun m store pending s built (.error err)) :
    (∃ e ∈ pending, LacksBase m e err) ∨ ∃ before e t, built = before ++ [e] ∧
      before.foldlM store s = .ok t ∧ store t e = .error err := by
  generalize hresult : (Except.error err : BuildResult Schema) = result at h
  induction h with
  | done => cases hresult
  | @stuck first rest s _ =>
    obtain rfl := Except.error.inj hresult
    exact Or.inl ⟨first, List.mem_cons_self, lacksBase_missingBaseTable m first⟩
  | failed _ hbefore hfail =>
    obtain rfl := Except.error.inj hresult
    exact Or.inr ⟨_, _, _, rfl, hbefore, hfail⟩
  | @round pending built s _ _ _ hround _ ih =>
    refine (ih hresult).imp ?_ ?_
    · rintro ⟨e, he, hlacks⟩
      exact ⟨e, (List.mem_filter.mp he).1, hlacks⟩
    · rintro ⟨before, e, t, rfl, hbefore, hfail⟩
      refine ⟨pending.filter s.hasBaseTable ++ before, e, t, by simp, ?_, hfail⟩
      rw [List.foldlM_append, hround]
      exact hbefore

end Rounds

/-! ### Storing a subclass -/

section Storing

variable {c : Config} {m : Model} {s s' : Schema} {e : Entity}

/-- A subclass that is stored has a base with a table. -/
theorem exists_base_of_storeSubclass (hkind : e.kind.isSubclass = true)
    (h : storeSubclass c m s e = .ok s') :
    ∃ b, m.baseEntity e = .ok b ∧ (s.entityTable? b.id).isSome = true := by
  obtain ⟨ki, t, key, -, hkey, -⟩ := exists_of_storeSubclass hkind h
  obtain ⟨b, hb, -⟩ := bind_eq_ok_iff.mp hkey
  obtain ⟨tb, -, -, htb, -⟩ := TableContext.exists_of_baseKey hkey hb
  exact ⟨b, hb, Option.isSome_of_eq_some htb⟩

/-- Storing a subclass registers no other entity. -/
theorem entityTableKey?_of_storeSubclass {id : EntityId} (h : storeSubclass c m s e = .ok s')
    (hne : e.id ≠ id) : s'.entityTableKey? id = s.entityTableKey? id := by
  obtain ⟨set, -, h⟩ := bind_eq_ok_iff.mp h
  exact TableSet.entityTableKey?_of_storeMain h hne

/-- Storing a subclass keeps every main table. -/
theorem isSome_entityTable?_of_storeSubclass {id : EntityId} (hkind : e.kind.isSubclass = true)
    (h : storeSubclass c m s e = .ok s') (hs : (s.entityTable? id).isSome = true) :
    (s'.entityTable? id).isSome = true := by
  by_cases hid : e.id = id
  · obtain ⟨_, _, _, -, -, -, -, htable⟩ := exists_of_storeSubclass hkind h
    exact Option.isSome_of_eq_some (hid ▸ htable)
  · obtain ⟨t, ht⟩ := Option.isSome_iff_exists.mp hs
    obtain ⟨key, hkey, hget⟩ := Option.bind_eq_some_iff.mp ht
    rw [Schema.entityTable?, entityTableKey?_of_storeSubclass h hid, hkey]
    obtain ⟨set, -, h⟩ := bind_eq_ok_iff.mp h
    exact Option.isSome_of_eq_some (TableSet.get?_of_storeMain h hget)

/-- Storing a subclass unregisters no main table. -/
theorem hasBaseTable_of_storeSubclass {f : Entity} (h : storeSubclass c m s e = .ok s')
    (hs : s.hasBaseTable f = true) : s'.hasBaseTable f = true := by
  obtain ⟨id, hid, hregistered⟩ := (Option.any_eq_true _ _).mp hs
  refine (Option.any_eq_true _ _).mpr ⟨id, hid, ?_⟩
  obtain ⟨set, -, h⟩ := bind_eq_ok_iff.mp h
  obtain ⟨next, hnext, rfl | ⟨key, rfl⟩⟩ := TableSet.storeMain_eq_ok h
  · rwa [TableSet.entityTableKey?_of_store hnext]
  · rw [Schema.entityTableKey?_setEntityTable]
    split_ifs
    · rfl
    · rwa [TableSet.entityTableKey?_of_store hnext]

/-- The base of an entity, the base of its base, and so on. -/
def Model.IsBasedOn (m : Model) : Entity → Entity → Prop :=
  Relation.TransGen fun e b => m.baseEntity e = .ok b

/-- If an entity is based on nothing but entities without table, then storing subclasses gives none
of these a table. -/
theorem not_registered_of_foldlM (hindexed : m.IsIndexed) {built : List Entity}
    (hbuilt : ∀ f ∈ built, f ∈ m.subclasses)
    (hs : ∀ b, m.IsBasedOn e b → s.entityTableKey? b.id = none)
    (h : built.foldlM (storeSubclass c m) s = .ok s') :
    ∀ b, m.IsBasedOn e b → s'.entityTableKey? b.id = none := by
  refine foldlM_ok_induction (fun t => ∀ b, m.IsBasedOn e b → t.entityTableKey? b.id = none)
    (fun t f t' hf ht hstep b hb => ?_) hs h
  obtain ⟨hmem, hkind⟩ := List.mem_filter.mp (hbuilt f hf)
  by_cases hid : f.id = b.id
  · -- the entity itself would be stored, and its base has no table
    have hentity : b ∈ m.entities := by
      cases hb with
      | single hb | tail _ hb => exact Model.mem_entities_of_baseEntity hb
    obtain rfl := hindexed.eq_of_id_eq hmem hentity hid
    obtain ⟨base, hbase, htable⟩ := exists_base_of_storeSubclass hkind hstep
    rw [Schema.entityTable?, ht base (.tail hb hbase)] at htable
    simp at htable
  · rw [entityTableKey?_of_storeSubclass hstep hid]
    exact ht b hb

end Storing

/-! ### The derivation of all subclasses -/

/-- Each of the subclasses is stored at a moment when its base is in the model and has a registered
table. -/
def BuiltAfterBases (c : Config) (m : Model) (s : Schema) (built : List Entity) : Prop :=
  ∀ before e after, built = before ++ e :: after → ∃ t b,
    before.foldlM (storeSubclass c m) s = .ok t ∧ t.hasBaseTable e = true ∧
      m.baseEntity e = .ok b ∧ (t.entityTable? b.id).isSome = true

/-- The rounds for the subclasses of a model come to an end, and they build no subclass twice. If
they succeed, every subclass has been built once, at a moment when its base had a registered table,
and is registered with a table in the end. If a subclass is based on nothing but entities without
table, they fail: a subclass lacks its base, or one of them could not be built. -/
theorem subclassTables_after_bases (c : Config) (m : Model) (s : Schema) :
    ∃ built, SubclassRun m (storeSubclass c m) m.subclasses s built (subclassTables c m s) ∧
      built.Subperm m.subclasses ∧
      (∀ s', subclassTables c m s = .ok s' → built.Perm m.subclasses ∧
        built.foldlM (storeSubclass c m) s = .ok s' ∧ BuiltAfterBases c m s built ∧
        ∀ e ∈ m.subclasses, (s'.entityTable? e.id).isSome = true) ∧
      (m.IsIndexed → ∀ e ∈ m.subclasses,
        (∀ b, m.IsBasedOn e b → s.entityTableKey? b.id = none) →
        ∃ err, subclassTables c m s = .error err ∧
          ((∃ f ∈ m.subclasses, LacksBase m f err) ∨ ∃ before f t, built = before ++ [f] ∧
            before.foldlM (storeSubclass c m) s = .ok t ∧ storeSubclass c m t f = .error err)) := by
  obtain ⟨built, hrun⟩ := exists_subclassRun m (storeSubclass c m) m.subclasses s
  change SubclassRun m (storeSubclass c m) m.subclasses s built (subclassTables c m s) at hrun
  have hkind : ∀ e ∈ built, e ∈ m.subclasses := fun e he => hrun.subperm.subset he
  refine ⟨built, hrun, hrun.subperm, fun s' h => ?_, fun hindexed e he hnone => ?_⟩
  · rw [h] at hrun
    obtain ⟨hperm, hbuilt⟩ := hrun.perm_of_ok
    refine ⟨hperm, hbuilt, ?_, fun e he => ?_⟩
    · rintro before e after rfl
      simp only [List.foldlM_append, List.foldlM_cons, bind_eq_ok_iff] at hbuilt
      obtain ⟨t, ht, t', hstep, -⟩ := hbuilt
      obtain ⟨-, hsubclass⟩ := List.mem_filter.mp (hkind e (by simp))
      obtain ⟨b, hb, htable⟩ := exists_base_of_storeSubclass hsubclass hstep
      exact ⟨t, b, ht, hrun.hasBaseTable (fun _ _ _ h _ => hasBaseTable_of_storeSubclass h) rfl ht,
        hb, htable⟩
    · -- registered when it is built, and still registered in the end
      obtain ⟨before, after, t, t', rfl, -, hstep, hafter⟩ :=
        foldlM_ok_of_mem hbuilt (hperm.mem_iff.mpr he)
      obtain ⟨_, _, _, -, -, -, -, htable⟩ := exists_of_storeSubclass (List.mem_filter.mp he).2 hstep
      refine foldlM_ok_induction (fun t => (t.entityTable? e.id).isSome = true)
        (fun t f t' hf ht h => ?_) (Option.isSome_of_eq_some htable) hafter
      have hf' := hkind f (List.mem_append_right _ (List.mem_cons_of_mem e hf))
      exact isSome_entityTable?_of_storeSubclass (List.mem_filter.mp hf').2 h ht
  · cases h : subclassTables c m s with
    | error err => exact ⟨err, rfl, (h ▸ hrun).cases_of_error⟩
    | ok s' =>
      rw [h] at hrun
      obtain ⟨hperm, hbuilt⟩ := hrun.perm_of_ok
      obtain ⟨before, after, t, t', rfl, hbefore, hstep, -⟩ :=
        foldlM_ok_of_mem hbuilt (hperm.mem_iff.mpr he)
      obtain ⟨b, hb, htable⟩ := exists_base_of_storeSubclass (List.mem_filter.mp he).2 hstep
      have hunregistered := not_registered_of_foldlM hindexed
        (fun f hf => hkind f (List.mem_append_left _ hf)) hnone hbefore b (.single hb)
      rw [Schema.entityTable?, hunregistered] at htable
      simp at htable

/-- Charter schools, which are schools, which are organizations, each declared before its base. -/
def lateBases : Model :=
  ⟨[.core "EdFi"], [CharterSchools.subclass 0 "CharterSchool" 1 [],
    CharterSchools.subclass 1 "School" 2 [], { CharterSchools.organization with id := 2 }]⟩

/-- Two subclasses, each of which is the base of the other. -/
def circularBases : Model :=
  ⟨[.core "EdFi"], [CharterSchools.subclass 0 "Day" 1 [], CharterSchools.subclass 1 "Night" 0 []]⟩

/-- Charter schools and schools are built once each, although their bases are declared later. Two
subclasses that are based on each other are not built. -/
theorem subclassTables_after_bases_schools :
    (∃ s s' built, mainTables Config.standard lateBases .empty = .ok s ∧
      subclassTables Config.standard lateBases s = .ok s' ∧ built.Perm lateBases.subclasses ∧
      lateBases.subclasses.map Entity.name = ["CharterSchool", "School"] ∧
      BuiltAfterBases Config.standard lateBases s built ∧
      ∀ e ∈ lateBases.subclasses, (s'.entityTable? e.id).isSome = true) ∧
    circularBases.subclasses.length = 2 ∧
      ∃ err, subclassTables Config.standard circularBases .empty = .error err := by
  constructor
  · have hrun : (mainTables Config.standard lateBases .empty).toOption.any (fun s =>
        (subclassTables Config.standard lateBases s).toOption.any fun _ => true) = true := by
      decide +kernel
    obtain ⟨s, hs, hrun⟩ := exists_eq_ok_of_any hrun
    obtain ⟨s', hs', -⟩ := exists_eq_ok_of_any hrun
    obtain ⟨built, -, -, hok, -⟩ := subclassTables_after_bases Config.standard lateBases s
    obtain ⟨hperm, -, hafter, hregistered⟩ := hok s' hs'
    exact ⟨s, s', built, hs, hs', hperm, by decide +kernel, hafter, hregistered⟩
  · obtain ⟨built, -, -, -, hfails⟩ :=
      subclassTables_after_bases Config.standard circularBases .empty
    obtain ⟨err, herr, -⟩ := hfails (by decide +kernel)
      (CharterSchools.subclass 0 "Day" 1 []) (by decide +kernel) fun _ _ => rfl
    exact ⟨by decide +kernel, err, herr⟩

end Tabular
