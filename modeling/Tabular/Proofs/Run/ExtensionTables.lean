import Mathlib.Tactic.Common
import Tabular.Proofs.Derive.AddedTables
import Tabular.Proofs.Derive.ParentKeys
import Tabular.Proofs.Reference.KeptKeys
import Tabular.Proofs.Run.BaseKeys

/-!
# Extension tables add something

Tables of the schema that add columns to others are there because they do: each of them hangs off a
table whose key it goes beyond. Conversely, an extension whose properties contribute a column beyond
the key of its base has a table for it. The tables of its collections and commons are in the schema
in either case and hang off the base.

A table hangs off another one because a step of the run has committed it so. The foreign key to the
parent does not show this reliably, since it may give way to another key of the same identifier.

## Main definitions

* `Commits`: a step that builds a set of tables and commits it.
* `HangsOff`: a table of the schema and the one that it hangs off.
* `StoresExtension`: a step of the run that has stored an extension.
* `Table.IsExtensionOf`, `Table.IsJoinOf`: the tables of an extension.

## Main results

* `DerivationStep.commits_or`: new tables that add columns come from a commit.
* `Reaches.exists_hangsOff`: tables that add columns hang off others.
* `HangsOff.exists_column`: they have a column beyond the key of the latter.
* `extensionTables_stored_iff_adds`: the tables of a run over all stages.
-/

namespace Tabular

/-! ### Committed tables -/

namespace TableSet

variable {set : TableSet} {v : Version} {s s' : Schema} {links : List ParentLink}
  {tables : List Table} {i : Nat} {t t' u parent : Table} {key : TableKey}

theorem FinishedFrom.key_eq (h : FinishedFrom v s links tables i t t') : t'.key = t.key := by
  cases h with
  | unlinked => exact Table.key_arranged v t
  | linked =>
    rw [Table.key_addForeignKey, Table.key_arranged]
    rfl

theorem FinishedFrom.reason_eq (h : FinishedFrom v s links tables i t t') :
    t'.reason = t.reason := by
  cases h <;> simp

theorem FinishedFrom.parentEntity_eq (h : FinishedFrom v s links tables i t t') :
    t'.parentEntity = t.parentEntity := by
  cases h <;> simp

theorem FinishedFrom.columns_perm (h : FinishedFrom v s links tables i t t') :
    t'.columns.Perm t.columns := by
  cases h with
  | unlinked => exact t.columns_arranged_perm v
  | linked =>
    rw [Table.columns_addForeignKey]
    exact Table.columns_arranged_perm v _

/-- A table after a commit was there before, or it is a finished table of the set that is kept. -/
theorem mem_inserted_of_store (hset : set.WellLinked s) (h : set.store v s = .ok s')
    (ht : t ∈ s'.inserted) : t ∈ s.inserted ∨ ∃ i u tables, set.get? i = some u ∧
      i ∉ set.discarded ∧ FinishedFrom v s set.links tables i u t := by
  obtain ⟨tables, hfinish, hinsert⟩ := store_eq_ok_iff.mp h
  obtain ⟨hlength, hfinished⟩ := finishedFrom_of_finish hset hfinish
  rw [Schema.inserted_of_insertAll hinsert] at ht
  refine (List.mem_append.mp ht).imp_right fun hkept => ?_
  obtain ⟨i, hi, hnot⟩ := mem_kept_iff.mp hkept
  have hlt : i < set.tables.length := Nat.lt_of_lt_of_eq (List.getElem?_eq_some_iff.mp hi).1 hlength
  have hu : set.get? i = some set.tables[i] := List.getElem?_eq_getElem hlt
  obtain ⟨t', ht', hfrom⟩ := hfinished i _ hnot hu
  obtain rfl : t' = t := Option.some.inj (ht'.symm.trans hi)
  exact ⟨i, _, tables, hu, hnot, hfrom⟩

/-- A table that is kept and linked to a stored one hangs off it after the commit and knows its key
order. -/
theorem exists_hanging_of_target? (hset : set.WellLinked s) (h : set.store v s = .ok s')
    (hi : i ∉ set.discarded) (hu : set.get? i = some u)
    (htarget : set.target? i = some (.stored key)) (hparent : s.get? key = some parent) :
    ∃ t tables, FinishedFrom v s set.links tables i u t ∧ s'.get? u.key = some t ∧
      set.hanging? s' i = some (t, parent) ∧ t.parentKeyColumnIds = parent.primaryKeyIds := by
  obtain ⟨tables, hfinish, hinsert⟩ := store_eq_ok_iff.mp h
  obtain ⟨l, hl, hstored⟩ := Option.map_eq_some_iff.mp htarget
  obtain ⟨t, -, hget, -, hfrom⟩ := exists_get?_finishedFrom hset hfinish hinsert hi hu
  refine ⟨t, tables, hfrom, hget, hanging?_eq_some_iff.mpr ⟨hi, l, hl, ?_, ?_⟩, ?_⟩
  · rw [committed?, hu]
    exact hget
  · rw [hstored]
    exact Schema.get?_of_insertAll hinsert hparent
  · cases hfrom with
    | unlinked hnone => simp [hnone] at hl
    | @linked l' parent' hlink hparent' =>
      obtain rfl : l' = l := Option.some.inj (hlink.symm.trans hl)
      rw [hstored] at hparent'
      obtain rfl : parent' = parent := Option.some.inj (hparent'.symm.trans hparent)
      simp

theorem committed?_congr (h : s'.get? = s.get?) (target : LinkTarget) :
    set.committed? s' target = set.committed? s target := by
  cases target <;> simp only [committed?, h]

theorem hanging?_congr (h : s'.get? = s.get?) : set.hanging? s' i = set.hanging? s i := by
  simp only [hanging?, committed?_congr h]

theorem get?_of_committed? {target : LinkTarget} (h : set.committed? s target = some t) :
    s.get? t.key = some t := by
  cases target with
  | inSet j =>
    obtain ⟨u, -, hget⟩ := Option.bind_eq_some_iff.mp h
    rwa [Schema.key_of_get? hget]
  | stored key => rwa [Schema.key_of_get? h]

/-- A table that hangs off another one in a schema, and the latter, are tables of the schema. -/
theorem get?_of_hanging? (h : set.hanging? s i = some (t, parent)) :
    s.get? t.key = some t ∧ s.get? parent.key = some parent := by
  obtain ⟨-, l, -, ht, hparent⟩ := hanging?_eq_some_iff.mp h
  exact ⟨get?_of_committed? ht, get?_of_committed? hparent⟩

end TableSet

namespace TableContext

variable {ctx : TableContext} {e : Entity} {set : TableSet}

theorem addFrom_of_descriptorTable (h : ctx.descriptorTable e = .ok set) :
    set.AddFrom ctx.stored 0 := by
  refine (built_of_entityTables h).addFrom_zero rfl ?_
  rw [Table.reason_addForeignKey]
  rfl

theorem addFrom_of_subclassTable (h : ctx.subclassTable e = .ok set) :
    set.AddFrom ctx.stored 0 := by
  obtain ⟨main, key, hmain, -, rfl⟩ := exists_of_subclassTable h
  exact (addFrom_of_mainTable hmain rfl).modify 0 (by simp)

end TableContext

/-! ### Steps that commit -/

/-- The step from `s` to `s'` builds the set of tables for an entity and commits it. -/
inductive Commits (c : Config) (m : Model) (s : Schema) : TableSet → Schema → Prop
  | entity {e : Entity} {set : TableSet} {s' : Schema} (he : e ∈ m.mainEntities)
      (hset : (c.tableContext m s).mainTable e .main = .ok set)
      (h : set.storeMain c.targetVersion e.id s = .ok s') : Commits c m s set s'
  | descriptor {e : Entity} {set : TableSet} {s' : Schema} (he : e ∈ m.ofKind .descriptor)
      (hset : (c.tableContext m s).descriptorTable e = .ok set)
      (h : set.storeMain c.targetVersion e.id s = .ok s') : Commits c m s set s'
  | subclass {e : Entity} {set : TableSet} {s' : Schema} (he : e ∈ m.entities)
      (hkind : e.kind.isSubclass = true)
      (hset : (c.tableContext m s).subclassTable e = .ok set)
      (h : set.storeMain c.targetVersion e.id s = .ok s') : Commits c m s set s'
  | extension {e : Entity} {set : TableSet} {s' : Schema} (he : e ∈ m.extensions)
      (hset : (c.tableContext m s).extensionTable e = .ok set)
      (h : set.store c.targetVersion s = .ok s') : Commits c m s set s'

section Steps

variable {c : Config} {m : Model} {s s' : Schema} {set : TableSet} {t u : Table} {key : TableKey}
  {i : Nat} {e : Entity} {id : EntityId}

namespace Commits

theorem step (h : Commits c m s set s') : DerivationStep c m s s' := by
  cases h with
  | entity he hset h => exact .entity he (bind_eq_ok_iff.mpr ⟨set, hset, h⟩)
  | descriptor he hset h => exact .descriptor he (bind_eq_ok_iff.mpr ⟨set, hset, h⟩)
  | subclass he hkind hset h => exact .subclass he hkind (bind_eq_ok_iff.mpr ⟨set, hset, h⟩)
  | extension he hset h => exact .extension he (bind_eq_ok_iff.mpr ⟨set, hset, h⟩)

theorem wellLinked (h : Commits c m s set s') : set.WellLinked s := by
  cases h with
  | entity _ hset => exact TableContext.wellLinked_of_mainTable hset
  | descriptor _ hset => exact TableContext.wellLinked_of_descriptorTable hset
  | subclass _ _ hset => exact TableContext.wellLinked_of_subclassTable hset
  | extension _ hset => exact TableContext.wellLinked_of_extensionTable hset

/-- The tables after the step are those after the commit. -/
theorem exists_store (h : Commits c m s set s') :
    ∃ next, set.store c.targetVersion s = .ok next ∧ s'.get? = next.get? := by
  cases h with
  | entity _ _ h | descriptor _ _ h | subclass _ _ _ h =>
    obtain ⟨next, hnext, rfl | ⟨key, rfl⟩⟩ := TableSet.storeMain_eq_ok h
    · exact ⟨s', hnext, rfl⟩
    · exact ⟨next, hnext, rfl⟩
  | extension _ _ h => exact ⟨s', h, rfl⟩

/-- A table of the set that is kept and adds columns to another one hangs off it and does add
some. -/
theorem addsTo (h : Commits c m s set s') (hu : set.get? i = some u) (hi : i ∉ set.discarded)
    (hreason : u.reason.isExtensionTable = true) : set.AddsTo s i u := by
  have hall {set : TableSet} (hu : set.get? i = some u) (hi : i ∉ set.discarded)
      (hset : set.AddFrom s 0) : set.AddsTo s i u := hset.addsTo i.zero_le hu hi hreason
  cases h with
  | entity _ hset => exact hall hu hi (TableContext.addFrom_of_mainTable hset rfl)
  | descriptor _ hset => exact hall hu hi (TableContext.addFrom_of_descriptorTable hset)
  | subclass _ _ hset => exact hall hu hi (TableContext.addFrom_of_subclassTable hset)
  | extension _ hset =>
    obtain ⟨b, key, parent, -, -, hparent, hextends⟩ :=
      TableContext.exists_extends_of_extensionTable hset
    rcases Nat.eq_zero_or_pos i with rfl | hpos
    · obtain ⟨t, ht, -, hadds⟩ := hextends.first
      obtain rfl : t = u := Option.some.inj (ht.symm.trans hu)
      exact ⟨key, parent, hextends.target hi, hparent,
        hadds.exists_column_iff.mpr (hextends.kept.mp hi)⟩
    · exact hextends.others.addsTo hpos hu hi hreason

/-- A new table after the step is a finished table of the set. -/
theorem exists_of_new (h : Commits c m s set s') (ht : s'.get? key = some t)
    (hnew : s.get? key = none) : ∃ i u tables, set.get? i = some u ∧ i ∉ set.discarded ∧
      TableSet.FinishedFrom c.targetVersion s set.links tables i u t := by
  obtain ⟨next, hnext, hget⟩ := h.exists_store
  rw [hget] at ht
  refine (TableSet.mem_inserted_of_store h.wellLinked hnext (Schema.mem_of_get? ht)).resolve_left ?_
  intro hold
  have hkey := Schema.key_of_get? ht
  simpa [hkey] using List.find?_eq_none.mp hnew t hold

end Commits

/-! ### Steps that add no such tables -/

/-- All tables of the second schema that add columns to others are at addresses of the first. -/
def Schema.AddsNone (s s' : Schema) : Prop :=
  ∀ key t, s'.get? key = some t → t.reason.isExtensionTable = true → (s.get? key).isSome = true

theorem Schema.isSome_get?_of_mem (ht : t ∈ s.inserted) : (s.get? t.key).isSome = true :=
  List.find?_isSome.mpr ⟨t, ht, by simp⟩

theorem Schema.addsNone_of_inserted
    (h : ∀ t ∈ s'.inserted, t.reason.isExtensionTable = true → (s.get? t.key).isSome = true) :
    s.AddsNone s' :=
  fun _ t ht hreason => key_of_get? ht ▸ h t (mem_of_get? ht) hreason

/-- A commit of one table that adds no columns to another one. -/
theorem Schema.addsNone_of_storeMain {v : Version} {start : Table} {root : EntityId}
    (hstart : start.reason.isExtensionTable = false)
    (h : ((TableSet.empty root).push start).storeMain v id s = .ok s') : s.AddsNone s' := by
  obtain ⟨next, hnext, hs'⟩ := TableSet.storeMain_eq_ok h
  have hnone : s.AddsNone next := by
    refine addsNone_of_inserted fun t ht hreason => ?_
    rcases TableSet.mem_inserted_of_store (.of_links_eq_nil rfl) hnext ht with
      hold | ⟨i, u, tables, hu, -, hfrom⟩
    · exact isSome_get?_of_mem hold
    · have hmem : u ∈ ((TableSet.empty root).push start).tables := List.mem_of_getElem? hu
      rw [List.mem_singleton.mp hmem] at hfrom
      rw [hfrom.reason_eq, hstart] at hreason
      simp at hreason
  rcases hs' with rfl | ⟨key, rfl⟩
  · exact hnone
  · exact hnone

theorem Schema.addsNone_refl (s : Schema) : s.AddsNone s :=
  fun _ _ ht _ => Option.isSome_of_eq_some ht

theorem addsNone_of_storeBaseDescriptor (h : storeBaseDescriptor c s = .ok s') :
    s.AddsNone s' := by
  rcases storeBaseDescriptor_eq_ok h with rfl | h
  · exact s'.addsNone_refl
  · obtain ⟨-, rfl⟩ := Schema.insert_eq_ok_iff.mp h
    refine Schema.addsNone_of_inserted fun t ht hreason => ?_
    rcases List.mem_append.mp ht with ht | ht
    · exact Schema.isSome_get?_of_mem ht
    · rw [List.mem_singleton.mp ht, Table.reason_arranged, baseDescriptorTable,
        Table.reason_addColumns] at hreason
      simp [Table.ofReason, TableReason.isExtensionTable] at hreason

theorem addsNone_of_storeMapType (h : storeMapType c m s e = .ok s') : s.AddsNone s' := by
  rcases storeMapType_eq_ok h with rfl | ⟨_, _, mid, _, -, -, hmid, rfl⟩
  · exact s'.addsNone_refl
  · have hnone : s.AddsNone mid := by
      refine Schema.addsNone_of_storeMain ?_ hmid
      rw [codeValueTable, Table.reason_addColumns]
      rfl
    intro key t ht hreason
    rw [Schema.get?_modify (key_withMapType _ _ _)] at ht
    split_ifs at ht
    · obtain ⟨u, hu, rfl⟩ := Option.map_eq_some_iff.mp ht
      refine hnone key u hu ?_
      rwa [(Table.ChangedTo.mapType _ _).reason] at hreason
    · exact hnone key t ht hreason

theorem addsNone_of_storeEnumeration (h : storeEnumeration c s e = .ok s') : s.AddsNone s' := by
  refine Schema.addsNone_of_storeMain ?_ h
  rw [codeValueTable, Table.reason_addColumns]
  rfl

theorem addsNone_of_storeSchoolYear (h : storeSchoolYear c s e = .ok s') : s.AddsNone s' := by
  rcases storeSchoolYear_eq_ok h with ⟨key, rfl⟩ | h
  · exact s.addsNone_refl
  · refine Schema.addsNone_of_storeMain ?_ h
    rw [schoolYearTable, Table.reason_addColumns]
    rfl

/-- A table after the pass for foreign keys was there before, with other foreign keys at most. -/
theorem exists_get?_of_referenceKeys {info : CascadeInfo} (h : referenceKeys m info s = .ok s')
    (ht : s'.get? key = some t) :
    ∃ u fks, s.get? key = some u ∧ t = { u with foreignKeys := fks } := by
  obtain ⟨planned, -, rfl⟩ := referenceKeys_eq_ok h
  rw [Schema.get?_foldl_addForeignKey] at ht
  obtain ⟨u, hu, rfl⟩ := Option.map_eq_some_iff.mp ht
  obtain ⟨fks, hfks⟩ := u.exists_addForeignKeys_eq
    ((planned.filter fun entry => entry.1 = key).map Prod.snd)
  exact ⟨u, fks, hu, hfks⟩

/-- A step builds a set of tables and commits it, or it adds no table that adds columns to
others. -/
theorem DerivationStep.commits_or (h : DerivationStep c m s s') :
    (∃ set, Commits c m s set s') ∨ s.AddsNone s' := by
  cases h with
  | entity he h =>
    obtain ⟨set, hset, h⟩ := bind_eq_ok_iff.mp h
    exact Or.inl ⟨set, .entity he hset h⟩
  | descriptor he h =>
    obtain ⟨set, hset, h⟩ := bind_eq_ok_iff.mp h
    exact Or.inl ⟨set, .descriptor he hset h⟩
  | subclass he hkind h =>
    obtain ⟨set, hset, h⟩ := bind_eq_ok_iff.mp h
    exact Or.inl ⟨set, .subclass he hkind hset h⟩
  | extension he h =>
    obtain ⟨set, hset, h⟩ := bind_eq_ok_iff.mp h
    exact Or.inl ⟨set, .extension he hset h⟩
  | baseDescriptor h => exact Or.inr (addsNone_of_storeBaseDescriptor h)
  | mapType _ _ h => exact Or.inr (addsNone_of_storeMapType h)
  | enumeration _ h => exact Or.inr (addsNone_of_storeEnumeration h)
  | schoolYear _ h => exact Or.inr (addsNone_of_storeSchoolYear h)
  | references h =>
    refine Or.inr fun key t ht _ => ?_
    obtain ⟨u, _, hu, -⟩ := exists_get?_of_referenceKeys h ht
    exact Option.isSome_of_eq_some hu

end Steps

/-! ### Tables that hang off others -/

/-- The table `t` of the schema `s` hangs off `parent`: a step on the way to `s` has committed a
table that hangs off another one, and `t` and `parent` are what has become of the two. -/
def HangsOff (c : Config) (m : Model) (s : Schema) (t parent : Table) : Prop :=
  ∃ before set after i child base, Reaches c m .empty before ∧ Commits c m before set after ∧
    Reaches c m after s ∧ set.hanging? after i = some (child, base) ∧
    s.get? child.key = some t ∧ s.get? base.key = some parent

section Hanging

variable {c : Config} {m : Model} {s s' : Schema} {set : TableSet} {t u parent : Table}
  {key : TableKey} {i : Nat}

theorem Reaches.exists_reason (h : Reaches c m s s') (ht : s.get? key = some t) :
    ∃ t', s'.get? key = some t' ∧ t'.reason = t.reason := by
  induction h with
  | refl => exact ⟨t, ht, rfl⟩
  | tail _ hstep ih =>
    obtain ⟨u, hu, hreason⟩ := ih
    obtain ⟨t', ht', hchanged⟩ := hstep.exists_changedTo hu
    exact ⟨t', ht', hchanged.reason.trans hreason⟩

/-- A table goes on hanging off another one. -/
theorem HangsOff.step (h : HangsOff c m s u parent) (hstep : DerivationStep c m s s')
    (ht : s'.get? u.key = some t) : ∃ parent', HangsOff c m s' t parent' := by
  obtain ⟨before, set, after, i, child, base, hbefore, hcommits, hafter, hhanging, hchild, hbase⟩ :=
    h
  obtain ⟨parent', hparent', -⟩ := hstep.exists_later hbase
  refine ⟨parent', before, set, after, i, child, base, hbefore, hcommits, hafter.tail hstep,
    hhanging, ?_, hparent'⟩
  rwa [← Schema.key_of_get? hchild]

/-- A new table that adds columns to another one hangs off it. -/
theorem Commits.exists_hangsOff (h : Commits c m s set s') (hs : Reaches c m .empty s)
    (ht : s'.get? key = some t) (hnew : s.get? key = none)
    (hreason : t.reason.isExtensionTable = true) : ∃ parent, HangsOff c m s' t parent := by
  obtain ⟨i, u, tables, hu, hi, hfrom⟩ := h.exists_of_new ht hnew
  rw [hfrom.reason_eq] at hreason
  obtain ⟨parentKey, parent, htarget, hparent, -⟩ := h.addsTo hu hi hreason
  obtain ⟨next, hnext, hget⟩ := h.exists_store
  obtain ⟨t', -, -, ht', hhanging, -⟩ :=
    TableSet.exists_hanging_of_target? h.wellLinked hnext hi hu htarget hparent
  have hstored : s'.get? parent.key = some parent := by
    rw [hget, Schema.key_of_get? hparent]
    exact TableSet.get?_of_store hnext hparent
  have hsame : s'.get? u.key = some t := by
    rwa [← hfrom.key_eq, Schema.key_of_get? ht]
  obtain rfl : t' = t := Option.some.inj ((hget ▸ ht').symm.trans hsame)
  refine ⟨parent, s, set, s', i, t', parent, hs, h, .refl, ?_, ?_, hstored⟩
  · rw [TableSet.hanging?_congr hget]
    exact hhanging
  · rwa [Schema.key_of_get? ht]

/-- In the course of a run every table that adds columns to another one hangs off it. -/
theorem Reaches.exists_hangsOff (h : Reaches c m .empty s) (ht : s.get? key = some t)
    (hreason : t.reason.isExtensionTable = true) : ∃ parent, HangsOff c m s t parent := by
  induction h generalizing t with
  | refl => simp [Schema.get?, Schema.empty] at ht
  | @tail s s' hs hstep ih =>
    cases hold : s.get? key with
    | some u =>
      obtain ⟨t', ht', hchanged⟩ := hstep.exists_changedTo hold
      obtain rfl : t' = t := Option.some.inj (ht'.symm.trans ht)
      obtain ⟨parent, hhangs⟩ := ih hold (hchanged.reason ▸ hreason)
      exact hhangs.step hstep (by rwa [Schema.key_of_get? hold])
    | none =>
      rcases hstep.commits_or with ⟨set, hcommits⟩ | hnone
      · exact hcommits.exists_hangsOff hs ht hold hreason
      · have hsome := hnone key t ht hreason
        simp [hold] at hsome

/-- A committed table that adds columns to the one it hangs off has a column beyond the key of the
latter. -/
theorem Commits.exists_column {child base : Table} (h : Commits c m s set s')
    (hhanging : set.hanging? s' i = some (child, base))
    (hreason : child.reason.isExtensionTable = true) :
    ∃ column ∈ child.columns, column.id ∉ base.primaryKeyIds := by
  obtain ⟨next, hnext, hget⟩ := h.exists_store
  rw [TableSet.hanging?_congr hget] at hhanging
  obtain ⟨hi, l, hl, hchild, hbase⟩ := TableSet.hanging?_eq_some_iff.mp hhanging
  obtain ⟨u, hu, hchild⟩ := Option.bind_eq_some_iff.mp hchild
  obtain ⟨tables, hfinish, hinsert⟩ := TableSet.store_eq_ok_iff.mp hnext
  obtain ⟨child', -, hfinished, -, hfrom⟩ :=
    TableSet.exists_get?_finishedFrom h.wellLinked hfinish hinsert hi hu
  obtain rfl : child' = child := Option.some.inj (hfinished.symm.trans hchild)
  rw [hfrom.reason_eq] at hreason
  obtain ⟨key, parent, htarget, hparent, column, hcolumn, hbeyond⟩ := h.addsTo hu hi hreason
  have htarget' : l.target = .stored key := by
    simpa [TableSet.target?, hl] using htarget
  rw [htarget'] at hbase
  obtain rfl : parent = base :=
    Option.some.inj ((TableSet.get?_of_store hnext hparent).symm.trans hbase)
  exact ⟨column, hfrom.columns_perm.mem_iff.mpr hcolumn, hbeyond⟩

/-- The same in the schema of a run. -/
theorem HangsOff.exists_column (h : HangsOff c m s t parent)
    (hreason : t.reason.isExtensionTable = true) :
    ∃ column ∈ t.columns, column.id ∉ parent.primaryKeyIds := by
  obtain ⟨before, set, after, i, child, base, -, hcommits, hafter, hhanging, hchild, hbase⟩ := h
  obtain ⟨hchild', hbase'⟩ := TableSet.get?_of_hanging? hhanging
  obtain ⟨t₁, ht₁, hsame⟩ := hafter.exists_reason hchild'
  obtain rfl : t₁ = t := Option.some.inj (ht₁.symm.trans hchild)
  obtain ⟨t₂, ht₂, hevolves⟩ := hafter.evolves.kept _ _ hchild'
  obtain rfl : t₂ = t₁ := Option.some.inj (ht₂.symm.trans hchild)
  obtain ⟨parent', hparent', hlater⟩ := hafter.exists_later hbase'
  obtain rfl : parent' = parent := Option.some.inj (hparent'.symm.trans hbase)
  obtain ⟨column, hcolumn, hbeyond⟩ := hcommits.exists_column hhanging (hsame ▸ hreason)
  obtain ⟨column', hcolumn', hid⟩ :=
    List.mem_map.mp (hevolves.mem_map_id (List.mem_map_of_mem hcolumn))
  exact ⟨column', hcolumn', by rwa [hlater.keyNames, hid]⟩

end Hanging

/-! ### Before the extensions -/

/-- No table of the schema is that of an extension. -/
def Schema.LacksExtensions (s : Schema) : Prop :=
  ∀ key t, s.get? key = some t → t.reason ≠ .extension

section Passes

variable {c : Config} {m : Model} {s s' : Schema} {set : TableSet}

namespace Schema.LacksExtensions

/-- It is enough to look at new tables, since the reasons of others do not change. -/
theorem of_step (hs : s.LacksExtensions) (hstep : DerivationStep c m s s')
    (hnew : ∀ key t, s'.get? key = some t → s.get? key = none → t.reason ≠ .extension) :
    s'.LacksExtensions := by
  intro key t ht
  cases hold : s.get? key with
  | some u =>
    obtain ⟨t', ht', hchanged⟩ := hstep.exists_changedTo hold
    obtain rfl : t' = t := Option.some.inj (ht'.symm.trans ht)
    rw [hchanged.reason]
    exact hs key u hold
  | none => exact hnew key t ht hold

theorem of_addsNone (hs : s.LacksExtensions) (hstep : DerivationStep c m s s')
    (hnone : s.AddsNone s') : s'.LacksExtensions := by
  refine hs.of_step hstep fun key t ht hnew hreason => ?_
  have hsome := hnone key t ht (by rw [hreason]; rfl)
  simp [hnew] at hsome

theorem of_commits (hs : s.LacksExtensions) (h : Commits c m s set s') (hset : set.AddFrom s 0) :
    s'.LacksExtensions := by
  refine hs.of_step h.step fun key t ht hnew => ?_
  obtain ⟨i, u, tables, hu, -, hfrom⟩ := h.exists_of_new ht hnew
  rw [hfrom.reason_eq]
  exact (hset i u i.zero_le hu).1

theorem of_descriptorTables (hs : s.LacksExtensions) (h : descriptorTables c m s = .ok s') :
    s'.LacksExtensions := by
  unfold descriptorTables at h
  split at h
  · exact Except.ok.inj h ▸ hs
  · obtain ⟨mid, hmid, h⟩ := bind_eq_ok_iff.mp h
    have hstart := hs.of_addsNone (m := m) (.baseDescriptor hmid)
      (addsNone_of_storeBaseDescriptor hmid)
    refine foldlM_ok_induction LacksExtensions (fun t e t' he ht hstep => ?_) hstart h
    obtain ⟨set, hset, hstep⟩ := bind_eq_ok_iff.mp hstep
    exact ht.of_commits (.descriptor he hset hstep) (TableContext.addFrom_of_descriptorTable hset)

/-- The passes before that for extensions add no tables of extensions. -/
theorem of_schemaAfter {p : Pass} {info : CascadeInfo} (hs : s.LacksExtensions)
    (hp : p ∈ Pass.ofStage .mainTables ∨ p = .subclassTables) (happlies : p.appliesTo c = true)
    (h : p.schemaAfter c m info s = .ok s') : s'.LacksExtensions := by
  cases p with
  | entityTables =>
    refine foldlM_ok_induction LacksExtensions (fun t e t' he ht hstep => ?_) hs h
    obtain ⟨set, hset, hstep⟩ := bind_eq_ok_iff.mp hstep
    exact ht.of_commits (.entity he hset hstep) (TableContext.addFrom_of_mainTable hset rfl)
  | descriptorTables => exact hs.of_descriptorTables h
  | mapTypeTables =>
    refine foldlM_ok_induction LacksExtensions (fun t e t' he ht hstep => ?_) hs h
    exact ht.of_addsNone (.mapType happlies he hstep) (addsNone_of_storeMapType hstep)
  | enumerationTables =>
    refine foldlM_ok_induction LacksExtensions (fun t e t' he ht hstep => ?_) hs h
    exact ht.of_addsNone (m := m) (.enumeration he hstep) (addsNone_of_storeEnumeration hstep)
  | schoolYearTables =>
    refine foldlM_ok_induction LacksExtensions (fun t e t' he ht hstep => ?_) hs h
    exact ht.of_addsNone (m := m) (.schoolYear he hstep) (addsNone_of_storeSchoolYear hstep)
  | subclassTables =>
    refine subclassRounds_ok_induction LacksExtensions (fun t e t' he ht hstep => ?_) hs h
    obtain ⟨hmem, hkind⟩ := List.mem_filter.mp he
    obtain ⟨set, hset, hstep⟩ := bind_eq_ok_iff.mp hstep
    exact ht.of_commits (.subclass hmem hkind hset hstep)
      (TableContext.addFrom_of_subclassTable hset)
  | extensionTables | updateCascade | foreignKeys => simp [Pass.ofStage] at hp

end Schema.LacksExtensions

/-- A run over all stages derives the tables of extensions from a schema without such tables, and
adds only the foreign keys of references after that. -/
theorem exists_extensionTables_of_derive (hall : c.effectiveStages = Stage.all) {r : Report}
    (h : derive c m = .ok r) : ∃ before after info, Reaches c m .empty before ∧
      before.LacksExtensions ∧ extensionTables c m before = .ok after ∧
      referenceKeys m info after = .ok r.schema := by
  obtain ⟨progress, hstages, hschema⟩ := runStages_of_derive h
  rw [hall, show Stage.all = [.mainTables] ++ ([.derivedTables] ++ [.crossCutting]) from rfl]
    at hstages
  obtain ⟨main, _, _, hmain, hrest⟩ := exists_of_runStages_append hstages
  obtain ⟨derived, _, _, hderived, hlast⟩ := exists_of_runStages_append hrest
  obtain ⟨info, hkeys⟩ := exists_referenceKeys_of_runStages hlast
  simp only [runStages, runPasses, Pass.ofStage, bind_eq_ok_iff, pure_eq_ok_iff, Prod.exists,
    Prod.mk.injEq, Except.ok.injEq, mapError_eq_ok_iff] at hderived
  obtain ⟨_, _, ⟨mid, _, hsubclasses, _, _, ⟨_, _, hextensions, _, _, ⟨rfl, rfl⟩, rfl, rfl⟩, rfl,
    rfl⟩, _, _, ⟨rfl, rfl⟩, rfl, rfl⟩ := hderived
  have hreaches : Reaches c m .empty mid.schema :=
    (reaches_of_runStages hmain).trans (reaches_of_run hsubclasses)
  have hstart : Schema.empty.LacksExtensions := by
    intro key t ht
    simp [Schema.get?, Schema.empty] at ht
  simp only [runStages, bind_eq_ok_iff, pure_eq_ok_iff, Prod.exists, Prod.mk.injEq,
    Except.ok.injEq] at hmain
  obtain ⟨_, _, hpasses, _, _, ⟨rfl, rfl⟩, rfl, rfl⟩ := hmain
  have hlacks := runPasses_ok_induction Schema.LacksExtensions
    (fun p hp info s s' happlies h hs => hs.of_schemaAfter (Or.inl hp) happlies h) hstart hpasses
  refine ⟨mid.schema, _, info, hreaches, ?_, schemaAfter_of_run rfl hextensions, hschema ▸ hkeys⟩
  exact hlacks.of_schemaAfter (Or.inr rfl) rfl (schemaAfter_of_run rfl hsubclasses)

end Passes

/-! ### After the extensions -/

/-- The second schema has the tables of the first, with further foreign keys at most, and the same
main tables. -/
structure Schema.GainsKeys (s s' : Schema) : Prop where
  get? : ∀ key t, s.get? key = some t → ∃ fks, s'.get? key = some { t with foreignKeys := fks }
  registered : ∀ id, s'.entityTableKey? id = s.entityTableKey? id

section Extensions

variable {c : Config} {m : Model} {s s' s'' : Schema} {e : Entity} {set : TableSet}

namespace Schema.GainsKeys

theorem refl (s : Schema) : s.GainsKeys s :=
  ⟨fun _ t ht => ⟨t.foreignKeys, ht⟩, fun _ => rfl⟩

theorem trans (h : s.GainsKeys s') (h' : s'.GainsKeys s'') : s.GainsKeys s'' where
  get? key t ht := by
    obtain ⟨fks, ht'⟩ := h.get? key t ht
    obtain ⟨fks', ht''⟩ := h'.get? key _ ht'
    exact ⟨fks', ht''⟩
  registered id := (h'.registered id).trans (h.registered id)

theorem of_storeExtension (h : storeExtension c m s e = .ok s') : s.GainsKeys s' := by
  obtain ⟨set, -, h⟩ := bind_eq_ok_iff.mp h
  exact ⟨fun _ t ht => ⟨t.foreignKeys, TableSet.get?_of_store h ht⟩,
    TableSet.entityTableKey?_of_store h⟩

theorem of_foldlM {es : List Entity} (h : es.foldlM (storeExtension c m) s = .ok s') :
    s.GainsKeys s' :=
  foldlM_ok_induction s.GainsKeys (fun _ _ _ _ ht hstep => ht.trans (of_storeExtension hstep))
    (.refl s) h

theorem of_referenceKeys {info : CascadeInfo} (h : referenceKeys m info s = .ok s') :
    s.GainsKeys s' := by
  obtain ⟨planned, -, rfl⟩ := referenceKeys_eq_ok h
  refine ⟨fun key t ht => get?_addForeignKeys planned ht, fun id => ?_⟩
  rw [Schema.entityTableKey?, entityTables_addForeignKeys]
  rfl

end Schema.GainsKeys

/-- The extension `e` of the entity with the main table `base` has been stored on the way to the
schema `s`, when the schema was `before`, by committing `set`. The tables of the set that hang off
the main table are in `s`. -/
structure StoresExtension (c : Config) (m : Model) (s : Schema) (e : Entity) (base : Table)
    (before : Schema) (set : TableSet) : Prop where
  owner : ∀ t ∈ set.tables, t.parentEntity = some e.id
  extended : ∃ key, set.Extends m before e key base ∧
    ∀ i u, set.get? i = some u → i ∉ set.discarded → set.target? i = some (.stored key) →
      ∃ t, s.get? u.key = some t ∧ t.reason = u.reason ∧ t.parentEntity = some e.id ∧
        t.parentKeyColumnIds = base.primaryKeyIds ∧ HangsOff c m s t base

theorem exists_storesExtension (hs : Reaches c m .empty s) (he : e ∈ m.extensions)
    (h : storeExtension c m s e = .ok s') (hreach : Reaches c m s' s'')
    (hkeys : s'.GainsKeys s'') : ∃ b base set, m.baseEntity e = .ok b ∧
      s''.entityTable? b.id = some base ∧ Commits c m s set s' ∧
      StoresExtension c m s'' e base s set := by
  obtain ⟨set, hset, hstore⟩ := bind_eq_ok_iff.mp h
  obtain ⟨b, key, parent, hb, hkey, hparent, hextends⟩ :=
    TableContext.exists_extends_of_extensionTable hset
  have hall := (Schema.GainsKeys.of_storeExtension h).trans hkeys
  obtain ⟨fks, hbase⟩ := hall.get? key parent hparent
  have howner := (TableContext.belongsTo_of_extensionTable hset).owner
  refine ⟨b, { parent with foreignKeys := fks }, set, hb, ?_, .extension he hset hstore, howner,
    key, hextends.of_foreignKeys fks, fun i u hu hi htarget => ?_⟩
  · rw [Schema.entityTable?, hall.registered, show s.entityTableKey? b.id = some key from hkey]
    exact hbase
  · obtain ⟨t, tables, hfrom, ht, hhanging, horder⟩ := TableSet.exists_hanging_of_target?
      (TableContext.wellLinked_of_extensionTable hset) hstore hi hu htarget hparent
    obtain ⟨gained, ht'⟩ := hkeys.get? u.key t ht
    refine ⟨_, ht', hfrom.reason_eq, ?_, horder, ?_⟩
    · exact hfrom.parentEntity_eq.trans (howner u (List.mem_of_getElem? hu))
    · refine ⟨s, set, s', i, t, parent, hs, .extension he hset hstore, hreach, hhanging, ?_, ?_⟩
      · rwa [hfrom.key_eq]
      · rwa [Schema.key_of_get? hparent]

variable {before after mid mid' : Schema} {first rest : List Entity} {info : CascadeInfo}
  {t : Table} {key : TableKey}

/-- Every step of the pass for extensions is of this kind, seen from the end of the run. -/
theorem exists_storesExtension_of_split (hs : Reaches c m .empty before)
    (hsplit : m.extensions = first ++ e :: rest)
    (hfirst : first.foldlM (storeExtension c m) before = .ok mid)
    (hstep : storeExtension c m mid e = .ok mid')
    (hrest : rest.foldlM (storeExtension c m) mid' = .ok after)
    (hlast : referenceKeys m info after = .ok s) : ∃ b base set, m.baseEntity e = .ok b ∧
      s.entityTable? b.id = some base ∧ Commits c m mid set mid' ∧
      StoresExtension c m s e base mid set := by
  have hmem {f : Entity} (hf : f ∈ first ++ e :: rest) : f ∈ m.extensions := hsplit ▸ hf
  have hmid : Reaches c m .empty mid := hs.trans <| reaches_of_foldlM
    (fun _ _ _ hf => .extension (hmem (List.mem_append_left _ hf))) hfirst
  have hafter : Reaches c m mid' s := (reaches_of_foldlM
    (fun _ _ _ hf => .extension (hmem (List.mem_append_right _ (List.mem_cons_of_mem _ hf))))
      hrest).tail (.references hlast)
  exact exists_storesExtension hmid (hmem (by simp)) hstep hafter
    ((Schema.GainsKeys.of_foldlM hrest).trans (.of_referenceKeys hlast))

/-- A table of an extension comes from the step of the pass that stores this extension. -/
theorem exists_storesExtension_of_reason (hindexed : m.IsIndexed) (hs : Reaches c m .empty before)
    (hlacks : before.LacksExtensions) (h : extensionTables c m before = .ok after)
    (hlast : referenceKeys m info after = .ok s) (he : e ∈ m.extensions)
    (ht : s.get? key = some t) (hreason : t.reason = .extension)
    (howner : t.parentEntity = some e.id) : ∃ b base mid set u, m.baseEntity e = .ok b ∧
      s.entityTable? b.id = some base ∧ StoresExtension c m s e base mid set ∧
      set.get? 0 = some u ∧ 0 ∉ set.discarded ∧ u.key = key := by
  obtain ⟨t₀, fks, ht₀, rfl⟩ := exists_get?_of_referenceKeys hlast ht
  have hsame : t₀.reason = .extension := hreason
  have howner₀ : t₀.parentEntity = some e.id := howner
  -- the table was not there before the pass for extensions, so one of its steps has added it
  obtain ⟨first, f, rest, mid, mid', hsplit, hfirst, hstep, hrest, habsent, hpresent⟩ :=
    exists_step_of_foldlM (P := fun s => s.get? key = some t₀) h
      (fun hold => hlacks key t₀ hold hsame) ht₀
  obtain ⟨b, base, set, hb, hbase, hcommits, hstores⟩ :=
    exists_storesExtension_of_split hs hsplit hfirst hstep hrest hlast
  have hnew : mid.get? key = none := by
    cases hold : mid.get? key with
    | none => rfl
    | some w =>
      obtain ⟨set', -, hstore⟩ := bind_eq_ok_iff.mp hstep
      have hkept := (TableSet.get?_of_store hstore hold).symm.trans hpresent
      exact absurd (hold.trans hkept) habsent
  obtain ⟨i, u, tables, hu, hi, hfrom⟩ := hcommits.exists_of_new hpresent hnew
  have hf : f ∈ m.extensions := by simp [hsplit]
  obtain rfl : f = e := by
    have hid : some f.id = some e.id := by
      rw [← howner₀, hfrom.parentEntity_eq, hstores.owner u (List.mem_of_getElem? hu)]
    exact hindexed.eq_of_id_eq (List.mem_filter.mp hf).1 (List.mem_filter.mp he).1
      (Option.some.inj hid)
  -- only the first table of an extension has this reason
  obtain ⟨_, hextends, -⟩ := hstores.extended
  obtain rfl : i = 0 := by
    by_contra hne
    exact (hextends.others i u (Nat.one_le_iff_ne_zero.mpr hne) hu).1 (hfrom.reason_eq ▸ hsame)
  refine ⟨b, base, mid, set, u, hb, hbase, hstores, hu, hi, ?_⟩
  rw [← hfrom.key_eq, Schema.key_of_get? hpresent]

end Extensions

/-! ### Extension tables of a run -/

/-- The table holds the columns that an extension adds to the main table `base`. -/
structure Table.IsExtensionOf (t : Table) (e : Entity) (base : Table) : Prop where
  key : t.key = ⟨e.namespaceName, base.tableId ++ "Extension"⟩
  reason : t.reason = .extension
  owner : t.parentEntity = some e.id

/-- The table joins the values of a property of an extension to the main table `base`. -/
structure Table.IsJoinOf (t : Table) (e : Entity) (base : Table) (p : Property) : Prop where
  key : t.key = ⟨e.namespaceName, base.tableId ++ p.tableName⟩
  reason : t.reason.isJoinTable = true
  owner : t.parentEntity = some e.id
  parentKeys : t.parentKeyColumnIds = base.primaryKeyIds

/-- **Extension tables exist exactly when they add something.** After a run over all stages, every
table of an extension or of the extension of a common hangs off another table and has a column
beyond the key of each table that it hangs off. Every extension has a base with a main table. It has
a table of its own, which hangs off this main table, if and only if its properties contribute a
column beyond the key of the main table. Whether or not it has one, each of its collections and of
its commons that extend no other has a table that hangs off the main table and records its key. -/
theorem extensionTables_stored_iff_adds {c : Config} {m : Model} {r : Report}
    (hindexed : m.IsIndexed) (hall : c.effectiveStages = Stage.all) (h : derive c m = .ok r) :
    (∀ t ∈ r.schema.tables, t.reason.isExtensionTable = true →
      (∃ parent, HangsOff c m r.schema t parent) ∧
      ∀ parent, HangsOff c m r.schema t parent →
        ∃ column ∈ t.columns, column.id ∉ parent.primaryKeyIds) ∧
    ∀ e ∈ m.extensions, ∃ b base, m.baseEntity e = .ok b ∧
      r.schema.entityTable? b.id = some base ∧
      ((∃ t ∈ r.schema.tables, t.IsExtensionOf e base) ↔
        ∃ id text, m.Contributes e.declarations .root id text ∧ id ∉ base.primaryKeyIds) ∧
      (∀ t ∈ r.schema.tables, t.IsExtensionOf e base → HangsOff c m r.schema t base) ∧
      ∀ d ∈ e.declarations, d.property.hasJoinTable = true →
        ∃ t ∈ r.schema.tables, t.IsJoinOf e base d.property ∧ HangsOff c m r.schema t base := by
  have hreaches := reaches_of_derive h
  have hget {t : Table} (ht : t ∈ r.schema.tables) : r.schema.get? t.key = some t :=
    Schema.get?_of_mem hreaches.nodup_addresses (Schema.mem_tables_iff.mp ht)
  have hmem {key : TableKey} {t : Table} (ht : r.schema.get? key = some t) : t ∈ r.schema.tables :=
    Schema.mem_tables_iff.mpr (Schema.mem_of_get? ht)
  refine ⟨fun t ht hreason => ⟨hreaches.exists_hangsOff (hget ht) hreason,
    fun parent hhangs => hhangs.exists_column hreason⟩, fun e he => ?_⟩
  obtain ⟨before, after, info, hbefore, hlacks, hextensions, hlast⟩ :=
    exists_extensionTables_of_derive hall h
  obtain ⟨first, rest, mid, mid', hsplit, hfirst, hstep, hrest⟩ := foldlM_ok_of_mem hextensions he
  obtain ⟨b, base, set, hb, hbase, -, hstores⟩ :=
    exists_storesExtension_of_split hbefore hsplit hfirst hstep hrest hlast
  obtain ⟨key, hextends, hfound⟩ := hstores.extended
  have hstored {t : Table} (ht : t ∈ r.schema.tables) (hext : t.IsExtensionOf e base) :
      (∃ id text, m.Contributes e.declarations .root id text ∧ id ∉ base.primaryKeyIds) ∧
        HangsOff c m r.schema t base := by
    obtain ⟨b', base', mid₁, set₁, u, hb', hbase', hstores₁, hu, hkept, hkey⟩ :=
      exists_storesExtension_of_reason hindexed hbefore hlacks hextensions hlast he (hget ht)
        hext.reason hext.owner
    obtain rfl : b' = b := Except.ok.inj (hb'.symm.trans hb)
    obtain rfl : base' = base := Option.some.inj (hbase'.symm.trans hbase)
    obtain ⟨key₁, hextends₁, hfound₁⟩ := hstores₁.extended
    obtain ⟨t', ht', -, -, -, hhangs⟩ := hfound₁ 0 u hu hkept (hextends₁.target hkept)
    obtain rfl : t' = t := Option.some.inj (ht'.symm.trans (hkey ▸ hget ht))
    exact ⟨hextends₁.kept.mp hkept, hhangs⟩
  refine ⟨b, base, hb, hbase, ⟨fun ⟨t, ht, hext⟩ => (hstored ht hext).1, fun hadds => ?_⟩,
    fun t ht hext => (hstored ht hext).2, fun d hd hjoin => ?_⟩
  · have hkept := hextends.kept.mpr hadds
    obtain ⟨u, hu, hreason, hadds⟩ := hextends.first
    obtain ⟨t, ht, hsame, howner, -⟩ := hfound 0 u hu hkept (hextends.target hkept)
    exact ⟨t, hmem ht, (Schema.key_of_get? ht).trans hadds.key, hsame.trans hreason, howner⟩
  · obtain ⟨i, u, hu, hkey, hreason, htarget, hkept⟩ := hextends.joins d hd hjoin
    obtain ⟨t, ht, hsame, howner, hparents, hhangs⟩ := hfound i u hu hkept htarget
    refine ⟨t, hmem ht, ⟨?_, hsame ▸ hreason, howner, hparents⟩, hhangs⟩
    rw [Schema.key_of_get? ht, hkey]
    exact Scope.joinKey_detached

namespace Mottos

def school : Entity :=
  { (Entity.ofKind .domainEntity "EdFi" "School").withProperty
      (Property.ofKind "SchoolId" (.scalar .integer)).identity with
    id := 0 }

def schoolLink : Property :=
  { Property.ofKind "School" .domainEntity with referencedEntity := some 0 }

def course : Entity :=
  { ((Entity.ofKind .domainEntity "EdFi" "Course").withProperty schoolLink.identity).withProperty
      (Property.ofKind "CourseId" (.scalar .integer)).identity with
    id := 1 }

/-- Schools with a motto. -/
def schoolExtension : Entity :=
  { (Entity.ofKind .domainEntityExtension "Sample" "School").withProperty
      (Property.ofKind "Motto" (.scalar (.text 60))) with
    id := 2
    baseEntity := some 0 }

def tag : Property :=
  (Property.ofKind "Tag" (.scalar (.text 20))).optionalCollection

/-- Courses with a second link to a school, whose column is in their key already, and with tags. -/
def courseExtension : Entity :=
  { ((Entity.ofKind .domainEntityExtension "Sample" "Course").withProperty schoolLink).withProperty
      tag with
    id := 3
    baseEntity := some 1 }

def model : Model :=
  ⟨[.core "EdFi", .core "Sample"], [school, course, schoolExtension, courseExtension]⟩

end Mottos

/-- The motto is a column beyond the key of schools, so the extension of schools has a table. The
second link of courses adds nothing to their key, so their extension has the table of tags only. -/
theorem extensionTables_stored_iff_adds_mottos :
    ∃ r schools courses, derive unsortedConfig Mottos.model = .ok r ∧
      r.schema.entityTable? 0 = some schools ∧ r.schema.entityTable? 1 = some courses ∧
      (∃ id text, Mottos.model.Contributes Mottos.schoolExtension.declarations .root id text ∧
        id ∉ schools.primaryKeyIds) ∧
      (∃ t ∈ r.schema.tables, t.IsExtensionOf Mottos.schoolExtension schools ∧
        HangsOff unsortedConfig Mottos.model r.schema t schools) ∧
      courses.primaryKeyIds = ["SchoolId", "CourseId"] ∧
      (∀ id text, Mottos.model.Contributes Mottos.courseExtension.declarations .root id text →
        id ∈ courses.primaryKeyIds) ∧
      (∀ t ∈ r.schema.tables, ¬t.IsExtensionOf Mottos.courseExtension courses) ∧
      ∃ t ∈ r.schema.tables, t.IsJoinOf Mottos.courseExtension courses Mottos.tag ∧
        HangsOff unsortedConfig Mottos.model r.schema t courses := by
  have hrun : (derive unsortedConfig Mottos.model).toOption.any (fun r =>
      (r.schema.entityTable? 0).map Table.tableId = some "School" ∧
      (r.schema.entityTable? 1).map Table.primaryKeyIds = some ["SchoolId", "CourseId"] ∧
      (r.schema.tables.any fun t => t.key = ⟨"Sample", "SchoolExtension"⟩ ∧
        t.reason = .extension ∧ t.parentEntity = some 2) = true ∧
      ∀ t ∈ r.schema.tables, t.reason = .extension → t.parentEntity ≠ some 3) = true := by
    decide +kernel
  obtain ⟨r, hr, hrun⟩ := exists_eq_ok_of_any hrun
  obtain ⟨hschool, hkeys, hstored, hmissing⟩ := of_decide_eq_true hrun
  obtain ⟨-, hextensions⟩ := extensionTables_stored_iff_adds (by decide +kernel) rfl hr
  obtain ⟨_, schools, hb, hschools, hiff, hhangs, -⟩ :=
    hextensions Mottos.schoolExtension (by decide +kernel)
  obtain rfl := Except.ok.inj hb
  obtain ⟨_, courses, hb, hcourses, hiff', -, hjoins⟩ :=
    hextensions Mottos.courseExtension (by decide +kernel)
  obtain rfl := Except.ok.inj hb
  rw [show r.schema.entityTable? 0 = some schools from hschools, Option.map_some,
    Option.some.injEq] at hschool
  rw [show r.schema.entityTable? 1 = some courses from hcourses, Option.map_some,
    Option.some.injEq] at hkeys
  obtain ⟨t, ht, htable⟩ := List.any_eq_true.mp hstored
  obtain ⟨hkey, hreason, howner⟩ := of_decide_eq_true htable
  have hext : t.IsExtensionOf Mottos.schoolExtension schools :=
    ⟨by rw [hkey, hschool]; rfl, hreason, howner⟩
  have hnone : ∀ t ∈ r.schema.tables, ¬t.IsExtensionOf Mottos.courseExtension courses :=
    fun t ht hext => hmissing t ht hext.reason hext.owner
  refine ⟨r, schools, courses, hr, hschools, hcourses, hiff.mp ⟨t, ht, hext⟩,
    ⟨t, ht, hext, hhangs t ht hext⟩, hkeys, fun id text hid => ?_, hnone,
    hjoins ⟨Mottos.courseExtension, 1, Mottos.tag⟩ (.tail _ (.head _)) rfl⟩
  by_contra hadds
  obtain ⟨t, ht, hext⟩ := hiff'.mpr ⟨id, text, hid, hadds⟩
  exact hnone t ht hext

end Tabular
