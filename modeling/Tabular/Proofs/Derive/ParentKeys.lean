import Mathlib.Tactic.Common
import Tabular.Inheritance
import Tabular.Proofs.Derive.CarriedKeys
import Tabular.Proofs.Run.Distinctness

/-!
# Child tables carry the key of their parent

When a set is committed, each table takes over the key order of the finished table it hangs off,
and finishing changes no key. So the links that are carried within the set (`TableSet.Carried`) stay
carried in the schema, and sorted columns start with the key of the parent.

## Main definitions

* `TableSet.hanging?`: a committed table and the table that it hangs off.

## Main results

* `TableSet.parentIs_of_committed?`: the table that a link leads to after a commit.
* `TableSet.exists_finished_of_hanging?`: what a child table takes over.
* `primaryKeyIds_carried_of_hanging`: committed tables carry the key of their parent.
* `primaryKeyIds_not_carried_divisions`: a rename that stands in for no key property.
-/

namespace Tabular

/-! ### Committed tables -/

namespace TableSet

/-- The table that a link leads to, in a schema to which the set has been committed. -/
def committed? (set : TableSet) (s : Schema) : LinkTarget → Option Table
  | .inSet j => (set.get? j).bind fun t => s.get? t.key
  | .stored key => s.get? key

/-- The table at a position that is kept and hangs off another one, and the latter, in a schema to
which the set has been committed. -/
def hanging? (set : TableSet) (s : Schema) (i : Nat) : Option (Table × Table) :=
  if i ∈ set.discarded then none
  else (set.links.find? fun l => l.child = i).bind fun l =>
    (set.committed? s (.inSet i)).bind fun child =>
      (set.committed? s l.target).map fun parent => (child, parent)

variable {set : TableSet} {v : Version} {s s' : Schema} {links : List ParentLink}
  {tables : List Table} {i : Nat} {t t' child parent : Table}

theorem hanging?_eq_some_iff : set.hanging? s i = some (child, parent) ↔ i ∉ set.discarded ∧
    ∃ l, set.links.find? (fun l => l.child = i) = some l ∧
      set.committed? s (.inSet i) = some child ∧ set.committed? s l.target = some parent := by
  unfold hanging?
  split_ifs with hi <;> simp [hi, Option.bind_eq_some_iff]

/-- Finishing a table keeps the names in its key. -/
theorem FinishedFrom.mem_primaryKeyIds_iff (h : FinishedFrom v s links tables i t t')
    {id : String} : id ∈ t'.primaryKeyIds ↔ id ∈ t.primaryKeyIds := by
  cases h with
  | unlinked => exact Table.mem_primaryKeyIds_arranged_iff
  | linked =>
    rw [Table.primaryKeyIds_addForeignKey]
    exact Table.mem_primaryKeyIds_arranged_iff

theorem ParentIs.unique {target : LinkTarget} (h : ParentIs tables s target t)
    (h' : ParentIs tables s target t') : t = t' := by
  cases target <;> exact Option.some.inj (h.symm.trans h')

/-- A table of a committed set that is kept is in the schema as it was finished. -/
theorem exists_get?_finishedFrom (hset : set.WellLinked s) (hfinish : set.finish v s = .ok tables)
    (hinsert : s.insertAll (set.kept tables) = (s', none)) (hi : i ∉ set.discarded)
    (ht : set.get? i = some t) : ∃ t', tables[i]? = some t' ∧ s'.get? t.key = some t' ∧
      t.Evolves t' ∧ FinishedFrom v s set.links tables i t t' := by
  obtain ⟨t', ht', hfrom⟩ := (finishedFrom_of_finish hset hfinish).2 i t hi ht
  obtain ⟨u, hu, hevolves⟩ := (evolves_of_finish hfinish).2 i t ht
  obtain rfl : u = t' := Option.some.inj (hu.symm.trans ht')
  refine ⟨u, ht', ?_, hevolves, hfrom⟩
  rw [← hevolves.key]
  exact Schema.get?_insertAll_of_mem hinsert (mem_kept_iff.mpr ⟨i, ht', hi⟩)

/-- The table that a link leads to after a commit is the one that the child was finished against. It
comes from the one that the link leads to within the set, with the same names in its key. -/
theorem parentIs_of_committed? {l : ParentLink} {built : Table} (hset : set.WellLinked s)
    (hfinish : set.finish v s = .ok tables) (hinsert : s.insertAll (set.kept tables) = (s', none))
    (hlink : set.links.find? (fun l => l.child = i) = some l)
    (hbuilt : ParentIs set.tables s l.target built)
    (hparent : set.committed? s' l.target = some parent) :
    ParentIs tables s l.target parent ∧ built.Evolves parent ∧
      ∀ id, id ∈ parent.primaryKeyIds ↔ id ∈ built.primaryKeyIds := by
  cases htarget : l.target with
  | inSet j =>
    rw [htarget] at hparent hbuilt
    obtain ⟨u, hu, hparent⟩ := Option.bind_eq_some_iff.mp hparent
    obtain rfl : u = built := Option.some.inj (hu.symm.trans hbuilt)
    have hkept : j ∉ set.discarded := (hset.lt_of_find? hlink htarget).2.2
    obtain ⟨parent', hposition, hget, hevolves, hfrom⟩ :=
      exists_get?_finishedFrom hset hfinish hinsert hkept hu
    obtain rfl : parent' = parent := Option.some.inj (hget.symm.trans hparent)
    exact ⟨hposition, hevolves, fun id => hfrom.mem_primaryKeyIds_iff⟩
  | stored key =>
    rw [htarget] at hparent hbuilt
    obtain rfl : built = parent :=
      Option.some.inj ((Schema.get?_of_insertAll hinsert hbuilt).symm.trans hparent)
    exact ⟨hbuilt, .refl built, fun id => Iff.rfl⟩

/-- A committed table and the one it hangs off, in terms of the set: the child was finished against
the parent, whose key it carries. The parent has different column names if all stored tables do. -/
theorem exists_finished_of_hanging? (hset : set.WellLinked s)
    (hcarried : ∀ l ∈ set.links, set.Carried s l)
    (hdistinct : ∀ t ∈ set.tables, (t.columns.map Column.id).Nodup)
    (hstore : set.store v s = .ok s') (h : set.hanging? s' i = some (child, parent)) :
    ∃ t ∈ set.tables, ∃ k, child =
        (arranged v { t with parentKeyColumnIds := parent.primaryKeyIds }).addForeignKey k ∧
      (∀ id ∈ parent.primaryKeyIds, id ∈ t.primaryKeyIds) ∧
      (s.HasDistinctColumns → (parent.columns.map Column.id).Nodup) := by
  obtain ⟨tables, hfinish, hinsert⟩ := store_eq_ok_iff.mp hstore
  obtain ⟨hi, l, hlink, hchild, hparent⟩ := hanging?_eq_some_iff.mp h
  obtain ⟨t, ht, hchild⟩ := Option.bind_eq_some_iff.mp hchild
  obtain ⟨child', -, hget, -, hfrom⟩ := exists_get?_finishedFrom hset hfinish hinsert hi ht
  obtain rfl : child' = child := Option.some.inj (hget.symm.trans hchild)
  obtain ⟨t', built, ht', hbuilt, hkeys⟩ := hcarried l (List.mem_of_find?_eq_some hlink)
  have hposition : l.child = i := by simpa using List.find?_some hlink
  obtain rfl : t' = t := Option.some.inj (ht'.symm.trans (hposition ▸ ht))
  obtain ⟨hparentIs, hevolves, hsame⟩ :=
    parentIs_of_committed? hset hfinish hinsert hlink hbuilt hparent
  have hnodup (hstored : s.HasDistinctColumns) : (built.columns.map Column.id).Nodup := by
    cases htarget : l.target with
    | inSet j =>
      rw [htarget] at hbuilt
      exact hdistinct built (List.mem_of_getElem? hbuilt)
    | stored key =>
      rw [htarget] at hbuilt
      exact hstored built (Schema.mem_of_get? hbuilt)
  refine ⟨t', List.mem_of_getElem? ht, ?_⟩
  cases hfrom with
  | unlinked hnone => simp [hnone] at hlink
  | @linked l' parent' hlink' hparent' =>
    obtain rfl : l' = l := Option.some.inj (hlink'.symm.trans hlink)
    obtain rfl : parent' = parent := hparent'.unique hparentIs
    exact ⟨_, rfl, fun id hid => hkeys id ((hsame id).mp hid), fun hstored =>
      hevolves.distinct (hnodup hstored)⟩

end TableSet

/-- Suppose that identity properties hold single values and are no commons or choices, and that
where a common or inline common leads to a subclass the identity renames of the latter stand in for
key properties of its base. When the tables of a domain entity or association without base, or those
of an extension, are committed, the key of every table that hangs off another one contains the key
of the latter. For versions from 7.0 on its columns start with that key, in its order, if the schema
was one without repeated columns. -/
theorem primaryKeyIds_carried_of_hanging {ctx : TableContext} {e : Entity} {set : TableSet}
    {s' : Schema} {i : Nat} {child parent : Table} (hidentity : ctx.model.HasSimpleIdentity)
    (hrenames : ctx.model.PlacesRenames)
    (hset : e ∈ ctx.model.mainEntities ∧ ctx.mainTable e .main = .ok set ∨
      e ∈ ctx.model.extensions ∧ ctx.extensionTable e = .ok set)
    (hstore : set.store ctx.version ctx.stored = .ok s')
    (h : set.hanging? s' i = some (child, parent)) :
    (∀ id ∈ parent.primaryKeyIds, id ∈ child.primaryKeyIds) ∧
      (ctx.stored.HasDistinctColumns → ctx.version.isAtLeast 7 0 = true →
        parent.primaryKeyIds <+: child.columns.map Column.id) := by
  obtain ⟨hlinked, hcarried, hdistinct⟩ : set.WellLinked ctx.stored ∧
      (∀ l ∈ set.links, set.Carried ctx.stored l) ∧
      ∀ t ∈ set.tables, (t.columns.map Column.id).Nodup := by
    rcases hset with ⟨he, hset⟩ | ⟨he, hset⟩
    · exact ⟨ctx.wellLinked_of_mainTable hset, ctx.carried_of_mainTable hidentity hrenames he hset,
        (lasting_distinctColumns ctx.version).of_mainTable hset⟩
    · exact ⟨ctx.wellLinked_of_extensionTable hset,
        ctx.carried_of_extensionTable hidentity hrenames (List.mem_filter.mp he).1 hset,
        (lasting_distinctColumns ctx.version).of_extensionTable hset⟩
  obtain ⟨t, ht, k, rfl, hkeys, hnodup⟩ :=
    TableSet.exists_finished_of_hanging? hlinked hcarried hdistinct hstore h
  refine ⟨fun id hid => ?_, fun hstored hversion => ?_⟩
  · rw [Table.primaryKeyIds_addForeignKey]
    exact Table.mem_primaryKeyIds_arranged_iff.mpr (hkeys id hid)
  · have hsorts : ctx.version.sortsColumns = true := hversion
    rw [Table.columns_addForeignKey, TableSet.arranged, if_pos hsorts]
    exact Table.isPrefix_columns_sortColumns
      (t := { t with parentKeyColumnIds := parent.primaryKeyIds }) (hdistinct t ht)
      (Table.nodup_primaryKeyIds (hnodup hstored)) hkeys

/-- Persons with an address, which is identified by its city and has any number of lines. -/
def addressModel : Model :=
  (Model.empty.addEntity
    (((Entity.ofKind .common "EdFi" "Address").withProperty
      (Property.ofKind "City" (.scalar .integer)).identity).withProperty
        (Property.ofKind "Line" (.scalar .integer)).optionalCollection)).addEntity
    (((Entity.ofKind .domainEntity "EdFi" "Person").withProperty
      (Property.ofKind "PersonId" (.scalar .integer)).identity).withProperty
        { Property.ofKind "Address" .common with referencedEntity := some 0 })

/-- The lines of an address carry its key, which consists of the person and the city. -/
theorem primaryKeyIds_carried_of_hanging_addresses :
    ∃ e ∈ addressModel.mainEntities, ∃ set s' child parent,
      (Config.standard.tableContext addressModel .empty).mainTable e .main = .ok set ∧
      set.store Config.standard.targetVersion .empty = .ok s' ∧
      set.hanging? s' 2 = some (child, parent) ∧ child.tableId = "PersonAddressLine" ∧
      parent.primaryKeyIds = ["PersonId", "City"] ∧
      (∀ id ∈ parent.primaryKeyIds, id ∈ child.primaryKeyIds) ∧
      parent.primaryKeyIds <+: child.columns.map Column.id := by
  have hrun : addressModel.mainEntities.any (fun e =>
      ((Config.standard.tableContext addressModel .empty).mainTable e .main).toOption.any (fun set =>
        (set.store Config.standard.targetVersion .empty).toOption.any (fun s' =>
          (set.hanging? s' 2).any (fun pair => pair.1.tableId = "PersonAddressLine" ∧
            pair.2.primaryKeyIds = ["PersonId", "City"])))) = true := by decide +kernel
  obtain ⟨e, he, hrun⟩ := List.any_eq_true.mp hrun
  obtain ⟨set, hset, hrun⟩ := exists_eq_ok_of_any hrun
  obtain ⟨s', hstore, hrun⟩ := exists_eq_ok_of_any hrun
  obtain ⟨⟨child, parent⟩, hpair, hrun⟩ := (Option.any_eq_true _ _).mp hrun
  obtain ⟨hchild, hparent⟩ := of_decide_eq_true hrun
  have hstored : Schema.empty.HasDistinctColumns := List.forall_mem_nil _
  obtain ⟨hkeys, hcolumns⟩ := primaryKeyIds_carried_of_hanging (by decide +kernel)
    (by decide +kernel) (Or.inl ⟨he, hset⟩) hstore hpair
  exact ⟨e, he, set, s', child, parent, hset, hstore, hpair, hchild, hparent, hkeys,
    hcolumns hstored (by decide)⟩

/-- Persons with a division. A division is a unit, and its identity renames no key of units. -/
def divisionModel : Model :=
  ((Model.empty.addEntity
    ((Entity.ofKind .domainEntity "EdFi" "Unit").withProperty
      (Property.ofKind "UnitId" (.scalar .integer)).identity)).addEntity
    { ((Entity.ofKind .domainEntitySubclass "EdFi" "Division").withProperty
        ((Property.ofKind "DivisionId" (.scalar .integer)).identityRename "Code")).withProperty
          (Property.ofKind "Title" (.scalar .integer)).optionalCollection with
      baseEntity := some 0 }).addEntity
    (((Entity.ofKind .domainEntity "EdFi" "Person").withProperty
      (Property.ofKind "PersonId" (.scalar .integer)).identity).withProperty
        { Property.ofKind "Division" .common with referencedEntity := some 1 })

/-- The tables of divisions, for a version that does not sort columns. -/
def divisionContext : TableContext :=
  { Config.standard with targetVersion := ⟨6, 1, 0⟩ }.tableContext divisionModel .empty

/-- The key of a division is built from its identity and collected from the key of units, since the
rename stands in for no key property: the titles of a division do not carry its key. -/
theorem primaryKeyIds_not_carried_divisions :
    divisionModel.HasSimpleIdentity ∧ ∃ e ∈ divisionModel.mainEntities, ∃ set s' child parent,
      divisionContext.mainTable e .main = .ok set ∧
      set.store divisionContext.version divisionContext.stored = .ok s' ∧
      set.hanging? s' 2 = some (child, parent) ∧
      "DivisionId" ∈ parent.primaryKeyIds ∧ "DivisionId" ∉ child.primaryKeyIds := by
  have hrun : divisionModel.mainEntities.any (fun e =>
      (divisionContext.mainTable e .main).toOption.any (fun set =>
        (set.store divisionContext.version divisionContext.stored).toOption.any (fun s' =>
          (set.hanging? s' 2).any (fun pair => "DivisionId" ∈ pair.2.primaryKeyIds ∧
            "DivisionId" ∉ pair.1.primaryKeyIds)))) = true := by decide +kernel
  obtain ⟨e, he, hrun⟩ := List.any_eq_true.mp hrun
  obtain ⟨set, hset, hrun⟩ := exists_eq_ok_of_any hrun
  obtain ⟨s', hstore, hrun⟩ := exists_eq_ok_of_any hrun
  obtain ⟨⟨child, parent⟩, hpair, hrun⟩ := (Option.any_eq_true _ _).mp hrun
  obtain ⟨hparent, hchild⟩ := of_decide_eq_true hrun
  exact ⟨by decide +kernel, e, he, set, s', child, parent, hset, hstore, hpair, hparent, hchild⟩

end Tabular
