import Mathlib.Data.List.Nodup
import Mathlib.Tactic.Common
import Tabular.Proofs.Derive.Contributions
import Tabular.Proofs.Derive.FirmKeys
import Tabular.Proofs.Run.ColumnFlags

/-!
# Contents of choices and optional inline commons

The properties of a choice and of an optional inline common write into the table of their owner. All
their columns are made nullable, whatever the properties declare. A column of the table that absorbs
one of them keeps its flags, and what is new in the table is nullable and no part of the key.

## Main definitions

* `WellFlagged`: columns of different names, of which no key column is nullable.
* `JoinedByNullable`: columns that have been joined by nullable ones.

## Main results

* `JoinedByNullable.mergeColumn`: merging a nullable column into others.
* `TableContext.Built.joinedByNullable`: building where columns are made nullable.
* `joinedByNullable_of_propertyTables`: choices and optional inline commons never touch the key.
-/

namespace Tabular

open Strategy (Layer)

/-! ### Columns joined by nullable ones -/

/-- The columns have different names, and no key column is nullable. -/
structure WellFlagged (cs : List Column) : Prop where
  distinct : (cs.map Column.id).Nodup
  keyNotNull : ∀ c ∈ cs, c.KeyNotNull

instance (c : Column) : Decidable c.KeyNotNull :=
  inferInstanceAs (Decidable (c.isPartOfPrimaryKey = true → c.isNullable = false))

instance (cs : List Column) : Decidable (WellFlagged cs) :=
  decidable_of_iff ((cs.map Column.id).Nodup ∧ ∀ c ∈ cs, c.KeyNotNull)
    ⟨fun h => ⟨h.1, h.2⟩, fun h => ⟨h.1, h.2⟩⟩

/-- The second list has the columns of the first one with the same flags. Its other columns are
nullable and no key columns. -/
structure JoinedByNullable (cs cs' : List Column) : Prop where
  wellFlagged : WellFlagged cs'
  kept : ∀ c ∈ cs, ∃ c' ∈ cs', c'.id = c.id ∧
    c'.isPartOfPrimaryKey = c.isPartOfPrimaryKey ∧ c'.isNullable = c.isNullable
  joined : ∀ c' ∈ cs', c'.id ∉ cs.map Column.id →
    c'.isPartOfPrimaryKey = false ∧ c'.isNullable = true

variable {v : Version} {cs cs' cs'' ks : List Column} {c k : Column}

/-- A column that absorbs a nullable one stays a key column or none. -/
theorem Column.isPartOfPrimaryKey_merge (hk : k.isPartOfPrimaryKey = false) :
    (c.merge k).isPartOfPrimaryKey = c.isPartOfPrimaryKey := by
  simp [Column.merge, hk]

/-- A column that absorbs a nullable one stays nullable or not, if it is not nullable as a key. -/
theorem Column.isNullable_merge (hc : c.KeyNotNull) (hk : k.isPartOfPrimaryKey = false)
    (hnull : k.isNullable = true) : (c.merge k).isNullable = c.isNullable := by
  by_cases hkey : c.isPartOfPrimaryKey = true
  · simp [Column.merge, hkey, hc hkey]
  · simp [Column.merge, hkey, hk, hnull]

namespace JoinedByNullable

theorem refl (h : WellFlagged cs) : JoinedByNullable cs cs where
  wellFlagged := h
  kept c hc := ⟨c, hc, rfl, rfl, rfl⟩
  joined _ hc hnew := absurd (List.mem_map_of_mem hc) hnew

theorem trans (h : JoinedByNullable cs cs') (h' : JoinedByNullable cs' cs'') :
    JoinedByNullable cs cs'' where
  wellFlagged := h'.wellFlagged
  kept c hc := by
    obtain ⟨c', hc', hid, hkey, hnull⟩ := h.kept c hc
    obtain ⟨c'', hc'', hid', hkey', hnull'⟩ := h'.kept c' hc'
    exact ⟨c'', hc'', hid'.trans hid, hkey'.trans hkey, hnull'.trans hnull⟩
  joined c'' hc'' hnew := by
    by_cases hmid : c''.id ∈ cs'.map Column.id
    · -- it joined before, and has kept its flags since
      obtain ⟨c', hc', hid⟩ := List.mem_map.mp hmid
      obtain ⟨hkey, hnull⟩ := h.joined c' hc' (hid ▸ hnew)
      obtain ⟨e, he, heid, hekey, henull⟩ := h'.kept c' hc'
      obtain rfl := List.inj_on_of_nodup_map h'.wellFlagged.distinct he hc'' (heid.trans hid)
      exact ⟨hekey.trans hkey, henull.trans hnull⟩
    · exact h'.joined c'' hc'' hmid

/-- Merging a nullable column into others. -/
theorem mergeColumn (hcs : WellFlagged cs) (hk : k.isPartOfPrimaryKey = false)
    (hnull : k.isNullable = true) : JoinedByNullable cs (mergeColumn v cs k) where
  wellFlagged :=
    { distinct := nodup_mergeColumn hcs.distinct
      keyNotNull := Column.invariant_keyNotNull.mergeColumn hcs.keyNotNull
        fun hkey => by simp [hk] at hkey }
  kept c hc := by
    rcases mergeColumn_cases v k cs with ⟨before, d, after, rfl, -, hperm⟩ | ⟨-, hmerge⟩
    · simp only [List.mem_append, List.mem_cons] at hc
      simp only [hperm.mem_iff, List.mem_append, List.mem_cons]
      rcases hc with hc | rfl | hc
      · exact ⟨c, Or.inl hc, rfl, rfl, rfl⟩
      · have hflags := hcs.keyNotNull c (by simp)
        exact ⟨c.merge k, Or.inr (Or.inl rfl), rfl, Column.isPartOfPrimaryKey_merge hk,
          Column.isNullable_merge hflags hk hnull⟩
      · exact ⟨c, Or.inr (Or.inr hc), rfl, rfl, rfl⟩
    · exact ⟨c, hmerge ▸ List.mem_append_left _ hc, rfl, rfl, rfl⟩
  joined c' hc' hnew := by
    have hid := mem_map_id_mergeColumn_iff.mp (List.mem_map_of_mem hc')
    rcases mergeColumn_cases v k cs with ⟨before, d, after, rfl, hd, -⟩ | ⟨-, hmerge⟩
    · have hold : k.id ∈ (before ++ d :: after).map Column.id :=
        hd ▸ List.mem_map_of_mem (by simp)
      exact absurd (hid.elim id fun heq => heq ▸ hold) hnew
    · rw [hmerge, List.mem_append, List.mem_singleton] at hc'
      rcases hc' with hc' | rfl
      · exact absurd (List.mem_map_of_mem hc') hnew
      · exact ⟨hk, hnull⟩

theorem foldl_mergeColumn (hcs : WellFlagged cs)
    (hks : ∀ k ∈ ks, k.isPartOfPrimaryKey = false ∧ k.isNullable = true) :
    JoinedByNullable cs (ks.foldl (Tabular.mergeColumn v) cs) := by
  induction ks generalizing cs with
  | nil => exact .refl hcs
  | cons k rest ih =>
    obtain ⟨⟨hk, hnull⟩, hrest⟩ := List.forall_mem_cons.mp hks
    have hstep : JoinedByNullable cs (Tabular.mergeColumn v cs k) := mergeColumn hcs hk hnull
    exact hstep.trans (ih hstep.wellFlagged hrest)

end JoinedByNullable

/-! ### Strategies that make columns nullable -/

@[simp] theorem Scope.isNullable_place (scope : Scope) (c : Column) :
    (scope.place c).isNullable = c.isNullable := by
  unfold place
  induction scope.path with
  | nil => rfl
  | cons name rest ih => exact ih

namespace TableContext

variable {ctx : TableContext} {ds : List Declaration} {d : Declaration} {scope : Scope}
  {s : Strategy} {set next : TableSet} {t : Table}

theorem leafNullable_mem_inlineStrategy (p : Property) (hs : Layer.leafNullable ∈ s.layers) :
    Layer.leafNullable ∈ (inlineStrategy p s).layers := by
  have happend : Layer.leafNullable ∈ (s.append p).layers :=
    (Strategy.mem_layers_append_iff rfl rfl p).mpr hs
  unfold inlineStrategy
  split_ifs
  · exact List.mem_cons_of_mem _ happend
  · exact happend

/-- The columns of a property that enter a table where columns are made nullable. -/
theorem joinedByNullable_addColumns (hs : Layer.leafNullable ∈ s.layers) (f : ColumnTransform)
    (hflags : WellFlagged t.columns) :
    JoinedByNullable t.columns
      (t.addColumns v (cs.map fun c => scope.place ((s.leafColumns f).apply c))).columns := by
  rw [Table.columns_addColumns]
  refine .foldl_mergeColumn hflags fun k hk => ?_
  obtain ⟨c, -, rfl⟩ := List.mem_map.mp hk
  simp [Strategy.leafColumns, hs, ColumnTransform.apply, Column.nullable]

/-- Where columns are made nullable, building joins the columns of the table by nullable ones. -/
theorem Built.joinedByNullable (h : ctx.Built ds scope s set next)
    (hs : Layer.leafNullable ∈ s.layers) (ht : set.get? scope.table = some t)
    (hflags : WellFlagged t.columns) :
    ∃ t', next.get? scope.table = some t' ∧ JoinedByNullable t.columns t'.columns := by
  induction h generalizing t with
  | nil | lookupSkipped | referenceSkipped => exact ⟨t, ht, .refl hflags⟩
  | cons _ _ ihhead ihtail =>
    obtain ⟨t', ht', hhead⟩ := ihhead hs ht hflags
    obtain ⟨t'', ht'', htail⟩ := ihtail hs ht' hhead.wellFlagged
    exact ⟨t'', ht'', hhead.trans htail⟩
  | column =>
    exact ⟨_, TableSet.get?_modify_self _ ht, joinedByNullable_addColumns hs _ hflags⟩
  | lookup =>
    refine ⟨_, TableSet.get?_modify_self _ (TableSet.get?_modify_self _ ht), ?_⟩
    rw [Table.columns_addForeignKey]
    exact joinedByNullable_addColumns hs _ hflags
  | reference =>
    refine ⟨_, TableSet.get?_modify_self _ (TableSet.get?_modify_self _ ht), ?_⟩
    rw [Table.columns_addReferenceSource]
    exact joinedByNullable_addColumns hs _ hflags
  | collection | referenceCollection => exact ⟨t, TableSet.get?_push ht, .refl hflags⟩
  | common _ _ _ inner =>
    -- the common has a table of its own, at a new position
    have hnew := Nat.ne_of_lt (TableSet.lt_next_of_get? ht)
    have hkept := inner.get?_eq_some (TableSet.get?_push ht) hnew
    exact ⟨t, (get?_commonClosed hnew).trans hkept, .refl hflags⟩
  | commonExtension _ _ _ inner =>
    have hnew := Nat.ne_of_lt (TableSet.lt_next_of_get? ht)
    have hkept := inner.get?_eq_some (TableSet.get?_push ht) hnew
    exact ⟨t, (get?_linkOrDiscard _ _ _ _).trans hkept, .refl hflags⟩
  | choice _ _ _ ih => exact ih (List.mem_cons_self ..) ht hflags
  | inlineCommon _ _ _ ih => exact ih (leafNullable_mem_inlineStrategy _ hs) ht hflags

/-- Inside a choice or an optional inline common columns are made nullable. -/
theorem exists_built_leafNullable (hkind : d.property.kind = .choice ∨
      d.property.kind = .inlineCommon ∧ d.property.isOptional = true)
    (h : ctx.propertyTables d scope s set = .ok next) :
    ∃ (e : Entity) (inner : Strategy), Layer.leafNullable ∈ inner.layers ∧
      ctx.Built e.declarations (scope.descend d.property.fullName) inner set next := by
  rcases hkind with hkind | ⟨hkind, hoptional⟩
  · simp only [propertyTables, propertyTablesBy, hkind, PropertyKind.tableRule, choiceTables,
      bind_eq_ok_iff] at h
    obtain ⟨choice, -, h⟩ := h
    exact ⟨choice, s.leafNullable, List.mem_cons_self .., built_of_entityTables h⟩
  · simp only [propertyTables, propertyTablesBy, hkind, PropertyKind.tableRule,
      inlineCommonTables, hoptional, if_true, bind_eq_ok_iff] at h
    obtain ⟨inlined, -, h⟩ := h
    exact ⟨inlined, (s.append d.property).leafNullable, List.mem_cons_self ..,
      built_of_entityTables h⟩

end TableContext

variable {ctx : TableContext} {d : Declaration} {scope : Scope} {s : Strategy}
  {set next : TableSet}

/-- The properties of a choice or of an optional inline common never touch the key of a table, be
they identity properties or not. The columns that are in the table of the scope keep their flags,
the others that come to be in it are nullable and no key columns, and every other table of the set
stays as it is. -/
theorem joinedByNullable_of_propertyTables
    (hkind : d.property.kind = .choice ∨
      d.property.kind = .inlineCommon ∧ d.property.isOptional = true)
    (hset : ∀ t ∈ set.tables, WellFlagged t.columns)
    (h : ctx.propertyTables d scope s set = .ok next) :
    (∀ t, set.get? scope.table = some t → ∃ t', next.get? scope.table = some t' ∧
      (∀ c ∈ t.columns, ∃ c' ∈ t'.columns, c'.id = c.id ∧
        c'.isPartOfPrimaryKey = c.isPartOfPrimaryKey ∧ c'.isNullable = c.isNullable) ∧
      (∀ c' ∈ t'.columns, c'.id ∉ t.columns.map Column.id →
        c'.isPartOfPrimaryKey = false ∧ c'.isNullable = true) ∧
      WellFlagged t'.columns) ∧
    ∀ i t, i ≠ scope.table → set.get? i = some t → next.get? i = some t := by
  obtain ⟨e, inner, hinner, hbuilt⟩ := TableContext.exists_built_leafNullable hkind h
  refine ⟨fun t ht => ?_, fun i t hne ht => hbuilt.get?_eq_some ht hne⟩
  obtain ⟨t', ht', hjoined⟩ := hbuilt.joinedByNullable hinner ht (hset t (List.mem_of_getElem? ht))
  exact ⟨t', ht', hjoined.kept, hjoined.joined, hjoined.wellFlagged⟩

/-! ### An optional period in the table of a stay

A stay is identified by its first day. It has an optional period, whose first and last days are both
identity properties.
-/

namespace Stays

def period : Entity :=
  { Entity.ofKind .inlineCommon "EdFi" "Period" with
    id := 0
    properties := [(Property.ofKind "FirstDay" (.scalar .integer)).identity,
      (Property.ofKind "LastDay" (.scalar .integer)).identity] }

def stay : Entity :=
  { Entity.ofKind .domainEntity "EdFi" "Stay" with
    id := 1
    properties := [{ Property.ofKind "Period" .inlineCommon with
      referencedEntity := some 0
      isOptional := true }] }

def context : TableContext where
  model := ⟨[.core "EdFi"], [period, stay]⟩
  stored := .empty
  version := ⟨7, 0, 0⟩
  coreNamespace := "EdFi"
  createDateOnExtensions := false

def firstDay : Column :=
  (Column.ofType "FirstDay" .integer).primaryKey

def table : Table :=
  { Table.ofReason "EdFi" "Stay" .main with columns := [firstDay] }

def draft : TableSet :=
  ((TableSet.empty 1).push table).push (Table.ofReason "EdFi" "StayGuest" .collection)

def tableScope : Scope :=
  .root table 0 [firstDay]

def declaration : Declaration :=
  ⟨stay, 0, { Property.ofKind "Period" .inlineCommon with
    referencedEntity := some 0
    isOptional := true }⟩

end Stays

/-- The first day stays the key of a stay, and the last day does not become part of it. -/
theorem joinedByNullable_of_propertyTables_stays :
    (∀ t ∈ Stays.draft.tables, WellFlagged t.columns) ∧ ∃ next t',
      Stays.context.propertyTables Stays.declaration Stays.tableScope .root Stays.draft = .ok next ∧
      next.get? 0 = some t' ∧ t'.columns.map Column.id = ["FirstDay", "LastDay"] ∧
      (∃ c ∈ t'.columns, c.id = "FirstDay" ∧ c.isPartOfPrimaryKey = true ∧ c.isNullable = false) ∧
      (∀ c ∈ t'.columns, c.id ≠ "FirstDay" → c.isPartOfPrimaryKey = false ∧ c.isNullable = true) ∧
      next.get? 1 = Stays.draft.get? 1 := by
  have hflags : ∀ t ∈ Stays.draft.tables, WellFlagged t.columns := by decide
  have hrun : (Stays.context.propertyTables Stays.declaration Stays.tableScope .root
      Stays.draft).toOption.any (fun next => (next.get? 0).any fun t =>
        t.columns.map Column.id = ["FirstDay", "LastDay"]) = true := by decide +kernel
  obtain ⟨next, hnext, hids⟩ := exists_eq_ok_of_any hrun
  obtain ⟨hscope, hother⟩ := joinedByNullable_of_propertyTables (Or.inr ⟨rfl, rfl⟩) hflags hnext
  obtain ⟨t', ht', hkept, hjoined, -⟩ := hscope _ rfl
  have ht : next.get? 0 = some t' := ht'
  rw [ht, Option.any_some, decide_eq_true_eq] at hids
  obtain ⟨c, hc, hid, hkey, hnull⟩ := hkept Stays.firstDay (.head _)
  refine ⟨hflags, next, t', hnext, ht, hids, ⟨c, hc, hid, hkey, hnull⟩, fun c hc hne => ?_,
    hother 1 _ (by decide) rfl⟩
  exact hjoined c hc fun hmem => hne (List.mem_singleton.mp hmem)

end Tabular
