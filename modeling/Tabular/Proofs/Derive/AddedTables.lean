import Mathlib.Tactic.Common
import Tabular.Proofs.Derive.Contributions
import Tabular.Proofs.Derive.Realization

/-!
# Tables that add columns to stored ones

An extension adds columns to a table of the schema, and so does the extension of a common. The
columns go into a table of its own that starts with the key of the stored one. Whether this table is
kept is decided when everything below it is in the set: it needs a column beyond that key, and a
column that has been merged into the key does not count. What is built on the way does not depend on
the decision, since the tables of collections and commons hang off the stored table.

## Main definitions

* `Table.Adds`: a table that adds the contributions of properties to the key of a stored table.
* `TableSet.AddsTo`: a table of a set that hangs off a stored one and adds a column to its key.
* `Property.hasJoinTable`: a property with a table of its own.
* `TableContext.Joins`: a table of a set for such a property.
* `TableSet.Extends`: the tables of an extension of a stored table.

## Main results

* `TableContext.Built.extended`: building goes on from a set.
* `TableContext.Built.adds`: what a table that adds columns consists of.
* `TableContext.kept_linkOrDiscard_iff`: when such a table is kept.
* `TableContext.Built.addFrom`: new tables that are kept and add columns do add some.
* `TableContext.exists_joins_of_mem`: properties with a table of their own have one.
* `TableContext.exists_extends_of_extensionTable`: the tables of an extension.
-/

namespace Tabular

/-! ### Building goes on from a set -/

namespace TableContext

variable {ctx : TableContext} {ds : List Declaration} {scope : Scope} {s : Strategy}
  {set mid next : TableSet} {t parent : Table} {e : Entity} {key : TableKey} {r : ForeignKeyReason}
  {reason : TableReason} {i : Nat}

/-- A new table that adds columns is linked or discarded once everything below it has been built. -/
theorem extended_linkOrDiscard (hset : set.IsTidy)
    (h : TableSet.Extended set.next (set.push t) mid) :
    TableSet.Extended set.next set (linkOrDiscard set.next key r mid) := by
  unfold linkOrDiscard
  split_ifs
  · exact h.link hset
  · exact h.discard hset

theorem extended_commonClosed (h : TableSet.Extended i set mid) :
    TableSet.Extended i set (ctx.commonClosed scope i mid) := by
  unfold commonClosed
  split_ifs
  · exact h
  · exact h.trans (.modify h.isTidy _)

/-- Building changes no table that is there but the one of its scope, and it leaves alone what these
tables hang off. -/
theorem Built.extended (h : ctx.Built ds scope s set next) (hset : set.IsTidy) :
    TableSet.Extended scope.table set next := by
  induction h with
  | nil | lookupSkipped | referenceSkipped => exact .refl hset
  | cons _ _ ihhead ihtail => exact (ihhead hset).trans (ihtail (ihhead hset).isTidy)
  | column => exact .modify hset _
  | lookup | reference =>
    exact (TableSet.Extended.modify hset _).trans
      (.modify (TableSet.Extended.modify hset _).isTidy _)
  | collection | referenceCollection =>
    exact ((TableSet.Extended.refl (hset.push _)).link hset).of_next
  | common _ _ _ _ ih => exact ((extended_commonClosed (ih (hset.push _))).link hset).of_next
  | commonExtension _ _ _ _ ih => exact (extended_linkOrDiscard hset (ih (hset.push _))).of_next
  | choice _ _ _ ih | inlineCommon _ _ _ ih => exact ih hset

/-- The table of the scope keeps its reason and its record of the parent's key. -/
theorem Built.exists_get?_scope (h : ctx.Built ds scope s set next)
    (ht : set.get? scope.table = some t) : ∃ t', next.get? scope.table = some t' ∧
      t'.reason = t.reason ∧ t'.parentKeyColumnIds = t.parentKeyColumnIds := by
  induction h generalizing t with
  | nil | lookupSkipped | referenceSkipped => exact ⟨t, ht, rfl, rfl⟩
  | cons _ _ ihhead ihtail =>
    obtain ⟨u, hu, hreason, hkeys⟩ := ihhead ht
    obtain ⟨t', ht', hreason', hkeys'⟩ := ihtail hu
    exact ⟨t', ht', hreason'.trans hreason, hkeys'.trans hkeys⟩
  | column => exact ⟨_, TableSet.get?_modify_self _ ht, by simp, by simp⟩
  | lookup | reference =>
    exact ⟨_, TableSet.get?_modify_self _ (TableSet.get?_modify_self _ ht), by simp, by simp⟩
  | collection | referenceCollection => exact ⟨t, TableSet.get?_push ht, rfl, rfl⟩
  | common _ _ _ inner =>
    have hnew := Nat.ne_of_lt (TableSet.lt_next_of_get? ht)
    exact ⟨t, (get?_commonClosed hnew).trans (inner.get?_eq_some (TableSet.get?_push ht) hnew),
      rfl, rfl⟩
  | commonExtension _ _ _ inner =>
    have hnew := Nat.ne_of_lt (TableSet.lt_next_of_get? ht)
    refine ⟨t, ?_, rfl, rfl⟩
    rw [get?_linkOrDiscard]
    exact inner.get?_eq_some (TableSet.get?_push ht) hnew
  | choice _ _ _ ih | inlineCommon _ _ _ ih => exact ih ht

end TableContext

/-! ### A table that adds columns -/

/-- The table adds what properties contribute to the key of another table. -/
structure Table.Adds (m : Model) (ds : List Declaration) (s : Strategy) (namespaceName : String)
    (t parent : Table) : Prop where
  key : t.key = ⟨namespaceName, parent.tableId ++ "Extension"⟩
  parentKeys : ∀ id, id ∈ t.parentKeyColumnIds ↔ id ∈ parent.primaryKeyIds
  columns : ∀ id, id ∈ t.columns.map Column.id ↔
    id ∈ parent.primaryKeyIds ∨ ∃ text, m.Contributes ds s id text

namespace Table.Adds

variable {m : Model} {ds : List Declaration} {s : Strategy} {namespaceName : String}
  {parent t : Table}

/-- A column beyond the recorded key is a column beyond the key of the stored table. -/
theorem hasOwnColumns_iff (h : t.Adds m ds s namespaceName parent) :
    t.hasOwnColumns = true ↔ ∃ c ∈ t.columns, c.id ∉ parent.primaryKeyIds := by
  simp [hasOwnColumns, h.parentKeys]

/-- There is such a column if the properties contribute one. -/
theorem exists_column_iff (h : t.Adds m ds s namespaceName parent) :
    (∃ c ∈ t.columns, c.id ∉ parent.primaryKeyIds) ↔
      ∃ id text, m.Contributes ds s id text ∧ id ∉ parent.primaryKeyIds := by
  constructor
  · rintro ⟨c, hc, hnew⟩
    obtain ⟨text, htext⟩ := ((h.columns c.id).mp (List.mem_map_of_mem hc)).resolve_left hnew
    exact ⟨c.id, text, htext, hnew⟩
  · rintro ⟨id, text, htext, hnew⟩
    obtain ⟨c, hc, rfl⟩ := List.mem_map.mp ((h.columns id).mpr (Or.inr ⟨text, htext⟩))
    exact ⟨c, hc, hnew⟩

end Table.Adds

namespace TableContext

variable {ctx : TableContext} {ds : List Declaration} {scope : Scope} {s : Strategy}
  {set mid next : TableSet} {t parent : Table} {e : Entity} {key : TableKey} {r : ForeignKeyReason}
  {reason : TableReason} {i : Nat}

/-- Building makes a table that adds columns out of the key of the stored table. -/
theorem Built.adds (h : ctx.Built ds scope s (set.push (ctx.suffixedTable e parent reason)) mid)
    (hscope : scope.table = set.next) : ∃ t, mid.get? set.next = some t ∧ t.reason = reason ∧
      t.Adds ctx.model ds s e.namespaceName parent := by
  obtain ⟨owner, hstart⟩ := set.get?_push_next (ctx.suffixedTable e parent reason)
  rw [← hscope] at hstart
  obtain ⟨t, ht, hreason, hkeys⟩ := h.exists_get?_scope hstart
  obtain ⟨t', ht', hreceives⟩ := h.exists_receives hstart
  obtain rfl : t' = t := Option.some.inj (ht'.symm.trans ht)
  refine ⟨t', hscope ▸ ht, hreason.trans ?_, hreceives.key.trans ?_, fun id => ?_, fun id => ?_⟩
  · simp [suffixedTable, Table.ofReason]
  · exact Table.key_addParentKeys _ _ _
  · rw [hkeys]
    exact mem_parentKeyColumnIds_suffixedTable_iff
  · -- the columns at the start are the key of the stored table
    have hnames : (∃ context, Carries (ctx.suffixedTable e parent reason).columns id context) ↔
        id ∈ parent.primaryKeyIds := by
      rw [← mem_map_id_iff_exists_carries, columns_suffixedTable, mem_map_id_foldl_mergeColumn_iff]
      simp [Table.primaryKeyIds, Column.asParentKey]
    rw [mem_map_id_iff_exists_carries, ← hnames]
    simp only [hreceives.carries, exists_or]
    refine or_congr Iff.rfl ⟨?_, ?_⟩
    · rintro ⟨_, text, -, htext⟩
      exact ⟨text, htext⟩
    · rintro ⟨text, htext⟩
      exact ⟨_, text, rfl, htext⟩

/-! ### Kept or discarded -/

/-- A new table that adds columns is kept if it has a column beyond the key of the stored one. -/
theorem kept_linkOrDiscard_iff (hset : set.IsTidy)
    (h : TableSet.Extended set.next (set.push t) mid) {u : Table}
    (hu : mid.get? set.next = some u) :
    set.next ∉ (linkOrDiscard set.next key r mid).discarded ↔ u.hasOwnColumns = true := by
  obtain ⟨-, -, hkept⟩ := h.fresh hset
  unfold linkOrDiscard
  rw [hu, Option.any_some]
  split_ifs with hown
  · exact iff_of_true hkept hown
  · rw [TableSet.mem_discarded_discard]
    simp [hown]

/-- If it is kept, it hangs off the stored table. -/
theorem target?_linkOrDiscard (hset : set.IsTidy)
    (h : TableSet.Extended set.next (set.push t) mid)
    (hkept : set.next ∉ (linkOrDiscard set.next key r mid).discarded) :
    (linkOrDiscard set.next key r mid).target? set.next = some (.stored key) := by
  obtain ⟨-, htarget, -⟩ := h.fresh hset
  unfold linkOrDiscard at hkept ⊢
  split_ifs at hkept ⊢
  · exact TableSet.target?_link_self _ _ htarget
  · exact absurd ((TableSet.mem_discarded_discard _).mpr (Or.inl rfl)) hkept

theorem target?_linkOrDiscard_of_ne {j : Nat} (hne : i ≠ j) :
    (linkOrDiscard j key r set).target? i = set.target? i := by
  unfold linkOrDiscard
  split_ifs
  · exact TableSet.target?_link_of_ne _ _ hne
  · exact TableSet.target?_discard_of_ne hne

theorem mem_discarded_linkOrDiscard_of_ne {j : Nat} (hne : i ≠ j) :
    i ∈ (linkOrDiscard j key r set).discarded ↔ i ∈ set.discarded := by
  unfold linkOrDiscard
  split_ifs
  · exact Iff.rfl
  · rw [TableSet.mem_discarded_discard, or_iff_right hne]

end TableContext

/-- The table at a position hangs off a stored table and has a column beyond the key of the
latter. -/
def TableSet.AddsTo (set : TableSet) (stored : Schema) (i : Nat) (t : Table) : Prop :=
  ∃ key parent, set.target? i = some (.stored key) ∧ stored.get? key = some parent ∧
    ∃ c ∈ t.columns, c.id ∉ parent.primaryKeyIds

namespace TableContext

variable {ctx : TableContext} {ds : List Declaration} {scope : Scope} {s : Strategy}
  {set mid next : TableSet} {t parent : Table} {e : Entity} {key : TableKey} {r : ForeignKeyReason}
  {reason : TableReason} {i : Nat}

/-- A table that adds columns to a stored table does add some if it is kept. -/
theorem addsTo_linkOrDiscard (hset : set.IsTidy) (hparent : ctx.stored.get? key = some parent)
    (h : ctx.Built ds scope s (set.push (ctx.suffixedTable e parent reason)) mid)
    (hscope : scope.table = set.next) (ht : mid.get? set.next = some t)
    (hkept : set.next ∉ (linkOrDiscard set.next key r mid).discarded) :
    (linkOrDiscard set.next key r mid).AddsTo ctx.stored set.next t := by
  have hextended := hscope ▸ h.extended (hset.push _)
  obtain ⟨t', ht', -, hadds⟩ := h.adds hscope
  obtain rfl : t' = t := Option.some.inj (ht'.symm.trans ht)
  refine ⟨key, parent, target?_linkOrDiscard hset hextended hkept, hparent, ?_⟩
  exact hadds.hasOwnColumns_iff.mp ((kept_linkOrDiscard_iff hset hextended ht).mp hkept)

end TableContext

namespace TableSet

variable {set mid next : TableSet} {stored : Schema} {lo table : Nat}

/-- No table from a position on is that of an extension, and those for the extensions of commons add
columns to stored tables, if they are kept. -/
def AddFrom (set : TableSet) (stored : Schema) (lo : Nat) : Prop :=
  ∀ i t, lo ≤ i → set.get? i = some t → t.reason ≠ .extension ∧
    (t.reason = .commonExtension → i ∉ set.discarded → set.AddsTo stored i t)

theorem addFrom_of_next_le (h : set.next ≤ lo) : set.AddFrom stored lo :=
  fun _ _ hi ht => absurd (lt_next_of_get? ht) (Nat.not_lt.mpr (h.trans hi))

namespace AddFrom

theorem congr (h : set.AddFrom stored lo)
    (hsame : ∀ i, lo ≤ i → next.get? i = set.get? i ∧ next.target? i = set.target? i ∧
      (i ∈ next.discarded ↔ i ∈ set.discarded)) : next.AddFrom stored lo := by
  intro i t hi ht
  obtain ⟨hget, htarget, hdiscarded⟩ := hsame i hi
  obtain ⟨hreason, hadds⟩ := h i t hi (hget.symm.trans ht)
  refine ⟨hreason, fun hcommon hkept => ?_⟩
  rw [hdiscarded] at hkept
  rw [AddsTo, htarget]
  exact hadds hcommon hkept

/-- One table more. -/
theorem of_succ (h : set.AddFrom stored (lo + 1))
    (hlo : ∀ t, set.get? lo = some t → t.reason ≠ .extension ∧
      (t.reason = .commonExtension → lo ∉ set.discarded → set.AddsTo stored lo t)) :
    set.AddFrom stored lo := by
  intro i t hi ht
  rcases Nat.eq_or_lt_of_le hi with rfl | hlt
  · exact hlo t ht
  · exact h i t hlt ht

theorem addsTo (h : set.AddFrom stored lo) {i : Nat} {t : Table} (hi : lo ≤ i)
    (ht : set.get? i = some t) (hkept : i ∉ set.discarded)
    (hreason : t.reason.isExtensionTable = true) : set.AddsTo stored i t := by
  obtain ⟨hnone, hadds⟩ := h i t hi ht
  cases hr : t.reason <;> simp_all [TableReason.isExtensionTable]

/-- A change of a table that concerns neither its reason nor its columns. -/
theorem modify (h : set.AddFrom stored lo) (j : Nat) {f : Table → Table}
    (hf : ∀ t, (f t).reason = t.reason ∧ (f t).columns = t.columns) :
    (set.modify j f).AddFrom stored lo := by
  intro i t hi ht
  by_cases hij : i = j
  · subst hij
    have hlt : i < set.next := by simpa using lt_next_of_get? ht
    obtain ⟨u, hu⟩ : ∃ u, set.get? i = some u := ⟨_, List.getElem?_eq_getElem hlt⟩
    obtain rfl : f u = t := Option.some.inj ((get?_modify_self f hu).symm.trans ht)
    rw [AddsTo, (hf u).1, (hf u).2]
    exact h i u hi hu
  · rw [get?_modify_of_ne f hij] at ht
    exact h i t hi ht

/-- The new tables of two parts, the second of which changes no new table of the first. -/
theorem trans (h : mid.AddFrom stored lo) (hextended : Extended table mid next)
    (htable : table < lo) (h' : next.AddFrom stored mid.next) : next.AddFrom stored lo := by
  intro i t hi ht
  rcases Nat.lt_or_ge i mid.next with hlt | hge
  · have hget := hextended.get? i hlt (by omega)
    obtain ⟨hreason, hadds⟩ := h i t hi (hget.symm.trans ht)
    refine ⟨hreason, fun hcommon hkept => ?_⟩
    rw [hextended.discarded i hlt] at hkept
    rw [AddsTo, hextended.target? i hlt]
    exact hadds hcommon hkept
  · exact h' i t hge ht

/-- A new table that hangs off another one in the end and does not itself add columns. -/
theorem link {t : Table} {target : LinkTarget} {r : ForeignKeyReason}
    (h : mid.AddFrom stored (set.next + 1)) (ht : mid.get? set.next = some t)
    (hreason : t.reason.isJoinTable = true) :
    (mid.link set.next target r).AddFrom stored set.next := by
  refine AddFrom.of_succ (h.congr fun i hi => ⟨rfl, ?_, Iff.rfl⟩) fun u hu => ?_
  · exact target?_link_of_ne _ _ (by omega)
  · obtain rfl : t = u := Option.some.inj (ht.symm.trans hu)
    cases hr : t.reason <;> simp [hr, TableReason.isJoinTable] at hreason ⊢

end AddFrom

end TableSet

namespace TableContext

variable {ctx : TableContext} {ds : List Declaration} {d : Declaration} {scope : Scope}
  {s strategy : Strategy} {set mid next : TableSet} {t parent : Table} {e : Entity} {key : TableKey}
  {r : ForeignKeyReason} {reason : TableReason} {i : Nat}

theorem reason_collectionJoin (lookup : Option LookupTarget) (columns : List Column) :
    (ctx.collectionJoin d scope s lookup columns).reason = .collection := by
  unfold collectionJoin
  split <;> simp [joinTable, Table.ofReason]

theorem reason_referenceJoin (referenced : Entity) (keys : List Column) :
    (ctx.referenceJoin d referenced scope s keys).reason = .collection := by
  simp [referenceJoin, joinTable, Table.ofReason]

theorem reason_commonJoin (common : Entity) :
    (ctx.commonJoin d common scope s).reason = .common := by
  obtain ⟨text, ids, hjoin⟩ := ctx.commonJoin_eq d common scope s
  rw [hjoin]
  rfl

theorem key_commonJoin (common : Entity) :
    (ctx.commonJoin d common scope s).key = scope.site.joinKey s d.property := by
  obtain ⟨text, ids, hjoin⟩ := ctx.commonJoin_eq d common scope s
  rw [hjoin]
  rfl

theorem target?_commonClosed {j : Nat} :
    (ctx.commonClosed scope j set).target? i = set.target? i := by
  unfold commonClosed
  split_ifs <;> rfl

theorem discarded_commonClosed {j : Nat} :
    (ctx.commonClosed scope j set).discarded = set.discarded := by
  unfold commonClosed
  split_ifs <;> rfl

/-- The table of a common when its columns and the key of its parent are in it. -/
theorem Built.exists_get?_common {common : Entity} {inner : Scope}
    (h : ctx.Built ds inner s (set.push (ctx.commonJoin d common scope strategy)) mid)
    (hinner : inner.table = set.next) :
    ∃ t, (ctx.commonClosed scope set.next mid).get? set.next = some t ∧ t.reason = .common ∧
      t.key = scope.site.joinKey strategy d.property := by
  obtain ⟨_, hstart⟩ := set.get?_push_next (ctx.commonJoin d common scope strategy)
  rw [← hinner] at hstart
  obtain ⟨t, ht, hreason, -⟩ := h.exists_get?_scope hstart
  obtain ⟨t', ht', hreceives⟩ := h.exists_receives hstart
  obtain rfl : t' = t := Option.some.inj (ht'.symm.trans ht)
  have hkey : t'.key = scope.site.joinKey strategy d.property :=
    hreceives.key.trans (key_commonJoin common)
  rw [hinner] at ht
  unfold commonClosed
  split_ifs
  · exact ⟨t', ht, hreason.trans (reason_commonJoin common), hkey⟩
  · refine ⟨_, TableSet.get?_modify_self _ ht, ?_, ?_⟩
    · rw [Table.reason_addParentKeys]
      exact hreason.trans (reason_commonJoin common)
    · rw [Table.key_addParentKeys]
      exact hkey

/-- Building makes no tables of extensions, and what it adds for the extensions of commons adds
columns to stored tables, if it is kept. -/
theorem Built.addFrom (h : ctx.Built ds scope s set next) (hset : set.IsTidy)
    (hscope : scope.table < set.next) : next.AddFrom ctx.stored set.next := by
  induction h with
  | nil | lookupSkipped | referenceSkipped => exact TableSet.addFrom_of_next_le (Nat.le_refl _)
  | cons head tail ihhead ihtail =>
    have hextended := head.extended hset
    refine (ihhead hset hscope).trans (tail.extended hextended.isTidy) hscope ?_
    exact ihtail hextended.isTidy (hscope.trans_le hextended.next_le)
  | column => exact TableSet.addFrom_of_next_le (by simp [Scope.addColumns])
  | lookup | reference => exact TableSet.addFrom_of_next_le (by simp [Scope.addColumns])
  | @collection d scope s set lookup columns =>
    obtain ⟨_, ht⟩ := set.get?_push_next (ctx.collectionJoin d scope s lookup columns)
    refine TableSet.AddFrom.link (TableSet.addFrom_of_next_le (by simp)) ht ?_
    rw [reason_collectionJoin]
    rfl
  | @referenceCollection d scope s set referenced keys =>
    obtain ⟨_, ht⟩ := set.get?_push_next (ctx.referenceJoin d referenced scope s keys)
    refine TableSet.AddFrom.link (TableSet.addFrom_of_next_le (by simp)) ht ?_
    rw [reason_referenceJoin]
    rfl
  | @common d scope s set mid common _ _ _ _ inner ih =>
    obtain ⟨t, ht, hreason, -⟩ := inner.exists_get?_common rfl
    have hmid := ih (hset.push _) (by simp [commonScope, Scope.root, Scope.descend])
    rw [TableSet.next_push] at hmid
    refine TableSet.AddFrom.link (hmid.congr fun i hi => ?_) ht (by rw [hreason]; rfl)
    exact ⟨get?_commonClosed (by omega), target?_commonClosed, by rw [discarded_commonClosed]⟩
  | @commonExtension d scope s set mid extension parent _ _ hstored inner ih =>
    have hmid := ih (hset.push _) (by simp [Scope.detached])
    rw [TableSet.next_push] at hmid
    refine TableSet.AddFrom.of_succ (hmid.congr fun i hi => ?_) fun t ht => ?_
    · have hne : i ≠ set.next := by omega
      exact ⟨get?_linkOrDiscard _ _ _ _, target?_linkOrDiscard_of_ne hne,
        mem_discarded_linkOrDiscard_of_ne hne⟩
    · rw [get?_linkOrDiscard] at ht
      obtain ⟨t', ht', hreason, -⟩ := inner.adds rfl
      obtain rfl : t' = t := Option.some.inj (ht'.symm.trans ht)
      refine ⟨by simp [hreason], fun _ hkept => ?_⟩
      exact addsTo_linkOrDiscard hset hstored inner rfl ht hkept
  | choice _ _ _ ih | inlineCommon _ _ _ ih => exact ih hset hscope

end TableContext

/-! ### Tables of collections and commons -/

/-- Whether a property has a table of its own that joins its values to their owner: a collection of
values or references has one, and so has a common, unless it extends one. -/
def Property.hasJoinTable (p : Property) : Bool :=
  match p.kind.tableRule with
  | .scalar | .lookup | .reference => p.isCollection
  | .common => !p.isExtensionOverride
  | .choice | .inlineCommon => false

namespace TableContext

variable {ctx : TableContext} {d : Declaration} {scope : Scope} {s : Strategy}
  {set next : TableSet} {i n : Nat}

/-- The table at a position joins a property with a table of its own to the table of the scope. It
is kept. -/
def Joins (scope : Scope) (s : Strategy) (p : Property) (set : TableSet) (i : Nat) : Prop :=
  ∃ t, set.get? i = some t ∧ t.key = scope.site.joinKey s p ∧ t.reason.isJoinTable = true ∧
    set.target? i = some scope.parentLink ∧ i ∉ set.discarded

theorem Joins.congr {p : Property} (h : Joins scope s p set i) (hget : next.get? i = set.get? i)
    (htarget : next.target? i = set.target? i)
    (hdiscarded : i ∈ next.discarded ↔ i ∈ set.discarded) : Joins scope s p next i := by
  rw [Joins, hget, htarget, hdiscarded]
  exact h

/-- A new table that is linked in the end joins its property. -/
private theorem joins_link {mid : TableSet} {join t : Table} {r : ForeignKeyReason}
    (hset : set.IsTidy) (h : TableSet.Extended set.next (set.push join) mid)
    (ht : mid.get? set.next = some t) (hkey : t.key = scope.site.joinKey s d.property)
    (hreason : t.reason.isJoinTable = true) :
    Joins scope s d.property (mid.link set.next scope.parentLink r) set.next := by
  obtain ⟨-, htarget, hkept⟩ := h.fresh hset
  exact ⟨t, ht, hkey, hreason, TableSet.target?_link_self _ _ htarget, hkept⟩

private theorem joins_of_collectionTable {lookup : Option LookupTarget} (hset : set.IsTidy)
    (h : ctx.collectionTable d scope s lookup set = .ok next) :
    Joins scope s d.property next set.next := by
  simp only [collectionTable, bind_eq_ok_iff, pure_eq_ok_iff] at h
  obtain ⟨columns, -, rfl⟩ := h
  obtain ⟨_, ht⟩ := set.get?_push_next (ctx.collectionJoin d scope s lookup columns)
  refine joins_link hset (.refl (hset.push _)) ht (key_collectionJoin lookup columns) ?_
  rw [reason_collectionJoin]
  rfl

/-- A property with a table of its own is built by adding one. -/
theorem joins_of_propertyTablesBy (hset : set.IsTidy) (hjoin : d.property.hasJoinTable = true)
    (h : ctx.propertyTablesBy (ctx.entityTablesWithin n) d scope s set = .ok next) :
    Joins scope s d.property next set.next := by
  unfold propertyTablesBy at h
  unfold Property.hasJoinTable at hjoin
  cases hrule : d.property.kind.tableRule <;> simp only [hrule] at h hjoin
  case scalar =>
    rw [scalarTables, if_pos hjoin] at h
    exact joins_of_collectionTable hset h
  case lookup =>
    simp only [lookupTables, hjoin, if_true, bind_eq_ok_iff] at h
    obtain ⟨target, -, h⟩ := h
    exact joins_of_collectionTable hset h
  case reference =>
    simp only [referenceTables, hjoin, if_true, referenceCollectionTable, bind_eq_ok_iff,
      pure_eq_ok_iff] at h
    obtain ⟨referenced, -, keys, -, rfl⟩ := h
    obtain ⟨_, ht⟩ := set.get?_push_next (ctx.referenceJoin d referenced scope s keys)
    refine joins_link hset (.refl (hset.push _)) ht (key_referenceJoin referenced keys) ?_
    rw [reason_referenceJoin]
    rfl
  case common =>
    rw [if_neg (by simpa using hjoin), commonTables_eq] at h
    simp only [bind_eq_ok_iff, pure_eq_ok_iff] at h
    obtain ⟨common, -, commonKeys, -, mid, hmid, rfl⟩ := h
    have hbuilt := built_of_entityTablesWithin hmid
    obtain ⟨t, ht, hreason, hkey⟩ := hbuilt.exists_get?_common rfl
    exact joins_link hset (extended_commonClosed (hbuilt.extended (hset.push _))) ht hkey
      (by rw [hreason]; rfl)
  case choice | inlineCommon => simp at hjoin

/-- What is built after a property leaves its table alone. -/
theorem Joins.of_built {ds : List Declaration} {p : Property} (h : Joins scope s p set i)
    (hset : set.IsTidy) (hne : i ≠ scope.table) (hbuilt : ctx.Built ds scope s set next) :
    Joins scope s p next i := by
  obtain ⟨t, ht, -⟩ := id h
  have hlt := TableSet.lt_next_of_get? ht
  have hextended := hbuilt.extended hset
  exact h.congr (hextended.get? i hlt hne) (hextended.target? i hlt) (hextended.discarded i hlt)

/-- If the properties of an entity are built, those with a table of their own have one. -/
theorem exists_joins_of_mem {e : Entity} (hset : set.IsTidy) (hscope : scope.table < set.next)
    (h : ctx.entityTables e scope s set = .ok next) (hd : d ∈ e.declarations)
    (hjoin : d.property.hasJoinTable = true) :
    ∃ i, set.next ≤ i ∧ Joins scope s d.property next i := by
  obtain ⟨before, after, n, mid, mid', hbefore, hmid, hbuilt, hafter⟩ := exists_built_of_mem h hd
  have hextended := hbefore.extended hset
  have hjoins := joins_of_propertyTablesBy hextended.isTidy hjoin hmid
  have hne : mid.next ≠ scope.table := Nat.ne_of_gt (hscope.trans_le hextended.next_le)
  exact ⟨mid.next, hextended.next_le,
    hjoins.of_built (hbuilt.extended hextended.isTidy).isTidy hne hafter⟩

end TableContext

/-! ### The tables of whole entities -/

/-- The address of the table of a property that an extension declares itself. -/
theorem Scope.joinKey_detached {i : Nat} {namespaceName : String} {parent : Table} {key : TableKey}
    {p : Property} : (Scope.detached i namespaceName parent key).site.joinKey .root p =
      ⟨namespaceName, parent.tableId ++ p.tableName⟩ := by
  have hcontext : Strategy.root.parentContext = "" := rfl
  simp [Site.joinKey, Site.joinNaming, Scope.site, Scope.detached, TableNaming.joinTable, hcontext]

/-- The tables of an extension of the entity whose stored main table is `parent`. The first table
adds the columns of the extension and is kept if there are columns beyond the key of `parent`; the
tables of the properties with a table of their own are kept in either case. -/
structure TableSet.Extends (m : Model) (stored : Schema) (e : Entity) (key : TableKey)
    (parent : Table) (set : TableSet) : Prop where
  first : ∃ t, set.get? 0 = some t ∧ t.reason = .extension ∧
    t.Adds m e.declarations .root e.namespaceName parent
  kept : 0 ∉ set.discarded ↔
    ∃ id text, m.Contributes e.declarations .root id text ∧ id ∉ parent.primaryKeyIds
  target : 0 ∉ set.discarded → set.target? 0 = some (.stored key)
  others : set.AddFrom stored 1
  joins : ∀ d ∈ e.declarations, d.property.hasJoinTable = true →
    ∃ i, TableContext.Joins (Scope.detached 0 e.namespaceName parent key) .root d.property set i

/-- The foreign keys of the stored table do not matter. -/
theorem TableSet.Extends.of_foreignKeys {m : Model} {stored : Schema} {e : Entity} {key : TableKey}
    {parent : Table} {set : TableSet} (h : set.Extends m stored e key parent)
    (fks : List ForeignKey) : set.Extends m stored e key { parent with foreignKeys := fks } := by
  obtain ⟨t, ht, hreason, hadds⟩ := h.first
  exact ⟨⟨t, ht, hreason, hadds.key, hadds.parentKeys, hadds.columns⟩, h.kept, h.target, h.others,
    h.joins⟩

namespace TableContext

variable {ctx : TableContext} {ds : List Declaration} {scope : Scope} {s : Strategy}
  {set next : TableSet} {e : Entity} {id : EntityId} {start : Table}

/-- Building from a table that adds no columns to another one. -/
theorem Built.addFrom_zero (h : ctx.Built ds scope s ((TableSet.empty id).push start) next)
    (hscope : scope.table = 0) (hstart : start.reason.isExtensionTable = false) :
    next.AddFrom ctx.stored 0 := by
  have htidy := (TableSet.isTidy_empty id).push start
  have hnext := h.addFrom htidy (by rw [hscope]; exact Nat.one_pos)
  refine TableSet.AddFrom.of_succ hnext fun t ht => ?_
  obtain ⟨t', ht', hreason, -⟩ := h.exists_get?_scope (by rw [hscope]; rfl)
  rw [hscope] at ht'
  obtain rfl : t' = t := Option.some.inj (ht'.symm.trans ht)
  cases hr : start.reason <;> simp [hr, hreason, TableReason.isExtensionTable] at hstart ⊢

theorem addFrom_of_mainTable {reason : TableReason} (h : ctx.mainTable e reason = .ok set)
    (hreason : reason.isExtensionTable = false) : set.AddFrom ctx.stored 0 := by
  obtain ⟨keys, inherited, -, -, hbuilt⟩ := built_of_mainTable h
  refine hbuilt.addFrom_zero rfl ?_
  rw [mainTableStart, Table.reason_addColumns]
  exact hreason

/-- The tables of an extension, together with the table that it extends. -/
theorem exists_extends_of_extensionTable (h : ctx.extensionTable e = .ok set) :
    ∃ b key parent, ctx.model.baseEntity e = .ok b ∧
      ctx.stored.entityTableKey? b.id = some key ∧ ctx.stored.get? key = some parent ∧
      set.Extends ctx.model ctx.stored e key parent := by
  simp only [extensionTable, bind_eq_ok_iff] at h
  obtain ⟨b, hb, ⟨key, parent⟩, hstored, h⟩ := h
  obtain ⟨hkey, hparent⟩ := storedTable_eq_ok hstored
  simp only [addedTable, bind_eq_ok_iff, pure_eq_ok_iff] at h
  obtain ⟨mid, hmid, rfl⟩ := h
  refine ⟨b, key, parent, hb, hkey, hparent, ?_⟩
  have hempty := TableSet.isTidy_empty e.id
  have htidy := hempty.push (ctx.suffixedTable e parent .extension)
  have hbuilt := built_of_entityTables hmid
  have hextended := hbuilt.extended htidy
  obtain ⟨t, ht, hreason, hadds⟩ := hbuilt.adds rfl
  refine ⟨⟨t, ?_, hreason, hadds⟩, ?_, fun hkept => ?_, ?_, fun d hd hjoin => ?_⟩
  · rw [get?_linkOrDiscard]
    exact ht
  · exact (kept_linkOrDiscard_iff hempty hextended ht).trans
      (hadds.hasOwnColumns_iff.trans hadds.exists_column_iff)
  · exact target?_linkOrDiscard hempty hextended hkept
  · refine (hbuilt.addFrom htidy Nat.one_pos).congr fun i hi => ?_
    have hne : i ≠ 0 := Nat.ne_of_gt hi
    exact ⟨get?_linkOrDiscard _ _ _ _, target?_linkOrDiscard_of_ne hne,
      mem_discarded_linkOrDiscard_of_ne hne⟩
  · obtain ⟨i, hi, hjoins⟩ := exists_joins_of_mem htidy Nat.one_pos hmid hd hjoin
    have hne : i ≠ 0 := Nat.ne_of_gt hi
    exact ⟨i, hjoins.congr (get?_linkOrDiscard _ _ _ _) (target?_linkOrDiscard_of_ne hne)
      (mem_discarded_linkOrDiscard_of_ne hne)⟩

end TableContext

end Tabular
