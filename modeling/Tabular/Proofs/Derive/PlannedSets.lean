import Mathlib.Tactic.Common
import Tabular.Proofs.Derive.Links
import Tabular.Proofs.Derive.Plans

/-!
# Sets that grow by a plan

Building turns a set of tables into a larger one. This file says what it means that the growth is
the one that a plan describes: the columns of the plan have entered the table of the scope, and the
new tables of the set, each with its columns and the key order of its parent, are the tables of the
plan. The plan is a multiset, whereas a set lists its tables; the order is all that is lost.

The key order of a table is only known when the set is committed. The new tables are therefore
described for every assignment of key orders to positions that fits the tables.

## Main definitions

* `TableSet.outline?`, `TableSet.outlinesBetween`: the tables of a set regardless of column order.
* `TableSet.Extended`: a set that goes on from another one, with one table changed at most.
* `TableSet.Planned`: the growth that a plan describes.

## Main results

* `TableSet.Planned.add`: two plans one after the other.
* `TableSet.Planned.hang`: a new table with the tables below it.
* `TableSet.Planned.addTo`: a new table that adds columns to a stored one.
-/

namespace Tabular

/-! ### Tables of a set regardless of column order -/

/-- The key order of the table that a link leads to. -/
def LinkTarget.keyOrder (order : Nat → List String) (repo : Schema) : LinkTarget → List String
  | inSet i => order i
  | stored key => repo.keyAt key

namespace TableSet

/-- The table that the table at a position hangs off. -/
def target? (set : TableSet) (i : Nat) : Option LinkTarget :=
  (set.links.find? fun l => l.child = i).map ParentLink.target

variable (repo : Schema) (order : Nat → List String)

/-- The table at a position regardless of the order of its columns, if it is kept. -/
def outline? (set : TableSet) (i : Nat) : Option TableOutline :=
  if i ∈ set.discarded then none
  else (set.get? i).map fun t =>
    ⟨t.key, outlines t.columns,
      ((set.target? i).map (LinkTarget.keyOrder order repo)).getD t.parentKeyColumnIds,
      (set.target? i).bind LinkTarget.stored?⟩

/-- The tables from one position to another that are kept. -/
def outlinesBetween (set : TableSet) (lo hi : Nat) : Multiset TableOutline :=
  ((List.range' lo (hi - lo)).filterMap (set.outline? repo order) : List TableOutline)

/-- The key orders fit the tables from a position on. -/
def FitsFrom (set : TableSet) (lo : Nat) : Prop :=
  ∀ i, lo ≤ i → ∀ o, set.outline? repo order i = some o → order i = o.keyOrder

variable {repo order} {set mid next : TableSet} {lo hi i k : Nat}

theorem outlinesBetween_self : set.outlinesBetween repo order lo lo = 0 := by
  simp [outlinesBetween]

theorem outlinesBetween_add (hlo : lo ≤ k) (hhi : k ≤ hi) :
    set.outlinesBetween repo order lo hi =
      set.outlinesBetween repo order lo k + set.outlinesBetween repo order k hi := by
  have hlength : hi - lo = (k - lo) + (hi - k) := by omega
  have hmiddle : lo + (k - lo) = k := by omega
  rw [outlinesBetween, hlength, ← List.range'_append_1, hmiddle, List.filterMap_append]
  rfl

theorem outlinesBetween_succ (h : lo < hi) : set.outlinesBetween repo order lo hi =
    (set.outline? repo order lo).elim 0 (fun o => {o}) +
      set.outlinesBetween repo order (lo + 1) hi := by
  rw [outlinesBetween_add (Nat.le_succ lo) h]
  congr 1
  have hlength : lo + 1 - lo = 1 := by omega
  cases ho : set.outline? repo order lo <;> simp [outlinesBetween, hlength, ho]

theorem outlinesBetween_congr
    (h : ∀ i, lo ≤ i → i < hi → next.outline? repo order i = set.outline? repo order i) :
    next.outlinesBetween repo order lo hi = set.outlinesBetween repo order lo hi := by
  refine congrArg Multiset.ofList (List.filterMap_congr fun i hi' => ?_)
  rw [List.mem_range'_1] at hi'
  exact h i hi'.1 (by omega)

theorem outline?_congr (hget : next.get? i = set.get? i) (htarget : next.target? i = set.target? i)
    (hdiscarded : i ∈ next.discarded ↔ i ∈ set.discarded) :
    next.outline? repo order i = set.outline? repo order i := by
  simp only [outline?, hget, htarget, hdiscarded]

theorem lt_next_of_outline? {o : TableOutline} (h : set.outline? repo order i = some o) :
    i < set.next := by
  unfold outline? at h
  split_ifs at h
  obtain ⟨t, ht, -⟩ := Option.map_eq_some_iff.mp h
  exact (List.getElem?_eq_some_iff.mp ht).1

/-! ### Links and discarded positions -/

/-- Links and discarded positions are positions of the set, no table has two links, and no
discarded table has one. -/
structure IsTidy (set : TableSet) : Prop where
  child : ∀ l ∈ set.links, l.child < set.next ∧ l.child ∉ set.discarded
  nodup : (set.links.map ParentLink.child).Nodup
  discarded : ∀ i ∈ set.discarded, i < set.next

theorem target?_eq_none_iff : set.target? i = none ↔ ∀ l ∈ set.links, l.child ≠ i := by
  simp [target?]

theorem IsTidy.target?_of_mem (h : set.IsTidy) {l : ParentLink} (hl : l ∈ set.links) :
    set.target? l.child = some l.target := by
  have hfind : set.links.find? (fun k => k.child = l.child) = some l := by
    obtain ⟨k, hk⟩ : ∃ k, set.links.find? (fun k => k.child = l.child) = some k :=
      Option.isSome_iff_exists.mp (List.find?_isSome.mpr ⟨l, hl, by simp⟩)
    have hchild : k.child = l.child := by simpa using List.find?_some hk
    rw [hk, List.inj_on_of_nodup_map h.nodup (List.mem_of_find?_eq_some hk) hl hchild]
  rw [target?, hfind]
  rfl

theorem get?_push_of_lt (t : Table) (h : i < set.next) : (set.push t).get? i = set.get? i :=
  List.getElem?_append_left h

theorem modify_id : set.modify k id = set := by
  simp [modify]

theorem target?_link_of_ne (target : LinkTarget) (r : ForeignKeyReason) (h : i ≠ k) :
    (set.link k target r).target? i = set.target? i := by
  simp [target?, link, List.find?_append, Ne.symm h]

theorem target?_link_self (target : LinkTarget) (r : ForeignKeyReason)
    (h : set.target? k = none) : (set.link k target r).target? k = some target := by
  have hnone : set.links.find? (fun l => l.child = k) = none := by simpa [target?] using h
  simp [target?, link, List.find?_append, hnone]

theorem target?_discard_of_ne (h : i ≠ k) : (set.discard k).target? i = set.target? i := by
  rw [target?, target?, discard, List.find?_filter]
  congr 2
  funext l
  by_cases hl : l.child = i <;> simp [hl, h]

/-! ### Sets that go on from others -/

/-- The set `next` goes on from `set`: the tables of `set` stay where they are and hang off what
they hung off, and none of them has changed but the one at the position `table`. -/
structure Extended (table : Nat) (set next : TableSet) : Prop where
  next_le : set.next ≤ next.next
  get? : ∀ i < set.next, i ≠ table → next.get? i = set.get? i
  target? : ∀ i < set.next, next.target? i = set.target? i
  discarded : ∀ i < set.next, (i ∈ next.discarded ↔ i ∈ set.discarded)
  isTidy : next.IsTidy

variable {table : Nat} {t : Table} {target : LinkTarget} {r : ForeignKeyReason}

namespace Extended

theorem refl (hset : set.IsTidy) : Extended table set set :=
  ⟨Nat.le_refl _, fun _ _ _ => rfl, fun _ _ => rfl, fun _ _ => Iff.rfl, hset⟩

theorem trans (h : Extended table set mid) (h' : Extended table mid next) :
    Extended table set next where
  next_le := h.next_le.trans h'.next_le
  get? i hi hne := (h'.get? i (hi.trans_le h.next_le) hne).trans (h.get? i hi hne)
  target? i hi := (h'.target? i (hi.trans_le h.next_le)).trans (h.target? i hi)
  discarded i hi := (h'.discarded i (hi.trans_le h.next_le)).trans (h.discarded i hi)
  isTidy := h'.isTidy

/-- The outlines of former tables, the changed one aside. -/
theorem outline?_eq (h : Extended table set next) (hi : i < set.next) (hne : i ≠ table) :
    next.outline? repo order i = set.outline? repo order i :=
  outline?_congr (h.get? i hi hne) (h.target? i hi) (h.discarded i hi)

theorem modify (hset : set.IsTidy) (f : Table → Table) : Extended k set (set.modify k f) where
  next_le := (set.next_modify k f).ge
  get? _ _ hne := get?_modify_of_ne f hne
  target? _ _ := rfl
  discarded _ _ := Iff.rfl
  isTidy := ⟨fun l hl => by rw [next_modify]; exact hset.child l hl, hset.nodup,
    fun i hi => by rw [next_modify]; exact hset.discarded i hi⟩

/-- A set whose former tables have not changed at all goes on from it wherever changes are
expected. -/
theorem of_next (h : Extended set.next set next) : Extended table set next :=
  ⟨h.next_le, fun i hi _ => h.get? i hi (Nat.ne_of_lt hi), h.target?, h.discarded, h.isTidy⟩

/-- The position of a new table has neither a link nor been discarded, and after whatever has been
built below it this is still so. -/
theorem fresh (hset : set.IsTidy) (h : Extended set.next (set.push t) mid) :
    set.next < mid.next ∧ mid.target? set.next = none ∧ set.next ∉ mid.discarded := by
  have hlt : set.next < (set.push t).next := by rw [next_push]; omega
  refine ⟨hlt.trans_le h.next_le, ?_, ?_⟩
  · rw [h.target? set.next hlt]
    exact target?_eq_none_iff.mpr fun l hl => Nat.ne_of_lt (hset.child l hl).1
  · rw [h.discarded set.next hlt]
    exact fun hmem => Nat.lt_irrefl _ (hset.discarded _ hmem)

theorem of_push (h : Extended set.next (set.push t) mid) (hi : i < set.next) :
    mid.get? i = set.get? i ∧ mid.target? i = set.target? i ∧
      (i ∈ mid.discarded ↔ i ∈ set.discarded) := by
  have hlt : i < (set.push t).next := by rw [next_push]; omega
  exact ⟨(h.get? i hlt (Nat.ne_of_lt hi)).trans (get?_push_of_lt t hi), h.target? i hlt,
    h.discarded i hlt⟩

/-- A new table is linked once everything below it has been built. -/
theorem link (hset : set.IsTidy) (h : Extended set.next (set.push t) mid) :
    Extended set.next set (mid.link set.next target r) := by
  obtain ⟨hlt, htarget, hkept⟩ := h.fresh hset
  have hnew : ∀ l ∈ mid.links, l.child ≠ set.next := target?_eq_none_iff.mp htarget
  refine ⟨hlt.le, fun i hi _ => (h.of_push hi).1, fun i hi => ?_, fun i hi => (h.of_push hi).2.2,
    ⟨?_, ?_, h.isTidy.discarded⟩⟩
  · rw [target?_link_of_ne _ _ (Nat.ne_of_lt hi)]
    exact (h.of_push hi).2.1
  · intro l hl
    rcases List.mem_append.mp hl with hl | hl
    · exact h.isTidy.child l hl
    · rw [List.mem_singleton.mp hl]
      exact ⟨hlt, hkept⟩
  · rw [TableSet.link, List.map_append, List.nodup_append]
    refine ⟨h.isTidy.nodup, List.nodup_singleton _, ?_⟩
    intro a ha b hb
    obtain ⟨l, hl, rfl⟩ := List.mem_map.mp ha
    rw [List.mem_singleton.mp hb]
    exact hnew l hl

theorem outline?_link (repo : Schema) (order : Nat → List String) (target : LinkTarget)
    (r : ForeignKeyReason) (hset : set.IsTidy) (h : Extended set.next (set.push t) mid) {u : Table}
    (hu : mid.get? set.next = some u) :
    (mid.link set.next target r).outline? repo order set.next =
      some ⟨u.key, outlines u.columns, target.keyOrder order repo, target.stored?⟩ := by
  obtain ⟨-, htarget, hkept⟩ := h.fresh hset
  have hget : (mid.link set.next target r).get? set.next = some u := hu
  rw [outline?, discarded_link, if_neg hkept, hget, target?_link_self _ _ htarget]
  rfl

/-- A new table is discarded once everything below it has been built. -/
theorem discard (hset : set.IsTidy) (h : Extended set.next (set.push t) mid) :
    Extended set.next set (mid.discard set.next) := by
  obtain ⟨hlt, -, -⟩ := h.fresh hset
  refine ⟨hlt.le, fun i hi _ => (h.of_push hi).1, fun i hi => ?_, fun i hi => ?_,
    ⟨?_, ?_, ?_⟩⟩
  · rw [target?_discard_of_ne (Nat.ne_of_lt hi)]
    exact (h.of_push hi).2.1
  · rw [mem_discarded_discard, or_iff_right (Nat.ne_of_lt hi)]
    exact (h.of_push hi).2.2
  · intro l hl
    obtain ⟨hl, hne⟩ := List.mem_filter.mp hl
    rw [mem_discarded_discard]
    obtain ⟨hchild, hnot⟩ := h.isTidy.child l hl
    exact ⟨hchild, not_or.mpr ⟨of_decide_eq_true hne, hnot⟩⟩
  · exact h.isTidy.nodup.sublist (List.filter_sublist.map _)
  · intro i hi
    rcases (mem_discarded_discard mid).mp hi with rfl | hi
    · exact hlt
    · exact h.isTidy.discarded i hi

end Extended

end TableSet

/-! ### Columns that enter a table -/

/-- The table `t'` is `t` after columns of the given names and flags have entered it. -/
def Table.Received (v : Version) (os : Multiset ColumnOutline) (t t' : Table) : Prop :=
  ∃ cs, outlines cs = os ∧ t'.columns = cs.foldl (mergeColumn v) t.columns ∧ t'.key = t.key ∧
    t'.parentKeyColumnIds = t.parentKeyColumnIds

namespace Table

variable {v : Version} {os ps : Multiset ColumnOutline} {t u w : Table}

theorem Received.refl (v : Version) (t : Table) : t.Received v 0 t :=
  ⟨[], rfl, rfl, rfl, rfl⟩

theorem Received.trans (h : t.Received v os u) (h' : u.Received v ps w) :
    t.Received v (os + ps) w := by
  obtain ⟨cs, rfl, hcolumns, hkey, hparents⟩ := h
  obtain ⟨ks, rfl, hcolumns', hkey', hparents'⟩ := h'
  refine ⟨cs ++ ks, outlines_append cs ks, ?_, hkey'.trans hkey, hparents'.trans hparents⟩
  rw [hcolumns', hcolumns, List.foldl_append]

theorem Received.addColumns (v : Version) (t : Table) (cs : List Column) :
    t.Received v (outlines cs) (t.addColumns v cs) := by
  rw [addColumns_eq]
  exact ⟨cs, rfl, rfl, rfl, rfl⟩

/-- The columns of a table that was empty at first. -/
theorem Received.outlines_eq (h : t.Received v os u) {cs : List Column}
    (ht : t.columns = cs.foldl (mergeColumn v) []) :
    outlines u.columns = merged (outlines cs + os) := by
  obtain ⟨ks, rfl, hcolumns, -⟩ := h
  rw [hcolumns, ht, ← List.foldl_append, outlines_foldl_mergeColumn, outlines_append]

/-- Whether a table that started with key columns of its parent has others is seen from the columns
that entered it later. -/
theorem Received.hasOwnColumns_iff (h : t.Received v os u) {cs : List Column}
    (ht : t.columns = cs.foldl (mergeColumn v) []) (hcs : ∀ c ∈ cs, c.id ∈ t.parentKeyColumnIds) :
    u.hasOwnColumns = true ↔ ¬ ∀ o ∈ os, o.id ∈ t.parentKeyColumnIds := by
  have hnames (id : String) : (∃ c ∈ u.columns, c.id = id) ↔
      (∃ c ∈ cs, c.id = id) ∨ ∃ o ∈ os, o.id = id := by
    have hleft : (∃ o ∈ outlines u.columns, o.id = id) ↔ ∃ c ∈ u.columns, c.id = id := by
      simp [mem_outlines_iff, Column.outline]
    have hright : (∃ o ∈ outlines cs, o.id = id) ↔ ∃ c ∈ cs, c.id = id := by
      simp [mem_outlines_iff, Column.outline]
    rw [← hleft, h.outlines_eq ht, exists_mem_merged_iff, ← hright]
    simp only [Multiset.mem_add, or_and_right, exists_or]
  obtain ⟨-, -, -, -, hparents⟩ := h
  rw [hasOwnColumns, hparents, List.any_eq_true]
  push Not
  constructor
  · rintro ⟨c, hc, hnot⟩
    rcases (hnames c.id).mp ⟨c, hc, rfl⟩ with ⟨k, hk, hid⟩ | ⟨o, ho, hid⟩
    · exact absurd (hid ▸ hcs k hk) (of_decide_eq_true hnot)
    · exact ⟨o, ho, hid ▸ of_decide_eq_true hnot⟩
  · rintro ⟨o, ho, hnot⟩
    obtain ⟨c, hc, hid⟩ := (hnames o.id).mpr (Or.inr ⟨o, ho, rfl⟩)
    exact ⟨c, hc, decide_eq_true (hid ▸ hnot)⟩

end Table

/-! ### Growth by a plan -/

namespace TableSet

variable {repo : Schema} {order : Nat → List String} {v : Version} {scope inner : Scope}
  {plan other : Plan} {os : Multiset ColumnOutline} {set mid next : TableSet} {t : Table}
  {target : LinkTarget} {r : ForeignKeyReason} {cs : List Column}

/-- The set `next` has grown from `set` by what the plan describes. -/
structure Planned (repo : Schema) (v : Version) (scope : Scope) (plan : Plan)
    (set next : TableSet) : Prop where
  extended : Extended scope.table set next
  table : ∀ t, set.get? scope.table = some t →
    ∃ t', next.get? scope.table = some t' ∧ t.Received v plan.columns t'
  tables : ∀ order, next.FitsFrom repo order set.next →
    next.outlinesBetween repo order set.next next.next =
      plan.tables (scope.parentLink.keyOrder order repo)

namespace Planned

theorem refl (repo : Schema) (v : Version) (scope : Scope) (hset : set.IsTidy) :
    Planned repo v scope 0 set set :=
  ⟨.refl hset, fun t ht => ⟨t, ht, .refl v t⟩, fun _ _ => outlinesBetween_self⟩

/-- Columns that enter the table of the scope. -/
theorem modify {f : Table → Table} (repo : Schema) (hset : set.IsTidy)
    (hf : ∀ t : Table, t.Received v os (f t)) :
    Planned repo v scope (.ofColumns os) set (set.modify scope.table f) where
  extended := .modify hset f
  table t ht := ⟨f t, get?_modify_self f ht, hf t⟩
  tables order _ := by
    rw [next_modify]
    exact outlinesBetween_self

/-- One plan after the other. Nothing that the second one changes concerns the new tables of the
first. -/
theorem add (hscope : scope.table < set.next) (h : Planned repo v scope plan set mid)
    (h' : Planned repo v scope other mid next) : Planned repo v scope (plan + other) set next where
  extended := h.extended.trans h'.extended
  table t ht := by
    obtain ⟨u, hu, htu⟩ := h.table t ht
    obtain ⟨w, hw, huw⟩ := h'.table u hu
    exact ⟨w, hw, htu.trans huw⟩
  tables order hfits := by
    have hsame : ∀ i, set.next ≤ i → i < mid.next →
        next.outline? repo order i = mid.outline? repo order i := fun i hlo hi =>
      h'.extended.outline?_eq hi (by omega)
    have hfirst := h.tables order fun i hlo o ho =>
      hfits i hlo o ((hsame i hlo (lt_next_of_outline? ho)).trans ho)
    have hsecond := h'.tables order fun i hlo => hfits i (h.extended.next_le.trans hlo)
    rw [outlinesBetween_add h.extended.next_le h'.extended.next_le, outlinesBetween_congr hsame,
      hfirst, hsecond, Plan.tables_add]

/-- The new table that everything in `mid` hangs below. -/
theorem newTable (hinner : inner.table = set.next)
    (h : Planned repo v inner plan (set.push t) mid) :
    ∃ u, mid.get? set.next = some u ∧ t.Received v plan.columns u := by
  obtain ⟨owner, hnew⟩ := set.get?_push_next t
  rw [← hinner] at hnew ⊢
  obtain ⟨u, hu, hreceived⟩ := h.table _ hnew
  exact ⟨u, hu, hreceived⟩

/-- The tables below a new table are those of its plan, whatever becomes of the new table. -/
theorem outlinesBetween_eq (h : Planned repo v inner plan (set.push t) mid)
    (hnext : next.next = mid.next)
    (hsame : ∀ i, i ≠ set.next → next.outline? repo order i = mid.outline? repo order i)
    (hfits : next.FitsFrom repo order set.next) :
    next.outlinesBetween repo order set.next next.next =
      (next.outline? repo order set.next).elim 0 (fun o => {o}) +
        plan.tables (inner.parentLink.keyOrder order repo) := by
  have hlt := h.extended.next_le
  have hbelow := h.tables order fun i hlo o ho => by
    rw [next_push] at hlo
    exact hfits i (by omega) o ((hsame i (by omega)).trans ho)
  rw [next_push] at hlt hbelow
  rw [hnext, outlinesBetween_succ hlt, outlinesBetween_congr fun i hlo _ => hsame i (by omega),
    hbelow]

/-- Nothing enters the table of the scope when former tables stay as they are. -/
private theorem table_of_extended (hscope : scope.table < set.next)
    (h : Extended set.next set next) :
    ∀ t, set.get? scope.table = some t →
      ∃ t', next.get? scope.table = some t' ∧ t.Received v 0 t' := fun t ht =>
  ⟨t, (h.get? _ hscope (Nat.ne_of_lt hscope)).trans ht, .refl v t⟩

/-- A new table that hangs where the scope says, and the tables below it. Further columns enter the
new table when everything below it has been built. -/
theorem hangClosed {f : Table → Table} {ks : List Column} (hset : set.IsTidy)
    (hscope : scope.table < set.next) (hinner : inner.table = set.next)
    (hlink : inner.parentLink = .inSet set.next) (ht : t.columns = cs.foldl (mergeColumn v) [])
    (hf : ∀ u : Table, (f u).key = u.key ∧ (f u).columns = ks.foldl (mergeColumn v) u.columns)
    (h : Planned repo v inner plan (set.push t) mid) :
    Planned repo v scope
      (.hanging t.key scope.parentLink.stored? (outlines cs + plan.columns + outlines ks)
        plan.tables) set ((mid.modify set.next f).link set.next scope.parentLink r) := by
  have hextended : Extended set.next (set.push t) (mid.modify set.next f) :=
    (hinner ▸ h.extended).trans (.modify h.extended.isTidy f)
  obtain ⟨u, hu, cs', hcs', hcolumns, hkey, -⟩ := h.newTable hinner
  have hget : (mid.modify set.next f).get? set.next = some (f u) := get?_modify_self f hu
  have houtlines : outlines (f u).columns = merged (outlines cs + plan.columns + outlines ks) := by
    rw [(hf u).2, hcolumns, ht, ← List.foldl_append, ← List.foldl_append,
      outlines_foldl_mergeColumn, outlines_append, outlines_append, hcs', add_assoc]
  refine ⟨(hextended.link hset).of_next, table_of_extended hscope (hextended.link hset),
    fun order hfits => ?_⟩
  have hnew := hextended.outline?_link repo order scope.parentLink r hset hget
  have hsame : ∀ i, i ≠ set.next →
      ((mid.modify set.next f).link set.next scope.parentLink r).outline? repo order i =
        mid.outline? repo order i := fun i hi =>
    outline?_congr (get?_modify_of_ne f hi) (target?_link_of_ne _ _ hi) Iff.rfl
  rw [(hf u).1, hkey, houtlines] at hnew
  -- the tables below the new one take over its key order
  rw [h.outlinesBetween_eq ((next_link ..).trans (next_modify ..)) hsame hfits, hnew, hlink,
    LinkTarget.keyOrder, hfits set.next (Nat.le_refl _) _ hnew]
  rfl

/-- A new table that hangs where the scope says, and the tables below it. -/
theorem hang (hset : set.IsTidy) (hscope : scope.table < set.next)
    (hinner : inner.table = set.next) (hlink : inner.parentLink = .inSet set.next)
    (ht : t.columns = cs.foldl (mergeColumn v) [])
    (h : Planned repo v inner plan (set.push t) mid) :
    Planned repo v scope
      (.hanging t.key scope.parentLink.stored? (outlines cs + plan.columns) plan.tables) set
      (mid.link set.next scope.parentLink r) := by
  have hid (u : Table) :
      (id u).key = u.key ∧ (id u).columns = [].foldl (mergeColumn v) u.columns := ⟨rfl, rfl⟩
  have hclosed := h.hangClosed (r := r) hset hscope hinner hlink ht hid
  rwa [modify_id, outlines_nil, add_zero] at hclosed

/-- A new table that adds columns to a stored one, and the tables below the stored one. The new
table is discarded if it has no columns beyond the key of the stored one. -/
theorem addTo {key : TableKey} (hset : set.IsTidy) (hscope : scope.table < set.next)
    (hinner : inner.table = set.next) (hlink : inner.parentLink = .stored key)
    (ht : t.columns = cs.foldl (mergeColumn v) [])
    (hcs : ∀ c ∈ cs, c.id ∈ t.parentKeyColumnIds)
    (h : Planned repo v inner plan (set.push t) mid) :
    Planned repo v scope
      { columns := 0
        tables := fun _ =>
          (if ∀ o ∈ plan.columns, o.id ∈ t.parentKeyColumnIds then 0
          else {⟨t.key, merged (outlines cs + plan.columns), repo.keyAt key, some key⟩}) +
            plan.tables (repo.keyAt key) }
      set (TableContext.linkOrDiscard set.next key r mid) := by
  have hextended : Extended set.next (set.push t) mid := hinner ▸ h.extended
  obtain ⟨u, hu, hreceived⟩ := h.newTable hinner
  have hown := hreceived.hasOwnColumns_iff ht hcs
  rw [TableContext.linkOrDiscard, hu, Option.any_some]
  by_cases hall : ∀ o ∈ plan.columns, o.id ∈ t.parentKeyColumnIds
  · rw [if_neg (mt hown.mp (not_not.mpr hall)), if_pos hall]
    refine ⟨(hextended.discard hset).of_next, table_of_extended hscope (hextended.discard hset),
      fun order hfits => ?_⟩
    have hnone : (mid.discard set.next).outline? repo order set.next = none := by
      rw [outline?, if_pos ((mem_discarded_discard mid).mpr (Or.inl rfl))]
    have hsame : ∀ i, i ≠ set.next → (mid.discard set.next).outline? repo order i =
        mid.outline? repo order i := fun i hi =>
      outline?_congr rfl (target?_discard_of_ne hi)
        ((mem_discarded_discard mid).trans (or_iff_right hi))
    rw [h.outlinesBetween_eq (next_discard ..) hsame hfits, hnone, hlink]
    rfl
  · rw [if_pos (hown.mpr hall), if_neg hall]
    refine ⟨(hextended.link hset).of_next, table_of_extended hscope (hextended.link hset),
      fun order hfits => ?_⟩
    have hnew := hextended.outline?_link repo order (.stored key) r hset hu
    have hsame : ∀ i, i ≠ set.next → (mid.link set.next (.stored key) r).outline? repo order i =
        mid.outline? repo order i := fun i hi =>
      outline?_congr rfl (target?_link_of_ne _ _ hi) Iff.rfl
    rw [hreceived.outlines_eq ht] at hnew
    obtain ⟨-, -, -, hkey, -⟩ := hreceived
    rw [h.outlinesBetween_eq (next_link ..) hsame hfits, hnew, hlink, hkey]
    rfl

end Planned

end TableSet

end Tabular
