import Mathlib.Tactic.Common
import Tabular.Proofs.Schema.Frame
import Tabular.Proofs.Schema.Growth

/-!
# Foreign keys added one after the other

A table takes a foreign key only if it has none of the same identifier, so of several keys with
one identifier the first is kept. The identifier does not show the namespace of the foreign table:
a key that leads to one table may give way to an earlier one that leads to another.

## Main definitions

* `ForeignKey.address`: the address of the table that a key leads to.
* `Table.addForeignKeys`: a table after foreign keys have been added in order.
* `Table.Outbid`: all planned keys to an address give way to keys that lead elsewhere.

## Main results

* `Table.mem_foreignKeys_addForeignKeys_iff`: the keys that are kept.
* `Table.exists_address_iff_not_outbid`: when a key to an address is kept.
* `Schema.get?_foldl_addForeignKey`: the tables of a schema to which foreign keys have been added.
-/

namespace Tabular

/-- The address of the table that the key leads to. -/
def ForeignKey.address (k : ForeignKey) : TableKey :=
  ⟨k.foreignNamespace, k.foreignTableId⟩

/-! ### Keys of a table -/

namespace Table

/-- The table after foreign keys have been added in order. -/
def addForeignKeys (t : Table) (ks : List ForeignKey) : Table :=
  ks.foldl addForeignKey t

/-- The planned keys that lead to an address are all lost: the table has none yet, and each of the
planned ones comes after another key of the same identifier that leads elsewhere. -/
structure Outbid (t : Table) (ks : List ForeignKey) (key : TableKey) : Prop where
  planned : ∃ k ∈ ks, k.address = key
  absent : ∀ k ∈ t.foreignKeys, k.address ≠ key
  outbid : ∀ before k after, ks = before ++ k :: after → k.address = key →
    ∃ j ∈ t.foreignKeys ++ before, j.id = k.id ∧ j.address ≠ key

variable {t : Table} {ks : List ForeignKey} {j k : ForeignKey} {key : TableKey}

theorem addForeignKeys_append (ks ks' : List ForeignKey) :
    t.addForeignKeys (ks ++ ks') = (t.addForeignKeys ks).addForeignKeys ks' :=
  List.foldl_append

/-- Only the foreign keys of the table change. -/
theorem exists_addForeignKeys_eq (t : Table) (ks : List ForeignKey) :
    ∃ fks, t.addForeignKeys ks = { t with foreignKeys := fks } := by
  induction ks generalizing t with
  | nil => exact ⟨t.foreignKeys, rfl⟩
  | cons k rest ih =>
    have hadded : ∃ fks, t.addForeignKey k = { t with foreignKeys := fks } := by
      unfold addForeignKey
      split_ifs
      · exact ⟨t.foreignKeys, rfl⟩
      · exact ⟨_, rfl⟩
    obtain ⟨fks, hfks⟩ := hadded
    obtain ⟨others, hothers⟩ := ih { t with foreignKeys := fks }
    refine ⟨others, ?_⟩
    rw [addForeignKeys, List.foldl_cons, hfks]
    exact hothers

theorem mem_foreignKeys_addForeignKey_iff : j ∈ (t.addForeignKey k).foreignKeys ↔
    j ∈ t.foreignKeys ∨ j = k ∧ ∀ i ∈ t.foreignKeys, i.id ≠ k.id := by
  unfold addForeignKey
  split_ifs with hany
  · obtain ⟨i, hi, hsame⟩ := List.any_eq_true.mp hany
    have hpresent : ¬∀ i ∈ t.foreignKeys, i.id ≠ k.id :=
      fun hnew => hnew i hi (of_decide_eq_true hsame)
    simp [hpresent]
  · have hnew : ∀ i ∈ t.foreignKeys, i.id ≠ k.id := by simpa using hany
    rw [List.mem_append, List.mem_singleton]
    exact or_congr_right ⟨fun h => ⟨h, hnew⟩, And.left⟩

theorem exists_id_addForeignKey (t : Table) (k : ForeignKey) :
    ∃ j ∈ (t.addForeignKey k).foreignKeys, j.id = k.id := by
  by_cases hpresent : ∃ j ∈ t.foreignKeys, j.id = k.id
  · obtain ⟨j, hj, hsame⟩ := hpresent
    exact ⟨j, mem_foreignKeys_addForeignKey_iff.mpr (Or.inl hj), hsame⟩
  · refine ⟨k, mem_foreignKeys_addForeignKey_iff.mpr (Or.inr ⟨rfl, fun i hi hsame => ?_⟩), rfl⟩
    exact hpresent ⟨i, hi, hsame⟩

/-- Every identifier among the keys that are offered is that of a key in the end. -/
theorem exists_id_addForeignKeys (hk : k ∈ t.foreignKeys ++ ks) :
    ∃ j ∈ (t.addForeignKeys ks).foreignKeys, j.id = k.id := by
  induction ks generalizing t k with
  | nil => exact ⟨k, by simpa [addForeignKeys] using hk, rfl⟩
  | cons i rest ih =>
    have hadded := @ih (t.addForeignKey i)
    rcases List.mem_append.mp hk with hk | hk
    · exact hadded (List.mem_append_left _ (mem_foreignKeys_addForeignKey_iff.mpr (Or.inl hk)))
    · rcases List.mem_cons.mp hk with rfl | hk
      · obtain ⟨j, hj, hsame⟩ := t.exists_id_addForeignKey k
        obtain ⟨j', hj', hsame'⟩ := hadded (List.mem_append_left rest hj)
        exact ⟨j', hj', hsame'.trans hsame⟩
      · exact hadded (List.mem_append_right _ hk)

/-- A key is kept if the table has it or if none that comes before it has the same identifier. -/
theorem mem_foreignKeys_addForeignKeys_iff : k ∈ (t.addForeignKeys ks).foreignKeys ↔
    k ∈ t.foreignKeys ∨ ∃ before after, ks = before ++ k :: after ∧
      ∀ j ∈ t.foreignKeys ++ before, j.id ≠ k.id := by
  induction ks generalizing t with
  | nil => simp [addForeignKeys]
  | cons i rest ih =>
    rw [show t.addForeignKeys (i :: rest) = (t.addForeignKey i).addForeignKeys rest from rfl, ih]
    constructor
    · rintro (hk | ⟨before, after, rfl, hnew⟩)
      · refine (mem_foreignKeys_addForeignKey_iff.mp hk).imp_right ?_
        rintro ⟨rfl, hnew⟩
        exact ⟨[], rest, rfl, by simpa using hnew⟩
      · refine Or.inr ⟨i :: before, after, rfl, fun j hj => ?_⟩
        rcases List.mem_append.mp hj with hj | hj
        · exact hnew j
            (List.mem_append_left _ (mem_foreignKeys_addForeignKey_iff.mpr (Or.inl hj)))
        · rcases List.mem_cons.mp hj with rfl | hj
          · obtain ⟨j', hj', hsame⟩ := t.exists_id_addForeignKey j
            exact hsame ▸ hnew j' (List.mem_append_left _ hj')
          · exact hnew j (List.mem_append_right _ hj)
    · rintro (hk | ⟨before, after, hsplit, hnew⟩)
      · exact Or.inl (mem_foreignKeys_addForeignKey_iff.mpr (Or.inl hk))
      · cases before with
        | nil =>
          obtain ⟨rfl, rfl⟩ := List.cons.inj hsplit
          exact Or.inl (mem_foreignKeys_addForeignKey_iff.mpr (Or.inr ⟨rfl, by simpa using hnew⟩))
        | cons b before =>
          obtain ⟨rfl, rfl⟩ := List.cons.inj hsplit
          refine Or.inr ⟨before, after, rfl, fun j hj => ?_⟩
          rcases List.mem_append.mp hj with hj | hj
          · rcases mem_foreignKeys_addForeignKey_iff.mp hj with hj | ⟨rfl, -⟩
            · exact hnew j (List.mem_append_left _ hj)
            · exact hnew j (List.mem_append_right _ List.mem_cons_self)
          · exact hnew j (List.mem_append_right _ (List.mem_cons_of_mem _ hj))

/-- If a key to an address is planned, the table has one in the end unless all of them are lost. -/
theorem exists_address_iff_not_outbid (hplanned : ∃ k ∈ ks, k.address = key) :
    (∃ k ∈ (t.addForeignKeys ks).foreignKeys, k.address = key) ↔ ¬t.Outbid ks key := by
  constructor
  · rintro ⟨k, hk, haddress⟩ houtbid
    rcases mem_foreignKeys_addForeignKeys_iff.mp hk with hk | ⟨before, after, hsplit, hnew⟩
    · exact houtbid.absent k hk haddress
    · obtain ⟨j, hj, hsame, -⟩ := houtbid.outbid before k after hsplit haddress
      exact hnew j hj hsame
  · intro hkept
    by_contra hnone
    refine hkept ⟨hplanned, fun k hk haddress => ?_, fun before k after hsplit haddress => ?_⟩
    · exact hnone ⟨k, mem_foreignKeys_addForeignKeys_iff.mpr (Or.inl hk), haddress⟩
    · -- the key that is kept for this identifier was there before `k`
      obtain ⟨j, hj, hsame⟩ := exists_id_addForeignKeys (List.mem_append_right t.foreignKeys
        (List.mem_append_right before (List.mem_singleton_self k)))
      have hfinal : j ∈ (t.addForeignKeys ks).foreignKeys := by
        rw [hsplit, List.append_cons, addForeignKeys_append]
        exact mem_foreignKeys_addForeignKeys_iff.mpr (Or.inl hj)
      have helsewhere : j.address ≠ key := fun h => hnone ⟨j, hfinal, h⟩
      have hne : j ≠ k := fun h => helsewhere (h ▸ haddress)
      refine ⟨j, ?_, hsame, helsewhere⟩
      rcases mem_foreignKeys_addForeignKeys_iff.mp hj with hj | ⟨_, _, hsplit', -⟩
      · exact List.mem_append_left _ hj
      · have hmem : j ∈ before ++ [k] := by simp [hsplit']
        simpa [hne] using Or.inr hmem

end Table

/-! ### Keys of a schema -/

section Schemas

variable {s : Schema} {t : Table}

/-- Each table gets the keys that are planned for its address. -/
theorem Schema.get?_foldl_addForeignKey (planned : List (TableKey × ForeignKey)) (s : Schema)
    (key : TableKey) :
    (planned.foldl (fun s (key, k) => s.modify key fun t => t.addForeignKey k) s).get? key =
      (s.get? key).map fun t =>
        t.addForeignKeys ((planned.filter fun entry => entry.1 = key).map Prod.snd) := by
  induction planned generalizing s with
  | nil =>
    have hid : (fun t : Table => t.addForeignKeys []) = id := rfl
    simp [hid]
  | cons entry rest ih =>
    obtain ⟨address, k⟩ := entry
    rw [List.foldl_cons, ih, Schema.get?_modify fun t => t.key_addForeignKey k]
    by_cases hkey : key = address
    · subst hkey
      rw [if_pos rfl, List.filter_cons_of_pos (by simp), Option.map_map]
      rfl
    · rw [if_neg hkey, List.filter_cons_of_neg (by simpa using Ne.symm hkey)]

/-- Adding foreign keys leaves everything else in the schema as it is. -/
theorem get?_addForeignKeys (planned : List (TableKey × ForeignKey)) {key : TableKey}
    (ht : s.get? key = some t) : ∃ fks,
      (planned.foldl (fun s (key, k) => s.modify key fun t => t.addForeignKey k) s).get? key =
        some { t with foreignKeys := fks } := by
  obtain ⟨fks, hfks⟩ := t.exists_addForeignKeys_eq
    ((planned.filter fun entry => entry.1 = key).map Prod.snd)
  refine ⟨fks, ?_⟩
  rw [Schema.get?_foldl_addForeignKey, ht, Option.map_some, hfks]

theorem entityTables_addForeignKeys (planned : List (TableKey × ForeignKey)) (s : Schema) :
    (planned.foldl (fun s (key, k) => s.modify key fun t => t.addForeignKey k) s).entityTables =
      s.entityTables := by
  induction planned generalizing s with
  | nil => rfl
  | cons entry rest ih =>
    obtain ⟨address, k⟩ := entry
    rw [List.foldl_cons, ih]
    simp only [Schema.modify]
    split <;> rfl

theorem entityTable?_addForeignKeys (planned : List (TableKey × ForeignKey)) {id : EntityId}
    (ht : s.entityTable? id = some t) : ∃ fks,
      (planned.foldl (fun s (key, k) => s.modify key fun t => t.addForeignKey k) s).entityTable? id =
        some { t with foreignKeys := fks } := by
  obtain ⟨key, hkey, hget⟩ := Option.bind_eq_some_iff.mp ht
  obtain ⟨fks, hfks⟩ := get?_addForeignKeys planned hget
  refine ⟨fks, ?_⟩
  rw [Schema.entityTable?, Schema.entityTableKey?, entityTables_addForeignKeys,
    ← Schema.entityTableKey?, hkey]
  exact hfks

end Schemas

end Tabular
