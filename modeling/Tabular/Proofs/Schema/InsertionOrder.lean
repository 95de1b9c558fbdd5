import Mathlib.Data.List.Perm.Basic
import Mathlib.Tactic.Common
import Tabular.Proofs.Schema.Growth

/-!
# Schemas as maps in the order of insertion

Tables are inserted one after the other, and a table whose address is taken is turned away. This
file describes the schema after any sequence of attempts by the sequence alone: an address leads to
the first table that was offered for it, namespaces come in the order in which they were first
mentioned, and the addresses of a namespace in the order in which they were first asked for.

## Main definitions

* `Schema.attempt`, `Schema.ofInsertions`: attempts to insert tables.
* `Precedes`: the order of two addresses in a sequence of attempts.

## Main results

* `Schema.get?_ofInsertions`: look-up after a sequence of attempts.
* `Schema.exists_insert_eq_error_iff`: when an insertion fails.
* `Schema.table?_eq_some_iff`: look-up and the list of all tables.
* `Schema.mem_keys_ofInsertions`, `Schema.pairwise_precedes_keys`: the addresses and their order.
-/

namespace Tabular

/-- The order of addresses after attempts to insert tables: by the first mention of the namespace,
and within a namespace by the first mention of the address. -/
def Precedes (ts : List Table) (key other : TableKey) : Prop :=
  (ts.map Table.namespaceName).idxOf key.namespaceName <
      (ts.map Table.namespaceName).idxOf other.namespaceName ∨
    key.namespaceName = other.namespaceName ∧
      (ts.map Table.key).idxOf key < (ts.map Table.key).idxOf other

namespace Schema

variable {s : Schema} {t u : Table}

/-- The schema after an attempt to insert a table; a table whose address is taken changes
nothing. -/
def attempt (s : Schema) (t : Table) : Schema :=
  match s.insert t with
  | .ok s' => s'
  | .error _ => s

/-- The schema after attempts to insert tables, one after the other. -/
def ofInsertions (ts : List Table) : Schema :=
  ts.foldl attempt empty

/-! ### One attempt -/

theorem insert_of_get?_eq_none (h : s.get? t.key = none) :
    s.insert t = .ok { s with inserted := s.inserted ++ [t] } :=
  insert_eq_ok_iff.mpr ⟨h, rfl⟩

theorem insert_of_get?_eq_some (h : s.get? t.key = some u) :
    s.insert t = .error (.duplicateTable t.namespaceName t.tableId) := by
  rw [insert, h]

theorem eq_duplicateTable_of_insert {e : BuildError} (h : s.insert t = .error e) :
    e = .duplicateTable t.namespaceName t.tableId := by
  cases hget : s.get? t.key with
  | none => simp [insert_of_get?_eq_none hget] at h
  | some u => simpa [insert_of_get?_eq_some hget, eq_comm] using h

theorem exists_insert_eq_error_iff_get? :
    (∃ e, s.insert t = .error e) ↔ ∃ u, s.get? t.key = some u := by
  cases hget : s.get? t.key with
  | none => simp [insert_of_get?_eq_none hget]
  | some u => simp [insert_of_get?_eq_some hget]

theorem attempt_of_get?_eq_none (h : s.get? t.key = none) :
    s.attempt t = { s with inserted := s.inserted ++ [t] } := by
  rw [attempt, insert_of_get?_eq_none h]

theorem attempt_of_get?_eq_some (h : s.get? t.key = some u) : s.attempt t = s := by
  rw [attempt, insert_of_get?_eq_some h]

/-- The addresses after an attempt. -/
theorem map_key_inserted_attempt (s : Schema) (t : Table) :
    (s.attempt t).inserted.map Table.key = if t.key ∈ s.inserted.map Table.key then
      s.inserted.map Table.key else s.inserted.map Table.key ++ [t.key] := by
  cases hget : s.get? t.key with
  | none =>
    have hnew : t.key ∉ s.inserted.map Table.key := by simpa [get?] using hget
    rw [attempt_of_get?_eq_none hget, if_neg hnew, List.map_append, List.map_singleton]
  | some u =>
    have hold : t.key ∈ s.inserted.map Table.key :=
      List.mem_map.mpr ⟨u, mem_of_get? hget, key_of_get? hget⟩
    rw [attempt_of_get?_eq_some hget, if_pos hold]

/-! ### Sequences of attempts -/

variable {ts : List Table} {key : TableKey}

theorem ofInsertions_concat (ts : List Table) (t : Table) :
    ofInsertions (ts ++ [t]) = (ofInsertions ts).attempt t := by
  rw [ofInsertions, List.foldl_append]
  rfl

/-- An address leads to the first table that was offered for it. -/
theorem get?_ofInsertions (ts : List Table) (key : TableKey) :
    (ofInsertions ts).get? key = ts.find? fun t => t.key = key := by
  induction ts using List.reverseRecOn with
  | nil => rfl
  | append_singleton ts t ih =>
    rw [ofInsertions_concat, List.find?_append, ← ih]
    cases hget : (ofInsertions ts).get? t.key with
    | none =>
      rw [attempt_of_get?_eq_none hget, get?, List.find?_append]
      rfl
    | some u =>
      rw [attempt_of_get?_eq_some hget]
      by_cases hkey : t.key = key
      · rw [← hkey, hget, Option.some_or]
      · simp [hkey]

/-- The inserted tables have the addresses that were asked for, in the order of first mention. -/
theorem map_key_inserted_ofInsertions (ts : List Table) :
    (ofInsertions ts).inserted.map Table.key = (ts.map Table.key).eraseDups := by
  induction ts using List.reverseRecOn with
  | nil => rfl
  | append_singleton ts t ih =>
    rw [ofInsertions_concat, map_key_inserted_attempt, ih, List.map_append, List.map_singleton,
      eraseDups_concat]
    simp only [List.mem_eraseDups]

theorem mem_keys_ofInsertions : key ∈ (ofInsertions ts).keys ↔ key ∈ ts.map Table.key := by
  have hkeys : key ∈ (ofInsertions ts).keys ↔ key ∈ (ofInsertions ts).inserted.map Table.key := by
    simp only [keys, List.mem_map, mem_tables_iff]
  rw [hkeys, map_key_inserted_ofInsertions, List.mem_eraseDups]

/-- An insertion fails if one of the insertions before it has succeeded for the same address. -/
theorem exists_insert_eq_error_iff : (∃ e, (ofInsertions ts).insert t = .error e) ↔
    ∃ before u after s', ts = before ++ u :: after ∧ (ofInsertions before).insert u = .ok s' ∧
      u.key = t.key := by
  simp only [exists_insert_eq_error_iff_get?, get?_ofInsertions, List.find?_eq_some_iff_append,
    insert_eq_ok_iff, decide_eq_true_eq, List.find?_eq_none, Bool.not_eq_true',
    decide_eq_false_iff_not]
  constructor
  · rintro ⟨u, hkey, before, after, rfl, hbefore⟩
    exact ⟨before, u, after, _, rfl, ⟨fun v hv => hkey ▸ hbefore v hv, rfl⟩, hkey⟩
  · rintro ⟨before, u, after, _, rfl, ⟨hbefore, -⟩, hkey⟩
    exact ⟨u, hkey, before, after, rfl, fun v hv => hkey ▸ hbefore v hv⟩

/-- A table is found at an address exactly if it is the only one with this address. -/
theorem table?_eq_some_iff (h : (s.inserted.map Table.key).Nodup) {namespaceName tableId : String} :
    s.table? namespaceName tableId = some u ↔ s.tables.filter (fun v =>
      v.namespaceName = namespaceName ∧ v.tableId = tableId) = [u] := by
  have hmem : ∀ v, v ∈ s.tables.filter (fun v =>
      v.namespaceName = namespaceName ∧ v.tableId = tableId) ↔
        v ∈ s.inserted ∧ v.key = ⟨namespaceName, tableId⟩ := by
    simp [Table.key, mem_tables_iff]
  constructor
  · intro hget
    have honly : ∀ v, v ∈ s.tables.filter (fun v =>
        v.namespaceName = namespaceName ∧ v.tableId = tableId) ↔ v ∈ [u] := by
      intro v
      rw [hmem, List.mem_singleton]
      constructor
      · rintro ⟨hv, hkey⟩
        exact List.inj_on_of_nodup_map h hv (mem_of_get? hget) (hkey.trans (key_of_get? hget).symm)
      · rintro rfl
        exact ⟨mem_of_get? hget, key_of_get? hget⟩
    have hnodup : s.tables.Nodup := (nodup_keys h).of_map
    have hperm := (List.perm_ext_iff_of_nodup (hnodup.filter _) (List.nodup_singleton u)).mpr honly
    exact List.perm_singleton.mp hperm
  · intro hfilter
    obtain ⟨hu, hkey⟩ := (hmem u).mp (hfilter ▸ List.mem_singleton_self u)
    rw [table?, ← hkey]
    exact get?_of_mem h hu

/-! ### The order of addresses -/

/-- Namespaces come in the order of first mention. -/
theorem namespaces_ofInsertions (ts : List Table) :
    (ofInsertions ts).namespaces = (ts.map Table.namespaceName).eraseDups := by
  have hread : ∀ us : List Table,
      us.map Table.namespaceName = (us.map Table.key).map TableKey.namespaceName := by
    simp [Table.key]
  rw [namespaces, hread, map_key_inserted_ofInsertions, eraseDups_map_eraseDups, ← hread]

/-- The addresses stand in the order of the attempts. -/
theorem pairwise_precedes_keys (ts : List Table) :
    (ofInsertions ts).keys.Pairwise (Precedes ts) := by
  rw [keys, tables, List.map_flatMap, List.pairwise_flatMap]
  constructor
  · -- Within a namespace the order is that of all inserted tables.
    intro name _
    have hsublist : List.Sublist (((ofInsertions ts).tablesIn name).map Table.key)
        (ts.map Table.key).eraseDups := by
      rw [← map_key_inserted_ofInsertions]
      exact List.filter_sublist.map Table.key
    refine ((pairwise_idxOf_eraseDups _).sublist hsublist).imp_of_mem fun hkey hother hlt => ?_
    have hname := namespaceName_of_mem_tablesIn hkey
    exact .inr ⟨hname.trans (namespaceName_of_mem_tablesIn hother).symm, hlt⟩
  · rw [namespaces_ofInsertions]
    refine (pairwise_idxOf_eraseDups _).imp fun hlt key hkey other hother => .inl ?_
    rwa [namespaceName_of_mem_tablesIn hkey, namespaceName_of_mem_tablesIn hother]

end Schema

end Tabular
