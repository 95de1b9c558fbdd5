import Mathlib.Tactic.Common
import Tabular.Derive.TableSet
import Tabular.Proofs.FirstOccurrences
import Tabular.Proofs.Result

/-!
# Growing schemas

A schema grows by insertions and by changes to tables that leave their addresses alone. This file
says what can be looked up afterwards.

## Main results

* `Schema.mem_tables_iff`, `Schema.nodup_keys`: the tables of a schema, namespace by namespace, are
  those inserted.
* `Schema.namespaces_of_concat`, `Schema.tablesIn_of_concat`: namespaces after an insertion.
* `Schema.get?_of_insert`, `Schema.get?_insert_self`: look-up after an insertion.
* `Schema.inserted_of_insertAll`, `Schema.get?_of_insertAll`, `Schema.get?_insertAll_of_mem`:
  look-up after several insertions.
* `Schema.get?_modify`, `Schema.mem_inserted_modify`: look-up after a change.
* `Schema.entityTableKey?_setEntityTable`: the main tables after a registration.
-/

namespace Tabular

namespace Schema

variable {s s' : Schema} {t : Table} {key : TableKey}

theorem key_of_get? (h : s.get? key = some t) : t.key = key := by
  simpa using List.find?_some h

theorem mem_of_get? (h : s.get? key = some t) : t ∈ s.inserted :=
  List.mem_of_find?_eq_some h

/-- The tables of a schema, namespace by namespace, are those inserted. -/
theorem mem_tables_iff : t ∈ s.tables ↔ t ∈ s.inserted := by
  simp only [tables, namespaces, tablesIn, List.mem_flatMap, List.mem_eraseDups, List.mem_map,
    List.mem_filter, decide_eq_true_eq]
  constructor
  · rintro ⟨_, _, h, _⟩
    exact h
  · intro h
    exact ⟨t.namespaceName, ⟨t, h, rfl⟩, h, rfl⟩

theorem mem_namespaces_iff {name : String} :
    name ∈ s.namespaces ↔ ∃ t ∈ s.inserted, t.namespaceName = name := by
  simp [namespaces]

theorem tablesIn_of_notMem {name : String} (h : name ∉ s.namespaces) : s.tablesIn name = [] := by
  refine List.filter_eq_nil_iff.mpr fun t ht hname => h ?_
  exact mem_namespaces_iff.mpr ⟨t, ht, by simpa using hname⟩

/-- Look-up at an address is look-up among the tables of the namespace. -/
theorem find?_tablesIn (s : Schema) (namespaceName tableId : String) :
    (s.tablesIn namespaceName).find? (fun t => t.tableId = tableId) =
      s.table? namespaceName tableId := by
  rw [tablesIn, List.find?_filter, table?, get?]
  simp [Table.key]

theorem namespaceName_of_mem_tablesIn {name : String}
    (h : key ∈ (s.tablesIn name).map Table.key) : key.namespaceName = name := by
  obtain ⟨t, ht, rfl⟩ := List.mem_map.mp h
  have hname : t.namespaceName = name := by simpa using (List.mem_filter.mp ht).2
  exact hname

/-- Tables at different addresses are listed once, namespace by namespace. -/
theorem nodup_keys (h : (s.inserted.map Table.key).Nodup) : s.keys.Nodup := by
  rw [keys, tables, List.map_flatMap, List.nodup_flatMap]
  constructor
  · exact fun name _ => h.sublist (List.filter_sublist.map Table.key)
  · refine (nodup_eraseDups _).imp fun hne key hkey hother => hne ?_
    rw [← namespaceName_of_mem_tablesIn hkey, namespaceName_of_mem_tablesIn hother]

theorem get?_of_mem (hnodup : (s.inserted.map Table.key).Nodup) (ht : t ∈ s.inserted) :
    s.get? t.key = some t := by
  cases hget : s.get? t.key with
  | none => simpa using List.find?_eq_none.mp hget t ht
  | some u =>
    have hkey := key_of_get? hget
    rw [List.inj_on_of_nodup_map hnodup (mem_of_get? hget) ht hkey]

/-! ### Insertion -/

theorem insert_eq_ok_iff : s.insert t = .ok s' ↔
    s.get? t.key = none ∧ s' = { s with inserted := s.inserted ++ [t] } := by
  unfold insert
  cases h : s.get? t.key with
  | none => simp [eq_comm]
  | some _ => simp

/-- The namespaces after a further table. -/
theorem namespaces_of_concat (h : s'.inserted = s.inserted ++ [t]) : s'.namespaces =
    if t.namespaceName ∈ s.namespaces then s.namespaces
    else s.namespaces ++ [t.namespaceName] := by
  simp only [namespaces, h, List.map_append, List.map_singleton, eraseDups_concat,
    List.mem_eraseDups]

/-- The tables of a namespace after a further table. -/
theorem tablesIn_of_concat (h : s'.inserted = s.inserted ++ [t]) (name : String) :
    s'.tablesIn name =
      if name = t.namespaceName then s.tablesIn name ++ [t] else s.tablesIn name := by
  rw [tablesIn, h, List.filter_append]
  by_cases hname : name = t.namespaceName
  · simp [hname, tablesIn]
  · simp [hname, Ne.symm hname, tablesIn]

/-- Tables found before an insertion are found after it. -/
theorem get?_of_insert {u : Table} (h : s.insert u = .ok s') (hget : s.get? key = some t) :
    s'.get? key = some t := by
  obtain ⟨-, rfl⟩ := insert_eq_ok_iff.mp h
  rw [get?, List.find?_append, ← get?, hget, Option.some_or]

theorem get?_insert_self (h : s.insert t = .ok s') : s'.get? t.key = some t := by
  obtain ⟨hfree, rfl⟩ := insert_eq_ok_iff.mp h
  rw [get?, List.find?_append, ← get?, hfree, Option.none_or]
  simp

theorem inserted_of_insertAll {ts : List Table} (h : s.insertAll ts = (s', none)) :
    s' = { s with inserted := s.inserted ++ ts } := by
  induction ts generalizing s with
  | nil =>
    simp only [insertAll, Prod.mk.injEq, and_true] at h
    simp [← h]
  | cons t rest ih =>
    rw [insertAll] at h
    split at h
    · rename_i next hnext
      obtain ⟨-, rfl⟩ := insert_eq_ok_iff.mp hnext
      simpa using ih h
    · simp at h

theorem get?_of_insertAll {ts : List Table} (h : s.insertAll ts = (s', none))
    (hget : s.get? key = some t) : s'.get? key = some t := by
  rw [inserted_of_insertAll h, get?, List.find?_append, ← get?, hget, Option.some_or]

/-- Every table of a successful insertion is found at its address. -/
theorem get?_insertAll_of_mem {ts : List Table} (h : s.insertAll ts = (s', none)) (ht : t ∈ ts) :
    s'.get? t.key = some t := by
  induction ts generalizing s with
  | nil => simp at ht
  | cons u rest ih =>
    rw [insertAll] at h
    split at h
    · rename_i next hnext
      rcases List.mem_cons.mp ht with rfl | ht
      · exact get?_of_insertAll h (get?_insert_self hnext)
      · exact ih h ht
    · simp at h

/-! ### Change -/

private theorem find?_modify_findIdx? {f : Table → Table} (hf : ∀ t, (f t).key = t.key)
    (k : TableKey) (ts : List Table) {i : Nat} (hi : ts.findIdx? (fun t => t.key = key) = some i) :
    (ts.modify i f).find? (fun t => t.key = k) =
      if k = key then (ts.find? fun t => t.key = k).map f else ts.find? fun t => t.key = k := by
  induction ts generalizing i with
  | nil => simp at hi
  | cons u rest ih =>
    rw [List.findIdx?_cons] at hi
    by_cases hu : u.key = key
    · simp only [hu, decide_true, if_true, Option.some.injEq] at hi
      subst hi
      by_cases hk : k = key
      · simp [hf, hu, hk]
      · have hne : u.key ≠ k := fun h => hk (h.symm.trans hu)
        simp [hf, hne, hk]
    · simp only [hu, decide_false, Bool.false_eq_true, if_false, Option.map_eq_some_iff] at hi
      obtain ⟨j, hj, rfl⟩ := hi
      rw [List.modify_succ_cons, List.find?_cons, List.find?_cons, ih hj]
      by_cases huk : u.key = k
      · have hk : k ≠ key := fun h => hu (huk.trans h)
        simp [huk, hk]
      · simp [huk]

/-- A change of the table at one address leaves the tables at other addresses alone. -/
theorem get?_modify {f : Table → Table} (hf : ∀ t, (f t).key = t.key) (k : TableKey) :
    (s.modify key f).get? k = if k = key then (s.get? k).map f else s.get? k := by
  unfold modify
  cases hi : s.inserted.findIdx? fun t => t.key = key with
  | some i => exact find?_modify_findIdx? hf k s.inserted hi
  | none =>
    split_ifs with hk
    · subst hk
      have hnone : s.get? k = none := by
        rw [get?, List.find?_eq_none]
        intro u hu
        rw [List.findIdx?_eq_none_iff.mp hi u hu]
        exact Bool.false_ne_true
      simp [hnone]
    · rfl

/-- After a change the tables are those from before and the changed one. -/
theorem mem_inserted_modify {f : Table → Table} (h : t ∈ (s.modify key f).inserted) :
    t ∈ s.inserted ∨ ∃ u, s.get? key = some u ∧ t = f u := by
  unfold modify at h
  cases hi : s.inserted.findIdx? fun t => t.key = key with
  | none =>
    rw [hi] at h
    exact Or.inl h
  | some i =>
    rw [hi] at h
    obtain ⟨j, hj, rfl⟩ := List.mem_iff_getElem.mp h
    simp only [List.length_modify] at hj
    rw [List.getElem_modify]
    split_ifs with hij
    · subst hij
      refine Or.inr ⟨_, ?_, rfl⟩
      obtain ⟨hlt, htrue, hbefore⟩ := List.findIdx?_eq_some_iff_getElem.mp hi
      rw [get?, List.find?_eq_some_iff_getElem]
      refine ⟨htrue, i, hlt, rfl, fun j hj => ?_⟩
      simpa using hbefore j hj
    · exact Or.inl (List.getElem_mem _)

@[simp] theorem get?_setEntityTable (e : EntityId) (k key : TableKey) :
    (s.setEntityTable e k).get? key = s.get? key :=
  rfl

@[simp] theorem inserted_setEntityTable (e : EntityId) (k : TableKey) :
    (s.setEntityTable e k).inserted = s.inserted :=
  rfl

/-! ### Main tables -/

@[simp] theorem entityTableKey?_modify (key : TableKey) (f : Table → Table) (e : EntityId) :
    (s.modify key f).entityTableKey? e = s.entityTableKey? e := by
  unfold modify
  split <;> rfl

theorem entityTableKey?_setEntityTable (e id : EntityId) (key : TableKey) :
    (s.setEntityTable e key).entityTableKey? id =
      if e = id then some key else s.entityTableKey? id := by
  by_cases h : e = id <;> simp [setEntityTable, entityTableKey?, h]

end Schema

end Tabular
