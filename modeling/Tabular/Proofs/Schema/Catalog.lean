import Mathlib.Tactic.Common
import Tabular.Proofs.Schema.InsertionOrder

/-!
# Schemas kept on shelves

A schema can be kept as one shelf for each namespace, with an index from the names of tables to
their positions on the shelf. A table that is inserted needs its shelf before its name can be looked
for, so the shelf is put up first. This file shows that shelves and indices agree with the schema
after every insertion, also after those that fail, and that look-up by the index answers as the
schema does.

## Main definitions

* `Shelf`, `Catalog`: the tables of one namespace, and of all of them.
* `Catalog.insert`, `Catalog.table?`, `Catalog.find?`: insertion and look-up through the index.
* `Catalog.ofSchema`: the shelves of a schema.

## Main results

* `Catalog.insert_ofSchema`, `Catalog.ofInsertions_eq`: insertions on shelves.
* `Catalog.table?_ofSchema`, `Catalog.find?_ofSchema`, `Catalog.tables_ofSchema`: look-up on
  shelves.
* `Schema.ordered_map_of_insertions`: schemas are maps in the order of insertion.
-/

namespace Tabular

/-- The tables of a namespace. -/
structure Shelf where
  namespaceName : String
  /-- The tables in the order of insertion. -/
  tables : List Table
  /-- The positions of the tables by their names. -/
  index : List (String × Nat)
  deriving DecidableEq

namespace Shelf

/-- A shelf without tables. -/
def empty (namespaceName : String) : Shelf :=
  ⟨namespaceName, [], []⟩

/-- The table of a name, where the index says it is. -/
def get? (shelf : Shelf) (tableId : String) : Option Table :=
  (shelf.index.lookup tableId).bind fun i => shelf.tables[i]?

/-- The shelf with a further table at its end. -/
def add (shelf : Shelf) (t : Table) : Shelf :=
  { shelf with
    tables := shelf.tables ++ [t]
    index := shelf.index ++ [(t.tableId, shelf.tables.length)] }

/-- The shelf that holds the given tables. -/
def ofTables (namespaceName : String) (ts : List Table) : Shelf :=
  ⟨namespaceName, ts, (ts.map Table.tableId).zipIdx⟩

@[simp] theorem namespaceName_ofTables (namespaceName : String) (ts : List Table) :
    (ofTables namespaceName ts).namespaceName = namespaceName :=
  rfl

theorem add_ofTables (namespaceName : String) (ts : List Table) (t : Table) :
    (ofTables namespaceName ts).add t = ofTables namespaceName (ts ++ [t]) := by
  simp [ofTables, add, List.zipIdx_append]

private theorem lookup_zipIdx (ids : List String) (id : String) (n : Nat) :
    (ids.zipIdx n).lookup id = (ids.findIdx? fun other => other = id).map (· + n) := by
  induction ids generalizing n with
  | nil => rfl
  | cons other rest ih =>
    rw [List.zipIdx_cons, List.lookup_cons, List.findIdx?_cons, ih]
    by_cases h : other = id
    · simp [h]
    · have hne : (id == other) = false := by simpa using Ne.symm h
      simp [h, hne, Function.comp_def, Nat.add_comm, Nat.add_left_comm]

/-- The index says where the first table of a name stands. -/
theorem lookup_index_ofTables (namespaceName : String) (ts : List Table) (tableId : String) :
    (ofTables namespaceName ts).index.lookup tableId =
      ts.findIdx? fun t => t.tableId = tableId := by
  rw [ofTables, lookup_zipIdx, List.findIdx?_map]
  simp [Function.comp_def]

theorem get?_ofTables (namespaceName : String) (ts : List Table) (tableId : String) :
    (ofTables namespaceName ts).get? tableId = ts.find? fun t => t.tableId = tableId := by
  rw [get?, lookup_index_ofTables, List.find?_eq_bind_findIdx?_getElem?]
  rfl

end Shelf

/-- Tables on shelves, one for each namespace. -/
structure Catalog where
  shelves : List Shelf
  deriving DecidableEq

namespace Catalog

/-- The catalog without shelves. -/
def empty : Catalog :=
  ⟨[]⟩

/-- The shelf of a namespace. -/
def shelf? (c : Catalog) (namespaceName : String) : Option Shelf :=
  c.shelves.find? fun shelf => shelf.namespaceName = namespaceName

/-- The table of a namespace and name. -/
def table? (c : Catalog) (namespaceName tableId : String) : Option Table :=
  (c.shelf? namespaceName).bind fun shelf => shelf.get? tableId

/-- All tables, shelf by shelf. -/
def tables (c : Catalog) : List Table :=
  c.shelves.flatMap Shelf.tables

/-- The first table of a name on any shelf. -/
def find? (c : Catalog) (tableId : String) : Option Table :=
  c.shelves.findSome? fun shelf => shelf.get? tableId

/-- The catalog with a shelf for the namespace. -/
def withShelf (c : Catalog) (namespaceName : String) : Catalog :=
  match c.shelf? namespaceName with
  | some _ => c
  | none => ⟨c.shelves ++ [.empty namespaceName]⟩

/-- The catalog with a table added to the shelf of its namespace. -/
def add (c : Catalog) (t : Table) : Catalog :=
  ⟨c.shelves.modify (c.shelves.findIdx fun shelf => shelf.namespaceName = t.namespaceName)
    fun shelf => shelf.add t⟩

/-- The catalog after an insertion, and the error if it has failed. The shelf of the namespace is
put up before the name of the table is looked for. -/
def insert (c : Catalog) (t : Table) : Catalog × Option BuildError :=
  let prepared := c.withShelf t.namespaceName
  if (prepared.shelf? t.namespaceName).any fun shelf => (shelf.index.lookup t.tableId).isSome then
    (prepared, some (.duplicateTable t.namespaceName t.tableId))
  else
    (prepared.add t, none)

/-- The catalog after insertions, one after the other, those that fail among them. -/
def ofInsertions (ts : List Table) : Catalog :=
  ts.foldl (fun c t => (c.insert t).1) empty

/-- Shelves for the given namespaces with the given tables. -/
def ofNames (names : List String) (tablesIn : String → List Table) : Catalog :=
  ⟨names.map fun name => .ofTables name (tablesIn name)⟩

/-- The shelves of a schema. -/
def ofSchema (s : Schema) : Catalog :=
  ofNames s.namespaces s.tablesIn

/-! ### Shelves by name -/

section Names

variable {names : List String} {tablesIn : String → List Table}

theorem shelf?_ofNames (name : String) : (ofNames names tablesIn).shelf? name =
    if name ∈ names then some (.ofTables name (tablesIn name)) else none := by
  have hfound : names.find? (fun other => other = name) =
      if name ∈ names then some name else none := by
    cases hfind : names.find? (fun other => other = name) with
    | none =>
      have hnew : name ∉ names := fun hname => by
        simpa using List.find?_eq_none.mp hfind name hname
      rw [if_neg hnew]
    | some other =>
      obtain rfl : other = name := by simpa using List.find?_some hfind
      rw [if_pos (List.mem_of_find?_eq_some hfind)]
  rw [shelf?, ofNames, List.find?_map]
  change (names.find? fun other => other = name).map _ = _
  rw [hfound]
  split_ifs <;> rfl

/-- A shelf that is put up has nothing on it. -/
theorem withShelf_ofNames {name : String} (h : name ∉ names → tablesIn name = []) :
    (ofNames names tablesIn).withShelf name =
      ofNames (if name ∈ names then names else names ++ [name]) tablesIn := by
  rw [withShelf, shelf?_ofNames]
  by_cases hname : name ∈ names
  · simp only [hname, if_true]
  · simp only [hname, if_false, ofNames, List.map_append, List.map_singleton, h hname]
    rfl

/-- A table that is added changes the shelf of its namespace only. -/
theorem add_ofNames (h : names.Nodup) (t : Table) : (ofNames names tablesIn).add t =
    ofNames names fun name =>
      if name = t.namespaceName then tablesIn name ++ [t] else tablesIn name := by
  rw [add, ofNames, ofNames, Catalog.mk.injEq]
  induction names with
  | nil => rfl
  | cons name rest ih =>
    obtain ⟨hnew, hrest⟩ := List.nodup_cons.mp h
    rw [List.map_cons, List.map_cons, List.findIdx_cons, Shelf.namespaceName_ofTables,
      List.modify_cons]
    by_cases hname : name = t.namespaceName
    · -- The names differ, so that the other shelves keep their tables.
      have hothers : rest.map (fun other => Shelf.ofTables other
          (if other = t.namespaceName then tablesIn other ++ [t] else tablesIn other)) =
            rest.map fun other => .ofTables other (tablesIn other) := by
        refine List.map_congr_left fun other hother => ?_
        have hne : other ≠ t.namespaceName := fun heq => hnew (hname.trans heq.symm ▸ hother)
        rw [if_neg hne]
      simp [hname, hothers, Shelf.add_ofTables]
    · simp only [hname, decide_false, cond_false, Nat.add_one_ne_zero, if_false,
        Nat.add_sub_cancel, ih hrest]

end Names

/-! ### Look-up -/

variable {s : Schema}

theorem tables_ofSchema (s : Schema) : (ofSchema s).tables = s.tables := by
  rw [tables, ofSchema, ofNames, List.flatMap_map]
  rfl

theorem table?_ofSchema (s : Schema) (namespaceName tableId : String) :
    (ofSchema s).table? namespaceName tableId = s.table? namespaceName tableId := by
  rw [table?, ofSchema, shelf?_ofNames, ← Schema.find?_tablesIn]
  split_ifs with h
  · exact Shelf.get?_ofTables namespaceName _ tableId
  · rw [Schema.tablesIn_of_notMem h]
    rfl

theorem find?_ofSchema (s : Schema) (tableId : String) :
    (ofSchema s).find? tableId = s.find? tableId := by
  rw [find?, ofSchema, ofNames, List.findSome?_map, Schema.find?, Schema.tables,
    List.find?_flatMap]
  congr 1
  funext name
  exact Shelf.get?_ofTables name _ tableId

/-! ### Insertion -/

section Larger

variable {s' : Schema} {t : Table}

/-- Once the shelf of a further table is up, the shelves are those of the larger schema. -/
theorem withShelf_ofSchema (h : s'.inserted = s.inserted ++ [t]) :
    (ofSchema s).withShelf t.namespaceName = ofNames s'.namespaces s.tablesIn := by
  rw [ofSchema, withShelf_ofNames Schema.tablesIn_of_notMem, Schema.namespaces_of_concat h]

theorem add_ofNames_namespaces (h : s'.inserted = s.inserted ++ [t]) :
    (ofNames s'.namespaces s.tablesIn).add t = ofSchema s' := by
  have hnodup : s'.namespaces.Nodup := nodup_eraseDups _
  rw [add_ofNames hnodup, ofSchema, funext (Schema.tablesIn_of_concat h)]

/-- The index of the shelf knows a name exactly if the schema has a table at the address. -/
theorem isSome_lookup_shelf? (h : s'.inserted = s.inserted ++ [t]) :
    ((ofNames s'.namespaces s.tablesIn).shelf? t.namespaceName).any
      (fun shelf => (shelf.index.lookup t.tableId).isSome) = (s.get? t.key).isSome := by
  have hmem : t.namespaceName ∈ s'.namespaces := Schema.mem_namespaces_iff.mpr ⟨t, by simp [h], rfl⟩
  rw [shelf?_ofNames, if_pos hmem, Option.any_some, Shelf.lookup_index_ofTables]
  change _ = (s.table? t.namespaceName t.tableId).isSome
  rw [← Schema.find?_tablesIn, Bool.eq_iff_iff]
  simp [List.findIdx?_isSome]

end Larger

/-- An insertion on the shelves of a schema fails exactly if it fails in the schema, and leaves the
shelves and their indices as they were. Otherwise it leaves those of the larger schema. -/
theorem insert_ofSchema (s : Schema) (t : Table) : (ofSchema s).insert t =
    match s.insert t with
    | .ok s' => (ofSchema s', none)
    | .error e => (ofSchema s, some e) := by
  let s' : Schema := { s with inserted := s.inserted ++ [t] }
  have hs' : s'.inserted = s.inserted ++ [t] := rfl
  rw [insert, withShelf_ofSchema hs', isSome_lookup_shelf? hs', add_ofNames_namespaces hs']
  cases hget : s.get? t.key with
  | none =>
    rw [Schema.insert_of_get?_eq_none hget]
    rfl
  | some u =>
    -- The table that is in the way has put up the shelf.
    have hmem : t.namespaceName ∈ s.namespaces := Schema.mem_namespaces_iff.mpr
      ⟨u, Schema.mem_of_get? hget, congrArg TableKey.namespaceName (Schema.key_of_get? hget)⟩
    rw [Schema.insert_of_get?_eq_some hget, Schema.namespaces_of_concat hs', if_pos hmem]
    rfl

/-- The shelves after any sequence of insertions are those of the schema. -/
theorem ofInsertions_eq (ts : List Table) :
    ofInsertions ts = ofSchema (Schema.ofInsertions ts) := by
  induction ts using List.reverseRecOn with
  | nil => rfl
  | append_singleton ts t ih =>
    have hstep : ofInsertions (ts ++ [t]) = ((ofInsertions ts).insert t).1 := by
      rw [ofInsertions, List.foldl_append]
      rfl
    rw [hstep, ih, insert_ofSchema, Schema.ofInsertions_concat, Schema.attempt]
    cases (Schema.ofInsertions ts).insert t <;> rfl

end Catalog

/-- A schema is a map in the order of insertion, whatever tables `ts` were offered to it. A further
insertion fails exactly if one before it has succeeded for the same address, and then changes
nothing; otherwise every address leads where it led before, and the new one to the new table. An
address leads to a table exactly if this is the only one with that address. Addresses are listed
once each, by the first mention of their namespace and then by their own, and a name leads to the
first table of that name. Shelves with an index, where a shelf is put up before its index is asked,
stay in step with the schema through successes and failures, and answer alike. -/
theorem Schema.ordered_map_of_insertions (ts : List Table) :
    (∀ t, ((∃ e, (ofInsertions ts).insert t = .error e) ↔
        ∃ before u after s', ts = before ++ u :: after ∧
          (ofInsertions before).insert u = .ok s' ∧ u.key = t.key) ∧
      (∀ e, (ofInsertions ts).insert t = .error e →
        e = .duplicateTable t.namespaceName t.tableId ∧
          ofInsertions (ts ++ [t]) = ofInsertions ts) ∧
      ∀ s', (ofInsertions ts).insert t = .ok s' →
        ofInsertions (ts ++ [t]) = s' ∧ s'.get? t.key = some t ∧
          ∀ key u, (ofInsertions ts).get? key = some u → s'.get? key = some u) ∧
    (∀ namespaceName tableId u,
      (ofInsertions ts).table? namespaceName tableId = some u ↔
        (ofInsertions ts).tables.filter (fun v =>
          v.namespaceName = namespaceName ∧ v.tableId = tableId) = [u]) ∧
    (ofInsertions ts).keys.Nodup ∧
    (∀ key, key ∈ (ofInsertions ts).keys ↔ key ∈ ts.map Table.key) ∧
    (ofInsertions ts).keys.Pairwise (Precedes ts) ∧
    (∀ tableId u, (ofInsertions ts).find? tableId = some u ↔
      u.tableId = tableId ∧ ∃ before after, (ofInsertions ts).tables = before ++ u :: after ∧
        ∀ v ∈ before, v.tableId ≠ tableId) ∧
    (∀ t, (Catalog.ofInsertions ts).insert t =
      match (ofInsertions ts).insert t with
      | .ok _ => (Catalog.ofInsertions (ts ++ [t]), none)
      | .error e => (Catalog.ofInsertions ts, some e)) ∧
    (Catalog.ofInsertions ts).tables = (ofInsertions ts).tables ∧
    (∀ namespaceName tableId, (Catalog.ofInsertions ts).table? namespaceName tableId =
      (ofInsertions ts).table? namespaceName tableId) ∧
    ∀ tableId, (Catalog.ofInsertions ts).find? tableId = (ofInsertions ts).find? tableId := by
  have hnodup : ((ofInsertions ts).inserted.map Table.key).Nodup := by
    rw [map_key_inserted_ofInsertions]
    exact nodup_eraseDups _
  refine ⟨fun t => ⟨exists_insert_eq_error_iff, fun e he => ?_, fun s' hs' => ?_⟩,
    fun _ _ _ => table?_eq_some_iff hnodup, nodup_keys hnodup, fun _ => mem_keys_ofInsertions,
    pairwise_precedes_keys ts, fun tableId u => ?_, fun t => ?_, ?_, fun _ _ => ?_, fun _ => ?_⟩
  · refine ⟨eq_duplicateTable_of_insert he, ?_⟩
    rw [ofInsertions_concat, attempt, he]
  · refine ⟨?_, get?_insert_self hs', fun key u => get?_of_insert hs'⟩
    rw [ofInsertions_concat, attempt, hs']
  · simp only [find?, List.find?_eq_some_iff_append, decide_eq_true_eq, Bool.not_eq_true',
      decide_eq_false_iff_not]
  · rw [Catalog.ofInsertions_eq, Catalog.ofInsertions_eq, Catalog.insert_ofSchema,
      ofInsertions_concat, attempt]
    cases (ofInsertions ts).insert t <;> rfl
  · rw [Catalog.ofInsertions_eq, Catalog.tables_ofSchema]
  · rw [Catalog.ofInsertions_eq, Catalog.table?_ofSchema]
  · rw [Catalog.ofInsertions_eq, Catalog.find?_ofSchema]

/-- Tables of two namespaces in turn, the last one for an address that is taken. -/
def offeredTables : List Table :=
  [.ofReason "EdFi" "Student" .main, .ofReason "Tpdm" "Candidate" .main,
    .ofReason "EdFi" "School" .main, .ofReason "Tpdm" "Student" .main,
    .ofReason "EdFi" "Student" .descriptor]

/-- The table turned away is not found under its name, and would be turned away again. -/
theorem Schema.ordered_map_of_insertions_students :
    (ofInsertions offeredTables).keys =
        [⟨"EdFi", "Student"⟩, ⟨"EdFi", "School"⟩, ⟨"Tpdm", "Candidate"⟩, ⟨"Tpdm", "Student"⟩] ∧
      (ofInsertions offeredTables).find? "Student" = some (.ofReason "EdFi" "Student" .main) ∧
      (∃ e, (ofInsertions offeredTables).insert (.ofReason "EdFi" "Student" .descriptor) =
        .error e ∧ e = .duplicateTable "EdFi" "Student") ∧
      (Catalog.ofInsertions offeredTables).find? "Student" =
        some (.ofReason "EdFi" "Student" .main) := by
  have hkeys : (ofInsertions offeredTables).keys =
      [⟨"EdFi", "Student"⟩, ⟨"EdFi", "School"⟩, ⟨"Tpdm", "Candidate"⟩, ⟨"Tpdm", "Student"⟩] := by
    decide
  obtain ⟨hinsert, -, -, -, -, hfind, -, -, -, hshelves⟩ := ordered_map_of_insertions offeredTables
  have hfirst : (ofInsertions offeredTables).find? "Student" =
      some (.ofReason "EdFi" "Student" .main) :=
    (hfind _ _).mpr ⟨rfl, [], _, rfl, by simp⟩
  obtain ⟨e, he⟩ := (hinsert (.ofReason "EdFi" "Student" .descriptor)).1.mpr
    ⟨[], _, _, _, rfl, rfl, rfl⟩
  exact ⟨hkeys, hfirst, ⟨e, he, ((hinsert _).2.1 e he).1⟩, (hshelves _).trans hfirst⟩

end Tabular
