import Mathlib.Data.List.Nodup
import Mathlib.Tactic.Common
import Tabular.Proofs.Schema.Frame

/-!
# Texts that columns carry

A column remembers the chain of properties that produced it as one text, and the texts of the columns
merged into it. References look for columns by these texts. This file says what columns a list
carries after further columns have been merged into it, under either way of merging, and which
changes of a table leave this alone.

## Main definitions

* `Carries`: some column of a name remembers a text.
* `Table.Evolves`: a change of a table that keeps what its columns carry, and its reference sources.

## Main results

* `mergeColumn_cases`: the columns after one has been merged into them.
* `nodup_foldl_mergeColumn`: the names of columns stay different.
* `mem_map_id_foldl_mergeColumn_iff`: the names of columns after others have been merged into them.
* `carries_foldl_mergeColumn_iff`: what columns carry after others have been merged into them.
-/

namespace Tabular

/-- Some column of the given name was produced by the chain of properties that the text spells. -/
def Carries (cs : List Column) (id context : String) : Prop :=
  ∃ c ∈ cs, c.id = id ∧ c.hasReferenceContext context = true

variable {v : Version} {cs ks : List Column} {c : Column} {id context : String}

/-! ### Merging a column -/

theorem mem_unionInOrder_iff {α : Type} [DecidableEq α] {xs ys : List α} {a : α} :
    a ∈ unionInOrder xs ys ↔ a ∈ xs ∨ a ∈ ys := by
  unfold unionInOrder
  induction ys generalizing xs with
  | nil => simp
  | cons y rest ih =>
    rw [List.foldl_cons, ih, List.mem_cons]
    split_ifs with hy
    · constructor
      · rintro (h | h)
        · exact Or.inl h
        · exact Or.inr (Or.inr h)
      · rintro (h | rfl | h)
        · exact Or.inl h
        · exact Or.inl hy
        · exact Or.inr h
    · simp [or_assoc]

/-- A merged column remembers what either side remembers as merged, and the text of the first. -/
theorem hasReferenceContext_merge_iff {d : Column} :
    (d.merge c).hasReferenceContext context = true ↔
      d.hasReferenceContext context = true ∨ context ∈ c.mergedReferenceContexts := by
  simp [Column.hasReferenceContext, Column.merge, mem_unionInOrder_iff, or_assoc]

private theorem mergeInPlace_cases (c : Column) (cs : List Column) :
    (∃ before d after, cs = before ++ d :: after ∧ d.id = c.id ∧
      mergeInPlace c cs = before ++ d.merge c :: after) ∨
    (∀ d ∈ cs, d.id ≠ c.id) ∧ mergeInPlace c cs = cs ++ [c] := by
  induction cs with
  | nil => exact Or.inr ⟨by simp, rfl⟩
  | cons e rest ih =>
    rw [mergeInPlace]
    split_ifs with he
    · exact Or.inl ⟨[], e, rest, rfl, he, rfl⟩
    · rcases ih with ⟨before, d, after, hrest, hd, hmerge⟩ | ⟨hnew, hmerge⟩
      · exact Or.inl ⟨e :: before, d, after, by rw [hrest]; rfl, hd, by rw [hmerge]; rfl⟩
      · exact Or.inr ⟨List.forall_mem_cons.mpr ⟨he, hnew⟩, by rw [hmerge]; rfl⟩

private theorem mergeAtEnd_cases (c : Column) (cs : List Column) :
    (∃ before d after, cs = before ++ d :: after ∧ d.id = c.id ∧
      mergeAtEnd c cs = before ++ after ++ [d.merge c]) ∨
    (∀ d ∈ cs, d.id ≠ c.id) ∧ mergeAtEnd c cs = cs ++ [c] := by
  unfold mergeAtEnd
  cases hfind : cs.find? fun d => d.id = c.id with
  | none =>
    refine Or.inr ⟨fun d hd => ?_, rfl⟩
    simpa using List.find?_eq_none.mp hfind d hd
  | some d =>
    obtain ⟨hd, before, after, rfl, hbefore⟩ := List.find?_eq_some_iff_append.mp hfind
    have hnone : ∀ b ∈ before, ¬decide (b.id = c.id) = true := by
      intro b hb
      simpa using hbefore b hb
    refine Or.inl ⟨before, d, after, rfl, by simpa using hd, ?_⟩
    have herase : (d :: after).eraseP (fun b => b.id = c.id) = after :=
      List.eraseP_cons_of_pos hd
    simp only [List.eraseP_append_right _ hnone, herase]

/-- A column is merged into the first one of its name, or stands at the end if there is none. -/
theorem mergeColumn_cases (v : Version) (c : Column) (cs : List Column) :
    (∃ before d after, cs = before ++ d :: after ∧ d.id = c.id ∧
      (mergeColumn v cs c).Perm (before ++ d.merge c :: after)) ∨
    (∀ d ∈ cs, d.id ≠ c.id) ∧ mergeColumn v cs c = cs ++ [c] := by
  unfold mergeColumn
  split_ifs
  · rcases mergeInPlace_cases c cs with ⟨before, d, after, hcs, hd, hmerge⟩ | h
    · exact Or.inl ⟨before, d, after, hcs, hd, .of_eq hmerge⟩
    · exact Or.inr h
  · rcases mergeAtEnd_cases c cs with ⟨before, d, after, hcs, hd, hmerge⟩ | h
    · refine Or.inl ⟨before, d, after, hcs, hd, ?_⟩
      rw [hmerge, List.append_assoc]
      exact .append_left before (List.perm_append_singleton _ _)
    · exact Or.inr h

/-- Merging a column into columns of different names leaves their names different. -/
theorem nodup_mergeColumn (h : (cs.map Column.id).Nodup) :
    ((mergeColumn v cs c).map Column.id).Nodup := by
  rcases mergeColumn_cases v c cs with ⟨before, d, after, rfl, -, hperm⟩ | ⟨hnew, hmerge⟩
  · rw [(hperm.map Column.id).nodup_iff]
    simpa [Column.merge] using h
  · rw [hmerge, List.map_append, List.map_cons, List.map_nil, List.nodup_append]
    refine ⟨h, List.nodup_singleton _, fun id hid id' hid' => ?_⟩
    obtain ⟨d, hd, rfl⟩ := List.mem_map.mp hid
    rw [List.mem_singleton.mp hid']
    exact hnew d hd

theorem nodup_foldl_mergeColumn (h : (cs.map Column.id).Nodup) :
    ((ks.foldl (mergeColumn v) cs).map Column.id).Nodup := by
  induction ks generalizing cs with
  | nil => exact h
  | cons k rest ih => exact ih (nodup_mergeColumn h)

/-- After a column has been merged into others, there are the former names and its own. -/
theorem mem_map_id_mergeColumn_iff : id ∈ (mergeColumn v cs c).map Column.id ↔
    id ∈ cs.map Column.id ∨ id = c.id := by
  rcases mergeColumn_cases v c cs with ⟨before, d, after, rfl, hd, hperm⟩ | ⟨-, hmerge⟩
  · rw [(hperm.map Column.id).mem_iff]
    simp only [List.map_append, List.map_cons, List.mem_append, List.mem_cons, Column.merge, hd]
    tauto
  · simp [hmerge]

theorem mem_map_id_foldl_mergeColumn_iff : id ∈ (ks.foldl (mergeColumn v) cs).map Column.id ↔
    id ∈ cs.map Column.id ∨ id ∈ ks.map Column.id := by
  induction ks generalizing cs with
  | nil => simp
  | cons k rest ih =>
    rw [List.foldl_cons, ih, mem_map_id_mergeColumn_iff, List.map_cons, List.mem_cons, or_assoc]

/-! ### What columns carry -/

/-- Columns have the names under which they carry texts. -/
theorem mem_map_id_iff_exists_carries :
    id ∈ cs.map Column.id ↔ ∃ context, Carries cs id context := by
  constructor
  · intro hid
    obtain ⟨c, hc, rfl⟩ := List.mem_map.mp hid
    exact ⟨c.referenceContext, c, hc, rfl, by simp [Column.hasReferenceContext]⟩
  · rintro ⟨_, c, hc, rfl, -⟩
    exact List.mem_map_of_mem hc

theorem carries_perm (h : cs.Perm ks) : Carries cs id context ↔ Carries ks id context := by
  simp only [Carries, h.mem_iff]

theorem carries_append : Carries (cs ++ ks) id context ↔
    Carries cs id context ∨ Carries ks id context := by
  simp [Carries, or_and_right, exists_or]

theorem carries_cons : Carries (c :: cs) id context ↔
    (c.id = id ∧ c.hasReferenceContext context = true) ∨ Carries cs id context := by
  simp [Carries]

/-- Among columns of different names a column carries what is carried under its name. -/
theorem carries_id_iff (h : (cs.map Column.id).Nodup) (hc : c ∈ cs) :
    Carries cs c.id context ↔ c.hasReferenceContext context = true := by
  constructor
  · rintro ⟨d, hd, hid, hcontext⟩
    rw [← List.inj_on_of_nodup_map h hd hc hid]
    exact hcontext
  · intro hcontext
    exact ⟨c, hc, rfl, hcontext⟩

/-- After a column has been merged into others, its texts are carried, and so are the former
ones. -/
theorem carries_mergeColumn_of (h : Carries cs id context ∨
    c.id = id ∧ context ∈ c.mergedReferenceContexts) :
    Carries (mergeColumn v cs c) id context := by
  rcases mergeColumn_cases v c cs with ⟨before, d, after, rfl, hd, hperm⟩ | ⟨-, hnew⟩
  · rw [carries_perm hperm, carries_append, carries_cons, hasReferenceContext_merge_iff]
    rw [carries_append, carries_cons] at h
    rcases h with (h | ⟨hid, h⟩ | h) | ⟨hid, h⟩
    · exact Or.inl h
    · exact Or.inr (Or.inl ⟨hid, Or.inl h⟩)
    · exact Or.inr (Or.inr h)
    · exact Or.inr (Or.inl ⟨hd.trans hid, Or.inr h⟩)
  · rw [hnew, carries_append]
    refine h.imp_right fun ⟨hid, h⟩ => ⟨c, List.mem_singleton.mpr rfl, hid, ?_⟩
    simp [Column.hasReferenceContext, h]

/-- Nothing else is carried, but for the text that a column keeps for itself. -/
theorem of_carries_mergeColumn (h : Carries (mergeColumn v cs c) id context) :
    Carries cs id context ∨ c.id = id ∧ c.hasReferenceContext context = true := by
  rcases mergeColumn_cases v c cs with ⟨before, d, after, rfl, hd, hperm⟩ | ⟨-, hnew⟩
  · rw [carries_perm hperm, carries_append, carries_cons, hasReferenceContext_merge_iff] at h
    rw [carries_append, carries_cons]
    rcases h with h | ⟨hid, h | h⟩ | h
    · exact Or.inl (Or.inl h)
    · exact Or.inl (Or.inr (Or.inl ⟨hid, h⟩))
    · exact Or.inr ⟨hd.symm.trans hid, by simp [Column.hasReferenceContext, h]⟩
    · exact Or.inl (Or.inr (Or.inr h))
  · rw [hnew, carries_append] at h
    refine h.imp_right fun ⟨d, hmem, hd⟩ => ?_
    rw [List.mem_singleton.mp hmem] at hd
    exact hd

theorem carries_foldl_mergeColumn_of (h : Carries cs id context ∨
    ∃ k ∈ ks, k.id = id ∧ context ∈ k.mergedReferenceContexts) :
    Carries (ks.foldl (mergeColumn v) cs) id context := by
  induction ks generalizing cs with
  | nil => simpa using h
  | cons k rest ih =>
    rw [List.foldl_cons]
    apply ih
    rcases h with h | ⟨k', hk', h⟩
    · exact Or.inl (carries_mergeColumn_of (Or.inl h))
    · rcases List.mem_cons.mp hk' with rfl | hk'
      · exact Or.inl (carries_mergeColumn_of (Or.inr h))
      · exact Or.inr ⟨k', hk', h⟩

theorem of_carries_foldl_mergeColumn (h : Carries (ks.foldl (mergeColumn v) cs) id context) :
    Carries cs id context ∨ ∃ k ∈ ks, k.id = id ∧ k.hasReferenceContext context = true := by
  induction ks generalizing cs with
  | nil => exact Or.inl h
  | cons k rest ih =>
    rw [List.foldl_cons] at h
    rcases ih h with h | ⟨k', hk', h⟩
    · rcases of_carries_mergeColumn h with h | h
      · exact Or.inl h
      · exact Or.inr ⟨k, List.mem_cons_self, h⟩
    · exact Or.inr ⟨k', List.mem_cons_of_mem k hk', h⟩

/-- What columns carry after others, each of which remembers one text, have been merged into
them. -/
theorem carries_foldl_mergeColumn_iff
    (hks : ∀ k ∈ ks, k.mergedReferenceContexts = [k.referenceContext]) :
    Carries (ks.foldl (mergeColumn v) cs) id context ↔
      Carries cs id context ∨ ∃ k ∈ ks, k.id = id ∧ k.referenceContext = context := by
  have htext {k : Column} (hk : k ∈ ks) : k.hasReferenceContext context = true ↔
      k.referenceContext = context := by
    simp [Column.hasReferenceContext, hks k hk, eq_comm]
  constructor
  · intro h
    refine (of_carries_foldl_mergeColumn h).imp_right ?_
    rintro ⟨k, hk, hid, h⟩
    exact ⟨k, hk, hid, (htext hk).mp h⟩
  · intro h
    refine carries_foldl_mergeColumn_of (h.imp_right ?_)
    rintro ⟨k, hk, hid, rfl⟩
    exact ⟨k, hk, hid, by simp [hks k hk]⟩

/-! ### Changes of a table -/

/-- The address and the reference sources of a table stay, the names of its columns stay different,
its columns go on carrying what they carry, and no further text is carried, the empty one aside. -/
structure Table.Evolves (t t' : Table) : Prop where
  key : t'.key = t.key
  sources : t'.referenceSources = t.referenceSources
  distinct : (t.columns.map Column.id).Nodup → (t'.columns.map Column.id).Nodup
  carries : ∀ id context, Carries t.columns id context → Carries t'.columns id context
  carried : ∀ id context, context ≠ "" → Carries t'.columns id context →
    Carries t.columns id context

namespace Table

/-- Sorting puts the columns in another order. -/
theorem columns_sortColumns_perm (t : Table) : t.sortColumns.columns.Perm t.columns := by
  have hkeys : (t.columns.filter t.isParentKey ++
      t.columns.filter fun c => c.isPartOfPrimaryKey && !t.isParentKey c).Perm t.primaryKeys := by
    have hparent : t.columns.filter t.isParentKey = t.primaryKeys.filter t.isParentKey := by
      rw [primaryKeys, List.filter_filter]
      congr 1
      funext c
      cases hc : c.isPartOfPrimaryKey <;> simp [isParentKey, hc]
    have hown : (t.columns.filter fun c => c.isPartOfPrimaryKey && !t.isParentKey c) =
        t.primaryKeys.filter fun c => !t.isParentKey c := by
      rw [primaryKeys, List.filter_filter]
      congr 1
      funext c
      rw [Bool.and_comm]
    rw [hparent, hown]
    exact List.filter_append_perm _ _
  refine ((List.mergeSort_perm _ _).append (List.mergeSort_perm _ _)).append
    (List.mergeSort_perm _ _) |>.trans ?_
  exact (hkeys.append_right _).trans (List.filter_append_perm _ _)

theorem columns_arranged_perm (v : Version) (t : Table) :
    (TableSet.arranged v t).columns.Perm t.columns := by
  unfold TableSet.arranged
  split_ifs
  · exact t.columns_sortColumns_perm
  · exact .refl _

namespace Evolves

variable {t t' t'' : Table}

theorem refl (t : Table) : t.Evolves t :=
  ⟨rfl, rfl, fun h => h, fun _ _ h => h, fun _ _ _ h => h⟩

theorem trans (h : t.Evolves t') (h' : t'.Evolves t'') : t.Evolves t'' where
  key := h'.key.trans h.key
  sources := h'.sources.trans h.sources
  distinct hdistinct := h'.distinct (h.distinct hdistinct)
  carries id context hc := h'.carries id context (h.carries id context hc)
  carried id context hne hc := h.carried id context hne (h'.carried id context hne hc)

/-- The columns of a table keep their names. -/
theorem mem_map_id (h : t.Evolves t') (hid : id ∈ t.columns.map Column.id) :
    id ∈ t'.columns.map Column.id := by
  obtain ⟨context, hcontext⟩ := mem_map_id_iff_exists_carries.mp hid
  exact mem_map_id_iff_exists_carries.mpr ⟨context, h.carries id context hcontext⟩

/-- Columns in another order. -/
theorem of_perm (hkey : t'.key = t.key) (hsources : t'.referenceSources = t.referenceSources)
    (hcolumns : t'.columns.Perm t.columns) : t.Evolves t' where
  key := hkey
  sources := hsources
  distinct := (hcolumns.map Column.id).nodup_iff.mpr
  carries _ _ := (carries_perm hcolumns).mpr
  carried _ _ _ := (carries_perm hcolumns).mp

theorem addForeignKey (t : Table) (k : ForeignKey) : t.Evolves (t.addForeignKey k) :=
  of_perm (t.key_addForeignKey k) (t.referenceSources_addForeignKey k)
    (.of_eq (t.columns_addForeignKey k))

theorem arranged (v : Version) (t : Table) : t.Evolves (TableSet.arranged v t) :=
  of_perm (t.key_arranged v) (t.referenceSources_arranged v) (t.columns_arranged_perm v)

/-- A column that no chain of properties produced. -/
theorem addColumn (t : Table) (v : Version) {c : Column} (hcontext : c.referenceContext = "")
    (hmerged : c.mergedReferenceContexts = []) : t.Evolves (t.addColumn v c) where
  key := rfl
  sources := rfl
  distinct := nodup_mergeColumn
  carries _ _ h := carries_mergeColumn_of (Or.inl h)
  carried id context hne h := by
    rcases of_carries_mergeColumn h with h | ⟨-, h⟩
    · exact h
    · simp [Column.hasReferenceContext, hcontext, hmerged, Ne.symm hne] at h

end Evolves

end Table

end Tabular
