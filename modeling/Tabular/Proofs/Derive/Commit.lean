import Mathlib.Tactic.Common
import Tabular.Lookup.Enumeration
import Tabular.Proofs.Derive.Links
import Tabular.Proofs.Schema.Growth

/-!
# Committed sets

When a set is committed, each table that is kept is arranged and takes over the key order of the
table it hangs off. Since tables are finished in order and links lead back, that table is finished
by then: what a child copies is the final key of its parent.

## Main definitions

* `TableSet.ParentIs`: the table that a link leads to.
* `TableSet.FinishedFrom`: a table as finishing leaves it.

## Main results

* `TableSet.finishedFrom_of_finish`: the finished tables of a well linked set.
* `TableSet.store_eq_ok_iff`, `TableSet.exists_of_storeMain`: the schema after a commit.
* `TableSet.keptIn_finish`: finishing on a larger schema.
* `TableSet.mem_kept_iff`: the tables that are kept.
-/

namespace Tabular

namespace TableSet

/-! ### Finished tables -/

/-- The table that a link leads to, given the tables of the set and a schema. -/
def ParentIs (tables : List Table) (s : Schema) : LinkTarget → Table → Prop
  | .inSet j, parent => tables[j]? = some parent
  | .stored key, parent => s.get? key = some parent

/-- The table `finished` is `t` as it is left at a position: arranged, and with a foreign key to
the table it hangs off, if any. -/
inductive FinishedFrom (v : Version) (s : Schema) (links : List ParentLink) (tables : List Table)
    (i : Nat) (t : Table) : Table → Prop
  | unlinked (hlink : links.find? (fun l => l.child = i) = none) :
      FinishedFrom v s links tables i t (arranged v t)
  | linked {l : ParentLink} {parent : Table}
      (hlink : links.find? (fun l => l.child = i) = some l)
      (hparent : ParentIs tables s l.target parent) :
      FinishedFrom v s links tables i t
        ((arranged v { t with parentKeyColumnIds := parent.primaryKeyIds }).addForeignKey
          (parentKey (arranged v { t with parentKeyColumnIds := parent.primaryKeyIds }) parent
            l.reason))

variable {set : TableSet} {v : Version} {s s' : Schema} {tables tables' : List Table} {i : Nat}
  {t t' : Table}

theorem WellLinked.lt_of_find? (hset : set.WellLinked s) {l : ParentLink} {j : Nat}
    (hl : set.links.find? (fun l => l.child = i) = some l) (hj : l.target = .inSet j) :
    j < i ∧ i < set.next ∧ j ∉ set.discarded := by
  have hchild : l.child = i := by simpa using List.find?_some hl
  exact hchild ▸ hset.inSet l (List.mem_of_find?_eq_some hl) j hj

/-- What a finished table is depends only on the tables before it. -/
theorem FinishedFrom.congr (hset : set.WellLinked s)
    (h : FinishedFrom v s set.links tables i t t')
    (htables : ∀ j < i, tables'[j]? = tables[j]?) :
    FinishedFrom v s set.links tables' i t t' := by
  cases h with
  | unlinked hlink => exact .unlinked hlink
  | @linked l parent hlink hparent =>
    refine .linked hlink ?_
    cases htarget : l.target with
    | inSet j =>
      rw [htarget] at hparent
      have hlt := (hset.lt_of_find? hlink htarget).1
      exact (htables j hlt).trans hparent
    | stored key =>
      rw [htarget] at hparent
      exact hparent

private theorem finishedFrom_of_finishTable (hset : set.WellLinked s)
    (hlen : tables.length = set.next)
    (h : finishTable v s set.links tables i t = .ok t') :
    FinishedFrom v s set.links tables i t t' := by
  unfold finishTable at h
  cases hlink : set.links.find? fun l => l.child = i with
  | none =>
    simp only [hlink, Except.ok.injEq] at h
    exact h ▸ .unlinked hlink
  | some l =>
    simp only [hlink, bind_eq_ok_iff, pure_eq_ok_iff] at h
    obtain ⟨parent, hparent, rfl⟩ := h
    refine .linked hlink ?_
    cases htarget : l.target with
    | inSet j =>
      obtain ⟨hlt, hi, -⟩ := hset.lt_of_find? hlink htarget
      have hj : j < tables.length := by omega
      simp only [parentOf, htarget, List.getElem?_eq_getElem hj, Option.getD_some,
        Except.ok.injEq] at hparent
      exact hparent ▸ List.getElem?_eq_getElem hj
    | stored key =>
      simp only [parentOf, htarget] at hparent
      split at hparent
      · rename_i u hget
        exact (Except.ok.inj hparent) ▸ hget
      · simp at hparent

/-- Every table of a well linked set that is kept is finished. -/
theorem finishedFrom_of_finish (hset : set.WellLinked s) (h : set.finish v s = .ok tables) :
    tables.length = set.next ∧ ∀ i t, i ∉ set.discarded → set.tables[i]? = some t →
      ∃ t', tables[i]? = some t' ∧ FinishedFrom v s set.links tables i t t' := by
  -- after `k` steps the first `k` tables are finished and the others are as they were
  have hsteps := foldlM_range_ok_induction
    (fun k tables => tables.length = set.next ∧ (∀ i, k ≤ i → tables[i]? = set.tables[i]?) ∧
      ∀ i < k, ∀ t, i ∉ set.discarded → set.tables[i]? = some t →
        ∃ t', tables[i]? = some t' ∧ FinishedFrom v s set.links tables i t t')
    ?_ ⟨rfl, fun _ _ => rfl, fun i hi => absurd hi (Nat.not_lt_zero i)⟩ h
  · refine ⟨hsteps.1, fun i t hi ht => hsteps.2.2 i ?_ t hi ht⟩
    exact (List.getElem?_eq_some_iff.mp ht).1
  rintro k ts ts' hk ⟨hlen, hrest, hfinished⟩ hstep
  unfold finishAt at hstep
  by_cases hdiscarded : k ∈ set.discarded
  · have hsame : ts = ts' := by simpa [isDiscarded, hdiscarded] using hstep
    subst hsame
    refine ⟨hlen, fun i hi => hrest i (by omega), fun i hi t hkept ht => ?_⟩
    have hne : i ≠ k := fun h => hkept (h ▸ hdiscarded)
    exact hfinished i (by omega) t hkept ht
  · have hkt : k < ts.length := by rw [hlen]; exact hk
    simp only [isDiscarded, hdiscarded, decide_false, Bool.false_eq_true, if_false,
      List.getElem?_eq_getElem hkt, bind_eq_ok_iff, pure_eq_ok_iff] at hstep
    obtain ⟨finished, hfinish, rfl⟩ := hstep
    have hbefore : ∀ j < k, (ts.set k finished)[j]? = ts[j]? := fun j hj =>
      List.getElem?_set_ne (Nat.ne_of_gt hj)
    refine ⟨by simpa using hlen, fun i hi => ?_, fun i hi t hkept ht => ?_⟩
    · rw [List.getElem?_set_ne (by omega)]
      exact hrest i (by omega)
    · rcases Nat.lt_succ_iff_lt_or_eq.mp hi with hlt | rfl
      · obtain ⟨t', ht', hfrom⟩ := hfinished i hlt t hkept ht
        refine ⟨t', (hbefore i hlt).trans ht', hfrom.congr hset fun j hj => ?_⟩
        exact hbefore j (Nat.lt_trans hj hlt)
      · have hsame : ts[i] = t := by
          rw [← hrest i (Nat.le_refl i), List.getElem?_eq_getElem hkt] at ht
          exact Option.some.inj ht
        refine ⟨finished, by simp [hkt], ?_⟩
        rw [hsame] at hfinish
        exact (finishedFrom_of_finishTable hset hlen hfinish).congr hset hbefore

/-! ### The schema after a commit -/

theorem mem_kept_iff : t ∈ set.kept tables ↔ ∃ i, tables[i]? = some t ∧ i ∉ set.discarded := by
  simp only [kept, List.mem_map, List.mem_filter, List.mem_zipIdx_iff_getElem?, isDiscarded,
    Prod.exists, Bool.not_eq_true', decide_eq_false_iff_not]
  constructor
  · rintro ⟨u, i, ⟨hu, hi⟩, rfl⟩
    exact ⟨i, hu, hi⟩
  · rintro ⟨i, hu, hi⟩
    exact ⟨t, i, ⟨hu, hi⟩, rfl⟩

/-- A commit succeeds when all tables can be finished and the addresses of those that are kept are
free. -/
theorem store_eq_ok_iff : set.store v s = .ok s' ↔
    ∃ tables, set.finish v s = .ok tables ∧ s.insertAll (set.kept tables) = (s', none) := by
  unfold store commit
  cases hfinish : set.finish v s with
  | error e => simp
  | ok tables =>
    simp only [Except.ok.injEq, exists_eq_left']
    cases hinsert : s.insertAll (set.kept tables) with
    | mk next failure => cases failure <;> simp

/-- What finishing returns it returns on every schema that has the same tables and more. -/
theorem keptIn_finish (hs : ∀ key t, s.get? key = some t → s'.get? key = some t) :
    KeptIn (set.finish v s) (set.finish v s') := by
  have hparent (tables : List Table) (child : Table) (target : LinkTarget) :
      KeptIn (parentOf tables s child target) (parentOf tables s' child target) := by
    cases target with
    | inSet i => exact .refl _
    | stored key =>
      intro parent h
      unfold parentOf at h ⊢
      cases hget : s.get? key with
      | none => simp [hget] at h
      | some t => simpa [hget, hs key t hget] using h
  refine .foldlM (fun tables i _ => ?_) set.tables
  unfold finishAt finishTable
  split_ifs
  · exact .refl _
  · split
    · exact .refl _
    · refine KeptIn.bind ?_ fun _ _ => .refl _
      split
      · exact .refl _
      · exact (hparent tables _ _).bind fun _ _ => .refl _

/-- A commit with registration: the first table is the main table unless it is not kept. -/
theorem exists_of_storeMain {e : EntityId} (h : set.storeMain v e s = .ok s') :
    ∃ next, set.store v s = .ok next ∧
      ((∃ key, set.keys.head? = some (some key) ∧ s' = next.setEntityTable e key) ∨
        (∀ key, set.keys.head? ≠ some (some key)) ∧ s' = next) := by
  rw [storeMain, bind_eq_ok_iff] at h
  obtain ⟨next, hnext, h⟩ := h
  refine ⟨next, hnext, ?_⟩
  split at h
  · rename_i key hkey
    exact Or.inl ⟨key, hkey, (pure_eq_ok_iff.mp h).symm⟩
  · rename_i hkey
    exact Or.inr ⟨fun key h => hkey key h, (pure_eq_ok_iff.mp h).symm⟩

/-- Registering a main table leaves the tables of the schema alone. -/
theorem storeMain_eq_ok {e : EntityId} (h : set.storeMain v e s = .ok s') :
    ∃ next, set.store v s = .ok next ∧ (s' = next ∨ ∃ key, s' = next.setEntityTable e key) := by
  obtain ⟨next, hnext, ⟨key, -, hs'⟩ | ⟨-, hs'⟩⟩ := exists_of_storeMain h
  · exact ⟨next, hnext, Or.inr ⟨key, hs'⟩⟩
  · exact ⟨next, hnext, Or.inl hs'⟩

end TableSet

end Tabular
