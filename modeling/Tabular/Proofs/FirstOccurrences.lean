import Mathlib.Data.List.Induction
import Mathlib.Data.List.Nodup
import Mathlib.Tactic.Common

/-!
# First occurrences

Namespaces, tables and merged values come in the order in which they first occur. This order is
`List.eraseDups`, and this file follows it along a list that grows at its end.

## Main results

* `eraseDups_concat`: a further item counts if it is new.
* `eraseDups_map_eraseDups`: repetitions do not matter for what is read off the items.
* `pairwise_idxOf_eraseDups`: the items stand in the order of their first positions.
-/

namespace Tabular

variable {α β : Type} [BEq α] [LawfulBEq α] [BEq β] [LawfulBEq β]

theorem nodup_eraseDups : (xs : List α) → xs.eraseDups.Nodup
  | [] => by simp
  | x :: rest => by
    rw [List.eraseDups_cons, List.nodup_cons]
    exact ⟨by simp, nodup_eraseDups (rest.filter fun other => !other == x)⟩
termination_by xs => xs.length
decreasing_by exact Nat.lt_succ_of_le (List.length_filter_le _ _)

/-- A further item counts among the first occurrences if it is new. -/
theorem eraseDups_concat (xs : List α) (x : α) :
    (xs ++ [x]).eraseDups = if x ∈ xs then xs.eraseDups else xs.eraseDups ++ [x] := by
  rw [List.eraseDups_append]
  by_cases hx : x ∈ xs <;> simp [List.removeAll, hx, List.eraseDups_cons]

theorem eraseDups_of_nodup {xs : List α} (h : xs.Nodup) : xs.eraseDups = xs := by
  induction xs using List.reverseRecOn with
  | nil => rfl
  | append_singleton xs x ih =>
    rw [← List.concat_eq_append, List.nodup_concat] at h
    rw [eraseDups_concat, if_neg h.1, ih h.2]

/-- Repetitions among the items do not matter for the first occurrences of what is read off them. -/
theorem eraseDups_map_eraseDups (f : α → β) (xs : List α) :
    (xs.eraseDups.map f).eraseDups = (xs.map f).eraseDups := by
  induction xs using List.reverseRecOn with
  | nil => rfl
  | append_singleton xs x ih =>
    have hsame : f x ∈ xs.eraseDups.map f ↔ f x ∈ xs.map f := by
      simp only [List.mem_map, List.mem_eraseDups]
    rw [eraseDups_concat, List.map_append, List.map_singleton, eraseDups_concat, ← ih]
    split_ifs with hx hfx hfx
    · rfl
    · exact absurd (List.mem_map_of_mem hx) hfx
    · rw [List.map_append, List.map_singleton, eraseDups_concat, if_pos (hsame.mpr hfx)]
    · rw [List.map_append, List.map_singleton, eraseDups_concat, if_neg (mt hsame.mp hfx)]

/-- The items stand in the order of their first positions. -/
theorem pairwise_idxOf_eraseDups (xs : List α) :
    xs.eraseDups.Pairwise fun x y => xs.idxOf x < xs.idxOf y := by
  induction xs using List.reverseRecOn with
  | nil => simp
  | append_singleton xs x ih =>
    have hkept : xs.eraseDups.Pairwise fun y z => (xs ++ [x]).idxOf y < (xs ++ [x]).idxOf z := by
      refine ih.imp_of_mem fun hy hz hlt => ?_
      rwa [List.idxOf_append_of_mem (List.mem_eraseDups.mp hy),
        List.idxOf_append_of_mem (List.mem_eraseDups.mp hz)]
    rw [eraseDups_concat]
    split_ifs with hx
    · exact hkept
    · refine List.pairwise_append.mpr ⟨hkept, List.pairwise_singleton _ _, fun y hy z hz => ?_⟩
      obtain rfl := List.mem_singleton.mp hz
      have hmem := List.mem_eraseDups.mp hy
      calc (xs ++ [z]).idxOf y = xs.idxOf y := List.idxOf_append_of_mem hmem
        _ < xs.length := List.idxOf_lt_length_of_mem hmem
        _ = (xs ++ [z]).idxOf z := by rw [List.idxOf_append_of_notMem hx]; simp

end Tabular
