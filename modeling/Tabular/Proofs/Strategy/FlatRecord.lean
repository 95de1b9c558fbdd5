import Mathlib.Tactic.Common
import Tabular.Proofs.Derive.MergeFree

/-!
# Strategies as flat records

A strategy is a stack of layers: operations push layers, rewrite one further down, or take out all
layers of a kind. Names and flags show much less of it, namely the properties further out since the
last new table and three flags. This file gives these as a record with operations of its own, and
shows that after any sequence of operations a strategy shows what the record shows.

## Main definitions

* `Strategy.Operation`, `Strategy.apply`, `Strategy.run`: operations, and sequences of them.
* `Strategy.Summary`, `Strategy.Summary.apply`, `Strategy.Summary.run`: flat records.
* `Strategy.summary`: what a strategy shows, as a flat record.
* `Strategy.ReadsAs`: a strategy gives the names and flags that a flat record gives.

## Main results

* `Strategy.summary_apply`, `Strategy.summary_run`: operations on strategies are those on records.
* `Strategy.readsAs_run`: after any operations, a strategy gives the names and flags of a record
  that knows nothing of skipped paths.
-/

namespace Tabular

namespace Strategy

/-! ### Operations -/

/-- An operation on strategies. -/
inductive Operation where
  | append (p : Property)
  | ignoreRoleName
  | skipPaths (paths : List (List String))
  | leafNullable
  | suppressKeys
  | undoLeafNullable
  | undoSuppressKeys
  | forNewTable

/-- Whether the operation adds a skip layer. -/
def Operation.isSkip : Operation → Bool
  | skipPaths _ => true
  | _ => false

/-- The strategy after an operation. -/
def apply (s : Strategy) : Operation → Strategy
  | .append p => s.append p
  | .ignoreRoleName => s.ignoreRoleName
  | .skipPaths paths => s.skipPaths paths
  | .leafNullable => s.leafNullable
  | .suppressKeys => s.suppressKeys
  | .undoLeafNullable => s.undoLeafNullable
  | .undoSuppressKeys => s.undoSuppressKeys
  | .forNewTable => s.forNewTable

/-- The strategy after a sequence of operations. -/
def run (s : Strategy) (ops : List Operation) : Strategy :=
  ops.foldl apply s

/-- Taking out layers in which a question finds nothing leaves what it finds as it is. -/
theorem filterMap_filter_of_forall {α : Type} {layers : List Layer} {f : Layer → Option α}
    {p : Layer → Bool} (h : ∀ l, p l = false → f l = none) :
    (layers.filter p).filterMap f = layers.filterMap f := by
  rw [List.filterMap_filter]
  congr 1
  funext l
  split_ifs with hl
  · rfl
  · exact (h l (Bool.not_eq_true _ ▸ hl)).symm

/-! ### Flat records -/

/-- What names and flags show of a strategy. -/
structure Summary where
  /-- The properties further out since the last new table, the outermost first. -/
  contexts : List ParentContext
  /-- Columns are nullable. -/
  isNullable : Bool
  /-- Columns stay out of the key. -/
  suppressesKeys : Bool
  /-- Columns drop their own role. -/
  ignoresRoleName : Bool
  deriving DecidableEq

namespace Summary

/-- The record at the root of a table. -/
def root : Summary :=
  ⟨[], false, false, false⟩

/-- The record after an operation. Nothing clears the flag for roles, and skipped paths leave no
trace. -/
def apply (r : Summary) : Operation → Summary
  | .append p => { r with contexts := r.contexts ++ [.of p] }
  | .ignoreRoleName => { r with ignoresRoleName := true }
  | .skipPaths _ => r
  | .leafNullable => { r with isNullable := true }
  | .suppressKeys => { r with suppressesKeys := true }
  | .undoLeafNullable => { r with isNullable := false }
  | .undoSuppressKeys => { r with suppressesKeys := false }
  | .forNewTable => { r with contexts := [], isNullable := false, suppressesKeys := false }

/-- The record after a sequence of operations. -/
def run (r : Summary) (ops : List Operation) : Summary :=
  ops.foldl apply r

/-- The prefixes of the properties further out, the outermost first. -/
def parentContext (r : Summary) : String :=
  Text.concat (r.contexts.map ParentContext.contextPrefix)

/-- The change of flags for columns. -/
def leafColumns (r : Summary) (transform : ColumnTransform) : ColumnTransform :=
  if r.isNullable then .makeNull transform else transform

/-- The name of a column with the given role and base name. Empty parts are not listed. -/
def columnNamer (r : Summary) (roleName baseName : String) : ColumnNaming :=
  let prefixes := r.contexts.map ParentContext.contextPrefix
  let role := if r.ignoresRoleName then "" else roleName
  { columnId := Text.concat prefixes ++ role ++ baseName
    nameComponents :=
      (prefixes.filter fun p => p ≠ "").map .parentContext ++
        (if role = "" then [] else [.roleName role]) ++
        (if baseName = "" then [] else [.base baseName]) }

/-- What layers show. -/
def ofLayers (layers : List Layer) : Summary where
  contexts := (layers.filterMap Layer.context?).reverse
  isNullable := .leafNullable ∈ layers
  suppressesKeys := .suppressKeys ∈ layers
  ignoresRoleName := .ignoreRoleName ∈ layers

variable (layers : List Layer)

@[simp] theorem ofLayers_context (parent : ParentContext) : ofLayers (.context parent :: layers) =
    { ofLayers layers with contexts := (ofLayers layers).contexts ++ [parent] } := by
  simp [ofLayers, Layer.context?]

@[simp] theorem ofLayers_ignoreRoleName :
    ofLayers (.ignoreRoleName :: layers) = { ofLayers layers with ignoresRoleName := true } := by
  simp [ofLayers, List.filterMap_cons, Layer.context?]

@[simp] theorem ofLayers_leafNullable :
    ofLayers (.leafNullable :: layers) = { ofLayers layers with isNullable := true } := by
  simp [ofLayers, List.filterMap_cons, Layer.context?]

@[simp] theorem ofLayers_suppressKeys :
    ofLayers (.suppressKeys :: layers) = { ofLayers layers with suppressesKeys := true } := by
  simp [ofLayers, List.filterMap_cons, Layer.context?]

theorem ofLayers_filter_ne_leafNullable : ofLayers (layers.filter fun l => l ≠ .leafNullable) =
    { ofLayers layers with isNullable := false } := by
  rw [ofLayers, filterMap_filter_of_forall (by simp [Layer.context?])]
  simp [ofLayers]

theorem ofLayers_filter_ne_suppressKeys : ofLayers (layers.filter fun l => l ≠ .suppressKeys) =
    { ofLayers layers with suppressesKeys := false } := by
  rw [ofLayers, filterMap_filter_of_forall (by simp [Layer.context?])]
  simp [ofLayers]

theorem ofLayers_filter_context? : ofLayers (layers.filter fun l => l.context?.isNone) =
    { ofLayers layers with contexts := [] } := by
  simp [ofLayers, Layer.context?]

end Summary

/-! ### Strategies show flat records -/

/-- What a strategy shows. -/
def summary (s : Strategy) : Summary :=
  .ofLayers s.layers

variable {s s' : Strategy}

/-- Skip layers do not show. -/
theorem summary_eq_ofLayers_plain (s : Strategy) : s.summary = .ofLayers s.plain := by
  have hcontexts := s.parentContexts_eq
  rw [parentContexts] at hcontexts
  simp only [summary, Summary.ofLayers, hcontexts, mem_plain_iff (s := s) (l := .leafNullable) rfl,
    mem_plain_iff (s := s) (l := .suppressKeys) rfl,
    mem_plain_iff (s := s) (l := .ignoreRoleName) rfl]

/-- An operation changes what a strategy shows as it changes a record. -/
theorem summary_apply (s : Strategy) (op : Operation) :
    (s.apply op).summary = s.summary.apply op := by
  cases op with
  | append p =>
    rw [apply, summary_eq_ofLayers_plain, plain_append, Summary.ofLayers_context,
      ← summary_eq_ofLayers_plain]
    rfl
  | ignoreRoleName =>
    rw [apply, summary_eq_ofLayers_plain, plain_ignoreRoleName, Summary.ofLayers_ignoreRoleName,
      ← summary_eq_ofLayers_plain]
    rfl
  | skipPaths paths =>
    rw [apply, summary_eq_ofLayers_plain, plain_skipPaths, ← summary_eq_ofLayers_plain]
    rfl
  | leafNullable => exact Summary.ofLayers_leafNullable s.layers
  | suppressKeys => exact Summary.ofLayers_suppressKeys s.layers
  | undoLeafNullable => exact Summary.ofLayers_filter_ne_leafNullable s.layers
  | undoSuppressKeys => exact Summary.ofLayers_filter_ne_suppressKeys s.layers
  | forNewTable =>
    simp only [apply, summary, forNewTable, undoSuppressKeys, undoLeafNullable, Summary.apply,
      Summary.ofLayers_filter_context?, Summary.ofLayers_filter_ne_suppressKeys,
      Summary.ofLayers_filter_ne_leafNullable]

/-- A sequence of operations changes what a strategy shows as it changes a record. -/
theorem summary_run (s : Strategy) (ops : List Operation) :
    (s.run ops).summary = s.summary.run ops := by
  induction ops generalizing s with
  | nil => rfl
  | cons op rest ih =>
    calc ((s.apply op).run rest).summary = (s.apply op).summary.run rest := ih (s.apply op)
      _ = (s.summary.apply op).run rest := by rw [summary_apply]

/-- A record does not change when the operations that add skip layers are left out. -/
theorem Summary.run_filter_not_isSkip (r : Summary) (ops : List Operation) :
    r.run (ops.filter fun op => !op.isSkip) = r.run ops := by
  induction ops generalizing r with
  | nil => rfl
  | cons op rest ih =>
    cases op with
    | skipPaths paths => exact ih r
    | append | ignoreRoleName | leafNullable | suppressKeys | undoLeafNullable | undoSuppressKeys
      | forNewTable => exact ih _

/-! ### Names and flags -/

/-- The strategy gives the names and flags that the record gives. -/
structure ReadsAs (s : Strategy) (r : Summary) : Prop where
  parentContexts : s.parentContexts = r.contexts
  parentContext : s.parentContext = r.parentContext
  leafColumns : ∀ transform, s.leafColumns transform = r.leafColumns transform
  suppressesKeys : s.suppressesKeys = r.suppressesKeys
  columnNamer : ∀ role base, s.columnNamer role base = r.columnNamer role base

/-- Names and flags are read off what the strategy shows. -/
theorem readsAs_summary (s : Strategy) : s.ReadsAs s.summary where
  parentContexts := rfl
  parentContext := rfl
  leafColumns transform := by simp [leafColumns, Summary.leafColumns, summary, Summary.ofLayers]
  suppressesKeys := rfl
  columnNamer role base := by
    simp [columnNamer, Summary.columnNamer, summary, Summary.ofLayers, parentContext,
      parentPrefixes, parentContexts]

/-- After any operations from the root, a strategy gives the names and flags of the flat record
after the same operations, whether or not paths are skipped on the way. -/
theorem readsAs_run (ops : List Operation) :
    (root.run ops).ReadsAs (Summary.root.run ops) ∧
      (root.run (ops.filter fun op => !op.isSkip)).ReadsAs (Summary.root.run ops) := by
  have hrun (ops : List Operation) : (root.run ops).ReadsAs (Summary.root.run ops) := by
    have h := readsAs_summary (root.run ops)
    rwa [summary_run] at h
  refine ⟨hrun ops, ?_⟩
  rw [← Summary.run_filter_not_isSkip]
  exact hrun _

end Strategy

end Tabular
