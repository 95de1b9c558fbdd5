import Mathlib.Tactic.Common
import Tabular.Proofs.Derive.MergeFree

/-!
# What a column records of its chain

A column records the full names of the properties of its chain in two ways: one after the other,
and divided by dots. Its name starts with the prefixes of the properties further out.

## Main definitions

* `Text.dotted`: texts divided by dots.

## Main results

* `Strategy.referenceContext_of_columnOf?`: the names of a chain, one after the other.
* `Strategy.propertyPath_of_columnOf?`, `Text.segments_dotted`: the names divided by dots, and how
  to read them back.
* `Strategy.sources_of_columnOf?`: the property that a column comes from.
* `Strategy.id_of_columnOf?`: the name of a column seen from a property further out.
-/

namespace Tabular

/-! ### Dotted texts -/

namespace Text

/-- The texts of a list divided by dots. -/
def dotted : List String → String
  | [] => ""
  | [s] => s
  | s :: t :: rest => s ++ "." ++ dotted (t :: rest)

theorem splitAt_ne_nil (separator : Char) (cs : List Char) : splitAt separator cs ≠ [] := by
  cases cs with
  | nil => simp [splitAt]
  | cons c rest =>
    rw [splitAt]
    split
    · simp
    · split_ifs <;> simp

theorem splitAt_of_notMem {separator : Char} {cs : List Char} (h : separator ∉ cs) :
    splitAt separator cs = [cs] := by
  induction cs with
  | nil => rfl
  | cons c rest ih =>
    rw [List.mem_cons, not_or] at h
    rw [splitAt, ih h.2]
    simp [Ne.symm h.1]

theorem splitAt_append {separator : Char} {cs : List Char} (h : separator ∉ cs)
    (rest : List Char) :
    splitAt separator (cs ++ separator :: rest) = cs :: splitAt separator rest := by
  induction cs with
  | nil =>
    obtain ⟨piece, pieces, hpieces⟩ := List.exists_cons_of_ne_nil (splitAt_ne_nil separator rest)
    simp [splitAt, hpieces]
  | cons c cs ih =>
    rw [List.mem_cons, not_or] at h
    rw [List.cons_append, splitAt, ih h.2]
    simp [Ne.symm h.1]

/-- Non-empty names without dots are read back from the text that divides them by dots. -/
theorem segments_dotted : {names : List String} → (∀ n ∈ names, n ≠ "" ∧ '.' ∉ n.toList) →
    segments (dotted names) = names
  | [], _ => rfl
  | [n], h => by
    obtain ⟨hne, hdot⟩ := h n List.mem_cons_self
    have hchars : n.toList ≠ [] := by simpa using hne
    simp [segments, dotted, splitAt_of_notMem hdot, hchars]
  | n :: k :: rest, h => by
    obtain ⟨hne, hdot⟩ := h n List.mem_cons_self
    have hchars : n.toList ≠ [] := by simpa using hne
    have ih := segments_dotted fun k' hk' => h k' (List.mem_cons_of_mem n hk')
    have hsplit : splitAt '.' (dotted (n :: k :: rest)).toList =
        n.toList :: splitAt '.' (dotted (k :: rest)).toList := by
      rw [dotted, String.toList_append, String.toList_append, List.append_assoc]
      exact splitAt_append hdot _
    rw [segments, hsplit, List.filter_cons_of_pos (by simpa using hne), List.map_cons,
      String.ofList_toList]
    exact congrArg (List.cons n) ih

theorem dotted_ne_empty {names : List String} (hne : names ≠ []) (h : ∀ n ∈ names, n ≠ "") :
    dotted names ≠ "" := by
  match names with
  | [] => exact absurd rfl hne
  | [n] => exact h n List.mem_cons_self
  | n :: k :: rest =>
    have hn := h n List.mem_cons_self
    simp [dotted, hn]

end Text

/-! ### Leaves -/

theorem exists_leafColumn_of_leafColumn? {d : Declaration} {s : Strategy} {c : Column}
    (h : leafColumn? d s = some c) : ∃ naming type, c = leafColumn d s naming type := by
  unfold leafColumn? at h
  cases hrule : d.property.kind.columnRule with
  | scalar =>
    simp only [hrule, Option.map_eq_some_iff] at h
    obtain ⟨type, -, rfl⟩ := h
    exact ⟨_, type, rfl⟩
  | descriptor | enumeration | schoolYear =>
    simp only [hrule, Option.some.injEq] at h
    exact ⟨_, _, h.symm⟩
  | composite | reference => simp [hrule] at h

section LeafColumn

variable (d : Declaration) (s : Strategy) (naming : ColumnNaming) (type : ScalarType)

@[simp] theorem id_leafColumn : (leafColumn d s naming type).id = naming.columnId := by
  simp only [leafColumn]
  split_ifs <;> rfl

@[simp] theorem referenceContext_leafColumn :
    (leafColumn d s naming type).referenceContext = d.property.fullName := by
  simp only [leafColumn]
  split_ifs <;> rfl

@[simp] theorem mergedReferenceContexts_leafColumn :
    (leafColumn d s naming type).mergedReferenceContexts = [d.property.fullName] := by
  simp only [leafColumn]
  split_ifs <;> rfl

@[simp] theorem propertyPath_leafColumn :
    (leafColumn d s naming type).propertyPath = d.property.fullName := by
  simp only [leafColumn]
  split_ifs <;> rfl

@[simp] theorem sources_leafColumn : (leafColumn d s naming type).sources = [d.id] := by
  simp only [leafColumn]
  split_ifs <;> rfl

end LeafColumn

/-! ### Chains -/

namespace Strategy

variable {s s' : Strategy} {ch : List Hop} {c : Column}

/-- A chain of one property is a property with a column of its own. -/
theorem exists_of_columnOf?_singleton {h : Hop} (hc : s.columnOf? [h] = some c) :
    ∃ d, h = .column d ∧ leafColumn? d s = some c := by
  cases h with
  | inlined d => simp [columnOf?] at hc
  | column d => exact ⟨d, rfl, hc⟩

/-- A column is reached by the names of its chain, one after the other. -/
theorem referenceContext_of_columnOf? (hc : s.columnOf? ch = some c) :
    c.referenceContext = Text.concat (ch.map Hop.name) ∧
      c.mergedReferenceContexts = [c.referenceContext] := by
  induction ch generalizing s c with
  | nil => simp [columnOf?] at hc
  | cons h rest ih =>
    cases rest with
    | nil =>
      obtain ⟨d, rfl, hleaf⟩ := exists_of_columnOf?_singleton hc
      obtain ⟨naming, type, rfl⟩ := exists_leafColumn_of_leafColumn? hleaf
      simp [Hop.name, Hop.declaration]
    | cons k rest =>
      rw [columnOf?_cons_cons, Option.map_eq_some_iff] at hc
      obtain ⟨c', hc', rfl⟩ := hc
      obtain ⟨hcontext, hmerged⟩ := ih hc'
      simp [Column.prefixedBy, hcontext, hmerged]

/-- A column comes from the last property of its chain. -/
theorem sources_of_columnOf? (hc : s.columnOf? ch = some c) :
    ∃ h, ch.getLast? = some h ∧ c.sources = [h.declaration.id] := by
  induction ch generalizing s c with
  | nil => simp [columnOf?] at hc
  | cons h rest ih =>
    cases rest with
    | nil =>
      obtain ⟨d, rfl, hleaf⟩ := exists_of_columnOf?_singleton hc
      obtain ⟨naming, type, rfl⟩ := exists_leafColumn_of_leafColumn? hleaf
      exact ⟨.column d, rfl, sources_leafColumn d s naming type⟩
    | cons k rest =>
      rw [columnOf?_cons_cons, Option.map_eq_some_iff] at hc
      obtain ⟨c', hc', rfl⟩ := hc
      obtain ⟨last, hlast, hsources⟩ := ih hc'
      exact ⟨last, by rw [List.getLast?_cons_cons, hlast], hsources⟩

/-- The property path of a column consists of the names of its chain. -/
theorem propertyPath_of_columnOf? (hc : s.columnOf? ch = some c)
    (hnames : ∀ h ∈ ch, h.name ≠ "") : c.propertyPath = Text.dotted (ch.map Hop.name) := by
  induction ch generalizing s c with
  | nil => simp [columnOf?] at hc
  | cons h rest ih =>
    cases rest with
    | nil =>
      obtain ⟨d, rfl, hleaf⟩ := exists_of_columnOf?_singleton hc
      obtain ⟨naming, type, rfl⟩ := exists_leafColumn_of_leafColumn? hleaf
      simp [Hop.name, Hop.declaration, Text.dotted]
    | cons k rest =>
      rw [columnOf?_cons_cons, Option.map_eq_some_iff] at hc
      obtain ⟨c', hc', rfl⟩ := hc
      have hpath := ih hc' fun h' hh' => hnames h' (List.mem_cons_of_mem h hh')
      have hne : c'.propertyPath ≠ "" := by
        rw [hpath]
        refine Text.dotted_ne_empty (by simp) fun n hn => ?_
        obtain ⟨h', hh', rfl⟩ := List.mem_map.mp hn
        exact hnames h' (List.mem_cons_of_mem h hh')
      rw [Column.prefixedBy, if_neg hne, hpath]
      rfl

/-- The path of a column, read as segments. -/
theorem segments_propertyPath_of_columnOf? (hc : s.columnOf? ch = some c)
    (hnames : ∀ h ∈ ch, h.name ≠ "" ∧ '.' ∉ h.name.toList) :
    Text.segments c.propertyPath = ch.map Hop.name := by
  rw [propertyPath_of_columnOf? hc fun h hh => (hnames h hh).1]
  refine Text.segments_dotted fun n hn => ?_
  obtain ⟨h, hh, rfl⟩ := List.mem_map.mp hn
  exact hnames h hh

/-! ### Names -/

/-- Beyond a property the prefixes further out are followed by its own. -/
theorem parentContext_inside (s : Strategy) (h : Hop) :
    (s.inside h).parentContext = s.parentContext ++ Text.concat
      ((h.plainLayers.filterMap Layer.context?).reverse.map ParentContext.contextPrefix) := by
  rw [parentContext, parentContexts_eq, plain_inside, List.filterMap_append, List.reverse_append,
    List.map_append, Text.concat_append, ← parentContexts_eq, ← parentContext]

/-- Columns drop their own role beyond a property if they do so before it. -/
theorem ignoreRoleName_mem_inside_iff (s : Strategy) (h : Hop) :
    Layer.ignoreRoleName ∈ (s.inside h).layers ↔ Layer.ignoreRoleName ∈ s.layers := by
  have hplain : Layer.ignoreRoleName ∉ h.plainLayers := by
    cases h with
    | inlined d => simp [Hop.plainLayers]
    | column d =>
      simp only [Hop.plainLayers]
      split_ifs <;> simp
  rw [← mem_plain_iff rfl, plain_inside, List.mem_append, or_iff_right hplain, mem_plain_iff rfl]

variable {before : String}

private theorem id_of_leafColumn? {d : Declaration} {c' : Column}
    (hcontext : s.parentContext = before ++ s'.parentContext)
    (hrole : Layer.ignoreRoleName ∈ s.layers ↔ Layer.ignoreRoleName ∈ s'.layers)
    (hc : leafColumn? d s = some c) (hc' : leafColumn? d s' = some c') : c.id = before ++ c'.id := by
  have hname (role base : String) : (s.columnNamer role base).columnId =
      before ++ (s'.columnNamer role base).columnId := by
    simp only [columnNamer, hcontext, hrole, String.append_assoc]
  have hsuffixed (role base suffix : String) :
      ((s.columnNamer role base).withSuffix suffix).columnId =
        before ++ ((s'.columnNamer role base).withSuffix suffix).columnId := by
    simp only [ColumnNaming.withSuffix]
    split_ifs
    · exact hname role base
    · simp only [hname, String.append_assoc]
  unfold leafColumn? at hc hc'
  cases hrule : d.property.kind.columnRule with
  | scalar =>
    simp only [hrule, Option.map_eq_some_iff] at hc hc'
    obtain ⟨type, -, rfl⟩ := hc
    obtain ⟨type', -, rfl⟩ := hc'
    simp only [id_leafColumn, hname]
  | descriptor | enumeration =>
    simp only [hrule, Option.some.injEq] at hc hc'
    simp only [← hc, ← hc', id_leafColumn, hsuffixed]
  | schoolYear =>
    simp only [hrule, Option.some.injEq] at hc hc'
    simp only [← hc, ← hc', id_leafColumn, hname]
  | composite | reference => simp [hrule] at hc

/-- If one strategy differs from another by prefixes further out, then so do the names of the
columns. -/
theorem id_of_columnOf? {c' : Column} (hcontext : s.parentContext = before ++ s'.parentContext)
    (hrole : Layer.ignoreRoleName ∈ s.layers ↔ Layer.ignoreRoleName ∈ s'.layers)
    (hc : s.columnOf? ch = some c) (hc' : s'.columnOf? ch = some c') : c.id = before ++ c'.id := by
  induction ch generalizing s s' c c' with
  | nil => simp [columnOf?] at hc
  | cons h rest ih =>
    cases rest with
    | nil =>
      obtain ⟨d, rfl, hleaf⟩ := exists_of_columnOf?_singleton hc
      exact id_of_leafColumn? hcontext hrole hleaf hc'
    | cons k rest =>
      rw [columnOf?_cons_cons, Option.map_eq_some_iff] at hc hc'
      obtain ⟨b, hb, rfl⟩ := hc
      obtain ⟨b', hb', rfl⟩ := hc'
      change b.id = before ++ b'.id
      refine ih ?_ ?_ hb hb'
      · rw [parentContext_inside, parentContext_inside, hcontext, String.append_assoc]
      · rw [ignoreRoleName_mem_inside_iff, ignoreRoleName_mem_inside_iff, hrole]

end Strategy

end Tabular
