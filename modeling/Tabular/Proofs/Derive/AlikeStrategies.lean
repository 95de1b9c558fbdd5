import Mathlib.Data.Option.NAry
import Mathlib.Tactic.Common
import Tabular.Proofs.Derive.MergeFree
import Tabular.Proofs.Derive.Plans

/-!
# Strategies that are alike

A property further out that has no prefix is a context without effect: it shows neither in names nor
in flags. Strategies that differ by such contexts only give the same columns and tables, provided
that they skip no paths.

Derivations with different bounds are compared by what they find, so that running out of steps does
not count.

## Main definitions

* `FoundIn`, `IsComparison`: whatever one computation finds, another one finds as well; comparisons
  of sums by their parts.
* `Strategy.shown`, `Strategy.Alike`: the layers that show in names and flags, and strategies in
  which the same layers show.

## Main results

* `gather_append`, `gather_filter`, `map₂_gather`: sums along parts of a list.
* `Strategy.Alike.append_left`: a property without a prefix leaves no trace.
* `Strategy.Alike.columnNamer_eq`, `Strategy.Alike.suppressesKeys_eq`,
  `Strategy.Alike.leafColumns_eq`, `Strategy.Alike.joinNaming_eq`: strategies that are alike give
  the same names and flags.
-/

namespace Tabular

/-! ### Computations that find as much -/

/-- Whatever the first computation finds, the second finds as well. -/
def FoundIn {α : Type} (x y : Option α) : Prop :=
  ∀ a, x = some a → y = some a

namespace FoundIn

variable {α β : Type} {x y z : Option α}

theorem refl (x : Option α) : FoundIn x x :=
  fun _ h => h

theorem trans (h : FoundIn x y) (h' : FoundIn y z) : FoundIn x z :=
  fun a ha => h' a (h a ha)

theorem of_eq (h : x = y) : FoundIn x y :=
  h ▸ refl x

theorem of_none (y : Option α) : FoundIn none y :=
  fun _ h => by simp at h

theorem antisymm (h : FoundIn x y) (h' : FoundIn y x) : x = y := by
  cases x with
  | some a => exact (h a rfl).symm
  | none =>
    cases y with
    | none => rfl
    | some b => exact h' b rfl

theorem map (f : α → β) (h : FoundIn x y) : FoundIn (x.map f) (y.map f) := by
  intro b hb
  obtain ⟨a, ha, rfl⟩ := Option.map_eq_some_iff.mp hb
  rw [h a ha, Option.map_some]

theorem bind {f g : α → Option β} (h : FoundIn x y) (hfg : ∀ a, FoundIn (f a) (g a)) :
    FoundIn (x.bind f) (y.bind g) := by
  intro b hb
  obtain ⟨a, ha, hab⟩ := Option.bind_eq_some_iff.mp hb
  rw [h a ha, Option.bind_some]
  exact hfg a b hab

theorem bind_rel {γ : Type} {R : α → β → Prop} {y : Option β} {f : α → Option γ}
    {g : β → Option γ} (h : Option.Rel R x y) (hfg : ∀ a b, R a b → FoundIn (f a) (g b)) :
    FoundIn (x.bind f) (y.bind g) := by
  cases h with
  | none => exact of_none _
  | some hab => exact hfg _ _ hab

theorem map₂ {f : α → α → α} {x' y' : Option α} (h : FoundIn x y) (h' : FoundIn x' y') :
    FoundIn (Option.map₂ f x x') (Option.map₂ f y y') :=
  h.bind fun _ => h'.map _

end FoundIn

section Gather

variable {α M : Type} [AddCommMonoid M] {f g : α → Option M}

/-- A way to compare sums that may fail by comparing their parts. -/
structure IsComparison (S : Option M → Option M → Prop) : Prop where
  refl : ∀ x, S x x
  trans : ∀ {x y z}, S x y → S y z → S x z
  add : ∀ {x y x' y'}, S x y → S x' y' → S (Option.map₂ (· + ·) x x') (Option.map₂ (· + ·) y y')

theorem FoundIn.isComparison : IsComparison (FoundIn (α := M)) :=
  ⟨FoundIn.refl, FoundIn.trans, FoundIn.map₂⟩

theorem FoundIn.isComparison_flip : IsComparison (flip (FoundIn (α := M))) :=
  ⟨FoundIn.refl, fun h h' => FoundIn.trans h' h, fun h h' => FoundIn.map₂ h h'⟩

theorem gather_cons (f : α → Option M) (a : α) (rest : List α) :
    gather f (a :: rest) = Option.map₂ (· + ·) (f a) (gather f rest) :=
  rfl

theorem gather_append (f : α → Option M) (xs ys : List α) :
    gather f (xs ++ ys) = Option.map₂ (· + ·) (gather f xs) (gather f ys) := by
  induction xs with
  | nil =>
    cases h : gather f ys with
    | none => simp [gather, h]
    | some y => simp [gather, h]
  | cons a rest ih =>
    rw [List.cons_append, gather_cons, ih, gather_cons, Option.map₂_assoc add_assoc]

theorem gather_filter (f : α → Option M) (p : α → Bool) (xs : List α) :
    gather f (xs.filter p) = gather (fun a => if p a then f a else some 0) xs := by
  induction xs with
  | nil => rfl
  | cons a rest ih =>
    rw [gather_cons, ← ih, List.filter_cons]
    split_ifs
    · rfl
    · cases gather f (rest.filter p) <;> simp

/-- The sum of two sums over one list is the sum of the sums of its parts. -/
theorem map₂_gather (f g : α → Option M) (xs : List α) :
    Option.map₂ (· + ·) (gather f xs) (gather g xs) =
      gather (fun a => Option.map₂ (· + ·) (f a) (g a)) xs := by
  induction xs with
  | nil => simp [gather]
  | cons a rest ih =>
    rw [gather_cons, gather_cons, gather_cons, ← ih]
    cases f a <;> cases g a <;> cases gather f rest <;> cases gather g rest <;>
      simp [add_add_add_comm]

theorem IsComparison.gather {S : Option M → Option M → Prop} (hS : IsComparison S) {xs : List α}
    (h : ∀ a ∈ xs, S (f a) (g a)) : S (gather f xs) (gather g xs) := by
  induction xs with
  | nil => exact hS.refl _
  | cons a rest ih =>
    rw [List.forall_mem_cons] at h
    exact hS.add h.1 (ih h.2)

end Gather

/-! ### Strategies that give the same names and flags -/

namespace Strategy

/-- The layers that show in names and flags, that is, all but skip layers and contexts without a
prefix. -/
def shown (s : Strategy) : List Layer :=
  s.plain.filter fun l => l.context?.all fun parent => parent.contextPrefix ≠ ""

/-- The strategies skip no paths, and the same layers show in names and flags. -/
structure Alike (s s' : Strategy) : Prop where
  shown : s.shown = s'.shown
  left : s.skips = []
  right : s'.skips = []

variable {s s' : Strategy}

theorem shown_append (s : Strategy) (p : Property) : (s.append p).shown =
    (if p.contextPrefix = "" then [] else [.context (.of p)]) ++ s.shown := by
  rw [shown, plain_append, List.filter_cons]
  split_ifs <;> simp_all [shown, Layer.context?, ParentContext.of]

theorem shown_forNewTable (s : Strategy) : s.forNewTable.shown =
    s.shown.filter fun l => l ≠ .leafNullable && l ≠ .suppressKeys && l.context?.isNone := by
  simp only [shown, plain, forNewTable, undoLeafNullable, undoSuppressKeys, List.filter_filter]
  refine List.filter_congr fun l _ => ?_
  cases l <;> simp [Layer.skip?, Layer.context?]

theorem skips_eq_nil_iff : s.skips = [] ↔ ∀ l ∈ s.layers, l.skip? = none := by
  rw [skips, List.filterMap_eq_nil_iff]

theorem skips_forNewTable_of_eq_nil (h : s.skips = []) : s.forNewTable.skips = [] := by
  rw [skips_eq_nil_iff] at h ⊢
  intro l hl
  simp only [forNewTable, undoLeafNullable, undoSuppressKeys, List.mem_filter] at hl
  exact h l hl.1.1.1

theorem dropLeadingSkip_of_skips_eq_nil (h : s.skips = []) :
    dropLeadingSkip s.layers = s.layers := by
  rw [skips_eq_nil_iff] at h
  unfold dropLeadingSkip
  split
  · rename_i paths rest heq
    have hskip := h (.skip paths) (heq ▸ List.mem_cons_self)
    simp [Layer.skip?] at hskip
  · rfl

namespace Alike

theorem refl (h : s.skips = []) : s.Alike s :=
  ⟨rfl, h, h⟩

theorem symm (h : s.Alike s') : s'.Alike s :=
  ⟨h.shown.symm, h.right, h.left⟩

theorem append (h : s.Alike s') (p : Property) : (s.append p).Alike (s'.append p) where
  shown := by rw [shown_append, shown_append, h.shown]
  left := skips_append_of_eq_nil h.left p
  right := skips_append_of_eq_nil h.right p

/-- A property without a prefix leaves no trace. -/
theorem append_left (h : s.Alike s') {p : Property} (hp : p.contextPrefix = "") :
    (s.append p).Alike s' where
  shown := by rw [shown_append, if_pos hp, List.nil_append, h.shown]
  left := skips_append_of_eq_nil h.left p
  right := h.right

theorem suppressKeys (h : s.Alike s') : s.suppressKeys.Alike s'.suppressKeys :=
  ⟨congrArg (List.cons _) h.shown, h.left, h.right⟩

theorem leafNullable (h : s.Alike s') : s.leafNullable.Alike s'.leafNullable :=
  ⟨congrArg (List.cons _) h.shown, h.left, h.right⟩

theorem forNewTable (h : s.Alike s') : s.forNewTable.Alike s'.forNewTable where
  shown := by rw [shown_forNewTable, shown_forNewTable, h.shown]
  left := skips_forNewTable_of_eq_nil h.left
  right := skips_forNewTable_of_eq_nil h.right

theorem ignoreRoleName (h : s.Alike s') : s.ignoreRoleName.Alike s'.ignoreRoleName := by
  rw [Strategy.ignoreRoleName, Strategy.ignoreRoleName, dropLeadingSkip_of_skips_eq_nil h.left,
    dropLeadingSkip_of_skips_eq_nil h.right]
  exact ⟨congrArg (List.cons _) h.shown, h.left, h.right⟩

theorem compositeStrategy (h : s.Alike s') (p : Property) :
    (KeyDerivation.compositeStrategy p s).Alike (KeyDerivation.compositeStrategy p s') := by
  unfold KeyDerivation.compositeStrategy
  simp only
  split_ifs
  · exact (h.append p).suppressKeys
  · exact h.suppressKeys
  · exact h.append p
  · exact h

theorem commonStrategy (h : s.Alike s') (p : Property) :
    (TableContext.commonStrategy p s).Alike (TableContext.commonStrategy p s') := by
  unfold TableContext.commonStrategy
  split_ifs
  · exact h.forNewTable.suppressKeys
  · exact h.forNewTable

theorem inlineStrategy (h : s.Alike s') (p : Property) :
    (TableContext.inlineStrategy p s).Alike (TableContext.inlineStrategy p s') := by
  unfold TableContext.inlineStrategy
  split_ifs
  · exact (h.append p).leafNullable
  · exact h.append p

theorem merging (h : s.Alike s') {p : Property} (hp : p.mergeDirectives = []) :
    (s.merging p).Alike (s'.merging p) := by
  rw [s.merging_of_mergeFree hp, s'.merging_of_mergeFree hp]
  exact h

theorem mem_layers_iff (h : s.Alike s') {l : Layer} (hskip : l.skip? = none)
    (hcontext : l.context? = none) : l ∈ s.layers ↔ l ∈ s'.layers := by
  have hshown (s : Strategy) : l ∈ s.shown ↔ l ∈ s.layers := by
    rw [Strategy.shown, List.mem_filter, mem_plain_iff hskip, hcontext]
    simp
  rw [← hshown, h.shown, hshown]

theorem parentPrefixes_eq (h : s.Alike s') : s.parentPrefixes = s'.parentPrefixes := by
  have hfilter (layers : List Layer) :
      ((layers.filterMap Layer.context?).map ParentContext.contextPrefix).filter (fun p => p ≠ "") =
        ((layers.filter fun l => l.context?.all fun parent =>
          parent.contextPrefix ≠ "").filterMap Layer.context?).map
            ParentContext.contextPrefix := by
    induction layers with
    | nil => rfl
    | cons l rest ih =>
      cases l with
      | context parent =>
        by_cases hprefix : parent.contextPrefix = ""
        · simpa [List.filter_cons, Layer.context?, hprefix] using ih
        · simpa [List.filter_cons, Layer.context?, hprefix] using ih
      | ignoreRoleName | leafNullable | suppressKeys | skip => exact ih
  have hprefixes (s : Strategy) : s.parentPrefixes =
      ((s.shown.filterMap Layer.context?).map ParentContext.contextPrefix).reverse := by
    rw [parentPrefixes, parentContexts_eq, List.map_reverse, List.filter_reverse, hfilter]
    rfl
  rw [hprefixes, hprefixes, h.shown]

theorem parentContext_eq (h : s.Alike s') : s.parentContext = s'.parentContext := by
  have hconcat (names : List String) :
      Text.concat (names.filter fun name => name ≠ "") = Text.concat names := by
    induction names with
    | nil => rfl
    | cons name rest ih =>
      by_cases hname : name = ""
      · simpa [hname, Text.concat_cons] using ih
      · simpa [List.filter_cons, hname, Text.concat_cons] using ih
  have hcontext (s : Strategy) : s.parentContext = Text.concat s.parentPrefixes := by
    rw [parentContext, parentPrefixes, hconcat]
  rw [hcontext, hcontext, h.parentPrefixes_eq]

theorem columnNamer_eq (h : s.Alike s') (role base : String) :
    s.columnNamer role base = s'.columnNamer role base := by
  simp only [columnNamer, h.parentContext_eq, h.parentPrefixes_eq,
    h.mem_layers_iff (l := .ignoreRoleName) rfl rfl]

theorem suppressesKeys_eq (h : s.Alike s') : s.suppressesKeys = s'.suppressesKeys := by
  simp only [suppressesKeys, h.mem_layers_iff (l := .suppressKeys) rfl rfl]

theorem leafColumns_eq (h : s.Alike s') (transform : ColumnTransform) :
    s.leafColumns transform = s'.leafColumns transform := by
  simp only [leafColumns, h.mem_layers_iff (l := .leafNullable) rfl rfl]

theorem joinNaming_eq (h : s.Alike s') (site : Site) (p : Property) :
    site.joinNaming s p = site.joinNaming s' p := by
  simp only [Site.joinNaming, TableNaming.joinTable, h.parentContext_eq, h.parentPrefixes_eq]

end Alike

end Strategy

end Tabular
