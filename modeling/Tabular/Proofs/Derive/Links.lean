import Mathlib.Tactic.Common
import Tabular.Proofs.Derive.Building
import Tabular.Proofs.Schema.Frame

/-!
# Links between the tables of a set

Building adds tables at the end of a set and lets each of them hang off a table that is there
already: one of the set at an earlier position, which is kept, or one of the schema. The tables
themselves are made from empty ones by a few kinds of changes.

## Main definitions

* `TableSet.Grown`: what building may add to a set.
* `TableContext.Preserves`: a property of tables that building does not break.
* `TableSet.WellLinked`: every link leads to an earlier kept table or to a stored one.

## Main results

* `TableContext.Built.grown`: building adds nothing else.
* `TableSet.Grown.wellLinked`: what has grown from a set without links is well linked.
* `TableContext.Built.forall_tables`: properties that building does not break.
* `TableContext.wellLinked_of_mainTable`, `TableContext.wellLinked_of_extensionTable`: the tables of
  an entity are well linked.
-/

namespace Tabular

namespace TableSet

variable (set : TableSet)

/-! ### Positions, links and discarded positions after a change -/

@[simp] theorem next_push (t : Table) : (set.push t).next = set.next + 1 := by
  simp [next, push]

@[simp] theorem links_push (t : Table) : (set.push t).links = set.links :=
  rfl

@[simp] theorem discarded_push (t : Table) : (set.push t).discarded = set.discarded :=
  rfl

@[simp] theorem next_modify (i : Nat) (f : Table → Table) : (set.modify i f).next = set.next := by
  simp [next, modify]

@[simp] theorem links_modify (i : Nat) (f : Table → Table) : (set.modify i f).links = set.links :=
  rfl

@[simp] theorem discarded_modify (i : Nat) (f : Table → Table) :
    (set.modify i f).discarded = set.discarded :=
  rfl

@[simp] theorem next_link (i : Nat) (target : LinkTarget) (r : ForeignKeyReason) :
    (set.link i target r).next = set.next :=
  rfl

@[simp] theorem discarded_link (i : Nat) (target : LinkTarget) (r : ForeignKeyReason) :
    (set.link i target r).discarded = set.discarded :=
  rfl

@[simp] theorem next_discard (i : Nat) : (set.discard i).next = set.next :=
  rfl

theorem mem_discarded_discard {i j : Nat} :
    j ∈ (set.discard i).discarded ↔ j = i ∨ j ∈ set.discarded := by
  unfold discard
  split_ifs with h
  · constructor
    · exact Or.inr
    · rintro (rfl | hj)
      · exact h
      · exact hj
  · simp

variable {set}

theorem mem_tables_push {t u : Table} (h : u ∈ (set.push t).tables) :
    u ∈ set.tables ∨ ∃ e, u = { t with parentEntity := e } := by
  rcases List.mem_append.mp h with h | h
  · exact Or.inl h
  · exact Or.inr ⟨_, List.mem_singleton.mp h⟩

theorem mem_tables_modify {i : Nat} {f : Table → Table} {u : Table}
    (h : u ∈ (set.modify i f).tables) : u ∈ set.tables ∨ ∃ t ∈ set.tables, u = f t := by
  obtain ⟨j, hj, rfl⟩ := List.mem_iff_getElem.mp h
  simp only [modify, List.length_modify] at hj
  simp only [modify, List.getElem_modify]
  split_ifs
  · exact Or.inr ⟨_, List.getElem_mem _, rfl⟩
  · exact Or.inl (List.getElem_mem _)

theorem forall_tables_push {P : Table → Prop} {t : Table} (hset : ∀ u ∈ set.tables, P u)
    (ht : ∀ e, P { t with parentEntity := e }) : ∀ u ∈ (set.push t).tables, P u := by
  intro u hu
  rcases mem_tables_push hu with hu | ⟨e, rfl⟩
  · exact hset u hu
  · exact ht e

theorem forall_tables_modify {P : Table → Prop} {i : Nat} {f : Table → Table}
    (hset : ∀ u ∈ set.tables, P u) (hf : ∀ t, P t → P (f t)) :
    ∀ u ∈ (set.modify i f).tables, P u := by
  intro u hu
  rcases mem_tables_modify hu with hu | ⟨t, ht, rfl⟩
  · exact hset u hu
  · exact hf t (hset t ht)

/-! ### Tables at positions after a change -/

theorem lt_next_of_get? {i : Nat} {t : Table} (h : set.get? i = some t) : i < set.next :=
  (List.getElem?_eq_some_iff.mp h).1

theorem get?_push {i : Nat} {t u : Table} (h : set.get? i = some t) : (set.push u).get? i = some t := by
  rw [get?, push, List.getElem?_append_left (lt_next_of_get? h)]
  exact h

theorem get?_push_next (set : TableSet) (u : Table) :
    ∃ e, (set.push u).get? set.next = some { u with parentEntity := e } := by
  simp [get?, push, next]

theorem get?_modify_of_ne {i j : Nat} (f : Table → Table) (hne : i ≠ j) :
    (set.modify j f).get? i = set.get? i := by
  simp [get?, modify, Ne.symm hne]

theorem get?_modify_self {i : Nat} {t : Table} (f : Table → Table) (h : set.get? i = some t) :
    (set.modify i f).get? i = some (f t) := by
  rw [get?] at h
  simp [get?, modify, h]

/-! ### Growth -/

/-- What building may add to a set inside a scope whose further tables hang off `parent`: tables,
links from them to `parent`, to earlier new tables that are kept, or to stored tables, and new
positions that are not kept. -/
structure Grown (stored : Schema) (parent : LinkTarget) (set next : TableSet) : Prop where
  next_le : set.next ≤ next.next
  link : ∀ l ∈ next.links, l ∈ set.links ∨ set.next ≤ l.child ∧ l.child < next.next ∧
    (l.target = parent ∨
      (∃ j, l.target = .inSet j ∧ set.next ≤ j ∧ j < l.child ∧ j ∉ next.discarded) ∨
      ∃ key, l.target = .stored key ∧ (stored.get? key).isSome)
  discarded : ∀ i ∈ next.discarded, i ∈ set.discarded ∨ set.next ≤ i ∧ i < next.next

variable {stored : Schema} {parent : LinkTarget} {mid next : TableSet}

theorem Grown.refl (stored : Schema) (parent : LinkTarget) (set : TableSet) :
    Grown stored parent set set where
  next_le := Nat.le_refl _
  link _ hl := Or.inl hl
  discarded _ hi := Or.inl hi

/-- A change of a table in place adds nothing. -/
theorem Grown.modify (h : Grown stored parent set next) (i : Nat) (f : Table → Table) :
    Grown stored parent set (next.modify i f) where
  next_le := by simpa using h.next_le
  link := by simpa using h.link
  discarded := by simpa using h.discarded

theorem Grown.trans (h : Grown stored parent set mid) (h' : Grown stored parent mid next) :
    Grown stored parent set next where
  next_le := Nat.le_trans h.next_le h'.next_le
  link l hl := by
    have hle := h.next_le
    have hle' := h'.next_le
    rcases h'.link l hl with hl | ⟨hchild, hlt, htarget⟩
    · rcases h.link l hl with hl | ⟨hchild, hlt, htarget⟩
      · exact Or.inl hl
      · refine Or.inr ⟨hchild, by omega, ?_⟩
        rcases htarget with htarget | ⟨j, hj, hlow, hhigh, hkept⟩ | htarget
        · exact Or.inl htarget
        · refine Or.inr (Or.inl ⟨j, hj, hlow, hhigh, fun hdiscarded => ?_⟩)
          -- positions discarded later are beyond those of the first part
          rcases h'.discarded j hdiscarded with hdiscarded | hdiscarded
          · exact hkept hdiscarded
          · omega
        · exact Or.inr (Or.inr htarget)
    · refine Or.inr ⟨by omega, hlt, ?_⟩
      rcases htarget with htarget | ⟨j, hj, hlow, hhigh, hkept⟩ | htarget
      · exact Or.inl htarget
      · exact Or.inr (Or.inl ⟨j, hj, by omega, hhigh, hkept⟩)
      · exact Or.inr (Or.inr htarget)
  discarded i hi := by
    have hle := h.next_le
    have hle' := h'.next_le
    rcases h'.discarded i hi with hi | hi
    · rcases h.discarded i hi with hi | hi
      · exact Or.inl hi
      · exact Or.inr ⟨hi.1, by omega⟩
    · exact Or.inr ⟨by omega, hi.2⟩

/-- A new table that hangs off the parent. -/
theorem Grown.push_link (stored : Schema) (parent : LinkTarget) (set : TableSet) (t : Table)
    (r : ForeignKeyReason) : Grown stored parent set ((set.push t).link set.next parent r) where
  next_le := by simp
  link l hl := by
    rcases List.mem_append.mp hl with hl | hl
    · exact Or.inl hl
    · rw [List.mem_singleton.mp hl]
      exact Or.inr ⟨Nat.le_refl _, by simp, Or.inl rfl⟩
  discarded i hi := Or.inl hi

/-- A new table that hangs off the parent, after the tables that hang off the new one. -/
theorem Grown.of_common {t : Table} {r : ForeignKeyReason}
    (hset : ∀ i ∈ set.discarded, i < set.next)
    (h : Grown stored (.inSet set.next) (set.push t) mid) :
    Grown stored parent set (mid.link set.next parent r) := by
  have hle : set.next + 1 ≤ mid.next := by simpa using h.next_le
  refine ⟨by rw [next_link]; omega, fun l hl => ?_, fun i hi => ?_⟩
  · rcases List.mem_append.mp hl with hl | hl
    · rcases h.link l hl with hl | ⟨hchild, hlt, htarget⟩
      · exact Or.inl hl
      · simp only [next_push] at hchild
        refine Or.inr ⟨by omega, hlt, Or.inr ?_⟩
        rcases htarget with htarget | ⟨j, hj, hlow, hhigh, hkept⟩ | htarget
        · refine Or.inl ⟨set.next, htarget, Nat.le_refl _, by omega, fun hdiscarded => ?_⟩
          rcases h.discarded _ hdiscarded with hdiscarded | hdiscarded
          · exact Nat.lt_irrefl _ (hset _ hdiscarded)
          · simp only [next_push] at hdiscarded
            omega
        · simp only [next_push] at hlow
          exact Or.inl ⟨j, hj, by omega, hhigh, hkept⟩
        · exact Or.inr htarget
    · rw [List.mem_singleton.mp hl]
      exact Or.inr ⟨Nat.le_refl _, hle, Or.inl rfl⟩
  · rcases h.discarded i hi with hi | hi
    · exact Or.inl hi
    · simp only [next_push] at hi
      exact Or.inr ⟨by omega, hi.2⟩

/-- A new table that adds columns to a stored one, after the tables that hang off the latter: it
hangs off the stored table or is not kept. -/
theorem Grown.linkOrDiscard {t : Table} {key : TableKey} {r : ForeignKeyReason}
    (hkey : (stored.get? key).isSome) (h : Grown stored (.stored key) (set.push t) mid) :
    Grown stored parent set (TableContext.linkOrDiscard set.next key r mid) := by
  have hle : set.next + 1 ≤ mid.next := by simpa using h.next_le
  -- the links from before, none of which starts or ends at the new position
  have hlink : ∀ l ∈ mid.links, l ∈ set.links ∨ set.next ≤ l.child ∧ l.child < mid.next ∧
      ((∃ j, l.target = .inSet j ∧ set.next ≤ j ∧ j < l.child ∧ j ≠ set.next ∧
        j ∉ mid.discarded) ∨ ∃ key, l.target = .stored key ∧ (stored.get? key).isSome) := by
    intro l hl
    rcases h.link l hl with hl | ⟨hchild, hlt, htarget⟩
    · exact Or.inl hl
    · simp only [next_push] at hchild
      refine Or.inr ⟨by omega, hlt, ?_⟩
      rcases htarget with htarget | ⟨j, hj, hlow, hhigh, hkept⟩ | htarget
      · exact Or.inr ⟨key, htarget, hkey⟩
      · simp only [next_push] at hlow
        exact Or.inl ⟨j, hj, by omega, hhigh, by omega, hkept⟩
      · exact Or.inr htarget
  have hdiscarded : ∀ i ∈ mid.discarded, i ∈ set.discarded ∨ set.next ≤ i ∧ i < mid.next := by
    intro i hi
    rcases h.discarded i hi with hi | hi
    · exact Or.inl hi
    · simp only [next_push] at hi
      exact Or.inr ⟨by omega, hi.2⟩
  unfold TableContext.linkOrDiscard
  split_ifs
  · refine ⟨by rw [next_link]; omega, fun l hl => ?_, hdiscarded⟩
    rcases List.mem_append.mp hl with hl | hl
    · rcases hlink l hl with hl | ⟨hchild, hlt, htarget⟩
      · exact Or.inl hl
      · refine Or.inr ⟨hchild, hlt, Or.inr ?_⟩
        rcases htarget with ⟨j, hj, hlow, hhigh, -, hkept⟩ | htarget
        · exact Or.inl ⟨j, hj, hlow, hhigh, hkept⟩
        · exact Or.inr htarget
    · rw [List.mem_singleton.mp hl]
      exact Or.inr ⟨Nat.le_refl _, hle, Or.inr (Or.inr ⟨key, rfl, hkey⟩)⟩
  · refine ⟨by rw [next_discard]; omega, fun l hl => ?_, fun i hi => ?_⟩
    · rcases hlink l (List.mem_filter.mp hl).1 with hl | ⟨hchild, hlt, htarget⟩
      · exact Or.inl hl
      · refine Or.inr ⟨hchild, hlt, Or.inr ?_⟩
        rcases htarget with ⟨j, hj, hlow, hhigh, hne, hkept⟩ | htarget
        · refine Or.inl ⟨j, hj, hlow, hhigh, fun hmem => ?_⟩
          rcases (mem_discarded_discard mid).mp hmem with hmem | hmem
          · exact hne hmem
          · exact hkept hmem
        · exact Or.inr htarget
    · rcases (mem_discarded_discard mid).mp hi with rfl | hi
      · exact Or.inr ⟨Nat.le_refl _, by rw [next_discard]; omega⟩
      · exact hdiscarded i hi

end TableSet

namespace TableContext

variable {ctx : TableContext} {ds : List Declaration} {scope : Scope} {s : Strategy}
  {set next : TableSet}

/-- Building adds to a set nothing but what `TableSet.Grown` allows. -/
theorem Built.grown (h : ctx.Built ds scope s set next) (hset : ∀ i ∈ set.discarded, i < set.next) :
    set.Grown ctx.stored scope.parentLink next := by
  induction h with
  | nil => exact .refl _ _ _
  | cons _ _ ihhead ihtail =>
    have hhead := ihhead hset
    refine hhead.trans (ihtail fun i hi => ?_)
    have hle := hhead.next_le
    rcases hhead.discarded i hi with hi | hi
    · exact Nat.lt_of_lt_of_le (hset i hi) hle
    · exact hi.2
  | column => exact (TableSet.Grown.refl _ _ _).modify _ _
  | lookup => exact ((TableSet.Grown.refl _ _ _).modify _ _).modify _ _
  | lookupSkipped => exact .refl _ _ _
  | collection => exact .push_link _ _ _ _ _
  | reference => exact ((TableSet.Grown.refl _ _ _).modify _ _).modify _ _
  | referenceSkipped => exact .refl _ _ _
  | referenceCollection => exact .push_link _ _ _ _ _
  | @common d scope s set mid common commonKeys hrule hreferenced hkeys _ ih =>
    have hmid := ih fun i hi => by simpa using Nat.lt_succ_of_lt (hset i hi)
    have hclosed : (set.push (ctx.commonJoin d common scope s)).Grown ctx.stored
        (.inSet set.next) (ctx.commonClosed scope set.next mid) := by
      unfold commonClosed
      split_ifs
      · exact hmid
      · exact hmid.modify _ _
    exact .of_common hset hclosed
  | @commonExtension d scope s set mid extension parent hrule hreferenced hstored _ ih =>
    refine .linkOrDiscard (by rw [hstored]; rfl) (ih fun i hi => ?_)
    simpa using Nat.lt_succ_of_lt (hset i hi)
  | choice _ _ _ ih => exact ih hset
  | inlineCommon _ _ _ ih => exact ih hset

/-- The table that building starts from is kept. -/
theorem Built.zero_notMem_discarded {id : EntityId} {start : Table}
    (h : ctx.Built ds scope s ((TableSet.empty id).push start) next) : 0 ∉ next.discarded := by
  intro hmem
  rcases (h.grown (by simp [TableSet.empty])).discarded 0 hmem with hmem | hmem
  · simp [TableSet.empty] at hmem
  · simp at hmem

end TableContext

/-! ### Well linked sets -/

namespace TableSet

/-- Every link starts at a table of the set and leads to an earlier one that is kept, or to a stored
table. -/
structure WellLinked (stored : Schema) (set : TableSet) : Prop where
  inSet : ∀ l ∈ set.links, ∀ j, l.target = .inSet j →
    j < l.child ∧ l.child < set.next ∧ j ∉ set.discarded
  stored : ∀ l ∈ set.links, ∀ key, l.target = .stored key → (stored.get? key).isSome

variable {stored : Schema} {parent : LinkTarget} {set next : TableSet}

theorem WellLinked.of_links_eq_nil (h : set.links = []) : set.WellLinked stored :=
  ⟨by simp [h], by simp [h]⟩

/-- A set that has grown from one without links is well linked. -/
theorem Grown.wellLinked (h : Grown stored parent set next) (hlinks : set.links = [])
    (hdiscarded : set.discarded = [])
    (hparent : (∃ j, parent = .inSet j ∧ j < set.next) ∨
      ∃ key, parent = .stored key ∧ (stored.get? key).isSome) : next.WellLinked stored := by
  have hnew : ∀ l ∈ next.links, set.next ≤ l.child ∧ l.child < next.next ∧ (l.target = parent ∨
      (∃ j, l.target = .inSet j ∧ set.next ≤ j ∧ j < l.child ∧ j ∉ next.discarded) ∨
      ∃ key, l.target = .stored key ∧ (stored.get? key).isSome) := by
    intro l hl
    rcases h.link l hl with hl | hl
    · simp [hlinks] at hl
    · exact hl
  refine ⟨fun l hl j hj => ?_, fun l hl key hkey => ?_⟩
  · obtain ⟨hchild, hlt, htarget⟩ := hnew l hl
    rcases htarget with htarget | ⟨i, hi, -, hhigh, hkept⟩ | ⟨key, hkey, -⟩
    · rcases hparent with ⟨i, hparent, hi⟩ | ⟨key, hparent, -⟩
      · rw [hj, hparent, LinkTarget.inSet.injEq] at htarget
        subst htarget
        refine ⟨by omega, hlt, fun hmem => ?_⟩
        rcases h.discarded j hmem with hmem | hmem
        · simp [hdiscarded] at hmem
        · omega
      · simp [hj, hparent] at htarget
    · rw [hj, LinkTarget.inSet.injEq] at hi
      exact hi ▸ ⟨hhigh, hlt, hkept⟩
    · simp [hj] at hkey
  · obtain ⟨-, -, htarget⟩ := hnew l hl
    rcases htarget with htarget | ⟨i, hi, -⟩ | ⟨k, hk, hsome⟩
    · rcases hparent with ⟨i, hparent, -⟩ | ⟨k, hparent, hsome⟩
      · simp [hkey, hparent] at htarget
      · rw [hkey, hparent, LinkTarget.stored.injEq] at htarget
        exact htarget ▸ hsome
    · simp [hkey] at hi
    · rw [hkey, LinkTarget.stored.injEq] at hk
      exact hk ▸ hsome

end TableSet

namespace TableContext

variable {ctx : TableContext} {ds : List Declaration} {scope : Scope} {s : Strategy}
  {set next : TableSet}

/-- Discarding and linking leave the tables alone. -/
@[simp] theorem tables_linkOrDiscard (i : Nat) (key : TableKey) (r : ForeignKeyReason)
    (set : TableSet) : (linkOrDiscard i key r set).tables = set.tables := by
  unfold linkOrDiscard
  split_ifs <;> rfl

/-- The links of a set after a table that adds columns hangs off a stored one or is not kept. -/
theorem mem_links_linkOrDiscard {index : Nat} {key : TableKey} {r : ForeignKeyReason}
    {l : ParentLink} (h : l ∈ (linkOrDiscard index key r set).links) :
    l ∈ set.links ∨ l = ⟨index, .stored key, r⟩ := by
  unfold linkOrDiscard at h
  split_ifs at h
  · exact (List.mem_append.mp h).imp_right List.mem_singleton.mp
  · exact Or.inl (List.mem_filter.mp h).1

/-! ### Properties of tables -/

/-- A property of tables that empty tables have and that no change made by building breaks. -/
structure Preserves (ctx : TableContext) (P : Table → Prop) : Prop where
  fresh : ∀ t : Table, t.columns = [] → t.foreignKeys = [] → t.referenceSources = [] →
    t.parentKeyColumnIds = [] → P t
  columns : ∀ t cs, P t → P (t.addColumns ctx.version cs)
  parentKeys : ∀ t cs, P t → P (t.addParentKeys ctx.version cs)
  lookup : ∀ t (target : LookupTarget) column property,
    P t → P (t.addForeignKey (target.foreignKey t.tableId column property))
  source : ∀ t r, P t → P (t.addReferenceSource r)
  owner : ∀ t e, P t → P { t with parentEntity := e }

namespace Preserves

variable {P : Table → Prop}

private theorem joinTable (hP : ctx.Preserves P) (p : Property) (r : TableReason) :
    P (TableContext.joinTable scope s p r) :=
  hP.fresh _ rfl rfl rfl rfl

private theorem collectionJoin (hP : ctx.Preserves P) (d : Declaration)
    (lookup : Option LookupTarget) (columns : List Column) :
    P (ctx.collectionJoin d scope s lookup columns) := by
  unfold TableContext.collectionJoin
  have hjoin : P ((TableContext.joinTable scope s d.property .collection).addParentKeys
      ctx.version scope.primaryKeys) :=
    hP.parentKeys _ _ (hP.joinTable _ _)
  apply hP.columns
  cases lookup with
  | none => exact hjoin
  | some target =>
    cases columns with
    | nil => exact hjoin
    | cons c rest => exact hP.lookup _ _ _ _ hjoin

private theorem referenceJoin (hP : ctx.Preserves P) (d : Declaration) (referenced : Entity)
    (keys : List Column) : P (ctx.referenceJoin d referenced scope s keys) :=
  hP.source _ _ (hP.columns _ _ (hP.parentKeys _ _ (hP.joinTable _ _)))

private theorem commonJoin (hP : ctx.Preserves P) (d : Declaration) (common : Entity) :
    P (ctx.commonJoin d common scope s) := by
  have hjoin : P (if (TableContext.joinTable scope s d.property .common).description = "" then
      { TableContext.joinTable scope s d.property .common with
        description := common.documentation }
      else TableContext.joinTable scope s d.property .common) := by
    split_ifs <;> exact hP.fresh _ rfl rfl rfl rfl
  simp only [TableContext.commonJoin]
  split_ifs at hjoin ⊢
  all_goals first | exact hjoin | exact hP.parentKeys _ _ hjoin

/-- A table that adds columns to a stored one starts from an empty one. -/
theorem suffixedTable (hP : ctx.Preserves P) (e : Entity) (parent : Table) (r : TableReason) :
    P (ctx.suffixedTable e parent r) :=
  hP.parentKeys _ _ (hP.fresh _ rfl rfl rfl rfl)

theorem push (hP : ctx.Preserves P) {t : Table} (hset : ∀ u ∈ set.tables, P u) (ht : P t) :
    ∀ u ∈ (set.push t).tables, P u :=
  TableSet.forall_tables_push hset fun e => hP.owner t e ht

end Preserves

/-- What no change made by building breaks holds of all tables if it holds at the start. -/
theorem Built.forall_tables {P : Table → Prop} (hP : ctx.Preserves P) (h : ctx.Built ds scope s set next)
    (hset : ∀ t ∈ set.tables, P t) : ∀ t ∈ next.tables, P t := by
  induction h with
  | nil => exact hset
  | cons _ _ ihhead ihtail => exact ihtail (ihhead hset)
  | column => exact TableSet.forall_tables_modify hset fun t ht => hP.columns t _ ht
  | lookup =>
    exact TableSet.forall_tables_modify (TableSet.forall_tables_modify hset fun t ht => hP.columns t _ ht)
      fun t ht => hP.lookup t _ _ _ ht
  | lookupSkipped => exact hset
  | collection => exact hP.push hset (hP.collectionJoin _ _ _)
  | reference =>
    exact TableSet.forall_tables_modify (TableSet.forall_tables_modify hset fun t ht => hP.columns t _ ht)
      fun t ht => hP.source t _ ht
  | referenceSkipped => exact hset
  | referenceCollection => exact hP.push hset (hP.referenceJoin _ _ _)
  | common _ _ _ _ ih =>
    have hmid := ih (hP.push hset (hP.commonJoin _ _))
    unfold commonClosed
    split_ifs
    · exact hmid
    · exact TableSet.forall_tables_modify hmid fun t ht => hP.parentKeys t _ ht
  | commonExtension _ _ _ _ ih =>
    have hmid := ih (hP.push hset (hP.suffixedTable _ _ _))
    rw [tables_linkOrDiscard]
    exact hmid
  | choice _ _ _ ih => exact ih hset
  | inlineCommon _ _ _ ih => exact ih hset

/-! ### The tables of an entity -/

/-- The tables of a domain entity or association hang off its main table or off stored ones. -/
theorem wellLinked_of_mainTable {e : Entity} {reason : TableReason}
    (h : ctx.mainTable e reason = .ok set) : set.WellLinked ctx.stored := by
  obtain ⟨keys, inherited, -, -, hbuilt⟩ := built_of_mainTable h
  have hgrown := hbuilt.grown (by simp [TableSet.empty])
  exact hgrown.wellLinked rfl rfl (Or.inl ⟨0, rfl, by simp⟩)

/-- The tables of an extension hang off the table that it adds columns to. -/
theorem wellLinked_of_extensionTable {e : Entity} (h : ctx.extensionTable e = .ok set) :
    set.WellLinked ctx.stored := by
  obtain ⟨base, key, parent, mid, -, -, hget, hbuilt, rfl⟩ := built_of_extensionTable h
  have hsome : (ctx.stored.get? key).isSome := by simp [hget]
  have hgrown := hbuilt.grown (by simp [TableSet.empty])
  have hgrown' : (TableSet.empty e.id).Grown ctx.stored (.stored key)
      (linkOrDiscard 0 key .extension mid) := hgrown.linkOrDiscard hsome
  exact hgrown'.wellLinked rfl rfl (Or.inr ⟨key, rfl, hsome⟩)

end TableContext

end Tabular
