import Mathlib.Tactic.Common
import Tabular.Lookup.Descriptor
import Tabular.Proofs.Derive.Links
import Tabular.Proofs.Reference.Sources
import Tabular.Proofs.Schema.Growth

/-!
# Headings of tables

The heading of a table is its namespace and its name, together with the parts of the name. A table
keeps the heading that it has been given at first. A main table is headed by its entity. The tables
of properties take their namespace from the table that they hang off and prefix their names by its
name, and extensions put tables into their own namespace under the name of the table that they add
columns to.

## Main definitions

* `Heading`, `Table.heading`, `Scope.heading`: headings.
* `TableNaming.IsSpelled`: a name is the concatenation of its parts.
* `Heading.IsRegular`: the namespace is one of the given ones, and the name is spelled by its parts.

## Main results

* `TableNaming.IsSpelled.joinTable`, `TableNaming.IsSpelled.suffixed`: the names of further tables.
* `TableContext.Built.isRegular`: building gives regular headings to tables.
-/

namespace Tabular

/-! ### Names and their parts -/

/-- The name is the concatenation of its parts. -/
def TableNaming.IsSpelled (n : TableNaming) : Prop :=
  n.tableId = Text.concat (n.nameGroup.map TableNameComponent.name)

theorem Text.concat_filter_ne_empty (xs : List String) :
    Text.concat (xs.filter fun x => x ≠ "") = Text.concat xs := by
  induction xs with
  | nil => rfl
  | cons x rest ih =>
    by_cases hx : x = ""
    · rw [List.filter_cons_of_neg (by simpa using hx), ih, hx]
      simp
    · rw [List.filter_cons_of_pos (by simpa using hx), concat_cons, concat_cons, ih]

/-- The prefixes of the properties further out, without empty ones. -/
theorem Strategy.concat_parentPrefixes (s : Strategy) :
    Text.concat s.parentPrefixes = s.parentContext :=
  Text.concat_filter_ne_empty _

/-- A text as the only part of a name, or no part if it is empty. -/
theorem Text.concat_singleton_of_ne_empty (x : String) :
    Text.concat (if x = "" then [] else [x]) = x := by
  by_cases hx : x = "" <;> simp [hx]

namespace TableNaming.IsSpelled

theorem own (name : String) : IsSpelled ⟨name, [.own name]⟩ := by
  simp [IsSpelled, TableNameComponent.own]

variable {parentId : String} {parentGroup : List TableNameComponent}

/-- The parts of the parent's name are parts of its child's name. -/
theorem concat_inherited (h : IsSpelled ⟨parentId, parentGroup⟩) :
    Text.concat ((inherited parentGroup).map TableNameComponent.name) = parentId := by
  rw [inherited, List.map_map]
  exact h.symm

theorem joinTable (h : IsSpelled ⟨parentId, parentGroup⟩) (s : Strategy) (p : Property) :
    (TableNaming.joinTable parentId parentGroup s p).IsSpelled := by
  have hprefixes : (s.parentPrefixes.map TableNameComponent.own).map TableNameComponent.name =
      s.parentPrefixes := by
    simp [Function.comp_def, TableNameComponent.own]
  have hrole : ((if p.contextPrefix = "" then [] else [TableNameComponent.own p.contextPrefix]).map
      TableNameComponent.name) = if p.contextPrefix = "" then [] else [p.contextPrefix] := by
    split_ifs <;> rfl
  simp only [IsSpelled, TableNaming.joinTable, List.map_append, Text.concat_append,
    concat_inherited h, hprefixes, s.concat_parentPrefixes, hrole,
    Text.concat_singleton_of_ne_empty, Property.tableName]
  simp [TableNameComponent.own, String.append_assoc]

theorem suffixed (h : IsSpelled ⟨parentId, parentGroup⟩) (suffix : String) :
    (TableNaming.suffixed parentId parentGroup suffix).IsSpelled := by
  simp only [IsSpelled, TableNaming.suffixed, List.map_append, Text.concat_append,
    concat_inherited h]
  simp [TableNameComponent.synthetic]

end TableNaming.IsSpelled

/-! ### Headings -/

/-- The namespace and the name of a table. -/
structure Heading where
  namespaceName : String
  naming : TableNaming
  deriving DecidableEq

/-- The heading of a table. -/
def Table.heading (t : Table) : Heading :=
  ⟨t.namespaceName, t.tableId, t.nameGroup⟩

/-- What the headings of further tables are made from. -/
def Scope.heading (scope : Scope) : Heading :=
  ⟨scope.namespaceName, scope.tableId, scope.nameGroup⟩

/-- The namespace is one of the given ones, and the name is spelled by its parts. -/
structure Heading.IsRegular (namespaces : List String) (h : Heading) : Prop where
  namespaceName : h.namespaceName ∈ namespaces
  naming : h.naming.IsSpelled

namespace Table

variable (v : Version) (t : Table)

@[simp] theorem heading_addColumns (cs : List Column) :
    (t.addColumns v cs).heading = t.heading := by
  rw [addColumns_eq]
  rfl

@[simp] theorem heading_addParentKeys (cs : List Column) :
    (t.addParentKeys v cs).heading = t.heading := by
  obtain ⟨ids, h⟩ := t.addParentKeys_eq v cs
  rw [h]
  rfl

@[simp] theorem heading_addForeignKey (k : ForeignKey) :
    (t.addForeignKey k).heading = t.heading := by
  unfold addForeignKey
  split_ifs <;> rfl

@[simp] theorem heading_addReferenceSource (r : ReferenceSource) :
    (t.addReferenceSource r).heading = t.heading := by
  unfold addReferenceSource
  split_ifs <;> rfl

@[simp] theorem heading_arranged : (TableSet.arranged v t).heading = t.heading := by
  unfold TableSet.arranged
  split_ifs <;> rfl

@[simp] theorem heading_withMapType (namespaceName mapTableId : String) :
    (withMapType v namespaceName mapTableId t).heading = t.heading := by
  simp only [withMapType, heading_addForeignKey, heading_arranged]
  rfl

end Table

namespace TableContext

variable {ctx : TableContext} {d : Declaration} {scope : Scope} {s : Strategy}

/-! ### The tables that properties add -/

@[simp] theorem heading_joinTable (p : Property) (r : TableReason) :
    (joinTable scope s p r).heading =
      ⟨scope.namespaceName, TableNaming.joinTable scope.tableId scope.nameGroup s p⟩ :=
  rfl

theorem heading_collectionJoin (lookup : Option LookupTarget) (columns : List Column) :
    (ctx.collectionJoin d scope s lookup columns).heading =
      (joinTable scope s d.property .collection).heading := by
  unfold collectionJoin
  split <;> simp

theorem heading_referenceJoin (referenced : Entity) (keys : List Column) :
    (ctx.referenceJoin d referenced scope s keys).heading =
      (joinTable scope s d.property .collection).heading := by
  simp [referenceJoin]

theorem heading_commonJoin (common : Entity) : (ctx.commonJoin d common scope s).heading =
    (joinTable scope s d.property .common).heading := by
  have hdescribed (t : Table) (text : String) :
      Table.heading { t with description := text } = t.heading := rfl
  simp only [commonJoin]
  split_ifs <;> simp only [Table.heading_addParentKeys, hdescribed]

theorem heading_suffixedTable (e : Entity) (parent : Table) (r : TableReason) :
    (ctx.suffixedTable e parent r).heading =
      ⟨e.namespaceName, TableNaming.suffixed parent.tableId parent.nameGroup "Extension"⟩ := by
  rw [suffixedTable, Table.heading_addParentKeys]
  rfl

/-! ### Building -/

variable {ds : List Declaration} {set next : TableSet} {namespaces : List String}

/-- The table of a property with several values. -/
theorem isRegular_joinTable (hscope : scope.heading.IsRegular namespaces) (p : Property)
    (r : TableReason) : (joinTable scope s p r).heading.IsRegular namespaces :=
  ⟨hscope.namespaceName, hscope.naming.joinTable s p⟩

theorem isRegular_suffixedTable {e : Entity} {parent : Table} (r : TableReason)
    (he : e.namespaceName ∈ namespaces) (hparent : parent.heading.IsRegular namespaces) :
    (ctx.suffixedTable e parent r).heading.IsRegular namespaces := by
  rw [heading_suffixedTable]
  exact ⟨he, hparent.naming.suffixed "Extension"⟩

theorem isRegular_push {t : Table} (hset : ∀ u ∈ set.tables, u.heading.IsRegular namespaces)
    (ht : t.heading.IsRegular namespaces) :
    ∀ u ∈ (set.push t).tables, u.heading.IsRegular namespaces :=
  TableSet.forall_tables_push hset fun _ => ht

theorem isRegular_modify {i : Nat} {f : Table → Table} (hf : ∀ t, (f t).heading = t.heading)
    (hset : ∀ u ∈ set.tables, u.heading.IsRegular namespaces) :
    ∀ u ∈ (set.modify i f).tables, u.heading.IsRegular namespaces :=
  TableSet.forall_tables_modify hset fun t ht => (hf t).symm ▸ ht

/-- Building gives regular headings to tables if the scope, the stored tables and the tables of the
set have such headings, and if the namespaces of all entities are among the given ones. -/
theorem Built.isRegular (hmodel : ∀ e ∈ ctx.model.entities, e.namespaceName ∈ namespaces)
    (hstored : ∀ t ∈ ctx.stored.inserted, t.heading.IsRegular namespaces)
    (h : ctx.Built ds scope s set next) (hscope : scope.heading.IsRegular namespaces)
    (hset : ∀ t ∈ set.tables, t.heading.IsRegular namespaces) :
    ∀ t ∈ next.tables, t.heading.IsRegular namespaces := by
  induction h with
  | nil => exact hset
  | cons _ _ ihhead ihtail => exact ihtail hscope (ihhead hscope hset)
  | column => exact isRegular_modify (fun t => t.heading_addColumns _ _) hset
  | lookup =>
    refine isRegular_modify (fun t => t.heading_addForeignKey _) ?_
    exact isRegular_modify (fun t => t.heading_addColumns _ _) hset
  | lookupSkipped => exact hset
  | collection =>
    refine isRegular_push hset ?_
    rw [heading_collectionJoin]
    exact isRegular_joinTable hscope _ _
  | reference =>
    refine isRegular_modify (fun t => t.heading_addReferenceSource _) ?_
    exact isRegular_modify (fun t => t.heading_addColumns _ _) hset
  | referenceSkipped => exact hset
  | referenceCollection =>
    refine isRegular_push hset ?_
    rw [heading_referenceJoin]
    exact isRegular_joinTable hscope _ _
  | @common d scope s set mid common commonKeys _ _ _ _ ih =>
    have hjoin : (ctx.commonJoin d common scope s).heading.IsRegular namespaces := by
      rw [heading_commonJoin]
      exact isRegular_joinTable hscope _ _
    have hinner := ih hjoin (isRegular_push hset hjoin)
    unfold commonClosed
    split_ifs
    · exact hinner
    · exact isRegular_modify (fun t => t.heading_addParentKeys _ _) hinner
  | commonExtension _ hreferenced hparent _ ih =>
    have hname := hmodel _ (Model.mem_entities_of_referencedEntity hreferenced)
    have hregular := hstored _ (Schema.mem_of_get? hparent)
    rw [tables_linkOrDiscard]
    exact ih ⟨hname, hregular.naming⟩
      (isRegular_push hset (isRegular_suffixedTable _ hname hregular))
  | choice _ _ _ ih => exact ih hscope hset
  | inlineCommon _ _ _ ih => exact ih hscope hset

/-! ### The tables of whole entities -/

section Entities

variable {e : Entity} (hmodel : ∀ e ∈ ctx.model.entities, e.namespaceName ∈ namespaces)
  (hstored : ∀ t ∈ ctx.stored.inserted, t.heading.IsRegular namespaces)
  (he : e ∈ ctx.model.entities)

include hmodel hstored he

theorem isRegular_of_mainTable {reason : TableReason} (h : ctx.mainTable e reason = .ok set) :
    ∀ t ∈ set.tables, t.heading.IsRegular namespaces := by
  obtain ⟨keys, inherited, -, -, hbuilt⟩ := built_of_mainTable h
  have hstart : (ctx.mainTableStart e reason inherited).heading.IsRegular namespaces := by
    rw [mainTableStart, Table.heading_addColumns]
    exact ⟨hmodel e he, .own e.name⟩
  exact hbuilt.isRegular hmodel hstored hstart (isRegular_push (by simp [TableSet.empty]) hstart)

theorem isRegular_of_descriptorTable (h : ctx.descriptorTable e = .ok set) :
    ∀ t ∈ set.tables, t.heading.IsRegular namespaces := by
  have hstart (t : Table) (k : ForeignKey)
      (ht : t.heading = (Table.ofReason e.namespaceName (TableNaming.descriptorTable e.name)
        .descriptor).heading) : (t.addForeignKey k).heading.IsRegular namespaces := by
    rw [Table.heading_addForeignKey, ht]
    exact ⟨hmodel e he, .own _⟩
  exact (built_of_entityTables h).isRegular hmodel hstored (hstart _ _ rfl)
    (isRegular_push (by simp [TableSet.empty]) (hstart _ _ rfl))

theorem isRegular_of_extensionTable (h : ctx.extensionTable e = .ok set) :
    ∀ t ∈ set.tables, t.heading.IsRegular namespaces := by
  obtain ⟨base, key, parent, mid, -, -, hget, hbuilt, rfl⟩ := built_of_extensionTable h
  have hparent := hstored parent (Schema.mem_of_get? hget)
  rw [tables_linkOrDiscard]
  exact hbuilt.isRegular hmodel hstored ⟨hmodel e he, hparent.naming⟩
    (isRegular_push (by simp [TableSet.empty])
      (isRegular_suffixedTable _ (hmodel e he) hparent))

end Entities

end TableContext

end Tabular
