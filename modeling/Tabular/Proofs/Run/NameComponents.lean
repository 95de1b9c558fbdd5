import Mathlib.Tactic.Common
import Tabular.Proofs.Derive.Headings
import Tabular.Proofs.Run.ColumnFlags

/-!
# Names are made of their recorded parts

Tables and columns record the parts of their names for tools that rename them. The name of a table
is always the concatenation of its parts, whether the table belongs to an entity, to a property with
several values, to an extension or to a lookup. The same holds for columns, apart from those columns
of lookup tables that record no parts. A column that absorbs another one of the same name keeps its
own parts.

## Main definitions

* `Config.namespaces`: the namespaces that a run can give to tables.
* `ColumnNaming.IsSpelled`, `Column.IsSpelled`: names of columns and their parts.

## Main results

* `Reaches.isRegular`: the headings of tables are regular throughout a run.
* `Column.invariant_isSpelled`: no change of a column separates its name from its parts.
* `names_eq_concat_throughout`: no pass of a run leaves a name behind that is not the concatenation
  of its parts.
-/

namespace Tabular

/-! ### Headings in a run -/

section Headings

variable {c : Config} {m : Model} {s : Schema} {id : EntityId} {set : TableSet} {t : Table}

/-- The core namespace and the namespaces of the entities of a model. -/
def Config.namespaces (c : Config) (m : Model) : List String :=
  c.coreNamespace :: m.entities.map Entity.namespaceName

theorem Config.mem_namespaces (c : Config) {e : Entity} (he : e ∈ m.entities) :
    e.namespaceName ∈ c.namespaces m :=
  List.mem_cons_of_mem _ (List.mem_map.mpr ⟨e, he, rfl⟩)

theorem Drafted.isRegular (hs : ∀ u ∈ s.inserted, u.heading.IsRegular (c.namespaces m))
    (h : Drafted c m s id set) : ∀ u ∈ set.tables, u.heading.IsRegular (c.namespaces m) := by
  have hmodel : ∀ e ∈ m.entities, e.namespaceName ∈ c.namespaces m := fun _ => c.mem_namespaces
  have hsingle {e : EntityId} {t : Table} (ht : t.heading.IsRegular (c.namespaces m)) :
      ∀ u ∈ ((TableSet.empty e).push t).tables, u.heading.IsRegular (c.namespaces m) :=
    TableContext.isRegular_push (by simp [TableSet.empty]) ht
  cases h with
  | main he h => exact TableContext.isRegular_of_mainTable hmodel hs he h
  | descriptor he h => exact TableContext.isRegular_of_descriptorTable hmodel hs he h
  | subclass he h =>
    obtain ⟨main, key, hmain, -, rfl⟩ := TableContext.exists_of_subclassTable h
    have hregular := TableContext.isRegular_of_mainTable hmodel hs he hmain
    exact TableContext.isRegular_modify (fun t => t.heading_addForeignKey key) hregular
  | extension he h => exact TableContext.isRegular_of_extensionTable hmodel hs he h
  | codeValues he =>
    refine hsingle ?_
    rw [codeValueTable, Table.heading_addColumns]
    exact ⟨c.mem_namespaces he, .own _⟩
  | schoolYears he =>
    refine hsingle ?_
    rw [schoolYearTable, Table.heading_addColumns]
    exact ⟨c.mem_namespaces he, .own _⟩

theorem Origin.isRegular (hs : ∀ u ∈ s.inserted, u.heading.IsRegular (c.namespaces m))
    (h : Origin c m s t) : t.heading.IsRegular (c.namespaces m) := by
  induction h with
  | stored ht => exact hs _ ht
  | @committed _ _ _ _ u _ hset hu hfrom =>
    have hregular := hset.isRegular hs _ hu
    cases hfrom with
    | unlinked => rwa [Table.heading_arranged]
    | linked => rwa [Table.heading_addForeignKey, Table.heading_arranged]
  | baseDescriptor =>
    rw [Table.heading_arranged, baseDescriptorTable, Table.heading_addColumns]
    exact ⟨List.mem_cons_self, .own _⟩
  | mapType _ _ _ ih => rwa [Table.heading_withMapType]
  | foreignKey k _ _ ih => rwa [Table.heading_addForeignKey]

/-- In the course of a run every table is in the core namespace or in that of an entity, and its
name is spelled by its parts. -/
theorem Reaches.isRegular (h : Reaches c m .empty s) :
    ∀ t ∈ s.inserted, t.heading.IsRegular (c.namespaces m) :=
  h.forall_inserted fun _ _ hs horigin => horigin.isRegular hs

end Headings

/-! ### Names of columns -/

/-- The name is the concatenation of its parts. -/
def ColumnNaming.IsSpelled (n : ColumnNaming) : Prop :=
  n.columnId = Text.concat (n.nameComponents.map ColumnNameComponent.name)

/-- The name of a column is the concatenation of its parts, if the column records any. -/
def Column.IsSpelled (c : Column) : Prop :=
  c.nameComponents ≠ [] → c.id = Text.concat (c.nameComponents.map ColumnNameComponent.name)

/-- Prefixes, role and base name are parts of a column's name unless they are empty. -/
theorem Strategy.isSpelled_columnNamer (s : Strategy) (roleName baseName : String) :
    (s.columnNamer roleName baseName).IsSpelled := by
  have hpart (x : String) (f : String → ColumnNameComponent) (hf : (f x).name = x) :
      (if x = "" then [] else [f x]).map ColumnNameComponent.name =
        if x = "" then [] else [x] := by
    split_ifs
    · rfl
    · rw [List.map_singleton, hf]
  have hprefixes : (s.parentPrefixes.map ColumnNameComponent.parentContext).map
      ColumnNameComponent.name = s.parentPrefixes := by
    simp [Function.comp_def, ColumnNameComponent.parentContext]
  simp only [ColumnNaming.IsSpelled, columnNamer, List.map_append, Text.concat_append, hprefixes,
    s.concat_parentPrefixes, hpart _ .roleName rfl, hpart _ .base rfl,
    Text.concat_singleton_of_ne_empty]

theorem ColumnNaming.IsSpelled.withSuffix {n : ColumnNaming} (h : n.IsSpelled) (suffix : String) :
    (n.withSuffix suffix).IsSpelled := by
  unfold ColumnNaming.withSuffix
  split_ifs
  · exact h
  · rw [IsSpelled, List.map_append, Text.concat_append, ← h]
    simp [ColumnNameComponent.synthetic]

theorem isSpelled_leafColumn (d : Declaration) (s : Strategy) {naming : ColumnNaming}
    (type : ScalarType) (h : naming.IsSpelled) : (leafColumn d s naming type).IsSpelled := by
  intro
  simp only [leafColumn]
  split_ifs <;> exact h

theorem Column.invariant_isSpelled : Column.Invariant Column.IsSpelled where
  leaf d s c h := by
    unfold leafColumn? at h
    cases hrule : d.property.kind.columnRule with
    | scalar =>
      simp only [hrule, Option.map_eq_some_iff] at h
      obtain ⟨type, -, rfl⟩ := h
      exact isSpelled_leafColumn d s type (s.isSpelled_columnNamer _ _)
    | descriptor | enumeration =>
      simp only [hrule, Option.some.injEq] at h
      exact h ▸ isSpelled_leafColumn d s _ ((s.isSpelled_columnNamer _ _).withSuffix "Id")
    | schoolYear =>
      simp only [hrule, Option.some.injEq] at h
      exact h ▸ isSpelled_leafColumn d s _ (s.isSpelled_columnNamer _ _)
    | composite | reference => simp [hrule] at h
  made c h := by
    cases h <;> simp [IsSpelled, ofType, assignedKeyColumn, descriptorKeyColumn, keyColumn,
      ColumnNameComponent.base, ColumnNameComponent.synthetic]
  prefixedBy _ _ h := h
  primaryKey _ h := h
  nullable _ h := h
  notNull _ h := h
  asParentKey _ h := h
  merge _ _ _ h _ := h

/-- Whichever stages and passes of a run have succeeded so far, the name of every table is the
concatenation of the parts that it records, and so is the name of every column that records
parts. -/
theorem names_eq_concat_throughout (c : Config) (m : Model) :
    (∀ (before : List Stage) (stage : Stage) (passes : List Pass) (mid progress : Progress)
        (reports : List StageReport) (outcomes : List PassOutcome),
      runStages c m before .start = .ok (mid, reports) →
      runPasses c m stage passes mid = .ok (progress, outcomes) →
        ∀ t ∈ progress.schema.tables,
          t.tableId = Text.concat (t.nameGroup.map TableNameComponent.name) ∧
            ∀ column ∈ t.columns, column.nameComponents ≠ [] → column.id =
              Text.concat (column.nameComponents.map ColumnNameComponent.name)) ∧
      ∀ r, derive c m = .ok r → ∀ t ∈ r.schema.tables,
        t.tableId = Text.concat (t.nameGroup.map TableNameComponent.name) ∧
          ∀ column ∈ t.columns, column.nameComponents ≠ [] → column.id =
            Text.concat (column.nameComponents.map ColumnNameComponent.name) := by
  have htables {s : Schema} (h : Reaches c m .empty s) : ∀ t ∈ s.tables,
      t.tableId = Text.concat (t.nameGroup.map TableNameComponent.name) ∧
        ∀ column ∈ t.columns, column.nameComponents ≠ [] → column.id =
          Text.concat (column.nameComponents.map ColumnNameComponent.name) := by
    intro t ht
    have hmem := Schema.mem_tables_iff.mp ht
    exact ⟨(h.isRegular t hmem).naming, h.all Column.invariant_isSpelled t hmem⟩
  constructor
  · intro before stage passes mid progress reports outcomes hbefore hpasses
    exact htables ((reaches_of_runStages hbefore).trans (reaches_of_runPasses hpasses))
  · intro r hr
    exact htables (reaches_of_derive hr)

/-- Schools with a main office, which has direct phones and a region, and an extension of schools by
a motto. -/
def mainOfficeModel : Model :=
  [((Entity.ofKind .domainEntity "EdFi" "School").withProperty
      (Property.ofKind "SchoolId" (.scalar .integer)).identity).withProperty
        { Property.ofKind "Office" .inlineCommon with
          roleName := "Main"
          referencedEntity := some 1 },
    ((Entity.ofKind .inlineCommon "EdFi" "Office").withProperty
      { (Property.ofKind "Phone" (.scalar (.text 20))).optionalCollection with
        roleName := "Direct" }).withProperty
        { Property.ofKind "Region" .descriptor with referencedEntity := some 2 },
    Entity.ofKind .descriptor "EdFi" "Region",
    { (Entity.ofKind .domainEntityExtension "Sample" "School").withProperty
        (Property.ofKind "Motto" (.scalar (.text 60))) with
      baseEntity := some 0 }].foldl Model.addEntity .empty

/-- The table of phones has a name of four parts, and the column of the region one of three. -/
theorem names_eq_concat_throughout_offices :
    ∃ r, derive { Config.standard with targetVersion := ⟨6, 1, 0⟩ } mainOfficeModel = .ok r ∧
      (r.schema.tables.map fun t => (t.tableId, t.nameGroup.map TableNameComponent.name)) =
        [("School", ["School"]), ("SchoolMainDirectPhone", ["School", "Main", "Direct", "Phone"]),
          ("Descriptor", ["Descriptor"]), ("RegionDescriptor", ["RegionDescriptor"]),
          ("SchoolExtension", ["School", "Extension"])] ∧
      (r.schema.tables.any fun t => t.columns.any fun column =>
        column.id = "MainRegionDescriptorId" ∧
          column.nameComponents.map ColumnNameComponent.name =
            ["Main", "RegionDescriptor", "Id"]) = true ∧
      ∀ t ∈ r.schema.tables, t.tableId = Text.concat (t.nameGroup.map TableNameComponent.name) ∧
        ∀ column ∈ t.columns, column.nameComponents ≠ [] → column.id =
          Text.concat (column.nameComponents.map ColumnNameComponent.name) := by
  have hrun : (derive { Config.standard with targetVersion := ⟨6, 1, 0⟩ }
      mainOfficeModel).toOption.any (fun r =>
      (r.schema.tables.map fun t => (t.tableId, t.nameGroup.map TableNameComponent.name)) =
        [("School", ["School"]), ("SchoolMainDirectPhone", ["School", "Main", "Direct", "Phone"]),
          ("Descriptor", ["Descriptor"]), ("RegionDescriptor", ["RegionDescriptor"]),
          ("SchoolExtension", ["School", "Extension"])] ∧
      (r.schema.tables.any fun t => t.columns.any fun column =>
        column.id = "MainRegionDescriptorId" ∧
          column.nameComponents.map ColumnNameComponent.name =
            ["Main", "RegionDescriptor", "Id"]) = true) = true := by decide +kernel
  obtain ⟨r, hr, hnames⟩ := exists_eq_ok_of_any hrun
  obtain ⟨htables, hcolumn⟩ := of_decide_eq_true hnames
  exact ⟨r, hr, htables, hcolumn, (names_eq_concat_throughout _ _).2 r hr⟩

end Tabular
