import Mathlib.Data.List.Nodup
import Mathlib.Tactic.Common
import Tabular.Proofs.Derive.Acyclic
import Tabular.Proofs.Reference.KeptKeys
import Tabular.Proofs.Run.NameComponents

/-!
# Names of tables in the database

In the database a table is known by the schema of its namespace and by its name. The schema of a
namespace is the name of the namespace in lower case, so two namespaces may share one. A run keeps
tables of one name apart within each namespace only, and so two tables share a name in the database
exactly if they have the same name in two namespaces with one schema.

## Main definitions

* `Table.databaseName`: the name of a table in the database.

## Main results

* `Schema.nodup_databaseNames_iff`: when all tables have different names in the database.
* `databaseNames_of_derive`: the names of the tables of a run.
* `databaseNames_not_nodup_schools`: two tables of a run may share a name.
-/

namespace Tabular

/-- The schema and the name of a table. -/
def Table.databaseName (t : Table) : String × String :=
  (t.schema, t.tableId)

/-- If tables have different addresses, then their names in the database are different exactly if no
two tables of one name are in two namespaces with one schema. -/
theorem Schema.nodup_databaseNames_iff {s : Schema} (hkeys : s.keys.Nodup) :
    (s.tables.map Table.databaseName).Nodup ↔ ∀ t ∈ s.tables, ∀ u ∈ s.tables,
      t.tableId = u.tableId → t.schema = u.schema → t.namespaceName = u.namespaceName := by
  constructor
  · intro hnames t ht u hu hid hschema
    rw [List.inj_on_of_nodup_map hnames ht hu (Prod.ext hschema hid)]
  · intro happart
    refine (List.Nodup.of_map Table.key hkeys).map_on fun t ht u hu hname => ?_
    obtain ⟨hschema, hid⟩ := Prod.mk.inj hname
    have hkey : t.key = u.key := by
      rw [Table.key, Table.key, happart t ht u hu hid hschema, hid]
    exact List.inj_on_of_nodup_map hkeys ht hu hkey

/-- The tables that a run returns have different addresses, and each of them is in the core
namespace or in the namespace of an entity. Their names in the database are different exactly if no
two tables of one name are in two namespaces with one schema, and in particular if no two of these
namespaces have one schema. -/
theorem databaseNames_of_derive (c : Config) (m : Model) (r : Report) (h : derive c m = .ok r) :
    r.schema.keys.Nodup ∧ (∀ t ∈ r.schema.tables, t.namespaceName ∈ c.namespaces m) ∧
      ((r.schema.tables.map Table.databaseName).Nodup ↔
        ∀ t ∈ r.schema.tables, ∀ u ∈ r.schema.tables,
          t.tableId = u.tableId → t.schema = u.schema → t.namespaceName = u.namespaceName) ∧
      ((∀ name ∈ c.namespaces m, ∀ name' ∈ c.namespaces m,
          schemaName name = schemaName name' → name = name') →
        (r.schema.tables.map Table.databaseName).Nodup) := by
  have hreaches := reaches_of_derive h
  have hkeys : r.schema.keys.Nodup := Schema.nodup_keys hreaches.nodup_addresses
  have hnamespaces : ∀ t ∈ r.schema.tables, t.namespaceName ∈ c.namespaces m := fun t ht =>
    (hreaches.isRegular t (Schema.mem_tables_iff.mp ht)).namespaceName
  refine ⟨hkeys, hnamespaces, Schema.nodup_databaseNames_iff hkeys, fun hschemas => ?_⟩
  rw [Schema.nodup_databaseNames_iff hkeys]
  intro t ht u hu _ hschema
  exact hschemas _ (hnamespaces t ht) _ (hnamespaces u hu) hschema

/-- Schools in two namespaces. -/
def twoSchools (first second : String) : Model :=
  [first, second].foldl (fun m name => m.addEntity
    ((Entity.ofKind .domainEntity name "School").withProperty
      (Property.ofKind "SchoolId" (.scalar .integer)).identity)) .empty

/-- Schools in two namespaces with different schemas have tables with different names. -/
theorem databaseNames_of_derive_schools :
    ∃ r, derive .standard (twoSchools "EdFi" "Sample") = .ok r ∧
      r.schema.keys = [⟨"EdFi", "School"⟩, ⟨"Sample", "School"⟩] ∧
      (r.schema.tables.map Table.databaseName).Nodup := by
  have hrun : (derive .standard (twoSchools "EdFi" "Sample")).toOption.any (fun r =>
      r.schema.keys = [⟨"EdFi", "School"⟩, ⟨"Sample", "School"⟩]) = true := by decide +kernel
  obtain ⟨r, hr, hkeys⟩ := exists_eq_ok_of_any hrun
  refine ⟨r, hr, of_decide_eq_true hkeys, ?_⟩
  exact (databaseNames_of_derive _ _ r hr).2.2.2 (by decide +kernel)

/-- Schools in two namespaces whose names differ only in case share a name in the database, although
the model has no cycles and the run validates its schema. -/
theorem databaseNames_not_nodup_schools :
    ¬∀ (c : Config) (m : Model) (r : Report), m.IsAcyclic → c.validateOutput = true →
      derive c m = .ok r → (r.schema.tables.map Table.databaseName).Nodup := by
  intro hall
  have hacyclic : (twoSchools "EdFi" "EDFI").IsAcyclic :=
    Model.isAcyclic_of_lt (by decide) (by decide) (by decide)
  have hrun : (derive .standard (twoSchools "EdFi" "EDFI")).toOption.any (fun r =>
      r.schema.tables.map Table.databaseName = [("edfi", "School"), ("edfi", "School")]) =
      true := by decide +kernel
  obtain ⟨r, hr, hnames⟩ := exists_eq_ok_of_any hrun
  have hnodup := hall .standard (twoSchools "EdFi" "EDFI") r hacyclic rfl hr
  rw [of_decide_eq_true hnames] at hnodup
  exact absurd hnodup (by decide)

end Tabular
