import Tabular.Inheritance
import Tabular.Lookup.Descriptor
import Tabular.Reference.Resolution

/-!
# Passes

A stage consists of passes that run one after the other, each on the schema that the passes before
it left.

## Main definitions

* `Pass`: the passes.
* `Pass.ofStage`, `Pass.appliesTo`: which passes run.
* `Progress`: what the passes so far have produced.
* `Pass.run`: one pass.
-/

namespace Tabular

/-- A step of a stage. -/
inductive Pass where
  /-- The tables of domain entities and associations. -/
  | entityTables
  | descriptorTables
  /-- The tables of map types, in older data standards only. -/
  | mapTypeTables
  | enumerationTables
  | schoolYearTables
  | subclassTables
  | extensionTables
  /-- The entities whose key updates cascade. -/
  | updateCascade
  /-- The foreign keys of references. -/
  | foreignKeys
  deriving DecidableEq

/-- What the passes so far have produced. -/
structure Progress where
  schema : Schema
  cascade : CascadeInfo

/-- The progress before the first pass. -/
def Progress.start : Progress :=
  ⟨.empty, .none⟩

/-- What a pass reports. -/
structure PassOutcome where
  pass : Pass
  /-- The pass does not apply to the versions of the run. -/
  skipped : Bool
  tablesAdded : Nat
  deriving DecidableEq

namespace Pass

/-- The passes of a stage in order. -/
def ofStage : Stage → List Pass
  | .mainTables =>
    [entityTables, descriptorTables, mapTypeTables, enumerationTables, schoolYearTables]
  | .derivedTables => [subclassTables, extensionTables]
  | .crossCutting => [updateCascade, foreignKeys]

/-- All passes in order. -/
def all : List Pass :=
  Stage.all.flatMap ofStage

/-- The name of a pass in reports. -/
def name : Pass → String
  | entityTables => "entity-tables"
  | descriptorTables => "descriptor-tables"
  | mapTypeTables => "descriptor-map-type-tables"
  | enumerationTables => "enumeration-tables"
  | schoolYearTables => "school-year-tables"
  | subclassTables => "subclass-tables"
  | extensionTables => "extension-tables"
  | updateCascade => "update-cascade"
  | foreignKeys => "foreign-keys"

/-- Whether a pass applies to the versions of a configuration. -/
def appliesTo : Pass → Config → Bool
  | mapTypeTables, c => c.dataStandardVersion.hasMapTypes
  | _, _ => true

/-- The schema after a pass that derives tables or foreign keys, given what is known about key
updates. -/
def schemaAfter (p : Pass) (c : Config) (m : Model) (info : CascadeInfo) (s : Schema) :
    BuildResult Schema :=
  match p with
  | entityTables => mainTables c m s
  | descriptorTables => Tabular.descriptorTables c m s
  | mapTypeTables => Tabular.mapTypeTables c m s
  | enumerationTables => Tabular.enumerationTables c m s
  | schoolYearTables => Tabular.schoolYearTables c m s
  | subclassTables => Tabular.subclassTables c m s
  | extensionTables => Tabular.extensionTables c m s
  | updateCascade => .ok s
  | foreignKeys => referenceKeys m info s

/-- What is known about key updates after a pass. -/
def cascadeAfter (p : Pass) (m : Model) (info : CascadeInfo) : BuildResult CascadeInfo :=
  match p with
  | updateCascade => do
    let g ← m.identityGraph
    return ⟨m.cascadingEntities g, some g⟩
  | _ => .ok info

/-- The progress after a pass, whether or not it applies. -/
def advance (p : Pass) (c : Config) (m : Model) (progress : Progress) : BuildResult Progress := do
  let schema ← p.schemaAfter c m progress.cascade progress.schema
  let cascade ← p.cascadeAfter m progress.cascade
  return ⟨schema, cascade⟩

/-- The progress after a pass, and its report. A pass that does not apply changes nothing. -/
def run (p : Pass) (c : Config) (m : Model) (progress : Progress) :
    BuildResult (Progress × PassOutcome) :=
  if p.appliesTo c then do
    let next ← p.advance c m progress
    return (next, ⟨p, false, next.schema.tableCount - progress.schema.tableCount⟩)
  else .ok (progress, ⟨p, true, 0⟩)

end Pass

end Tabular
