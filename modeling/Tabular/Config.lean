import Tabular.Text.Classes
import Tabular.Version

/-!
# Configurations

What a run derives and for which versions.

## Main definitions

* `Stage`: the stages of a run in order.
* `Config`: a configuration.
* `Config.effectiveStages`, `Config.runsStage`: which stages run.
* `Config.problem?`: why a configuration cannot be run.
-/

namespace Tabular

/-- The stages of a run. -/
inductive Stage where
  | mainTables
  | derivedTables
  | crossCutting
  deriving DecidableEq

namespace Stage

/-- The stages in the order in which they run. -/
def all : List Stage :=
  [mainTables, derivedTables, crossCutting]

/-- The name of a stage in reports. -/
def name : Stage → String
  | mainTables => "main-tables"
  | derivedTables => "derived-tables"
  | crossCutting => "cross-cutting"

/-- The name of a stage in configurations. -/
def key : Stage → String
  | mainTables => "mainTables"
  | derivedTables => "derivedTables"
  | crossCutting => "crossCutting"

/-- The stage of a name in configurations. -/
def ofKey? (key : String) : Option Stage :=
  all.find? fun s => s.key = key

/-- What a stage does. -/
def description : Stage → String
  | mainTables => "Build main tables for every entity kind"
  | derivedTables => "Build subclass and extension tables"
  | crossCutting => "Run repository-wide passes"

/-- The place of a stage in the order, from one. -/
def index : Stage → Nat
  | mainTables => 1
  | derivedTables => 2
  | crossCutting => 3

end Stage

/-- What a run derives and for which versions. -/
structure Config where
  targetVersion : Version
  dataStandardVersion : Version
  /-- The namespace of the table that all descriptors share. -/
  coreNamespace : String
  /-- The stages to run; none stands for all. -/
  stages : List Stage
  validateOutput : Bool
  createDateOnExtensions : Bool
  deriving DecidableEq

/-- Why a configuration cannot be run. -/
inductive ConfigProblem where
  | emptyCoreNamespace
  | derivedWithoutMain
  deriving DecidableEq

/-- The wording of a problem. -/
def ConfigProblem.message : ConfigProblem → String
  | emptyCoreNamespace => "Core namespace must not be empty"
  | derivedWithoutMain => "Derived tables stage requires the main tables stage"

namespace Config

/-- The configuration of a run that asks for nothing in particular. -/
def standard : Config where
  targetVersion := .latest
  dataStandardVersion := ⟨5, 0, 0⟩
  coreNamespace := "EdFi"
  stages := []
  validateOutput := true
  createDateOnExtensions := true

/-- Whether a stage runs. -/
def runsStage (c : Config) (stage : Stage) : Bool :=
  c.stages.isEmpty || stage ∈ c.stages

/-- The stages that run, in order. -/
def effectiveStages (c : Config) : List Stage :=
  Stage.all.filter c.runsStage

/-- The first problem of a configuration. The core namespace has to have a visible name, and
derived tables need the main tables of the same run. -/
def problem? (c : Config) : Option ConfigProblem :=
  if Text.trim c.coreNamespace = "" then some .emptyCoreNamespace
  else if c.runsStage .derivedTables && !c.runsStage .mainTables then some .derivedWithoutMain
  else none

end Config

end Tabular
