import Tabular.Cascade.Cycles
import Tabular.Naming
import Tabular.Run.Error
import Tabular.Run.Pass
import Tabular.Schema.Integrity

/-!
# Runs

A run derives the schema of a model: it runs the passes of the configured stages in order, stops at
the first failure, and checks the schema if asked to.

## Main definitions

* `StageReport`, `Report`: what a run reports.
* `Stage.run`, `runStages`: the stages.
* `Config.checked`: the configuration if it can be run.
* `derive`: a run.
* `durationText`: a duration in words.
-/

namespace Tabular

/-- What a stage reports. -/
structure StageReport where
  stage : Stage
  passes : List PassOutcome
  deriving DecidableEq

/-- The tables that a stage added. -/
def StageReport.tablesAdded (r : StageReport) : Nat :=
  r.passes.foldr (fun p total => p.tablesAdded + total) 0

/-- What a run reports. -/
structure Report where
  stages : List StageReport
  schema : Schema
  deriving DecidableEq

namespace Report

/-- The reports of all passes in order. -/
def passes (r : Report) : List PassOutcome :=
  r.stages.flatMap StageReport.passes

/-- The passes that did not apply to the versions of the run. -/
def skippedPasses (r : Report) : List Pass :=
  (r.passes.filter PassOutcome.skipped).map PassOutcome.pass

/-- The names of all tables as shown to readers. -/
def displayNames (r : Report) : List String :=
  r.schema.tables.map fun t => displayName t.nameGroup

end Report

/-- The progress after the given passes, and their reports. The first failure names its pass. -/
def runPasses (c : Config) (m : Model) (stage : Stage) :
    List Pass → Progress → Except RunError (Progress × List PassOutcome)
  | [], progress => .ok (progress, [])
  | p :: rest, progress => do
    let (progress, outcome) ←
      (p.run c m progress).mapError (.stageFailure stage.name p.name)
    let (progress, outcomes) ← runPasses c m stage rest progress
    return (progress, outcome :: outcomes)

/-- The progress after the given stages, and their reports. -/
def runStages (c : Config) (m : Model) :
    List Stage → Progress → Except RunError (Progress × List StageReport)
  | [], progress => .ok (progress, [])
  | stage :: rest, progress => do
    let (progress, outcomes) ← runPasses c m stage (Pass.ofStage stage) progress
    let (progress, reports) ← runStages c m rest progress
    return (progress, ⟨stage, outcomes⟩ :: reports)

/-- The schema if it breaks no rules. -/
def Schema.validated (s : Schema) : Except RunError Schema :=
  if s.violations.isEmpty then .ok s else .error (.validationFailed s.violationMessages)

/-- The configuration if it can be run. -/
def Config.checked (c : Config) : Except RunError Config :=
  match c.problem? with
  | some problem => .error (.config problem.message)
  | none => .ok c

/-- The schema of a model under a configuration that can be run. -/
def deriveChecked (c : Config) (m : Model) : Except RunError Report := do
  let (progress, stages) ← runStages c m c.effectiveStages .start
  let schema ← if c.validateOutput then progress.schema.validated else pure progress.schema
  return ⟨stages, schema⟩

/-- The schema of a model. -/
def derive (c : Config) (m : Model) : Except RunError Report := do
  let c ← c.checked
  deriveChecked c m

/-- A duration in milliseconds, in whole minutes and seconds. -/
def durationText (milliseconds : Nat) : String :=
  let seconds := milliseconds / 1000
  let minutes := seconds / 60
  if 0 < minutes then s!"{minutes}m {seconds % 60}s" else s!"{seconds}s"

end Tabular
