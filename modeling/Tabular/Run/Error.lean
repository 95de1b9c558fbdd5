import Tabular.Error

/-!
# Failures of runs

Why a run ends without a schema.

## Main definitions

* `RunError`: the causes.
* `RunError.message`, `RunError.userMessage`: their wording.
-/

namespace Tabular

/-- Why a run ends without a schema. -/
inductive RunError where
  /-- The configuration cannot be run. -/
  | config (detail : String)
  /-- A pass failed. -/
  | stageFailure (stage pass : String) (cause : BuildError)
  /-- The schema breaks rules. -/
  | validationFailed (violations : List String)
  deriving DecidableEq

namespace RunError

/-- The wording of a failure. -/
def message : RunError → String
  | config detail => s!"Configuration error: {detail}"
  | stageFailure stage pass _ => s!"Stage '{stage}' failed in enhancer '{pass}'"
  | validationFailed violations =>
    "Validation failed: " ++ String.intercalate "; " violations

/-- The wording of a failure for users. -/
def userMessage : RunError → String
  | config detail =>
    s!"Configuration error: {detail}\n\nHint: Check the build configuration."
  | stageFailure stage pass cause =>
    s!"Stage '{stage}' failed in '{pass}': {cause.message}"
  | validationFailed violations =>
    "Generated schema is invalid:\n  " ++ String.intercalate "\n  " violations

/-- The stage that failed. -/
def stageName? : RunError → Option String
  | stageFailure stage _ _ => some stage
  | _ => none

end RunError

end Tabular
