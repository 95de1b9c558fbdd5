/-!
# Causes of failure

Why the derivation of a schema can stop, each cause with the names needed to find it in the model.

## Main definitions

* `BuildError`: the causes.
* `BuildError.message`: the wording of a cause.
-/

namespace Tabular

/-- A cause for which the derivation of tables stops. -/
inductive BuildError where
  /-- A property has to reference an entity and the model has no such entity. -/
  | danglingReference (namespaceName entity property : String)
  /-- A subclass or extension has no base entity in the model. -/
  | missingBaseEntity (namespaceName entity : String)
  /-- A table is needed before it has been built. -/
  | missingTable (namespaceName entity tableId : String)
  /-- A reference leads to an entity without table. -/
  | missingReferencedTable (namespaceName tableId property referenced : String)
  /-- A reference has no local column for a key column of its target. -/
  | unmatchedForeignKeyColumns (namespaceName tableId property foreignColumn : String)
  /-- A namespace already has a table of this name. -/
  | duplicateTable (namespaceName tableId : String)
  /-- A text is not a version. -/
  | invalidVersion (text : String)
  /-- A value does not fit where it stands. -/
  | invalidInput (namespaceName entity detail : String)
  /-- Following the references of an entity never ends. -/
  | cyclicModel (namespaceName entity : String)
  deriving DecidableEq

namespace BuildError

/-- The wording of a cause. -/
def message : BuildError → String
  | danglingReference ns entity property =>
    s!"Property '{property}' on {ns}.{entity} references an entity that does not exist"
  | missingBaseEntity ns entity => s!"{ns}.{entity} has no base entity"
  | missingTable ns entity tableId =>
    s!"Table '{tableId}' for {ns}.{entity} has not been built"
  | missingReferencedTable ns tableId property referenced =>
    s!"Property '{property}' on table {ns}.{tableId} references '{referenced}' which has no table"
  | unmatchedForeignKeyColumns ns tableId property foreignColumn =>
    s!"Could not find matching foreign key columns for parent property '{property}' on table " ++
      s!"{ns}.{tableId} (foreign column '{foreignColumn}')"
  | duplicateTable ns tableId => s!"Duplicate table '{tableId}' in namespace {ns}"
  | invalidVersion text => s!"Invalid version '{text}'"
  | invalidInput ns entity detail => s!"Invalid input for {ns}.{entity}: {detail}"
  | cyclicModel ns entity => s!"The references of {ns}.{entity} form a cycle"

end BuildError

/-- The result of a derivation step. -/
abbrev BuildResult := Except BuildError

end Tabular
