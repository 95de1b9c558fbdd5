import Tabular.Model.Kind
import Tabular.Text.Basic

/-!
# Properties

A property of an entity: its names, what it holds, how often it occurs, and for references the
entity it leads to.

## Main definitions

* `EntityId`, `PropertyId`: addresses in a model.
* `MergeDirective`: two property paths that lead to the same columns.
* `Property`: a property.
* `Property.contextPrefix`, `Property.fullName`, `Property.tableName`: the names derived from it.
-/

namespace Tabular

/-- The position of an entity in its model. -/
abbrev EntityId := Nat

/-- The address of a property: its owner and its position there. -/
structure PropertyId where
  entity : EntityId
  index : Nat
  deriving DecidableEq

/-- A declaration that the columns under a source path are those under a target path. Both paths
start at the entity that owns the declaring property. -/
structure MergeDirective where
  source : List String
  target : List String
  deriving DecidableEq

/-- The directive between two dotted paths. -/
def MergeDirective.ofPaths (source target : String) : MergeDirective :=
  ⟨Text.segments source, Text.segments target⟩

/-- A property of an entity. -/
structure Property where
  /-- The declared name. -/
  name : String
  kind : PropertyKind
  /-- The role that tells repeated properties of one name apart. -/
  roleName : String
  /-- A shorter text that stands for the role in column and table names. -/
  shortenTo : String
  documentation : String
  isPartOfIdentity : Bool
  isRequired : Bool
  isOptional : Bool
  isRequiredCollection : Bool
  isOptionalCollection : Bool
  /-- The property takes the place of a key property of the base entity. -/
  isIdentityRename : Bool
  /-- The full name of the base key property that a rename replaces. -/
  baseKeyName : String
  /-- A weak reference has columns but no foreign key. -/
  isWeak : Bool
  deleteCascade : Bool
  /-- A common property that leads to an extension of the common. -/
  isExtensionOverride : Bool
  mergeDirectives : List MergeDirective
  referencedEntity : Option EntityId
  deriving DecidableEq

namespace Property

/-- A required property outside the identity. -/
def ofKind (name : String) (kind : PropertyKind) : Property where
  name := name
  kind := kind
  roleName := ""
  shortenTo := ""
  documentation := ""
  isPartOfIdentity := false
  isRequired := true
  isOptional := false
  isRequiredCollection := false
  isOptionalCollection := false
  isIdentityRename := false
  baseKeyName := ""
  isWeak := false
  deleteCascade := false
  isExtensionOverride := false
  mergeDirectives := []
  referencedEntity := none

/-- The property with a single occurrence of the given sort. -/
def withCardinality (p : Property) (identity required optional : Bool) : Property :=
  { p with
    isPartOfIdentity := identity
    isRequired := required
    isOptional := optional
    isRequiredCollection := false
    isOptionalCollection := false }

/-- The property as part of the identity. -/
def identity (p : Property) : Property :=
  p.withCardinality true false false

/-- The property as required. -/
def required (p : Property) : Property :=
  p.withCardinality false true false

/-- The property as optional. -/
def optional (p : Property) : Property :=
  p.withCardinality false false true

/-- The property as a collection with at least one element. -/
def requiredCollection (p : Property) : Property :=
  { p.withCardinality false false false with isRequiredCollection := true }

/-- The property as a collection that may be empty. -/
def optionalCollection (p : Property) : Property :=
  { p.withCardinality false false false with isOptionalCollection := true }

/-- The property as a rename of a base key property. -/
def identityRename (p : Property) (baseKeyName : String) : Property :=
  { p.identity with isIdentityRename := true, baseKeyName := baseKeyName }

/-- The property with a further merge directive. -/
def merging (p : Property) (source target : String) : Property :=
  { p with mergeDirectives := p.mergeDirectives ++ [.ofPaths source target] }

/-- A property with any number of values. -/
def isCollection (p : Property) : Bool :=
  p.isRequiredCollection || p.isOptionalCollection

/-- The role as column and table names show it. A role equal to the name is not repeated. -/
def contextPrefix (p : Property) : String :=
  if p.shortenTo ≠ "" then p.shortenTo
  else if p.roleName = p.name then ""
  else p.roleName

/-- The role and the name, the segment of property paths. -/
def fullName (p : Property) : String :=
  if p.roleName = p.name then p.name else p.roleName ++ p.name

/-- The prefix and the name, the segment of table names. -/
def tableName (p : Property) : String :=
  p.contextPrefix ++ p.name

end Property

end Tabular
