import Tabular.Schema.Column
import Tabular.Text.Basic

/-!
# Strategies

On the way from a table to a property inside it, properties further out influence what the
property contributes: they prefix its names, make its columns nullable, keep them out of the key,
or exclude them because a merge directive puts other columns in their place. A strategy collects
these influences as layers, the latest first.

## Main definitions

* `Strategy.Layer`, `Strategy`: layers and strategies.
* `Strategy.parentContext`, `Strategy.columnNamer`: naming.
* `Strategy.leafColumns`, `Strategy.suppressesKeys`: flags of columns.
* `Strategy.buildsColumns`: whether a property has columns at all.
* `Strategy.append`, `Strategy.ignoreRoleName`, `Strategy.skipPaths`, `Strategy.leafNullable`,
  `Strategy.suppressKeys`, `Strategy.undoLeafNullable`, `Strategy.undoSuppressKeys`,
  `Strategy.forNewTable`: further layers, or fewer.
-/

namespace Tabular

/-- A property further out. -/
structure ParentContext where
  contextPrefix : String
  fullName : String
  deriving DecidableEq

/-- A property as the context of the properties inside it. -/
def ParentContext.of (p : Property) : ParentContext :=
  ⟨p.contextPrefix, p.fullName⟩

/-- One influence on the columns of a property. -/
inductive Strategy.Layer where
  /-- Names are prefixed by a property further out. -/
  | context (parent : ParentContext)
  /-- Columns drop their own role. -/
  | ignoreRoleName
  /-- Columns are nullable. -/
  | leafNullable
  /-- Columns stay out of the key. -/
  | suppressKeys
  /-- Properties at the end of one of these paths have no columns. -/
  | skip (paths : List (List String))
  deriving DecidableEq

/-- The influences on the columns of a property, the latest first. -/
structure Strategy where
  layers : List Strategy.Layer
  deriving DecidableEq

namespace Strategy

/-- The strategy at the root of a table. -/
def root : Strategy :=
  ⟨[]⟩

/-- The strategy with a further layer. -/
def push (s : Strategy) (layer : Layer) : Strategy :=
  ⟨layer :: s.layers⟩

/-- The number of layers. -/
def depth (s : Strategy) : Nat :=
  s.layers.length

/-- The property of a context layer. -/
def Layer.context? : Layer → Option ParentContext
  | context parent => some parent
  | _ => none

/-- The paths of a skip layer. -/
def Layer.skip? : Layer → Option (List (List String))
  | skip paths => some paths
  | _ => none

/-- The properties further out, the outermost first. -/
def parentContexts (s : Strategy) : List ParentContext :=
  (s.layers.filterMap Layer.context?).reverse

/-- The prefixes of the properties further out, the outermost first. -/
def parentContext (s : Strategy) : String :=
  Text.concat (s.parentContexts.map ParentContext.contextPrefix)

/-- The non-empty prefixes of the properties further out, the outermost first. -/
def parentPrefixes (s : Strategy) : List String :=
  (s.parentContexts.map ParentContext.contextPrefix).filter fun p => p ≠ ""

/-- The change of flags for columns under this strategy. -/
def leafColumns (s : Strategy) (transform : ColumnTransform) : ColumnTransform :=
  if Layer.leafNullable ∈ s.layers then .makeNull transform else transform

/-- Whether columns stay out of the key. -/
def suppressesKeys (s : Strategy) : Bool :=
  Layer.suppressKeys ∈ s.layers

/-- The name of a column with the given role and base name. -/
def columnNamer (s : Strategy) (roleName baseName : String) : ColumnNaming :=
  let role := if Layer.ignoreRoleName ∈ s.layers then "" else roleName
  { columnId := s.parentContext ++ role ++ baseName
    nameComponents :=
      s.parentPrefixes.map .parentContext ++
        (if role = "" then [] else [.roleName role]) ++
        (if baseName = "" then [] else [.base baseName]) }

/-- The paths of the latest skip layer. -/
def skippedPaths? (s : Strategy) : Option (List (List String)) :=
  s.layers.findSome? Layer.skip?

/-- Whether a property has columns: it has none if it ends a skipped path and no skipped path
leads further. -/
def buildsColumns (s : Strategy) (p : Property) : Bool :=
  match s.skippedPaths? with
  | none => true
  | some paths =>
    let through := paths.filter fun path => path.head? = some p.fullName
    through.isEmpty || through.any fun path => 1 < path.length

/-- The layers without a skip layer at the front. -/
def dropLeadingSkip : List Layer → List Layer
  | .skip _ :: rest => rest
  | layers => layers

/-- The layers with the first skip layer seen from a property: its paths through the property
lose their first segment, and without such paths the layer is dropped. -/
def rerootSkip (name : String) : List Layer → List Layer
  | [] => []
  | .skip paths :: rest =>
    match (paths.filter fun path => path.head? = some name).map List.tail with
    | [] => rest
    | tails => .skip tails :: rest
  | layer :: rest => layer :: rerootSkip name rest

/-- The strategy inside a property. -/
def append (s : Strategy) (p : Property) : Strategy :=
  push ⟨rerootSkip p.fullName s.layers⟩ (.context (.of p))

/-- The strategy under which columns drop their own role. -/
def ignoreRoleName (s : Strategy) : Strategy :=
  push ⟨dropLeadingSkip s.layers⟩ .ignoreRoleName

/-- The strategy under which the ends of the given paths have no columns. -/
def skipPaths (s : Strategy) (paths : List (List String)) : Strategy :=
  push ⟨dropLeadingSkip s.layers⟩ (.skip paths)

/-- The strategy under which columns are nullable. -/
def leafNullable (s : Strategy) : Strategy :=
  s.push .leafNullable

/-- The strategy under which columns stay out of the key. -/
def suppressKeys (s : Strategy) : Strategy :=
  s.push .suppressKeys

/-- The strategy under which columns are no longer made nullable. -/
def undoLeafNullable (s : Strategy) : Strategy :=
  ⟨s.layers.filter fun l => l ≠ .leafNullable⟩

/-- The strategy under which columns are no longer kept out of the key. -/
def undoSuppressKeys (s : Strategy) : Strategy :=
  ⟨s.layers.filter fun l => l ≠ .suppressKeys⟩

/-- The strategy inside a new table. Contexts and flags belong to the table left behind, skipped
paths remain. -/
def forNewTable (s : Strategy) : Strategy :=
  ⟨s.undoLeafNullable.undoSuppressKeys.layers.filter fun l => l.context?.isNone⟩

end Strategy

end Tabular
