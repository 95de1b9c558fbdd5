import Tabular.Model.Basic
import Tabular.Naming
import Tabular.Strategy

/-!
# Columns of properties and keys of entities

A scalar or lookup property has one column. A reference has the key columns of the entity it leads
to, and a composite has the columns of the properties inside it. The key of an entity consists of
the columns of its identity properties and of the keys of its inline commons; a subclass starts
with the key of its base, in which its identity rename takes the place of the property it names.

These three notions refer to each other along the references of the model. `KeyDerivation.step`
defines them from the same notions one reference further on, and `KeyDerivation.within` bounds the
number of such steps. In a model without cycles `Model.depthLimit` steps always suffice.

## Main definitions

* `ColumnRule`: how a property gets its columns.
* `leafColumn`: the column of a scalar or lookup property.
* `KeyDerivation.step`, `KeyDerivation.within`: the derivation.
* `Model.columns`, `Model.keys`, `Model.inheritedKeys`: the results.
-/

namespace Tabular

/-- How a property gets its columns. -/
inductive ColumnRule where
  /-- One column of the property's type. -/
  | scalar
  /-- One column for the key of a descriptor table. -/
  | descriptor
  /-- One column for the key of an enumeration table. -/
  | enumeration
  /-- One column for a school year. -/
  | schoolYear
  /-- The columns of the properties of a composite. -/
  | composite
  /-- The key columns of the referenced entity. -/
  | reference
  deriving DecidableEq

/-- How a property of the kind gets its columns. -/
def PropertyKind.columnRule : PropertyKind → ColumnRule
  | scalar _ => .scalar
  | descriptor => .descriptor
  | enumeration => .enumeration
  | schoolYearEnumeration => .schoolYear
  | common | choice | inlineCommon => .composite
  | association | domainEntity => .reference

/-- The paths that the merge directives of a property replace, each starting at the property. -/
def Property.mergedPaths (p : Property) : List (List String) :=
  p.mergeDirectives.map MergeDirective.source

/-- The strategy under which the paths that the merge directives of a property replace have no
columns. -/
def Strategy.merging (s : Strategy) (p : Property) : Strategy :=
  if p.mergeDirectives.isEmpty then s else s.skipPaths p.mergedPaths

/-- The column of a scalar or lookup property. -/
def leafColumn (d : Declaration) (s : Strategy) (naming : ColumnNaming) (type : ScalarType) :
    Column :=
  let p := d.property
  let column : Column :=
    { Column.ofType naming.columnId type with
      nameComponents := naming.nameComponents
      description := p.documentation
      referenceContext := p.fullName
      mergedReferenceContexts := [p.fullName]
      propertyPath := p.fullName
      ownPrefix := p.contextPrefix
      declaringEntity := some d.owner.name
      sources := [d.id] }
  if p.isPartOfIdentity && !s.suppressesKeys then column.primaryKey
  else if p.isOptional then column.nullable
  else column

/-- The results for all elements of a list, one after the other. The first failure counts. -/
def collect {α β : Type} (f : α → BuildResult (List β)) : List α → BuildResult (List β)
  | [] => .ok []
  | a :: rest => do
    let bs ← f a
    let cs ← collect f rest
    return bs ++ cs

/-- The columns as seen from a property further out. -/
def prefixColumns (name : String) (columns : List Column) : List Column :=
  columns.map (Column.prefixedBy name)

/-- Columns and keys, as functions of what they are asked for. -/
structure KeyDerivation where
  /-- The columns of a property. -/
  columns : Declaration → Strategy → BuildResult (List Column)
  /-- The key of an entity. -/
  keys : Entity → Strategy → BuildResult (List Column)
  /-- The key a subclass takes over from its base. -/
  inheritedKeys : Entity → Strategy → BuildResult (List Column)

/-- The identity properties of an entity that are not inline commons. -/
def Entity.plainIdentity (e : Entity) : List Declaration :=
  e.declarations.filter fun d => d.property.isPartOfIdentity && d.property.kind ≠ .inlineCommon

/-- The inline common properties of an entity. -/
def Entity.inlineCommons (e : Entity) : List Declaration :=
  e.declarations.filter fun d => d.property.kind = .inlineCommon

/-- The identity properties that an entity adds itself: a rename of a subclass stands in for a
property of its base and is not among them. -/
def Entity.addedIdentity (e : Entity) : List Declaration :=
  e.plainIdentity.filter fun d => !(e.kind.isSubclass && d.property.isIdentityRename)

/-- The identity rename of a subclass. -/
def Entity.identityRename? (e : Entity) : Option Declaration :=
  e.plainIdentity.find? fun d => d.property.isIdentityRename

/-- The property that stands for a key property of the base: the rename if it names the
property. -/
def renamedBy (rename : Option Declaration) (d : Declaration) : Declaration :=
  match rename with
  | some r => if r.property.baseKeyName = d.property.fullName then r else d
  | none => d

namespace KeyDerivation

/-- The derivation that has run out of steps. -/
def exhausted : KeyDerivation where
  columns d _ := .error (.cyclicModel d.owner.namespaceName d.owner.name)
  keys e _ := .error (.cyclicModel e.namespaceName e.name)
  inheritedKeys e _ := .error (.cyclicModel e.namespaceName e.name)

/-- The key columns of the entity a reference leads to. -/
def referenceColumns (m : Model) (inner : KeyDerivation) (d : Declaration) (s : Strategy) :
    BuildResult (List Column) :=
  let p := d.property
  if p.isCollection then .ok []
  else do
    let referenced ← m.referencedEntity d.owner p
    let keys ← inner.keys referenced ((s.merging p).append p)
    return prefixColumns p.fullName keys

/-- The strategy inside a composite. Only an inline common is a context for names, and an optional
composite has no key columns. -/
def compositeStrategy (p : Property) (s : Strategy) : Strategy :=
  let nested := if p.kind = .inlineCommon then s.append p else s
  if p.isOptional then nested.suppressKeys else nested

/-- The columns of the properties of a composite, collections aside. -/
def compositeColumns (m : Model) (inner : KeyDerivation) (d : Declaration) (s : Strategy) :
    BuildResult (List Column) :=
  let p := d.property
  if p.isCollection then .ok []
  else do
    let composite ← m.referencedEntity d.owner p
    let parts := composite.declarations.filter fun q => !q.property.isCollection
    let columns ← collect (fun q => inner.columns q (compositeStrategy p s)) parts
    return prefixColumns p.fullName columns

/-- The columns of a property that follow the given rule. -/
def columnsBy (m : Model) (inner : KeyDerivation) (rule : ColumnRule) (d : Declaration)
    (s : Strategy) : BuildResult (List Column) :=
  let p := d.property
  if !s.buildsColumns p then .ok []
  else match rule with
    | .scalar =>
      match p.kind.scalarType? with
      | some type => .ok [leafColumn d s (s.columnNamer p.contextPrefix p.name) type]
      | none =>
        .error (.invalidInput d.owner.namespaceName d.owner.name
          s!"property {p.fullName} has no scalar column type")
    | .descriptor =>
      let name := TableNaming.descriptorTable p.name
      .ok [leafColumn d s ((s.columnNamer p.contextPrefix name).withSuffix "Id") .integer]
    | .enumeration =>
      let name := TableNaming.enumerationTable p.name
      .ok [leafColumn d s ((s.columnNamer p.contextPrefix name).withSuffix "Id") .integer]
    | .schoolYear =>
      .ok [leafColumn d s (s.columnNamer p.contextPrefix TableNaming.schoolYearColumn) .short]
    | .composite => compositeColumns m inner d s
    | .reference => referenceColumns m inner d s

/-- The keys of the inline commons of an entity. -/
def inlineKeys (m : Model) (inner : KeyDerivation) (e : Entity) (s : Strategy) :
    BuildResult (List Column) :=
  e.inlineCommons |> collect fun d => do
    let inlined ← m.referencedEntity e d.property
    let keys ← inner.keys inlined (s.append d.property)
    return prefixColumns d.property.fullName keys

/-- The key of an entity: what it inherits, what it adds, and the keys of its inline commons. -/
def keysOf (m : Model) (inner : KeyDerivation) (e : Entity) (s : Strategy) :
    BuildResult (List Column) := do
  let inherited ← if e.kind.isSubclass then inner.inheritedKeys e s else pure []
  let added ← collect (fun d => inner.columns d s) e.addedIdentity
  let inlined ← inlineKeys m inner e s
  return inherited ++ added ++ inlined

/-- The key a subclass takes over: the key of its base with the rename in place. -/
def inheritedKeysOf (m : Model) (inner : KeyDerivation) (e : Entity) (s : Strategy) :
    BuildResult (List Column) := do
  let base ← m.baseEntity e
  let inherited ← if base.kind.isSubclass then inner.inheritedKeys base s else pure []
  let added ← collect (fun d => inner.columns (renamedBy e.identityRename? d) s) base.addedIdentity
  let inlined ← inlineKeys m inner base s
  return inherited ++ added ++ inlined

/-- The derivation in terms of the derivation one reference further on. -/
def step (m : Model) (inner : KeyDerivation) : KeyDerivation where
  columns d s := columnsBy m inner d.property.kind.columnRule d s
  keys e s := keysOf m inner e s
  inheritedKeys e s := inheritedKeysOf m inner e s

/-- The derivation with at most the given number of steps. -/
def within (m : Model) : Nat → KeyDerivation
  | 0 => exhausted
  | n + 1 => step m (within m n)

end KeyDerivation

namespace Model

/-- More steps than any chain of references has in a model without cycles. Such a chain meets an
entity at most four times: for its key, for the key it inherits, for a property of its identity, and
before that for a property outside its identity. -/
def depthLimit (m : Model) : Nat :=
  4 * m.entities.length + 4

/-- The columns and keys of a model. -/
def derivation (m : Model) : KeyDerivation :=
  .within m m.depthLimit

/-- The columns of a property. -/
def columns (m : Model) (d : Declaration) (s : Strategy) : BuildResult (List Column) :=
  m.derivation.columns d s

/-- The columns of a property under a rule that need not be its own. -/
def columnsBy (m : Model) (rule : ColumnRule) (d : Declaration) (s : Strategy) :
    BuildResult (List Column) :=
  KeyDerivation.columnsBy m m.derivation rule d s

/-- The key of an entity. -/
def keys (m : Model) (e : Entity) (s : Strategy) : BuildResult (List Column) :=
  m.derivation.keys e s

/-- The key a subclass takes over from its base. -/
def inheritedKeys (m : Model) (e : Entity) (s : Strategy) : BuildResult (List Column) :=
  m.derivation.inheritedKeys e s

end Model

end Tabular
