import Tabular.Cascade.Cycles
import Tabular.Cascade.Graph
import Tabular.Cascade.Identity
import Tabular.Config
import Tabular.Config.Codec
import Tabular.Derive.Keys
import Tabular.Derive.Scope
import Tabular.Derive.TableSet
import Tabular.Derive.Tables
import Tabular.Digest.Sha1
import Tabular.Digest.Uuid
import Tabular.Error
import Tabular.Inheritance
import Tabular.Json.Basic
import Tabular.Json.Decode
import Tabular.Json.Extent
import Tabular.Json.Lexer
import Tabular.Json.Printer
import Tabular.Json.Reader
import Tabular.Lookup.Descriptor
import Tabular.Lookup.Enumeration
import Tabular.Model.Basic
import Tabular.Model.Codec
import Tabular.Model.Entity
import Tabular.Model.Kind
import Tabular.Model.Load
import Tabular.Model.Property
import Tabular.Naming
import Tabular.Record
import Tabular.Reference.Resolution
import Tabular.Run.Basic
import Tabular.Run.Error
import Tabular.Run.Pass
import Tabular.Schema.Basic
import Tabular.Schema.Codec
import Tabular.Schema.Column
import Tabular.Schema.ForeignKey
import Tabular.Schema.Integrity
import Tabular.Schema.Table
import Tabular.Strategy
import Tabular.Text.Basic
import Tabular.Text.CaseData
import Tabular.Text.Classes
import Tabular.Text.HiddenData
import Tabular.Text.LowerCase
import Tabular.Text.Pattern
import Tabular.Text.Quoted
import Tabular.Version
import Tabular.Yaml.BlockScalar
import Tabular.Yaml.Cursor
import Tabular.Yaml.Node
import Tabular.Yaml.Reader
import Tabular.Yaml.Scalar
import Tabular.Yaml.Tag
import Tabular.Yaml.Token
import Tabular.Proofs.Result
import Tabular.Proofs.Schema.Growth
import Tabular.Proofs.Schema.KeyOrder
import Tabular.Proofs.Derive.Building
import Tabular.Proofs.Derive.Links
import Tabular.Proofs.Derive.Commit
import Tabular.Proofs.Run.Steps
import Tabular.Proofs.Schema.Following
import Tabular.Proofs.Run.ForeignKeyOrder
import Tabular.Proofs.Derive.Chains
import Tabular.Proofs.Derive.MergeFree
import Tabular.Proofs.Derive.MergeScopes
import Tabular.Proofs.Derive.Paths
import Tabular.Proofs.Derive.Contributions
import Tabular.Proofs.Run.Evolution
import Tabular.Proofs.Reference.Sources
import Tabular.Proofs.Reference.Matching
import Tabular.Proofs.Schema.AddedKeys
import Tabular.Proofs.Reference.OwnColumns
import Tabular.Proofs.Run.Distinctness
import Tabular.Proofs.Schema.KeyColumns
import Tabular.Proofs.Derive.FirmKeys
import Tabular.Proofs.Derive.CarriedKeys
import Tabular.Proofs.Derive.ParentKeys
import Tabular.Proofs.Reference.KeptKeys
import Tabular.Proofs.Derive.Descents
import Tabular.Proofs.Derive.MergedPaths
import Tabular.Proofs.Derive.KeyParts
import Tabular.Proofs.Derive.RenamedKeys
import Tabular.Proofs.Cascade.IdentityGraph
import Tabular.Proofs.Cascade.KeyCoverage
import Tabular.Proofs.Derive.CommittedPlans
import Tabular.Proofs.Derive.DeclarationOrder
import Tabular.Proofs.Run.Origins
import Tabular.Proofs.Run.CanonicalColumns
import Tabular.Proofs.Derive.ColumnInvariants
import Tabular.Proofs.Run.ColumnFlags
import Tabular.Proofs.Derive.Locality
import Tabular.Proofs.Derive.Acyclic
import Tabular.Proofs.Derive.Refinement
import Tabular.Proofs.Derive.Flattening
import Tabular.Proofs.Derive.FlattenedTables
import Tabular.Proofs.Derive.LargerModels
import Tabular.Proofs.Run.Owners
import Tabular.Proofs.Cascade.LargerModels
import Tabular.Proofs.Run.AddedEntities
import Tabular.Proofs.Run.AddedProjects
import Tabular.Proofs.Run.Validation
import Tabular.Proofs.Derive.Headings
import Tabular.Proofs.Run.NameComponents
import Tabular.Proofs.Run.DatabaseNames
import Tabular.Proofs.Derive.LookupKeys
import Tabular.Proofs.Run.LookupTables
import Tabular.Proofs.Cascade.CascadingEntities
import Tabular.Proofs.Cascade.Components
import Tabular.Proofs.Cascade.CycleGroups
import Tabular.Proofs.Derive.NullableContents
import Tabular.Proofs.Run.BaseKeys
import Tabular.Proofs.Run.SubclassOrder
import Tabular.Proofs.Derive.ResolvedLinks
import Tabular.Proofs.Derive.Termination
import Tabular.Proofs.Derive.AddedTables
import Tabular.Proofs.Run.ExtensionTables
import Tabular.Proofs.Strategy.FlatRecord
import Tabular.Proofs.Strategy.SkippedPaths
import Tabular.Proofs.Schema.MergePolicies
import Tabular.Proofs.Text.Matching
import Tabular.Proofs.Version.Grammar
import Tabular.Proofs.Run.ColumnContexts
import Tabular.Proofs.FirstOccurrences
import Tabular.Proofs.Schema.InsertionOrder
import Tabular.Proofs.Schema.Catalog
import Tabular.Proofs.Json.RoundTrip
import Tabular.Proofs.Model.Encoding
import Tabular.Proofs.Model.Loading
