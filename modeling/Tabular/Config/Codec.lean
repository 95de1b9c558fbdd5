import Tabular.Config
import Tabular.Json.Decode
import Tabular.Yaml.Reader

/-!
# Configurations as texts

A configuration is written as a JSON record or as a YAML mapping. Missing members have their
standard values. In YAML every scalar is also a text, whereas only the plain names of truth values
are truth values.

## Main definitions

* `Config.decode?`, `Config.encode`: the JSON form.
* `Config.ofYaml`: the configuration of a YAML text.
-/

namespace Tabular

/-- How values of a format are read as the types of a configuration. -/
structure ConfigFormat (V : Type) where
  text? : V → Option String
  /-- One of several alternatives, by its name. -/
  name? : V → Option String
  flag? : V → Option Bool
  items? : V → Option (List V)

/-- The version that a value writes. -/
def ConfigFormat.version? {V : Type} (f : ConfigFormat V) (v : V) : Option Version :=
  (f.text? v).bind fun text => (Version.parse text).toOption

/-- The stages that a value lists. -/
def ConfigFormat.stages? {V : Type} (f : ConfigFormat V) (v : V) : Option (List Stage) :=
  (f.items? v).bind fun items => items.mapM fun item => (f.name? item).bind Stage.ofKey?

/-- The configuration of a record. -/
def Config.ofRecord? {V : Type} (f : ConfigFormat V) (r : Record V) : Option Config := do
  let targetVersion ←
    r.optional? "targetTechnologyVersion" Config.standard.targetVersion f.version?
  let dataStandardVersion ←
    r.optional? "dataStandardVersion" Config.standard.dataStandardVersion f.version?
  let coreNamespace ← r.optional? "coreNamespace" Config.standard.coreNamespace f.text?
  let stages ← r.optional? "stages" Config.standard.stages f.stages?
  let validateOutput ← r.optional? "validateOutput" Config.standard.validateOutput f.flag?
  let createDateOnExtensions ←
    r.optional? "includeCreateDateOnExtensionTables" Config.standard.createDateOnExtensions
      f.flag?
  return { targetVersion, dataStandardVersion, coreNamespace, stages, validateOutput,
           createDateOnExtensions }

/-- Values of JSON texts. -/
def ConfigFormat.json : ConfigFormat Json where
  text? := Json.string?
  name? := Json.name?
  flag? := Json.bool?
  items? := Json.listOf? some

/-- The members of a configuration. -/
def Config.members : List String :=
  ["targetTechnologyVersion", "dataStandardVersion", "coreNamespace", "stages", "validateOutput",
    "includeCreateDateOnExtensionTables"]

/-- The configuration that a JSON record writes. -/
def Config.decode? (v : Json) : Option Config :=
  (v.fields? Config.members).bind (Config.ofRecord? .json)

/-- The JSON form of a configuration. -/
def Config.encode (c : Config) : Json :=
  .obj
    [("targetTechnologyVersion", .str c.targetVersion.text),
      ("dataStandardVersion", .str c.dataStandardVersion.text),
      ("coreNamespace", .str c.coreNamespace),
      ("stages", .list (fun s => .str s.key) c.stages),
      ("validateOutput", .bool c.validateOutput),
      ("includeCreateDateOnExtensionTables", .bool c.createDateOnExtensions)]

namespace Yaml

/-- The text of a scalar. -/
def text? : Yaml → Option String
  | .scalar text _ _ => some text
  | _ => none

/-- The name of an alternative: the text of a scalar, or a tag with an exclamation mark before the
name, after which nothing is left to say. -/
def name? : Yaml → Option String
  | .scalar text style tag =>
    match tag.map String.toList with
    | some ('!' :: name) =>
      if text = "" || (style = .plain && text ∈ ["null", "Null", "NULL", "~"]) then
        some (String.ofList name)
      else none
    | _ => some text
  | _ => none

/-- The truth value of a scalar that is plain, or literal with the tag of truth values. -/
def flag? : Yaml → Option Bool
  | .scalar text style tag =>
    if style = .plain || (style = .literal && tag = some "tag:yaml.org,2002:bool") then
      if text ∈ ["true", "True", "TRUE"] then some true
      else if text ∈ ["false", "False", "FALSE"] then some false
      else none
    else none
  | _ => none

/-- Whether a node is a plain scalar without text. -/
def isNothing : Yaml → Bool
  | .scalar text style _ => text = "" && style = .plain
  | _ => false

/-- The items of a list; nothing stands for the empty list. -/
def items? : Yaml → Option (List Yaml)
  | .list items => some items
  | node => if node.isNothing then some [] else none

/-- The entries of a mapping; nothing stands for the empty mapping. -/
def entries? : Yaml → Option (List (Yaml × Yaml))
  | .mapping entries => some entries
  | node => if node.isNothing then some [] else none

/-- The members of a document whose keys are scalars. -/
def record? (document : Yaml) : Option (Record Yaml) :=
  (document.resolve document).entries?.bind fun entries =>
    entries.mapM fun (key, value) => (document.resolve key).text?.map fun name => (name, value)

end Yaml

/-- Values of a YAML document. -/
def ConfigFormat.yaml (document : Yaml) : ConfigFormat Yaml where
  text? v := (document.resolve v).text?
  name? v := (document.resolve v).name?
  flag? v := (document.resolve v).flag?
  items? v := (document.resolve v).items?

/-- Why a text is no configuration. -/
inductive ConfigTextError where
  | malformed
  | problem (p : ConfigProblem)
  deriving DecidableEq

/-- The configuration of a YAML text, which has to be one that can be run. -/
def Config.ofYaml (text : String) : Except ConfigTextError Config :=
  match (Yaml.parse? text).bind fun y => y.record?.bind (Config.ofRecord? (.yaml y)) with
  | none => .error .malformed
  | some c =>
    match c.problem? with
    | some p => .error (.problem p)
    | none => .ok c

end Tabular
