import SchemaDeploy.Config.Yaml
import SchemaDeploy.Dependency.Graph
import SchemaDeploy.Keyed

namespace SchemaDeploy

structure Config where
  exclusions : List String
  overrides : List Override
  configTables : List String
  continueOnFailure : Bool
  connection : Keyed String
  deriving DecidableEq, Repr

namespace Config

def default : Config :=
  ⟨[], [], [], false, .empty⟩

def text? : Yaml → Option String
  | .scalar s _ => some s
  | _ => none

def items? : Yaml → Option (List Yaml)
  | .sequence items => some items
  | .scalar s isPlain => if isPlain && s == "" then some [] else none
  | .mapping _ => none

def entries? : Yaml → Option (List (Yaml × Yaml))
  | .mapping entries => some entries
  | .scalar s isPlain => if isPlain && s == "" then some [] else none
  | .sequence _ => none

def texts? (y : Yaml) : Option (List String) :=
  (items? y).bind (·.mapM text?)

def bool? : Yaml → Option Bool
  | .scalar s true =>
    if ["true", "True", "TRUE"].contains s then some true
    else if ["false", "False", "FALSE"].contains s then some false
    else none
  | _ => none

def fields? (known : List String) (y : Yaml) : Option (List (String × Yaml)) := do
  let fields ← (← entries? y).mapM fun e => (text? e.1).map (·, e.2)
  guard (known.all fun k => (fields.filter fun f => f.1 == k).length ≤ 1)
  return fields

def fieldOr {α : Type} (fields : List (String × Yaml)) (key : String) (read : Yaml → Option α)
    (missing : α) : Option α :=
  match fields.lookup key with
  | none => some missing
  | some y => read y

def override? (y : Yaml) : Option Override := do
  let fields ← fields? ["script", "dependencies"] y
  let script ← (fields.lookup "script").bind text?
  let dependencies ← fieldOr fields "dependencies" texts? []
  return ⟨script, dependencies⟩

def connection? (y : Yaml) : Option (Keyed String) := do
  let entries ← (← entries? y).mapM fun e => do return (← text? e.1, ← text? e.2)
  return Keyed.ofList entries

def ofYaml? (y : Yaml) : Option Config := do
  let fields ← fields? ["scriptExclusion", "dependencyOverride", "configTables",
    "continueOnFailure", "connection"] y
  return {
    exclusions := ← fieldOr fields "scriptExclusion" texts? []
    overrides := ← fieldOr fields "dependencyOverride" (fun y => (items? y).bind (·.mapM override?)) []
    configTables := ← fieldOr fields "configTables" texts? []
    continueOnFailure := ← fieldOr fields "continueOnFailure" bool? false
    connection := ← fieldOr fields "connection" connection? .empty }

def parse? (content : String) : Option Config :=
  if isBlankText content then some default
  else (Yaml.parse? content.toList).bind ofYaml?

def isExcluded (c : Config) (s : Script) : Bool :=
  c.exclusions.any (sameText · s.fullName)

def fullNames (scripts : List Script) : List String :=
  scripts.map Script.fullName

def knows (names : List String) (name : String) : Bool :=
  names.contains (upperText name)

def validateOverrides (c : Config) (scripts : List Script) : Except SyncError Unit :=
  let names := fullNames scripts
  let unknown := c.overrides.findSome? fun o =>
    ((o.script :: o.dependencies).find? (!knows names ·)).map fun d =>
      SyncError.unresolvedOverride o.script d
  match unknown with
  | some e => .error e
  | none => .ok ()

def overridesWithin (c : Config) (scripts : List Script) : List Override :=
  let names := fullNames scripts
  (c.overrides.filter fun o => knows names o.script).map fun o =>
    ⟨o.script, o.dependencies.filter (knows names)⟩

end Config

end SchemaDeploy
