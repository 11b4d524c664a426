import SchemaDeploy.Config.Basic
import SchemaDeploy.Parameters
import SchemaDeploy.Project.Source
import SchemaDeploy.Properties
import SchemaDeploy.Store.Repository
import SchemaDeploy.Store.StateFile

namespace SchemaDeploy

abbrev Environment : Type := Keyed String

def Environment.override (env : Environment) (values : Keyed String) : Keyed String :=
  values.map fun key value => (env.get? key).getD value

def configFileName : String := "config.yaml"

def defaultStateFile : String := ".schemasync-state.json"

def statePathOf (root : String) (state : Option String) : String :=
  state.getD (joinPath root defaultStateFile)

def Config.load (tree : FileTree) (env : Environment) (path : String) : Except SyncError Config :=
  match tree.text? path with
  | none => .error (.configUnreadable path)
  | some text =>
    match Config.parse? text with
    | none => .error (.configMalformed path)
    | some c => .ok { c with connection := env.override c.connection }

def Config.loadBelow (tree : FileTree) (env : Environment) (root : String) :
    Except SyncError Config :=
  let path := joinPath root configFileName
  if tree.isFile path then Config.load tree env path else .ok .default

def Parameters.load (tree : FileTree) (env : Environment) (root profile : String) :
    Except SyncError Parameters :=
  let path := joinPath root (Properties.fileName profile)
  match tree.text? path with
  | none => .error (.parametersUnreadable path)
  | some text => .ok (env.override (Properties.parse text))

structure Project where
  root : String
  profile : String
  config : Config
  parameters : Parameters
  deriving DecidableEq, Repr

def Project.load (tree : FileTree) (env : Environment) (root profile : String) :
    Except SyncError Project :=
  match Config.loadBelow tree env root with
  | .error e => .error e
  | .ok config =>
    match Parameters.load tree env root (lowerText profile) with
    | .error e => .error e
    | .ok parameters => .ok ⟨root, lowerText profile, config, parameters⟩

def Project.database (p : Project) : Except SyncError String :=
  match (p.parameters.get? "db").or (p.config.connection.get? "db") with
  | some database => .ok database
  | none =>
    .error (.invalidConfig ("no 'db' parameter in profile '" ++ p.profile ++
      "' and no 'db' connection setting"))

/-- The repository kept in a state file, empty where there is no such file yet. -/
def Repository.openFile (tree : FileTree) (clock database path : String) :
    Except SyncError Repository :=
  let r := { Repository.new clock database with statePath := some path }
  if tree.isFile path then
    match (tree.text? path).bind StateFile.read? with
    | none => .error (.stateFile path)
    | some state => .ok { r with state := state }
  else .ok r

def Repository.save (r : Repository) (tree : FileTree) : FileTree × Except SyncError Unit :=
  match r.statePath with
  | none => (tree, .ok ())
  | some path =>
    match tree.write? path (StateFile.write r.state).toUTF8 with
    | some tree => (tree, .ok ())
    | none => (tree, .error (.stateFile path))

def checkScripts (config : Config) (all : List Script) : Except SyncError (List Script) :=
  match config.validateOverrides all with
  | .error e => .error e
  | .ok () =>
    let scripts := all.filter fun s => !config.isExcluded s
    match DependencyGraph.ofScripts (config.overridesWithin scripts) scripts with
    | .error e => .error e
    | .ok graph => graph.sorted

def checkProject (tree : FileTree) (root : String) (config : Config) :
    Except SyncError (List Script) :=
  match (ScriptSource.ofRoot root tree).scripts tree with
  | .error e => .error e
  | .ok all => checkScripts config all

end SchemaDeploy
