import SchemaDeploy.Change.Release
import SchemaDeploy.Project.Source
import SchemaDeploy.Script.Rows

namespace SchemaDeploy.Release

def rowTables (l : Release) : List String :=
  (l.parameters.injectNames l.config.configTables).keys.map upperText

def exportedScript (l : Release) (r : Repository) (live : Script) : Script :=
  let filled := if l.rowTables.contains live.fullName then live.withRows (r.configRows live.fullName) else live
  l.parameters.parametrizeScript filled

def exported (l : Release) (targets : Option (List String)) (r : Repository) : List Script :=
  let schemas := match targets with
    | some names => names.map fun n => upperText (trimText n)
    | none => r.userSchemas
  (schemas.flatMap r.liveScripts).map (l.exportedScript r)

/-- Writes the exported scripts. Those before one that cannot be written stay. -/
def createScripts (l : Release) (source : ScriptSource) (targets : Option (List String))
    (tree : FileTree) (r : Repository) : FileTree × (Repository × Except SyncError Nat) :=
  let scripts := l.exported targets r
  let (tree, written) := source.write tree scripts
  (tree, bracketed .createScript id (fun r => (r, written.map fun () => scripts.length)) r)

end SchemaDeploy.Release
