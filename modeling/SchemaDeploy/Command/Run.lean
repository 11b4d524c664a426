import SchemaDeploy.Command.Arguments
import SchemaDeploy.Project.Workspace

namespace SchemaDeploy.Command

abbrev Outcome : Type := Except SyncError (List String)

def planLine (step : Nat) (s : Script) : String :=
  let number := toString step
  String.ofList (List.replicate (4 - number.length) ' ') ++ number ++ ". " ++ s.id

def planLines (scripts : List Script) : List String :=
  if scripts = [] then ["Nothing to deploy"]
  else scripts.zipIdx.map fun p => planLine (p.2 + 1) p.1

def operate {α : Type} (tree : FileTree) (print : α → List String)
    (result : Workspace × Except SyncError α) : FileTree × Workspace × Outcome :=
  (tree, result.1, result.2.map print)

def counted (before after : String) (n : Nat) : List String :=
  [before ++ " " ++ toString n ++ " " ++ after]

def operation (i : Invocation) (tree : FileTree) (w : Workspace) :
    FileTree × Workspace × Outcome :=
  match i.verb with
  | .deploy => operate tree (counted "Deployed" "scripts") (w.deploy tree i.after.onlyHashes)
  | .rollback => operate tree (counted "Rolled back" "scripts") (w.rollback tree)
  | .verify => operate tree (fun r => counted "Verified" "scripts" r.checked) (w.verify tree)
  | .test =>
    operate tree
      (fun r => [toString r.passed ++ " tests passed, " ++ toString r.failed.length ++ " failed"])
      (w.test tree)
  | .lineage => operate tree (counted "Recorded" "dependencies") (w.createLineage tree)
  | .createScripts =>
    match w.createScripts tree i.after.schemas with
    | (tree, w, result) => (tree, w, result.map (counted "Created" "scripts"))
  | .cleanup => operate tree id (w.cleanup tree)
  | .plan | .check => operate tree planLines (w.plan tree)

def Verb.isKept : Verb → Bool
  | .plan | .check => false
  | _ => true

/-- Runs a command on the project below a root. The repository is saved also after an error, and an
error in saving it is the one that is reported. -/
def onProject (i : Invocation) (env : Environment) (clock : String) (tree : FileTree) :
    FileTree × Outcome :=
  let opened := do
    let project ← Project.load tree env (i.root env) (i.profile env)
    project.open tree clock (i.statePath env)
  match opened with
  | .error e => (tree, .error e)
  | .ok w =>
    match operation i tree w with
    | (tree, w, outcome) =>
      if i.verb.isKept then
        match w.repository.save tree with
        | (tree, .ok ()) => (tree, outcome)
        | (tree, .error e) => (tree, .error e)
      else (tree, outcome)

/-- Checks the scripts below a root; of the project only the configuration is read. -/
def check (root : String) (env : Environment) (tree : FileTree) : Outcome :=
  match Config.loadBelow tree env root with
  | .error e => .error e
  | .ok config =>
    (checkProject tree root config).map fun scripts =>
      [toString scripts.length ++ " scripts can be sequenced"]

def Invocation.run (i : Invocation) (env : Environment) (clock : String) (tree : FileTree) :
    FileTree × Outcome :=
  if i.verb = .check then (tree, check (i.root env) env tree) else onProject i env clock tree

def versionText : String := "rust-schemasync 0.1.0"

def helpText : String :=
  "Usage: [-r ROOT] [-p PROFILE] [-s STATE] [-v] COMMAND\nCommands: " ++
    ", ".intercalate (Verb.all.map Verb.word)

/-- What a run of the program leaves: the lines it printed, its exit code, and the error. -/
structure Exit where
  code : Nat
  lines : List String
  error : Option SyncError
  deriving DecidableEq, Repr

def Exit.ofOutcome : Outcome → Exit
  | .ok lines => ⟨0, lines, none⟩
  | .error e => ⟨1, [], some e⟩

def Exit.output (e : Exit) : String :=
  String.join (e.lines.map (· ++ "\n"))

def run (env : Environment) (clock : String) (tree : FileTree) (arguments : List String) :
    FileTree × Exit :=
  match request env arguments with
  | .usageError => (tree, ⟨2, [], none⟩)
  | .help => (tree, ⟨0, [helpText], none⟩)
  | .version => (tree, ⟨0, [versionText], none⟩)
  | .invoke i =>
    match i.run env clock tree with
    | (tree, outcome) => (tree, .ofOutcome outcome)

end SchemaDeploy.Command
