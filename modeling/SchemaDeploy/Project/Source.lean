import SchemaDeploy.Project.FileTree
import SchemaDeploy.Script.MigrationFile
import SchemaDeploy.Sql.Reference
import SchemaDeploy.Text.Encoding

namespace SchemaDeploy

/-- Where scripts and tests are. Without a `main` directory the databases are at the root. -/
structure ScriptSource where
  mainDir : String
  testDir : String
  deriving DecidableEq, Repr

namespace ScriptSource

def ofRoot (root : String) (tree : FileTree) : ScriptSource :=
  let main := joinPath root "main"
  ⟨if tree.isDirectory main then main else root, joinPath root "test"⟩

def collect {α β : Type} (f : α → Except SyncError (List β)) : List α → Except SyncError (List β)
  | [] => .ok []
  | a :: as =>
    match f a with
    | .error e => .error e
    | .ok bs =>
      match collect f as with
      | .error e => .error e
      | .ok rest => .ok (bs ++ rest)

/-- The scripts that the text of a file defines. The object has the name of the file, and the first
reference to it gives the database and the schema. -/
def scriptsOfText (path name : String) (objectType : ObjectType) (content : String) :
    Except SyncError (List Script) :=
  match Sql.firstReference? name.toList (Sql.clean content.toList) with
  | none => .error (.invalidScriptPath path (name ++ " is not defined in the file"))
  | some q =>
    match q.database, q.schema with
    | some database, some schema =>
      if objectType.isVersioned then
        match MigrationFile.units content with
        | .error e => .error e
        | .ok us => .ok (us.map fun u => (Script.ofUnit database schema objectType name u).withPath path)
      else .ok [(Script.state database schema objectType name content).withPath path]
    | _, _ =>
      .error (.invalidScriptPath path "database, schema and object name must be provided")

def scriptsOfFile (tree : FileTree) (objectType : ObjectType) (path : String) :
    Except SyncError (List Script) :=
  match splitExtension (splitPath path).2 with
  | (stem, some extension) =>
    if tree.isFile path && sameText extension "sql" then
      match (tree.bytes? path).bind decodeScript? with
      | none => .error (.scriptUnreadable path)
      | some content => scriptsOfText path (upperText stem) objectType content
    else .ok []
  | (_, none) => .ok []

def visible (s : ScriptSource) (tree : FileTree) (directory : String) : List String :=
  ((tree.children directory).filter fun n => !n.startsWith ".").filterMap fun n =>
    let path := joinPath directory n
    if pathParts path = pathParts s.testDir then none else some path

def directories (s : ScriptSource) (tree : FileTree) (directory : String) : List String :=
  (s.visible tree directory).filter tree.isDirectory

def scriptsOfTypeDirectory (s : ScriptSource) (tree : FileTree) (directory : String) :
    Except SyncError (List Script) :=
  let name := (splitPath directory).2
  match ObjectType.ofDirectory? name with
  | none => .error (.unknownObjectType name)
  | some objectType => collect (scriptsOfFile tree objectType) (s.visible tree directory)

/-- Every script, migration files as one script for each version, in the order of the paths. -/
def scripts (s : ScriptSource) (tree : FileTree) : Except SyncError (List Script) :=
  if tree.isDirectory s.mainDir then
    collect
      (fun database =>
        collect
          (fun schema =>
            collect (s.scriptsOfTypeDirectory tree) (s.directories tree schema))
          (s.directories tree database))
      (s.directories tree s.mainDir)
  else .error (.invalidScriptPath s.mainDir "script root does not exist")

def testPath (s : ScriptSource) (path : String) : String :=
  let relative := String.ofList (path.toList.drop s.mainDir.length)
  let (directory, file) := splitPath relative
  let (stem, extension) := splitExtension file
  let directory := String.ofList (directory.toList.dropWhile (· = '/'))
  joinPath (if directory = "" then s.testDir else joinPath s.testDir directory)
    (stem ++ "_TEST." ++ extension.getD "sql")

def testOf (s : ScriptSource) (tree : FileTree) (script : Script) :
    Except SyncError (List TestScript) :=
  match script.path.map s.testPath with
  | none => .ok []
  | some path =>
    match tree.bytes? path with
    | none => .ok []
    | some bytes =>
      match decodeScript? bytes with
      | none => .error (.scriptUnreadable path)
      | some content => .ok [TestScript.of script content (some path)]

def tests (s : ScriptSource) (tree : FileTree) (scripts : List Script) :
    Except SyncError (List TestScript) :=
  collect (s.testOf tree) scripts

def scriptPath (s : ScriptSource) (script : Script) : String :=
  joinPath (joinPath (joinPath (joinPath s.mainDir script.database) script.schema)
    script.objectType.directory) (script.name ++ ".SQL")

/-- Writes scripts one after the other, up to the first that cannot be written. -/
def write (s : ScriptSource) : FileTree → List Script → FileTree × Except SyncError Unit
  | tree, [] => (tree, .ok ())
  | tree, script :: rest =>
    let path := s.scriptPath script
    match tree.writeBelow? path script.content.toUTF8 with
    | some tree => s.write tree rest
    | none => (tree, .error (.scriptUnwritable path))

end ScriptSource

end SchemaDeploy
