import SchemaDeploy.Command.Run
import Std.Time.Format

namespace SchemaDeploy.Program

def realPath (path : String) := do
  return (← IO.currentDir) / path

def readFile (path : String) (tree : FileTree) : IO FileTree := do
  try
    let bytes ← IO.FS.readBinFile path
    return (tree.writeBelow? path bytes).getD tree
  catch _ => return tree

/-- Adds what is below a directory. What is in hidden directories is never looked at. -/
partial def readBelow (path : String) (tree : FileTree) : IO FileTree := do
  let entries ← try (← realPath path).readDir catch _ => return tree
  let start := (tree.makeDirectories? path).getD tree
  entries.foldlM
    (fun tree entry => do
      let here := joinPath path entry.fileName
      if ← entry.path.isDir then
        if entry.fileName.startsWith "." then return tree else readBelow here tree
      else readFile here tree)
    start

def readState (path : String) (tree : FileTree) : IO FileTree := do
  let directory := (splitPath path).1
  let tree := if ← (← realPath directory).isDir then (tree.makeDirectories? directory).getD tree else tree
  readFile path tree

def environment : IO Environment := do
  let bytes ← try IO.FS.readBinFile "/proc/self/environ" catch _ => return .empty
  let entries := (String.fromUTF8? bytes).getD "" |>.splitOn "\x00"
  return Keyed.ofList (entries.filterMap fun e =>
    match e.splitOn "=" with
    | name :: value@(_ :: _) => some (name, "=".intercalate value)
    | _ => none)

def writeChanged (root statePath : String) (old new : FileTree) : IO Unit := do
  for (parts, entry) in new.entries do
    if old.entries.lookup parts != some entry then
      match entry with
      | .directory => pure ()
      | .file bytes =>
        let path :=
          if parts = pathParts statePath then statePath
          else joinPath root ("/".intercalate (parts.drop (pathParts root).length))
        IO.FS.createDirAll (← realPath (splitPath path).1)
        IO.FS.writeBinFile path bytes

def report (e : Command.Exit) : IO UInt32 := do
  IO.print e.output
  match e.error with
  | some error => IO.eprintln ("Error: " ++ error.message)
  | none => if e.code = 2 then IO.eprintln Command.helpText
  return e.code.toUInt32

def run (arguments : List String) : IO UInt32 := do
  let env ← environment
  let clock := (Std.Time.DateTime.ofTimestamp (← Std.Time.Timestamp.now) .UTC).toISO8601String
  match Command.request env arguments with
  | .invoke i =>
    let root := i.root env
    let statePath := i.statePath env
    let tree ← readState statePath (← readBelow root .empty)
    let (after, exit) := Command.run env clock tree arguments
    writeChanged root statePath tree after
    report exit
  | _ => report (Command.run env clock .empty arguments).2

end SchemaDeploy.Program

def main (arguments : List String) : IO UInt32 :=
  SchemaDeploy.Program.run arguments
