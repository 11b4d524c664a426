namespace SchemaDeploy

inductive TreeEntry where
  | file (bytes : ByteArray)
  | directory

instance : DecidableEq TreeEntry
  | .file a, .file b =>
    decidable_of_iff (a.data = b.data) (by rw [TreeEntry.file.injEq, ByteArray.ext_iff])
  | .directory, .directory => isTrue rfl
  | .file _, .directory => isFalse nofun
  | .directory, .file _ => isFalse nofun

/-- A relative path as its parts; a dot stands for no part, two dots go back by one. -/
def pathParts (path : String) : List String :=
  ((path.toList.splitOn '/').map String.ofList).foldl
    (fun parts p => if p = "" ∨ p = "." then parts else if p = ".." then parts.dropLast else parts ++ [p])
    []

def joinPath (directory path : String) : String :=
  if path.startsWith "/" || directory == "" then path
  else if directory.endsWith "/" then directory ++ path
  else directory ++ "/" ++ path

def splitPath (path : String) : String × String :=
  let t := path.toList.reverse
  (String.ofList ((t.dropWhile (· ≠ '/')).drop 1).reverse, String.ofList (t.takeWhile (· ≠ '/')).reverse)

/-- A file name up to its last dot, and what follows. A dot at the start separates nothing. -/
def splitExtension (name : String) : String × Option String :=
  let t := name.toList.reverse
  match t.dropWhile (· ≠ '.') with
  | [] => (name, none)
  | [_] => (name, none)
  | _ :: stem => (String.ofList stem.reverse, some (String.ofList (t.takeWhile (· ≠ '.')).reverse))

/-- Entries by the parts of their paths. -/
structure FileTree where
  entries : List (List String × TreeEntry)
  deriving DecidableEq

namespace FileTree

def empty : FileTree :=
  ⟨[]⟩

def find? (t : FileTree) (path : String) : Option TreeEntry :=
  match pathParts path with
  | [] => some .directory
  | parts => t.entries.lookup parts

def isDirectory (t : FileTree) (path : String) : Bool :=
  match t.find? path with
  | some .directory => true
  | _ => false

def isFile (t : FileTree) (path : String) : Bool :=
  match t.find? path with
  | some (.file _) => true
  | _ => false

def bytes? (t : FileTree) (path : String) : Option ByteArray :=
  match t.find? path with
  | some (.file bytes) => some bytes
  | _ => none

def text? (t : FileTree) (path : String) : Option String :=
  (t.bytes? path).bind String.fromUTF8?

def children (t : FileTree) (path : String) : List String :=
  let parts := pathParts path
  (t.entries.filterMap fun e =>
    match e.1.getLast? with
    | some name => if e.1.dropLast = parts then some name else none
    | none => none).mergeSort (· ≤ ·)

def put (t : FileTree) (parts : List String) (e : TreeEntry) : FileTree :=
  ⟨t.entries.filter (·.1 ≠ parts) ++ [(parts, e)]⟩

/-- Makes the directories of a path below `above`; a file in the way makes it fail. -/
def makeParts? (t : FileTree) (above : List String) : List String → Option FileTree
  | [] => some t
  | p :: ps =>
    let here := above ++ [p]
    match t.entries.lookup here with
    | some .directory => t.makeParts? here ps
    | some (.file _) => none
    | none => (t.put here .directory).makeParts? here ps

def makeDirectories? (t : FileTree) (path : String) : Option FileTree :=
  t.makeParts? [] (pathParts path)

def write? (t : FileTree) (path : String) (bytes : ByteArray) : Option FileTree :=
  if t.isDirectory path || !t.isDirectory (splitPath path).1 then none
  else some (t.put (pathParts path) (.file bytes))

def writeBelow? (t : FileTree) (path : String) (bytes : ByteArray) : Option FileTree :=
  (t.makeDirectories? (splitPath path).1).bind (·.write? path bytes)

def remove (t : FileTree) (path : String) : FileTree :=
  ⟨t.entries.filter fun e => !(pathParts path).isPrefixOf e.1⟩

def files (t : FileTree) : List (String × ByteArray) :=
  t.entries.filterMap fun e =>
    match e.2 with
    | .file bytes => some ("/".intercalate e.1, bytes)
    | .directory => none

end FileTree

end SchemaDeploy
