import SchemaDeploy.Sql.Statement
import SchemaDeploy.Script.Basic

namespace SchemaDeploy.Sql

open Text

def blanks? : List Char → Option (List Char)
  | [] => none
  | c :: t => if isBlank c then some (t.dropWhile isBlank) else none

def spaced? (keyword : String) (t : List Char) : Option (List Char) :=
  (keyword? keyword.toList t).bind blanks?

def spacedOr (keyword : String) (t : List Char) : List Char :=
  (spaced? keyword t).getD t

def createOrReplace? (t : List Char) : Option (List Char) := do
  let t ← spaced? "CREATE" t
  let t ← spaced? "OR" t
  spaced? "REPLACE" t

def run? (p : Char → Bool) (t : List Char) : Option (List Char × List Char) :=
  match t.takeWhile p with
  | [] => none
  | w => some (w, t.dropWhile p)

/-- The name after a keyword: everything up to a blank or an opening parenthesis. -/
def nameAfter? (t : List Char) : Option (List Char) := do
  let t ← blanks? t
  let (name, _) ← run? (fun c => !isBlank c && c != '(') t
  return name

def objectHead? (t : List Char) : Option (List Char × List Char) :=
  let twoWords (first second : String) := do
    let r ← spaced? first t
    let r ← keyword? second.toList r
    let name ← nameAfter? r
    return (t.take (t.length - r.length), name)
  let oneWord := do
    let (w, r) ← run? isWord t
    let name ← nameAfter? r
    return (w, name)
  (twoWords "FILE" "FORMAT").or ((twoWords "DYNAMIC" "TABLE").or oneWord)

def modifiers : List String := ["TRANSIENT", "HYBRID", "SECURE", "TEMPORARY"]

/-- The head after CREATE OR REPLACE; one modifier may stand before the type. -/
def modifiedHead? (t : List Char) : Option (List Char × List Char) :=
  ((modifiers.findSome? (spaced? · t)).bind objectHead?).or (objectHead? t)

def lastPart (qualified : List Char) : List Char :=
  trimQuotes ((splitWhere (· == '.') qualified).getLastD [])

def terminated (t : List Char) : List Char :=
  if t.getLast? = some ';' then t else t ++ [';']

/-- A statement that defines an object. -/
structure Definition where
  objectType : ObjectType
  name : String
  ddl : String
  deriving DecidableEq, Repr

/-- The object that a statement defines; other statements, and types without scripts, define
none. -/
def definition? (statement : List Char) : Option Definition := do
  let head ← createOrReplace? (trimStart (stripComments statement))
  let (keyword, qualified) ← modifiedHead? head
  let objectType ← ObjectType.ofSingular? (String.ofList keyword)
  return ⟨objectType, String.ofList (lastPart qualified), String.ofList (terminated (trim statement))⟩

def definitions (ddl : String) : List Definition :=
  (statements ddl.toList).filterMap definition?

def scriptsOfDump (ddl database schema : String) : List Script :=
  (definitions ddl).map fun d => Script.ofDefinition database schema d.objectType d.name d.ddl

end SchemaDeploy.Sql
