import SchemaDeploy.Error
import SchemaDeploy.Script.Basic

namespace SchemaDeploy.MigrationFile

open Text

/-- The text after three dashes and a keyword with its colon, with blanks around each part. -/
def directive? (keyword : String) (line : List Char) : Option (List Char) :=
  match trimStart line with
  | '-' :: '-' :: '-' :: t =>
    match (keyword? keyword.toList (trimStart t)).map trimStart with
    | some (':' :: r) => some r
    | _ => none
  | _ => none

/-- The digits of a header line, and the text after them; other lines with dashes are comments. -/
def headerDigits? (line : List Char) : Option (List Char × List Char) :=
  (directive? "version" line).bind fun t =>
    match (trimStart t).span isDecimal with
    | ([], _) => none
    | (digits, r) => some (digits, r)

def author? (t : List Char) : Option (Option (List Char)) :=
  match trimStart t with
  | [] => some none
  | ',' :: t =>
    match (keyword? "author".toList (trimStart t)).map trimStart with
    | some (':' :: t) =>
      match (trimStart t).span isWord with
      | ([], _) => none
      | (name, r) => if allBlank r then some (some name) else none
    | _ => none
  | _ => none

structure Header where
  version : Nat
  author : Option String
  deriving DecidableEq, Repr

def header (number : Nat) (line digits rest : List Char) : Except SyncError Header :=
  match author? rest with
  | none =>
    .error (.invalidMigration number
      ("malformed version header '" ++ String.ofList (trim line) ++ "'"))
  | some author =>
    match readDigits 0 digits with
    | .ok version => .ok ⟨version, author.map String.ofList⟩
    | .error e =>
      .error (.invalidMigration number
        ("invalid version number '" ++ String.ofList digits ++ "': " ++ e.message))

/-- A unit as it is cut from its file: the header and the raw text that starts with it. -/
structure RawUnit where
  header : Header
  text : List Char
  deriving DecidableEq, Repr

def isPreamble (line : List Char) : Bool :=
  match trim line with
  | [] => true
  | '-' :: '-' :: _ => true
  | _ => false

def withoutLineEnd (line : List Char) : List Char :=
  dropEndWhile (fun c => c == '\n' || c == '\r') line

/-- Reads the lines from line `number` on. `done` holds the finished units, and `last` the open
one, both the newest first. -/
def readUnits (number : Nat) (found : List RawUnit) : List (List Char) →
    Except SyncError (List RawUnit)
  | [] => .ok found.reverse
  | raw :: rest =>
    let line := withoutLineEnd raw
    match headerDigits? line with
    | some (digits, t) =>
      match header number line digits t with
      | .error e => .error e
      | .ok h =>
        if found.any (·.header.version == h.version) then
          .error (.duplicateVersion number h.version)
        else readUnits (number + 1) (⟨h, raw⟩ :: found) rest
    | none =>
      match found with
      | [] =>
        if isPreamble line then readUnits (number + 1) [] rest
        else .error (.invalidMigration number "content found before the first version header")
      | u :: us => readUnits (number + 1) ({ u with text := u.text ++ raw } :: us) rest

structure Directives where
  rollback : Option String
  verify : Option String
  deriving DecidableEq, Repr

def directiveValue (t : List Char) : Option String :=
  if trim t = [] then none else some (String.ofList (trim t))

def directiveOf? (keyword : String) (line : List Char) : Option (Option String) :=
  (directive? keyword line).map directiveValue

/-- The directives on the last two lines that are not blank: verify on the last one, rollback on the
last one or before verify. The header line holds none. -/
def directives (unit : List Char) : Directives :=
  match ((lines unit).drop 1).reverse.filter (fun l => !allBlank l) with
  | [] => ⟨none, none⟩
  | last :: rest =>
    match directiveOf? "verify" last with
    | some verify => ⟨(rest.head?.bind (directiveOf? "rollback")).join, verify⟩
    | none => ⟨(directiveOf? "rollback" last).join, none⟩

def RawUnit.finish (u : RawUnit) : MigrationUnit :=
  let body := trim u.text
  let d := directives body
  ⟨u.header.version, u.header.author, String.ofList body, d.rollback, d.verify⟩

def units (content : String) : Except SyncError (List MigrationUnit) :=
  match readUnits 1 [] (rawLines content.toList) with
  | .ok us => .ok (us.map RawUnit.finish)
  | .error e => .error e

end SchemaDeploy.MigrationFile
