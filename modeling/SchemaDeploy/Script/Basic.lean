import SchemaDeploy.Script.ObjectType
import SchemaDeploy.Text.Digest

namespace SchemaDeploy

/-- One unit of a migration file; its content runs from the header to the last directive. -/
structure MigrationUnit where
  version : Nat
  author : Option String
  content : String
  rollback : Option String
  verify : Option String
  deriving DecidableEq, Repr

structure Migration where
  version : Nat
  author : Option String
  rollback : Option String
  verify : Option String
  deriving DecidableEq, Repr

/-- A script with its current content. `hash` identifies the content it was read with, and stays
when parameters are put in. A script without a migration replaces its object as a whole. -/
structure Script where
  database : String
  schema : String
  name : String
  objectType : ObjectType
  content : String
  hash : String
  path : Option String
  migration : Option Migration
  deriving DecidableEq, Repr

namespace Script

def ofContent (database schema : String) (objectType : ObjectType) (name content : String)
    (migration : Option Migration) : Script where
  database := upperText database
  schema := upperText schema
  name := upperText name
  objectType := objectType
  content := trimText content
  hash := contentHash (trimText content)
  path := none
  migration := migration

def state (database schema : String) (objectType : ObjectType) (name content : String) : Script :=
  ofContent database schema objectType name content none

def ofUnit (database schema : String) (objectType : ObjectType) (name : String)
    (u : MigrationUnit) : Script :=
  ofContent database schema objectType name u.content
    (some ⟨u.version, u.author, u.rollback, u.verify⟩)

def generatedAuthor : String := "schemasync"

/-- A CREATE statement as version 0: rolled back by a drop, verified by looking the object up. -/
def initial (database schema : String) (objectType : ObjectType) (name ddl : String) : Script :=
  let qualified := upperText (database ++ "." ++ schema ++ "." ++ name)
  let rollback := "DROP " ++ objectType.singular ++ " IF EXISTS " ++ qualified ++ ";"
  let verify := "SHOW " ++ objectType.plural ++ " LIKE '" ++ qualified ++ "';"
  let content := "---version: 0, author: " ++ generatedAuthor ++ "\n" ++ trimText ddl ++
    "\n---rollback: " ++ rollback ++ "\n---verify: " ++ verify
  ofUnit database schema objectType name ⟨0, some generatedAuthor, content, some rollback, some verify⟩

/-- A live definition as a script: a migration if objects of its type change by migrations. -/
def ofDefinition (database schema : String) (objectType : ObjectType) (name ddl : String) :
    Script :=
  if objectType.isVersioned then initial database schema objectType name ddl
  else state database schema objectType name ddl

def setContent (s : Script) (content : String) : Script :=
  { s with content := trimText content }

def setDatabase (s : Script) (database : String) : Script :=
  { s with database := upperText database }

def setSchema (s : Script) (schema : String) : Script :=
  { s with schema := upperText schema }

def withPath (s : Script) (path : String) : Script :=
  { s with path := some path }

def deployedHash (s : Script) : String :=
  contentHash s.content

def isMigration (s : Script) : Bool :=
  s.migration.isSome

def version (s : Script) : Option Nat :=
  s.migration.map (·.version)

def fullName (s : Script) : String :=
  s.database ++ "." ++ s.schema ++ "." ++ s.name

/-- The three parts of a full name; dots after the second one belong to the object. -/
def nameParts? (fullName : String) : Option (String × String × String) :=
  match fullName.toList.span (· ≠ '.') with
  | (_, []) => none
  | (database, _ :: rest) =>
    match rest.span (· ≠ '.') with
    | (_, []) => none
    | (schema, _ :: name) => some (String.ofList database, String.ofList schema, String.ofList name)

def id (s : Script) : String :=
  match s.migration with
  | none => s.fullName
  | some m => s.fullName ++ ":" ++ toString m.version

def sameIdentity (s t : Script) : Bool :=
  s.objectType == t.objectType && s.id == t.id

end Script

/-- The test of a script. -/
structure TestScript where
  subject : Script
  content : String
  path : Option String
  deriving DecidableEq, Repr

def TestScript.of (subject : Script) (content : String) (path : Option String) : TestScript :=
  ⟨subject, trimText content, path⟩

def TestScript.id (t : TestScript) : String :=
  t.subject.id ++ "_TEST"

end SchemaDeploy
