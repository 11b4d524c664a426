import SchemaDeploy.Keyed
import SchemaDeploy.Script.Basic
import SchemaDeploy.Text.Search

namespace SchemaDeploy

abbrev Parameters : Type := Keyed String

namespace Parameters

open Text

def placeholder (name : String) : List Char :=
  '$' :: '{' :: name.toList ++ ['}']

def startsValue (c : Char) : Bool :=
  ['(', ')', ',', '.', '\'', '"', '@'].contains c || isAsciiBlank c

def endsValue (c : Char) : Bool :=
  ['(', ')', ',', ';', '.', '\'', '"'].contains c || isAsciiBlank c

/-- Whether a value between two characters, or an end of the text, stands on its own. -/
def isBounded (before after : Option Char) : Bool :=
  before.all startsValue && after.all endsValue

def anywhere (_ _ : Option Char) : Bool := true

def injectChars (ps : Parameters) (t : List Char) : List Char :=
  ps.entries.foldl
    (fun t p => replaceSame anywhere (placeholder p.1) p.2.toList t) t

def parametrizeWith (accept : Option Char → Option Char → Bool) (ps : Parameters)
    (t : List Char) : List Char :=
  ps.entries.foldl (fun t p => replaceSame accept p.2.toList (placeholder p.1) t) t

def inject (ps : Parameters) (s : String) : String :=
  String.ofList (ps.injectChars s.toList)

/-- Puts placeholders in for values that stand on their own; an empty value never does. -/
def parametrize (ps : Parameters) (s : String) : String :=
  String.ofList (parametrizeWith isBounded ps s.toList)

def parametrizePart (ps : Parameters) (s : String) : String :=
  String.ofList (parametrizeWith anywhere ps s.toList)

def injectScript (ps : Parameters) (s : Script) : Script :=
  let injected := s.setContent (ps.inject s.content)
  { injected with
    migration := s.migration.map fun m =>
      { m with rollback := m.rollback.map ps.inject, verify := m.verify.map ps.inject } }

/-- Puts placeholders into the database and the schema; the name of the object stays. -/
def parametrizeIdentity (ps : Parameters) (s : Script) : Script :=
  (s.setDatabase (ps.parametrizePart s.database)).setSchema (ps.parametrizePart s.schema)

def parametrizeContent (ps : Parameters) (s : Script) : Script :=
  s.setContent (ps.parametrize s.content)

def parametrizeScript (ps : Parameters) (s : Script) : Script :=
  ps.parametrizeIdentity (ps.parametrizeContent s)

def parametrizeName (ps : Parameters) (fullName : String) : String :=
  match Script.nameParts? fullName with
  | none => fullName
  | some (database, schema, name) =>
    ps.parametrizePart database ++ "." ++ ps.parametrizePart schema ++ "." ++ name

def injectNames (ps : Parameters) (names : List String) : Names :=
  Names.ofNames (names.map ps.inject)

end Parameters

end SchemaDeploy
