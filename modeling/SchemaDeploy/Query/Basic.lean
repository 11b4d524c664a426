import SchemaDeploy.Query.Token

namespace SchemaDeploy.Query

inductive Piece where
  | text (s : String)
  | relation (name : List Ident)
  deriving DecidableEq, Repr

abbrev Form : Type := List Piece

def nameText (name : List Ident) : String :=
  ".".intercalate (name.map Ident.text)

def Piece.render : Piece → String
  | .text s => s
  | .relation name => nameText name

def render (f : Form) : String :=
  String.join (f.map Piece.render)

def relations (f : Form) : List (List Ident) :=
  f.filterMap fun
    | .relation name => some name
    | .text _ => none

/-- A named query of a WITH clause. -/
structure Cte where
  name : Ident
  columns : List String
  query : Form
  deriving DecidableEq, Repr

def columnList (columns : List String) : String :=
  if columns = [] then "" else " (" ++ ", ".intercalate columns ++ ")"

/-- A whole query; `ctes` are those of the WITH clause that its form starts with. -/
structure ParsedQuery where
  ctes : List Cte
  form : Form
  deriving DecidableEq, Repr

def words (s : String) : Form :=
  [.text s]

def commas (fs : List Form) : Form :=
  List.intercalate (words ", ") fs

def Cte.form (c : Cte) : Form :=
  words (c.name.text ++ columnList c.columns ++ " AS (") ++ c.query ++ words ")"

/-- What a reference of several parts becomes when its last part names a mock. -/
def redirectName (mocks : List String) (name : List Ident) : List Ident :=
  match name.getLast? with
  | some last =>
    if 1 < name.length ∧ mocks.contains (upperText last.value) then [⟨upperText last.value, none⟩]
    else name
  | none => name

def redirect (mocks : List String) (f : Form) : Form :=
  f.map fun
    | .relation name => .relation (redirectName mocks name)
    | .text s => .text s

end SchemaDeploy.Query
