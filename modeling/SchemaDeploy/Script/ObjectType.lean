import SchemaDeploy.Text.Case
import SchemaDeploy.Text.Blank

namespace SchemaDeploy

inductive ObjectType where
  | view
  | function
  | procedure
  | fileFormat
  | table
  | stream
  | sequence
  | stage
  | task
  | streamlit
  | pipe
  | alert
  | dynamicTable
  deriving DecidableEq, Repr

namespace ObjectType

def all : List ObjectType :=
  [view, function, procedure, fileFormat, table, stream, sequence, stage, task, streamlit, pipe,
    alert, dynamicTable]

def rank (t : ObjectType) : Nat :=
  all.idxOf t

def directory : ObjectType → String
  | view => "VIEWS"
  | function => "FUNCTIONS"
  | procedure => "PROCEDURES"
  | fileFormat => "FILE_FORMATS"
  | table => "TABLES"
  | stream => "STREAMS"
  | sequence => "SEQUENCES"
  | stage => "STAGES"
  | task => "TASKS"
  | streamlit => "STREAMLITS"
  | pipe => "PIPES"
  | alert => "ALERTS"
  | dynamicTable => "DYNAMIC_TABLES"

def singular : ObjectType → String
  | view => "VIEW"
  | function => "FUNCTION"
  | procedure => "PROCEDURE"
  | fileFormat => "FILE FORMAT"
  | table => "TABLE"
  | stream => "STREAM"
  | sequence => "SEQUENCE"
  | stage => "STAGE"
  | task => "TASK"
  | streamlit => "STREAMLIT"
  | pipe => "PIPE"
  | alert => "ALERT"
  | dynamicTable => "DYNAMIC TABLE"

def plural : ObjectType → String
  | fileFormat => "FILE FORMATS"
  | dynamicTable => "DYNAMIC TABLES"
  | t => t.directory

/-- Objects of these types change by numbered migrations; the others are replaced as a whole. -/
def isVersioned : ObjectType → Bool
  | table | stream | sequence | stage | task | alert | dynamicTable => true
  | _ => false

def ofDirectory? (name : String) : Option ObjectType :=
  all.find? fun t => sameText t.directory name

def ofSingular? (keyword : String) : Option ObjectType :=
  all.find? fun t => sameText t.singular (String.ofList (Text.collapse keyword.toList))

end ObjectType

end SchemaDeploy
