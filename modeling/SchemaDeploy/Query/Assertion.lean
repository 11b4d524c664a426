import SchemaDeploy.Error
import SchemaDeploy.Query.Parser
import SchemaDeploy.Script.Body

namespace SchemaDeploy.Query

def expectedData : String := "EXPECTED_DATA"

def actualData : String := "ACTUAL_DATA"

/-- A named query that stands for a table. -/
structure Mock where
  name : String
  query : Form
  deriving DecidableEq, Repr

/-- The mocks of a test in their order, and the rows it expects. -/
structure Fixture where
  mocks : List Mock
  expected : Form
  deriving DecidableEq, Repr

abbrev SqlParser : Type := String → Option (List (Option ParsedQuery))

def invalid {α : Type} (t : TestScript) (message : String) : Except SyncError α :=
  .error (.testQueryInvalid t.id message)

def single (parse : SqlParser) (t : TestScript) (text : String) : Except SyncError ParsedQuery :=
  match parse text with
  | none => invalid t "sql parser error"
  | some [some q] => .ok q
  | some _ => invalid t "expected a single query"

def Mock.ofCte (c : Cte) : Mock :=
  ⟨upperText c.name.value, c.query⟩

/-- The named queries of a test; the last one with the name of the expected rows counts. -/
def fixtureBy (parse : SqlParser) (t : TestScript) : Except SyncError Fixture :=
  match single parse t t.content with
  | .error e => .error e
  | .ok q =>
    if q.ctes = [] then invalid t "test script must start with a WITH clause"
    else
      let (expected, mocks) := (q.ctes.map Mock.ofCte).partition (·.name == expectedData)
      match expected.getLast? with
      | none => invalid t "missing EXPECTED_DATA CTE"
      | some e => .ok ⟨mocks, e.query⟩

def subject (parse : SqlParser) (t : TestScript) : Except SyncError ParsedQuery :=
  let body := (Body.definitionBody? t.subject.objectType t.subject.content.toList).map String.ofList
  match t.subject.objectType, body with
  | .view, some body => single parse t body
  | .view, none => invalid t "cannot locate the view query"
  | .function, some body => single parse t ("SELECT (" ++ body ++ ") AS RETURN FROM MOCK_DATA")
  | .function, none => invalid t "cannot locate the function body"
  | other, _ => invalid t ("tests are not supported for " ++ other.directory)

def assertion : String :=
  "SELECT COUNT(1) AS RESULT, 'rows missing from actual data' AS MESSAGE " ++
    "FROM (SELECT * FROM ACTUAL_DATA EXCEPT SELECT * FROM EXPECTED_DATA) HAVING RESULT > 0 " ++
    "UNION ALL " ++
    "SELECT COUNT(1) AS RESULT, 'rows missing from expected data' AS MESSAGE " ++
    "FROM (SELECT * FROM EXPECTED_DATA EXCEPT SELECT * FROM ACTUAL_DATA) HAVING RESULT > 0"

def block (name query : String) : String :=
  name ++ " AS (\n\t" ++ query ++ "\n)"

/-- The named queries of an assertion query: the mocks, the expected rows, and the subject reading
from the mocks. -/
def blocks (f : Fixture) (subject : Form) : List (String × String) :=
  f.mocks.map (fun m => (m.name, render m.query)) ++
    [(expectedData, render f.expected),
      (actualData, render (redirect (f.mocks.map Mock.name) subject)),
      ("ASSERTION", assertion)]

def queryBy (parse : SqlParser) (t : TestScript) : Except SyncError String :=
  match fixtureBy parse t with
  | .error e => .error e
  | .ok f =>
    match subject parse t with
    | .error e => .error e
    | .ok q =>
      .ok ("WITH " ++ ",\n".intercalate ((blocks f q.form).map fun b => block b.1 b.2) ++
        "\nSELECT * FROM ASSERTION;")

def fixture (t : TestScript) : Except SyncError Fixture :=
  fixtureBy parse? t

def ofTest (t : TestScript) : Except SyncError String :=
  queryBy parse? t

end SchemaDeploy.Query
