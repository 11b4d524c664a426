import SchemaDeploy.Change.Release
import SchemaDeploy.Query.Assertion

namespace SchemaDeploy

/-- The rows that the query of a test gave; a test without rows has passed. -/
structure TestOutcome where
  testId : String
  results : List TestResult
  deriving DecidableEq, Repr

def TestOutcome.passed (o : TestOutcome) : Bool :=
  o.results.isEmpty

abbrev TestReport : Type := List TestOutcome

namespace TestReport

def passed (report : TestReport) : Nat :=
  report.countP TestOutcome.passed

def failed (report : TestReport) : List TestOutcome :=
  report.filter fun o => !o.passed

def isSuccess (report : TestReport) : Bool :=
  report.all TestOutcome.passed

end TestReport

namespace Release

def testable (l : Release) (all : List Script) : List Script :=
  ((l.included all).filter fun s => !s.objectType.isVersioned).map l.injected

def injectedTest (l : Release) (t : TestScript) : TestScript :=
  TestScript.of t.subject (l.parameters.inject t.content) t.path

def testStep (l : Release) (t : TestScript) (r : Repository) : Repository × TestOutcome :=
  let t := l.injectedTest t
  match Query.ofTest t with
  | .error e => (r, ⟨t.id, [.ofError e.message]⟩)
  | .ok query =>
    match r.runTest t query with
    | (r, results) => (r, ⟨t.id, results⟩)

def testSteps (l : Release) : List TestScript → Repository → Repository × TestReport
  | [], r => (r, [])
  | t :: ts, r =>
    match l.testStep t r with
    | (r, outcome) =>
      match l.testSteps ts r with
      | (r, rest) => (r, outcome :: rest)

def runTests (l : Release) (companions : List Script → Except SyncError (List TestScript)) :
    Operation TestReport :=
  fun r =>
    match l.listing with
    | .error e => (r, .error e)
    | .ok all =>
      match companions (l.testable all) with
      | .error e => (r, .error e)
      | .ok tests =>
        match l.testSteps tests r with
        | (r, report) => (r, .ok report)

def test (l : Release) (companions : List Script → Except SyncError (List TestScript)) :
    Operation TestReport :=
  bracketed .test List.length (l.runTests companions)

end Release

end SchemaDeploy
