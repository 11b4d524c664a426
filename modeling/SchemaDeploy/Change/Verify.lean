import SchemaDeploy.Change.Release
import SchemaDeploy.Script.Body

namespace SchemaDeploy

/-- How many scripts were checked, and the ids of those that failed. -/
structure VerifyReport where
  checked : Nat
  failures : List String
  deriving DecidableEq, Repr

def VerifyReport.add (report : VerifyReport) (id : String) (ok : Bool) : VerifyReport :=
  ⟨report.checked + 1, if ok then report.failures else report.failures ++ [id]⟩

def VerifyReport.outcome (report : VerifyReport) : Except SyncError VerifyReport :=
  if report.failures = [] then .ok report else .error (.verificationFailed report.failures.length)

namespace Release

def comparedLive? (l : Release) (live : Script) : Option Script :=
  if live.isMigration || l.config.isExcluded live then none
  else
    let live := l.parameters.parametrizeScript live
    if l.config.isExcluded live then none else some live

def matchesSource (sources : List Script) (live : Script) : Bool :=
  match sources.find? fun s => s.sameIdentity live with
  | some source => live.equivalent source
  | none => false

def liveScripts (r : Repository) : List Script :=
  r.userSchemas.flatMap r.liveScripts

def compareLive (l : Release) (sources : List Script) (r : Repository) : VerifyReport :=
  ((liveScripts r).filterMap l.comparedLive?).foldl
    (fun report live => report.add live.id (matchesSource sources live)) ⟨0, []⟩

def sameObject (s t : Script) : Bool :=
  s.objectType == t.objectType && s.fullName == t.fullName

def objectBefore (s t : Script) : Bool :=
  s.objectType.rank < t.objectType.rank || (s.objectType == t.objectType && s.fullName < t.fullName)

/-- Puts a migration in the place of its object, where the newest version stays. -/
def insertLatest (s : Script) : List Script → List Script
  | [] => [s]
  | t :: ts =>
    if sameObject s t then (if t.version.getD 0 < s.version.getD 0 then s else t) :: ts
    else if objectBefore s t then s :: t :: ts
    else t :: insertLatest s ts

def latestMigrations (scripts : List Script) : List Script :=
  (scripts.filter Script.isMigration).foldl (fun latest s => insertLatest s latest) []

def verifySteps (l : Release) : List Script → VerifyReport → Repository → Repository × VerifyReport
  | [], report, r => (r, report)
  | s :: ss, report, r =>
    let injected := l.injected s
    match r.verify injected with
    | (r, ok) => l.verifySteps ss (report.add injected.id ok) r

def verifyAll (l : Release) : Operation VerifyReport :=
  fun r =>
    let r := r.loadHashes
    match l.listing with
    | .error e => (r, .error e)
    | .ok all =>
      let sources := l.included all
      let (r, report) := l.verifySteps (latestMigrations sources) (l.compareLive sources r) r
      (r, report.outcome)

def verify (l : Release) : Operation VerifyReport :=
  bracketed .verify VerifyReport.checked l.verifyAll

end Release

end SchemaDeploy
