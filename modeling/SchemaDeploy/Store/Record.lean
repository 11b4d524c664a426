import SchemaDeploy.Dependency.Graph
import SchemaDeploy.Keyed
import SchemaDeploy.Script.Rows

namespace SchemaDeploy

inductive ChangeType where
  | deploy
  | rollback
  | verify
  | createScript
  | createLineage
  | test
  | cleanup
  deriving DecidableEq, Repr

def ChangeType.all : List ChangeType :=
  [.deploy, .rollback, .verify, .createScript, .createLineage, .test, .cleanup]

def ChangeType.word : ChangeType → String
  | .deploy => "DEPLOY"
  | .rollback => "ROLLBACK"
  | .verify => "VERIFY"
  | .createScript => "CREATE_SCRIPT"
  | .createLineage => "CREATE_LINEAGE"
  | .test => "TEST"
  | .cleanup => "CLEANUP"

inductive SyncStatus where
  | inProgress
  | success
  | error
  deriving DecidableEq, Repr

def SyncStatus.all : List SyncStatus :=
  [.inProgress, .success, .error]

def SyncStatus.word : SyncStatus → String
  | .inProgress => "IN_PROGRESS"
  | .success => "SUCCESS"
  | .error => "ERROR"

/-- One operation; it has an end time once it is over. -/
structure ChangeSync where
  id : Nat
  changeType : ChangeType
  status : SyncStatus
  message : String
  count : Option Nat
  startTime : String
  endTime : Option String
  deriving DecidableEq, Repr

/-- The outcome of one step of an operation. -/
structure ScriptEvent where
  id : String
  scriptId : String
  objectName : String
  scriptHash : String
  status : SyncStatus
  message : String
  syncId : Nat
  createdAt : String
  deriving DecidableEq, Repr

/-- The last deployment of a script: the hash of its source and of the text that was run. -/
structure HistoryRecord where
  scriptId : String
  objectName : String
  objectType : ObjectType
  rollback : Option String
  scriptHash : String
  deployedHash : String
  syncId : Nat
  updatedAt : String
  deriving DecidableEq, Repr

structure LiveObject where
  schema : String
  name : String
  objectType : ObjectType
  ddl : String
  deriving DecidableEq, Repr

/-- The row of a test query. -/
structure TestResult where
  result : String
  message : String
  deriving DecidableEq, Repr

def TestResult.ofError (message : String) : TestResult :=
  ⟨"ERROR", message⟩

/-- A statement that was run. -/
structure Execution where
  scriptId : String
  sql : String
  deriving DecidableEq, Repr

/-- What outlives a run. Live objects are keyed by schema and name, history by script id. -/
structure RepositoryState where
  schemas : Names
  objects : Keyed LiveObject
  history : Keyed HistoryRecord
  syncs : List ChangeSync
  events : List ScriptEvent
  lineage : List Edge
  configTables : Keyed (List Row)
  deriving DecidableEq, Repr

def RepositoryState.empty : RepositoryState :=
  ⟨.empty, .empty, .empty, [], [], [], .empty⟩

def afterLastColon? (t : List Char) : Option (List Char) :=
  match t.reverse.dropWhile (· ≠ ':') with
  | [] => none
  | _ :: _ => some (t.reverse.takeWhile (· ≠ ':')).reverse

def HistoryRecord.toMigration? (r : HistoryRecord) : Option Script := do
  guard r.objectType.isVersioned
  let version ← Text.readNumber? (← afterLastColon? r.scriptId.toList)
  let (database, schema, name) ← Script.nameParts? r.objectName
  return Script.ofUnit database schema r.objectType name ⟨version, none, "", r.rollback, none⟩

end SchemaDeploy
