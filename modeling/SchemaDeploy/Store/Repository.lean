import SchemaDeploy.Store.Record
import SchemaDeploy.Sql.Create

namespace SchemaDeploy

/-- `hashes` holds the source hashes as of the last load, `failing` the names whose statements are
rejected, and `clock` the time that is recorded. -/
structure Repository where
  database : String
  state : RepositoryState
  hashes : Keyed String
  currentSync : Option Nat
  failing : Names
  testResults : Keyed (List TestResult)
  executions : List Execution
  statePath : Option String
  clock : String
  deriving DecidableEq, Repr

namespace Repository

def new (clock database : String) : Repository :=
  ⟨upperText database, .empty, .empty, none, .empty, .empty, [], none, clock⟩

def objectKey (schema name : String) : String :=
  schema ++ "." ++ name

def withDefinition (schema : String) (objects : Keyed LiveObject) (d : Sql.Definition) :
    Keyed LiveObject :=
  let name := upperText d.name
  objects.insert (objectKey schema name) ⟨schema, name, d.objectType, d.ddl⟩

def withSchemaDump (r : Repository) (schema ddl : String) : Repository :=
  let schema := upperText schema
  let objects := (Sql.definitions ddl).foldl (withDefinition schema) r.state.objects
  { r with state := { r.state with schemas := r.state.schemas.add schema, objects := objects } }

def withConfigRows (r : Repository) (fullName : String) (rows : List Row) : Repository :=
  { r with state := { r.state with
      configTables := r.state.configTables.insert (upperText fullName) rows } }

def withTestResults (r : Repository) (testId : String) (results : List TestResult) : Repository :=
  { r with testResults := r.testResults.insert testId results }

def failOn (r : Repository) (name : String) : Repository :=
  { r with failing := r.failing.add (upperText name) }

def liveObject? (r : Repository) (schema name : String) : Option LiveObject :=
  r.state.objects.get? (objectKey (upperText schema) (upperText name))

def fails (r : Repository) (s : Script) : Bool :=
  r.failing.contains s.id || r.failing.contains s.fullName

def syncId (r : Repository) : Nat :=
  r.currentSync.getD 0

def recordEvent (r : Repository) (s : Script) (status : SyncStatus) (message : String) :
    Repository :=
  let event : ScriptEvent :=
    ⟨toString (r.state.events.length + 1), s.id, s.fullName, s.hash, status, message, r.syncId,
      r.clock⟩
  { r with state := { r.state with events := r.state.events ++ [event] } }

def rejection (sql : String) : String :=
  "statement rejected by database: " ++ (textLines sql).headD ""

def reject (r : Repository) (s : Script) (sql : String) : Repository :=
  r.recordEvent s .error (rejection sql)

def execute (r : Repository) (scriptId sql : String) : Repository :=
  { r with executions := r.executions ++ [⟨scriptId, sql⟩] }

/-- The statements of a migration, without the lines that start with three dashes. -/
def migrationBody (content : String) : String :=
  let kept := (Text.lines content.toList).filter fun l =>
    !(['-', '-', '-'].isPrefixOf (Text.trimStart l))
  String.ofList (Text.trim (List.intercalate ['\n'] kept))

/-- The live objects after a script has run: a script without a version replaces its object, and a
migration only makes one that is not there yet. -/
def applied (objects : Keyed LiveObject) (s : Script) : Keyed LiveObject :=
  let key := objectKey s.schema s.name
  if s.isMigration then
    if objects.contains key then objects
    else objects.insert key ⟨s.schema, s.name, s.objectType, migrationBody s.content⟩
  else objects.insert key ⟨s.schema, s.name, s.objectType, s.content⟩

def applyToLive (r : Repository) (s : Script) : Repository :=
  { r with state := { r.state with
      schemas := r.state.schemas.add s.schema
      objects := applied r.state.objects s } }

def record (r : Repository) (s : Script) : HistoryRecord :=
  ⟨s.id, s.fullName, s.objectType, s.migration.bind (·.rollback), s.hash, s.deployedHash, r.syncId,
    r.clock⟩

def updateHistory (r : Repository) (s : Script) : Repository :=
  { r with state := { r.state with history := r.state.history.insert s.id (r.record s) } }

def forget (r : Repository) (s : Script) : Repository :=
  { r with state := { r.state with history := r.state.history.erase s.id } }

def dropLive (r : Repository) (s : Script) : Repository :=
  { r with state := { r.state with objects := r.state.objects.erase (objectKey s.schema s.name) } }

def loadHashes (r : Repository) : Repository :=
  { r with hashes := Keyed.ofList (r.state.history.values.map fun h => (h.scriptId, h.scriptHash)) }

def isChanged (r : Repository) (s : Script) : Bool :=
  r.hashes.get? s.id != some s.hash

def isDeployed (r : Repository) (s : Script) : Bool :=
  r.hashes.contains s.id

def deploy (r : Repository) (s : Script) (onlyHashes : Bool) : Repository × Except SyncError Unit :=
  if !onlyHashes && r.fails s then
    (r.reject s s.content, .error (.executionFailed s.id (rejection s.content)))
  else
    let ran := if onlyHashes then r else (r.execute s.id s.content).applyToLive s
    ((ran.updateHistory s).recordEvent s .success "Successfully deployed object", .ok ())

def statement? (sql : Option String) : Option String :=
  sql.filter fun t => !isBlankText t

/-- Runs the rollback statement of a migration, if it has one, and forgets the migration. Undoing
version 0 drops the object. -/
def rollback (r : Repository) (s : Script) : Repository × Except SyncError Unit :=
  let done (r : Repository) :=
    ((r.forget s).recordEvent s .success "Successfully rolled back object", Except.ok ())
  match statement? (s.migration.bind (·.rollback)) with
  | none => done r
  | some sql =>
    if r.fails s then (r.reject s sql, .error (.executionFailed s.id (rejection sql)))
    else
      let ran := r.execute s.id sql
      done (if s.version = some 0 then ran.dropLive s else ran)

def verify (r : Repository) (s : Script) : Repository × Bool :=
  let done (r : Repository) := (r.recordEvent s .success "Successfully verified object", true)
  match statement? (s.migration.bind (·.verify)) with
  | none => done r
  | some sql => if r.fails s then (r.reject s sql, false) else done (r.execute s.id sql)

def userSchemas (r : Repository) : List String :=
  r.state.schemas.keys.filter fun s =>
    !sameText s "INFORMATION_SCHEMA" && !sameText s "PUBLIC"

def typeThenName (a b : LiveObject) : Bool :=
  a.objectType.rank < b.objectType.rank || (a.objectType == b.objectType && a.name ≤ b.name)

def liveScripts (r : Repository) (schema : String) : List Script :=
  ((r.state.objects.values.filter fun o => sameText o.schema schema).mergeSort typeThenName).map
    fun o => Script.ofDefinition r.database o.schema o.objectType o.name o.ddl

def liveNames (r : Repository) : List String :=
  r.state.objects.values.map fun o => r.database ++ "." ++ o.schema ++ "." ++ o.name

def recordedMigrations (r : Repository) (ids : Names) : List Script :=
  (ids.keys.filterMap r.state.history.get?).filterMap HistoryRecord.toMigration?

def configRows (r : Repository) (fullName : String) : List Row :=
  (r.state.configTables.get? (upperText fullName)).getD []

def startSync (r : Repository) (change : ChangeType) (message : String) : Repository :=
  let id := r.state.syncs.length + 1
  { r with
    state := { r.state with
      syncs := r.state.syncs ++ [⟨id, change, .inProgress, message, none, r.clock, none⟩] }
    currentSync := some id }

def updateSync (id : Nat) (f : ChangeSync → ChangeSync) : List ChangeSync → List ChangeSync
  | [] => []
  | s :: ss => if s.id = id then f s :: ss else s :: updateSync id f ss

def endSync (r : Repository) (change : ChangeType) (status : SyncStatus) (message : String)
    (count : Option Nat) : Repository × Except SyncError Unit :=
  match r.currentSync with
  | none => (r, .error (.repository (change.word ++ " ended without being started")))
  | some id =>
    if r.state.syncs.any (·.id == id) then
      let finish (s : ChangeSync) : ChangeSync :=
        { s with changeType := change, status := status, message := message, count := count
                 endTime := some r.clock }
      ({ r with state := { r.state with syncs := updateSync id finish r.state.syncs } }, .ok ())
    else (r, .error (.repository ("change sync " ++ toString id ++ " not found")))

def setLineage (r : Repository) (edges : List Edge) : Repository :=
  { r with state := { r.state with lineage := edges } }

def runTest (r : Repository) (t : TestScript) (query : String) : Repository × List TestResult :=
  let ran := r.execute t.id query
  if r.fails t.subject then (ran, [.ofError ("test query for " ++ t.id ++ " failed")])
  else (ran, (r.testResults.get? t.id).getD [])

end Repository

end SchemaDeploy
