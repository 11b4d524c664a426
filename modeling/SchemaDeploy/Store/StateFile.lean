import SchemaDeploy.Json
import SchemaDeploy.Store.Record

namespace SchemaDeploy.StateFile

open JsonValue

def ofOption {α : Type} (f : α → JsonValue) : Option α → JsonValue
  | none => null
  | some a => f a

def ofNat (n : Nat) : JsonValue :=
  number (toString n)

def ofList {α : Type} (f : α → JsonValue) (l : List α) : JsonValue :=
  array (l.map f)

def ofKeyed {α : Type} (f : α → JsonValue) (m : Keyed α) : JsonValue :=
  object (m.entries.map fun e => (e.1, f e.2))

def ofObject (o : LiveObject) : JsonValue :=
  object [("schema", string o.schema), ("name", string o.name),
    ("object_type", string o.objectType.directory), ("ddl", string o.ddl)]

def ofRecord (h : HistoryRecord) : JsonValue :=
  object [("script_id", string h.scriptId), ("object_name", string h.objectName),
    ("object_type", string h.objectType.directory), ("rollback", ofOption string h.rollback),
    ("script_hash", string h.scriptHash), ("deployed_hash", string h.deployedHash),
    ("change_sync_id", ofNat h.syncId), ("updated_at", string h.updatedAt)]

def ofSync (s : ChangeSync) : JsonValue :=
  object [("id", ofNat s.id), ("change_type", string s.changeType.word),
    ("status", string s.status.word), ("message", string s.message),
    ("change_count", ofOption ofNat s.count), ("start_time", string s.startTime),
    ("end_time", ofOption string s.endTime)]

def ofEvent (e : ScriptEvent) : JsonValue :=
  object [("id", string e.id), ("script_id", string e.scriptId),
    ("object_name", string e.objectName), ("script_hash", string e.scriptHash),
    ("status", string e.status.word), ("message", string e.message),
    ("change_sync_id", ofNat e.syncId), ("created_at", string e.createdAt)]

def ofEdge (e : Edge) : JsonValue :=
  object [("object_name", string e.object), ("object_type", string e.objectType.directory),
    ("dependency_name", string e.dependency), ("dependency_type", string e.dependencyType.directory)]

def ofRow (row : Row) : JsonValue :=
  ofList (ofOption string) row

def ofState (s : RepositoryState) : JsonValue :=
  object [("schemas", ofList string s.schemas.keys), ("objects", ofKeyed ofObject s.objects),
    ("history", ofKeyed ofRecord s.history), ("change_syncs", ofList ofSync s.syncs),
    ("events", ofList ofEvent s.events), ("lineage", ofList ofEdge s.lineage),
    ("config_tables", ofKeyed (ofList ofRow) s.configTables)]

def write (s : RepositoryState) : String :=
  (ofState s).render 0

/-- The values of a record's fields, `none` where one is missing. A record may also be an array of
all its values; no field occurs twice. -/
def fields? (names : List String) : JsonValue → Option (List (Option JsonValue))
  | object members =>
    if names.all fun n => (members.filter fun m => m.1 == n).length ≤ 1 then
      some (names.map fun n => members.lookup n)
    else none
  | array items => if items.length = names.length then some (items.map some) else none
  | _ => none

def text? : JsonValue → Option String
  | string s => some s
  | _ => none

def nat? : JsonValue → Option Nat
  | number t => if t.toList.all Char.isDigit then (Text.readDigits 0 t.toList).toOption else none
  | _ => none

def list? {α : Type} (read : JsonValue → Option α) : JsonValue → Option (List α)
  | array items => items.mapM read
  | _ => none

def keyed? {α : Type} (read : JsonValue → Option α) : JsonValue → Option (Keyed α)
  | object members => (members.mapM fun m => (read m.2).map (m.1, ·)).map Keyed.ofList
  | _ => none

def optional? {α : Type} (read : JsonValue → Option α) : Option JsonValue → Option (Option α)
  | none => some none
  | some null => some none
  | some v => (read v).map some

/-- A word, also as an object with the word as its one key and null as the value. -/
def wordText? : JsonValue → Option String
  | string s => some s
  | object [(s, null)] => some s
  | _ => none

def word? {α : Type} (all : List α) (word : α → String) (v : JsonValue) : Option α :=
  (wordText? v).bind fun t => all.find? fun a => word a == t

def objectType? : JsonValue → Option ObjectType :=
  word? ObjectType.all ObjectType.directory

def between (low high : Nat) (a b : Char) : Bool :=
  a.isDigit && b.isDigit &&
    (let n := (a.toNat - '0'.toNat) * 10 + (b.toNat - '0'.toNat); low ≤ n && n ≤ high)

def isZone : List Char → Bool
  | ['Z'] => true
  | ['z'] => true
  | [sign, a, b, ':', c, d] => (sign == '+' || sign == '-') && between 0 23 a b && between 0 59 c d
  | _ => false

def isFractionAndZone : List Char → Bool
  | '.' :: t => t.head?.any Char.isDigit && isZone (t.dropWhile Char.isDigit)
  | t => isZone t

def isTime : List Char → Bool
  | y1 :: y2 :: y3 :: y4 :: '-' :: m1 :: m2 :: '-' :: d1 :: d2 :: separator :: h1 :: h2 :: ':' ::
      n1 :: n2 :: ':' :: s1 :: s2 :: t =>
    [y1, y2, y3, y4].all Char.isDigit && between 1 12 m1 m2 && between 1 31 d1 d2 &&
      ['T', 't', ' '].contains separator && between 0 23 h1 h2 && between 0 59 n1 n2 &&
      between 0 60 s1 s2 && isFractionAndZone t
  | _ => false

def time? (v : JsonValue) : Option String :=
  (text? v).filter fun t => isTime t.toList

def object? (v : JsonValue) : Option LiveObject := do
  match ← fields? ["schema", "name", "object_type", "ddl"] v with
  | [schema, name, objectType, ddl] =>
    return ⟨← text? (← schema), ← text? (← name), ← objectType? (← objectType), ← text? (← ddl)⟩
  | _ => none

def record? (v : JsonValue) : Option HistoryRecord := do
  match ← fields? ["script_id", "object_name", "object_type", "rollback", "script_hash",
    "deployed_hash", "change_sync_id", "updated_at"] v with
  | [id, name, objectType, rollback, hash, deployed, sync, updated] =>
    return ⟨← text? (← id), ← text? (← name), ← objectType? (← objectType),
      ← optional? text? rollback, ← text? (← hash), ← text? (← deployed), ← nat? (← sync),
      ← time? (← updated)⟩
  | _ => none

def sync? (v : JsonValue) : Option ChangeSync := do
  match ← fields? ["id", "change_type", "status", "message", "change_count", "start_time",
    "end_time"] v with
  | [id, change, status, message, count, started, ended] =>
    return ⟨← nat? (← id), ← word? ChangeType.all ChangeType.word (← change),
      ← word? SyncStatus.all SyncStatus.word (← status), ← text? (← message),
      ← optional? nat? count, ← time? (← started), ← optional? time? ended⟩
  | _ => none

def event? (v : JsonValue) : Option ScriptEvent := do
  match ← fields? ["id", "script_id", "object_name", "script_hash", "status", "message",
    "change_sync_id", "created_at"] v with
  | [id, script, name, hash, status, message, sync, created] =>
    return ⟨← text? (← id), ← text? (← script), ← text? (← name), ← text? (← hash),
      ← word? SyncStatus.all SyncStatus.word (← status), ← text? (← message), ← nat? (← sync),
      ← time? (← created)⟩
  | _ => none

def edge? (v : JsonValue) : Option Edge := do
  match ← fields? ["object_name", "object_type", "dependency_name", "dependency_type"] v with
  | [name, objectType, dependency, dependencyType] =>
    return ⟨← text? (← name), ← objectType? (← objectType), ← text? (← dependency),
      ← objectType? (← dependencyType)⟩
  | _ => none

def row? : JsonValue → Option Row :=
  list? fun v => optional? text? (some v)

def state? (v : JsonValue) : Option RepositoryState := do
  match ← fields? ["schemas", "objects", "history", "change_syncs", "events", "lineage",
    "config_tables"] v with
  | [schemas, objects, history, syncs, events, lineage, tables] =>
    return ⟨Names.ofNames (← list? text? (← schemas)), ← keyed? object? (← objects),
      ← keyed? record? (← history), ← list? sync? (← syncs), ← list? event? (← events),
      ← list? edge? (← lineage), ← keyed? (list? row?) (← tables)⟩
  | _ => none

def read? (text : String) : Option RepositoryState :=
  (JsonValue.parse? text).bind state?

end SchemaDeploy.StateFile
