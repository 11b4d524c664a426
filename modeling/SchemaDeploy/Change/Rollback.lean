import SchemaDeploy.Change.Release

namespace SchemaDeploy.Release

def removedIds (r : Repository) (all : List Script) : Names :=
  (all.map Script.id).foldl Keyed.erase (Names.ofNames r.hashes.keys)

def undone (l : Release) (r : Repository) (all : List Script) : List Script × List Script :=
  (r.recordedMigrations (removedIds r all),
    (l.changed r all).filter fun s => !s.objectType.isVersioned)

def rollbackOrder (l : Release) (r : Repository) : Except SyncError (List Script) :=
  match l.checkedListing with
  | .error e => .error e
  | .ok all =>
    let (migrations, restored) := l.undone r all
    match DependencyGraph.ofScripts (l.config.overridesWithin (migrations ++ restored)) migrations with
    | .error e => .error e
    | .ok g =>
      match g.add restored with
      | .error e => .error e
      | .ok g => g.sorted

def rollbackStep (l : Release) (s : Script) : Operation Unit :=
  fun r =>
    let injected := l.injected s
    if injected.isMigration then r.rollback injected else r.deploy injected false

def rollbackSteps (l : Release) : List Script → Operation Unit
  | [], r => (r, .ok ())
  | s :: ss, r =>
    match l.rollbackStep s r with
    | (r, .error e) => (r, .error e)
    | (r, .ok ()) => l.rollbackSteps ss r

def rollbackChanged (l : Release) : Operation Nat :=
  fun r =>
    let r := r.loadHashes
    match l.rollbackOrder r with
    | .error e => (r, .error e)
    | .ok scripts =>
      match l.rollbackSteps scripts.reverse r with
      | (r, .error e) => (r, .error e)
      | (r, .ok ()) => (r, .ok scripts.length)

def rollback (l : Release) : Operation Nat :=
  bracketed .rollback id l.rollbackChanged

end SchemaDeploy.Release
