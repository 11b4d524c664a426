import SchemaDeploy.Change.Deploy
import SchemaDeploy.Change.Export
import SchemaDeploy.Change.Inventory
import SchemaDeploy.Change.Rollback
import SchemaDeploy.Change.Test
import SchemaDeploy.Change.Verify
import SchemaDeploy.Project.Basic

namespace SchemaDeploy

structure Workspace where
  config : Config
  parameters : Parameters
  source : ScriptSource
  repository : Repository

def Project.open (p : Project) (tree : FileTree) (clock statePath : String) :
    Except SyncError Workspace :=
  match p.database with
  | .error e => .error e
  | .ok database =>
    match Repository.openFile tree clock database statePath with
    | .error e => .error e
    | .ok r => .ok ⟨p.config, p.parameters, ScriptSource.ofRoot p.root tree, r⟩

namespace Workspace

def release (w : Workspace) (tree : FileTree) : Release :=
  ⟨w.config, w.parameters, w.source.scripts tree⟩

def run {α : Type} (w : Workspace) (op : Operation α) : Workspace × Except SyncError α :=
  match op w.repository with
  | (r, result) => ({ w with repository := r }, result)

def plan (w : Workspace) (tree : FileTree) : Workspace × Except SyncError (List Script) :=
  w.run (w.release tree).plan

def deploy (w : Workspace) (tree : FileTree) (onlyHashes : Bool) :
    Workspace × Except SyncError Nat :=
  w.run ((w.release tree).deploy onlyHashes)

def rollback (w : Workspace) (tree : FileTree) : Workspace × Except SyncError Nat :=
  w.run (w.release tree).rollback

def verify (w : Workspace) (tree : FileTree) : Workspace × Except SyncError VerifyReport :=
  w.run (w.release tree).verify

def test (w : Workspace) (tree : FileTree) : Workspace × Except SyncError TestReport :=
  w.run ((w.release tree).test (w.source.tests tree))

def createLineage (w : Workspace) (tree : FileTree) : Workspace × Except SyncError Nat :=
  w.run (w.release tree).createLineage

def cleanup (w : Workspace) (tree : FileTree) : Workspace × Except SyncError (List String) :=
  w.run (w.release tree).cleanup

def createScripts (w : Workspace) (tree : FileTree) (targets : Option (List String)) :
    FileTree × Workspace × Except SyncError Nat :=
  match (w.release tree).createScripts w.source targets tree w.repository with
  | (tree, r, result) => (tree, { w with repository := r }, result)

end Workspace

end SchemaDeploy
