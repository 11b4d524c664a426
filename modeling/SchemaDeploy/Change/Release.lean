import SchemaDeploy.Config.Basic
import SchemaDeploy.Parameters
import SchemaDeploy.Store.Repository

namespace SchemaDeploy

/-- The scripts of a source as far as they can be listed, with the configuration and the parameters
to use them with. -/
structure Release where
  config : Config
  parameters : Parameters
  listing : Except SyncError (List Script)

abbrev Operation (α : Type) : Type := Repository → Repository × Except SyncError α

/-- Runs an operation between a start record and an end record. `count` is what the end record of a
success counts. -/
def bracketed {α : Type} (change : ChangeType) (count : α → Nat) (run : Operation α) : Operation α :=
  fun r =>
    match run (r.startSync change (change.word ++ " started.")) with
    | (r, .ok a) =>
      match r.endSync change .success ("Successfully completed " ++ change.word) (some (count a)) with
      | (r, .ok ()) => (r, .ok a)
      | (r, .error e) => (r, .error e)
    | (r, .error e) =>
      match r.endSync change .error e.message none with
      | (r, .ok ()) => (r, .error e)
      | (r, .error f) => (r, .error f)

namespace Release

def injected (l : Release) (s : Script) : Script :=
  l.parameters.injectScript s

def included (l : Release) (scripts : List Script) : List Script :=
  scripts.filter fun s => !l.config.isExcluded s

def checkedListing (l : Release) : Except SyncError (List Script) :=
  match l.listing with
  | .error e => .error e
  | .ok all =>
    match l.config.validateOverrides all with
    | .error e => .error e
    | .ok () => .ok all

def changed (l : Release) (r : Repository) (all : List Script) : List Script :=
  (l.included all).filter r.isChanged

def changedGraph (l : Release) (r : Repository) : Except SyncError DependencyGraph :=
  match l.checkedListing with
  | .error e => .error e
  | .ok all =>
    let scripts := l.changed r all
    DependencyGraph.ofScripts (l.config.overridesWithin scripts) scripts

/-- The first migration of a graph that is deployed already; such a migration must not change. -/
def deployedMigration? (r : Repository) (g : DependencyGraph) : Option Script :=
  g.nodes.find? fun s => s.isMigration && r.isDeployed s

/-- The order in which the changed scripts of a graph are deployed. A cycle is reported before a
changed migration. -/
def deployOrder (r : Repository) (g : DependencyGraph) : Except SyncError (List Nat) :=
  match g.order with
  | .error e => .error e
  | .ok order =>
    match deployedMigration? r g with
    | some s => .error (.immutableMigration s.id)
    | none => .ok order

end Release

end SchemaDeploy
