import SchemaDeploy.Change.Release

namespace SchemaDeploy.Release

/-- The scripts that a deployment would run, in order. A changed migration is reported before a
cycle. -/
def planned (l : Release) (r : Repository) : Except SyncError (List Script) :=
  match l.changedGraph r with
  | .error e => .error e
  | .ok g =>
    match deployedMigration? r g with
    | some s => .error (.immutableMigration s.id)
    | none => g.sorted

def plan (l : Release) : Operation (List Script) :=
  fun r => (r.loadHashes, l.planned r.loadHashes)

/-- How far a deployment has come: the positions that failed or that a failure keeps from being run,
the ids of the failed scripts, and the number of deployed ones. -/
structure Progress where
  blocked : List Nat
  failed : List String
  deployed : Nat
  deriving DecidableEq, Repr

def Progress.start : Progress :=
  ⟨[], [], 0⟩

/-- Deploys the script at a position, unless one of its dependencies is blocked. -/
def deployStep (l : Release) (onlyHashes : Bool) (g : DependencyGraph) (p : Progress) (i : Nat)
    (s : Script) : Operation Progress :=
  fun r =>
    if (g.dependenciesOf i).any p.blocked.contains then
      (r, .ok { p with blocked := i :: p.blocked })
    else
      match r.deploy (l.injected s) onlyHashes with
      | (r, .ok ()) => (r, .ok { p with deployed := p.deployed + 1 })
      | (r, .error e) =>
        if l.config.continueOnFailure then
          (r, .ok { p with blocked := i :: p.blocked, failed := p.failed ++ [s.id] })
        else (r, .error e)

/-- Deploys the scripts at some positions one after the other, up to the first error. -/
def deploySteps (l : Release) (onlyHashes : Bool) (g : DependencyGraph) :
    List Nat → Progress → Operation Progress
  | [], p, r => (r, .ok p)
  | i :: is, p, r =>
    match g.nodes[i]? with
    | none => l.deploySteps onlyHashes g is p r
    | some s =>
      match l.deployStep onlyHashes g p i s r with
      | (r, .error e) => (r, .error e)
      | (r, .ok p) => l.deploySteps onlyHashes g is p r

def Progress.outcome (p : Progress) : Except SyncError Nat :=
  if p.failed = [] then .ok p.deployed else .error (.deployIncomplete p.failed)

def deployChanged (l : Release) (onlyHashes : Bool) : Operation Nat :=
  fun r =>
    let r := r.loadHashes
    match l.changedGraph r with
    | .error e => (r, .error e)
    | .ok g =>
      match deployOrder r g with
      | .error e => (r, .error e)
      | .ok order =>
        match l.deploySteps onlyHashes g order .start r with
        | (r, .error e) => (r, .error e)
        | (r, .ok p) => (r, p.outcome)

/-- Deploys every changed script. With `onlyHashes` the scripts are recorded without being run. -/
def deploy (l : Release) (onlyHashes : Bool) : Operation Nat :=
  bracketed .deploy id (l.deployChanged onlyHashes)

end SchemaDeploy.Release
