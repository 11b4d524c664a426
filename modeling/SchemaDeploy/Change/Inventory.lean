import SchemaDeploy.Change.Release

namespace SchemaDeploy.Release

def edges (l : Release) : Except SyncError (List Edge) :=
  match l.checkedListing with
  | .error e => .error e
  | .ok all =>
    match DependencyGraph.ofScripts (l.config.overridesWithin all) all with
    | .error e => .error e
    | .ok g => .ok g.edges

def recordEdges (l : Release) : Operation Nat :=
  fun r =>
    match l.edges with
    | .error e => (r, .error e)
    | .ok edges => (r.setLineage edges, .ok edges.length)

def createLineage (l : Release) : Operation Nat :=
  bracketed .createLineage id l.recordEdges

/-- The names of the live objects, with placeholders, that no listed script has. -/
def unsourced (l : Release) (r : Repository) (all : List Script) : List String :=
  let known := all.map Script.fullName
  let names := r.liveNames.map fun n => upperText (l.parameters.parametrizeName n)
  (Names.ofNames (names.filter fun n => !known.contains n)).keys

def findUnsourced (l : Release) : Operation (List String) :=
  fun r =>
    match l.listing with
    | .error e => (r, .error e)
    | .ok all => (r, .ok (l.unsourced r all))

/-- Finds the live objects without a script. The end record counts all live objects. -/
def cleanup (l : Release) : Operation (List String) :=
  fun r => bracketed .cleanup (fun _ => r.liveNames.length) l.findUnsourced r

end SchemaDeploy.Release
