import SchemaDeploy.Dependency.Inference
import SchemaDeploy.Error

namespace SchemaDeploy

/-- Dependencies of a script that its text does not show. -/
structure Override where
  script : String
  dependencies : List String
  deriving DecidableEq, Repr

/-- An object depends on another one. -/
structure Edge where
  object : String
  objectType : ObjectType
  dependency : String
  dependencyType : ObjectType
  deriving DecidableEq, Repr

def Edge.text (e : Edge) : String :=
  e.object ++ " -> " ++ e.dependency

def Edge.before (a b : Edge) : Bool :=
  a.object < b.object || (a.object == b.object && a.dependency < b.dependency)

def Edge.sameNames (a b : Edge) : Bool :=
  a.object == b.object && a.dependency == b.dependency

/-- Puts an edge in its place; an edge with the same names keeps the place it has. -/
def insertEdge (e : Edge) : List Edge → List Edge
  | [] => [e]
  | f :: fs => if e.before f then e :: f :: fs else if e.sameNames f then f :: fs else f :: insertEdge e fs

/-- Scripts with, for each of them, the positions of its dependencies in increasing order. -/
structure DependencyGraph where
  overrides : List Override
  nodes : List Script
  dependencies : List (List Nat)
  deriving DecidableEq, Repr

namespace DependencyGraph

def empty (overrides : List Override) : DependencyGraph :=
  ⟨overrides, [], []⟩

def dependenciesOf (g : DependencyGraph) (i : Nat) : List Nat :=
  g.dependencies.getD i []

def dependentsOf (g : DependencyGraph) (i : Nat) : List Nat :=
  (List.range g.nodes.length).filter fun j => (g.dependenciesOf j).contains i

def named (nodes : List Script) (name : String) : List Nat :=
  (nodes.zipIdx.filter fun p => sameText p.1.fullName name).map (·.2)

def resolveAll (nodes : List Script) (o : Override) : List String → Except SyncError (List Nat)
  | [] => .ok []
  | d :: ds =>
    match named nodes d with
    | [] => .error (.unresolvedOverride o.script d)
    | found =>
      match resolveAll nodes o ds with
      | .ok rest => .ok (found ++ rest)
      | .error e => .error e

def overrideTargets (nodes : List Script) (fullName : String) :
    List Override → Except SyncError (List Nat)
  | [] => .ok []
  | o :: os =>
    if sameText o.script fullName then
      match resolveAll nodes o o.dependencies with
      | .error e => .error e
      | .ok found =>
        match overrideTargets nodes fullName os with
        | .ok rest => .ok (found ++ rest)
        | .error e => .error e
    else overrideTargets nodes fullName os

/-- What each node is found to depend on once `scripts` stand after the present nodes. A present node
keeps its dependencies and is compared with the new ones only, whose positions come after all others. -/
def foundWith (g : DependencyGraph) (scripts : List Script) : List (List Nat) :=
  let present := g.nodes.zipIdx.map fun p =>
    g.dependenciesOf p.2 ++ (Dependency.inferred p.1 scripts).map (g.nodes.length + ·)
  present ++ scripts.map fun s => Dependency.inferred s (g.nodes ++ scripts)

/-- The dependencies of the node at a position: those found, and those its overrides ask for. -/
def wire (overrides : List Override) (nodes : List Script) (found : List Nat) (s : Script)
    (i : Nat) : Except SyncError (List Nat) :=
  match overrideTargets nodes s.fullName overrides with
  | .error e => .error e
  | .ok targets =>
    .ok ((List.range nodes.length).filter fun j =>
      found.contains j || (j != i && targets.contains j))

def wireAll (overrides : List Override) (nodes : List Script) (found : List (List Nat)) :
    List (Script × Nat) → Except SyncError (List (List Nat))
  | [] => .ok []
  | (s, i) :: rest =>
    match wire overrides nodes (found.getD i []) s i with
    | .error e => .error e
    | .ok here =>
      match wireAll overrides nodes found rest with
      | .ok all => .ok (here :: all)
      | .error e => .error e

/-- Adds scripts after the present ones. What the present ones were found to depend on stays, and the
overrides are looked up for all nodes again. -/
def add (g : DependencyGraph) (scripts : List Script) : Except SyncError DependencyGraph :=
  let nodes := g.nodes ++ scripts
  match wireAll g.overrides nodes (g.foundWith scripts) nodes.zipIdx with
  | .ok dependencies => .ok ⟨g.overrides, nodes, dependencies⟩
  | .error e => .error e

def ofScripts (overrides : List Override) (scripts : List Script) :
    Except SyncError DependencyGraph :=
  (empty overrides).add scripts

/-- Takes the first ready node, counts it off at its dependents and puts those that become ready in
front. `degree` counts the dependencies of each node that are still to come. -/
def drain (dependents : Nat → List Nat) : Nat → List Nat → List Nat → List Nat
  | 0, _, _ => []
  | _, [], _ => []
  | fuel + 1, i :: ready, degree =>
    let counted := (dependents i).foldl (fun d j => d.modify j (· - 1)) degree
    let freed := (dependents i).filter fun j => counted[j]? == some 0
    i :: drain dependents fuel (freed ++ ready) counted

def sequenced (g : DependencyGraph) : List Nat :=
  let n := g.nodes.length
  let dependents := (List.range n).map g.dependentsOf
  let degree := g.dependencies.map List.length
  let ready := (List.range n).filter fun i => degree[i]? == some 0
  drain (fun i => dependents.getD i []) n ready degree

def idAt (g : DependencyGraph) (i : Nat) : String :=
  (g.nodes[i]?.map Script.id).getD ""

/-- The nodes that are not sequenced, each with those of its dependencies that are not either. -/
def stuck (g : DependencyGraph) (order : List Nat) : List StuckScript :=
  let left := (List.range g.nodes.length).filter fun i => !order.contains i
  left.map fun i =>
    ⟨g.idAt i, ((g.dependenciesOf i).filter fun d => !order.contains d).map g.idAt⟩

def order (g : DependencyGraph) : Except SyncError (List Nat) :=
  let found := g.sequenced
  if found.length = g.nodes.length then .ok found
  else .error (.cyclicDependency (g.stuck found))

def sorted (g : DependencyGraph) : Except SyncError (List Script) :=
  match g.order with
  | .ok found => .ok (found.filterMap (g.nodes[·]?))
  | .error e => .error e

def edgesOf (g : DependencyGraph) (s : Script) (i : Nat) : List Edge :=
  (g.dependenciesOf i).filterMap fun j =>
    g.nodes[j]?.bind fun d =>
      if d.fullName == s.fullName then none
      else some ⟨s.fullName, s.objectType, d.fullName, d.objectType⟩

/-- The distinct edges between objects; links between versions of one object are none. -/
def edges (g : DependencyGraph) : List Edge :=
  (g.nodes.zipIdx.flatMap fun p => g.edgesOf p.1 p.2).foldl (fun es e => insertEdge e es) []

end DependencyGraph

end SchemaDeploy
