import SchemaDeploy.Project.Basic

namespace SchemaDeploy.Command

inductive Verb where
  | plan
  | deploy
  | rollback
  | verify
  | test
  | lineage
  | createScripts
  | cleanup
  | check
  deriving DecidableEq, Repr

def Verb.all : List Verb :=
  [.plan, .deploy, .rollback, .verify, .test, .lineage, .createScripts, .cleanup, .check]

def Verb.word : Verb → String
  | .plan => "plan"
  | .deploy => "deploy"
  | .rollback => "rollback"
  | .verify => "verify"
  | .test => "test"
  | .lineage => "lineage"
  | .createScripts => "create-scripts"
  | .cleanup => "cleanup"
  | .check => "check"

/-- Options that take a value. -/
inductive Setting where
  | root
  | profile
  | state
  | schemas
  deriving DecidableEq, Repr

/-- What was given at one side of the command. -/
structure Given where
  root : Option String
  profile : Option String
  state : Option String
  schemas : Option (List String)
  onlyHashes : Bool
  deriving DecidableEq, Repr

def Given.none : Given :=
  ⟨.none, .none, .none, .none, false⟩

def once? (old : Option String) (value : String) : Option (Option String) :=
  if old.isSome then none else some (some value)

/-- Gives a setting its value. Only the schemas can be given again, and no path is empty. -/
def Given.set? (g : Given) (s : Setting) (value : String) : Option Given :=
  match s with
  | .root => if value = "" then none else (once? g.root value).map ({ g with root := · })
  | .state => if value = "" then none else (once? g.state value).map ({ g with state := · })
  | .profile => (once? g.profile value).map ({ g with profile := · })
  | .schemas => some { g with schemas := some (g.schemas.getD [] ++ value.splitOn ",") }

/-- A command with what was given before and after it. -/
structure Invocation where
  verb : Verb
  before : Given
  after : Given
  deriving DecidableEq, Repr

inductive Request where
  | usageError
  | help
  | version
  | invoke (i : Invocation)
  deriving DecidableEq, Repr

/-- What an argument is read into: what was given so far on this side of the command, and the
setting whose value is still to come. -/
structure Reading where
  before : Option (Verb × Given)
  here : Given
  pending : Option Setting
  deriving DecidableEq, Repr

def Reading.start : Reading :=
  ⟨none, .none, none⟩

abbrev Step : Type := Except Request Reading

def usage : Step :=
  .error .usageError

def Reading.verb? (r : Reading) : Option Verb :=
  r.before.map (·.1)

def Reading.set (r : Reading) (s : Setting) (value : String) : Step :=
  match r.here.set? s value with
  | some g => .ok { r with here := g, pending := none }
  | none => usage

def longSetting? (verb : Option Verb) : String → Option Setting
  | "root" => some .root
  | "profile" => some .profile
  | "state" => some .state
  | "schemas" => if verb = some .createScripts then some .schemas else none
  | _ => none

def Reading.long (r : Reading) (text : List Char) : Step :=
  let name := String.ofList (text.takeWhile (· ≠ '='))
  match longSetting? r.verb? name, text.dropWhile (· ≠ '=') with
  | some s, [] => .ok { r with pending := some s }
  | some s, _ :: value => r.set s (String.ofList value)
  | none, _ :: _ => usage
  | none, [] =>
    if name = "verbose" then .ok r
    else if name = "help" then .error .help
    else if name = "version" ∧ r.verb? = none then .error .version
    else if name = "only-hashes" ∧ r.verb? = some .deploy ∧ !r.here.onlyHashes then
      .ok { r with here := { r.here with onlyHashes := true } }
    else usage

def shortSetting? : Char → Option Setting
  | 'r' => some .root
  | 'p' => some .profile
  | 's' => some .state
  | _ => none

/-- Options with one dash. The value of a setting is what follows its letter, with or without an
equals sign, or else the next argument. -/
def Reading.short (r : Reading) : List Char → Step
  | [] => .ok r
  | c :: t =>
    match shortSetting? c, t with
    | some s, [] => .ok { r with pending := some s }
    | some s, '=' :: value => r.set s (String.ofList value)
    | some s, value => r.set s (String.ofList value)
    | none, t =>
      if c = 'v' then r.short t
      else if c = 'h' then .error .help
      else if c = 'V' ∧ r.verb? = none then .error .version
      else usage

def Reading.word (r : Reading) (argument : String) : Step :=
  match r.before with
  | some _ => usage
  | none =>
    match Verb.all.find? fun v => v.word == argument with
    | some v => .ok ⟨some (v, r.here), .none, none⟩
    | none => if argument = "help" then .error .help else usage

def isOption (argument : String) : Bool :=
  argument.startsWith "-" && argument != "-"

def Reading.step (r : Reading) (argument : String) : Step :=
  match r.pending with
  | some s => if isOption argument then usage else r.set s argument
  | none =>
    match argument.toList with
    | '-' :: '-' :: name => r.long name
    | '-' :: c :: letters => r.short (c :: letters)
    | _ => r.word argument

def Reading.finish (r : Reading) : Request :=
  match r.pending, r.before with
  | none, some (verb, before) => .invoke ⟨verb, before, r.here⟩
  | _, _ => .usageError

/-- The request of some arguments. Two dashes stand only at the end, as nothing is left to come. -/
def Reading.request (r : Reading) : List String → Request
  | [] => r.finish
  | a :: as =>
    if a = "--" then if as = [] then r.finish else .usageError
    else
      match r.step a with
      | .error q => q
      | .ok r => r.request as

def rootVariable : String := "SCRIPT_ROOT"

def profileVariable : String := "SCHEMASYNC_PROFILE"

/-- The request of a command line. A root from the environment must not be empty. -/
def request (env : Environment) (arguments : List String) : Request :=
  match Reading.start.request arguments with
  | .invoke i => if env.get? rootVariable = some "" then .usageError else .invoke i
  | other => other

namespace Invocation

def root (i : Invocation) (env : Environment) : String :=
  ((i.after.root.or i.before.root).or (env.get? rootVariable)).getD "."

def profile (i : Invocation) (env : Environment) : String :=
  ((i.after.profile.or i.before.profile).or (env.get? profileVariable)).getD
    Properties.defaultProfile

def statePath (i : Invocation) (env : Environment) : String :=
  statePathOf (i.root env) (i.after.state.or i.before.state)

end Invocation

end SchemaDeploy.Command
