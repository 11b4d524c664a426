namespace SchemaDeploy

/-- A script that a cycle keeps from being sequenced, with the dependencies that block it. -/
structure StuckScript where
  id : String
  blockedBy : List String
  deriving DecidableEq, Repr

def StuckScript.text (s : StuckScript) : String :=
  s.id ++ " <- [" ++ ", ".intercalate s.blockedBy ++ "]"

inductive SyncError where
  | configUnreadable (path : String)
  | configMalformed (path : String)
  | parametersUnreadable (path : String)
  | invalidConfig (message : String)
  | unresolvedOverride (script dependency : String)
  | scriptUnreadable (path : String)
  | scriptUnwritable (path : String)
  | invalidScriptPath (path message : String)
  | unknownObjectType (name : String)
  | invalidMigration (line : Nat) (message : String)
  | duplicateVersion (line version : Nat)
  | cyclicDependency (stuck : List StuckScript)
  | immutableMigration (id : String)
  | executionFailed (id message : String)
  | deployIncomplete (failed : List String)
  | verificationFailed (failed : Nat)
  | testQueryInvalid (id message : String)
  | stateFile (path : String)
  | repository (message : String)
  deriving DecidableEq, Repr

namespace SyncError

def message : SyncError → String
  | configUnreadable path => "Failed to read config file: " ++ path
  | configMalformed path => "Failed to parse config file: " ++ path
  | parametersUnreadable path => "Failed to read parameter file: " ++ path
  | invalidConfig message => "Invalid configuration: " ++ message
  | unresolvedOverride script dependency =>
    "Dependency override for " ++ script ++ " references unknown script " ++ dependency
  | scriptUnreadable path => "Failed to read script file: " ++ path
  | scriptUnwritable path => "Failed to write script file: " ++ path
  | invalidScriptPath path message => "Invalid script path " ++ path ++ ": " ++ message
  | unknownObjectType name => "Unknown object type directory: " ++ name
  | invalidMigration line message =>
    "Invalid migration script at line " ++ toString line ++ ": " ++ message
  | duplicateVersion line version =>
    "Duplicate migration version " ++ toString version ++ " at line " ++ toString line
  | cyclicDependency stuck =>
    "Cyclic dependency detected, " ++ toString stuck.length ++ " scripts could not be sequenced: " ++
      "; ".intercalate (stuck.map StuckScript.text)
  | immutableMigration id =>
    "Migration " ++ id ++ " was already deployed and its content has changed"
  | executionFailed id message => "Failed to execute script " ++ id ++ ": " ++ message
  | deployIncomplete failed =>
    "Deployment incomplete, " ++ toString failed.length ++ " scripts failed: " ++
      ", ".intercalate failed
  | verificationFailed failed => toString failed ++ " scripts failed to verify."
  | testQueryInvalid id message => "Failed to generate test query for " ++ id ++ ": " ++ message
  | stateFile path => "Repository error: " ++ path ++ ": the state file cannot be read or written"
  | repository message => "Repository error: " ++ message

end SyncError

theorem eq_ok_of_toOption {ε α : Type} {x : Except ε α} {a : α} (h : x.toOption = some a) :
    x = .ok a := by
  cases x with
  | error e => cases h
  | ok b => exact congrArg Except.ok (Option.some.inj h)

theorem exists_ok_of_map {ε α β : Type} {x : Except ε α} {f : α → β} {b : β}
    (h : x.toOption.map f = some b) : ∃ a, x = .ok a ∧ f a = b := by
  cases x with
  | error e => cases h
  | ok a => exact ⟨a, rfl, Option.some.inj h⟩

end SchemaDeploy
