import SchemaDeploy.Keyed
import SchemaDeploy.Text.Blank
import SchemaDeploy.Text.Case

namespace SchemaDeploy.Properties

open Text

def isComment (line : List Char) : Bool :=
  line.head?.any fun c => c == '#' || c == '!'

def entry? (line : List Char) : Option (String × String) :=
  if isComment line then none
  else match line.span (fun c => c != '=' && c != ':') with
    | (key, _ :: value) =>
      if trim key = [] then none
      else some (String.ofList (trim key), String.ofList (trim value))
    | _ => none

def parse (content : String) : Keyed String :=
  Keyed.ofList (((lines content.toList).map trim).filterMap entry?)

def defaultProfile : String := "dev"

def fileName (profile : String) : String :=
  "parameter-" ++ lowerText profile ++ ".properties"

end SchemaDeploy.Properties
