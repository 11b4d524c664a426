import SchemaDeploy.Script.Basic

namespace SchemaDeploy

abbrev Row : Type := List (Option String)

def valueText : Option String → String
  | none => "null"
  | some v => "'" ++ String.ofList (v.toList.flatMap fun c => if c = '\'' then [c, c] else [c]) ++ "'"

def rowText (row : Row) : String :=
  "(" ++ ", ".intercalate (row.map valueText) ++ ")"

def Script.withRows (s : Script) (rows : List Row) : Script :=
  if s.objectType = .table ∧ rows ≠ [] then
    s.setContent (s.content ++ "\n\n---version: 1, author: " ++ generatedAuthor ++
      "\nINSERT INTO " ++ s.fullName ++ " values" ++ ", ".intercalate (rows.map rowText) ++ ";\n---rollback: DELETE FROM " ++ s.fullName ++
      ";\n---verify: SELECT COUNT(*) FROM " ++ s.fullName ++ ";")
  else s

end SchemaDeploy
