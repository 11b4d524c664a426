import SchemaDeploy.Sql.Scan
import SchemaDeploy.Text.Blank

namespace SchemaDeploy.Sql

open Text

/-- Where a scan of a dump stands: in a lexical state, or inside a body between two `$$`. -/
inductive Region where
  | sql (state : ScanState)
  | dollarBody
  deriving DecidableEq, Repr

def Region.step : Region → Char → Option Char → Region × Bool
  | .dollarBody, '$', some '$' => (.sql .plain, true)
  | .dollarBody, _, _ => (.dollarBody, false)
  | .sql .plain, '$', some '$' => (.dollarBody, true)
  | .sql s, c, next => ((.sql (s.step c next).1), (s.step c next).2)

def Chunk.isTerminator (k : Chunk Region) : Bool :=
  k.before == .sql .plain && k.text == [';']

/-- Ends a piece after every terminator; what follows the last one is a piece if it is not empty. -/
def pieces : List (Chunk Region) → List (List Char)
  | [] => []
  | k :: ks =>
    if k.isTerminator then k.text :: pieces ks
    else match pieces ks with
      | [] => [k.text]
      | p :: ps => (k.text ++ p) :: ps

def isStatement (t : List Char) : Bool :=
  t != [] && t != [';']

def statements (ddl : List Char) : List (List Char) :=
  ((pieces (chunks Region.step (.sql .plain) ddl)).map trim).filter isStatement

end SchemaDeploy.Sql
