import SchemaDeploy.Query.Reader

namespace SchemaDeploy.Query

def itemEnds : List String :=
  ["FROM", "GROUP", "HAVING", "INTERSECT", "INTO", "MINUS", "ORDER", "SELECT", "UNION", "WHERE",
    "WITH"]

def itemEndsBeforeMore : List String :=
  ["EXCEPT", "LIMIT", "OFFSET", "RETURNING", "FETCH"]

def tableEnds : List String :=
  ["WITH", "EXPLAIN", "ANALYZE", "SELECT", "WHERE", "GROUP", "SORT", "HAVING", "ORDER", "PIVOT",
    "UNPIVOT", "TOP", "LATERAL", "VIEW", "LIMIT", "OFFSET", "FETCH", "UNION", "EXCEPT", "INTERSECT",
    "MINUS", "ON", "JOIN", "INNER", "CROSS", "FULL", "LEFT", "RIGHT", "NATURAL", "USING", "CLUSTER",
    "DISTRIBUTE", "GLOBAL", "ANTI", "SEMI", "RETURNING", "ASOF", "MATCH_CONDITION", "OUTER", "SET",
    "QUALIFY", "WINDOW", "END", "FOR", "PARTITION", "PREWHERE", "SETTINGS", "FORMAT", "START",
    "CONNECT", "MATCH_RECOGNIZE", "SAMPLE", "TABLESAMPLE", "FROM"]

def tableListEnds : List String := ["INTO", "LIMIT", "HAVING", "WHERE"]

def itemListEnds : List String :=
  ["WITH", "EXPLAIN", "ANALYZE", "SELECT", "WHERE", "GROUP", "SORT", "HAVING", "ORDER", "TOP",
    "LATERAL", "VIEW", "LIMIT", "OFFSET", "FETCH", "UNION", "EXCEPT", "INTERSECT", "MINUS",
    "CLUSTER", "DISTRIBUTE", "RETURNING", "FROM", "INTO", "END"]

def namesItem (k : Token) (rest : List Token) : Bool :=
  if itemEndsBeforeMore.any (isKeyword · k) then
    rest.isEmpty || rest.head? == some (.symbol ",")
  else !itemEnds.any (isKeyword · k)

def namesTable (k : Token) (_ : List Token) : Bool :=
  !tableEnds.any (isKeyword · k)

def alias? (accepts : Token → List Token → Bool) (t : List Token) :
    Option (Option Ident × List Token) :=
  match skipWords? ["AS"] t with
  | some (.word i :: r) => some (some i, r)
  | some (.string s :: r) => some (some ⟨s, some '\''⟩, r)
  | some _ => none
  | none =>
    match t with
    | .word i :: r => if accepts (.word i) r then some (some i, r) else some (none, t)
    | .string s :: r => some (some ⟨s, some '\''⟩, r)
    | _ => some (none, t)

def tableAlias? (fuel : Nat) (t : List Token) : Option (Form × List Token) := do
  match ← alias? namesTable t with
  | (none, t) => return ([], t)
  | (some i, t) =>
    match skipSymbol? "(" t with
    | none => return (words (" AS " ++ i.text), t)
    | some _ =>
      let (cs, t) ← columns? fuel t
      return (words (" AS " ++ i.text ++ columnList cs), t)

end SchemaDeploy.Query
