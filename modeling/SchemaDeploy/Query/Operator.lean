import SchemaDeploy.Query.Reader

namespace SchemaDeploy.Query

def knownTypes : List String :=
  ["VARCHAR", "NVARCHAR", "CHAR", "CHARACTER", "TEXT", "STRING", "INT", "INTEGER", "BIGINT",
    "SMALLINT", "TINYINT", "FLOAT", "REAL", "DOUBLE", "DECIMAL", "NUMERIC", "DEC", "BOOLEAN", "BOOL",
    "DATE", "DATETIME", "TIME", "TIMESTAMP", "BINARY", "VARBINARY", "BLOB", "CLOB", "BYTES", "UUID",
    "JSON"]

def numeral? : Read String
  | .number n :: t => some (n, t)
  | _ => none

def dataType? (fuel : Nat) (t : List Token) : Option (Form × List Token) := do
  let (name, t) ← dotted fuel t
  let known := match name with
    | [⟨v, none⟩] => knownTypes.find? (sameText v)
    | _ => none
  match skipSymbol? "(" t with
  | none => return (words (known.getD (nameText name)), t)
  | some r =>
    let (ns, r) ← separated never numeral? fuel r
    let r ← skipSymbol? ")" r
    let separator := if known.isSome then "," else ", "
    return (words (known.getD (nameText name) ++ "(" ++ separator.intercalate ns ++ ")"), r)

def precedence : List Token → Nat
  | .symbol s :: _ =>
    if s = "::" then 50
    else if ["*", "/", "%", "||"].contains s then 40
    else if ["+", "-"].contains s then 30
    else if ["=", "<>", "<", ">", "<=", ">="].contains s then 20
    else 0
  | k :: t =>
    if isKeyword "IN" k || isKeyword "BETWEEN" k then 20
    else if isKeyword "LIKE" k then 19
    else if isKeyword "IS" k then 17
    else if isKeyword "NOT" k then
      if startsWith "IN" t || startsWith "BETWEEN" t then 20
      else if startsWith "LIKE" t then 19
      else 0
    else if isKeyword "AND" k then 10
    else if isKeyword "OR" k then 5
    else 0
  | [] => 0

def startsQuery (t : List Token) : Bool :=
  startsWith "SELECT" t || startsWith "WITH" t

def joinKind? (t : List Token) : Option (String × Bool × List Token) :=
  let plain (keywords : List String) (text : String) (conditional : Bool) :=
    (skipWords? keywords t).map fun r => (text, conditional, r)
  [plain ["CROSS", "JOIN"] " CROSS JOIN " false,
    plain ["JOIN"] " JOIN " true,
    plain ["INNER", "JOIN"] " JOIN " true,
    plain ["LEFT", "JOIN"] " LEFT JOIN " true,
    plain ["LEFT", "OUTER", "JOIN"] " LEFT JOIN " true,
    plain ["RIGHT", "JOIN"] " RIGHT JOIN " true,
    plain ["RIGHT", "OUTER", "JOIN"] " RIGHT JOIN " true,
    plain ["FULL", "JOIN"] " FULL JOIN " true,
    plain ["FULL", "OUTER", "JOIN"] " FULL JOIN " true].findSome? id

def setOperator? (t : List Token) : Option (String × List Token) :=
  let plain (keywords : List String) :=
    (skipWords? keywords t).map fun r => (" " ++ " ".intercalate keywords ++ " ", r)
  ["UNION", "EXCEPT", "INTERSECT"].findSome? fun k =>
    (plain [k, "ALL"]).or ((plain [k, "DISTINCT"]).or (plain [k]))

def direction (t : List Token) : String × List Token :=
  let (order, t) :=
    match skipWords? ["ASC"] t, skipWords? ["DESC"] t with
    | some r, _ => (" ASC", r)
    | none, some r => (" DESC", r)
    | none, none => ("", t)
  match skipWords? ["NULLS", "FIRST"] t, skipWords? ["NULLS", "LAST"] t with
  | some r, _ => (order ++ " NULLS FIRST", r)
  | none, some r => (order ++ " NULLS LAST", r)
  | none, none => (order, t)

def clause (keywords : List String) (read : Read Form) (t : List Token) :
    Option (Form × List Token) :=
  match skipWords? keywords t with
  | none => some ([], t)
  | some r => (read r).map fun (f, r) => (words (" " ++ " ".intercalate keywords ++ " ") ++ f, r)

end SchemaDeploy.Query
