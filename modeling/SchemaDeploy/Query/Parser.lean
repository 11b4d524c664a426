import SchemaDeploy.Query.Alias
import SchemaDeploy.Query.Operator

namespace SchemaDeploy.Query

mutual

def query? : Nat → Read ParsedQuery
  | 0, _ => none
  | fuel + 1, t => do
    let (ctes, head, t) ←
      match skipWords? ["WITH"] t with
      | none => some (([] : List Cte), ([] : Form), t)
      | some r => do
        let (keyword, r) := match skipWords? ["RECURSIVE"] r with
          | some s => ("WITH RECURSIVE ", s)
          | none => ("WITH ", r)
        let (ctes, r) ← separated never (cte? fuel) fuel r
        pure (ctes, words keyword ++ commas (ctes.map Cte.form) ++ words " ", r)
    let (body, t) ← body? fuel t
    let (order, t) ← clause ["ORDER", "BY"] (sortKeys? fuel) t
    let (limits, t) ← limits? fuel t
    return (⟨ctes, head ++ body ++ order ++ limits⟩, t)

def subquery? : Nat → Read Form
  | 0, _ => none
  | fuel + 1, t => do
    let (q, t) ← query? fuel t
    return (q.form, t)

def cte? : Nat → Read Cte
  | 0, _ => none
  | fuel + 1, t => do
    let (name, t) ← ident? t
    let (columns, t) ←
      match skipWords? ["AS"] t with
      | some _ => pure (([] : List String), t)
      | none => columns? fuel t
    let t ← skipWords? ["AS"] t
    let t ← skipSymbol? "(" t
    let (q, t) ← subquery? fuel t
    let t ← skipSymbol? ")" t
    return (⟨name, columns, q⟩, t)

def sortKeys? : Nat → Read Form
  | 0, _ => none
  | fuel + 1, t => do
    let key : Read Form := fun t => do
      let (e, t) ← expr? fuel 0 t
      let (order, t) := direction t
      return (e ++ words order, t)
    let (keys, t) ← separated never key fuel t
    return (commas keys, t)

def limits? : Nat → Read Form
  | 0, _ => none
  | fuel + 1, t => do
    let limit : Read Form := fun t =>
      match skipWords? ["LIMIT", "ALL"] t with
      | some r => some ([], r)
      | none => clause ["LIMIT"] (expr? fuel 0) t
    let offset : Read Form := fun t => do
      let (f, t) ← clause ["OFFSET"] (expr? fuel 0) t
      if f = [] then return (f, t)
      else match skipWords? ["ROWS"] t, skipWords? ["ROW"] t with
        | some r, _ => return (f ++ words " ROWS", r)
        | none, some r => return (f ++ words " ROW", r)
        | none, none => return (f, t)
    let (first, r) ← limit t
    let (second, r) ← offset r
    if first = [] ∧ second ≠ [] then
      let (late, r) ← limit r
      return (late ++ second, r)
    else return (first ++ second, r)

def body? : Nat → Read Form
  | 0, _ => none
  | fuel + 1, t => do
    let (left, t) ←
      match skipSymbol? "(" t with
      | some r => do
        let (q, r) ← subquery? fuel r
        let r ← skipSymbol? ")" r
        pure (words "(" ++ q ++ words ")", r)
      | none => do
        let r ← skipWords? ["SELECT"] t
        select? fuel r
    match setOperator? t with
    | none => return (left, t)
    | some (operator, r) =>
      let (right, r) ← body? fuel r
      return (left ++ words operator ++ right, r)

def select? : Nat → Read Form
  | 0, _ => none
  | fuel + 1, t => do
    let (distinct, t) := match skipWords? ["DISTINCT"] t, skipWords? ["ALL"] t with
      | some r, _ => ("DISTINCT ", r)
      | none, some r => ("", r)
      | none, none => ("", t)
    let (items, t) ← separated (endsList itemListEnds) (item? fuel) fuel t
    let (tables, t) ← clause ["FROM"] (tables? fuel) t
    let (condition, t) ← clause ["WHERE"] (expr? fuel 0) t
    let (groups, t) ← clause ["GROUP", "BY"] (exprs? fuel) t
    let (having, t) ← clause ["HAVING"] (expr? fuel 0) t
    return (words ("SELECT " ++ distinct) ++ commas items ++ tables ++ condition ++ groups ++ having, t)

def item? : Nat → Read Form
  | 0, _ => none
  | fuel + 1, t =>
    match t with
    | .symbol "*" :: r => some (words "*", r)
    | _ =>
      match wildcard? fuel t with
      | some found => some found
      | none => do
        let (e, r) ← expr? fuel 0 t
        guard (!(startsWith "FROM" t && r.length + 1 == t.length))
        match ← alias? namesItem r with
        | (some i, r) => return (e ++ words (" AS " ++ i.text), r)
        | (none, r) => return (e, r)

def tables? : Nat → Read Form
  | 0, _ => none
  | fuel + 1, t => do
    let (ts, t) ← separated (endsList tableListEnds) (joined? fuel) fuel t
    return (commas ts, t)

def joined? : Nat → Read Form
  | 0, _ => none
  | fuel + 1, t => do
    let (first, t) ← table? fuel t
    let (joins, t) ← joins? fuel t
    return (first ++ joins, t)

def joins? : Nat → Read Form
  | 0, _ => none
  | fuel + 1, t =>
    match joinKind? t with
    | none => some ([], t)
    | some (kind, conditional, t) => do
      let (table, t) ← table? fuel t
      let (condition, t) ← if conditional then condition? fuel t else some ([], t)
      let (rest, t) ← joins? fuel t
      return (words kind ++ table ++ condition ++ rest, t)

def condition? : Nat → Read Form
  | 0, _ => none
  | fuel + 1, t =>
    match skipWords? ["USING"] t with
    | some r => do
      let r ← skipSymbol? "(" r
      let (cs, r) ← separated never ident? fuel r
      let r ← skipSymbol? ")" r
      return (words (" USING(" ++ ", ".intercalate (cs.map Ident.text) ++ ")"), r)
    | none => clause ["ON"] (expr? fuel 0) t

def table? : Nat → Read Form
  | 0, _ => none
  | fuel + 1, t =>
    match skipSymbol? "(" t with
    | none => do
      let (name, t) ← dotted fuel t
      let (label, t) ← tableAlias? fuel t
      return (.relation name :: label, t)
    | some r =>
      let derived := do
        let (q, r) ← subquery? fuel r
        let r ← skipSymbol? ")" r
        let (label, r) ← tableAlias? fuel r
        return (words "(" ++ q ++ words ")" ++ label, r)
      derived.or do
        let (f, s) ← joined? fuel r
        let s ← skipSymbol? ")" s
        let (label, s) ← tableAlias? fuel s
        return (words "(" ++ f ++ words ")" ++ label, s)

def exprs? : Nat → Read Form
  | 0, _ => none
  | fuel + 1, t => do
    let (es, t) ← separated never (expr? fuel 0) fuel t
    return (commas es, t)

def expr? : Nat → Nat → Read Form
  | 0, _, _ => none
  | fuel + 1, floor, t => do
    let (left, t) ← operand? fuel t
    continued? fuel floor left t

def continued? : Nat → Nat → Form → Read Form
  | 0, _, _, _ => none
  | fuel + 1, floor, left, t =>
    if precedence t ≤ floor then some (left, t)
    else do
      let (e, t) ← applied? fuel (precedence t) left t
      continued? fuel floor e t

def applied? : Nat → Nat → Form → Read Form
  | 0, _, _, _ => none
  | fuel + 1, level, left, t =>
    match t with
    | .symbol "::" :: r => do
      let (type, r) ← dataType? fuel r
      return (left ++ words "::" ++ type, r)
    | .symbol s :: r => do
      let (right, r) ← expr? fuel level r
      return (left ++ words (" " ++ s ++ " ") ++ right, r)
    | _ => do
      let (negation, r) := match skipWords? ["NOT"] t with
        | some r => (" NOT", r)
        | none => ("", t)
      if startsWith "IN" r then
        let r ← skipSymbol? "(" (r.drop 1)
        let query := do
          let (q, s) ← subquery? fuel r
          let s ← skipSymbol? ")" s
          return (q, s)
        let (inside, r) ← query.or do
          let (es, s) ← exprs? fuel r
          let s ← skipSymbol? ")" s
          return (es, s)
        return (left ++ words (negation ++ " IN (") ++ inside ++ words ")", r)
      else if startsWith "BETWEEN" r then
        let (low, r) ← expr? fuel level (r.drop 1)
        let r ← skipWords? ["AND"] r
        let (high, r) ← expr? fuel level r
        return (left ++ words (negation ++ " BETWEEN ") ++ low ++ words " AND " ++ high, r)
      else if startsWith "LIKE" r then
        let (pattern, r) ← expr? fuel level (r.drop 1)
        return (left ++ words (negation ++ " LIKE ") ++ pattern, r)
      else if startsWith "IS" r then
        match skipWords? ["IS", "NULL"] r, skipWords? ["IS", "NOT", "NULL"] r with
        | some s, _ => return (left ++ words " IS NULL", s)
        | none, some s => return (left ++ words " IS NOT NULL", s)
        | none, none => none
      else
        let operator := if startsWith "AND" r then " AND " else " OR "
        let (right, r) ← expr? fuel level (r.drop 1)
        return (left ++ words operator ++ right, r)

/-- An expression without operators, or with a sign or a negation in front. A keyword that does not
start what it should is a name. -/
def operand? : Nat → Read Form
  | 0, _ => none
  | fuel + 1, t =>
    match t with
    | .number n :: r => some (words n, r)
    | .string s :: r => some (words (quotedText '\'' s), r)
    | .symbol "(" :: r => do
      let (inside, r) ← if startsQuery r then subquery? fuel r else exprs? fuel r
      let r ← skipSymbol? ")" r
      return (words "(" ++ inside ++ words ")", r)
    | .symbol s :: r =>
      if s = "-" ∨ s = "+" then do
        let (e, r) ← expr? fuel 40 r
        return (words s ++ e, r)
      else none
    | .word _ :: r =>
      if startsWith "NULL" t then some (words "NULL", r)
      else if startsWith "TRUE" t then some (words "true", r)
      else if startsWith "FALSE" t then some (words "false", r)
      else if startsWith "EXISTS" t then exists? fuel "EXISTS (" r
      else if startsWith "CASE" t then (case? fuel r).or (named? fuel t)
      else if startsWith "CAST" t then (cast? fuel r).or (named? fuel t)
      else if startsWith "NOT" t then (not? fuel r).or (named? fuel t)
      else named? fuel t
    | [] => none

def exists? : Nat → String → Read Form
  | 0, _, _ => none
  | fuel + 1, head, t => do
    let t ← skipSymbol? "(" t
    let (q, t) ← subquery? fuel t
    let t ← skipSymbol? ")" t
    return (words head ++ q ++ words ")", t)

def not? : Nat → Read Form
  | 0, _ => none
  | fuel + 1, t =>
    match skipWords? ["EXISTS"] t with
    | some r => exists? fuel "NOT EXISTS (" r
    | none => do
      let (e, t) ← expr? fuel 15 t
      return (words "NOT " ++ e, t)

def cast? : Nat → Read Form
  | 0, _ => none
  | fuel + 1, t => do
    let t ← skipSymbol? "(" t
    let (e, t) ← expr? fuel 0 t
    let t ← skipWords? ["AS"] t
    let (type, t) ← dataType? fuel t
    let t ← skipSymbol? ")" t
    return (words "CAST(" ++ e ++ words " AS " ++ type ++ words ")", t)

def case? : Nat → Read Form
  | 0, _ => none
  | fuel + 1, t => do
    let (subject, t) ←
      if startsWith "WHEN" t then some ([], t)
      else (expr? fuel 0 t).map fun (e, r) => (words " " ++ e, r)
    let (branches, t) ← branches? fuel t
    let (otherwise, t) ← clause ["ELSE"] (expr? fuel 0) t
    let t ← skipWords? ["END"] t
    return (words "CASE" ++ subject ++ branches ++ otherwise ++ words " END", t)

def branches? : Nat → Read Form
  | 0, _ => none
  | fuel + 1, t => do
    let t ← skipWords? ["WHEN"] t
    let (condition, t) ← expr? fuel 0 t
    let t ← skipWords? ["THEN"] t
    let (value, t) ← expr? fuel 0 t
    let branch := words " WHEN " ++ condition ++ words " THEN " ++ value
    if startsWith "WHEN" t then
      let (rest, t) ← branches? fuel t
      return (branch ++ rest, t)
    else return (branch, t)

def named? : Nat → Read Form
  | 0, _ => none
  | fuel + 1, t => do
    let (name, t) ← dotted fuel t
    match skipSymbol? "(" t with
    | none => return (words (nameText name), t)
    | some r =>
      let (arguments, r) ← arguments? fuel r
      let (window, r) ← window? fuel r
      return (words (nameText name ++ "(") ++ arguments ++ words ")" ++ window, r)

def arguments? : Nat → Read Form
  | 0, _ => none
  | fuel + 1, t =>
    match skipSymbol? ")" t with
    | some r => some ([], r)
    | none => do
      let (inside, t) ←
        if startsQuery t then subquery? fuel t
        else
          let (head, t) := match skipWords? ["DISTINCT"] t, skipWords? ["ALL"] t with
            | some r, _ => ("DISTINCT ", r)
            | none, some r => ("ALL ", r)
            | none, none => ("", t)
          let argument : Read Form := fun t =>
            match t with
            | .symbol "*" :: r => some (words "*", r)
            | _ => (wildcard? fuel t).or (expr? fuel 0 t)
          do
            let (found, t) ← separated never argument fuel t
            pure (words head ++ commas found, t)
      let t ← skipSymbol? ")" t
      return (inside, t)

def window? : Nat → Read Form
  | 0, _ => none
  | fuel + 1, t =>
    match skipWords? ["OVER"] t with
    | none => some ([], t)
    | some r =>
      match skipSymbol? "(" r with
      | none => (ident? r).map fun (i, r) => (words (" OVER " ++ i.text), r)
      | some r => do
        let (groups, r) ← clause ["PARTITION", "BY"] (exprs? fuel) r
        let (order, r) ← clause ["ORDER", "BY"] (sortKeys? fuel) r
        let r ← skipSymbol? ")" r
        let trimmed (f : Form) : Form := match f with
          | .text s :: rest => .text (String.ofList (Text.trimStart s.toList)) :: rest
          | f => f
        return (words " OVER (" ++ trimmed (groups ++ order) ++ words ")", r)

end

/-- A statement of another kind than a query; of its text little is looked at. -/
def otherStatement? (fuel : Nat) (t : List Token) : Option (List Token) :=
  match skipWords? ["INSERT", "INTO"] t with
  | some r => do
    let (_, r) ← dotted fuel r
    let r := match columns? fuel r with
      | some (_, s) => s
      | none => r
    match skipWords? ["VALUES"] r with
    | some s => do
      let row : Read Form := fun t => do
        let t ← skipSymbol? "(" t
        let (es, t) ← exprs? fuel t
        let t ← skipSymbol? ")" t
        return (es, t)
      let (_, s) ← separated never row fuel s
      return s
    | none => (subquery? fuel r).map (·.2)
  | none =>
    if ["CREATE", "ALTER", "DROP", "TRUNCATE", "DELETE", "UPDATE", "SHOW", "USE"].any
        (startsWith · t) && t.length > 2 then
      some (t.dropWhile (· ≠ .symbol ";"))
    else none

def statement? (fuel : Nat) (t : List Token) : Option (Option ParsedQuery × List Token) :=
  if startsQuery t || (skipSymbol? "(" t).isSome then
    (query? fuel t).map fun (q, r) => (some q, r)
  else (otherStatement? fuel t).map fun r => (none, r)

/-- Statements with terminators between them. The word END after a statement ends the text. -/
def statements? : Nat → List Token → Option (List (Option ParsedQuery))
  | _, [] => some []
  | 0, _ => none
  | fuel + 1, t =>
    match skipSymbol? ";" t with
    | some r => statements? fuel r
    | none => do
      let (s, r) ← statement? fuel t
      if r = [] || startsWith "END" r then return [s]
      else
        let r ← skipSymbol? ";" r
        let rest ← statements? fuel r
        return s :: rest

def parse? (text : String) : Option (List (Option ParsedQuery)) :=
  (tokens? text).bind fun t => statements? (20 * (t.length + 2)) t

end SchemaDeploy.Query
