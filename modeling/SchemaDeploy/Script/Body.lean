import SchemaDeploy.Sql.Create

namespace SchemaDeploy.Body

open Text Sql

def isNameChar (c : Char) : Bool :=
  isWord c || ['.', '$', '{', '}', '"'].contains c

def blanksThen? (keyword : String) (t : List Char) : Option (List Char) :=
  (blanks? t).bind (keyword? keyword.toList)

def columns? (t : List Char) : Option (List Char) :=
  match trimStart t with
  | '(' :: t =>
    match t.takeWhile (· ≠ ')'), t.dropWhile (· ≠ ')') with
    | _ :: _, ')' :: r => some r
    | _, _ => none
  | _ => none

def commentClause? (t : List Char) : Option (List Char) := do
  let t ← blanksThen? "COMMENT" t
  match trimStart t with
  | '=' :: t =>
    match trimStart t with
    | '\'' :: t =>
      match t.dropWhile (· ≠ '\'') with
      | '\'' :: r => some r
      | _ => none
    | _ => none
  | _ => none

/-- The text after AS and its blanks; of nothing but blanks, all but the first are left, and of
those only the last. -/
def bodyAfterAs? (t : List Char) : Option (List Char) := do
  let t ← blanksThen? "AS" t
  match blanks? t with
  | none => none
  | some [] => if t.length ≤ 1 then none else t.getLast?.map ([·])
  | some body => some body

def viewBody? (t : List Char) : Option (List Char) := do
  let t ← createOrReplace? t
  let t ← spaced? "VIEW" (spacedOr "RECURSIVE" (spacedOr "SECURE" t))
  let (_, t) ← run? isNameChar t
  let t := (columns? t).getD t
  bodyAfterAs? ((commentClause? t).getD t)

def delimiter? : List Char → Option (List Char)
  | '\'' :: t => some t
  | '$' :: '$' :: t => some t
  | _ => none

def isTail (t : List Char) : Bool :=
  match trimStart t with
  | [] => true
  | ';' :: r => allBlank r
  | _ => false

def closes (t : List Char) : Bool :=
  (delimiter? t).any isTail

def upToClosing? : List Char → Option (List Char)
  | [] => none
  | c :: t =>
    match upToClosing? t with
    | some body => some (c :: body)
    | none => if closes (c :: t) then some [] else none

def someUpToClosing? : List Char → Option (List Char)
  | [] => none
  | c :: t => (upToClosing? t).map (c :: ·)

/-- The body after the opening delimiter, without the blanks it starts with. A body of blanks keeps
the last one. -/
def delimitedBody? (t : List Char) : Option (List Char) :=
  match someUpToClosing? (trimStart t) with
  | some body => some body
  | none =>
    match (t.takeWhile isBlank).getLast? with
    | none => none
    | some c => if closes (trimStart t) then some [c] else none

def routineBodyAt? (t : List Char) : Option (List Char) := do
  let t ← spaced? "AS" t
  let t ← delimiter? t
  delimitedBody? t

def routineBodyFrom? : Char → List Char → Option (List Char)
  | _, [] => none
  | previous, c :: t =>
    let here := if isWord previous then none else routineBodyAt? (c :: t)
    here.or (routineBodyFrom? c t)

/-- Looks for the body after the name, else inside it, from its end backwards. The first character
always belongs to the name. -/
def routineBodyAfterName? : List Char → List Char → Option (List Char)
  | [], _ => none
  | c :: name, t =>
    (routineBodyAfterName? name t).or
      (match name with
      | [] => routineBodyFrom? c t
      | _ => if isWord c then none else routineBodyAt? (name ++ t))

def routineBody? (keyword : String) (t : List Char) : Option (List Char) := do
  let t ← createOrReplace? t
  let t ← spaced? keyword (spacedOr "SECURE" t)
  let (name, t) ← run? isNameChar t
  routineBodyAfterName? name t

def fileFormatBody? (t : List Char) : Option (List Char) := do
  let t ← createOrReplace? t
  let t ← spaced? "FILE" t
  let t ← spaced? "FORMAT" t
  let (_, t) ← run? isNameChar t
  return t

def firstMatch (read : List Char → Option (List Char)) : List Char → Option (List Char)
  | [] => read []
  | c :: t => (read (c :: t)).or (firstMatch read t)

def find? (objectType : ObjectType) (t : List Char) : Option (List Char) :=
  match objectType with
  | .view => firstMatch viewBody? t
  | .function => firstMatch (routineBody? "FUNCTION") t
  | .procedure => firstMatch (routineBody? "PROCEDURE") t
  | .fileFormat => firstMatch fileFormatBody? t
  | _ => none

def comparable (content : List Char) : List Char :=
  replacePair '\'' '\'' ['\''] (stripComments content)

def dropTerminator (t : List Char) : List Char :=
  if t.getLast? = some ';' then trimEnd t.dropLast else t

/-- The body in one line, without its terminator; content of another shape is taken whole. -/
def normalize (objectType : ObjectType) (content : List Char) : List Char :=
  let t := comparable content
  dropTerminator (collapse ((find? objectType t).getD t))

def definitionBody? (objectType : ObjectType) (content : List Char) : Option (List Char) :=
  (find? objectType (comparable content)).map fun body =>
    trimEnd (if (trim body).getLast? = some ';' then (trim body).dropLast else trim body)

end SchemaDeploy.Body

namespace SchemaDeploy

def Script.normalized (s : Script) : String :=
  String.ofList (Body.normalize s.objectType s.content.toList)

def Script.equivalent (s t : Script) : Bool :=
  s.normalized == t.normalized

end SchemaDeploy
