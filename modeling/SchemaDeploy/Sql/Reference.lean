import SchemaDeploy.Sql.Literal

namespace SchemaDeploy.Sql

open Text

def isStartBoundary (c : Char) : Bool :=
  ['=', '(', ')', '[', ']', ',', '.', '"', '\''].contains c || isAsciiBlank c

def isEndBoundary (c : Char) : Bool :=
  c == ';' || isStartBoundary c

/-- A character of a bare name part; braces and dollar signs belong to placeholders. -/
def isSegmentChar (c : Char) : Bool :=
  c.isAlphanum || ['_', '$', '{', '}'].contains c

/-- A name in upper case with the qualifiers that were written before it. -/
structure QualifiedName where
  database : Option String
  schema : Option String
  name : String
  deriving DecidableEq, Repr

def QualifiedName.resolve (q : QualifiedName) (database schema : String) : String :=
  q.database.getD database ++ "." ++ q.schema.getD schema ++ "." ++ q.name

def QualifiedName.text (q : QualifiedName) : String :=
  (q.database.elim "" (· ++ ".")) ++ (q.schema.elim "" (· ++ ".")) ++ q.name

/-- A qualifier, and the text before it in reverse. -/
structure Segment where
  name : List Char
  before : List Char

/-- The qualifier that ends at the dot that `before` starts with, where `before` is in reverse. -/
def segment? : List Char → Option Segment
  | '.' :: '"' :: t =>
    let name := (t.takeWhile (· ≠ '"')).reverse
    match t.dropWhile (· ≠ '"') with
    | '"' :: r => if name = [] then none else some ⟨name, r⟩
    | _ => none
  | '.' :: t =>
    let name := (t.takeWhile isSegmentChar).reverse
    if name = [] then none else some ⟨name, t.dropWhile isSegmentChar⟩
  | _ => none

def segments : Nat → List Char → List Segment
  | 0, _ => []
  | limit + 1, before =>
    match segment? before with
    | none => []
    | some s => s :: segments limit s.before

def startsAtBoundary (before : List Char) : Bool :=
  before.head?.all isStartBoundary

/-- The longest chain of qualifiers that starts at a boundary. The bare name needs a boundary of
its own, or the quote that opens it. -/
def chain? (opened : Bool) (before : List Char) (found : List Segment) :
    Option (List Segment) :=
  match found with
  | s :: t :: _ =>
    if startsAtBoundary t.before then some [s, t]
    else if startsAtBoundary s.before then some [s]
    else if opened || startsAtBoundary before then some [] else none
  | [s] =>
    if startsAtBoundary s.before then some [s]
    else if opened || startsAtBoundary before then some [] else none
  | [] => if opened || startsAtBoundary before then some [] else none

/-- The reference whose name stands between `before`, in reverse, and `after`. -/
def referenceAt? (name before after : List Char) : Option QualifiedName :=
  let (opened, before) := match before with
    | '"' :: t => (true, t)
    | t => (false, t)
  let after := match after with
    | '"' :: t => t
    | t => t
  if after.head?.all isEndBoundary then
    (chain? opened before (segments 2 before)).map fun found =>
      let part (i : Nat) := found[i]?.map fun s => String.ofList (upper s.name)
      ⟨part 1, part 0, String.ofList (upper name)⟩
  else none

/-- All references to `name` in the rest of a text, in order; `before` is its first part, in
reverse. Matches may overlap. -/
def referencesAfter (name before : List Char) : List Char → List QualifiedName
  | [] => []
  | c :: t =>
    let here := (dropSame? name (c :: t)).bind (referenceAt? name before)
    here.toList ++ referencesAfter name (c :: before) t

def references (name t : List Char) : List QualifiedName :=
  if name = [] then [] else referencesAfter name [] t

def distinctReferences (name t : List Char) : List QualifiedName :=
  (references name t).foldl (fun found q => if found.contains q then found else found ++ [q]) []

def firstReference? (name t : List Char) : Option QualifiedName :=
  (references name t).head?

end SchemaDeploy.Sql
