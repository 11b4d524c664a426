import SchemaDeploy.Sql.Scan
import SchemaDeploy.Text.Search
import SchemaDeploy.Text.Blank

namespace SchemaDeploy.Sql

open Text

/-- The length of the literal whose opening quote stands before the text, closing quote included. A
backslash or a doubled quote takes the next character into the literal. -/
def literalLength? : List Char → Option Nat
  | [] => none
  | '\\' :: _ :: t => (literalLength? t).map (· + 2)
  | '\'' :: '\'' :: t => (literalLength? t).map (· + 2)
  | '\'' :: _ => some 1
  | _ :: t => (literalLength? t).map (· + 1)

/-- The same for a double quote; without a closing one the name runs to the end. -/
def quotedLength (t : List Char) : Nat :=
  (t.takeWhile (· ≠ '"')).length + 1

/-- Whether the text before a literal, given in reverse, ends in a blank, AS and a blank. -/
def followsAs (before : List Char) : Bool :=
  match before.dropWhile isAsciiBlank with
  | s :: a :: b :: _ =>
    before.head?.any isAsciiBlank && sameLetter 's' s && sameLetter 'a' a && isAsciiBlank b
  | _ => false

/-- Empties literals. The first `skip` characters belong to something that is already recognised and
stay if `keep` says so; `before` is the text so far, in reverse. An open literal ends the search. -/
def stripLiteralsFrom : Nat → Bool → List Char → List Char → List Char
  | _, _, _, [] => []
  | skip + 1, keep, before, c :: t =>
    let rest := stripLiteralsFrom skip keep (c :: before) t
    if keep then c :: rest else rest
  | 0, _, before, c :: t =>
    if c = '"' then c :: stripLiteralsFrom (quotedLength t) true (c :: before) t
    else if c = '\'' then
      match literalLength? t with
      | none => c :: t
      | some n =>
        if followsAs before then c :: stripLiteralsFrom n true (c :: before) t
        else '\'' :: '\'' :: stripLiteralsFrom n false (c :: before) t
    else c :: stripLiteralsFrom 0 true (c :: before) t

def stripLiterals (t : List Char) : List Char :=
  stripLiteralsFrom 0 true [] t

/-- The text that names are looked for in: no comments, and literals emptied. -/
def clean (t : List Char) : List Char :=
  stripLiterals (stripComments t)

end SchemaDeploy.Sql
