import SchemaDeploy.Text.Blank
import SchemaDeploy.Text.Case

namespace SchemaDeploy.Query

open Text

/-- A name part, with the quote it was written in. -/
structure Ident where
  value : String
  quote : Option Char
  deriving DecidableEq, Repr

inductive Token where
  | word (name : Ident)
  | number (text : String)
  | string (value : String)
  | symbol (text : String)
  deriving DecidableEq, Repr

/-- Doubles the quotes in a text, unless one follows a backslash or is doubled already. `previous` is
the character before. -/
def doubleQuotes (quote : Char) : Char → List Char → List Char
  | _, [] => []
  | previous, [c] => if c = quote ∧ previous ≠ '\\' then [c, c] else [c]
  | previous, c :: d :: t =>
    if c = quote then
      if previous = '\\' then c :: doubleQuotes quote previous (d :: t)
      else if d = quote then c :: d :: doubleQuotes quote c t
      else c :: c :: doubleQuotes quote c (d :: t)
    else c :: doubleQuotes quote c (d :: t)

def quotedText (quote : Char) (s : String) : String :=
  String.ofList (quote :: doubleQuotes quote '\x00' s.toList ++ [quote])

def Ident.text (i : Ident) : String :=
  match i.quote with
  | none => i.value
  | some q => quotedText q i.value

def isNameStart (c : Char) : Bool :=
  c.isAlpha || c == '_'

def isNameChar (c : Char) : Bool :=
  c.isAlphanum || c == '_' || c == '$'

def unescape : Char → Char
  | '0' => '\x00'
  | 'a' => '\x07'
  | 'b' => '\x08'
  | 'f' => '\x0c'
  | 'n' => '\n'
  | 'r' => '\r'
  | 't' => '\t'
  | 'Z' => '\x1a'
  | c => c

def string? : List Char → Option (List Char × List Char)
  | [] => none
  | '\\' :: c :: t => (string? t).map fun (s, r) => (unescape c :: s, r)
  | '\'' :: '\'' :: t => (string? t).map fun (s, r) => ('\'' :: s, r)
  | '\'' :: t => some ([], t)
  | c :: t => (string? t).map fun (s, r) => (c :: s, r)

def quotedName? (quote : Char) : List Char → Option (List Char × List Char)
  | [] => none
  | [c] => if c = quote then some ([], []) else none
  | c :: d :: t =>
    if c = quote then
      if d = quote then (quotedName? quote t).map fun (s, r) => (c :: s, r)
      else some ([], d :: t)
    else (quotedName? quote (d :: t)).map fun (s, r) => (c :: s, r)

def afterComment? : List Char → Option (List Char)
  | [] => none
  | '*' :: '/' :: t => some t
  | _ :: t => afterComment? t

def afterLine (t : List Char) : List Char :=
  t.dropWhile (· ≠ '\n')

def exponent (t : List Char) : List Char × List Char :=
  match t with
  | e :: r =>
    if e = 'e' ∨ e = 'E' then
      let (sign, ds) := match r with
        | '+' :: s => (['+'], s)
        | '-' :: s => (['-'], s)
        | s => ([], s)
      match ds.takeWhile Char.isDigit with
      | [] => ([], t)
      | digits => (e :: sign ++ digits, ds.dropWhile Char.isDigit)
    else ([], t)
  | [] => ([], [])

def number? (t : List Char) : Option (List Char × List Char) :=
  let whole := t.takeWhile Char.isDigit
  let (fraction, r) := match t.dropWhile Char.isDigit with
    | '.' :: s => ('.' :: s.takeWhile Char.isDigit, s.dropWhile Char.isDigit)
    | s => ([], s)
  if (whole ++ fraction).any Char.isDigit then
    let (power, r) := exponent r
    some (whole ++ fraction ++ power, r)
  else none

def symbols : List String :=
  ["::", "||", "<=", ">=", "<>", "!=", "=", "<", ">", "+", "-", "*", "/", "%", "(", ")", ",", ".", ";"]

/-- The first symbol that a text starts with; both spellings of the inequality are one symbol. -/
def symbol? (t : List Char) : Option (Token × List Char) :=
  (symbols.find? fun s => s.toList.isPrefixOf t).map fun s =>
    (.symbol (if s = "!=" then "<>" else s), t.drop s.length)

def token? (c : Char) (t : List Char) : Option (Token × List Char) :=
  if c = '\'' then (string? t).map fun (s, r) => (.string (String.ofList s), r)
  else if c = '"' ∨ c = '\x60' then
    (quotedName? c t).map fun (s, r) => (.word ⟨String.ofList s, some c⟩, r)
  else if isNameStart c then
    some (.word ⟨String.ofList (c :: t.takeWhile isNameChar), none⟩, t.dropWhile isNameChar)
  else match number? (c :: t) with
    | some (n, r) => some (.number (String.ofList n), r)
    | none => symbol? (c :: t)

def tokensFrom? : Nat → List Char → Option (List Token)
  | _, [] => some []
  | 0, _ => none
  | fuel + 1, c :: t =>
    if isBlank c then tokensFrom? fuel t
    else match c, t with
      | '-', '-' :: r => tokensFrom? fuel (afterLine r)
      | '/', '/' :: r => tokensFrom? fuel (afterLine r)
      | '#', r => tokensFrom? fuel (afterLine r)
      | '/', '*' :: r => (afterComment? r).bind (tokensFrom? fuel)
      | _, _ =>
        match token? c t with
        | some (k, r) => (tokensFrom? fuel r).map (k :: ·)
        | none => none

def tokens? (text : String) : Option (List Token) :=
  tokensFrom? text.length text.toList

end SchemaDeploy.Query
