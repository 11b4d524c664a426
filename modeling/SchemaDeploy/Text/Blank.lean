namespace SchemaDeploy.Text

def isBlank (c : Char) : Bool :=
  let n := c.toNat
  (9 ≤ n && n ≤ 13) || n == 0x20 || n == 0x85 || n == 0xA0 || n == 0x1680 ||
    (0x2000 ≤ n && n ≤ 0x200A) || n == 0x2028 || n == 0x2029 || n == 0x202F || n == 0x205F ||
    n == 0x3000

/-- Space, tab, newline, form feed and carriage return; a vertical tab is none of them. -/
def isAsciiBlank (c : Char) : Bool :=
  c == ' ' || c == '\t' || c == '\n' || c == '\x0c' || c == '\r'

def dropEndWhile (p : Char → Bool) (t : List Char) : List Char :=
  (t.reverse.dropWhile p).reverse

def trimStart (t : List Char) : List Char :=
  t.dropWhile isBlank

def trimEnd (t : List Char) : List Char :=
  dropEndWhile isBlank t

def trim (t : List Char) : List Char :=
  trimEnd (trimStart t)

def allBlank (t : List Char) : Bool :=
  t.all isBlank

def trimQuotes (t : List Char) : List Char :=
  dropEndWhile (· == '"') (t.dropWhile (· == '"'))

/-- Cuts at every character that satisfies `p`; there is one more piece than there are cuts. -/
def splitWhere (p : Char → Bool) : List Char → List (List Char)
  | [] => [[]]
  | c :: t =>
    if p c then [] :: splitWhere p t
    else match splitWhere p t with
      | [] => [[c]]
      | w :: ws => (c :: w) :: ws

def words (t : List Char) : List (List Char) :=
  (splitWhere isBlank t).filter (· ≠ [])

def collapse (t : List Char) : List Char :=
  List.intercalate [' '] (words t)

def rawLines : List Char → List (List Char)
  | [] => []
  | c :: t =>
    if c = '\n' then [c] :: rawLines t
    else match rawLines t with
      | [] => [[c]]
      | l :: ls => (c :: l) :: ls

/-- A line without its newline and without a carriage return before that newline. -/
def chomp (line : List Char) : List Char :=
  match line.reverse with
  | '\n' :: '\r' :: t => t.reverse
  | '\n' :: t => t.reverse
  | _ => line

def lines (t : List Char) : List (List Char) :=
  (rawLines t).map chomp

def dropSuffix? (suffix t : List Char) : Option (List Char) :=
  if suffix.isSuffixOf t then some (t.take (t.length - suffix.length)) else none

def replacePair (a b : Char) (image : List Char) : List Char → List Char
  | [] => []
  | [c] => [c]
  | c :: d :: t =>
    if c = a ∧ d = b then image ++ replacePair a b image t else c :: replacePair a b image (d :: t)

end SchemaDeploy.Text

namespace SchemaDeploy

def trimText (s : String) : String :=
  String.ofList (Text.trim s.toList)

def isBlankText (s : String) : Bool :=
  Text.allBlank s.toList

def textLines (s : String) : List String :=
  (Text.lines s.toList).map String.ofList

def joinWith (separator : String) (parts : List String) : String :=
  separator.intercalate parts

end SchemaDeploy
