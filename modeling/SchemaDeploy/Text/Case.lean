import SchemaDeploy.Text.CaseTable
import SchemaDeploy.Text.Word

namespace SchemaDeploy.Text

def CaseRun.imageOf? (r : CaseRun) (n : Nat) : Option Nat :=
  if r.first ≤ n ∧ n ≤ r.last ∧ (n - r.first) % r.step = 0 then some (r.image + (n - r.first))
  else none

def mapCase (expansions : List (Nat × List Nat)) (runs : List CaseRun) (c : Char) : List Char :=
  match expansions.lookup c.toNat with
  | some ns => ns.map Char.ofNat
  | none =>
    match runs.findSome? (·.imageOf? c.toNat) with
    | some n => [Char.ofNat n]
    | none => [c]

def upperChar (c : Char) : List Char :=
  if c.toNat < 128 then [c.toUpper] else mapCase upperExpansions upperRuns c

def upper (t : List Char) : List Char :=
  t.flatMap upperChar

def lowerChar (c : Char) : List Char :=
  if c.toNat < 128 then [c.toLower] else mapCase lowerExpansions lowerRuns c

def isCased (c : Char) : Bool :=
  if c.toNat < 128 then c.isAlpha else inRanges casedRanges c.toNat

def isCaseIgnorable (c : Char) : Bool :=
  if c.toNat < 128 then ['\'', '.', ':', '^', '\x60'].contains c
  else inRanges caseIgnorableRanges c.toNat

/-- Whether a cased character comes first once the ignorable ones are skipped. -/
def meetsCased (t : List Char) : Bool :=
  (t.dropWhile isCaseIgnorable).head?.any isCased

/-- Lower case of a text whose part before it is `before`, in reverse. A capital sigma at the end
of a word has a form of its own. -/
def lowerAfter (before : List Char) : List Char → List Char
  | [] => []
  | c :: t =>
    let image :=
      if c.toNat = 0x3A3 then
        [Char.ofNat (if meetsCased before && !meetsCased t then 0x3C2 else 0x3C3)]
      else lowerChar c
    image ++ lowerAfter (c :: before) t

def lower (t : List Char) : List Char :=
  lowerAfter [] t

def sameLetter (a b : Char) : Bool :=
  a.toLower == b.toLower

def same (s t : List Char) : Bool :=
  s.map Char.toLower == t.map Char.toLower

/-- Equality of an ASCII keyword letter with a character, up to case. The long s and the Kelvin
sign count as cases of `s` and `k`. -/
def foldsTo (letter c : Char) : Bool :=
  sameLetter letter c || (letter.toLower == 's' && c.toNat == 0x17F) ||
    (letter.toLower == 'k' && c.toNat == 0x212A)

def keyword? : List Char → List Char → Option (List Char)
  | [], t => some t
  | _ :: _, [] => none
  | k :: ks, c :: t => if foldsTo k c then keyword? ks t else none

end SchemaDeploy.Text

namespace SchemaDeploy

def upperText (s : String) : String :=
  String.ofList (Text.upper s.toList)

def lowerText (s : String) : String :=
  String.ofList (Text.lower s.toList)

def sameText (s t : String) : Bool :=
  Text.same s.toList t.toList

end SchemaDeploy
