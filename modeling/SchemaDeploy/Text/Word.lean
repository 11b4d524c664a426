import SchemaDeploy.Text.WordTable

namespace SchemaDeploy.Text

def inRanges (ranges : List (Nat × Nat)) (n : Nat) : Bool :=
  ranges.any fun r => r.1 ≤ n && n ≤ r.2

def isWord (c : Char) : Bool :=
  if c.toNat < 128 then c.isAlphanum || c == '_' else inRanges wordRanges c.toNat

def isDecimal (c : Char) : Bool :=
  if c.toNat < 128 then c.isDigit else inRanges digitRanges c.toNat

/-- The value of an unsigned number, or why the text is none. -/
inductive NumberError where
  | invalidDigit
  | tooLarge
  deriving DecidableEq, Repr

def NumberError.message : NumberError → String
  | .invalidDigit => "invalid digit found in string"
  | .tooLarge => "number too large to fit in target type"

def maxVersion : Nat := 0xFFFFFFFFFFFFFFFF

/-- Reads decimal digits; the first character that is no ASCII digit or that passes the largest
64-bit value decides the error. -/
def readDigits : Nat → List Char → Except NumberError Nat
  | n, [] => .ok n
  | n, c :: t =>
    if c.isDigit then
      let m := n * 10 + (c.toNat - '0'.toNat)
      if m ≤ maxVersion then readDigits m t else .error .tooLarge
    else .error .invalidDigit

def readNumber? (t : List Char) : Option Nat :=
  match t with
  | [] => none
  | ['+'] => none
  | '+' :: ds => (readDigits 0 ds).toOption
  | ds => (readDigits 0 ds).toOption

end SchemaDeploy.Text
