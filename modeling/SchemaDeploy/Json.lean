namespace SchemaDeploy

/-- A number keeps its text. -/
inductive JsonValue where
  | null
  | bool (value : Bool)
  | number (text : String)
  | string (value : String)
  | array (items : List JsonValue)
  | object (members : List (String × JsonValue))
  deriving Repr

namespace JsonValue

def isSpace (c : Char) : Bool :=
  c == ' ' || c == '\t' || c == '\n' || c == '\r'

def skip (t : List Char) : List Char :=
  t.dropWhile isSpace

def hexDigit? (c : Char) : Option Nat :=
  if c.isDigit then some (c.toNat - '0'.toNat)
  else if 'a' ≤ c.toLower ∧ c.toLower ≤ 'f' then some (c.toLower.toNat - 'a'.toNat + 10)
  else none

def unit? : List Char → Option (Nat × List Char)
  | a :: b :: c :: d :: t => do
    return ((← hexDigit? a) * 4096 + (← hexDigit? b) * 256 + (← hexDigit? c) * 16 + (← hexDigit? d), t)
  | _ => none

def escapedUnit? (t : List Char) : Option (Char × List Char) :=
  match unit? t with
  | none => none
  | some (u, t) =>
    if 0xD800 ≤ u ∧ u < 0xDC00 then
      match t with
      | '\\' :: 'u' :: t =>
        match unit? t with
        | some (v, t) =>
          if 0xDC00 ≤ v ∧ v < 0xE000 then
            some (Char.ofNat (0x10000 + (u - 0xD800) * 0x400 + (v - 0xDC00)), t)
          else none
        | none => none
      | _ => none
    else if 0xDC00 ≤ u ∧ u < 0xE000 then none
    else some (Char.ofNat u, t)

def escape? : List Char → Option (Char × List Char)
  | '"' :: t => some ('"', t)
  | '\\' :: t => some ('\\', t)
  | '/' :: t => some ('/', t)
  | 'b' :: t => some ('\x08', t)
  | 'f' :: t => some ('\x0c', t)
  | 'n' :: t => some ('\n', t)
  | 'r' :: t => some ('\r', t)
  | 't' :: t => some ('\t', t)
  | 'u' :: t => escapedUnit? t
  | _ => none

/-- Reads a string after its opening quote; `read` is what comes before, in reverse. -/
def stringFrom? : Nat → List Char → List Char → Option (String × List Char)
  | 0, _, _ => none
  | fuel + 1, read, t =>
    match t with
    | [] => none
    | '"' :: r => some (String.ofList read.reverse, r)
    | '\\' :: r =>
      match escape? r with
      | some (c, r) => stringFrom? fuel (c :: read) r
      | none => none
    | c :: r => if c.toNat < 0x20 then none else stringFrom? fuel (c :: read) r

def digits? (t : List Char) : Option (List Char × List Char) :=
  match t.takeWhile Char.isDigit with
  | [] => none
  | ds => some (ds, t.dropWhile Char.isDigit)

def integer? (t : List Char) : Option (List Char × List Char) :=
  match digits? t with
  | some ('0' :: _ :: _, _) => none
  | r => r

def fraction? : List Char → Option (List Char × List Char)
  | '.' :: t => (digits? t).map fun (ds, r) => ('.' :: ds, r)
  | t => some ([], t)

def exponent? (t : List Char) : Option (List Char × List Char) :=
  match t with
  | e :: r =>
    if e = 'e' ∨ e = 'E' then
      match r with
      | '+' :: r => (digits? r).map fun (ds, r) => (e :: '+' :: ds, r)
      | '-' :: r => (digits? r).map fun (ds, r) => (e :: '-' :: ds, r)
      | r => (digits? r).map fun (ds, r) => (e :: ds, r)
    else some ([], t)
  | [] => some ([], [])

def number? (t : List Char) : Option (JsonValue × List Char) := do
  let (sign, t) := match t with
    | '-' :: r => (['-'], r)
    | r => ([], r)
  let (whole, t) ← integer? t
  let (fraction, t) ← fraction? t
  let (exponent, t) ← exponent? t
  return (number (String.ofList (sign ++ whole ++ fraction ++ exponent)), t)

mutual

def value? : Nat → List Char → Option (JsonValue × List Char)
  | 0, _ => none
  | fuel + 1, t =>
    match skip t with
    | 'n' :: 'u' :: 'l' :: 'l' :: r => some (null, r)
    | 't' :: 'r' :: 'u' :: 'e' :: r => some (bool true, r)
    | 'f' :: 'a' :: 'l' :: 's' :: 'e' :: r => some (bool false, r)
    | '"' :: r => (stringFrom? (r.length + 1) [] r).map fun (s, r) => (string s, r)
    | '[' :: r =>
      match skip r with
      | ']' :: r => some (array [], r)
      | r => items? fuel [] r
    | '\x7b' :: r =>
      match skip r with
      | '\x7d' :: r => some (object [], r)
      | r => members? fuel [] r
    | r => number? r

def items? : Nat → List JsonValue → List Char → Option (JsonValue × List Char)
  | 0, _, _ => none
  | fuel + 1, items, t =>
    match value? fuel t with
    | none => none
    | some (v, r) =>
      match skip r with
      | ',' :: r => items? fuel (v :: items) r
      | ']' :: r => some (array (v :: items).reverse, r)
      | _ => none

def members? : Nat → List (String × JsonValue) → List Char → Option (JsonValue × List Char)
  | 0, _, _ => none
  | fuel + 1, members, t =>
    match skip t with
    | '"' :: r =>
      match stringFrom? (r.length + 1) [] r with
      | none => none
      | some (key, r) =>
        match skip r with
        | ':' :: r =>
          match value? fuel r with
          | none => none
          | some (v, r) =>
            match skip r with
            | ',' :: r => members? fuel ((key, v) :: members) r
            | '\x7d' :: r => some (object ((key, v) :: members).reverse, r)
            | _ => none
        | _ => none
    | _ => none

end

def parse? (text : String) : Option JsonValue :=
  match value? (2 * text.length + 2) text.toList with
  | some (v, r) => if skip r = [] then some v else none
  | none => none

def hexPair (n : Nat) : List Char :=
  [Nat.digitChar (n / 16 % 16), Nat.digitChar (n % 16)]

def escapeChar (c : Char) : List Char :=
  match c with
  | '"' => ['\\', '"']
  | '\\' => ['\\', '\\']
  | '\x08' => ['\\', 'b']
  | '\x0c' => ['\\', 'f']
  | '\n' => ['\\', 'n']
  | '\r' => ['\\', 'r']
  | '\t' => ['\\', 't']
  | c => if c.toNat < 0x20 then '\\' :: 'u' :: '0' :: '0' :: hexPair c.toNat else [c]

def quoted (s : String) : String :=
  String.ofList ('"' :: s.toList.flatMap escapeChar ++ ['"'])

def newline (depth : Nat) : String :=
  "\n" ++ String.ofList (List.replicate (2 * depth) ' ')

mutual

def render (depth : Nat) : JsonValue → String
  | null => "null"
  | bool b => if b then "true" else "false"
  | number t => t
  | string s => quoted s
  | array [] => "[]"
  | array items => "[" ++ ",".intercalate (renderItems (depth + 1) items) ++ newline depth ++ "]"
  | object [] => "\x7b\x7d"
  | object members =>
    "\x7b" ++ ",".intercalate (renderMembers (depth + 1) members) ++ newline depth ++ "\x7d"

def renderItems (depth : Nat) : List JsonValue → List String
  | [] => []
  | v :: vs => (newline depth ++ render depth v) :: renderItems depth vs

def renderMembers (depth : Nat) : List (String × JsonValue) → List String
  | [] => []
  | (k, v) :: ms =>
    (newline depth ++ quoted k ++ ": " ++ render depth v) :: renderMembers depth ms

end

end JsonValue

end SchemaDeploy
