namespace SchemaDeploy

/-- A document node. A scalar keeps its text and whether it was written without quotes. -/
inductive Yaml where
  | scalar (text : String) (isPlain : Bool)
  | sequence (items : List Yaml)
  | mapping (entries : List (Yaml × Yaml))
  deriving Repr

namespace Yaml

def absent : Yaml :=
  .scalar "" true

/-- A place in a document, with the text from there on. -/
structure Cursor where
  line : Nat
  column : Nat
  rest : List Char

def Cursor.next (c : Cursor) : Cursor :=
  match c.rest with
  | [] => c
  | '\n' :: t => ⟨c.line + 1, 0, t⟩
  | _ :: t => ⟨c.line, c.column + 1, t⟩

/-- Goes to the next token over spaces, line ends and comments. A tab counts as a space where `tabs`
allows it; on a new line only inside a flow collection. -/
def skipFrom (flow : Bool) : Bool → Bool → Nat → Nat → List Char → Cursor
  | _, _, line, column, [] => ⟨line, column, []⟩
  | comment, tabs, line, column, c :: t =>
    if c = '\n' then skipFrom flow false flow (line + 1) 0 t
    else if comment || c == ' ' || c == '\r' || (c == '\t' && tabs) then
      skipFrom flow comment tabs line (column + 1) t
    else if c = '#' then skipFrom flow true tabs line (column + 1) t
    else ⟨line, column, c :: t⟩

def Cursor.skip (c : Cursor) (flow tabs : Bool) : Cursor :=
  skipFrom flow false tabs c.line c.column c.rest

def isSpace (c : Char) : Bool :=
  c == ' ' || c == '\t' || c == '\n' || c == '\r'

def isFlowMark (c : Char) : Bool :=
  [',', '[', ']', '{', '}'].contains c

/-- Whether a dash, colon or question mark here is an indicator: a space or the end follows. -/
def isIndicator (mark : Char) : List Char → Bool
  | c :: t => c == mark && t.head?.all isSpace
  | [] => false

def isValueMark (flow : Bool) : List Char → Bool
  | ':' :: t => t.head?.all fun c => isSpace c || (flow && isFlowMark c)
  | _ => false

/-- What a stretch of spaces and line ends inside a scalar counts as: one line end is a space, and
each further one stays. -/
def fold (spaces : List Char) : Nat → List Char
  | 0 => spaces.reverse
  | 1 => [' ']
  | n + 1 => List.replicate n '\n'

/-- Reads a plain scalar. `read` and `spaces` hold what is behind, in reverse, and `breaks` counts
the line ends since the last character. -/
def plainFrom (flow : Bool) (floor : Nat) :
    List Char → List Char → Nat → Nat → Nat → List Char → List Char × Cursor
  | read, _, _, line, column, [] => (read.reverse, ⟨line, column, []⟩)
  | read, spaces, breaks, line, column, c :: t =>
    if c = '\n' then plainFrom flow floor read [] (breaks + 1) (line + 1) 0 t
    else if c = ' ' || c = '\r' || (c = '\t' && (breaks = 0 || flow || floor ≤ column)) then
      plainFrom flow floor read (c :: spaces) breaks line (column + 1) t
    else if ((spaces != [] || breaks != 0) && c == '#') || isValueMark flow (c :: t) ||
        (flow && isFlowMark c) || (!flow && breaks != 0 && column < floor) then
      (read.reverse, ⟨line, column, c :: t⟩)
    else
      plainFrom flow floor (c :: (fold spaces breaks).reverse ++ read) [] 0 line (column + 1) t

def mayStartPlain (flow : Bool) : List Char → Bool
  | [] => false
  | c :: t =>
    if ['-', '?', ':'].contains c then t.head?.any fun d => !isSpace d && !(flow && isFlowMark d)
    else !([',', '[', ']', '{', '}', '#', '&', '*', '!', '|', '>', '\'', '"', '%', '@',
      '\x60', '\t'].contains c)

def hexValue? (ds : List Char) : Option Nat :=
  ds.foldlM (fun n d =>
    if d.isDigit then some (n * 16 + (d.toNat - '0'.toNat))
    else if 'a' ≤ d.toLower ∧ d.toLower ≤ 'f' then some (n * 16 + (d.toLower.toNat - 'a'.toNat + 10))
    else none) 0

def hexChar? (width : Nat) (t : List Char) : Option (Char × Nat) := do
  guard (width ≤ t.length)
  let n ← hexValue? (t.take width)
  guard n.isValidChar
  return (Char.ofNat n, width)

/-- The character after a backslash, and how many characters more the escape takes. -/
def escape? : List Char → Option (Char × Nat)
  | [] => none
  | c :: t =>
    match c with
    | '0' => some ('\x00', 0)
    | 'a' => some ('\x07', 0)
    | 'b' => some ('\x08', 0)
    | 't' => some ('\t', 0)
    | '\t' => some ('\t', 0)
    | 'n' => some ('\n', 0)
    | 'v' => some ('\x0b', 0)
    | 'f' => some ('\x0c', 0)
    | 'r' => some ('\r', 0)
    | 'e' => some ('\x1b', 0)
    | ' ' => some (' ', 0)
    | '"' => some ('"', 0)
    | '/' => some ('/', 0)
    | '\\' => some ('\\', 0)
    | 'N' => some ('\u0085', 0)
    | '_' => some ('\u00a0', 0)
    | 'L' => some ('\u2028', 0)
    | 'P' => some ('\u2029', 0)
    | 'x' => hexChar? 2 t
    | 'u' => hexChar? 4 t
    | 'U' => hexChar? 8 t
    | _ => none

/-- Reads a quoted scalar after its opening quote. The first `skip` characters belong to an escape
that is already read. -/
def quotedFrom (quote : Char) :
    Nat → List Char → List Char → Nat → Nat → Nat → List Char → Option (List Char × Cursor)
  | _, _, _, _, _, _, [] => none
  | skip + 1, read, spaces, breaks, line, column, _ :: t =>
    quotedFrom quote skip read spaces breaks line (column + 1) t
  | 0, read, spaces, breaks, line, column, c :: t =>
    let settled := (fold spaces breaks).reverse ++ read
    if c = '\n' then quotedFrom quote 0 read [] (breaks + 1) (line + 1) 0 t
    else if c = ' ' || c = '\t' || c = '\r' then
      quotedFrom quote 0 read (c :: spaces) breaks line (column + 1) t
    else if c = quote then
      if quote = '\'' ∧ t.head? = some '\'' then
        quotedFrom quote 1 ('\'' :: settled) [] 0 line (column + 1) t
      else some (settled.reverse, ⟨line, column + 1, t⟩)
    else if quote = '"' ∧ c = '\\' then
      match escape? t with
      | none => none
      | some (d, more) => quotedFrom quote (more + 1) (d :: settled) [] 0 line (column + 1) t
    else quotedFrom quote 0 (c :: settled) [] 0 line (column + 1) t

def scalarAt? (flow : Bool) (floor : Nat) (c : Cursor) : Option (Yaml × Cursor) :=
  match c.rest with
  | '\'' :: t => (quotedFrom '\'' 0 [] [] 0 c.line (c.column + 1) t).map fun (text, d) =>
    (.scalar (String.ofList text) false, d)
  | '"' :: t => (quotedFrom '"' 0 [] [] 0 c.line (c.column + 1) t).map fun (text, d) =>
    (.scalar (String.ofList text) false, d)
  | t =>
    if mayStartPlain flow t then
      let (text, d) := plainFrom flow floor [] [] 0 c.line c.column t
      some (.scalar (String.ofList text) true, d)
    else none

def keyAt? (flow : Bool) (c : Cursor) : Option (Yaml × Cursor) := do
  let (key, d) ← scalarAt? flow 0 c
  let e := d.skip flow true
  guard (e.line == c.line && isValueMark flow e.rest)
  return (key, e.next)

def isPlainScalar : Yaml → Bool
  | .scalar _ isPlain => isPlain
  | _ => false

mutual

def flowNode? : Nat → Cursor → Option (Yaml × Cursor)
  | 0, _ => none
  | fuel + 1, c =>
    match c.rest with
    | '[' :: _ => flowItems? fuel [] (c.next.skip true true)
    | '{' :: _ => flowEntries? fuel [] (c.next.skip true true)
    | _ => scalarAt? true 0 c

/-- The items of a flow sequence from here on; `items` are those before, in reverse. A single pair
among them is a mapping. -/
def flowItems? : Nat → List Yaml → Cursor → Option (Yaml × Cursor)
  | 0, _, _ => none
  | fuel + 1, items, c =>
    if c.rest.head? = some ']' then some (.sequence items.reverse, c.next)
    else do
      let (item, d) ← flowNode? fuel c
      let d := d.skip true true
      let (item, d) ←
        if isValueMark true d.rest || (d.rest.head? == some ':' && !isPlainScalar item) then do
          let (value, e) ← flowValue? fuel (d.next.skip true true)
          pure (Yaml.mapping [(item, value)], e)
        else pure (item, d)
      match d.rest with
      | ',' :: _ => flowItems? fuel (item :: items) (d.next.skip true true)
      | ']' :: _ => some (.sequence (item :: items).reverse, d.next)
      | _ => none

def flowValue? : Nat → Cursor → Option (Yaml × Cursor)
  | 0, _ => none
  | fuel + 1, c =>
    match c.rest with
    | ',' :: _ => some (absent, c)
    | ']' :: _ => some (absent, c)
    | '}' :: _ => some (absent, c)
    | _ => (flowNode? fuel c).map fun (value, d) => (value, d.skip true true)

def flowEntries? : Nat → List (Yaml × Yaml) → Cursor → Option (Yaml × Cursor)
  | 0, _, _ => none
  | fuel + 1, entries, c =>
    if c.rest.head? = some '}' then some (.mapping entries.reverse, c.next)
    else do
      let (key, d) ← flowNode? fuel c
      let d := d.skip true true
      let (value, d) ←
        if isValueMark true d.rest || (d.rest.head? == some ':' && !isPlainScalar key) then
          flowValue? fuel (d.next.skip true true)
        else pure (absent, d)
      match d.rest with
      | ',' :: _ => flowEntries? fuel ((key, value) :: entries) (d.next.skip true true)
      | '}' :: _ => some (.mapping ((key, value) :: entries).reverse, d.next)
      | _ => none

end

/-- A flow collection or a scalar that stands on the line of its key or dash. -/
def inlineNode? (fuel floor : Nat) (c : Cursor) : Option (Yaml × Cursor) :=
  match c.rest with
  | '[' :: _ => flowNode? fuel c
  | '{' :: _ => flowNode? fuel c
  | _ => scalarAt? false floor c

mutual

def blockNode? : Nat → Nat → Cursor → Option (Yaml × Cursor)
  | 0, _, _ => none
  | fuel + 1, floor, c =>
    if c.rest = [] ∨ c.column < floor then some (absent, c)
    else if isIndicator '-' c.rest then blockItems? fuel c.column [] c
    else match keyAt? false c with
      | some (key, d) => blockEntries? fuel c.column [] key d
      | none => inlineNode? fuel floor c

/-- The items of a block sequence whose dashes stand at `column`, from the dash here on. -/
def blockItems? : Nat → Nat → List Yaml → Cursor → Option (Yaml × Cursor)
  | 0, _, _, _ => none
  | fuel + 1, column, items, c => do
    let (item, d) ← blockNode? fuel (column + 1) (c.next.skip false false)
    let e := d.skip false true
    if e.rest = [] ∨ e.column < column then some (.sequence (item :: items).reverse, e)
    else if column < e.column then none
    else if isIndicator '-' e.rest then blockItems? fuel column (item :: items) e
    else some (.sequence (item :: items).reverse, e)

/-- The entries of a block mapping whose keys stand at `column`, from the value of `key` on. -/
def blockEntries? : Nat → Nat → List (Yaml × Yaml) → Yaml → Cursor → Option (Yaml × Cursor)
  | 0, _, _, _, _ => none
  | fuel + 1, column, entries, key, c => do
    let v := c.skip false true
    let (value, d) ←
      if v.line = c.line ∧ v.rest ≠ [] then inlineNode? fuel (column + 1) v
      else if v.column = column ∧ isIndicator '-' v.rest then blockItems? fuel column [] v
      else blockNode? fuel (column + 1) v
    let e := d.skip false true
    let entries := (key, value) :: entries
    if e.rest = [] ∨ e.column < column then some (.mapping entries.reverse, e)
    else if column < e.column then none
    else do
      let (key, f) ← keyAt? false e
      blockEntries? fuel column entries key f

end

/-- The node of a document; text after it is an error. An empty document has an absent node. -/
def parse? (text : List Char) : Option Yaml :=
  let text := if text.head? = some '\ufeff' then text.drop 1 else text
  let text := if ['-', '-', '-', '\n'].isPrefixOf text then text.drop 4 else text
  match blockNode? (2 * text.length + 2) 0 ((Cursor.mk 0 0 text).skip false false) with
  | none => none
  | some (node, c) => if (c.skip false true).rest = [] then some node else none

end Yaml

end SchemaDeploy
