namespace SchemaDeploy.Sql

inductive ScanState where
  | plain
  | lineComment
  | blockComment
  | singleQuoted
  | doubleQuoted
  deriving DecidableEq, Repr

def ScanState.isComment : ScanState → Bool
  | .lineComment | .blockComment => true
  | _ => false

/-- The state after the character `c`, and whether the character after it is taken with it. -/
def ScanState.step : ScanState → Char → Option Char → ScanState × Bool
  | .plain, '-', some '-' => (.lineComment, true)
  | .plain, '/', some '/' => (.lineComment, true)
  | .plain, '/', some '*' => (.blockComment, true)
  | .plain, '\'', _ => (.singleQuoted, false)
  | .plain, '"', _ => (.doubleQuoted, false)
  | .lineComment, '\n', _ => (.plain, false)
  | .blockComment, '*', some '/' => (.plain, true)
  | .singleQuoted, '\\', _ => (.singleQuoted, true)
  | .singleQuoted, '\'', _ => (.plain, false)
  | .doubleQuoted, '"', _ => (.plain, false)
  | s, _, _ => (s, false)

variable {σ : Type}

/-- One or two characters that a scan takes at once. -/
structure Chunk (σ : Type) where
  before : σ
  after : σ
  text : List Char

def chunks (step : σ → Char → Option Char → σ × Bool) : σ → List Char → List (Chunk σ)
  | _, [] => []
  | s, [c] => [⟨s, (step s c none).1, [c]⟩]
  | s, c :: d :: t =>
    match step s c (some d) with
    | (s', true) => ⟨s, s', [c, d]⟩ :: chunks step s' t
    | (s', false) => ⟨s, s', [c]⟩ :: chunks step s' (d :: t)

theorem flatMap_text_chunks (step : σ → Char → Option Char → σ × Bool) (s : σ) (t : List Char) :
    (chunks step s t).flatMap Chunk.text = t := by
  fun_induction chunks step s t <;> simp_all

def scan (step : σ → Char → Option Char → σ × Bool) : σ → List Char → σ
  | s, [] => s
  | s, [c] => (step s c none).1
  | s, c :: d :: t =>
    match step s c (some d) with
    | (s', true) => scan step s' t
    | (s', false) => scan step s' (d :: t)

/-- What is left of a chunk without comments: the newline that ends a line comment stays. -/
def Chunk.uncommented (k : Chunk ScanState) : List Char :=
  match k.before, k.after with
  | .lineComment, .plain => k.text
  | .blockComment, _ => []
  | .lineComment, _ => []
  | _, s => if s.isComment then [] else k.text

/-- Removes line comments and block comments outside quoted text. A block comment without an end
swallows the rest. -/
def stripComments (t : List Char) : List Char :=
  (chunks ScanState.step .plain t).flatMap Chunk.uncommented

end SchemaDeploy.Sql
