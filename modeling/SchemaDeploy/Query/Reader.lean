import SchemaDeploy.Query.Basic

namespace SchemaDeploy.Query

abbrev Read (α : Type) : Type := List Token → Option (α × List Token)

def isKeyword (k : String) : Token → Bool
  | .word ⟨v, none⟩ => sameText v k
  | _ => false

def startsWith (k : String) (t : List Token) : Bool :=
  t.head?.any (isKeyword k)

def skipWords? : List String → List Token → Option (List Token)
  | [], t => some t
  | k :: ks, c :: t => if isKeyword k c then skipWords? ks t else none
  | _ :: _, [] => none

def skipSymbol? (s : String) : List Token → Option (List Token)
  | .symbol r :: t => if r = s then some t else none
  | _ => none

def ident? : Read Ident
  | .word i :: t => some (i, t)
  | _ => none

/-- Items with commas between them. After a comma that `stop` allows to come last, there may be no
further item. -/
def separated {α : Type} (stop : List Token → Bool) (item : Read α) : Nat → Read (List α)
  | 0, _ => none
  | fuel + 1, t => do
    let (a, t) ← item t
    match skipSymbol? "," t with
    | none => return ([a], t)
    | some r =>
      if stop r then return ([a], r)
      else
        let (as, t) ← separated stop item fuel r
        return (a :: as, t)

def never (_ : List Token) : Bool := false

/-- Whether a list that may end in a comma ends here: at the end, at a closing parenthesis or
terminator, or before one of some keywords. -/
def endsList (keywords : List String) : List Token → Bool
  | [] => true
  | .symbol s :: _ => s == ")" || s == ";"
  | k :: _ => keywords.any (isKeyword · k)

def dotted : Nat → Read (List Ident)
  | 0, _ => none
  | fuel + 1, t => do
    let (i, t) ← ident? t
    match t with
    | .symbol "." :: .word j :: r =>
      let (is, t) ← dotted fuel (.word j :: r)
      return (i :: is, t)
    | _ => return ([i], t)

def wildcard? (fuel : Nat) (t : List Token) : Option (Form × List Token) := do
  let (name, t) ← dotted fuel t
  let t ← skipSymbol? "." t
  let t ← skipSymbol? "*" t
  return (words (nameText name ++ ".*"), t)

def columns? (fuel : Nat) (t : List Token) : Option (List String × List Token) := do
  let t ← skipSymbol? "(" t
  let column : Read String := fun t => do
    let (i, t) ← ident? t
    match t with
    | .word type :: r => return (i.text ++ " " ++ type.text, r)
    | _ => return (i.text, t)
  let (cs, t) ← separated never column fuel t
  let t ← skipSymbol? ")" t
  return (cs, t)

end SchemaDeploy.Query
