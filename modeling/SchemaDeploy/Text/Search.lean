import SchemaDeploy.Text.Case

namespace SchemaDeploy.Text

def dropSame? : List Char → List Char → Option (List Char)
  | [], t => some t
  | _ :: _, [] => none
  | a :: needle, c :: t => if sameLetter a c then dropSame? needle t else none

theorem length_of_dropSame? {needle t r : List Char} (h : dropSame? needle t = some r) :
    t.length = needle.length + r.length := by
  induction needle generalizing t with
  | nil => simp_all [dropSame?]
  | cons a needle ih =>
      cases t with
      | nil => simp [dropSame?] at h
      | cons c t =>
          simp only [dropSame?] at h
          split at h
          · simp only [List.length_cons, ih h]; omega
          · simp at h

/-- The UTF-8 offset of the first match at or after `start`, where `here` is the offset of the
text that is looked at. An empty needle has no match. -/
def findSame (needle : List Char) (start here : Nat) : List Char → Option Nat
  | [] => none
  | c :: t =>
    if start ≤ here ∧ needle ≠ [] ∧ (dropSame? needle (c :: t)).isSome then some here
    else findSame needle start (here + c.utf8Size) t

def endsWithSame (t suffix : List Char) : Bool :=
  (dropSame? suffix.reverse t.reverse).isSome

/-- Replaces every match of `needle` that `accept` allows, given the character before it and the
one after it. A replaced stretch is not looked at again; after a refused match the search goes on
one character later. The first `skip` characters belong to a match that is already replaced. -/
def replaceFrom (accept : Option Char → Option Char → Bool) (needle image : List Char) :
    Nat → Option Char → List Char → List Char
  | _, _, [] => []
  | skip + 1, _, c :: t => replaceFrom accept needle image skip (some c) t
  | 0, before, c :: t =>
    match dropSame? needle (c :: t) with
    | none => c :: replaceFrom accept needle image 0 (some c) t
    | some rest =>
      if needle ≠ [] ∧ accept before rest.head? then
        image ++ replaceFrom accept needle image (needle.length - 1) (some c) t
      else c :: replaceFrom accept needle image 0 (some c) t

def replaceSame (accept : Option Char → Option Char → Bool) (needle image t : List Char) :
    List Char :=
  replaceFrom accept needle image 0 none t

end SchemaDeploy.Text
