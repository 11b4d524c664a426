import SchemaDeploy.Script.Basic
import SchemaDeploy.Sql.Reference

namespace SchemaDeploy.Dependency

open Text Sql

/-- The word after the first LANGUAGE that starts a word; `previous` is the character before. -/
def language? (previous : Option Char) : List Char → Option (List Char)
  | [] => none
  | c :: t =>
    let here := do
      guard (!previous.any isWord)
      let r ← keyword? "LANGUAGE".toList (c :: t)
      let _ ← r.head?.filter isBlank
      match (trimStart r).takeWhile isWord with
      | [] => none
      | w => some w
    here.or (language? (some c) t)

def isForeign (s : Script) (cleaned : List Char) : Bool :=
  s.objectType == .function && (language? none cleaned).any fun w => !same w "SQL".toList

/-- Whether the cleaned text of a subject names a candidate; parts of a name that are left out are
those of the subject. -/
def names (subject : Script) (cleaned : List Char) (candidate : Script) : Bool :=
  (references candidate.name.toList cleaned).any fun q =>
    q.resolve subject.database subject.schema == candidate.fullName

def isEarlierVersion (subject candidate : Script) : Bool :=
  match subject.version, candidate.version with
  | some v, some w =>
    candidate.objectType == subject.objectType && candidate.fullName == subject.fullName && w < v
  | _, _ => false

def dependsOn (subject : Script) (foreign : Bool) (cleaned : List Char) (candidate : Script) :
    Bool :=
  (!foreign && candidate.fullName != subject.fullName && names subject cleaned candidate) ||
    isEarlierVersion subject candidate

def inferred (s : Script) (pool : List Script) : List Nat :=
  let cleaned := clean s.content.toList
  let foreign := isForeign s cleaned
  (pool.zipIdx.filter fun p => dependsOn s foreign cleaned p.1).map (·.2)

end SchemaDeploy.Dependency
