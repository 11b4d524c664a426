namespace SchemaDeploy

structure Keyed (α : Type) where
  entries : List (String × α)
  sorted : entries.Pairwise fun a b => a.1 < b.1
  deriving DecidableEq, Repr

namespace Keyed

variable {α β : Type}

def insertEntry (key : String) (value : α) : List (String × α) → List (String × α)
  | [] => [(key, value)]
  | e :: es =>
    if key < e.1 then (key, value) :: e :: es
    else if key = e.1 then (key, value) :: es
    else e :: insertEntry key value es

theorem mem_insertEntry {key : String} {value : α} {a : String × α} {l : List (String × α)}
    (h : a ∈ insertEntry key value l) : a = (key, value) ∨ a ∈ l := by
  induction l with
  | nil => simpa [insertEntry] using h
  | cons e es ih =>
      simp only [insertEntry] at h
      split at h
      · simpa using h
      · split at h
        · simp only [List.mem_cons] at h ⊢
          rcases h with h | h
          · exact .inl h
          · exact .inr (.inr h)
        · simp only [List.mem_cons] at h ⊢
          rcases h with h | h
          · exact .inr (.inl h)
          · rcases ih h with h | h
            · exact .inl h
            · exact .inr (.inr h)

theorem pairwise_insertEntry (key : String) (value : α) {l : List (String × α)}
    (h : l.Pairwise fun a b => a.1 < b.1) :
    (insertEntry key value l).Pairwise fun a b => a.1 < b.1 := by
  induction l with
  | nil => simp [insertEntry]
  | cons e es ih =>
      obtain ⟨he, hes⟩ := List.pairwise_cons.1 h
      simp only [insertEntry]
      split
      · next hlt =>
        refine List.pairwise_cons.2 ⟨fun a ha => ?_, h⟩
        rcases List.mem_cons.1 ha with rfl | ha
        · exact hlt
        · exact String.lt_trans hlt (he a ha)
      · next hlt =>
        split
        · next heq => exact List.pairwise_cons.2 ⟨fun a ha => heq ▸ he a ha, hes⟩
        · next hne =>
          refine List.pairwise_cons.2 ⟨fun a ha => ?_, ih hes⟩
          rcases mem_insertEntry ha with rfl | ha
          · rcases String.le_total key e.1 with hle | hle
            · exact absurd (String.le_antisymm hle (String.not_lt.1 hlt)) hne
            · exact Decidable.byContradiction fun hn =>
                hne (String.le_antisymm (String.not_lt.1 hn) hle)
          · exact he a ha

def empty : Keyed α :=
  ⟨[], .nil⟩

def insert (m : Keyed α) (key : String) (value : α) : Keyed α :=
  ⟨insertEntry key value m.entries, pairwise_insertEntry key value m.sorted⟩

def erase (m : Keyed α) (key : String) : Keyed α :=
  ⟨m.entries.filter (·.1 ≠ key), m.sorted.filter _⟩

def get? (m : Keyed α) (key : String) : Option α :=
  m.entries.lookup key

def contains (m : Keyed α) (key : String) : Bool :=
  m.entries.any (·.1 == key)

def keys (m : Keyed α) : List String :=
  m.entries.map (·.1)

def values (m : Keyed α) : List α :=
  m.entries.map (·.2)

def map (f : String → α → β) (m : Keyed α) : Keyed β :=
  ⟨m.entries.map fun e => (e.1, f e.1 e.2), List.pairwise_map.2 m.sorted⟩

def ofList (es : List (String × α)) : Keyed α :=
  es.foldl (fun m e => m.insert e.1 e.2) empty

end Keyed

abbrev Names : Type := Keyed Unit

def Names.ofNames (names : List String) : Names :=
  Keyed.ofList (names.map (·, ()))

def Names.add (s : Names) (name : String) : Names :=
  s.insert name ()

end SchemaDeploy
