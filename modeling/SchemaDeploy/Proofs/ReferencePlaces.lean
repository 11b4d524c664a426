import SchemaDeploy.Proofs.WordTemplates

namespace SchemaDeploy.Sql

open Text

variable {name after before : List Char} {q : QualifiedName}

instance (x : List Char) : Decidable (IsQualifier x) :=
  decidable_of_iff (x ≠ [] ∧ x.all isSegmentChar = true) (by rw [List.all_eq_true, IsQualifier])

theorem segment?_quoted {x : List Char} (hx : '"' ∉ x) (before : List Char) :
    segment? ('.' :: '"' :: (x ++ '"' :: before)) =
      if x = [] then none else some ⟨x.reverse, before⟩ := by
  have hall : ∀ c ∈ x, decide (c ≠ '"') = true := fun c hc =>
    decide_eq_true (ne_of_mem_of_not_mem hc hx)
  simp only [segment?]
  rw [List.takeWhile_append_of_pos hall, List.dropWhile_append_of_pos hall]
  simp

theorem segment?_unquoted (h : '"' ∉ before) :
    segment? ('.' :: '"' :: before) = none := by
  have hall : ∀ c ∈ before, decide (c ≠ '"') = true := fun c hc =>
    decide_eq_true (ne_of_mem_of_not_mem hc h)
  have hdrop : before.dropWhile (fun c => decide (c ≠ '"')) = [] := List.dropWhile_eq_nil_iff.2 hall
  simp only [segment?, hdrop]

theorem segment?_bare (h : before.head? ≠ some '"') : segment? ('.' :: before) =
    if before.takeWhile isSegmentChar = [] then none
    else some ⟨(before.takeWhile isSegmentChar).reverse, before.dropWhile isSegmentChar⟩ := by
  rw [segment?.eq_def]
  split
  · next heq =>
    cases heq
    exact absurd rfl h
  · next heq =>
    cases heq
    simp only [List.reverse_eq_nil_iff]
  · next heq => exact absurd rfl (heq before)

theorem segment?_bare_eq_none (hquote : before.head? ≠ some '"')
    (h : before.head?.all fun c => !isSegmentChar c) : segment? ('.' :: before) = none := by
  have htake : before.takeWhile isSegmentChar = [] := by
    cases before <;> simp_all
  rw [segment?_bare hquote, if_pos htake]

/-- Whether a name can end where the text goes on like this, perhaps with its closing quote. -/
def closesName (after : List Char) : Bool :=
  let after := match after with
    | '"' :: t => t
    | t => t
  after.head?.all isEndBoundary

theorem referenceAt?_eq (opened : Bool)
    (hb : opened = false → before.head? ≠ some '"') :
    referenceAt? name (mark opened ++ before) after =
      if closesName after then
        (chain? opened before (segments 2 before)).map fun found =>
          .ofFound (found.map Segment.name).reverse name
      else none := by
  have hparts (found : List Segment) (i : Nat) :
      (found[i]?.map fun s => String.ofList (upper s.name)) =
        (found.map Segment.name).reverse.reverse[i]?.map fun q => String.ofList (upper q) := by
    rw [List.reverse_reverse, List.getElem?_map, Option.map_map]
    rfl
  cases opened with
  | true =>
      simp only [mark, if_true, List.singleton_append, referenceAt?, QualifiedName.ofFound, hparts]
      rfl
  | false =>
      rw [mark, if_neg (by decide), List.nil_append, referenceAt?.eq_def]
      split
      next opened before' hsplit =>
        split at hsplit
        · exact (hb rfl rfl).elim
        · cases hsplit
          simp only [QualifiedName.ofFound, hparts]
          rfl

theorem referenceAt?_of_unopened (hb : before.head? ≠ some '"') :
    referenceAt? name before after =
      if closesName after then
        (chain? false before (segments 2 before)).map fun found =>
          .ofFound (found.map Segment.name).reverse name
      else none :=
  referenceAt?_eq false fun _ => hb

theorem exists_mark (z : List Char) : ∃ opened y, z = mark opened ++ y ∧
    (opened = false → y.head? ≠ some '"') := by
  by_cases h : z.head? = some '"'
  · obtain ⟨y, rfl⟩ := List.head?_eq_some_iff.1 h
    exact ⟨true, y, rfl, by simp⟩
  · exact ⟨false, z, rfl, fun _ => h⟩

theorem referenceAt?_congr {after' : List Char} (h : closesName after = closesName after')
    (before : List Char) : referenceAt? name before after = referenceAt? name before after' := by
  obtain ⟨opened, y, rfl, hy⟩ := exists_mark before
  rw [referenceAt?_eq opened hy, referenceAt?_eq opened hy, h]

theorem closesName_of_referenceAt? (h : referenceAt? name before after = some q) :
    closesName after = true := by
  obtain ⟨opened, y, rfl, hy⟩ := exists_mark before
  by_contra hc
  rw [referenceAt?_eq opened hy, if_neg hc] at h
  cases h

theorem ne_nil_of_same {n : List Char} (hn : same n name = true) (hname : name ≠ []) : n ≠ [] := by
  rintro rfl
  exact hname (List.eq_nil_of_length_eq_zero (length_eq_of_same hn).symm)

theorem exists_of_mem_referencesAfter {t before : List Char} (h : q ∈ referencesAfter name before t) :
    ∃ p n after, t = p ++ (n ++ after) ∧ same n name = true ∧
      referenceAt? name (p.reverse ++ before) after = some q := by
  induction t generalizing before with
  | nil => cases h
  | cons c t ih =>
      rw [referencesAfter, List.mem_append] at h
      rcases h with h | h
      · rw [Option.mem_toList, Option.bind_eq_some_iff] at h
        obtain ⟨after, hd, hr⟩ := h
        obtain ⟨n, ht, hn⟩ := exists_of_dropSame? hd
        exact ⟨[], n, after, ht, hn, hr⟩
      · obtain ⟨p, n, after, rfl, hn, hr⟩ := ih h
        refine ⟨c :: p, n, after, rfl, hn, ?_⟩
        rwa [List.reverse_cons, List.append_assoc, List.singleton_append]

theorem mem_references_iff {t : List Char} : q ∈ references name t ↔ name ≠ [] ∧
    ∃ before n after, t = before ++ (n ++ after) ∧ same n name = true ∧
      referenceAt? name before.reverse after = some q := by
  rw [references]
  split
  · next hname => simp [hname]
  · next hname =>
    rw [and_iff_right hname]
    constructor
    · intro h
      obtain ⟨before, n, after, ht, hn, hr⟩ := exists_of_mem_referencesAfter h
      rw [List.append_nil] at hr
      exact ⟨before, n, after, ht, hn, hr⟩
    · rintro ⟨before, n, after, rfl, hn, hr⟩
      refine mem_referencesAfter hname (dropSame?_append hn after) ?_
      rwa [List.append_nil]

theorem mem_foldl_distinct {found qs : List QualifiedName} :
    q ∈ qs.foldl (fun found q => if found.contains q then found else found ++ [q]) found ↔
      q ∈ found ∨ q ∈ qs := by
  induction qs generalizing found with
  | nil => simp
  | cons r qs ih =>
      rw [List.foldl_cons, ih, List.mem_cons]
      split
      · next hr =>
        have hr : r ∈ found := List.contains_iff_mem.1 hr
        constructor
        · tauto
        · rintro (hq | rfl | hq)
          · exact .inl hq
          · exact .inl hr
          · exact .inr hq
      · rw [List.mem_append, List.mem_singleton, or_assoc]

theorem mem_distinctReferences {t : List Char} :
    q ∈ distinctReferences name t ↔ q ∈ references name t := by
  rw [distinctReferences, mem_foldl_distinct]
  simp

end SchemaDeploy.Sql
