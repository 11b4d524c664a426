import SchemaDeploy.Proofs.QueryLiterals
import SchemaDeploy.Proofs.ViewHeaders

namespace SchemaDeploy

open Text Sql

variable {s t : Script} {header h q q' query query' : List Char}

namespace Body

/-- What of a query without comments is compared. -/
def queryText (q : List Char) : List Char :=
  dropTerminator (collapse (replacePair '\'' '\'' ['\''] q))

theorem trimEnd_queryText (q : List Char) : trimEnd (queryText q) = queryText q :=
  trimEnd_dropTerminator (trimEnd_collapse _)

theorem queryText_eq (q : List Char) : queryText q = halve false (dropTerminator (collapse q)) := by
  rw [queryText, replacePair_quotes, collapse_halve, dropTerminator_halve]

theorem comparable_append (hclosed : EndsPlain h) (hblank : h.getLast?.any isBlank = true)
    (hq : stripComments q = q) : comparable (h ++ q) = comparable h ++ halve false q ∧
      (comparable h).getLast?.any isBlank = true := by
  cases hlast : h.getLast? with
  | none =>
      rw [hlast] at hblank
      cases hblank
  | some c =>
      rw [hlast, Option.any_some] at hblank
      have hother {d : Char} (hd : isBlank d = false) : c ≠ d := by
        rintro rfl
        rw [hblank] at hd
        cases hd
      have hdash : c ≠ '-' := hother (by decide)
      have hslash : c ≠ '/' := hother (by decide)
      have hcut : ∀ e ∈ h.getLast?, ∀ d ∈ q.head?, opensComment e d = false := by
        intro e he d _
        rw [hlast] at he
        cases he
        simp [opensComment, hdash, hslash]
      have hend := getLast?_stripComments hclosed hlast hslash
      obtain ⟨u, hu⟩ := List.getLast?_eq_some_iff.1 hend
      rw [comparable, comparable, replacePair_quotes, replacePair_quotes, getLast?_halve, hend,
        stripComments_append_of_plain hclosed hcut, hq, hu, List.append_assoc]
      exact ⟨halve_append_cons (hother (by decide)) u q, hblank⟩

theorem normalize_of_endsAtQuery (hh : EndsAtQuery (comparable h))
    (happend : comparable (h ++ q) = comparable h ++ halve false q) (hne : allBlank q = false) :
    normalize .view (h ++ q) = queryText q := by
  have hbody : find? .view (comparable (h ++ q)) = some (trimStart (halve false q)) := by
    rw [happend]
    exact hh _ (by rw [allBlank_halve, hne])
  have hcollapse : collapse (trimStart (halve false q)) = collapse (halve false q) := by
    rw [collapse_eq, collapse_eq, squeeze_trimStart]
  simp only [normalize, hbody, Option.getD_some, hcollapse]
  rw [queryText, replacePair_quotes]

theorem normalize_of_find?_eq_none (hnone : find? .view (comparable (h ++ q)) = none)
    (happend : comparable (h ++ q) = comparable h ++ halve false q)
    (hblank : (comparable h).getLast?.any isBlank = true) (hne : allBlank q = false) :
    normalize .view (h ++ q) =
      trimEnd ((squeeze true (comparable h) ++ [' ']).tail ++ queryText q) := by
  have hne' : allBlank (halve false q) = false := by rw [allBlank_halve, hne]
  simp only [normalize, hnone, Option.getD_none]
  rw [happend, collapse_append hblank hne',
    dropTerminator_append (collapse_ne_nil hne') (trimEnd_collapse _), queryText, replacePair_quotes]

theorem quoteRuns_folded (q : List Char) : quoteRuns (dropTerminator (collapse q)) = quoteRuns q := by
  obtain ⟨e, he, hquote⟩ := exists_dropTerminator (collapse q)
  rw [← quoteRuns_collapse q, quoteRuns, quoteRuns]
  conv_rhs => rw [he, quoteRunsFrom_append hquote]

theorem literals_folded (q : List Char) :
    literals (dropTerminator (collapse q)) = (literals q).map collapse := by
  obtain ⟨e, he, hquote⟩ := exists_dropTerminator (collapse q)
  rw [← literals_collapse]
  conv_rhs => rw [he, literals_append hquote]

theorem literals_of_queryText_eq (h : queryText q = queryText q') (hparity : SameParities q q') :
    (literals q).map collapse = (literals q').map collapse := by
  rw [queryText_eq, queryText_eq] at h
  have hparity' : SameParities (dropTerminator (collapse q)) (dropTerminator (collapse q')) := by
    rwa [SameParities, quoteRuns_folded, quoteRuns_folded]
  rw [← literals_folded, ← literals_folded, eq_of_halve_eq h hparity']

theorem endsAtQuery_commented :
    EndsAtQuery (comparable "-- by hand\nCREATE OR REPLACE VIEW DB.S.V AS ".toList) := by
  have hname := isViewHeader_name ['\n'] "DB.S.V".toList (by decide) (by decide)
    (by simp [isNameChar, isWord])
  have htext : comparable "-- by hand\nCREATE OR REPLACE VIEW DB.S.V AS ".toList =
      ['\n'] ++ ("CREATE OR REPLACE VIEW ".toList ++ ("DB.S.V".toList ++ " AS ".toList)) := by decide
  rw [htext]
  exact hname.endsAtQuery

end Body

/-- A view that is defined by a header and a query without comments. -/
structure Script.IsView (s : Script) (header query : List Char) : Prop where
  objectType : s.objectType = .view
  content : s.content = String.ofList (header ++ query)
  closed : EndsPlain header
  separated : header.getLast?.any isBlank = true
  uncommented : stripComments query = query
  nonblank : allBlank query = false

theorem Script.IsView.normalized_eq (hs : s.IsView header query) :
    s.normalized = String.ofList (Body.normalize .view (header ++ query)) := by
  rw [Script.normalized, hs.objectType, hs.content, String.toList_ofList]

/-- Views with one header are the same exactly if their queries are once they are made comparable.
Their literals are the same then up to blanks, unless a run of quotes in one query is odd and the one
in its place in the other is even. -/
theorem Script.IsView.equivalent_iff (hs : s.IsView header query) (ht : t.IsView header query')
    (hheader : Body.EndsAtQuery (Body.comparable header) ∨
      Body.find? .view (Body.comparable (header ++ query)) = none ∧
        Body.find? .view (Body.comparable (header ++ query')) = none) :
    (s.equivalent t = true ↔ Body.queryText query = Body.queryText query') ∧
      (s.equivalent t = true → SameParities query query' →
        (literals query).map collapse = (literals query').map collapse) := by
  obtain ⟨hq, hblank⟩ := Body.comparable_append hs.closed hs.separated hs.uncommented
  obtain ⟨hq', -⟩ := Body.comparable_append ht.closed ht.separated ht.uncommented
  obtain ⟨p, hp, hp'⟩ : ∃ p,
      Body.normalize .view (header ++ query) = trimEnd (p ++ Body.queryText query) ∧
        Body.normalize .view (header ++ query') = trimEnd (p ++ Body.queryText query') := by
    rcases hheader with hh | ⟨hnone, hnone'⟩
    · refine ⟨[], ?_, ?_⟩
      · rw [Body.normalize_of_endsAtQuery hh hq hs.nonblank]
        exact (Body.trimEnd_queryText query).symm
      · rw [Body.normalize_of_endsAtQuery hh hq' ht.nonblank]
        exact (Body.trimEnd_queryText query').symm
    · exact ⟨_, Body.normalize_of_find?_eq_none hnone hq hblank hs.nonblank,
        Body.normalize_of_find?_eq_none hnone' hq' hblank ht.nonblank⟩
  have hiff : s.equivalent t = true ↔ Body.queryText query = Body.queryText query' := by
    rw [Script.equivalent, beq_iff_eq, hs.normalized_eq, ht.normalized_eq, String.ofList_inj, hp, hp']
    exact ⟨trimEnd_append_inj (Body.trimEnd_queryText _) (Body.trimEnd_queryText _),
      fun h => by rw [h]⟩
  exact ⟨hiff, fun h hparity => Body.literals_of_queryText_eq (hiff.1 h) hparity⟩

theorem Script.IsView.equivalent_iff_folded :
    let header := "-- by hand\nCREATE OR REPLACE VIEW DB.S.V AS ".toList
    let query := "SELECT 'it''s  -- 1', ''\nFROM T;".toList
    let query' := "SELECT 'it''s -- 1', '' FROM T".toList
    let s : Script := ⟨"DB", "S", "V", .view, String.ofList (header ++ query), "", none, none⟩
    let t : Script := ⟨"DB", "S", "V", .view, String.ofList (header ++ query'), "", none, none⟩
    s.IsView header query ∧ t.IsView header query' ∧ Body.EndsAtQuery (Body.comparable header) ∧
      SameParities query query' ∧ s.equivalent t = true ∧
        (literals query).map collapse = (literals query').map collapse := by
  intro header query query' s t
  have hs : s.IsView header query := ⟨rfl, rfl, by decide, by decide, by decide, by decide⟩
  have ht : t.IsView header query' := ⟨rfl, rfl, by decide, by decide, by decide, by decide⟩
  have hparity : SameParities query query' := by decide
  have hheader : Body.EndsAtQuery (Body.comparable header) := Body.endsAtQuery_commented
  obtain ⟨hiff, hliterals⟩ := hs.equivalent_iff ht (.inl hheader)
  have hequivalent : s.equivalent t = true := hiff.2 (by decide)
  exact ⟨hs, ht, hheader, hparity, hequivalent, hliterals hequivalent hparity⟩

/-- Literals of views that are taken for the same need not be equal, and not even up to blanks. -/
theorem not_literals_of_equivalent :
    (¬ ∀ (s t : Script) (header query query' : List Char), s.IsView header query →
      t.IsView header query' → Body.EndsAtQuery (Body.comparable header) → s.equivalent t = true →
        literals query = literals query') ∧
    ¬ ∀ (s t : Script) (header query query' : List Char), s.IsView header query →
      t.IsView header query' → Body.EndsAtQuery (Body.comparable header) → s.equivalent t = true →
        (literals query).map collapse = (literals query').map collapse := by
  let header := "-- by hand\nCREATE OR REPLACE VIEW DB.S.V AS ".toList
  let view (query : String) : Script :=
    ⟨"DB", "S", "V", .view, String.ofList (header ++ query.toList), "", none, none⟩
  have hheader : Body.EndsAtQuery (Body.comparable header) := Body.endsAtQuery_commented
  have hview {query : String} (h : stripComments query.toList = query.toList)
      (hne : allBlank query.toList = false) : (view query).IsView header query.toList :=
    ⟨rfl, rfl, by decide, by decide, h, hne⟩
  constructor <;> intro h
  · have hliterals := h (view "SELECT 'a  b'") (view "SELECT 'a b'") header _ _
      (hview (by decide) (by decide)) (hview (by decide) (by decide)) hheader (by decide +kernel)
    exact absurd hliterals (by decide)
  · have hliterals := h (view "SELECT '', 'x'") (view "SELECT ', ''x'") header _ _
      (hview (by decide) (by decide)) (hview (by decide) (by decide)) hheader (by decide +kernel)
    exact absurd hliterals (by decide)

end SchemaDeploy
