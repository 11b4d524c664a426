import SchemaDeploy.Proofs.ClosedText
import Mathlib.Algebra.Order.BigOperators.Group.List
import Mathlib.Algebra.Order.Group.Nat

namespace SchemaDeploy.Sql

variable {s s' : ScanState} {a t u y : List Char} {c d : Char}

/-- Whether a scan of a text comes to a comment. -/
def EntersComment (s : ScanState) (t : List Char) : Prop :=
  ∃ k ∈ chunks ScanState.step s t, k.after.isComment = true

instance (s : ScanState) (t : List Char) : Decidable (EntersComment s t) :=
  inferInstanceAs (Decidable (∃ k ∈ _, _))

section Unchanged

theorem uncommented_eq_text {k : Chunk ScanState} (hb : k.before.isComment = false)
    (ha : k.after.isComment = false) : k.uncommented = k.text := by
  obtain ⟨s, s', t⟩ := k
  cases s <;> cases s' <;> simp_all [Chunk.uncommented, ScanState.isComment]

theorem uncommented_eq_nil {k : Chunk ScanState} (ha : k.after.isComment = true) :
    k.uncommented = [] := by
  obtain ⟨s, s', t⟩ := k
  cases s <;> cases s' <;> simp_all [Chunk.uncommented, ScanState.isComment]

theorem uncommented_eq_nil_or (k : Chunk ScanState) :
    k.uncommented = [] ∨ k.uncommented = k.text := by
  obtain ⟨s, s', t⟩ := k
  cases s <;> cases s' <;> simp [Chunk.uncommented, ScanState.isComment]

theorem length_uncommented_le (k : Chunk ScanState) : k.uncommented.length ≤ k.text.length := by
  rcases uncommented_eq_nil_or k with hk | hk <;> simp [hk]

theorem text_ne_nil {k : Chunk ScanState} (h : k ∈ chunks ScanState.step s t) : k.text ≠ [] := by
  fun_induction chunks ScanState.step s t with
  | case1 s => cases h
  | case2 s c =>
      cases List.mem_singleton.1 h
      simp
  | case3 s c d t s' _ ih | case4 s c d t s' _ ih =>
      rcases List.mem_cons.1 h with rfl | h
      · simp
      · exact ih h

theorem isComment_step_none (hs : s.isComment = false) (c : Char) :
    (s.step c none).1.isComment = false := by
  rw [ScanState.step_eq]
  cases s <;> grind [ScanState.isComment]

theorem not_entersComment_nil : ¬ EntersComment s [] := by
  simp [EntersComment, chunks]

theorem not_entersComment_singleton (hs : s.isComment = false) : ¬ EntersComment s [c] := by
  simp [EntersComment, chunks, isComment_step_none hs]

theorem entersComment_cons (h : s.step c u.head? = (s', false)) :
    EntersComment s (c :: u) ↔ s'.isComment = true ∨ EntersComment s' u := by
  cases u with
  | nil => simp_all [EntersComment, chunks]
  | cons d u =>
      rw [List.head?_cons] at h
      simp only [EntersComment, chunks, h, List.exists_mem_cons_iff]

theorem entersComment_cons_cons (h : s.step c (some d) = (s', true)) :
    EntersComment s (c :: d :: u) ↔ s'.isComment = true ∨ EntersComment s' u := by
  simp only [EntersComment, chunks, h, List.exists_mem_cons_iff]

theorem stripFrom_eq_self (hs : s.isComment = false) (h : ¬ EntersComment s t) :
    stripFrom s t = t := by
  fun_induction chunks ScanState.step s t with
  | case1 s => rfl
  | case2 s c =>
      have hkept := uncommented_eq_text (k := ⟨s, (s.step c none).1, [c]⟩) hs
        (isComment_step_none hs c)
      simp [stripFrom, chunks, hkept]
  | case3 s c d t s' hstep ih =>
      rw [entersComment_cons_cons hstep, not_or, Bool.not_eq_true] at h
      rw [stripFrom_cons_cons hstep, uncommented_eq_text hs h.1, ih h.1 h.2]
      rfl
  | case4 s c d t s' hstep ih =>
      rw [entersComment_cons hstep, not_or, Bool.not_eq_true] at h
      rw [stripFrom_cons hstep, uncommented_eq_text hs h.1, ih h.1 h.2]
      rfl

theorem length_stripFrom_lt (h : EntersComment s t) : (stripFrom s t).length < t.length := by
  obtain ⟨k, hk, ha⟩ := h
  have hlt : k.uncommented.length < k.text.length := by
    rw [uncommented_eq_nil ha, List.length_nil]
    exact List.length_pos_iff.2 (text_ne_nil hk)
  have htext := congrArg List.length (flatMap_text_chunks ScanState.step s t)
  rw [List.length_flatMap] at htext
  rw [stripFrom, List.length_flatMap, ← htext]
  exact List.sum_lt_sum _ _ (fun k _ => length_uncommented_le k) ⟨k, hk, hlt⟩

theorem stripComments_eq_self_iff : stripComments t = t ↔ ¬ EntersComment .plain t := by
  constructor
  · intro h hc
    have hlt : (stripComments t).length < t.length := length_stripFrom_lt hc
    rw [h] at hlt
    exact Nat.lt_irrefl _ hlt
  · exact stripFrom_eq_self rfl

end Unchanged

section Parts

theorem stripComments_lineComment (h : EndsPlain a) (hhyphen : a.getLast? ≠ some '-')
    (hslash : a.getLast? ≠ some '/') (hc : c = '-' ∨ c = '/') (hy : '\n' ∉ y) (t : List Char) :
    stripComments (a ++ c :: c :: (y ++ '\n' :: t)) =
      stripComments a ++ '\n' :: stripComments t := by
  have hcut : ∀ e ∈ a.getLast?, ∀ d ∈ (c :: c :: (y ++ '\n' :: t)).head?,
      opensComment e d = false := by
    intro e he d hd
    have hne : e ≠ '-' ∧ e ≠ '/' := by
      constructor <;> rintro rfl
      · exact hhyphen he
      · exact hslash he
    simp [opensComment, hne]
  have hopen : ScanState.step .plain c (some c) = (.lineComment, true) := by
    rcases hc with rfl | rfl <;> rfl
  have hcomment : stripComments (c :: c :: (y ++ '\n' :: t)) = '\n' :: stripComments t := by
    rw [← stripFrom_lineComment hy t]
    exact stripFrom_cons_cons hopen _
  rw [stripComments_append_of_plain h hcut, hcomment]

def isQuote (c : Char) : Bool :=
  c == '\'' || c == '"'

/-- Whether a text begins and ends with quotes. -/
def IsBetweenQuotes (q : List Char) : Prop :=
  q.head?.any isQuote = true ∧ q.getLast?.any isQuote = true

instance (q : List Char) : Decidable (IsBetweenQuotes q) :=
  inferInstanceAs (Decidable (_ ∧ _))

theorem opensComment_of_isQuote (h : isQuote c = true ∨ isQuote d = true) :
    opensComment c d = false := by
  simp only [isQuote, Bool.or_eq_true, beq_iff_eq] at h
  rcases h with (rfl | rfl) | (rfl | rfl) <;> simp [opensComment]

theorem stripComments_betweenQuotes {q : List Char} (h : EndsPlain a) (hq : IsBetweenQuotes q)
    (hplain : EndsPlain q) (hnone : ¬ EntersComment .plain q) (t : List Char) :
    stripComments (a ++ q ++ t) = stripComments a ++ q ++ stripComments t := by
  obtain ⟨hhead, hlast⟩ := hq
  have hne : q ≠ [] := by
    rintro rfl
    cases hhead
  have hbefore : ∀ c ∈ a.getLast?, ∀ d ∈ (q ++ t).head?, opensComment c d = false := by
    intro c _ d hd
    rw [List.head?_append_of_ne_nil _ hne] at hd
    rw [hd, Option.any_some] at hhead
    exact opensComment_of_isQuote (.inr hhead)
  have hafter : ∀ c ∈ q.getLast?, ∀ d ∈ t.head?, opensComment c d = false := by
    intro c hc d _
    rw [hc, Option.any_some] at hlast
    exact opensComment_of_isQuote (.inl hlast)
  rw [List.append_assoc, stripComments_append_of_plain h hbefore,
    stripComments_append_of_plain hplain hafter, stripComments_eq_self_iff.2 hnone,
    List.append_assoc]

/-- Removing comments goes part by part. After a text that leaves nothing open and does not end in the
first character of a comment mark, a block comment leaves nothing and a line comment its newline; and a
text stays as it is if the scan comes to no comment, so quoted text stays whatever it says. -/
theorem stripComments_of_parts :
    (∀ a b : List Char, EndsPlain a → a.getLast? ≠ some '-' → a.getLast? ≠ some '/' →
      (∀ x, IsCommentBody x →
        stripComments (a ++ blockComment x ++ b) = stripComments a ++ stripComments b) ∧
      (∀ c y, c = '-' ∨ c = '/' → '\n' ∉ y →
        stripComments (a ++ c :: c :: (y ++ '\n' :: b)) =
          stripComments a ++ '\n' :: stripComments b)) ∧
    (∀ t, ¬ EntersComment .plain t → stripComments t = t) ∧
    (∀ a q b, EndsPlain a → IsBetweenQuotes q → EndsPlain q → ¬ EntersComment .plain q →
      stripComments (a ++ q ++ b) = stripComments a ++ q ++ stripComments b) := by
  refine ⟨fun a b h hhyphen hslash => ⟨fun x hx => ?_, fun c y hc hy => ?_⟩, fun t ht => ?_,
    fun a q b h hq hplain hnone => ?_⟩
  · exact stripComments_blockComment h hslash hx b
  · exact stripComments_lineComment h hhyphen hslash hc hy b
  · exact stripComments_eq_self_iff.2 ht
  · exact stripComments_betweenQuotes h hq hplain hnone b

theorem stripComments_of_parts_query :
    let a := "SELECT 'it\\'s --', /* old */ ".toList
    let b := "\"x//y\" FROM T -- end".toList
    stripComments (a ++ blockComment " ' / * ".toList ++ b) = stripComments a ++ stripComments b ∧
      stripComments (a ++ '/' :: '/' :: (" */ '".toList ++ '\n' :: b)) =
        stripComments a ++ '\n' :: stripComments b ∧
      stripComments "SELECT '/* -- ''', \"a--b\"".toList = "SELECT '/* -- ''', \"a--b\"".toList ∧
      stripComments (a ++ "'-- \\' /*'".toList ++ b) =
        stripComments a ++ "'-- \\' /*'".toList ++ stripComments b := by
  intro a b
  obtain ⟨hcomments, hself, hquoted⟩ := stripComments_of_parts
  have ha : EndsPlain a := by decide +kernel
  obtain ⟨hblock, hline⟩ := hcomments a b ha (by decide +kernel) (by decide +kernel)
  exact ⟨hblock _ (by decide +kernel), hline '/' _ (.inr rfl) (by decide +kernel),
    hself _ (by decide +kernel),
    hquoted a _ b ha (by decide +kernel) (by decide +kernel) (by decide +kernel)⟩

end Parts

end SchemaDeploy.Sql
