import SchemaDeploy.Proofs.FoldedText
import SchemaDeploy.Proofs.RemovedComments

namespace SchemaDeploy

namespace Text

variable {c d : Char} {b s t u : List Char} {odd gap : Bool}

section Solids

def solids (t : List Char) : Nat :=
  t.countP (!isBlank ·)

theorem solids_append (s t : List Char) : solids (s ++ t) = solids s + solids t :=
  List.countP_append

theorem solids_le_of_sublist (h : s.Sublist t) : solids s ≤ solids t :=
  h.countP_le

theorem solids_of_allBlank (h : allBlank t = true) : solids t = 0 := by
  refine List.countP_eq_zero.2 fun c hc => ?_
  simp [List.all_eq_true.1 h c hc]

theorem solids_squeeze (gap : Bool) (t : List Char) : solids (squeeze gap t) = solids t := by
  have hspace : isBlank ' ' = true := by decide
  induction t generalizing gap with
  | nil => rfl
  | cons c t ih =>
      cases hc : isBlank c with
      | true =>
          have hcons : solids (c :: t) = solids t := by simp [solids, hc]
          rw [squeeze_blank hc, ih, hcons]
      | false =>
          have hcons (u : List Char) : solids (c :: u) = solids u + 1 := by simp [solids, hc]
          rw [squeeze_cons hc, hcons]
          cases gap with
          | true =>
              have hgap : solids (' ' :: c :: squeeze false t) = solids (c :: squeeze false t) := by
                simp [solids, hspace]
              rw [if_pos rfl, hgap, hcons, ih]
          | false => rw [if_neg Bool.false_ne_true, hcons, ih]

theorem solids_collapse (t : List Char) : solids (collapse t) = solids t := by
  rw [collapse_eq, ← solids_squeeze true t]
  rcases exists_squeeze_true t with h | ⟨u, h⟩
  · rw [h, List.tail_nil]
  · have hspace : isBlank ' ' = true := by decide
    simp [h, solids, hspace]

theorem solids_trimStart (t : List Char) : solids (trimStart t) = solids t := by
  rw [← solids_squeeze true, squeeze_trimStart, solids_squeeze]

theorem solids_trimEnd (t : List Char) : solids (trimEnd t) = solids t := by
  obtain ⟨e, ht, he⟩ := exists_dropEndWhile isBlank t
  have hsame : trimEnd t = dropEndWhile isBlank t := rfl
  conv_rhs => rw [ht]
  rw [solids_append, solids_of_allBlank (List.all_eq_true.2 he), hsame, Nat.add_zero]

theorem sublist_halve (odd : Bool) (t : List Char) : (halve odd t).Sublist t := by
  induction t generalizing odd with
  | nil => exact .refl _
  | cons c t ih =>
      rw [halve]
      split
      · cases odd with
        | true => exact (ih false).cons c
        | false => exact (ih true).cons_cons c
      · exact (ih false).cons_cons c

end Solids

section Pairs

theorem ne_of_isBlank {e : Char} (hc : isBlank c = false) (he : isBlank e = true) : c ≠ e := by
  rintro rfl
  rw [hc] at he
  cases he

theorem not_pair_of_not_mem (hd : d ∉ t) : ¬ [c, d] <:+: t := fun h =>
  hd (h.subset (by simp))

theorem pair_infix_append_iff (hd : d ∉ b) : [c, d] <:+: t ++ b ↔ [c, d] <:+: t := by
  induction t with
  | nil => exact iff_of_false (not_pair_of_not_mem hd) (not_pair_of_not_mem List.not_mem_nil)
  | cons e t ih =>
      rw [List.cons_append, List.infix_cons_iff, List.infix_cons_iff, ih, List.cons_prefix_cons,
        List.cons_prefix_cons]
      cases t with
      | nil =>
          have hfirst : ¬ [d] <+: b := fun h => hd (h.subset (by simp))
          simp [hfirst]
      | cons f t => simp [List.cons_prefix_cons]

theorem singleton_prefix_squeeze_iff (hd : isBlank d = false) (t : List Char) :
    [d] <+: squeeze false t ↔ [d] <+: t := by
  cases t with
  | nil => rfl
  | cons e t =>
      cases he : isBlank e with
      | true =>
          have hspace : d ≠ ' ' := ne_of_isBlank hd (by decide)
          rw [squeeze_blank he]
          rcases exists_squeeze_true t with h | ⟨u, h⟩ <;>
            simp [h, List.cons_prefix_cons, ne_of_isBlank hd he, hspace]
      | false => simp [squeeze_cons he, List.cons_prefix_cons]

theorem pair_infix_squeeze_iff (hc : isBlank c = false) (hd : isBlank d = false) (gap : Bool)
    (t : List Char) : [c, d] <:+: squeeze gap t ↔ [c, d] <:+: t := by
  induction t generalizing gap with
  | nil => rfl
  | cons e t ih =>
      cases he : isBlank e with
      | true =>
          rw [squeeze_blank he, ih, List.infix_cons_iff, List.cons_prefix_cons]
          simp [ne_of_isBlank hc he]
      | false =>
          have hcons : [c, d] <:+: e :: squeeze false t ↔ [c, d] <:+: e :: t := by
            rw [List.infix_cons_iff, List.infix_cons_iff, ih, List.cons_prefix_cons,
              List.cons_prefix_cons, singleton_prefix_squeeze_iff hd]
          rw [squeeze_cons he]
          cases gap with
          | true =>
              have hspace : c ≠ ' ' := ne_of_isBlank hc (by decide)
              rw [if_pos rfl, List.infix_cons_iff, List.cons_prefix_cons, hcons]
              simp [hspace]
          | false => rwa [if_neg Bool.false_ne_true]

theorem pair_infix_collapse_iff (hc : isBlank c = false) (hd : isBlank d = false) (t : List Char) :
    [c, d] <:+: collapse t ↔ [c, d] <:+: t := by
  rw [← pair_infix_squeeze_iff hc hd true t, collapse_eq]
  rcases exists_squeeze_true t with h | ⟨u, h⟩
  · rw [h, List.tail_nil]
  · have hspace : c ≠ ' ' := ne_of_isBlank hc (by decide)
    rw [h, List.tail_cons, List.infix_cons_iff, List.cons_prefix_cons]
    simp [hspace]

theorem pair_infix_trimEnd_iff (hd : isBlank d = false) (t : List Char) :
    [c, d] <:+: trimEnd t ↔ [c, d] <:+: t := by
  obtain ⟨e, ht, he⟩ := exists_dropEndWhile isBlank t
  have hnot : d ∉ e := fun h => by
    rw [he d h] at hd
    cases hd
  have hsame : trimEnd t = dropEndWhile isBlank t := rfl
  conv_rhs => rw [ht]
  rw [pair_infix_append_iff hnot, hsame]

theorem halve_eq_self_iff (t : List Char) : halve false t = t ↔ ¬ ['\'', '\''] <:+: t := by
  induction t with
  | nil => simp [halve]
  | cons c t ih =>
      rw [List.infix_cons_iff, List.cons_prefix_cons, not_or, ← ih]
      by_cases hc : c = '\''
      · subst hc
        rw [halve_first, List.cons.injEq]
        by_cases ht : t.head? = some '\''
        · obtain ⟨t, rfl⟩ := List.head?_eq_some_iff.1 ht
          refine iff_of_false (fun h => ?_) (fun h => ?_)
          · have hlength := congrArg List.length h.2
            have hle := (sublist_halve false t).length_le
            rw [halve_second, List.length_cons] at hlength
            omega
          · exact h.1 (by simp [List.cons_prefix_cons])
        · have hfirst : ¬ ['\''] <+: t := by
            rintro ⟨u, rfl⟩
            exact ht rfl
          rw [halve_of_head ht true]
          simp [hfirst]
      · rw [halve_cons hc, List.cons.injEq]
        simp [Ne.symm hc]

end Pairs

end Text

namespace Body

open Text

variable {c d : Char} {t : List Char}

theorem solids_dropTerminator (t : List Char) :
    solids (dropTerminator t) ≤ solids t ∧ solids t ≤ solids (dropTerminator t) + 1 := by
  rw [dropTerminator]
  split
  · next h =>
    obtain ⟨u, rfl⟩ := List.getLast?_eq_some_iff.1 h
    have hone : solids [';'] = 1 := by decide
    rw [List.dropLast_concat, solids_trimEnd, solids_append, hone]
    exact ⟨Nat.le_add_right _ _, Nat.le_refl _⟩
  · exact ⟨Nat.le_refl _, Nat.le_succ _⟩

/-- The text in one line and without its terminator. -/
def folded (t : List Char) : List Char :=
  dropTerminator (collapse t)

theorem solids_folded (t : List Char) :
    solids (folded t) ≤ solids t ∧ solids t ≤ solids (folded t) + 1 := by
  have hboth := solids_dropTerminator (collapse t)
  rwa [solids_collapse] at hboth

theorem folded_trimStart (t : List Char) : folded (trimStart t) = folded t := by
  rw [folded, folded, collapse_eq, squeeze_trimStart, ← collapse_eq]

theorem folded_halve (t : List Char) : folded (halve false t) = halve false (folded t) := by
  rw [folded, folded, collapse_halve, dropTerminator_halve]

theorem folded_of_solid (ht : ∀ c ∈ t, isBlank c = false) (hlast : t.getLast? ≠ some ';') :
    folded t = t := by
  have hsqueeze : squeeze false t = t := by
    clear hlast
    induction t with
    | nil => rfl
    | cons c t ih =>
        obtain ⟨hc, ht⟩ := List.forall_mem_cons.1 ht
        rw [squeeze_cons hc, if_neg Bool.false_ne_true, ih ht]
  have hcollapse : collapse t = t := by
    rw [collapse_eq]
    cases t with
    | nil => rfl
    | cons c t =>
        have hc := ht c List.mem_cons_self
        rw [squeeze_cons hc, if_neg Bool.false_ne_true] at hsqueeze
        rw [squeeze_cons hc, if_pos rfl, List.tail_cons, hsqueeze]
  rw [folded, hcollapse, dropTerminator, if_neg hlast]

theorem pair_infix_folded_iff (hc : isBlank c = false) (hd : isBlank d = false) (hend : d ≠ ';')
    (t : List Char) : [c, d] <:+: folded t ↔ [c, d] <:+: t := by
  rw [← pair_infix_collapse_iff hc hd t, folded, dropTerminator]
  split
  · next h =>
    obtain ⟨u, hu⟩ := List.getLast?_eq_some_iff.1 h
    rw [hu, List.dropLast_concat, pair_infix_trimEnd_iff hd,
      pair_infix_append_iff (by simpa using hend)]
  · rfl

end Body

namespace Sql

open Text

variable {s s' : ScanState} {c : Char} {t : List Char}

section Comments

theorem stripFrom_sublist (s : ScanState) (t : List Char) : (stripFrom s t).Sublist t := by
  have hflat (ks : List (Chunk ScanState)) :
      (ks.flatMap Chunk.uncommented).Sublist (ks.flatMap Chunk.text) := by
    induction ks with
    | nil => exact .refl _
    | cons k ks ih =>
        rw [List.flatMap_cons, List.flatMap_cons]
        refine List.Sublist.append ?_ ih
        rcases uncommented_eq_nil_or k with hk | hk <;> rw [hk]
        exact List.nil_sublist _
  have htext := hflat (chunks ScanState.step s t)
  rwa [flatMap_text_chunks] at htext

theorem opensComment_of_step {d : Char} {b : Bool} (hs : s.isComment = false)
    (h : s.step c (some d) = (s', b)) (hs' : s'.isComment = true) :
    b = true ∧ opensComment c d = true := by
  rw [ScanState.step_eq] at h
  cases s <;> grind [ScanState.isComment, opensComment]

theorem exists_first_comment (hs : s.isComment = false) (h : EntersComment s t) :
    ∃ u c d v s', t = u ++ c :: d :: v ∧ stripFrom s t = u ++ stripFrom s' v ∧
      opensComment c d = true := by
  fun_induction chunks ScanState.step s t with
  | case1 s => exact absurd h not_entersComment_nil
  | case2 s c => exact absurd h (not_entersComment_singleton hs)
  | case3 s c d t s' hstep ih =>
      cases hs' : s'.isComment with
      | true =>
          refine ⟨[], c, d, t, s', rfl, ?_, (opensComment_of_step hs hstep hs').2⟩
          rw [stripFrom_cons_cons hstep, uncommented_eq_nil hs']
      | false =>
          rw [entersComment_cons_cons hstep, hs', or_iff_right Bool.false_ne_true] at h
          obtain ⟨u, c', d', v, r, rfl, hstrip, hopen⟩ := ih hs' h
          refine ⟨c :: d :: u, c', d', v, r, rfl, ?_, hopen⟩
          rw [stripFrom_cons_cons hstep, hstrip, uncommented_eq_text hs hs']
          rfl
  | case4 s c d t s' hstep ih =>
      have hs' : s'.isComment = false := by
        refine Bool.eq_false_iff.2 fun hs' => ?_
        cases (opensComment_of_step hs hstep hs').1
      rw [entersComment_cons hstep, hs', or_iff_right Bool.false_ne_true] at h
      obtain ⟨u, c', d', v, r, htext, hstrip, hopen⟩ := ih hs' h
      refine ⟨c :: u, c', d', v, r, by rw [htext, List.cons_append], ?_, hopen⟩
      rw [stripFrom_cons hstep, hstrip, uncommented_eq_text hs hs']
      rfl

theorem opensComment_iff {d : Char} : opensComment c d = true ↔
    c = '-' ∧ d = '-' ∨ c = '/' ∧ (d = '/' ∨ d = '*') := by
  simp [opensComment]

theorem stripComments_of_not_mem (hdash : '-' ∉ t) (hslash : '/' ∉ t) : stripComments t = t := by
  refine stripComments_eq_self_iff.2 fun h => ?_
  obtain ⟨u, c, d, v, s', rfl, -, hopen⟩ := exists_first_comment rfl h
  rcases opensComment_iff.1 hopen with ⟨rfl, -⟩ | ⟨rfl, -⟩
  · exact hdash (by simp)
  · exact hslash (by simp)

theorem solids_stripFrom_add_two (hs : s.isComment = false) (h : EntersComment s t) :
    solids (stripFrom s t) + 2 ≤ solids t := by
  obtain ⟨u, c, d, v, s', rfl, hstrip, hopen⟩ := exists_first_comment hs h
  have hrest := solids_le_of_sublist (stripFrom_sublist s' v)
  have htwo : solids (c :: d :: v) = 2 + solids v := by
    rcases opensComment_iff.1 hopen with ⟨rfl, rfl⟩ | ⟨rfl, rfl | rfl⟩ <;>
      exact solids_append [_, _] v
  rw [hstrip, solids_append, solids_append, htwo]
  omega

theorem isComment_scan (hs : s.isComment = false) (h : ¬ EntersComment s t) :
    (scan ScanState.step s t).isComment = false := by
  fun_induction scan ScanState.step s t with
  | case1 s => exact hs
  | case2 s c => exact isComment_step_none hs c
  | case3 s c d t s' hstep ih =>
      rw [entersComment_cons_cons hstep, not_or, Bool.not_eq_true] at h
      exact ih h.1 h.2
  | case4 s c d t s' hstep ih =>
      rw [entersComment_cons hstep, not_or, Bool.not_eq_true] at h
      exact ih h.1 h.2

theorem endsPlain_of_unquoted (hquote : ∀ c ∈ t, isQuote c = false)
    (h : ¬ EntersComment .plain t) : EndsPlain t := by
  have hstep {c : Char} {next : Option Char} {s' : ScanState} {b : Bool} (hc : isQuote c = false)
      (h : ScanState.step .plain c next = (s', b)) (hs' : s'.isComment = false) : s' = .plain := by
    rw [ScanState.step_eq] at h
    grind [isQuote, ScanState.isComment]
  generalize hs : ScanState.plain = s at h
  rw [EndsPlain, hs]
  fun_induction scan ScanState.step s t with
  | case1 s => rfl
  | case2 s c =>
      subst hs
      exact hstep (hquote c List.mem_cons_self) rfl (isComment_step_none rfl c)
  | case3 s c d t s' hnext ih =>
      subst hs
      obtain ⟨hc, hquote⟩ := List.forall_mem_cons.1 hquote
      rw [entersComment_cons_cons hnext, not_or, Bool.not_eq_true] at h
      obtain rfl := hstep hc hnext h.1
      exact ih (List.forall_mem_cons.1 hquote).2 rfl h.2
  | case4 s c d t s' hnext ih =>
      subst hs
      obtain ⟨hc, hquote⟩ := List.forall_mem_cons.1 hquote
      rw [entersComment_cons hnext, not_or, Bool.not_eq_true] at h
      obtain rfl := hstep hc hnext h.1
      exact ih hquote rfl h.2

end Comments

end Sql

end SchemaDeploy
