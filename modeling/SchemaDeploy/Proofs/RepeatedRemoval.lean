import SchemaDeploy.Proofs.RemovedComments

namespace SchemaDeploy.Sql

variable {s s' : ScanState} {b p t u v x : List Char} {c d : Char}

/-- Two hyphens of a text that is read from some state on, with nothing between them but block
comments, neither of which opens a comment. -/
def HyphensMeet (s : ScanState) (t : List Char) : Prop :=
  ∃ (a b : List Char) (xs : List (List Char)), t = a ++ '-' :: (xs.flatMap blockComment ++ '-' :: b) ∧
    scan ScanState.step s (a ++ ['-']) = .plain ∧ b.head? ≠ some '-' ∧
    xs ≠ [] ∧ ∀ x ∈ xs, IsCommentBody x

def ScanState.outer (s : ScanState) : ScanState :=
  if s.isComment then .plain else s

theorem isCommentBody_cons_of (hx : IsCommentBody x) (hc : c = '*' → x.head? ≠ some '/') :
    IsCommentBody (c :: x) := by
  intro h
  rcases List.infix_cons_iff.1 h with h | h
  · obtain ⟨t, ht⟩ := h
    rw [List.cons_append, List.cons.injEq] at ht
    exact hc ht.1.symm (by rw [← ht.2]; rfl)
  · exact hx h

theorem exists_of_stripFrom_blockComment (h : stripFrom .blockComment t = c :: v) :
    ∃ x b, t = x ++ '*' :: '/' :: b ∧ IsCommentBody x ∧ stripComments b = c :: v := by
  generalize hs : ScanState.blockComment = s at h
  fun_induction chunks ScanState.step s t with
  | case1 s => cases h
  | case2 s e =>
      subst hs
      cases h
  | case3 s e f t s' hstep ih =>
      subst hs
      have hend : e = '*' ∧ f = '/' ∧ s' = .plain := by
        rw [ScanState.step_eq] at hstep
        grind
      obtain ⟨rfl, rfl, rfl⟩ := hend
      rw [stripFrom_cons_cons hstep] at h
      exact ⟨[], t, rfl, by decide, h⟩
  | case4 s e f t s' hstep ih =>
      subst hs
      have hstay : s' = .blockComment ∧ ¬ (e = '*' ∧ f = '/') := by
        rw [ScanState.step_eq] at hstep
        grind
      obtain ⟨rfl, hopen⟩ := hstay
      rw [stripFrom_cons hstep] at h
      obtain ⟨x, b, hx, hbody, hb⟩ := ih rfl h
      refine ⟨e :: x, b, by rw [hx, List.cons_append], isCommentBody_cons_of hbody ?_, hb⟩
      rintro he hhead
      obtain ⟨x, rfl⟩ := List.head?_eq_some_iff.1 hhead
      rw [List.cons_append, List.cons.injEq] at hx
      exact hopen ⟨he, hx.1⟩

theorem eq_newline_of_stripFrom_lineComment (h : stripFrom .lineComment t = c :: v) :
    c = '\n' := by
  induction t with
  | nil => cases h
  | cons e t ih =>
      by_cases he : e = '\n'
      · subst he
        rw [stripFrom_cons rfl] at h
        exact (List.cons.inj h).1.symm
      · rw [stripFrom_cons (step_lineComment he _)] at h
        exact ih h

theorem step_plain_cases (c d : Char) :
    ScanState.step .plain c (some d) = (.lineComment, true) ∨
      (ScanState.step .plain c (some d) = (.blockComment, true) ∧ c = '/' ∧ d = '*') ∨
      ∃ s', ScanState.step .plain c (some d) = (s', false) ∧ s'.isComment = false ∧
        opensComment c d = false := by
  rw [ScanState.step_eq]
  dsimp only
  split_ifs <;> simp_all [opensComment, ScanState.isComment]

/-- What is left of a text begins with its first character behind some block comments, or with the
newline after a line comment. -/
theorem exists_of_stripComments_eq_cons (h : stripComments t = c :: v) :
    c = '\n' ∨ ∃ (xs : List (List Char)) (b : List Char), t = xs.flatMap blockComment ++ c :: b ∧
      (∀ x ∈ xs, IsCommentBody x) ∧ ∀ d ∈ b.head?, opensComment c d = false := by
  induction hn : t.length using Nat.strongRecOn generalizing t with
  | ind n ih =>
  subst hn
  rcases t with - | ⟨e, - | ⟨f, t⟩⟩
  · cases h
  · have he : stripComments [e] = [e] :=
      stripComments_eq_self_iff.2 (not_entersComment_singleton rfl)
    rw [he, List.cons.injEq] at h
    exact .inr ⟨[], [], by simp [h.1], by simp, by simp⟩
  · change stripFrom .plain (e :: f :: t) = c :: v at h
    rcases step_plain_cases e f with hstep | ⟨hstep, rfl, rfl⟩ | ⟨s', hstep, hs', hcut⟩
    · rw [stripFrom_cons_cons hstep, uncommented_eq_nil rfl] at h
      exact .inl (eq_newline_of_stripFrom_lineComment h)
    · rw [stripFrom_cons_cons hstep, uncommented_eq_nil rfl] at h
      obtain ⟨x, b, rfl, hx, hb⟩ := exists_of_stripFrom_blockComment h
      refine (ih b.length (by simp; omega) hb rfl).imp_right ?_
      rintro ⟨xs, u, rfl, hxs, hu⟩
      refine ⟨x :: xs, u, by simp [blockComment], ?_, hu⟩
      exact List.forall_mem_cons.2 ⟨hx, hxs⟩
    · rw [stripFrom_cons hstep, uncommented_eq_text rfl hs', List.singleton_append,
        List.cons.injEq] at h
      obtain ⟨rfl, -⟩ := h
      exact .inr ⟨[], f :: t, rfl, by simp, by simpa using hcut⟩

theorem eq_singleQuoted_of_step (hs : s.isComment = false) (hs' : s'.isComment = false)
    (h : s.step c (some d) = (s', true)) : s' = .singleQuoted := by
  rw [ScanState.step_eq] at h
  cases s <;> grind [ScanState.isComment]

theorem entersComment_of_closesFrom (hs : s.isComment = false)
    (h : ClosesFrom s.quotes (p ++ ['-'])) (r : List Char) :
    EntersComment s (p ++ '-' :: '-' :: r) := by
  induction hn : p.length using Nat.strongRecOn generalizing s p with
  | ind n ih =>
  subst hn
  cases p with
  | nil =>
      have hplain : s = .plain := by
        cases s <;> simp_all [ScanState.isComment, ClosesFrom, ScanState.quotes, QuoteState.step]
      subst hplain
      exact (entersComment_cons_cons rfl).2 (.inl rfl)
  | cons c p =>
      obtain ⟨d, u, hu⟩ : ∃ d u, p ++ '-' :: '-' :: r = d :: u := List.exists_cons_of_ne_nil (by simp)
      rw [List.cons_append, hu]
      cases hstep : s.step c (some d) with
      | mk s' taken =>
      cases hs' : s'.isComment with
      | true =>
          cases taken with
          | true => exact (entersComment_cons_cons hstep).2 (.inl hs')
          | false => exact (entersComment_cons hstep).2 (.inl hs')
      | false =>
          cases taken with
          | true =>
              obtain rfl := eq_singleQuoted_of_step hs hs' hstep
              have htwo := foldl_uncommented_of_two hstep
              rw [uncommented_eq_text hs hs'] at htwo
              rw [entersComment_cons_cons hstep]
              cases p with
              | nil =>
                  obtain ⟨rfl, -⟩ := List.cons.inj hu
                  exact absurd (htwo.symm.trans h) (by decide)
              | cons e p =>
                  obtain ⟨rfl, rfl⟩ := List.cons.inj hu
                  refine .inr (ih p.length (by simp only [List.length_cons]; omega) hs' ?_ rfl)
                  rw [ClosesFrom, ← htwo]
                  exact h
          | false =>
              have hone := foldl_uncommented_of_one hstep
              rw [uncommented_eq_text hs hs'] at hone
              rw [entersComment_cons hstep, ← hu]
              refine .inr (ih p.length (by simp) hs' ?_ rfl)
              rw [ClosesFrom, ← hone]
              exact h

theorem stripComments_blockComments {xs : List (List Char)} (hxs : ∀ x ∈ xs, IsCommentBody x)
    (t : List Char) : stripComments (xs.flatMap blockComment ++ t) = stripComments t := by
  induction xs with
  | nil => rfl
  | cons x xs ih =>
      obtain ⟨hx, hxs⟩ := List.forall_mem_cons.1 hxs
      have hone := stripComments_blockComment (a := []) rfl (by simp) hx (xs.flatMap blockComment ++ t)
      rw [List.nil_append, ih hxs] at hone
      rw [List.flatMap_cons, List.append_assoc, hone]
      rfl

theorem stripComments_hyphen (hb : b.head? ≠ some '-') :
    stripComments ('-' :: b) = '-' :: stripComments b := by
  have hstep : ScanState.step .plain '-' b.head? = (.plain, false) := by
    simp [ScanState.step_eq, hb]
  exact stripFrom_cons hstep

theorem entersComment_of_hyphensMeet (h : HyphensMeet .plain t) :
    EntersComment .plain (stripComments t) := by
  obtain ⟨a, b, xs, rfl, ha, hb, hne, hxs⟩ := h
  obtain ⟨x, xs, rfl⟩ := List.exists_cons_of_ne_nil hne
  have hcut : ∀ c ∈ (a ++ ['-']).getLast?, ∀ d ∈ ((x :: xs).flatMap blockComment ++ '-' :: b).head?,
      opensComment c d = false := by
    intro c hc d hd
    rw [List.getLast?_concat] at hc
    cases hc
    cases hd
    rfl
  have hlast := getLast?_stripComments ha List.getLast?_concat (by decide)
  obtain ⟨p, hp⟩ := List.getLast?_eq_some_iff.1 hlast
  have hstrip : stripComments (a ++ '-' :: ((x :: xs).flatMap blockComment ++ '-' :: b)) =
      p ++ '-' :: '-' :: stripComments b := by
    rw [List.append_cons, stripComments_append_of_plain ha hcut, stripComments_blockComments hxs,
      stripComments_hyphen hb, hp, List.append_assoc]
    rfl
  rw [hstrip]
  exact entersComment_of_closesFrom rfl (hp ▸ closesFrom_stripComments ha) _

theorem isComment_of_step {next : Option Char} (hs : s.isComment = false)
    (h : s.step c next = (s', false)) : s'.isComment = false := by
  rw [ScanState.step_eq] at h
  cases s <;> grind [ScanState.isComment]

theorem step_congr {next next' : Option Char} (hs : s.isComment = false)
    (h : s.step c next = (s', false)) (hcut : s = .plain → next'.any (opensComment c) = false) :
    s.step c next' = (s', false) := by
  rw [ScanState.step_eq] at h ⊢
  cases next' <;> cases s <;> grind [ScanState.isComment, opensComment]

theorem outer_of_isComment (hs : s.isComment = true) : s.outer = .plain :=
  if_pos hs

theorem outer_eq_self (hs : s.isComment = false) : s.outer = s :=
  if_neg (by simp [hs])

theorem uncommented_of_comment {next : Option Char} (hs : s.isComment = true)
    (h : s.step c next = (s', false)) :
    s'.outer = .plain ∧ (Chunk.uncommented ⟨s, s', [c]⟩ = [] ∨
      Chunk.uncommented ⟨s, s', [c]⟩ = ['\n']) := by
  rw [ScanState.step_eq] at h
  cases s <;> grind [ScanState.isComment, ScanState.outer, Chunk.uncommented]

/-- The text after a character that is taken alone is read as before, unless its first character now
opens a comment with it. -/
theorem entersComment_of_uncommented {next : Option Char} (hstep : s.step c next = (s', false))
    (h : EntersComment s.outer (Chunk.uncommented ⟨s, s', [c]⟩ ++ u)) :
    EntersComment s'.outer u ∨ s = .plain ∧ u.head?.any (opensComment c) = true := by
  cases hs : s.isComment with
  | false =>
      have hs' := isComment_of_step hs hstep
      rw [uncommented_eq_text hs hs', outer_eq_self hs, List.singleton_append] at h
      rw [outer_eq_self hs']
      by_cases hopen : s = .plain ∧ u.head?.any (opensComment c) = true
      · exact .inr hopen
      · have hcut : s = .plain → u.head?.any (opensComment c) = false := fun hplain =>
          Bool.not_eq_true _ ▸ fun hany => hopen ⟨hplain, hany⟩
        rcases (entersComment_cons (step_congr hs hstep hcut)).1 h with hc | hu
        · rw [hs'] at hc
          cases hc
        · exact .inl hu
  | true =>
      obtain ⟨hs', hkept | hkept⟩ := uncommented_of_comment hs hstep
      · rw [hkept, outer_of_isComment hs] at h
        exact .inl (hs'.symm ▸ h)
      · rw [hkept, outer_of_isComment hs, List.singleton_append] at h
        rcases (entersComment_cons rfl).1 h with hc | hu
        · cases hc
        · exact .inl (hs'.symm ▸ hu)

theorem entersComment_of_uncommented_two (hstep : s.step c (some d) = (s', true))
    (h : EntersComment s.outer (Chunk.uncommented ⟨s, s', [c, d]⟩ ++ u)) :
    EntersComment s'.outer u := by
  have hcases : (s = .singleQuoted ∧ s' = .singleQuoted) ∨
      (s.outer = s'.outer ∧ Chunk.uncommented ⟨s, s', [c, d]⟩ = []) := by
    rw [ScanState.step_eq] at hstep
    cases s <;> grind [ScanState.isComment, ScanState.outer, Chunk.uncommented]
  rcases hcases with ⟨rfl, rfl⟩ | ⟨houter, hkept⟩
  · rcases (entersComment_cons_cons hstep).1 h with hc | hu
    · cases hc
    · exact hu
  · rwa [hkept, houter] at h

theorem hyphensMeet_cons (hstep : s.step c (some d) = (s', false)) (h : HyphensMeet s' (d :: t)) :
    HyphensMeet s (c :: d :: t) := by
  obtain ⟨a, b, xs, ht, ha, hrest⟩ := h
  refine ⟨c :: a, b, xs, by rw [ht, List.cons_append], ?_, hrest⟩
  obtain ⟨u, hu⟩ : ∃ u, a ++ ['-'] = d :: u := by
    cases a with
    | nil => exact ⟨[], by rw [(List.cons.inj ht).1, List.nil_append]⟩
    | cons e a => exact ⟨a ++ ['-'], by rw [(List.cons.inj ht).1, List.cons_append]⟩
  rw [hu] at ha
  simpa only [List.cons_append, hu, scan, hstep] using ha

theorem hyphensMeet_cons_cons (hstep : s.step c (some d) = (s', true)) (h : HyphensMeet s' t) :
    HyphensMeet s (c :: d :: t) := by
  obtain ⟨a, b, xs, rfl, ha, hrest⟩ := h
  refine ⟨c :: d :: a, b, xs, rfl, ?_, hrest⟩
  simpa only [List.cons_append, scan, hstep] using ha

/-- What begins anew behind a character and opens a comment with it stood behind block comments, so
both are hyphens: a slash would have opened a comment with the first of those. -/
theorem hyphensMeet_of_opensComment (hstep : ScanState.step .plain c (some d) = (s', false))
    (h : (stripFrom s' (d :: t)).head?.any (opensComment c) = true) :
    HyphensMeet .plain (c :: d :: t) := by
  obtain ⟨e, v, hv, hopen⟩ : ∃ e v, stripFrom s' (d :: t) = e :: v ∧ opensComment c e = true := by
    cases hv : stripFrom s' (d :: t) with
    | nil => simp [hv] at h
    | cons e v => exact ⟨e, v, rfl, by simpa [hv] using h⟩
  have hplain : s' = .plain ∧ opensComment c d = false := by
    simp only [ScanState.step_eq, Option.some.injEq] at hstep
    grind [opensComment]
  obtain ⟨rfl, hcut⟩ := hplain
  rcases exists_of_stripComments_eq_cons hv with rfl | ⟨xs, b, ht, hxs, hb⟩
  · simp [opensComment] at hopen
  cases xs with
  | nil =>
      obtain ⟨rfl, -⟩ := List.cons.inj ht
      rw [hopen] at hcut
      cases hcut
  | cons x xs =>
      obtain ⟨rfl, -⟩ := List.cons.inj ht
      have hhyphens : c = '-' ∧ e = '-' := by
        grind [opensComment]
      obtain ⟨rfl, rfl⟩ := hhyphens
      refine ⟨[], b, x :: xs, by rw [ht, List.nil_append], rfl, ?_, List.cons_ne_nil x xs, hxs⟩
      intro hhead
      exact absurd (hb '-' hhead) (by decide)

theorem hyphensMeet_of_entersComment (h : EntersComment s.outer (stripFrom s t)) :
    HyphensMeet s t := by
  fun_induction chunks ScanState.step s t with
  | case1 s => exact absurd h not_entersComment_nil
  | case2 s c =>
      have houter : s.outer.isComment = false := by
        cases s <;> rfl
      rcases uncommented_eq_nil_or ⟨s, (s.step c none).1, [c]⟩ with hkept | hkept <;>
        rw [stripFrom, chunks, List.flatMap_singleton, hkept] at h
      · exact absurd h not_entersComment_nil
      · exact absurd h (not_entersComment_singleton houter)
  | case3 s c d t s' hstep ih =>
      rw [stripFrom_cons_cons hstep] at h
      exact hyphensMeet_cons_cons hstep (ih (entersComment_of_uncommented_two hstep h))
  | case4 s c d t s' hstep ih =>
      rw [stripFrom_cons hstep] at h
      rcases entersComment_of_uncommented hstep h with h | ⟨rfl, hopen⟩
      · exact hyphensMeet_cons hstep (ih h)
      · exact hyphensMeet_of_opensComment hstep hopen

/-- A second pass changes nothing exactly if no hyphens meet. -/
theorem stripComments_stripComments_iff (t : List Char) :
    stripComments (stripComments t) = stripComments t ↔ ¬ HyphensMeet .plain t := by
  rw [stripComments_eq_self_iff]
  exact not_congr ⟨hyphensMeet_of_entersComment (s := .plain), entersComment_of_hyphensMeet⟩

theorem not_stripComments_stripComments :
    ¬ ∀ t, stripComments (stripComments t) = stripComments t := by
  intro h
  exact absurd (h "-/**/- x".toList) (by decide +kernel)

end SchemaDeploy.Sql
