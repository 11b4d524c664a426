import SchemaDeploy.Proofs.ClosedText
import SchemaDeploy.Proofs.TrimmedText
import SchemaDeploy.Proofs.WordTemplates

namespace SchemaDeploy.Sql

open Text

def joined (ws : List (List Char × Char)) : List Char :=
  ws.flatMap fun w => w.1 ++ [w.2]

def endsName (c : Char) : Bool :=
  ['(', ')', ',', ';', '.'].contains c || isAsciiBlank c

def Begins (lead : List Char) (ws : List (List Char × Char)) (name t : List Char) : Prop :=
  ∃ rest, t = lead ++ (joined ws ++ (name ++ rest)) ∧ rest.head?.all endsName = true

def AreWords (ws : List (List Char × Char)) : Prop :=
  ∀ w ∈ ws, IsQualifier w.1 ∧ (w.2 = ' ' ∨ w.2 = '.')

def IsLead (lead : List Char) : Prop :=
  lead = [] ∨ ∃ x, '\n' ∉ x ∧ lead = '-' :: '-' :: (x ++ ['\n'])

variable {lead name t u : List Char} {ws : List (List Char × Char)}

theorem joined_cons (w : List Char × Char) (ws : List (List Char × Char)) (t : List Char) :
    joined (w :: ws) ++ t = w.1 ++ w.2 :: (joined ws ++ t) := by
  simp [joined]

theorem Begins.append (h : Begins lead ws name t) (hu : u.head?.all endsName = true) :
    Begins lead ws name (t ++ u) := by
  obtain ⟨rest, rfl, hrest⟩ := h
  refine ⟨rest ++ u, by simp, ?_⟩
  cases rest with
  | nil => exact hu
  | cons c rest => exact hrest

section AnyCase

theorem exists_of_same_append {m a b : List Char} (h : same m (a ++ b) = true) :
    ∃ a' b', m = a' ++ b' ∧ same a' a = true ∧ same b' b = true := by
  have he := eq_of_beq h
  rw [List.map_append] at he
  obtain ⟨a', b', rfl, ha, hb⟩ := List.map_eq_append_iff.1 he
  exact ⟨a', b', rfl, beq_iff_eq.2 ha, beq_iff_eq.2 hb⟩

theorem exists_of_same_cons {m b : List Char} {c : Char} (hc : c = ' ' ∨ c = '.')
    (h : same m (c :: b) = true) : ∃ b', m = c :: b' ∧ same b' b = true := by
  have hlower : c.toLower = c ∧ c.isAlpha = false := by
    rcases hc with rfl | rfl <;> decide
  have he := eq_of_beq h
  rw [List.map_cons, hlower.1] at he
  obtain ⟨d, b', rfl, hd, hb⟩ := List.map_eq_cons_iff.1 he
  rw [(toLower_eq_iff hlower.2).1 hd]
  exact ⟨b', rfl, beq_iff_eq.2 hb⟩

def lowerWords (ws : List (List Char × Char)) : List (List Char × Char) :=
  ws.map fun w => (w.1.map Char.toLower, w.2)

def SameWords (ws vs : List (List Char × Char)) : Prop :=
  lowerWords ws = lowerWords vs

variable {vs : List (List Char × Char)}

theorem SameWords.symm (h : SameWords ws vs) : SameWords vs ws :=
  Eq.symm h

theorem SameWords.exists_mem (h : SameWords ws vs) {w : List Char × Char} (hw : w ∈ ws) :
    ∃ v ∈ vs, same w.1 v.1 = true ∧ w.2 = v.2 := by
  have hmem : (w.1.map Char.toLower, w.2) ∈ lowerWords vs := by
    rw [← h]
    exact List.mem_map_of_mem hw
  obtain ⟨v, hv, he⟩ := List.mem_map.1 hmem
  obtain ⟨hword, hsep⟩ := Prod.ext_iff.1 he
  exact ⟨v, hv, beq_iff_eq.2 hword.symm, hsep.symm⟩

theorem SameWords.areWords (h : SameWords ws vs) (hvs : AreWords vs) : AreWords ws := by
  intro w hw
  obtain ⟨v, hv, hword, hsep⟩ := h.exists_mem hw
  exact ⟨(hvs v hv).1.of_same hword, hsep ▸ (hvs v hv).2⟩

theorem exists_words_of_same {m : List Char} (hws : AreWords ws)
    (h : same m (joined ws ++ name) = true) :
    ∃ vs n, m = joined vs ++ n ∧ SameWords vs ws ∧ same n name = true := by
  induction ws generalizing m with
  | nil => exact ⟨[], m, rfl, rfl, h⟩
  | cons w ws ih =>
      obtain ⟨⟨-, hsep⟩, hrest⟩ := List.forall_mem_cons.1 hws
      rw [joined_cons] at h
      obtain ⟨a, b, rfl, ha, hb⟩ := exists_of_same_append h
      obtain ⟨u, rfl, hu⟩ := exists_of_same_cons hsep hb
      obtain ⟨vs, n, rfl, hvs, hn⟩ := ih hrest hu
      refine ⟨(a, w.2) :: vs, n, (joined_cons (a, w.2) vs n).symm, ?_, hn⟩
      rw [SameWords, lowerWords, lowerWords, List.map_cons, List.map_cons, eq_of_beq ha]
      exact congrArg _ hvs

theorem SameWords.exists_qualifiers {d s : List Char}
    (h : SameWords vs (ws ++ [(d, '.'), (s, '.')])) :
    ∃ us d' s', vs = us ++ [(d', '.'), (s', '.')] ∧ SameWords us ws ∧ same d' d = true ∧
      same s' s = true := by
  rw [SameWords, lowerWords, lowerWords, List.map_append] at h
  obtain ⟨us, qs, rfl, hus, hqs⟩ := List.map_eq_append_iff.1 h
  simp only [List.map_cons, List.map_nil, List.map_eq_cons_iff, List.map_eq_nil_iff,
    Prod.mk.injEq] at hqs
  obtain ⟨⟨d', c⟩, _, rfl, ⟨hd, hc⟩, ⟨s', c'⟩, _, rfl, ⟨hs, hc'⟩, rfl⟩ := hqs
  subst hc hc'
  exact ⟨us, d', s', rfl, hus, beq_iff_eq.2 hd, beq_iff_eq.2 hs⟩

end AnyCase

section Trim

theorem head?_dropEndWhile {p q : Char → Bool} (h : t.head?.all q = true) :
    (dropEndWhile p t).head?.all q = true := by
  have hinit : dropEndWhile p t <+: t := by
    have hs := List.reverse_prefix.2 (List.dropWhile_suffix (l := t.reverse) p)
    rwa [List.reverse_reverse] at hs
  obtain ⟨rest, hrest⟩ := hinit
  cases hd : dropEndWhile p t with
  | nil => rfl
  | cons c d =>
      rw [hd] at hrest
      rw [← hrest] at h
      exact h

theorem IsQualifier.exists_head {w : List Char} (hw : IsQualifier w) (t : List Char) :
    ∃ c u, w ++ t = c :: u ∧ isSegmentChar c = true := by
  cases w with
  | nil => exact absurd rfl hw.1
  | cons c w => exact ⟨c, w ++ t, rfl, hw.2 c List.mem_cons_self⟩

theorem exists_head (hws : AreWords ws) (hname : IsQualifier name) (rest : List Char) :
    ∃ c u, joined ws ++ (name ++ rest) = c :: u ∧ isSegmentChar c = true := by
  cases ws with
  | nil => exact hname.exists_head rest
  | cons w ws =>
      rw [joined_cons]
      exact (hws w List.mem_cons_self).1.exists_head _

theorem trimStart_joined (hlead : IsLead lead) (hws : AreWords ws) (hname : IsQualifier name)
    (rest : List Char) : trimStart (lead ++ (joined ws ++ (name ++ rest))) =
      lead ++ (joined ws ++ (name ++ rest)) := by
  rcases hlead with rfl | ⟨x, -, rfl⟩
  · obtain ⟨c, u, hu, hc⟩ := exists_head hws hname rest
    rw [List.nil_append, hu]
    exact trimStart_cons (not_isBlank_of_isSegmentChar hc) u
  · exact trimStart_cons (by decide) _

theorem Begins.trim (hlead : IsLead lead) (hws : AreWords ws) (hname : IsQualifier name)
    (h : Begins lead ws name t) : Begins lead ws name (trim t) := by
  obtain ⟨rest, rfl, hrest⟩ := h
  obtain ⟨front, c, rfl⟩ := (List.eq_nil_or_concat' name).resolve_left hname.1
  have hc : isBlank c = false := not_isBlank_of_isSegmentChar (hname.2 c (by simp))
  have hsplit (rest : List Char) : lead ++ (joined ws ++ (front ++ [c] ++ rest)) =
      (lead ++ (joined ws ++ front)) ++ c :: rest := by
    simp
  refine ⟨trimEnd rest, ?_, head?_dropEndWhile hrest⟩
  rw [Text.trim, trimStart_joined hlead hws hname, hsplit, trimEnd, dropEndWhile_append hc, hsplit]
  rfl

end Trim

section Template

open Parameters

variable {ps : Parameters} {vs : List (List Char × Char)}

def templates (ps : Parameters) (ws : List (List Char × Char)) : List (List Char × Char) :=
  ws.map fun w => (ps.wordTemplate w.1, w.2)

theorem SameWords.templates (h : SameWords ws vs) (ps : Parameters) :
    SameWords (templates ps ws) (templates ps vs) := by
  induction ws generalizing vs with
  | nil =>
      rw [List.map_eq_nil_iff.1 (Eq.symm h)]
      rfl
  | cons w ws ih =>
      obtain ⟨v, vs, rfl, hv, hrest⟩ := List.map_eq_cons_iff.1 (Eq.symm h)
      obtain ⟨hlower, hsep⟩ := Prod.mk.inj hv
      have hword : same w.1 v.1 = true := beq_iff_eq.2 hlower.symm
      have ih := ih (Eq.symm hrest)
      rw [SameWords, lowerWords, lowerWords] at ih ⊢
      simp only [Sql.templates, List.map_cons, eq_of_beq (same_wordTemplate hword)] at ih ⊢
      rw [ih, hsep]

theorem AreWords.templates (hps : ps.IsPlain) (hws : AreWords ws) : AreWords (templates ps ws) := by
  intro w hw
  obtain ⟨v, hv, rfl⟩ := List.mem_map.1 hw
  exact ⟨isQualifier_wordTemplate hps (hws v hv).1, (hws v hv).2⟩

theorem parametrizeWith_joined (hps : ps.IsPlain) (hws : AreWords ws) (u : List Char) :
    parametrizeWith isBounded ps (joined ws ++ u) =
      joined (templates ps ws) ++ parametrizeWith isBounded ps u := by
  induction ws with
  | nil => rfl
  | cons w ws ih =>
      obtain ⟨⟨hw, hc⟩, hrest⟩ := List.forall_mem_cons.1 hws
      have hsep : startsValue w.2 = true ∧ endsValue w.2 = true ∧ isIdentifierChar w.2 = false := by
        rcases hc with h | h <;> rw [h] <;> decide
      obtain ⟨v, hv, hstart⟩ := parametrizeWith_append_cons hps hsep.2.1 hsep.2.2 w.1 (joined ws ++ u)
      rw [joined_cons, hv, hstart hsep.1, ih hrest, parametrizeWith_word hps hw.2]
      exact (joined_cons (ps.wordTemplate w.1, w.2) _ _).symm

theorem endsValue_of_endsName {c : Char} (h : endsName c = true) :
    endsValue c = true ∧ isIdentifierChar c = false := by
  simp only [endsName, isAsciiBlank, List.contains_cons, List.contains_nil, Bool.or_eq_true,
    beq_iff_eq, Bool.false_eq_true, or_false] at h
  rcases h with (h | h | h | h | h) | (((h | h) | h) | h) | h <;> subst h <;> decide

theorem parametrizeWith_name (hps : ps.IsPlain) (hname : IsQualifier name) {rest : List Char}
    (hrest : rest.head?.all endsName = true) :
    ∃ rest', parametrizeWith isBounded ps (name ++ rest) = ps.wordTemplate name ++ rest' ∧
      rest'.head?.all endsName = true := by
  cases rest with
  | nil => exact ⟨[], by rw [List.append_nil, List.append_nil, parametrizeWith_word hps hname.2], rfl⟩
  | cons c rest =>
      obtain ⟨hend, hc⟩ := endsValue_of_endsName hrest
      obtain ⟨v, hv, -⟩ := parametrizeWith_append_cons hps hend hc name rest
      exact ⟨c :: v, by rw [hv, parametrizeWith_word hps hname.2], hrest⟩

theorem parametrizeWith_dashes (hps : ps.IsPlain) {x : List Char} (hx : '\n' ∉ x) :
    ∃ y, '\n' ∉ y ∧ parametrizeWith isBounded ps ('-' :: '-' :: x) = '-' :: '-' :: y := by
  rw [IsPlain] at hps
  rw [parametrizeWith]
  generalize ps.entries = es at hps ⊢
  induction es generalizing x with
  | nil => exact ⟨x, hx, rfl⟩
  | cons p es ih =>
      obtain ⟨hp, hes⟩ := List.forall_mem_cons.1 hps
      have hd (u : List Char) : dropSame? p.2.toList ('-' :: u) = none := by
        cases hv : p.2.toList with
        | nil => exact absurd hv hp.2.1
        | cons a v =>
            have ha : sameLetter a '-' = false :=
              sameLetter_eq_false (hp.2.mem (hv ▸ List.mem_cons_self)) (by decide)
            simp [dropSame?, ha]
      rw [List.foldl_cons, replaceSame]
      simp only [replaceFrom, hd]
      refine ih (fun hm => ?_) hes
      rcases mem_replaceFrom hm with hm | hm
      · exact hx hm
      · exact absurd ((isQualifier_placeholder hp.1).2 _ hm) (by decide)

theorem IsLead.template (hps : ps.IsPlain) (h : IsLead lead) :
    ∃ lead', IsLead lead' ∧
      ∀ u, parametrizeWith isBounded ps (lead ++ u) = lead' ++ parametrizeWith isBounded ps u := by
  rcases h with rfl | ⟨x, hx, rfl⟩
  · exact ⟨[], .inl rfl, fun u => rfl⟩
  · obtain ⟨y, hy, he⟩ := parametrizeWith_dashes hps hx
    refine ⟨'-' :: '-' :: (y ++ ['\n']), .inr ⟨y, hy, rfl⟩, fun u => ?_⟩
    obtain ⟨v, hv, hstart⟩ := parametrizeWith_append_cons hps (c := '\n') (by decide) (by decide)
      ('-' :: '-' :: x) u
    have hline (z w : List Char) : '-' :: '-' :: (z ++ ['\n']) ++ w = '-' :: '-' :: z ++ '\n' :: w := by
      simp
    rw [hline, hv, hstart (by decide), he, hline]

theorem Begins.template (hps : ps.IsPlain) (hlead : IsLead lead) (hws : AreWords ws)
    (hname : IsQualifier name) (h : Begins lead ws name t) :
    ∃ lead', IsLead lead' ∧ Begins lead' (templates ps ws) (ps.wordTemplate name)
      (parametrizeWith isBounded ps t) := by
  obtain ⟨rest, rfl, hrest⟩ := h
  obtain ⟨lead', hlead', hl⟩ := hlead.template hps
  obtain ⟨rest', hr, hrest'⟩ := parametrizeWith_name hps hname hrest
  exact ⟨lead', hlead', rest', by rw [hl, parametrizeWith_joined hps hws, hr], hrest'⟩

end Template

section Clean

def isBare (c : Char) : Bool :=
  !(['-', '/', '\'', '"'].contains c)

theorem ne_of_isBare {c : Char} (h : isBare c = true) :
    c ≠ '-' ∧ c ≠ '/' ∧ c ≠ '\'' ∧ c ≠ '"' := by
  simpa [isBare] using h

theorem step_of_isBare {c : Char} (h : isBare c = true) (next : Option Char) :
    ScanState.step .plain c next = (.plain, false) := by
  obtain ⟨hdash, hslash, hquote, hdouble⟩ := ne_of_isBare h
  unfold ScanState.step
  split <;> simp_all

theorem stripComments_cons {c : Char} (h : isBare c = true) (t : List Char) :
    stripComments (c :: t) = c :: stripComments t :=
  stripFrom_cons (step_of_isBare h _)

theorem stripComments_line {x : List Char} (hx : '\n' ∉ x) (t : List Char) :
    stripComments ('-' :: '-' :: (x ++ '\n' :: t)) = '\n' :: stripComments t := by
  rw [← stripFrom_lineComment hx t]
  rfl

theorem stripLiteralsFrom_cons {c : Char} (h : isBare c = true) (keep : Bool) (before t : List Char) :
    stripLiteralsFrom 0 keep before (c :: t) = c :: stripLiteralsFrom 0 true (c :: before) t := by
  obtain ⟨-, -, hquote, hdouble⟩ := ne_of_isBare h
  simp only [stripLiteralsFrom, hquote, hdouble, if_false]

theorem stripComments_append (h : ∀ c ∈ u, isBare c = true) (t : List Char) :
    stripComments (u ++ t) = u ++ stripComments t := by
  induction u with
  | nil => rfl
  | cons c u ih =>
      obtain ⟨hc, hu⟩ := List.forall_mem_cons.1 h
      rw [List.cons_append, stripComments_cons hc, ih hu, List.cons_append]

theorem stripLiteralsFrom_append (h : ∀ c ∈ u, isBare c = true) (keep : Bool)
    (before t : List Char) : ∃ keep' before', stripLiteralsFrom 0 keep before (u ++ t) =
      u ++ stripLiteralsFrom 0 keep' before' t := by
  induction u generalizing keep before with
  | nil => exact ⟨keep, before, rfl⟩
  | cons c u ih =>
      obtain ⟨hc, hu⟩ := List.forall_mem_cons.1 h
      obtain ⟨keep', before', ih⟩ := ih hu true (c :: before)
      exact ⟨keep', before', by rw [List.cons_append, stripLiteralsFrom_cons hc, ih]; rfl⟩

theorem isBare_of_isSegmentChar {c : Char} (h : isSegmentChar c = true) : isBare c = true := by
  by_contra hb
  simp only [isBare, List.contains_cons, List.contains_nil, Bool.not_eq_true, Bool.not_eq_false',
    Bool.or_eq_true, beq_iff_eq, Bool.false_eq_true, or_false] at hb
  rcases hb with hb | hb | hb | hb <;> subst hb <;> exact absurd h (by decide)

theorem isBare_of_endsName {c : Char} (h : endsName c = true) : isBare c = true := by
  by_contra hb
  simp only [isBare, List.contains_cons, List.contains_nil, Bool.not_eq_true, Bool.not_eq_false',
    Bool.or_eq_true, beq_iff_eq, Bool.false_eq_true, or_false] at hb
  rcases hb with hb | hb | hb | hb <;> subst hb <;> exact absurd h (by decide)

theorem isBare_joined (hws : AreWords ws) : ∀ c ∈ joined ws, isBare c = true := by
  intro c hc
  obtain ⟨w, hw, hc⟩ := List.mem_flatMap.1 hc
  obtain ⟨hpart, hsep⟩ := hws w hw
  rcases List.mem_append.1 hc with hc | hc
  · exact isBare_of_isSegmentChar (hpart.2 c hc)
  · rw [List.mem_singleton.1 hc]
    rcases hsep with h | h <;> rw [h] <;> decide

theorem head?_stripComments (h : t.head?.all endsName = true) :
    (stripComments t).head?.all endsName = true := by
  cases t with
  | nil => rfl
  | cons c t => rwa [stripComments_cons (isBare_of_endsName h)]

theorem head?_stripLiteralsFrom (h : t.head?.all endsName = true) (keep : Bool)
    (before : List Char) : (stripLiteralsFrom 0 keep before t).head?.all endsName = true := by
  cases t with
  | nil => rfl
  | cons c t => rwa [stripLiteralsFrom_cons (isBare_of_endsName h)]

theorem Begins.clean (hlead : IsLead lead) (hws : AreWords ws) (hname : IsQualifier name)
    (h : Begins lead ws name t) :
    ∃ lead', (lead' = [] ∨ lead' = ['\n']) ∧ Begins lead' ws name (clean t) := by
  obtain ⟨rest, rfl, hrest⟩ := h
  have hhead : ∀ c ∈ joined ws ++ name, isBare c = true := by
    intro c hc
    rcases List.mem_append.1 hc with hc | hc
    · exact isBare_joined hws c hc
    · exact isBare_of_isSegmentChar (hname.2 c hc)
  have hrest' := head?_stripComments hrest
  have hcomments := stripComments_append hhead rest
  rw [List.append_assoc, List.append_assoc] at hcomments
  have hliterals (keep : Bool) (before : List Char) :
      ∃ rest', stripLiteralsFrom 0 keep before (joined ws ++ (name ++ stripComments rest)) =
        joined ws ++ (name ++ rest') ∧ rest'.head?.all endsName = true := by
    obtain ⟨keep', before', hl⟩ := stripLiteralsFrom_append hhead keep before (stripComments rest)
    rw [List.append_assoc, List.append_assoc] at hl
    exact ⟨_, hl, head?_stripLiteralsFrom hrest' keep' before'⟩
  rcases hlead with rfl | ⟨x, hx, rfl⟩
  · obtain ⟨rest', hl, hend⟩ := hliterals true []
    refine ⟨[], .inl rfl, rest', ?_, hend⟩
    rw [List.nil_append, List.nil_append, Sql.clean, hcomments, stripLiterals, hl]
  · obtain ⟨rest', hl, hend⟩ := hliterals true ['\n']
    refine ⟨['\n'], .inr rfl, rest', ?_, hend⟩
    have hline : '-' :: '-' :: (x ++ ['\n']) ++ (joined ws ++ (name ++ rest)) =
        '-' :: '-' :: (x ++ '\n' :: (joined ws ++ (name ++ rest))) := by
      simp
    rw [hline, Sql.clean, stripComments_line hx, hcomments, stripLiterals,
      stripLiteralsFrom_cons (by decide), hl]
    rfl

end Clean

section FirstReference

theorem isEndBoundary_eq_false {c : Char} (h : isSegmentChar c = true) :
    isEndBoundary c = false ∧ c ≠ '"' := by
  refine ⟨?_, ?_⟩
  · rw [Bool.eq_false_iff]
    intro hc
    simp only [isEndBoundary, isStartBoundary, isAsciiBlank, List.contains_cons, List.contains_nil,
      Bool.or_eq_true, beq_iff_eq, Bool.false_eq_true, or_false] at hc
    rcases hc with hc | (hc | hc | hc | hc | hc | hc | hc | hc | hc) | (((hc | hc) | hc) | hc) | hc <;>
      subst hc <;> exact absurd h (by decide)
  · rintro rfl
    exact absurd h (by decide)

theorem referenceAt?_of_longer {c : Char} (hc : isSegmentChar c = true) (before : List Char) :
    referenceAt? name before (c :: t) = none := by
  obtain ⟨hend, hquote⟩ := isEndBoundary_eq_false hc
  unfold referenceAt?
  split
  dsimp only
  split
  · next h => exact absurd (List.cons.inj h).1 hquote
  · simp [hend]

theorem referenceAt?_of_inside {c : Char} (hc : isSegmentChar c = true) {after : List Char}
    (ha : after.head? ≠ some '"') (before : List Char) :
    referenceAt? name (c :: before) after = none := by
  obtain ⟨hend, hquote⟩ := isEndBoundary_eq_false hc
  have hstart : isStartBoundary c = false := by
    rw [isEndBoundary, Bool.or_eq_false_iff] at hend
    exact hend.2
  have hdot : c ≠ '.' := by
    rintro rfl
    exact absurd hc (by decide)
  have hnone : segment? (c :: before) = none := segment?_eq_none (by simpa using hdot)
  have hsegments : segments 2 (c :: before) = [] := by
    simp only [segments, hnone]
  rw [referenceAt?_bare (by simpa using hquote) ha, hsegments]
  simp [chain?, startsAtBoundary, hstart]

theorem referencesAfter_word (hname : IsIdentifier name) {c : Char}
    (hc : isIdentifierChar c = false ∧ c ≠ '"') (before t : List Char) {v w : List Char}
    (hv : ∀ d ∈ v, isSegmentChar d = true) (hw : ∀ d ∈ w, isSegmentChar d = true)
    (hne : v = [] → same name w = false) :
    referencesAfter name (v.reverse ++ before) (w ++ c :: t) =
      referencesAfter name (c :: (w.reverse ++ (v.reverse ++ before))) t := by
  have hneedle : ∀ a ∈ name, sameLetter a c = false :=
    fun a ha => sameLetter_eq_false (hname.mem ha) hc.1
  induction w generalizing v with
  | nil =>
      have hd : dropSame? name (c :: t) = none := by
        have h := dropSame?_append_cons hneedle [] t
        rw [List.nil_append] at h
        rw [h]
        cases name with
        | nil => exact absurd rfl hname.1
        | cons a name => rfl
      rw [List.nil_append, referencesAfter, hd]
      rfl
  | cons d w ih =>
      obtain ⟨hd, hrest⟩ := List.forall_mem_cons.1 hw
      have hnone : (dropSame? name (d :: w ++ c :: t)).bind
          (referenceAt? name (v.reverse ++ before)) = none := by
        rw [dropSame?_append_cons hneedle]
        cases hm : dropSame? name (d :: w) with
        | none => rfl
        | some r =>
            obtain ⟨m, hsplit, hms⟩ := exists_of_dropSame? hm
            cases r with
            | cons x r => exact referenceAt?_of_longer (hw x (by simp [hsplit])) _
            | nil =>
                rw [List.append_nil] at hsplit
                rcases List.eq_nil_or_concat' v with rfl | ⟨v, y, rfl⟩
                · have hs := same_symm hms
                  rw [← hsplit, hne rfl] at hs
                  cases hs
                · rw [List.reverse_append, List.reverse_singleton]
                  exact referenceAt?_of_inside (hv y (by simp)) (by simpa using hc.2) _
      have hnext : ∀ x ∈ v ++ [d], isSegmentChar x = true :=
        List.forall_mem_append.2 ⟨hv, List.forall_mem_singleton.2 hd⟩
      have ih := ih hnext hrest (by simp)
      rw [List.reverse_append, List.reverse_singleton] at ih
      rw [List.cons_append] at hnone
      rw [List.cons_append, referencesAfter, hnone, List.reverse_cons, List.append_assoc]
      exact ih

theorem referencesAfter_joined (hname : IsIdentifier name) (hws : AreWords ws)
    (hne : ∀ w ∈ ws, same name w.1 = false) (before t : List Char) :
    referencesAfter name before (joined ws ++ t) =
      referencesAfter name ((joined ws).reverse ++ before) t := by
  induction ws generalizing before with
  | nil => rfl
  | cons w ws ih =>
      obtain ⟨⟨hw, hsep⟩, hrest⟩ := List.forall_mem_cons.1 hws
      obtain ⟨hfresh, hne⟩ := List.forall_mem_cons.1 hne
      have hc : isIdentifierChar w.2 = false ∧ w.2 ≠ '"' := by
        rcases hsep with h | h <;> rw [h] <;> decide
      have hword := referencesAfter_word hname hc before (joined ws ++ t) (v := [])
        (List.forall_mem_nil _) hw.2 fun _ => hfresh
      rw [joined_cons]
      refine hword.trans ?_
      rw [ih hrest hne]
      simp [joined]

theorem firstReference?_at {n rest : List Char} {q : QualifiedName} (hname : IsIdentifier name)
    (hlead : lead = [] ∨ lead = ['\n']) (hws : AreWords ws)
    (hne : ∀ w ∈ ws, same name w.1 = false) (hn : same name n = true)
    (hq : referenceAt? name ((joined ws).reverse ++ lead.reverse) rest = some q) :
    firstReference? name (lead ++ (joined ws ++ (n ++ rest))) = some q := by
  have hstart (t : List Char) : referencesAfter name [] (lead ++ t) =
      referencesAfter name lead.reverse t := by
    rcases hlead with rfl | rfl
    · rfl
    · exact referencesAfter_word hname (c := '\n') (by decide) [] t (v := []) (w := [])
        (List.forall_mem_nil _) (List.forall_mem_nil _) fun _ => same_nil hname.1
  have hmatch := dropSame?_append (same_symm hn) rest
  rw [firstReference?, references, if_neg hname.1, hstart, referencesAfter_joined hname hws hne]
  cases n with
  | nil =>
      rw [same_nil hname.1] at hn
      cases hn
  | cons c n =>
      rw [List.cons_append] at hmatch ⊢
      rw [referencesAfter, hmatch, Option.bind_some, hq]
      rfl

theorem opens_joined (hlead : lead = [] ∨ lead = ['\n']) (hws : ∀ w ∈ ws, w.2 = ' ') :
    Opens ((joined ws).reverse ++ lead.reverse) := by
  rcases List.eq_nil_or_concat' ws with rfl | ⟨ws, w, rfl⟩
  · rcases hlead with rfl | rfl <;> rfl
  · have hw : w.2 = ' ' := hws w (by simp)
    simp [joined, Opens, hw, precedesName, isAsciiBlank]

theorem head?_joined {w : List Char × Char} (hw : w.2 = ' ' ∨ w.2 = '.') (t : List Char) :
    (w.2 :: t).head?.all followsName = true := by
  rw [List.head?_cons, Option.all_some]
  rcases hw with h | h <;> rw [h] <;> decide

theorem followsName_of_endsName (h : t.head?.all endsName = true) :
    t.head?.all followsName = true := by
  cases t with
  | nil => rfl
  | cons c t =>
      have hc : endsName c = true := h
      simp only [endsName, List.contains_cons, List.contains_nil, Bool.or_eq_true, beq_iff_eq,
        Bool.false_eq_true, or_false] at hc
      rw [List.head?_cons, Option.all_some, followsName, precedesName]
      rcases hc with (hc | hc | hc | hc | hc) | hc <;> simp [hc]

theorem firstReference?_of_begins {d s n : List Char} (hname : IsIdentifier name)
    (hlead : lead = [] ∨ lead = ['\n']) (hws : AreWords (ws ++ [(d, '.'), (s, '.')]))
    (hspaces : ∀ w ∈ ws, w.2 = ' ')
    (hne : ∀ w ∈ ws ++ [(d, '.'), (s, '.')], same name w.1 = false) (hn : same name n = true)
    (h : Begins lead (ws ++ [(d, '.'), (s, '.')]) n t) :
    firstReference? name t = some (.ofFound [d, s] name) := by
  obtain ⟨rest, rfl, hrest⟩ := h
  refine firstReference?_at hname hlead hws hne hn ?_
  have hqs : ∀ q ∈ [d, s], IsQualifier q := by
    intro q hq
    rcases List.mem_cons.1 hq with rfl | hq
    · exact (hws (q, '.') (by simp)).1
    · rw [List.mem_singleton.1 hq]
      exact (hws (s, '.') (by simp)).1
  have hread := referenceAt?_spelled false (by simp) hqs (opens_joined hlead hspaces)
    (followsName_of_endsName hrest) name
  have hbefore : (joined (ws ++ [(d, '.'), (s, '.')])).reverse ++ lead.reverse =
      (qualifiers false [d, s] ++ mark false).reverse ++ ((joined ws).reverse ++ lead.reverse) := by
    simp [joined, qualifiers, written, mark]
  rw [hbefore]
  exact hread

theorem firstReference?_of_spaced {w : List Char × Char} (hname : IsIdentifier name)
    (hlead : lead = [] ∨ lead = ['\n']) (hws : AreWords ws) (hspaces : ∀ w ∈ ws, w.2 = ' ')
    (hne : ∀ w ∈ ws, same name w.1 = false) (hsep : w.2 = ' ' ∨ w.2 = '.')
    (hw : same name w.1 = true) (u : List Char) :
    ∃ q, firstReference? name (lead ++ (joined ws ++ (w.1 ++ w.2 :: u))) = some q ∧
      q.database = none := by
  have hread := referenceAt?_spelled false (Nat.zero_le _) (List.forall_mem_nil IsQualifier)
    (opens_joined hlead hspaces) (head?_joined hsep u) name
  exact ⟨_, firstReference?_at hname hlead hws hne hw hread, rfl⟩

theorem firstReference?_of_word {d s n : List Char} (hname : IsIdentifier name)
    (hlead : lead = [] ∨ lead = ['\n']) (hws : AreWords (ws ++ [(d, '.'), (s, '.')]))
    (hspaces : ∀ w ∈ ws, w.2 = ' ')
    (hw : ∃ w ∈ ws ++ [(d, '.'), (s, '.')], same name w.1 = true)
    (h : Begins lead (ws ++ [(d, '.'), (s, '.')]) n t) :
    ∃ q, firstReference? name t = some q ∧ q.database = none := by
  obtain ⟨rest, rfl, -⟩ := h
  obtain ⟨hfront, hlast⟩ := List.forall_mem_append.1 hws
  cases hf : ws.find? fun w => same name w.1 with
  | some w =>
      obtain ⟨hs, pre, post, rfl, hpre⟩ := List.find?_eq_some_iff_append.1 hf
      have hsub : pre ⊆ pre ++ w :: post := List.subset_append_left _ _
      obtain ⟨q, hq, hnone⟩ := firstReference?_of_spaced hname hlead
        (fun v hv => hfront v (hsub hv)) (fun v hv => hspaces v (hsub hv))
        (fun v hv => by simpa using hpre v hv) (.inl (hspaces w (by simp))) hs
        (joined (post ++ [(d, '.'), (s, '.')]) ++ (n ++ rest))
      refine ⟨q, ?_, hnone⟩
      rw [← hq]
      simp [joined]
  | none =>
      have hne : ∀ w ∈ ws, same name w.1 = false := fun w hw => by
        simpa using List.find?_eq_none.1 hf w hw
      by_cases hd : same name d = true
      · obtain ⟨q, hq, hnone⟩ := firstReference?_of_spaced (w := (d, '.')) hname hlead hfront
          hspaces hne (.inr rfl) hd (s ++ '.' :: (n ++ rest))
        refine ⟨q, ?_, hnone⟩
        rw [← hq]
        simp [joined]
      · -- Only the schema is left, with the database as its one qualifier.
        have hs : same name s = true := by
          obtain ⟨w, hmem, hw⟩ := hw
          rcases List.mem_append.1 hmem with hmem | hmem
          · rw [hne w hmem] at hw
            cases hw
          · rcases List.mem_cons.1 hmem with rfl | hmem
            · exact absurd hw hd
            · rwa [List.mem_singleton.1 hmem] at hw
        have hwords : AreWords (ws ++ [(d, '.')]) :=
          List.forall_mem_append.2 ⟨hfront, List.forall_mem_singleton.2 (hlast _ (by simp))⟩
        have hne' : ∀ w ∈ ws ++ [(d, '.')], same name w.1 = false :=
          List.forall_mem_append.2 ⟨hne, List.forall_mem_singleton.2 (Bool.eq_false_iff.2 hd)⟩
        have hread := referenceAt?_spelled false (by simp)
          (List.forall_mem_singleton.2 (hlast (d, '.') (by simp)).1) (opens_joined hlead hspaces)
          (head?_joined (w := (s, '.')) (.inr rfl) (n ++ rest)) name
        have hbefore : (joined (ws ++ [(d, '.')])).reverse ++ lead.reverse =
            (qualifiers false [d] ++ mark false).reverse ++
              ((joined ws).reverse ++ lead.reverse) := by
          simp [joined, qualifiers, written, mark]
        rw [← hbefore] at hread
        refine ⟨.ofFound [d] name, ?_, rfl⟩
        rw [← firstReference?_at hname hlead hwords hne' hs hread]
        simp [joined, mark]

end FirstReference

end SchemaDeploy.Sql
