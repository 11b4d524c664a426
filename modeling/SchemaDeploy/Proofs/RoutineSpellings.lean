import SchemaDeploy.Proofs.ExportedLiterals
import SchemaDeploy.Proofs.RoutineHeaders
import SchemaDeploy.Proofs.SolidText

namespace SchemaDeploy.Body

open Text Sql

variable {type : ObjectType} {b body d h r t v x y : List Char}

section Delimited

/-- A text between delimiters, with a terminator. -/
def spelled (d x : List Char) : List Char :=
  d ++ (x ++ (d ++ [';']))

theorem upToClosing?_append (hd : d ∈ delimiters) (x : List Char) :
    upToClosing? (x ++ (d ++ [';'])) = some x := by
  induction x with
  | nil =>
      simp only [delimiters, List.mem_cons, List.not_mem_nil, or_false] at hd
      rcases hd with rfl | rfl <;> decide
  | cons c x ih => rw [List.cons_append, upToClosing?, ih]

theorem trimStart_append_of_solid (hx : allBlank x = false) (t : List Char) :
    trimStart (x ++ t) = trimStart x ++ t ∧ trimStart x ≠ [] := by
  have hne : trimStart x ≠ [] := fun h => by
    rw [allBlank, List.all_eq_true.2 (List.dropWhile_eq_nil_iff.1 h)] at hx
    cases hx
  refine ⟨?_, hne⟩
  rw [trimStart, List.dropWhile_append, if_neg (by simpa [trimStart] using hne)]
  rfl

theorem delimitedBody?_append (hd : d ∈ delimiters) (hx : allBlank x = false) :
    delimitedBody? (x ++ (d ++ [';'])) = some (trimStart x) := by
  obtain ⟨htrim, hne⟩ := trimStart_append_of_solid hx (d ++ [';'])
  obtain ⟨c, y, hy⟩ := List.exists_cons_of_ne_nil hne
  have hbody : someUpToClosing? (c :: (y ++ (d ++ [';']))) = some (c :: y) := by
    rw [someUpToClosing?, upToClosing?_append hd, Option.map_some]
  rw [delimitedBody?, htrim, hy, List.cons_append, hbody]

theorem prefix_of_upToClosing? (h : upToClosing? t = some body) : body <+: t := by
  induction t generalizing body with
  | nil => cases h
  | cons c t ih =>
      rw [upToClosing?] at h
      split at h
      · next hrest =>
        cases h
        exact List.cons_prefix_cons.2 ⟨rfl, ih hrest⟩
      · split at h
        · cases h
          exact List.nil_prefix
        · cases h

theorem solids_eq_zero_or_of_delimitedBody? (h : delimitedBody? t = some body) :
    solids body = 0 ∨ someUpToClosing? (trimStart t) = some body := by
  rw [delimitedBody?] at h
  split at h
  · next hbody =>
    cases h
    exact .inr hbody
  · split at h
    · cases h
    · next c hlast =>
      split at h
      · cases h
        have hc : isBlank c = true := List.mem_takeWhile_imp (List.mem_of_getLast? hlast)
        exact .inl (by simp [solids, hc])
      · cases h

theorem solids_le_of_delimitedBody? (h : delimitedBody? t = some body) :
    solids body ≤ solids t := by
  rcases solids_eq_zero_or_of_delimitedBody? h with h | h
  · rw [h]
    exact Nat.zero_le _
  · rw [← solids_trimStart t]
    cases htrim : trimStart t with
    | nil =>
        rw [htrim] at h
        cases h
    | cons c u =>
        rw [htrim, someUpToClosing?, Option.map_eq_some_iff] at h
        obtain ⟨x, hx, rfl⟩ := h
        exact solids_le_of_sublist ((prefix_of_upToClosing? hx).sublist.cons_cons c)

theorem solids_le_of_suffix (hr : r = [] ∨ r = "$$;".toList) (hy : y <:+ x ++ r)
    (h : delimitedBody? y = some body) : solids body ≤ solids x := by
  rcases hr with rfl | rfl
  · rw [List.append_nil] at hy
    exact (solids_le_of_delimitedBody? h).trans (solids_le_of_sublist hy.sublist)
  · rcases suffix_append_cases hy with hy | ⟨v, -, hv, rfl⟩
    · have hnone : ∀ y ∈ "$$;".toList.tails, delimitedBody? y = none := by decide
      rw [hnone y ((List.mem_tails _ _).2 hy)] at h
      cases h
    · have hle := solids_le_of_sublist hv.sublist
      cases hblank : allBlank v with
      | true =>
          have htrim : trimStart (v ++ "$$;".toList) = "$$;".toList := trimStart_append hblank rfl
          rcases solids_eq_zero_or_of_delimitedBody? h with h | h
          · omega
          · have hnone : someUpToClosing? "$$;".toList = none := by decide
            rw [htrim, hnone] at h
            cases h
      | false =>
          have hdollars : ['$', '$'] ∈ delimiters := by simp [delimiters]
          have hbody := delimitedBody?_append hdollars hblank
          obtain rfl := Option.some.inj (hbody.symm.trans h)
          rwa [solids_trimStart]

end Delimited

section Passes

theorem halve_doubled (odd : Bool) (x t : List Char) :
    halve odd (doubled x ++ t) = x ++ halve (odd && x.all (· == '\'')) t := by
  induction x generalizing odd with
  | nil => simp [doubled]
  | cons c x ih =>
      by_cases hc : c = '\''
      · subst hc
        have hpair (u : List Char) : halve odd ('\'' :: '\'' :: u) = '\'' :: halve odd u := by
          cases odd <;> rfl
        rw [doubled_quote, List.cons_append, List.cons_append, hpair, ih]
        simp
      · have hother : (c == '\'') = false := beq_false_of_ne hc
        rw [doubled_cons hc, List.cons_append, halve_cons hc, ih, List.all_cons, hother]
        simp

theorem stripComments_literal_spelled (h : HasEvenRuns b) :
    stripComments (spelled ['\''] (doubled b)) = spelled ['\''] (doubled b) := by
  have hinside := stripFrom_doubled (keepsQuotes_false_iff.2 h) [';']
  exact (stripComments_quote _).trans (congrArg ('\'' :: ·) hinside)

theorem stripComments_dollars (t : List Char) :
    stripComments ('$' :: '$' :: t) = '$' :: '$' :: stripComments t := by
  have hstep (next : Option Char) : ScanState.step .plain '$' next = (.plain, false) := by
    simp [ScanState.step_eq]
  have hfirst : stripComments ('$' :: '$' :: t) = '$' :: stripComments ('$' :: t) :=
    stripFrom_cons (hstep _)
  have hsecond : stripComments ('$' :: t) = '$' :: stripComments t := stripFrom_cons (hstep _)
  rw [hfirst, hsecond]

theorem stripComments_quotes (n : Nat) :
    stripComments (List.replicate n '\'') = List.replicate n '\'' :=
  stripComments_of_not_mem (by simp [List.mem_replicate]) (by simp [List.mem_replicate])

theorem stripFrom_append_closing (s : ScanState) (t : List Char) :
    stripFrom s (t ++ "$$;".toList) =
      stripFrom s t ++ if (scan ScanState.step s t).isComment then [] else "$$;".toList := by
  have hclosing (s : ScanState) : stripFrom s "$$;".toList =
      if s.isComment then [] else "$$;".toList := by
    cases s <;> rfl
  fun_induction scan ScanState.step s t with
  | case1 s => exact hclosing s
  | case2 s c =>
      have hnext : s.step c (some '$') = s.step c none := by
        simp [ScanState.step_eq]
      cases hstep : s.step c none with | mk s' taken =>
      rw [hstep] at hnext
      cases taken with
      | true =>
          obtain ⟨rfl, rfl⟩ : s = .singleQuoted ∧ c = '\\' := by
            rw [ScanState.step_eq] at hstep
            cases s <;> grind
          cases hstep
          rfl
      | false =>
          have halone : stripFrom s [c] = Chunk.uncommented ⟨s, s', [c]⟩ ++ stripFrom s' [] :=
            stripFrom_cons hstep
          have hboth : stripFrom s (c :: "$$;".toList) =
              Chunk.uncommented ⟨s, s', [c]⟩ ++ stripFrom s' "$$;".toList := stripFrom_cons hnext
          rw [List.singleton_append, hboth, halone, hclosing]
          simp [stripFrom, chunks]
  | case3 s c d t s' hstep ih =>
      rw [List.cons_append, List.cons_append, stripFrom_cons_cons hstep, stripFrom_cons_cons hstep, ih,
        List.append_assoc]
  | case4 s c d t s' hstep ih =>
      rw [List.cons_append, stripFrom_cons hstep, stripFrom_cons hstep, ih, List.append_assoc]

theorem exists_stripComments_append_closing (t : List Char) :
    ∃ r, (r = [] ∨ r = "$$;".toList) ∧ stripComments (t ++ "$$;".toList) = stripComments t ++ r ∧
      (¬ EntersComment .plain t → r = "$$;".toList) := by
  refine ⟨_, ?_, stripFrom_append_closing .plain t, fun h => ?_⟩
  · cases (scan ScanState.step .plain t).isComment with
    | true => exact .inl rfl
    | false => exact .inr rfl
  · rw [isComment_scan rfl h]
    rfl

end Passes

section Spellings

/-- The header of a routine, without comments and quotes. -/
structure IsPlainHeader (type : ObjectType) (h : List Char) : Prop where
  header : IsRoutineHeader type h
  uncommented : stripComments h = h
  unquoted : ∀ c ∈ h, isQuote c = false

variable (hh : IsPlainHeader type h)

include hh

theorem IsPlainHeader.comparable_append (hd : d ∈ delimiters) (t : List Char) :
    comparable (h ++ (d ++ t)) = h ++ halve false (stripComments (d ++ t)) := by
  have hplain := endsPlain_of_unquoted hh.unquoted (stripComments_eq_self_iff.1 hh.uncommented)
  have hquote : '\'' ∉ h := fun hc => absurd (hh.unquoted _ hc) (by decide)
  have hcut : ∀ c ∈ h.getLast?, ∀ e ∈ (d ++ t).head?, opensComment c e = false := by
    intro c _ e he
    simp only [delimiters, List.mem_cons, List.not_mem_nil, or_false] at hd
    rcases hd with rfl | rfl <;> cases he <;> simp [opensComment]
  rw [comparable, replacePair_quotes, stripComments_append_of_plain hplain hcut, hh.uncommented,
    halve_append_of_not_mem hquote]

theorem IsPlainHeader.normalize_eq (hd : d ∈ delimiters) (ht : comparable (h ++ t) = h ++ (d ++ x))
    (hbody : delimitedBody? x = some body) : normalize type (h ++ t) = folded body := by
  simp only [normalize, ht, hh.header.find?_append hd hbody, Option.getD_some]
  rfl

/-- In a literal the quotes come back as they were, but the last of a body of quotes alone makes a
pair with the closing one. -/
theorem IsPlainHeader.comparable_literal
    (hb : stripComments (spelled ['\''] (doubled b)) = spelled ['\''] (doubled b)) :
    comparable (h ++ spelled ['\''] (doubled b)) =
      h ++ (['\''] ++ (b ++ halve (b.all (· == '\'')) "';".toList)) := by
  have hquote : ['\''] ∈ delimiters := by simp [delimiters]
  have hread := hh.comparable_append hquote (doubled b ++ "';".toList)
  have hsame : ['\''] ++ (doubled b ++ "';".toList) = spelled ['\''] (doubled b) := rfl
  rw [hsame, hb, ← hsame, List.singleton_append, halve_first, halve_doubled, Bool.true_and] at hread
  exact hread

theorem IsPlainHeader.exists_comparable_dollars (b : List Char) :
    ∃ r, (r = [] ∨ r = "$$;".toList) ∧ comparable (h ++ spelled ['$', '$'] b) =
        h ++ (['$', '$'] ++ (halve false (stripComments b) ++ r)) ∧
      (¬ EntersComment .plain b → r = "$$;".toList) := by
  have hdollars : ['$', '$'] ∈ delimiters := by simp [delimiters]
  obtain ⟨r, hr, hstrip, hplain⟩ := exists_stripComments_append_closing b
  have hrest : halve false (stripComments b ++ r) = halve false (stripComments b) ++ r := by
    rcases hr with rfl | rfl
    · rw [List.append_nil, List.append_nil]
    · rw [halve_append (by decide)]
      rfl
  have hread := hh.comparable_append hdollars (b ++ "$$;".toList)
  have hopen (t : List Char) : ['$', '$'] ++ t = '$' :: '$' :: t := rfl
  rw [hopen (b ++ _), stripComments_dollars, hstrip, halve_cons (by decide), halve_cons (by decide),
    hrest] at hread
  exact ⟨r, hr, hread, hplain⟩

theorem IsPlainHeader.normalize_literal (hne : allBlank b = false)
    (hb : stripComments (spelled ['\''] (doubled b)) = spelled ['\''] (doubled b))
    (hother : b.all (· == '\'') = false) :
    normalize type (h ++ spelled ['\''] (doubled b)) = folded b := by
  have hquote : ['\''] ∈ delimiters := by simp [delimiters]
  have hread := hh.comparable_literal hb
  rw [hother] at hread
  rw [hh.normalize_eq hquote hread (delimitedBody?_append hquote hne), folded_trimStart]

theorem IsPlainHeader.normalize_quotes (n : Nat)
    (hb : stripComments (spelled ['\''] (doubled (List.replicate (n + 2) '\''))) =
      spelled ['\''] (doubled (List.replicate (n + 2) '\''))) :
    normalize type (h ++ spelled ['\''] (doubled (List.replicate (n + 2) '\''))) =
      List.replicate (n + 1) '\'' := by
  have hquote : ['\''] ∈ delimiters := by simp [delimiters]
  have hread := hh.comparable_literal hb
  have hall : (List.replicate (n + 2) '\'').all (· == '\'') = true := by simp
  have hlast : List.replicate (n + 2) '\'' ++ halve true "';".toList =
      List.replicate (n + 1) '\'' ++ (['\''] ++ [';']) := by
    rw [List.replicate_succ', List.append_assoc]
    rfl
  have hne : allBlank (List.replicate (n + 1) '\'') = false := rfl
  have hsolid : ∀ c ∈ List.replicate (n + 1) '\'', isBlank c = false := by
    intro c hc
    rw [List.eq_of_mem_replicate hc]
    decide
  rw [hall, hlast] at hread
  rw [hh.normalize_eq hquote hread (delimitedBody?_append hquote hne), folded_trimStart,
    folded_of_solid hsolid (by simp [List.getLast?_replicate])]

theorem IsPlainHeader.normalize_dollars (hne : allBlank b = false) (hb : stripComments b = b) :
    normalize type (h ++ spelled ['$', '$'] b) = halve false (folded b) := by
  have hdollars : ['$', '$'] ∈ delimiters := by simp [delimiters]
  obtain ⟨r, -, hread, hplain⟩ := hh.exists_comparable_dollars b
  rw [hb, hplain (stripComments_eq_self_iff.1 hb)] at hread
  have hbody := delimitedBody?_append hdollars ((allBlank_halve b).trans hne)
  rw [hh.normalize_eq hdollars hread hbody, folded_trimStart, folded_halve]

/-- A comment between dollar signs is lost, so less is left to compare than in the literal, or else
the delimiters are compared with it. -/
theorem IsPlainHeader.normalize_commented_ne (hb : EntersComment .plain b)
    (hdollars : ¬ ['$', '$'] <:+: b) :
    normalize type (h ++ spelled ['$', '$'] b) ≠ folded b := by
  have hmem : ['$', '$'] ∈ delimiters := by simp [delimiters]
  obtain ⟨r, hr, hread, -⟩ := hh.exists_comparable_dollars b
  cases hfound : find? type (h ++ (['$', '$'] ++ (halve false (stripComments b) ++ r))) with
  | some body =>
      obtain ⟨y, hy, hbody⟩ := hh.header.exists_of_find?_append hmem hfound
      have hnormal : normalize type (h ++ spelled ['$', '$'] b) = folded body := by
        simp only [normalize, hread, hfound, Option.getD_some]
        rfl
      have hle : solids body ≤ solids (stripComments b) :=
        (solids_le_of_suffix hr hy hbody).trans (solids_le_of_sublist (sublist_halve false _))
      have hlost : solids (stripComments b) + 2 ≤ solids b := solids_stripFrom_add_two rfl hb
      have hfolded := solids_folded body
      have hfolded' := solids_folded b
      intro heq
      rw [← hnormal, heq] at hfolded
      omega
  | none =>
      have hnormal : normalize type (h ++ spelled ['$', '$'] b) =
          folded (h ++ (['$', '$'] ++ (halve false (stripComments b) ++ r))) := by
        simp only [normalize, hread, hfound, Option.getD_none]
        rfl
      have hpair (t : List Char) : ['$', '$'] <:+: folded t ↔ ['$', '$'] <:+: t :=
        pair_infix_folded_iff (by decide) (by decide) (by decide) t
      intro heq
      refine hdollars ((hpair b).1 ?_)
      rw [← heq, hnormal, hpair]
      exact ⟨h, halve false (stripComments b) ++ r, List.append_assoc h _ _⟩

theorem IsPlainHeader.normalize_quote_ne :
    normalize type (h ++ spelled ['\''] (doubled ['\''])) ≠ ['\''] := by
  have hquote : ['\''] ∈ delimiters := by simp [delimiters]
  have hread : comparable (h ++ spelled ['\''] (doubled ['\''])) = h ++ (['\''] ++ "';".toList) :=
    hh.comparable_literal rfl
  have hnone : find? type (h ++ (['\''] ++ "';".toList)) = none := by
    refine Option.eq_none_iff_forall_not_mem.2 fun body hbody => ?_
    obtain ⟨y, hy, hbody⟩ := hh.header.exists_of_find?_append hquote hbody
    have hshort : ∀ y ∈ "';".toList.tails, delimitedBody? y = none := by decide
    rw [hshort y ((List.mem_tails _ _).2 hy)] at hbody
    cases hbody
  have hnormal : normalize type (h ++ spelled ['\''] (doubled ['\''])) =
      folded (h ++ (['\''] ++ "';".toList)) := by
    simp only [normalize, hread, hnone, Option.getD_none]
    rfl
  have hthree : solids (['\''] ++ "';".toList) = 3 := by decide
  have hone : solids ['\''] = 1 := by decide
  have hfolded := solids_folded (h ++ (['\''] ++ "';".toList))
  intro heq
  rw [← hnormal, heq, solids_append, hthree, hone] at hfolded
  omega

theorem IsPlainHeader.normalize_quotes_iff (n : Nat)
    (hb : stripComments (spelled ['\''] (doubled (List.replicate (n + 1) '\''))) =
      spelled ['\''] (doubled (List.replicate (n + 1) '\''))) :
    normalize type (h ++ spelled ['\''] (doubled (List.replicate (n + 1) '\''))) =
        normalize type (h ++ spelled ['$', '$'] (List.replicate (n + 1) '\'')) ↔ n = 1 ∨ n = 2 := by
  have hsolid : ∀ c ∈ List.replicate (n + 1) '\'', isBlank c = false := by
    intro c hc
    rw [List.eq_of_mem_replicate hc]
    decide
  have hhalf := halve_replicate (y := []) (by simp) (n + 1)
  rw [List.append_nil] at hhalf
  rw [hh.normalize_dollars rfl (stripComments_quotes (n + 1)),
    folded_of_solid hsolid (by simp [List.getLast?_replicate]), hhalf]
  cases n with
  | zero => exact iff_of_false hh.normalize_quote_ne (by omega)
  | succ n =>
      have hnil : halve false [] = [] := rfl
      rw [hh.normalize_quotes n hb, hnil, List.append_nil, List.replicate_inj]
      simp only [Nat.add_eq_zero_iff, or_true, and_true]
      omega

/-- The two spellings of a body are taken for the same exactly if it has no comment and no doubled
quote. Of bodies of quotes alone, two or three of them are taken for the same as well, and a single
one is not. -/
theorem normalize_spelled_iff (hne : allBlank b = false) (hdollars : ¬ ['$', '$'] <:+: b)
    (hb : stripComments (spelled ['\''] (doubled b)) = spelled ['\''] (doubled b)) :
    normalize type (h ++ spelled ['\''] (doubled b)) =
        normalize type (h ++ spelled ['$', '$'] b) ↔
      stripComments b = b ∧ (b = "''".toList ∨ b = "'''".toList ∨
        ¬ ['\'', '\''] <:+: b ∧ b ≠ ['\'']) := by
  cases hquotes : b.all (· == '\'') with
  | true =>
      have hreplicate : b = List.replicate b.length '\'' :=
        List.eq_replicate_iff.2 ⟨rfl, by simpa using hquotes⟩
      obtain ⟨n, hn⟩ : ∃ n, b.length = n + 1 := Nat.exists_eq_succ_of_ne_zero fun hzero => by
        rw [List.length_eq_zero_iff.1 hzero] at hne
        cases hne
      rw [hn] at hreplicate
      subst hreplicate
      have htwo : "''".toList = List.replicate 2 '\'' := rfl
      have hthree : "'''".toList = List.replicate 3 '\'' := rfl
      have hone : ['\''] = List.replicate 1 '\'' := rfl
      have hpair : ¬ (¬ ['\'', '\''] <:+: List.replicate (n + 1) '\'' ∧
          List.replicate (n + 1) '\'' ≠ ['\'']) := by
        rintro ⟨hnone, hother⟩
        cases n with
        | zero => exact hother rfl
        | succ n => exact hnone ⟨[], List.replicate n '\'', rfl⟩
      rw [hh.normalize_quotes_iff n hb, and_iff_right (stripComments_quotes (n + 1)), or_iff_left hpair,
        htwo, hthree, List.replicate_inj, List.replicate_inj]
      simp
  | false =>
      have hother {t : List Char} (ht : t.all (· == '\'') = true) : b ≠ t := by
        rintro rfl
        rw [hquotes] at ht
        cases ht
      rw [hh.normalize_literal hne hb hquotes, or_iff_right (hother rfl), or_iff_right (hother rfl),
        and_iff_left (hother rfl), stripComments_eq_self_iff]
      by_cases hcomment : EntersComment .plain b
      · exact iff_of_false (hh.normalize_commented_ne hcomment hdollars).symm fun hnone =>
          hnone.1 hcomment
      · have hpair : ['\'', '\''] <:+: folded b ↔ ['\'', '\''] <:+: b :=
          pair_infix_folded_iff (by decide) (by decide) (by decide) b
        rw [hh.normalize_dollars hne (stripComments_eq_self_iff.2 hcomment), eq_comm,
          halve_eq_self_iff, hpair, and_iff_right hcomment]

end Spellings

def functionHeader : List Char :=
  "CREATE OR REPLACE FUNCTION F() RETURNS VARCHAR AS ".toList

theorem isPlainHeader_functionHeader : IsPlainHeader .function functionHeader := by
  have hhead : IsRoutineHead "FUNCTION" "CREATE OR REPLACE FUNCTION F() RETURNS VARCHAR ".toList :=
    isRoutineHead_name "FUNCTION" ['F'] "() RETURNS VARCHAR ".toList (by simp)
      (by simp [isNameChar, isWord]) (by decide +kernel) (by decide +kernel)
  have hheader : IsRoutineHeader .function functionHeader :=
    .intro rfl hhead (by decide +kernel) (isSpaced_self "AS")
  have hdash : '-' ∉ functionHeader := by decide
  have hslash : '/' ∉ functionHeader := by decide
  have hquotes : functionHeader.all (!isQuote ·) = true := by decide
  exact ⟨hheader, stripComments_of_not_mem hdash hslash, by simpa using hquotes⟩

theorem normalize_spelled_iff_function :
    let same (b : List Char) :=
      normalize .function (functionHeader ++ spelled ['\''] (doubled b)) =
        normalize .function (functionHeader ++ spelled ['$', '$'] b)
    same "SELECT 'a  -- \\\\' || 'b'".toList ∧ ¬ same "SELECT ''".toList ∧
      ¬ same "SELECT 1 -- one\n".toList := by
  have hread {b : List Char} (hb : KeepsQuotes false b) (hne : allBlank b = false)
      (hdollars : ¬ ['$', '$'] <:+: b) :=
    normalize_spelled_iff isPlainHeader_functionHeader hne hdollars
      (stripComments_literal_spelled (keepsQuotes_false_iff.1 hb))
  refine ⟨?_, ?_, ?_⟩
  · exact (hread (by simp [KeepsQuotes]) (by decide) (by decide)).2 (by decide)
  · intro hsame
    have hall := (hread (by simp [KeepsQuotes]) (by decide) (by decide)).1 hsame
    exact absurd hall (by decide)
  · intro hsame
    have hall := (hread (by simp [KeepsQuotes]) (by decide) (by decide)).1 hsame
    exact absurd hall (by decide)

/-- An empty literal in a body is lost between dollar signs. -/
theorem not_normalize_spelled :
    ¬ ∀ (type : ObjectType) (h b : List Char), IsPlainHeader type h → allBlank b = false →
      ¬ ['$', '$'] <:+: b →
      normalize type (h ++ spelled ['\''] (doubled b)) =
        normalize type (h ++ spelled ['$', '$'] b) := by
  intro h
  have hsame := h .function functionHeader "SELECT ''".toList isPlainHeader_functionHeader rfl
    (by decide)
  exact absurd hsame (by decide +kernel)

end SchemaDeploy.Body
