import SchemaDeploy.Proofs.TrimmedText
import SchemaDeploy.Script.Body

namespace SchemaDeploy

namespace Text

section Squeeze

variable {b s t : List Char} {c : Char} {gap : Bool}

/-- Folds blanks into a space before the next word; `gap` says whether there are some already. -/
def squeeze : Bool → List Char → List Char
  | _, [] => []
  | gap, c :: t =>
    if isBlank c then squeeze true t
    else if gap then ' ' :: c :: squeeze false t
    else c :: squeeze false t

theorem squeeze_blank (hc : isBlank c = true) (gap : Bool) (t : List Char) :
    squeeze gap (c :: t) = squeeze true t := by
  rw [squeeze, if_pos hc]

theorem squeeze_cons (hc : isBlank c = false) (gap : Bool) (t : List Char) :
    squeeze gap (c :: t) = if gap then ' ' :: c :: squeeze false t else c :: squeeze false t := by
  rw [squeeze, if_neg (by simp [hc])]

theorem exists_splitWhere (p : Char → Bool) (t : List Char) : ∃ w ws, splitWhere p t = w :: ws := by
  cases t with
  | nil => exact ⟨[], [], rfl⟩
  | cons c t =>
      rw [splitWhere]
      split
      · exact ⟨[], _, rfl⟩
      · split
        · exact ⟨[c], [], rfl⟩
        · exact ⟨_, _, rfl⟩

def spacedWords (ws : List (List Char)) : List Char :=
  (ws.filter (· ≠ [])).flatMap (' ' :: ·)

theorem squeeze_eq {w : List Char} {ws : List (List Char)} (h : splitWhere isBlank t = w :: ws) :
    squeeze false t = w ++ spacedWords ws ∧ squeeze true t = spacedWords (w :: ws) := by
  induction t generalizing w ws with
  | nil =>
      cases h
      exact ⟨rfl, rfl⟩
  | cons c t ih =>
      obtain ⟨v, vs, hv⟩ := exists_splitWhere isBlank t
      obtain ⟨hfalse, htrue⟩ := ih hv
      rw [splitWhere, hv] at h
      split at h
      · next hc =>
        obtain ⟨rfl, rfl⟩ := List.cons.inj h
        rw [squeeze_blank hc, squeeze_blank hc, htrue]
        exact ⟨rfl, rfl⟩
      · next hc =>
        obtain ⟨rfl, rfl⟩ := List.cons.inj h
        rw [Bool.not_eq_true] at hc
        rw [squeeze_cons hc, squeeze_cons hc, hfalse]
        exact ⟨rfl, by simp [spacedWords]⟩

theorem intercalate_eq_tail (ws : List (List Char)) :
    [' '].intercalate ws = (ws.flatMap (' ' :: ·)).tail := by
  induction ws with
  | nil => rfl
  | cons w ws ih =>
      cases ws with
      | nil => simp
      | cons v ws =>
          rw [List.intercalate_cons_cons, ih]
          simp

theorem collapse_eq (t : List Char) : collapse t = (squeeze true t).tail := by
  obtain ⟨w, ws, h⟩ := exists_splitWhere isBlank t
  rw [(squeeze_eq h).2, collapse, words, h, intercalate_eq_tail]
  rfl

theorem head?_squeeze_true (t : List Char) : (squeeze true t).head?.all (· == ' ') = true := by
  induction t with
  | nil => rfl
  | cons c t ih =>
      cases hc : isBlank c with
      | true => rwa [squeeze_blank hc]
      | false =>
          rw [squeeze_cons hc]
          rfl

theorem exists_squeeze_true (t : List Char) :
    squeeze true t = [] ∨ ∃ u, squeeze true t = ' ' :: u := by
  have hhead := head?_squeeze_true t
  cases h : squeeze true t with
  | nil => exact .inl rfl
  | cons c u =>
      rw [h] at hhead
      exact .inr ⟨u, by rw [beq_iff_eq.1 hhead]⟩

theorem squeeze_append (hs : s ≠ []) (gap : Bool) (t : List Char) :
    squeeze gap (s ++ t) = squeeze gap s ++ squeeze (s.getLast?.any isBlank) t := by
  induction s generalizing gap with
  | nil => exact absurd rfl hs
  | cons c s ih =>
      cases s with
      | nil =>
          have hlast : [c].getLast?.any isBlank = isBlank c := rfl
          rw [List.singleton_append, hlast]
          cases hc : isBlank c with
          | true =>
              rw [squeeze_blank hc, squeeze_blank hc]
              rfl
          | false =>
              rw [squeeze_cons hc, squeeze_cons hc]
              cases gap <;> rfl
      | cons d s =>
          have hlast : (c :: d :: s).getLast? = (d :: s).getLast? := List.getLast?_cons_cons
          rw [hlast, List.cons_append]
          cases hc : isBlank c with
          | true => rw [squeeze_blank hc, squeeze_blank hc, ih (List.cons_ne_nil d s)]
          | false =>
              rw [squeeze_cons hc, squeeze_cons hc, ih (List.cons_ne_nil d s)]
              cases gap <;> rfl

theorem squeeze_true_of_not_blank (ht : allBlank t = false) :
    squeeze true t = ' ' :: collapse t := by
  rw [collapse_eq]
  induction t with
  | nil => cases ht
  | cons c t ih =>
      cases hc : isBlank c with
      | true =>
          rw [squeeze_blank hc]
          exact ih (by simpa [allBlank, hc] using ht)
      | false =>
          rw [squeeze_cons hc]
          rfl

theorem squeeze_trimStart (t : List Char) : squeeze true (trimStart t) = squeeze true t := by
  induction t with
  | nil => rfl
  | cons c t ih =>
      cases hc : isBlank c with
      | true => rwa [squeeze_blank hc, trimStart, List.dropWhile_cons_of_pos hc]
      | false => rw [trimStart_cons hc]

theorem collapse_append (hs : s.getLast?.any isBlank = true) (ht : allBlank t = false) :
    collapse (s ++ t) = (squeeze true s ++ [' ']).tail ++ collapse t := by
  have hne : s ≠ [] := by
    rintro rfl
    cases hs
  rw [collapse_eq (s ++ t), squeeze_append hne, hs, squeeze_true_of_not_blank ht]
  cases squeeze true s with
  | nil => rfl
  | cons c u => simp

theorem getLast?_squeeze (gap : Bool) (t : List Char) :
    (squeeze gap t).getLast?.all (!isBlank ·) = true := by
  induction t generalizing gap with
  | nil => rfl
  | cons c t ih =>
      cases hc : isBlank c with
      | true =>
          rw [squeeze_blank hc]
          exact ih true
      | false =>
          have hlast : (c :: squeeze false t).getLast?.all (!isBlank ·) = true := by
            have ih := ih false
            rw [List.getLast?_cons]
            cases h : (squeeze false t).getLast? with
            | none => simp [hc]
            | some d =>
                rw [h] at ih
                exact ih
          rw [squeeze_cons hc]
          cases gap with
          | false => exact hlast
          | true =>
              rw [if_pos rfl, List.getLast?_cons_cons]
              exact hlast

end Squeeze

section Quotes

variable {c : Char} {s t x y : List Char} {odd gap : Bool}

/-- Makes doubled quotes single; `odd` says whether the first of two has just been kept. -/
def halve : Bool → List Char → List Char
  | _, [] => []
  | odd, c :: t =>
    if c = '\'' then if odd then halve false t else c :: halve true t
    else c :: halve false t

theorem halve_first (t : List Char) : halve false ('\'' :: t) = '\'' :: halve true t :=
  rfl

theorem halve_second (t : List Char) : halve true ('\'' :: t) = halve false t :=
  rfl

theorem halve_cons (hc : c ≠ '\'') (odd : Bool) (t : List Char) :
    halve odd (c :: t) = c :: halve false t := by
  rw [halve, if_neg hc]

theorem halve_of_head (ht : t.head? ≠ some '\'') (odd : Bool) : halve odd t = halve false t := by
  cases t with
  | nil => rfl
  | cons c t =>
      have hc : c ≠ '\'' := fun h => ht (congrArg some h)
      rw [halve_cons hc, halve_cons hc]

theorem replacePair_quotes (t : List Char) : replacePair '\'' '\'' ['\''] t = halve false t := by
  fun_induction replacePair '\'' '\'' ['\''] t with
  | case1 => rfl
  | case2 c => by_cases hc : c = '\'' <;> simp [halve, hc]
  | case3 c d t h ih =>
      obtain ⟨rfl, rfl⟩ := h
      rw [ih]
      rfl
  | case4 c d t h ih =>
      rw [ih]
      by_cases hc : c = '\''
      · subst hc
        have hd : (d :: t).head? ≠ some '\'' := fun hd => h ⟨rfl, Option.some.inj hd⟩
        rw [halve_first, halve_of_head hd true]
      · rw [halve_cons hc]

theorem halve_append (ht : t.head? ≠ some '\'') (odd : Bool) (s : List Char) :
    halve odd (s ++ t) = halve odd s ++ halve false t := by
  induction s generalizing odd with
  | nil => exact halve_of_head ht odd
  | cons c s ih =>
      rw [List.cons_append, halve, halve, ih, ih]
      split
      · split <;> rfl
      · rfl

theorem halve_append_cons (hc : c ≠ '\'') (s t : List Char) :
    halve false (s ++ c :: t) = halve false (s ++ [c]) ++ halve false t := by
  have hhead (u : List Char) : (c :: u).head? ≠ some '\'' := fun h => hc (Option.some.inj h)
  rw [halve_append (hhead t), halve_append (hhead []), halve_cons hc, halve_cons hc,
    List.append_assoc]
  rfl

theorem halve_of_not_mem (ht : '\'' ∉ t) (odd : Bool) : halve odd t = t := by
  induction t generalizing odd with
  | nil => rfl
  | cons c t ih =>
      rw [List.mem_cons, not_or] at ht
      rw [halve_cons (Ne.symm ht.1), ih ht.2]

theorem halve_append_of_not_mem (hx : '\'' ∉ x) (t : List Char) :
    halve false (x ++ t) = x ++ halve false t := by
  induction x with
  | nil => rfl
  | cons c x ih =>
      rw [List.mem_cons, not_or] at hx
      rw [List.cons_append, halve_cons (Ne.symm hx.1), ih hx.2, List.cons_append]

theorem allBlank_halve (t : List Char) : allBlank (halve false t) = allBlank t := by
  have hquote : isBlank '\'' = false := by decide
  rw [← replacePair_quotes]
  fun_induction replacePair '\'' '\'' ['\''] t with
  | case1 => rfl
  | case2 c => rfl
  | case3 c d t h ih =>
      obtain ⟨rfl, rfl⟩ := h
      simp [allBlank, hquote]
  | case4 c d t h ih => exact congrArg (isBlank c && ·) ih

theorem getLast?_halve (t : List Char) : (halve false t).getLast? = t.getLast? := by
  rw [← replacePair_quotes]
  fun_induction replacePair '\'' '\'' ['\''] t with
  | case1 => rfl
  | case2 c => rfl
  | case3 c d t h ih =>
      obtain ⟨rfl, rfl⟩ := h
      simp [List.getLast?_cons, ih]
  | case4 c d t h ih => rw [List.getLast?_cons, ih, ← List.getLast?_cons]

theorem squeeze_halve (h : odd = true → gap = false) (t : List Char) :
    squeeze gap (halve odd t) = halve odd (squeeze gap t) := by
  have hquote : isBlank '\'' = false := by decide
  induction t generalizing odd gap with
  | nil => rfl
  | cons c t ih =>
      by_cases hc : c = '\''
      · subst hc
        cases odd with
        | true =>
            obtain rfl := h rfl
            rw [halve_second, squeeze_cons hquote, if_neg Bool.false_ne_true, halve_second]
            exact ih (by simp)
        | false =>
            have hrest : squeeze false (halve true t) = halve true (squeeze false t) := ih (by simp)
            rw [halve_first, squeeze_cons hquote, squeeze_cons hquote, hrest]
            cases gap <;> rfl
      · rw [halve_cons hc]
        cases hblank : isBlank c with
        | true =>
            have hspace : (squeeze true t).head? ≠ some '\'' := by
              rcases exists_squeeze_true t with h | ⟨u, h⟩ <;> rw [h] <;> simp
            rw [squeeze_blank hblank, squeeze_blank hblank, halve_of_head hspace]
            exact ih (by simp)
        | false =>
            have hrest : squeeze false (halve false t) = halve false (squeeze false t) := ih (by simp)
            rw [squeeze_cons hblank, squeeze_cons hblank, hrest]
            cases gap with
            | true => rw [if_pos rfl, if_pos rfl, halve_cons (by decide), halve_cons hc]
            | false => rw [if_neg Bool.false_ne_true, if_neg Bool.false_ne_true, halve_cons hc]

theorem collapse_halve (t : List Char) : collapse (halve false t) = halve false (collapse t) := by
  rw [collapse_eq, collapse_eq, squeeze_halve (by simp)]
  rcases exists_squeeze_true t with h | ⟨u, h⟩ <;> rw [h] <;> rfl

theorem collapse_ne_nil (ht : allBlank t = false) : collapse t ≠ [] := by
  intro h
  have hlast := getLast?_squeeze true t
  rw [squeeze_true_of_not_blank ht, h] at hlast
  exact absurd hlast (by decide)

theorem trimEnd_collapse (t : List Char) : trimEnd (collapse t) = collapse t := by
  have hlast := getLast?_squeeze true t
  rw [trimEnd_eq_self_iff, collapse_eq]
  cases h : squeeze true t with
  | nil => rfl
  | cons c u =>
      cases u with
      | nil => rfl
      | cons d u => rwa [h, List.getLast?_cons_cons] at hlast

theorem trimEnd_append_trimEnd (s t : List Char) : trimEnd (s ++ trimEnd t) = trimEnd (s ++ t) := by
  obtain ⟨e, ht, he⟩ := exists_dropEndWhile isBlank t
  have hrest : s ++ t = s ++ trimEnd t ++ e := by
    rw [List.append_assoc]
    exact congrArg (s ++ ·) ht
  rw [hrest, trimEnd_append_blank (List.all_eq_true.2 he)]

theorem trimEnd_append (hne : t ≠ []) (ht : trimEnd t = t) (s : List Char) :
    trimEnd (s ++ t) = s ++ t := by
  obtain ⟨u, c, rfl⟩ := (List.eq_nil_or_concat' t).resolve_left hne
  rw [trimEnd_eq_self_iff, List.getLast?_concat] at ht
  rw [trimEnd_eq_self_iff, ← List.append_assoc, List.getLast?_concat]
  exact ht

theorem trimEnd_append_inj (hs : trimEnd s = s) (ht : trimEnd t = t)
    (h : trimEnd (x ++ s) = trimEnd (x ++ t)) : s = t := by
  have hlonger {u : List Char} (hu : u ≠ []) : trimEnd x ≠ x ++ u := by
    intro h
    obtain ⟨e, hx, -⟩ := exists_dropEndWhile isBlank x
    have hlength := congrArg List.length hx
    have hlength' := congrArg List.length h
    have hpos := List.length_pos_iff.2 hu
    rw [trimEnd] at hlength'
    simp only [List.length_append] at hlength hlength'
    omega
  by_cases hsnil : s = [] <;> by_cases htnil : t = []
  · rw [hsnil, htnil]
  · rw [hsnil, List.append_nil, trimEnd_append htnil ht] at h
    exact absurd h (hlonger htnil)
  · rw [htnil, List.append_nil, trimEnd_append hsnil hs] at h
    exact absurd h.symm (hlonger hsnil)
  · rw [trimEnd_append hsnil hs, trimEnd_append htnil ht] at h
    exact List.append_cancel_left h

theorem trimEnd_halve (t : List Char) : trimEnd (halve false t) = halve false (trimEnd t) := by
  obtain ⟨e, ht, he⟩ := exists_dropEndWhile isBlank t
  have hquote : '\'' ∉ e := fun h => absurd (he _ h) (by decide)
  have hhead : e.head? ≠ some '\'' := fun h => hquote (List.mem_of_head? h)
  have htrim : trimEnd (trimEnd t) = trimEnd t := List.rdropWhile_idempotent isBlank t
  have hhalve : trimEnd (halve false (trimEnd t)) = halve false (trimEnd t) := by
    rwa [trimEnd_eq_self_iff, getLast?_halve, ← trimEnd_eq_self_iff]
  conv_lhs => rw [ht]
  rw [halve_append hhead, halve_of_not_mem hquote, trimEnd_append_blank (List.all_eq_true.2 he)]
  exact hhalve

def quoteRunsFrom : Nat → List Char → List Nat
  | n, [] => if n = 0 then [] else [n]
  | n, c :: t =>
    if c = '\'' then quoteRunsFrom (n + 1) t
    else (if n = 0 then [] else [n]) ++ quoteRunsFrom 0 t

def quoteRuns (t : List Char) : List Nat :=
  quoteRunsFrom 0 t

theorem quoteRunsFrom_of_head (ht : t.head? ≠ some '\'') (n : Nat) :
    quoteRunsFrom n t = (if n = 0 then [] else [n]) ++ quoteRuns t := by
  cases t with
  | nil => simp [quoteRuns, quoteRunsFrom]
  | cons c t =>
      have hc : c ≠ '\'' := fun h => ht (congrArg some h)
      simp [quoteRuns, quoteRunsFrom, hc]

theorem quoteRunsFrom_append (ht : '\'' ∉ t) (n : Nat) (s : List Char) :
    quoteRunsFrom n (s ++ t) = quoteRunsFrom n s := by
  induction s generalizing n with
  | nil =>
      induction t generalizing n with
      | nil => rfl
      | cons c t ih =>
          rw [List.mem_cons, not_or] at ht
          have hrest : quoteRunsFrom 0 t = [] := ih ht.2 0
          simp [quoteRunsFrom, Ne.symm ht.1, hrest]
  | cons c s ih => rw [List.cons_append, quoteRunsFrom, quoteRunsFrom, ih, ih]

theorem quoteRunsFrom_squeeze {n : Nat} (h : 0 < n → gap = false) (t : List Char) :
    quoteRunsFrom n (squeeze gap t) = quoteRunsFrom n t := by
  have hquote : isBlank '\'' = false := by decide
  have hspace : ' ' ≠ '\'' := by decide
  induction t generalizing n gap with
  | nil => rfl
  | cons c t ih =>
      cases hblank : isBlank c with
      | true =>
          have hc : c ≠ '\'' := by
            rintro rfl
            cases hblank
          have hhead : (squeeze true t).head? ≠ some '\'' := by
            rcases exists_squeeze_true t with h | ⟨u, h⟩ <;> rw [h] <;> simp
          have hrest : quoteRuns (squeeze true t) = quoteRuns t := ih (n := 0) (by simp)
          rw [squeeze_blank hblank, quoteRunsFrom_of_head hhead, hrest,
            quoteRunsFrom_of_head (by simpa using hc), quoteRuns, quoteRuns, quoteRunsFrom, if_neg hc]
          rfl
      | false =>
          have hrest (m : Nat) : quoteRunsFrom m (squeeze false t) = quoteRunsFrom m t := ih (by simp)
          cases gap with
          | false => simp only [squeeze_cons hblank, Bool.false_eq_true, if_false, quoteRunsFrom, hrest]
          | true =>
              have hn : n = 0 := by
                by_contra hn
                cases h (Nat.pos_of_ne_zero hn)
              subst hn
              simp only [squeeze_cons hblank, if_true, quoteRunsFrom, hspace, if_false, List.nil_append,
                hrest]

theorem quoteRuns_collapse (t : List Char) : quoteRuns (collapse t) = quoteRuns t := by
  have hsqueeze : quoteRunsFrom 0 (squeeze true t) = quoteRunsFrom 0 t :=
    quoteRunsFrom_squeeze (by simp) t
  rw [collapse_eq, quoteRuns, quoteRuns, ← hsqueeze]
  rcases exists_squeeze_true t with h | ⟨u, h⟩ <;> rw [h] <;> rfl

theorem exists_quotes (t : List Char) :
    ∃ n u, t = List.replicate n '\'' ++ u ∧ u.head? ≠ some '\'' := by
  induction t with
  | nil => exact ⟨0, [], rfl, by simp⟩
  | cons c t ih =>
      by_cases hc : c = '\''
      · obtain ⟨n, u, rfl, hu⟩ := ih
        exact ⟨n + 1, u, by rw [hc, List.replicate_succ, List.cons_append], hu⟩
      · exact ⟨0, c :: t, rfl, by simpa using hc⟩

theorem halve_replicate (hy : y.head? ≠ some '\'') (n : Nat) :
    halve false (List.replicate n '\'' ++ y) =
      List.replicate ((n + 1) / 2) '\'' ++ halve false y := by
  induction n using Nat.twoStepInduction with
  | zero => rfl
  | one => exact congrArg ('\'' :: ·) (halve_of_head hy true)
  | more n ih _ =>
      have hhalf : (n + 2 + 1) / 2 = (n + 1) / 2 + 1 := by omega
      rw [List.replicate_succ, List.replicate_succ, List.cons_append, List.cons_append, halve_first,
        halve_second, ih, hhalf, List.replicate_succ, List.cons_append]

theorem quoteRuns_replicate (hy : y.head? ≠ some '\'') (n : Nat) :
    quoteRuns (List.replicate n '\'' ++ y) = (if n = 0 then [] else [n]) ++ quoteRuns y := by
  have hfrom (m : Nat) : quoteRunsFrom m (List.replicate n '\'' ++ y) = quoteRunsFrom (m + n) y := by
    induction n generalizing m with
    | zero => rfl
    | succ n ih =>
        rw [List.replicate_succ, List.cons_append, quoteRunsFrom, if_pos rfl, ih, Nat.add_assoc,
          Nat.add_comm 1 n]
  rw [quoteRuns, hfrom, Nat.zero_add, quoteRunsFrom_of_head hy]

theorem replicate_append_inj {c : Char} {m n : Nat} (hx : x.head? ≠ some c) (hy : y.head? ≠ some c)
    (h : List.replicate m c ++ x = List.replicate n c ++ y) : m = n ∧ x = y := by
  induction m generalizing n with
  | zero =>
      cases n with
      | zero => exact ⟨rfl, h⟩
      | succ n => exact absurd (by rw [← List.nil_append x]; exact congrArg List.head? h) hx
  | succ m ih =>
      cases n with
      | zero => exact absurd (by rw [← List.nil_append y]; exact congrArg List.head? h.symm) hy
      | succ n =>
          obtain ⟨rfl, rfl⟩ := ih (List.cons.inj h).2
          exact ⟨rfl, rfl⟩

theorem head?_halve (t : List Char) : (halve false t).head? = t.head? := by
  cases t with
  | nil => rfl
  | cons c t => by_cases hc : c = '\'' <;> simp [halve, hc]

theorem quoteRuns_cons (hc : c ≠ '\'') (t : List Char) : quoteRuns (c :: t) = quoteRuns t := by
  simp [quoteRuns, quoteRunsFrom, hc]

/-- The runs of quotes of two texts are odd and even alike, as far as there are two to compare. -/
def SameParities (x y : List Char) : Prop :=
  ∀ p ∈ (quoteRuns x).zip (quoteRuns y), p.1 % 2 = p.2 % 2

instance (x y : List Char) : Decidable (SameParities x y) :=
  inferInstanceAs (Decidable (∀ p ∈ _, _))

theorem eq_of_halve_eq (h : halve false x = halve false y) (hparity : SameParities x y) :
    x = y := by
  induction hlength : x.length using Nat.strongRecOn generalizing x y with
  | ind k ih =>
  subst hlength
  obtain ⟨n, u, rfl, hu⟩ := exists_quotes x
  obtain ⟨m, w, rfl, hw⟩ := exists_quotes y
  rw [halve_replicate hu, halve_replicate hw] at h
  obtain ⟨hcount, hrest⟩ :=
    replicate_append_inj (by rwa [head?_halve]) (by rwa [head?_halve]) h
  rw [SameParities, quoteRuns_replicate hu, quoteRuns_replicate hw] at hparity
  by_cases hn : n = 0
  · obtain rfl : m = 0 := by omega
    subst hn
    cases u with
    | nil =>
        have hnil : w.head? = none := by
          rw [← head?_halve, ← hrest]
          rfl
        rw [List.head?_eq_none_iff.1 hnil]
    | cons c u =>
        have hc : c ≠ '\'' := fun hc => hu (congrArg some hc)
        have hhead : w.head? = some c := by
          rw [← head?_halve, ← hrest, head?_halve]
          rfl
        obtain ⟨w, rfl⟩ := List.head?_eq_some_iff.1 hhead
        rw [halve_cons hc, halve_cons hc] at hrest
        simp only [if_true, List.nil_append, quoteRuns_cons hc] at hparity
        rw [ih u.length (by simp) (List.cons.inj hrest).2 hparity rfl]
  · have hm : m ≠ 0 := by omega
    rw [if_neg hn, if_neg hm, List.singleton_append, List.singleton_append, List.zip_cons_cons,
      List.forall_mem_cons] at hparity
    obtain ⟨hfirst, hparity⟩ := hparity
    have hsame : n = m := by
      dsimp only at hfirst
      omega
    have hshorter : u.length < (List.replicate n '\'' ++ u).length := by
      rw [List.length_append, List.length_replicate]
      omega
    rw [hsame, ih u.length hshorter hrest hparity rfl]

end Quotes

end Text

namespace Body

open Text

variable {t : List Char}

theorem exists_dropTerminator (t : List Char) : ∃ e, t = dropTerminator t ++ e ∧ '\'' ∉ e := by
  rw [dropTerminator]
  split
  · next h =>
    obtain ⟨u, rfl⟩ := List.getLast?_eq_some_iff.1 h
    obtain ⟨e, hu, he⟩ := exists_dropEndWhile isBlank u
    refine ⟨e ++ [';'], ?_, ?_⟩
    · rw [List.dropLast_concat, ← List.append_assoc]
      exact congrArg (· ++ [';']) hu
    · intro hquote
      rcases List.mem_append.1 hquote with h | h
      · exact absurd (he _ h) (by decide)
      · exact absurd h (by decide)
  · exact ⟨[], (List.append_nil t).symm, List.not_mem_nil⟩

theorem trimEnd_dropTerminator (ht : trimEnd t = t) : trimEnd (dropTerminator t) = dropTerminator t := by
  rw [dropTerminator]
  split
  · exact List.rdropWhile_idempotent isBlank _
  · exact ht

theorem dropTerminator_append (hne : t ≠ []) (ht : trimEnd t = t) (s : List Char) :
    dropTerminator (s ++ t) = trimEnd (s ++ dropTerminator t) := by
  have hlast : (s ++ t).getLast? = t.getLast? := List.getLast?_append_of_ne_nil s hne
  rw [dropTerminator, dropTerminator, hlast]
  split
  · rw [trimEnd_append_trimEnd, List.dropLast_append_of_ne_nil hne]
  · rw [trimEnd_append hne ht]

theorem dropTerminator_halve (t : List Char) :
    dropTerminator (halve false t) = halve false (dropTerminator t) := by
  rw [dropTerminator, dropTerminator, getLast?_halve]
  split
  · next h =>
    obtain ⟨u, rfl⟩ := List.getLast?_eq_some_iff.1 h
    have hend : halve false (u ++ [';']) = halve false u ++ [';'] := halve_append (by decide) false u
    rw [hend, List.dropLast_concat, List.dropLast_concat, trimEnd_halve]
  · rfl

end Body

end SchemaDeploy
