import SchemaDeploy.Sql.Literal
import Mathlib.Data.List.Basic

namespace SchemaDeploy.Sql

open Text

variable {s : ScanState} {a x : List Char}

section Comments

def opensComment (c d : Char) : Bool :=
  (c == '-' && d == '-') || (c == '/' && (d == '/' || d == '*'))

/-- The inside of a block comment. -/
def IsCommentBody (x : List Char) : Prop :=
  ¬ ['*', '/'] <:+: x

instance (x : List Char) : Decidable (IsCommentBody x) :=
  inferInstanceAs (Decidable (¬ _))

def blockComment (x : List Char) : List Char :=
  '/' :: '*' :: (x ++ ['*', '/'])

/-- Whether a text leaves no comment and no quote open. -/
def EndsPlain (a : List Char) : Prop :=
  scan ScanState.step .plain a = .plain

instance (a : List Char) : Decidable (EndsPlain a) :=
  inferInstanceAs (Decidable (_ = _))

theorem ScanState.step_eq (s : ScanState) (c : Char) (next : Option Char) : s.step c next =
    match s with
    | .plain =>
      if c = '-' ∧ next = some '-' ∨ c = '/' ∧ next = some '/' then (.lineComment, true)
      else if c = '/' ∧ next = some '*' then (.blockComment, true)
      else if c = '\'' then (.singleQuoted, false)
      else if c = '"' then (.doubleQuoted, false)
      else (.plain, false)
    | .lineComment => if c = '\n' then (.plain, false) else (.lineComment, false)
    | .blockComment => if c = '*' ∧ next = some '/' then (.plain, true) else (.blockComment, false)
    | .singleQuoted =>
      if c = '\\' then (.singleQuoted, true)
      else if c = '\'' then (.plain, false)
      else (.singleQuoted, false)
    | .doubleQuoted => if c = '"' then (.plain, false) else (.doubleQuoted, false) := by
  cases s <;> unfold ScanState.step <;> split <;> grind

def stripFrom (s : ScanState) (t : List Char) : List Char :=
  (chunks ScanState.step s t).flatMap Chunk.uncommented

theorem stripFrom_cons {s' : ScanState} {c : Char} {t : List Char}
    (h : s.step c t.head? = (s', false)) :
    stripFrom s (c :: t) = Chunk.uncommented ⟨s, s', [c]⟩ ++ stripFrom s' t := by
  cases t with
  | nil => simp_all [stripFrom, chunks]
  | cons d t =>
      rw [List.head?_cons] at h
      simp only [stripFrom, chunks, h, List.flatMap_cons]

theorem stripFrom_cons_cons {s' : ScanState} {c d : Char} (h : s.step c (some d) = (s', true))
    (t : List Char) :
    stripFrom s (c :: d :: t) = Chunk.uncommented ⟨s, s', [c, d]⟩ ++ stripFrom s' t := by
  simp only [stripFrom, chunks, h, List.flatMap_cons]

theorem step_some_of_none {c d : Char} (h : (s.step c none).1 = .plain)
    (hcd : opensComment c d = false) : s.step c (some d) = (.plain, false) := by
  rw [ScanState.step_eq] at h ⊢
  cases s <;> grind [opensComment]

/-- The chunks of a text are those of its two parts, if the last character before the cut is read in the
same way whether the second part is in view or not. -/
theorem chunks_append_of_scan {σ : Type} {step : σ → Char → Option Char → σ × Bool} {s e : σ}
    {t : List Char} (h : scan step s a = e)
    (hcut : ∀ s c, a.getLast? = some c → (step s c none).1 = e →
      ∀ d ∈ t.head?, step s c (some d) = (e, false)) :
    chunks step s (a ++ t) = chunks step s a ++ chunks step e t := by
  fun_induction scan step s a with
  | case1 s =>
      rw [h]
      rfl
  | case2 s c =>
      cases t with
      | nil => simp [chunks]
      | cons d t =>
          have hstep := hcut s c rfl h d rfl
          simp only [List.singleton_append, chunks, hstep, h]
  | case3 s c d a s' hstep ih =>
      have ih := ih h fun r e he hr f hf => by
        refine hcut r e ?_ hr f hf
        cases a with
        | nil => cases he
        | cons g a => rwa [List.getLast?_cons_cons, List.getLast?_cons_cons]
      simp only [List.cons_append, chunks, hstep, ih]
  | case4 s c d a s' hstep ih =>
      have ih := ih h fun r e he hr f hf => hcut r e (by rwa [List.getLast?_cons_cons]) hr f hf
      rw [List.cons_append] at ih
      simp only [List.cons_append, chunks, hstep, ih]

theorem chunks_append {t : List Char} (h : scan ScanState.step s a = .plain)
    (hcut : ∀ c ∈ a.getLast?, ∀ d ∈ t.head?, opensComment c d = false) :
    chunks ScanState.step s (a ++ t) = chunks ScanState.step s a ++ chunks ScanState.step .plain t :=
  chunks_append_of_scan h fun _ c hc hplain d hd => step_some_of_none hplain (hcut c hc d hd)

theorem stripComments_append_of_plain {t : List Char} (h : EndsPlain a)
    (hcut : ∀ c ∈ a.getLast?, ∀ d ∈ t.head?, opensComment c d = false) :
    stripComments (a ++ t) = stripComments a ++ stripComments t := by
  rw [stripComments, chunks_append h hcut, List.flatMap_append]
  rfl

theorem eq_slash_of_step {c d : Char} (h : s.step c (some d) = (.plain, true)) : d = '/' := by
  rw [ScanState.step_eq] at h
  cases s <;> grind

theorem getLast?_stripFrom {c : Char} (h : scan ScanState.step s a = .plain)
    (ha : a.getLast? = some c) (hc : c ≠ '/') : (stripFrom s a).getLast? = some c := by
  fun_induction scan ScanState.step s a with
  | case1 s => cases ha
  | case2 s d =>
      obtain rfl : d = c := Option.some.inj ha
      have hkept : Chunk.uncommented ⟨s, .plain, [d]⟩ = [d] := by
        rw [ScanState.step_eq] at h
        cases s <;> grind [Chunk.uncommented, ScanState.isComment]
      simp only [stripFrom, chunks, h, List.flatMap_cons, List.flatMap_nil, hkept]
      rfl
  | case3 s d e a s' hstep ih =>
      cases a with
      | nil =>
          obtain rfl : e = c := Option.some.inj ha
          have hend : s' = .plain := h
          exact absurd (eq_slash_of_step (hend ▸ hstep)) hc
      | cons f a =>
          rw [List.getLast?_cons_cons, List.getLast?_cons_cons] at ha
          rw [stripFrom_cons_cons hstep, List.getLast?_append, ih h ha, Option.some_or]
  | case4 s d e a s' hstep ih =>
      rw [List.getLast?_cons_cons] at ha
      rw [stripFrom_cons hstep, List.getLast?_append, ih h ha, Option.some_or]

theorem getLast?_stripComments {c : Char} (h : EndsPlain a) (ha : a.getLast? = some c)
    (hc : c ≠ '/') : (stripComments a).getLast? = some c :=
  getLast?_stripFrom h ha hc

theorem isCommentBody_cons {c : Char} (h : IsCommentBody (c :: x)) :
    IsCommentBody x ∧ (c = '*' → x.head? ≠ some '/') := by
  refine ⟨fun hx => h (hx.trans (List.suffix_cons c x).isInfix), ?_⟩
  rintro rfl hx
  obtain ⟨x, rfl⟩ := List.head?_eq_some_iff.1 hx
  exact h ⟨[], x, rfl⟩

theorem step_blockComment {c : Char} {next : Option Char} (h : ¬ (c = '*' ∧ next = some '/')) :
    ScanState.step .blockComment c next = (.blockComment, false) := by
  unfold ScanState.step
  split <;> simp_all

theorem stripFrom_blockComment (hx : IsCommentBody x) (t : List Char) :
    stripFrom .blockComment (x ++ '*' :: '/' :: t) = stripComments t := by
  induction x with
  | nil => rfl
  | cons c x ih =>
      obtain ⟨hrest, hfirst⟩ := isCommentBody_cons hx
      have hopen : ¬ (c = '*' ∧ (x ++ '*' :: '/' :: t).head? = some '/') := by
        rintro ⟨rfl, hd⟩
        cases x with
        | nil => cases hd
        | cons e x => exact hfirst rfl hd
      rw [List.cons_append, stripFrom_cons (step_blockComment hopen), ih hrest]
      rfl

theorem stripComments_blockComment (h : EndsPlain a) (hslash : a.getLast? ≠ some '/')
    (hx : IsCommentBody x) (t : List Char) :
    stripComments (a ++ blockComment x ++ t) = stripComments a ++ stripComments t := by
  have hcut : ∀ c ∈ a.getLast?, ∀ d ∈ (blockComment x ++ t).head?, opensComment c d = false := by
    intro c hc d hd
    cases hd
    have hc' : c ≠ '/' := by
      rintro rfl
      exact hslash hc
    simp [opensComment, hc']
  have hcomment : stripComments (blockComment x ++ t) = stripComments t := by
    have hopen : blockComment x ++ t = '/' :: '*' :: (x ++ '*' :: '/' :: t) := by
      simp [blockComment]
    rw [hopen, ← stripFrom_blockComment hx t]
    rfl
  rw [List.append_assoc, stripComments_append_of_plain h hcut, hcomment]

theorem step_singleQuoted {c : Char} (h : c ≠ '\'' ∧ c ≠ '\\') (next : Option Char) :
    ScanState.step .singleQuoted c next = (.singleQuoted, false) := by
  unfold ScanState.step
  split <;> simp_all

theorem stripFrom_singleQuoted (hx : ∀ c ∈ x, c ≠ '\'' ∧ c ≠ '\\') (t : List Char) :
    stripFrom .singleQuoted (x ++ '\'' :: t) = x ++ '\'' :: stripComments t := by
  induction x with
  | nil => cases t <;> rfl
  | cons c x ih =>
      obtain ⟨hc, hrest⟩ := List.forall_mem_cons.1 hx
      rw [List.cons_append, stripFrom_cons (step_singleQuoted hc _), ih hrest]
      rfl

theorem stripComments_literal (h : EndsPlain a) (hx : ∀ c ∈ x, c ≠ '\'' ∧ c ≠ '\\')
    (t : List Char) : stripComments (a ++ '\'' :: (x ++ '\'' :: t)) =
      stripComments a ++ '\'' :: (x ++ '\'' :: stripComments t) := by
  have hcut : ∀ c ∈ a.getLast?, ∀ d ∈ ('\'' :: (x ++ '\'' :: t)).head?,
      opensComment c d = false := by
    intro c _ d hd
    cases hd
    simp [opensComment]
  have hliteral : stripComments ('\'' :: (x ++ '\'' :: t)) =
      '\'' :: (x ++ '\'' :: stripComments t) := by
    rw [← stripFrom_singleQuoted hx t]
    cases x <;> rfl
  rw [stripComments_append_of_plain h hcut, hliteral]

theorem stripComments_space (h : EndsPlain a) (t : List Char) :
    stripComments (a ++ ' ' :: t) = stripComments a ++ ' ' :: stripComments t := by
  have hcut : ∀ c ∈ a.getLast?, ∀ d ∈ (' ' :: t).head?, opensComment c d = false := by
    intro c _ d hd
    cases hd
    simp [opensComment]
  have hspace : stripComments (' ' :: t) = ' ' :: stripComments t := by
    cases t <;> rfl
  rw [stripComments_append_of_plain h hcut, hspace]

theorem step_lineComment {c : Char} (h : c ≠ '\n') (next : Option Char) :
    ScanState.step .lineComment c next = (.lineComment, false) := by
  simp [ScanState.step_eq, h]

theorem stripFrom_lineComment (hx : '\n' ∉ x) (t : List Char) :
    stripFrom .lineComment (x ++ '\n' :: t) = '\n' :: stripComments t := by
  induction x with
  | nil => cases t <;> rfl
  | cons c x ih =>
      obtain ⟨hc, hx⟩ := not_or.1 (List.mem_cons.not.1 hx)
      rw [List.cons_append, stripFrom_cons (step_lineComment (Ne.symm hc) _), ih hx]
      rfl

end Comments

section Quotes

/-- The states of a text without comments; after a backslash any character belongs to a literal. -/
inductive QuoteState where
  | outside
  | literal
  | escaped
  | quoted
  deriving DecidableEq

def QuoteState.step (q : QuoteState) (c : Char) : QuoteState :=
  match q with
  | .outside => if c = '\'' then .literal else if c = '"' then .quoted else .outside
  | .literal => if c = '\\' then .escaped else if c = '\'' then .outside else .literal
  | .escaped => .literal
  | .quoted => if c = '"' then .outside else .quoted

/-- Whether a text without comments closes what it opens, when it starts in some state. -/
def ClosesFrom (q : QuoteState) (t : List Char) : Prop :=
  t.foldl QuoteState.step q = .outside

def ScanState.quotes : ScanState → QuoteState
  | .singleQuoted => .literal
  | .doubleQuoted => .quoted
  | _ => .outside

theorem foldl_uncommented_of_one {c : Char} {s' : ScanState} {next : Option Char}
    (h : s.step c next = (s', false)) :
    (Chunk.uncommented ⟨s, s', [c]⟩).foldl QuoteState.step s.quotes = s'.quotes := by
  rw [ScanState.step_eq] at h
  cases s <;> grind [ScanState.quotes, QuoteState.step, Chunk.uncommented, ScanState.isComment]

theorem foldl_uncommented_of_two {c d : Char} {s' : ScanState}
    (h : s.step c (some d) = (s', true)) :
    (Chunk.uncommented ⟨s, s', [c, d]⟩).foldl QuoteState.step s.quotes = s'.quotes := by
  rw [ScanState.step_eq] at h
  cases s <;> grind [ScanState.quotes, QuoteState.step, Chunk.uncommented, ScanState.isComment]

theorem closesFrom_stripFrom (h : scan ScanState.step s a = .plain) :
    ClosesFrom s.quotes (stripFrom s a) := by
  fun_induction scan ScanState.step s a with
  | case1 s =>
      rw [h]
      rfl
  | case2 s c =>
      have hstep : s.step c none = (.plain, false) := by
        rw [ScanState.step_eq] at h ⊢
        cases s <;> grind
      have hnil : stripFrom .plain [] = [] := rfl
      rw [ClosesFrom, stripFrom_cons hstep, hnil, List.append_nil]
      exact foldl_uncommented_of_one hstep
  | case3 s c d a s' hstep ih =>
      rw [ClosesFrom, stripFrom_cons_cons hstep, List.foldl_append, foldl_uncommented_of_two hstep]
      exact ih h
  | case4 s c d a s' hstep ih =>
      rw [ClosesFrom, stripFrom_cons hstep, List.foldl_append, foldl_uncommented_of_one hstep]
      exact ih h

theorem closesFrom_stripComments (h : EndsPlain a) : ClosesFrom .outside (stripComments a) :=
  closesFrom_stripFrom h

theorem exists_quoted {t : List Char} (h : ClosesFrom .quoted t) :
    ∃ x v, t = x ++ '"' :: v ∧ '"' ∉ x ∧ ClosesFrom .outside v := by
  induction t with
  | nil => cases h
  | cons c t ih =>
      by_cases hc : c = '"'
      · subst hc
        exact ⟨[], t, rfl, List.not_mem_nil, h⟩
      · have hrest : ClosesFrom .quoted t := by
          rwa [ClosesFrom, List.foldl_cons, QuoteState.step, if_neg hc] at h
        obtain ⟨x, v, rfl, hx, hv⟩ := ih hrest
        exact ⟨c :: x, v, rfl, by simp [hx, Ne.symm hc], hv⟩

theorem getLast?_cons_of_some {c d : Char} {t : List Char} (h : t.getLast? = some d) :
    (c :: t).getLast? = some d := by
  rw [List.getLast?_cons, h, Option.getD_some]

theorem literalLength?_cons {c : Char} (h : c ≠ '\'' ∧ c ≠ '\\') (t : List Char) :
    literalLength? (c :: t) = (literalLength? t).map (· + 1) := by
  rw [literalLength?.eq_def]
  split <;> simp_all

theorem literalLength?_of_head {t : List Char} (h : t.head? ≠ some '\'') :
    literalLength? ('\'' :: t) = some 1 := by
  rw [literalLength?]
  rintro t rfl
  exact h rfl

theorem exists_literal {t : List Char} (h : ClosesFrom .literal t) :
    ∃ u v, t = u ++ v ∧ u.getLast? = some '\'' ∧ ClosesFrom .outside v ∧
      ∀ r : List Char, (t.getLast? = some '\'' → r.head? ≠ some '\'') →
        literalLength? (t ++ r) = some u.length := by
  fun_induction literalLength? t with
  | case1 => cases h
  | case2 c t ih =>
      obtain ⟨u, v, rfl, hu, hv, hread⟩ := ih h
      refine ⟨'\\' :: c :: u, v, rfl, getLast?_cons_of_some (getLast?_cons_of_some hu), hv, ?_⟩
      intro r hr
      have hread := hread r fun hlast => hr (getLast?_cons_of_some (getLast?_cons_of_some hlast))
      rw [List.cons_append, List.cons_append, literalLength?, hread]
      rfl
  | case3 t ih =>
      obtain ⟨u, v, rfl, hu, hv, hread⟩ := ih h
      refine ⟨'\'' :: '\'' :: u, v, rfl, getLast?_cons_of_some (getLast?_cons_of_some hu), hv, ?_⟩
      intro r hr
      have hread := hread r fun hlast => hr (getLast?_cons_of_some (getLast?_cons_of_some hlast))
      rw [List.cons_append, List.cons_append, literalLength?, hread]
      rfl
  | case4 t hnext =>
      refine ⟨['\''], t, rfl, rfl, h, fun r hr => literalLength?_of_head ?_⟩
      cases t with
      | nil => exact hr rfl
      | cons d t =>
          intro hd
          exact hnext t (by rw [Option.some.inj hd])
  | case5 c t hescape _ hquote ih =>
      have hc : c ≠ '\'' ∧ c ≠ '\\' := by
        refine ⟨hquote, ?_⟩
        rintro rfl
        cases t with
        | nil => cases h
        | cons d t => exact hescape d t rfl rfl
      have hrest : ClosesFrom .literal t := by
        rwa [ClosesFrom, List.foldl_cons, QuoteState.step, if_neg hc.2, if_neg hc.1] at h
      obtain ⟨u, v, rfl, hu, hv, hread⟩ := ih hrest
      refine ⟨c :: u, v, rfl, getLast?_cons_of_some hu, hv, fun r hr => ?_⟩
      have hread := hread r fun hlast => hr (getLast?_cons_of_some hlast)
      rw [List.cons_append, literalLength?_cons hc, hread]
      rfl

/-- A text made of closed pieces: single characters, quoted names and literals. A literal is read to
its end whatever comes after the text, unless a quote there doubles its closing one. -/
inductive Closed : List Char → Prop
  | nil : Closed []
  | other {c : Char} {a : List Char} (hc : c ≠ '"' ∧ c ≠ '\'') (ha : Closed a) : Closed (c :: a)
  | quoted {x a : List Char} (hx : '"' ∉ x) (ha : Closed a) : Closed ('"' :: (x ++ '"' :: a))
  | literal {u a : List Char} (hu : u.getLast? = some '\'')
      (hread : ∀ t : List Char, ((u ++ a).getLast? = some '\'' → t.head? ≠ some '\'') →
        literalLength? (u ++ a ++ t) = some u.length)
      (ha : Closed a) : Closed ('\'' :: (u ++ a))

theorem closed_of_closesFrom (h : ClosesFrom .outside a) : Closed a := by
  induction hn : a.length using Nat.strongRecOn generalizing a with
  | ind n ih =>
  subst hn
  cases a with
  | nil => exact .nil
  | cons c a =>
      by_cases hquote : c = '\''
      · subst hquote
        obtain ⟨u, v, rfl, hu, hv, hread⟩ := exists_literal h
        have hshorter : v.length < ('\'' :: (u ++ v)).length := by
          rw [List.length_cons, List.length_append]
          omega
        exact .literal hu hread (ih v.length hshorter hv rfl)
      · by_cases hdouble : c = '"'
        · subst hdouble
          obtain ⟨x, v, rfl, hx, hv⟩ := exists_quoted h
          have hshorter : v.length < ('"' :: (x ++ '"' :: v)).length := by
            rw [List.length_cons, List.length_append, List.length_cons]
            omega
          exact .quoted hx (ih v.length hshorter hv rfl)
        · have hv : ClosesFrom .outside a := by
            rwa [ClosesFrom, List.foldl_cons, QuoteState.step, if_neg hquote, if_neg hdouble] at h
          exact .other ⟨hdouble, hquote⟩ (ih a.length (by simp) hv rfl)

theorem closed_stripComments (h : EndsPlain a) : Closed (stripComments a) :=
  closed_of_closesFrom (closesFrom_stripComments h)

end Quotes

section Literals

theorem stripLiteralsFrom_zero (keep : Bool) (before t : List Char) :
    stripLiteralsFrom 0 keep before t = stripLiteralsFrom 0 true before t := by
  cases t <;> simp only [stripLiteralsFrom]

theorem stripLiteralsFrom_length (u : List Char) (keep : Bool) (before t : List Char) :
    stripLiteralsFrom u.length keep before (u ++ t) =
      (if keep then u else []) ++ stripLiteralsFrom 0 true (u.reverse ++ before) t := by
  induction u generalizing before with
  | nil => simpa using stripLiteralsFrom_zero keep before t
  | cons c u ih =>
      rw [List.length_cons, List.cons_append, stripLiteralsFrom, ih]
      cases keep <;> simp

theorem takeWhile_of_not_mem (hx : '"' ∉ x) (t : List Char) :
    (x ++ t).takeWhile (· ≠ '"') = x ++ t.takeWhile (· ≠ '"') :=
  List.takeWhile_append_of_pos fun _ hc => decide_eq_true (ne_of_mem_of_not_mem hc hx)

theorem quotedLength_append (hx : '"' ∉ x) (t : List Char) :
    quotedLength (x ++ '"' :: t) = (x ++ ['"']).length := by
  rw [quotedLength, takeWhile_of_not_mem hx]
  simp

theorem stripLiteralsFrom_quoted {x : List Char} (hx : '"' ∉ x) (keep : Bool)
    (before t : List Char) : stripLiteralsFrom 0 keep before ('"' :: (x ++ '"' :: t)) =
      '"' :: (x ++ '"' :: stripLiteralsFrom 0 true ('"' :: (x.reverse ++ '"' :: before)) t) := by
  have htext : x ++ '"' :: t = x ++ ['"'] ++ t := by simp
  rw [stripLiteralsFrom, if_pos rfl, quotedLength_append hx, htext, stripLiteralsFrom_length]
  simp

def literalImage (before u : List Char) : List Char :=
  if followsAs before then '\'' :: u else ['\'', '\'']

theorem stripLiteralsFrom_literal {u t : List Char} (h : literalLength? (u ++ t) = some u.length)
    (keep : Bool) (before : List Char) : stripLiteralsFrom 0 keep before ('\'' :: (u ++ t)) =
      literalImage before u ++
        stripLiteralsFrom 0 true (u.reverse ++ '\'' :: before) t := by
  rw [stripLiteralsFrom, if_neg (by decide), if_pos rfl, h]
  dsimp only
  rw [stripLiteralsFrom_length, stripLiteralsFrom_length, literalImage]
  split <;> simp

theorem stripLiteralsFrom_other {c : Char} (h : c ≠ '"' ∧ c ≠ '\'') (keep : Bool)
    (before t : List Char) :
    stripLiteralsFrom 0 keep before (c :: t) = c :: stripLiteralsFrom 0 true (c :: before) t := by
  rw [stripLiteralsFrom, if_neg h.1, if_neg h.2]

theorem getLast?_literalImage {u : List Char} (hu : u.getLast? = some '\'') (before : List Char) :
    (literalImage before u).getLast? = some '\'' := by
  rw [literalImage]
  split
  · exact getLast?_cons_of_some hu
  · rfl

theorem Closed.exists_stripLiteralsFrom (h : Closed a) (before : List Char) :
    ∃ p : List Char, p.getLast? = a.getLast? ∧
      ∀ t : List Char, (a.getLast? = some '\'' → t.head? ≠ some '\'') → ∀ keep,
        stripLiteralsFrom 0 keep before (a ++ t) =
          p ++ stripLiteralsFrom 0 true (a.reverse ++ before) t := by
  induction h generalizing before with
  | nil =>
      refine ⟨[], rfl, fun t _ keep => ?_⟩
      rw [List.nil_append, stripLiteralsFrom_zero]
      rfl
  | @other c a hc _ ih =>
      obtain ⟨p, hp, hread⟩ := ih (c :: before)
      refine ⟨c :: p, by rw [List.getLast?_cons, List.getLast?_cons, hp], fun t ht keep => ?_⟩
      have hat : a.getLast? = some '\'' → t.head? ≠ some '\'' := fun hl =>
        ht (getLast?_cons_of_some hl)
      rw [List.cons_append, stripLiteralsFrom_other hc, hread t hat]
      simp
  | @quoted x a hx _ ih =>
      obtain ⟨p, hp, hread⟩ := ih ('"' :: (x.reverse ++ '"' :: before))
      refine ⟨'"' :: (x ++ '"' :: p), ?_, fun t ht keep => ?_⟩
      · simp [List.getLast?_cons, List.getLast?_append, hp]
      · have hat : a.getLast? = some '\'' → t.head? ≠ some '\'' := fun hl =>
          ht (by simp [List.getLast?_cons, List.getLast?_append, hl])
        have htext : '"' :: (x ++ '"' :: a) ++ t = '"' :: (x ++ '"' :: (a ++ t)) := by simp
        rw [htext, stripLiteralsFrom_quoted hx, hread t hat]
        simp
  | @literal u a hu hlength _ ih =>
      obtain ⟨p, hp, hread⟩ := ih (u.reverse ++ '\'' :: before)
      refine ⟨literalImage before u ++ p, ?_, fun t ht keep => ?_⟩
      · rw [List.getLast?_append, hp, getLast?_literalImage hu, List.getLast?_cons,
          List.getLast?_append, hu]
        cases a.getLast? <;> rfl
      · have hua : (u ++ a).getLast? = some '\'' → t.head? ≠ some '\'' := fun hl =>
          ht (getLast?_cons_of_some hl)
        have hat : a.getLast? = some '\'' → t.head? ≠ some '\'' := fun hl =>
          hua (by rw [List.getLast?_append, hl, Option.some_or])
        have hlength := hlength t hua
        rw [List.append_assoc] at hlength
        rw [List.cons_append, List.append_assoc, stripLiteralsFrom_literal hlength, hread t hat]
        simp

theorem stripLiteralsFrom_congr {t before before' : List Char}
    (h : ∀ w v, t = w ++ '\'' :: v → followsAs (w.reverse ++ before) = followsAs (w.reverse ++ before'))
    (n : Nat) (keep : Bool) :
    stripLiteralsFrom n keep before t = stripLiteralsFrom n keep before' t := by
  induction t generalizing n keep before before' with
  | nil => cases n <;> rfl
  | cons c t ih =>
      have hnext : ∀ w v, t = w ++ '\'' :: v →
          followsAs (w.reverse ++ c :: before) = followsAs (w.reverse ++ c :: before') := by
        rintro w v rfl
        simpa using h (c :: w) v rfl
      have ih := ih hnext
      cases n with
      | succ n => simp only [stripLiteralsFrom, ih n keep]
      | zero =>
          have hhere (hc : c = '\'') : followsAs before = followsAs before' :=
            h [] t (by rw [hc, List.nil_append])
          simp only [stripLiteralsFrom, ih]
          by_cases hc : c = '\''
          · rw [hhere hc]
          · simp only [hc, if_false]

end Literals

end SchemaDeploy.Sql
