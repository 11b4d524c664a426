import SchemaDeploy.Proofs.ClosedText
import SchemaDeploy.Script.Rows

namespace SchemaDeploy

open Sql

/-- The value with its quotes doubled. -/
def doubled (v : List Char) : List Char :=
  v.flatMap fun c => if c = '\'' then [c, c] else [c]

theorem doubled_quote (v : List Char) : doubled ('\'' :: v) = '\'' :: '\'' :: doubled v :=
  rfl

theorem doubled_cons {c : Char} (hc : c ≠ '\'') (v : List Char) :
    doubled (c :: v) = c :: doubled v := by
  rw [doubled, List.flatMap_cons, if_neg hc]
  rfl

theorem toList_valueText (v : String) :
    (valueText (some v)).toList = '\'' :: (doubled v.toList ++ ['\'']) := by
  simp [valueText, doubled]

def backslashes (p : List Char) : Nat :=
  (p.reverse.takeWhile (· == '\\')).length

/-- Every run of backslashes before a quote or at the end has an even length. -/
def HasEvenRuns (v : List Char) : Prop :=
  ∀ p r, v = p ++ r → r.head?.all (· == '\'') = true → backslashes p % 2 = 0

section Runs

variable {c : Char} {p v : List Char} {escaped : Bool}

/-- The same, read from left to right; `escaped` says whether a backslash takes the next character. -/
def KeepsQuotes : Bool → List Char → Prop
  | escaped, [] => escaped = false
  | escaped, c :: v =>
    if c = '\'' then escaped = false ∧ KeepsQuotes false v
    else if c = '\\' then KeepsQuotes (!escaped) v
    else KeepsQuotes false v

theorem keepsQuotes_quote : KeepsQuotes escaped ('\'' :: v) ↔ escaped = false ∧ KeepsQuotes false v := by
  rw [KeepsQuotes, if_pos rfl]

theorem keepsQuotes_backslash : KeepsQuotes escaped ('\\' :: v) ↔ KeepsQuotes (!escaped) v := by
  rw [KeepsQuotes, if_neg (by decide), if_pos rfl]

theorem keepsQuotes_cons (hc : c ≠ '\'' ∧ c ≠ '\\') :
    KeepsQuotes escaped (c :: v) ↔ KeepsQuotes false v := by
  rw [KeepsQuotes, if_neg hc.1, if_neg hc.2]

theorem backslashes_append (p : List Char) (c : Char) :
    backslashes (p ++ [c]) = if c = '\\' then backslashes p + 1 else 0 := by
  rw [backslashes, List.reverse_append, List.reverse_singleton, List.singleton_append,
    List.takeWhile_cons]
  by_cases hc : c = '\\' <;> simp [hc, backslashes]

theorem forall_cons_eq_append {P : List Char → List Char → Prop} :
    (∀ q r, c :: v = q ++ r → P q r) ↔ P [] (c :: v) ∧ ∀ q r, v = q ++ r → P (c :: q) r := by
  constructor
  · intro h
    refine ⟨h [] (c :: v) rfl, ?_⟩
    rintro q r rfl
    exact h (c :: q) r rfl
  · rintro ⟨hnil, hcons⟩ q r h
    rcases List.cons_eq_append_iff.1 h with ⟨rfl, rfl⟩ | ⟨q, rfl, rfl⟩
    · exact hnil
    · exact hcons q r rfl

theorem keepsQuotes_iff (hp : backslashes p % 2 = escaped.toNat) :
    KeepsQuotes escaped v ↔ ∀ q r, v = q ++ r → r.head?.all (· == '\'') = true →
      backslashes (p ++ q) % 2 = 0 := by
  induction v generalizing p escaped with
  | nil =>
      rw [KeepsQuotes]
      cases escaped with
      | false => simp_all
      | true => simp_all
  | cons c v ih =>
      have hnext := backslashes_append p c
      have hbehind : (∀ q r, c :: v = q ++ r → r.head?.all (· == '\'') = true →
          backslashes (p ++ q) % 2 = 0) ↔ (c = '\'' → backslashes p % 2 = 0) ∧
            ∀ q r, v = q ++ r → r.head?.all (· == '\'') = true →
              backslashes (p ++ [c] ++ q) % 2 = 0 := by
        rw [forall_cons_eq_append]
        simp
      rw [hbehind]
      by_cases hquote : c = '\''
      · subst hquote
        rw [if_neg (by decide)] at hnext
        have hzero : backslashes (p ++ ['\'']) % 2 = false.toNat := by rw [hnext]; rfl
        rw [keepsQuotes_quote, ih hzero, hp]
        cases escaped <;> simp
      · rw [and_iff_right fun hc => absurd hc hquote]
        by_cases hbackslash : c = '\\'
        · subst hbackslash
          rw [if_pos rfl] at hnext
          rw [keepsQuotes_backslash]
          refine ih ?_
          rw [hnext]
          cases escaped <;> simp at hp ⊢ <;> omega
        · rw [if_neg hbackslash] at hnext
          rw [keepsQuotes_cons ⟨hquote, hbackslash⟩]
          exact ih (by rw [hnext]; rfl)

theorem keepsQuotes_false_iff : KeepsQuotes false v ↔ HasEvenRuns v :=
  keepsQuotes_iff (p := []) rfl

end Runs

section Read

variable {c : Char} {rest v x : List Char} {s : ScanState} {escaped : Bool}

def pending (escaped : Bool) : List Char :=
  if escaped then ['\\'] else []

/-- A way to tell whether a text behind an opening quote is read to its end as the rest of a literal.
Once a backslash has taken one of two doubled quotes, the literal is not read to its end. -/
structure ReadsLiterals (R : List Char → Prop) : Prop where
  unclosed : ¬ R []
  closed : R ['\'']
  escape (c : Char) (x : List Char) : R ('\\' :: c :: x) ↔ R x
  pair (x : List Char) : R ('\'' :: '\'' :: x) ↔ R x
  other {c : Char} (hc : c ≠ '\'' ∧ c ≠ '\\') (x : List Char) : R (c :: x) ↔ R x
  unpaired (v : List Char) : ¬ R ('\'' :: (doubled v ++ ['\'']))

theorem ReadsLiterals.doubled_iff {R : List Char → Prop} (h : ReadsLiterals R) (escaped : Bool)
    (v : List Char) : R (pending escaped ++ (doubled v ++ ['\''])) ↔ KeepsQuotes escaped v := by
  induction v generalizing escaped with
  | nil =>
      cases escaped with
      | false => exact iff_of_true h.closed rfl
      | true => exact iff_of_false (mt (h.escape '\'' []).1 h.unclosed) (by simp [KeepsQuotes])
  | cons c v ih =>
      by_cases hquote : c = '\''
      · subst hquote
        rw [doubled_quote, keepsQuotes_quote]
        cases escaped with
        | false => exact (h.pair _).trans ((ih false).trans (and_iff_right rfl).symm)
        | true => exact iff_of_false (mt (h.escape _ _).1 (h.unpaired v)) (by simp)
      · rw [doubled_cons hquote]
        by_cases hbackslash : c = '\\'
        · subst hbackslash
          rw [keepsQuotes_backslash]
          cases escaped with
          | false => exact ih true
          | true => exact (h.escape _ _).trans (ih false)
        · rw [keepsQuotes_cons ⟨hquote, hbackslash⟩]
          cases escaped with
          | false => exact (h.other ⟨hquote, hbackslash⟩ _).trans (ih false)
          | true => exact (h.escape _ _).trans (ih false)

theorem map_add_eq_some_iff {o : Option Nat} {m n : Nat} :
    o.map (· + n) = some (m + n) ↔ o = some m := by
  cases o <;> simp

def EndsLiteral (rest x : List Char) : Prop :=
  literalLength? (x ++ rest) = some x.length

theorem endsLiteral_pair : EndsLiteral rest ('\'' :: '\'' :: x) ↔ EndsLiteral rest x :=
  map_add_eq_some_iff

theorem not_endsLiteral_nil : ¬ EndsLiteral rest [] := by
  rw [EndsLiteral]
  fun_cases literalLength? ([] ++ rest) <;> simp

theorem not_endsLiteral_unpaired (v : List Char) :
    ¬ EndsLiteral rest ('\'' :: (doubled v ++ ['\''])) := by
  induction v with
  | nil => exact mt endsLiteral_pair.1 not_endsLiteral_nil
  | cons c v ih =>
      by_cases hc : c = '\''
      · subst hc
        exact mt endsLiteral_pair.1 ih
      · rw [doubled_cons hc, EndsLiteral, List.cons_append, literalLength?_of_head (by simpa using hc)]
        simp

theorem readsLiterals_endsLiteral (hrest : rest.head? ≠ some '\'') :
    ReadsLiterals (EndsLiteral rest) where
  unclosed := not_endsLiteral_nil
  closed := literalLength?_of_head hrest
  escape _ _ := map_add_eq_some_iff
  pair _ := endsLiteral_pair
  other hc x := by
    rw [EndsLiteral, List.cons_append, literalLength?_cons hc, List.length_cons, map_add_eq_some_iff]
    rfl
  unpaired := not_endsLiteral_unpaired

theorem scan_quote_singleQuoted (x : List Char) :
    scan ScanState.step .singleQuoted ('\'' :: x) = scan ScanState.step .plain x := by
  cases x <;> rfl

theorem scan_quote_plain (x : List Char) :
    scan ScanState.step .plain ('\'' :: x) = scan ScanState.step .singleQuoted x := by
  cases x <;> rfl

theorem scan_pair (s : ScanState) (x : List Char) :
    scan ScanState.step s ('\'' :: '\'' :: x) = scan ScanState.step s x := by
  cases s <;> cases x <;> rfl

theorem step_other (hs : s ≠ .singleQuoted) (hc : c ≠ '\'') (next : Option Char) :
    (s.step c next).1 ≠ .singleQuoted ∧ ((s.step c next).2 = true → next ≠ some '\'') := by
  rw [ScanState.step_eq]
  cases s <;> grind

theorem scan_doubled_ne (hs : s ≠ .singleQuoted) (v : List Char) :
    scan ScanState.step s (doubled v ++ ['\'']) ≠ .plain := by
  induction hn : v.length using Nat.strongRecOn generalizing s v with
  | ind n ih =>
  subst hn
  cases v with
  | nil => cases s <;> simp_all [doubled, scan, ScanState.step]
  | cons c v =>
      by_cases hquote : c = '\''
      · subst hquote
        rw [doubled_quote, List.cons_append, List.cons_append, scan_pair]
        exact ih v.length (by simp) hs v rfl
      · obtain ⟨d, u, hu⟩ : ∃ d u, doubled v ++ ['\''] = d :: u :=
          List.exists_cons_of_ne_nil (by simp)
        obtain ⟨hs', hnext⟩ := step_other hs hquote (some d)
        rw [doubled_cons hquote, List.cons_append, hu, scan]
        split
        · next s' hstep =>
          rw [hstep] at hs' hnext
          cases v with
          | nil =>
              cases hu
              exact absurd rfl (hnext rfl)
          | cons e v =>
              have he : e ≠ '\'' := by
                rintro rfl
                cases hu
                exact absurd rfl (hnext rfl)
              rw [doubled_cons he, List.cons_append] at hu
              cases hu
              exact ih v.length (by rw [List.length_cons, List.length_cons]; omega) hs' v rfl
        · next s' hstep =>
          rw [hstep] at hs'
          rw [← hu]
          exact ih v.length (by simp) hs' v rfl

theorem readsLiterals_scan :
    ReadsLiterals fun x => scan ScanState.step .singleQuoted x = .plain where
  unclosed := by simp [scan]
  closed := rfl
  escape _ _ := Iff.rfl
  pair x := by rw [scan_pair]
  other hc x := by
    cases x with
    | nil => simp [scan, step_singleQuoted hc]
    | cons d x => simp [scan, step_singleQuoted hc]
  unpaired v := by
    rw [scan_quote_singleQuoted]
    exact scan_doubled_ne (s := .plain) (by simp) v

theorem stripComments_quote (t : List Char) :
    stripComments ('\'' :: t) = '\'' :: stripFrom .singleQuoted t := by
  cases t <;> rfl

theorem stripFrom_pair (t : List Char) :
    stripFrom .singleQuoted ('\'' :: '\'' :: t) = '\'' :: '\'' :: stripFrom .singleQuoted t := by
  cases t <;> rfl

theorem stripFrom_taken (h : escaped = true ∨ c ≠ '\'' ∧ c ≠ '\\') (t : List Char) :
    stripFrom .singleQuoted (pending escaped ++ c :: t) =
      pending escaped ++ c :: stripFrom .singleQuoted t := by
  cases escaped with
  | true => rfl
  | false => exact stripFrom_cons (step_singleQuoted (h.resolve_left Bool.false_ne_true) _)

theorem stripFrom_doubled (h : KeepsQuotes escaped v) (rest : List Char) :
    stripFrom .singleQuoted (pending escaped ++ (doubled v ++ '\'' :: rest)) =
      pending escaped ++ (doubled v ++ '\'' :: stripComments rest) := by
  induction v generalizing escaped with
  | nil =>
      cases h
      cases rest <;> rfl
  | cons c v ih =>
      by_cases hquote : c = '\''
      · subst hquote
        obtain ⟨rfl, hv⟩ := keepsQuotes_quote.1 h
        have hrest := congrArg (fun t => '\'' :: '\'' :: t) (ih hv)
        exact (stripFrom_pair _).trans hrest
      · rw [doubled_cons hquote, List.cons_append, List.cons_append]
        by_cases hbackslash : c = '\\'
        · subst hbackslash
          have hrest := ih (keepsQuotes_backslash.1 h)
          cases escaped with
          | false => exact hrest
          | true =>
              rw [stripFrom_taken (.inl rfl)]
              exact congrArg (fun t => '\\' :: '\\' :: t) hrest
        · have hrest := ih ((keepsQuotes_cons ⟨hquote, hbackslash⟩).1 h)
          rw [stripFrom_taken (.inr ⟨hquote, hbackslash⟩)]
          exact congrArg (fun t => pending escaped ++ c :: t) hrest

end Read

section Values

variable {rest : List Char}

/-- The literal of a value is read as one, up to its closing quote, exactly if every run of backslashes
before a quote or at the end of the value has an even length. Then nothing in it is taken for a
comment, and nothing behind it for a part of it. -/
theorem valueText_read_iff (v : String) (hrest : rest.head? ≠ some '\'') :
    ∃ body, (valueText (some v)).toList = '\'' :: body ∧
      (literalLength? (body ++ rest) = some body.length ↔ HasEvenRuns v.toList) ∧
      (EndsPlain (valueText (some v)).toList ↔ HasEvenRuns v.toList) ∧
      (HasEvenRuns v.toList → stripComments ((valueText (some v)).toList ++ rest) =
        (valueText (some v)).toList ++ stripComments rest) := by
  have hbody : ∀ t, (valueText (some v)).toList ++ t = '\'' :: (doubled v.toList ++ '\'' :: t) := by
    intro t
    simp [toList_valueText]
  refine ⟨doubled v.toList ++ ['\''], toList_valueText v, ?_, ?_, fun h => ?_⟩
  · rw [← keepsQuotes_false_iff]
    exact (readsLiterals_endsLiteral hrest).doubled_iff false v.toList
  · rw [← keepsQuotes_false_iff, toList_valueText, EndsPlain]
    rw [scan_quote_plain]
    exact readsLiterals_scan.doubled_iff false v.toList
  · have hinside := stripFrom_doubled (keepsQuotes_false_iff.2 h) rest
    rw [hbody, hbody, stripComments_quote]
    exact congrArg ('\'' :: ·) hinside

theorem valueText_read_iff_twoBackslashes :
    let v := "it's C:\\\\ -- or so\\\\"
    let rest := ", 'x'); -- rows".toList
    rest.head? ≠ some '\'' ∧ ∃ body, (valueText (some v)).toList = '\'' :: body ∧
      literalLength? (body ++ rest) = some body.length ∧ EndsPlain (valueText (some v)).toList ∧
      stripComments ((valueText (some v)).toList ++ rest) =
        (valueText (some v)).toList ++ stripComments rest := by
  intro v rest
  have hrest : rest.head? ≠ some '\'' := by decide
  have hruns : HasEvenRuns v.toList := by
    rw [← keepsQuotes_false_iff]
    simp [v, KeepsQuotes]
  obtain ⟨body, hbody, hlength, hplain, hstrip⟩ := valueText_read_iff v hrest
  exact ⟨hrest, body, hbody, hlength.2 hruns, hplain.2 hruns, hstrip hruns⟩

/-- A value need not be read as one literal: its last backslash takes the closing quote. -/
theorem not_valueText_read :
    ¬ ∀ (v : String) (rest : List Char), rest.head? ≠ some '\'' →
      ∃ body, (valueText (some v)).toList = '\'' :: body ∧
        literalLength? (body ++ rest) = some body.length ∧ EndsPlain (valueText (some v)).toList := by
  intro h
  obtain ⟨body, -, -, hplain⟩ := h "\\" [] (by decide)
  rw [toList_valueText] at hplain
  exact absurd hplain (by decide)

end Values

end SchemaDeploy
