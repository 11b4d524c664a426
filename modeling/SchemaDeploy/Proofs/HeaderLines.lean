import SchemaDeploy.Proofs.RecordedMigrations
import SchemaDeploy.Script.MigrationFile

namespace SchemaDeploy

namespace Text

def blankCodes : List Nat :=
  List.range' 9 5 ++ List.range' 0x2000 11 ++
    [0x20, 0x85, 0xA0, 0x1680, 0x2028, 0x2029, 0x202F, 0x205F, 0x3000]

theorem mem_blankCodes {c : Char} (h : isBlank c = true) : c.toNat ∈ blankCodes := by
  simp only [isBlank, Bool.or_eq_true, Bool.and_eq_true, decide_eq_true_eq, beq_iff_eq] at h
  simp only [blankCodes, List.mem_append, List.mem_range'_1, List.mem_cons, List.not_mem_nil,
    or_false]
  omega

theorem forall_blank {p : Char → Bool} (h : blankCodes.all fun n => p (Char.ofNat n)) {c : Char}
    (hc : isBlank c = true) : p c = true := by
  rw [← Char.ofNat_toNat c]
  exact List.all_eq_true.1 h _ (mem_blankCodes hc)

theorem isWord_eq_false_of_isBlank {c : Char} (h : isBlank c = true) : isWord c = false := by
  simpa using forall_blank (p := fun c => !isWord c) (by decide +kernel) h

theorem isDecimal_eq_false_of_isBlank {c : Char} (h : isBlank c = true) : isDecimal c = false := by
  simpa using forall_blank (p := fun c => !isDecimal c) (by decide +kernel) h

theorem span_eq_iff {p : Char → Bool} {t a r : List Char} : t.span p = (a, r) ↔
    t = a ++ r ∧ (∀ c ∈ a, p c = true) ∧ r.head?.all (!p ·) = true := by
  rw [List.span_eq_takeWhile_dropWhile, Prod.mk.injEq]
  constructor
  · rintro ⟨rfl, rfl⟩
    refine ⟨List.takeWhile_append_dropWhile.symm, fun _ => List.mem_takeWhile_imp, ?_⟩
    have hhead := List.head?_dropWhile_not p t
    cases hd : (t.dropWhile p).head? with
    | none => rfl
    | some c =>
        rw [hd] at hhead
        simpa using hhead
  · rintro ⟨rfl, ha, hr⟩
    rw [List.takeWhile_append_of_pos ha, List.dropWhile_append_of_pos ha]
    cases r with
    | nil => simp
    | cons c r => simp_all

theorem trimStart_eq_iff {t u : List Char} :
    trimStart t = u ↔ ∃ b, t = b ++ u ∧ allBlank b = true ∧ u.head?.all (!isBlank ·) = true := by
  have hspan {b : List Char} := span_eq_iff (p := isBlank) (t := t) (a := b) (r := u)
  simp only [List.span_eq_takeWhile_dropWhile, Prod.mk.injEq] at hspan
  constructor
  · intro h
    obtain ⟨ht, hb, hu⟩ := hspan.1 ⟨rfl, h⟩
    exact ⟨_, ht, List.all_eq_true.2 hb, hu⟩
  · rintro ⟨b, ht, hb, hu⟩
    exact (hspan.2 ⟨ht, List.all_eq_true.1 hb, hu⟩).2

theorem trimStart_append {b u : List Char} (hb : allBlank b = true)
    (hu : u.head?.all (!isBlank ·) = true) : trimStart (b ++ u) = u :=
  trimStart_eq_iff.2 ⟨b, rfl, hb, hu⟩

theorem digits_of_readDigits {n m : Nat} {ds : List Char} (h : readDigits n ds = .ok m) :
    (∀ c ∈ ds, c.isDigit = true) ∧ Nat.ofDigitChars 10 ds n = m := by
  induction ds generalizing n with
  | nil =>
      cases h
      exact ⟨by simp, rfl⟩
  | cons d ds ih =>
      rw [readDigits] at h
      split at h
      · next hd =>
        dsimp only at h
        split at h
        · obtain ⟨hds, hm⟩ := ih h
          rw [Nat.ofDigitChars_cons, Nat.mul_comm]
          exact ⟨List.forall_mem_cons.2 ⟨hd, hds⟩, hm⟩
        · cases h
      · cases h

def Spells (keyword w : List Char) : Prop :=
  List.Forall₂ (fun k c => foldsTo k c = true) keyword w

theorem keyword?_eq_some_iff {keyword t r : List Char} :
    keyword? keyword t = some r ↔ ∃ w, t = w ++ r ∧ Spells keyword w := by
  induction keyword generalizing t with
  | nil => simp [keyword?, Spells]
  | cons k keyword ih =>
      constructor
      · intro h
        cases t with
        | nil => cases h
        | cons c t =>
            rw [keyword?] at h
            split at h
            · next hk =>
              obtain ⟨w, rfl, hw⟩ := ih.1 h
              exact ⟨c :: w, rfl, .cons hk hw⟩
            · cases h
      · rintro ⟨w, rfl, hw⟩
        cases hw with
        | cons hk hw =>
            rw [List.cons_append, keyword?, if_pos hk]
            exact ih.2 ⟨_, rfl, hw⟩

theorem isBlank_eq_false_of_foldsTo {k c : Char} (hk : k.isAlpha = true)
    (h : foldsTo k c = true) : isBlank c = false := by
  rw [Bool.eq_false_iff]
  intro hb
  have hcode := mem_blankCodes hb
  have hletter : c.isAlpha = false := by
    simpa using forall_blank (p := fun c => !c.isAlpha) (by decide) hb
  simp only [foldsTo, sameLetter, Bool.or_eq_true, Bool.and_eq_true, beq_iff_eq] at h
  rcases h with (h | h) | h
  · rw [← Char.isAlpha_toLower_eq_isAlpha, ← h, Char.isAlpha_toLower_eq_isAlpha, hk] at hletter
    cases hletter
  all_goals
    rw [h.2] at hcode
    exact absurd hcode (by decide)

end Text

namespace MigrationFile

open Text

variable {keyword : String} {line digits rest t : List Char} {version : Nat}
  {author : Option String}

def IsLabel (keyword : String) (t rest : List Char) : Prop :=
  ∃ b w b', t = b ++ (w ++ (b' ++ ':' :: rest)) ∧ allBlank b = true ∧
    Spells keyword.toList w ∧ allBlank b' = true

def IsDirective (keyword : String) (line rest : List Char) : Prop :=
  ∃ b t, line = b ++ '-' :: '-' :: '-' :: t ∧ allBlank b = true ∧ IsLabel keyword t rest

/-- A line with a version: some of its digits, after blanks, and the text behind them. -/
def IsNumbered (line digits rest : List Char) : Prop :=
  ∃ b, IsDirective "version" line (b ++ (digits ++ rest)) ∧ allBlank b = true ∧ digits ≠ [] ∧
    ∀ c ∈ digits, isDecimal c = true

/-- The line begins as a header does, up to the first digit of a version. -/
def OpensUnit (line : List Char) : Prop :=
  ∃ digits rest, IsNumbered line digits rest

/-- The end of a header: blanks, or a comma and a word for the author. -/
inductive IsAuthorClause : List Char → Option String → Prop
  | none {b : List Char} (hb : allBlank b = true) : IsAuthorClause b none
  | some {b b' b'' t : List Char} {name : String} (hb : allBlank b = true)
      (ht : IsLabel "author" t (b' ++ (name.toList ++ b''))) (hb' : allBlank b' = true)
      (hne : name ≠ "") (hname : ∀ c ∈ name.toList, isWord c = true) (hb'' : allBlank b'' = true) :
      IsAuthorClause (b ++ ',' :: t) (some name)

/-- The digits are read as a number of at most 64 bits. A header may have decimal digits of any
script, but only ASCII digits are read as a number. -/
def IsVersion (digits : List Char) (version : Nat) : Prop :=
  (∀ c ∈ digits, c.isDigit = true) ∧ Nat.ofDigitChars 10 digits 0 = version ∧
    version ≤ maxVersion

/-- A header line as a whole. -/
def IsHeader (line : List Char) (version : Nat) (author : Option String) : Prop :=
  ∃ digits rest, IsNumbered line digits rest ∧ IsVersion digits version ∧
    IsAuthorClause rest author

theorem IsHeader.opensUnit (h : IsHeader line version author) : OpensUnit line := by
  obtain ⟨digits, rest, hline, -, -⟩ := h
  exact ⟨digits, rest, hline⟩

section Readers

def IsKeyword (keyword : String) : Prop :=
  keyword.toList ≠ [] ∧ ∀ k ∈ keyword.toList, k.isAlpha = true

theorem isKeyword_version : IsKeyword "version" := by
  simp [IsKeyword]

theorem isKeyword_author : IsKeyword "author" := by
  simp [IsKeyword]

theorem keyword?_eq_colon_iff (hk : IsKeyword keyword) :
    (keyword? keyword.toList (trimStart t)).map trimStart = some (':' :: rest) ↔
      IsLabel keyword t rest := by
  constructor
  · intro h
    obtain ⟨u, hu, hcolon⟩ := Option.map_eq_some_iff.1 h
    obtain ⟨w, hw, hspells⟩ := keyword?_eq_some_iff.1 hu
    obtain ⟨b, rfl, hb, -⟩ := trimStart_eq_iff.1 hw
    obtain ⟨b', rfl, hb', -⟩ := trimStart_eq_iff.1 hcolon
    exact ⟨b, w, b', rfl, hb, hspells, hb'⟩
  · rintro ⟨b, w, b', rfl, hb, hspells, hb'⟩
    have hhead : (w ++ (b' ++ ':' :: rest)).head?.all (!isBlank ·) = true := by
      cases hkeyword : keyword.toList with
      | nil => exact absurd hkeyword hk.1
      | cons k ks =>
          rw [hkeyword] at hspells
          cases hspells with
          | cons hkc _ =>
              simpa using isBlank_eq_false_of_foldsTo (hk.2 k (by simp [hkeyword])) hkc
    rw [trimStart_append hb hhead, keyword?_eq_some_iff.2 ⟨w, rfl, hspells⟩, Option.map_some,
      trimStart_append hb' rfl]

theorem directive?_eq_some_iff (hk : IsKeyword keyword) :
    directive? keyword line = some rest ↔ IsDirective keyword line rest := by
  constructor
  · intro h
    rw [directive?] at h
    split at h
    · next t ht =>
      split at h
      · next hcolon =>
        cases h
        obtain ⟨b, hline, hb, -⟩ := trimStart_eq_iff.1 ht
        exact ⟨b, t, hline, hb, (keyword?_eq_colon_iff hk).1 hcolon⟩
      · cases h
    · cases h
  · rintro ⟨b, t, rfl, hb, hlabel⟩
    have htrim : trimStart (b ++ '-' :: '-' :: '-' :: t) = '-' :: '-' :: '-' :: t :=
      trimStart_append hb rfl
    simp only [directive?, htrim, (keyword?_eq_colon_iff hk).2 hlabel]

theorem head?_append_not_blank {p : Char → Bool} (hp : ∀ c, isBlank c = true → p c = false)
    {a : List Char} (hne : a ≠ []) (ha : ∀ c ∈ a, p c = true) (r : List Char) :
    (a ++ r).head?.all (!isBlank ·) = true := by
  cases a with
  | nil => exact absurd rfl hne
  | cons c a =>
      have hc := ha c List.mem_cons_self
      cases hb : isBlank c with
      | false => simp [hb]
      | true =>
          rw [hp c hb] at hc
          cases hc

theorem headerDigits?_eq_some_iff : headerDigits? line = some (digits, rest) ↔
    IsNumbered line digits rest ∧ rest.head?.all (!isDecimal ·) = true := by
  rw [headerDigits?, Option.bind_eq_some_iff]
  constructor
  · rintro ⟨t, ht, h⟩
    split at h
    · cases h
    · next digits' rest' hne hspan =>
      cases h
      obtain ⟨hdigits, hall, hend⟩ := span_eq_iff.1 hspan
      obtain ⟨b, rfl, hb, -⟩ := trimStart_eq_iff.1 hdigits
      have hline := (directive?_eq_some_iff isKeyword_version).1 ht
      exact ⟨⟨b, hline, hb, hne, hall⟩, hend⟩
  · rintro ⟨⟨b, hline, hb, hne, hall⟩, hend⟩
    refine ⟨_, (directive?_eq_some_iff isKeyword_version).2 hline, ?_⟩
    rw [trimStart_append hb (head?_append_not_blank (fun _ => isDecimal_eq_false_of_isBlank) hne
      hall rest), span_eq_iff.2 ⟨rfl, hall, hend⟩]
    cases digits with
    | nil => exact absurd rfl hne
    | cons d digits => rfl

theorem opensUnit_iff : OpensUnit line ↔ (headerDigits? line).isSome = true := by
  rw [Option.isSome_iff_exists]
  constructor
  · rintro ⟨digits, rest, b, hline, hb, hne, hall⟩
    obtain ⟨hrest, hmore, hend⟩ := span_eq_iff.1 (Prod.eta (rest.span isDecimal)).symm
    refine ⟨(digits ++ (rest.span isDecimal).1, (rest.span isDecimal).2),
      headerDigits?_eq_some_iff.2 ⟨⟨b, ?_, hb, by simp [hne], ?_⟩, hend⟩⟩
    · rwa [List.append_assoc, ← hrest]
    · exact List.forall_mem_append.2 ⟨hall, hmore⟩
  · rintro ⟨⟨digits, rest⟩, h⟩
    exact ⟨digits, rest, (headerDigits?_eq_some_iff.1 h).1⟩

instance (line : List Char) : Decidable (OpensUnit line) :=
  decidable_of_iff _ opensUnit_iff.symm

example : OpensUnit " --- Version :12x".toList ∧ ¬ OpensUnit "--- versions: 1".toList := by
  decide

theorem IsAuthorClause.head? (h : IsAuthorClause t author) :
    t.head?.all (!isDecimal ·) = true := by
  have hblank {b u : List Char} (hb : allBlank b = true) (hu : u.head?.all (!isDecimal ·) = true) :
      (b ++ u).head?.all (!isDecimal ·) = true := by
    cases b with
    | nil => exact hu
    | cons c b =>
        have hc := List.all_eq_true.1 hb c List.mem_cons_self
        simpa using isDecimal_eq_false_of_isBlank hc
  cases h with
  | none hb =>
      rw [← List.append_nil t]
      exact hblank hb rfl
  | some hb => exact hblank hb (by rfl)

theorem trimStart_eq_nil (h : allBlank t = true) : trimStart t = [] :=
  trimStart_eq_iff.2 ⟨t, by simp, h, rfl⟩

theorem author?_eq_some_iff {name : Option (List Char)} :
    author? t = some name ↔ IsAuthorClause t (name.map String.ofList) := by
  constructor
  · intro h
    rw [author?] at h
    split at h
    · next ht =>
      cases h
      obtain ⟨b, rfl, hb, -⟩ := trimStart_eq_iff.1 ht
      exact .none (by simpa using hb)
    · next u ht =>
      obtain ⟨b, rfl, hb, -⟩ := trimStart_eq_iff.1 ht
      split at h
      · next v hv =>
        have hlabel := (keyword?_eq_colon_iff isKeyword_author).1 hv
        split at h
        · cases h
        · next word r hne hspan =>
          split at h
          · next hr =>
            cases h
            obtain ⟨hword, hall, -⟩ := span_eq_iff.1 hspan
            obtain ⟨b', rfl, hb', -⟩ := trimStart_eq_iff.1 hword
            refine .some hb ?_ hb' ?_ ?_ hr
            · rwa [String.toList_ofList]
            · rwa [Ne, ← String.toList_eq_nil_iff, String.toList_ofList]
            · rwa [String.toList_ofList]
          · cases h
      · cases h
    · cases h
  · intro h
    generalize hname : name.map String.ofList = author at h
    cases h with
    | none hb =>
        cases Option.map_eq_none_iff.1 hname
        simp only [author?, trimStart_eq_nil hb]
    | @some b b' b'' u word hb hu hb' hne hword hb'' =>
        obtain ⟨word, rfl, rfl⟩ := Option.map_eq_some_iff.1 hname
        rw [String.toList_ofList] at hu hword
        rw [Ne, ← String.toList_eq_nil_iff, String.toList_ofList] at hne
        have hspan : (word ++ b'').span isWord = (word, b'') := by
          refine span_eq_iff.2 ⟨rfl, hword, ?_⟩
          cases b'' with
          | nil => rfl
          | cons c b =>
              simpa using isWord_eq_false_of_isBlank (List.all_eq_true.1 hb'' c List.mem_cons_self)
        have htrim : trimStart (b ++ ',' :: u) = ',' :: u := trimStart_append hb rfl
        have hstart : trimStart (b' ++ (word ++ b'')) = word ++ b'' :=
          trimStart_append hb'
            (head?_append_not_blank (fun _ => isWord_eq_false_of_isBlank) hne hword b'')
        simp only [author?, htrim, (keyword?_eq_colon_iff isKeyword_author).2 hu, hstart, hspan]
        cases word with
        | nil => exact absurd rfl hne
        | cons c word => simp only [hb'', if_true]

theorem readDigits_eq_ok_iff : readDigits 0 digits = .ok version ↔ IsVersion digits version := by
  constructor
  · intro h
    obtain ⟨hdigits, hversion⟩ := digits_of_readDigits h
    exact ⟨hdigits, hversion, readDigits_le (Nat.zero_le _) h⟩
  · rintro ⟨hdigits, rfl, hle⟩
    exact readDigits_eq_ok hdigits hle

theorem header_eq_ok_iff {number : Nat} : header number line digits rest = .ok ⟨version, author⟩ ↔
    IsVersion digits version ∧ IsAuthorClause rest author := by
  rw [← readDigits_eq_ok_iff]
  constructor
  · intro h
    rw [header] at h
    split at h
    · cases h
    · next name hname =>
      split at h
      · next hversion =>
        cases h
        exact ⟨hversion, author?_eq_some_iff.1 hname⟩
      · cases h
  · rintro ⟨hversion, hclause⟩
    obtain ⟨name, rfl⟩ : ∃ name : Option (List Char), author = name.map String.ofList :=
      ⟨author.map String.toList, by cases author <;> simp⟩
    simp only [header, author?_eq_some_iff.2 hclause, hversion]

theorem isHeader_iff (number : Nat) : IsHeader line version author ↔ ∃ digits rest,
    headerDigits? line = some (digits, rest) ∧
      header number line digits rest = .ok ⟨version, author⟩ := by
  constructor
  · rintro ⟨digits, rest, hline, hversion, hclause⟩
    exact ⟨digits, rest, headerDigits?_eq_some_iff.2 ⟨hline, hclause.head?⟩,
      header_eq_ok_iff.2 ⟨hversion, hclause⟩⟩
  · rintro ⟨digits, rest, hline, hheader⟩
    obtain ⟨hversion, hclause⟩ := header_eq_ok_iff.1 hheader
    exact ⟨digits, rest, (headerDigits?_eq_some_iff.1 hline).1, hversion, hclause⟩

end Readers

end MigrationFile

end SchemaDeploy
