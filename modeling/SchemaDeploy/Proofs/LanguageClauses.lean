import SchemaDeploy.Proofs.SpelledReferences
import SchemaDeploy.Proofs.ViewHeaders
import SchemaDeploy.Proofs.Wiring

namespace SchemaDeploy.Dependency

open Text Sql Body

variable {a header body name t u v w : List Char} {previous : Option Char}

/-- Whether a text begins with the word LANGUAGE and the name of a language; `previous` is the character
before the text. -/
def BeginsClause (previous : Option Char) (name t : List Char) : Prop :=
  previous.all (!isWord ·) = true ∧ ∃ language rest, t = language ++ (name ++ rest) ∧
    IsSpaced "LANGUAGE" language ∧ name ≠ [] ∧ (∀ c ∈ name, isWord c = true) ∧
      rest.head?.all (!isWord ·) = true

/-- Whether the first clause of a text names a language. -/
def FirstNames (name t : List Char) : Prop :=
  ∃ u v, t = u ++ v ∧ BeginsClause u.getLast? name v ∧
    ∀ u' v' name', t = u' ++ v' → u'.length < u.length → ¬ BeginsClause u'.getLast? name' v'

/-- Whether a keyword stands in a text as a word of its own. -/
def HasWord (keyword : String) (t : List Char) : Prop :=
  ∃ u w v, t = u ++ (w ++ v) ∧ Spells keyword.toList w ∧ u.getLast?.all (!isWord ·) = true ∧
    v.head?.all (!isWord ·) = true

/-- Whether a text falls into two parts around a word AS. -/
def SplitsAtAs (t header body : List Char) : Prop :=
  ∃ as, t = header ++ (as ++ body) ∧ same as "AS".toList = true ∧
    header.getLast?.all (!isWord ·) = true ∧ body.head?.all (!isWord ·) = true

def clause? (previous : Option Char) (t : List Char) : Option (List Char) := do
  guard (!previous.any isWord)
  let r ← keyword? "LANGUAGE".toList t
  let _ ← r.head?.filter isBlank
  match (trimStart r).takeWhile isWord with
  | [] => none
  | w => some w

theorem language?_cons (previous : Option Char) (c : Char) (t : List Char) :
    language? previous (c :: t) = (clause? previous (c :: t)).or (language? (some c) t) :=
  rfl

section Clauses

theorem clause?_eq (previous : Option Char) (t : List Char) : clause? previous t =
    if previous.any isWord then none
    else (spaced? "LANGUAGE" t).bind fun r => (run? isWord r).map Prod.fst := by
  have hname (r : List Char) : (run? isWord r).map Prod.fst =
      match r.takeWhile isWord with
      | [] => none
      | w => some w := by
    rw [run?]
    cases r.takeWhile isWord <;> rfl
  rw [clause?, spaced?, Option.bind_assoc]
  cases previous.any isWord with
  | true => rfl
  | false =>
      cases keyword? "LANGUAGE".toList t with
      | none => rfl
      | some r =>
          rcases r with - | ⟨c, r⟩
          · rfl
          · simp only [Option.bind_some, blanks?, hname]
            cases hc : isBlank c with
            | false => simp [Option.filter, hc]
            | true => simp [Option.filter, hc, trimStart]

theorem clause?_eq_some_iff : clause? previous t = some name ↔ BeginsClause previous name t := by
  have hstarts : previous.all (!isWord ·) = true ↔ previous.any isWord = false := by
    cases previous <;> simp
  rw [clause?_eq, BeginsClause, hstarts]
  cases previous.any isWord with
  | true => simp
  | false =>
    rw [if_neg Bool.false_ne_true, and_iff_right rfl, Option.bind_eq_some_iff]
    constructor
    · rintro ⟨r, hr, hname⟩
      obtain ⟨language, rfl, hlanguage, -⟩ := spaced?_eq_some_iff.1 hr
      obtain ⟨⟨w, rest⟩, hrun, rfl⟩ := Option.map_eq_some_iff.1 hname
      obtain ⟨rfl, hne, hw, hrest⟩ := run?_eq_some_iff.1 hrun
      exact ⟨language, rest, rfl, hlanguage, hne, hw, hrest⟩
    · rintro ⟨language, rest, rfl, hlanguage, hne, hw, hrest⟩
      have hstart := MigrationFile.head?_append_not_blank (fun _ => isWord_eq_false_of_isBlank) hne hw
        rest
      exact ⟨name ++ rest, spaced?_append hlanguage hstart, by rw [run?_append hne hw hrest]; rfl⟩

theorem clause?_eq_none (h : ∀ name, ¬ BeginsClause previous name t) : clause? previous t = none :=
  Option.eq_none_iff_forall_ne_some.2 fun name hname => h name (clause?_eq_some_iff.1 hname)

theorem language?_append {a : List Char} (h : ∀ u v name, a = u ++ v → v ≠ [] →
      ¬ BeginsClause (w ++ u).getLast? name (v ++ t)) :
    language? w.getLast? (a ++ t) = language? (w ++ a).getLast? t := by
  induction a generalizing w with
  | nil => rw [List.nil_append, List.append_nil]
  | cons c a ih =>
      have hhere : clause? w.getLast? (c :: (a ++ t)) = none := by
        refine clause?_eq_none fun name => ?_
        have hc := h [] (c :: a) name rfl (List.cons_ne_nil c a)
        rwa [List.append_nil] at hc
      have hrest := ih (w := w ++ [c]) fun u v name ha hv => by
        have hu := h (c :: u) v name (by rw [ha, List.cons_append]) hv
        rwa [List.append_cons] at hu
      rw [List.getLast?_concat, List.append_assoc] at hrest
      rw [List.cons_append, language?_cons, hhere, Option.none_or, hrest]
      rfl

theorem BeginsClause.starts (h : BeginsClause previous name t) : Starts 'L' t := by
  obtain ⟨-, language, rest, rfl, hlanguage, -⟩ := h
  exact hlanguage.starts rfl _

theorem language?_of_beginsClause (h : BeginsClause previous name t) :
    language? previous t = some name := by
  obtain ⟨c, r, rfl, -⟩ := h.starts.exists_cons
  rw [language?_cons, clause?_eq_some_iff.2 h, Option.some_or]

theorem language?_eq_some_iff : language? none t = some name ↔ FirstNames name t := by
  constructor
  · suffices hfrom : ∀ w, language? (w : List Char).getLast? t = some name →
        ∃ u v, t = u ++ v ∧ BeginsClause (w ++ u).getLast? name v ∧
          ∀ u' v' name', t = u' ++ v' → u'.length < u.length →
            ¬ BeginsClause (w ++ u').getLast? name' v' from hfrom []
    intro w h
    induction t generalizing w with
    | nil => cases h
    | cons c t ih =>
        rw [language?_cons] at h
        cases hc : clause? w.getLast? (c :: t) with
        | some name' =>
            rw [hc, Option.some_or] at h
            obtain rfl := Option.some.inj h
            refine ⟨[], c :: t, rfl, ?_, fun _ _ _ _ hlt => absurd hlt (Nat.not_lt_zero _)⟩
            rw [List.append_nil]
            exact clause?_eq_some_iff.1 hc
        | none =>
            have hlast : (w ++ [c]).getLast? = some c := List.getLast?_concat
            rw [hc, Option.none_or, ← hlast] at h
            obtain ⟨u, v, rfl, hv, hfirst⟩ := ih _ h
            refine ⟨c :: u, v, rfl, by rwa [List.append_cons], ?_⟩
            rintro (- | ⟨d, u'⟩) v' name' hsplit hlt hclause
            · rw [List.append_nil, ← clause?_eq_some_iff] at hclause
              rw [← List.nil_append v', ← hsplit, hc] at hclause
              cases hclause
            · obtain ⟨rfl, hrest⟩ := List.cons.inj hsplit
              rw [List.append_cons] at hclause
              exact hfirst u' v' name' hrest (Nat.lt_of_succ_lt_succ hlt) hclause
  · rintro ⟨u, v, rfl, hv, hfirst⟩
    have hskip := language?_append (w := []) (a := u) (t := v) fun u' v' name' hu hne => by
      refine hfirst u' (v' ++ v) name' (by rw [hu, List.append_assoc]) ?_
      rw [hu, List.length_append]
      exact Nat.lt_add_of_pos_right (List.length_pos_iff.2 hne)
    rw [List.nil_append] at hskip
    exact hskip.trans (language?_of_beginsClause hv)

end Clauses

section Words

theorem BeginsClause.hasWord {x r : List Char} (h : BeginsClause u.getLast? name (x ++ r))
    (hx : x ≠ []) (hlast : x.getLast?.all (!isWord ·) = true) : HasWord "LANGUAGE" (u ++ x) := by
  obtain ⟨hprevious, _, rest, hsplit, ⟨k, b, rfl, hk, hne, hb⟩, -⟩ := h
  have hletters : "LANGUAGE".toList.all Char.isAlpha = true := by decide
  have hword := isWord_of_spells (List.all_eq_true.1 hletters) hk
  have hinside : ¬ x ⊆ k := fun hsub => by
    obtain ⟨y, c, rfl⟩ := (List.eq_nil_or_concat' x).resolve_left hx
    simp [hword c (hsub (by simp))] at hlast
  rw [List.append_assoc] at hsplit
  rcases List.append_eq_append_iff.1 hsplit with ⟨y, rfl, -⟩ | ⟨y, rfl, hrest⟩
  · exact absurd (List.subset_append_left x y) hinside
  · obtain ⟨d, b, rfl⟩ := List.exists_cons_of_ne_nil hne
    cases y with
    | nil =>
        rw [List.append_nil] at hinside
        exact absurd (List.Subset.refl k) hinside
    | cons c y =>
        obtain ⟨rfl, -⟩ := List.cons.inj hrest
        have hd : isWord d = false :=
          isWord_eq_false_of_isBlank (List.all_eq_true.1 hb d List.mem_cons_self)
        exact ⟨u, k, d :: y, rfl, hk, hprevious, by simp [hd]⟩

theorem language?_of_head (ht : t.head?.all (!isWord ·) = true) (previous : Option Char) :
    language? previous t = language? none t := by
  cases t with
  | nil => rfl
  | cons c t =>
      have hnone (previous : Option Char) : clause? previous (c :: t) = none := by
        refine clause?_eq_none fun name h => ?_
        obtain ⟨d, r, hd, hfold⟩ := h.starts.exists_cons
        obtain ⟨rfl, rfl⟩ := List.cons.inj hd
        simp [isWord_of_foldsTo (k := 'L') (by decide) hfold] at ht
      rw [language?_cons, language?_cons, hnone, hnone]

theorem language?_of_splitsAtAs (h : SplitsAtAs t header body) (hheader : ¬ HasWord "LANGUAGE" header) :
    language? none t = language? none body := by
  obtain ⟨as, rfl, has, hbefore, hbehind⟩ := h
  obtain ⟨a, s, rfl, ha, hs⟩ : ∃ a s, as = [a, s] ∧ a.toLower = 'a' ∧ s.toLower = 's' := by
    obtain ⟨a, _, rfl, ha, has⟩ := List.map_eq_cons_iff.1 (eq_of_beq has)
    obtain ⟨s, _, rfl, hs, hnil⟩ := List.map_eq_cons_iff.1 has
    exact ⟨a, s, by rw [List.map_eq_nil_iff.1 hnil], ha, hs⟩
  have hletter : isWord a = true := by
    apply isWord_of_isAlpha
    rw [← Char.isAlpha_toLower_eq_isAlpha, ha]
    decide
  have hatAs (previous : Option Char) (name r : List Char) :
      ¬ BeginsClause previous name (a :: s :: r) := by
    intro h
    obtain ⟨d, r', hd, hfold⟩ := h.starts.exists_cons
    obtain ⟨rfl, -⟩ := List.cons.inj hd
    have hcase : foldsTo 'A' a = true := by simp [foldsTo, sameLetter, ha]
    have hsame := (toLower_of_foldsTo (by decide) hfold).trans
      (toLower_of_foldsTo (by decide) hcase).symm
    exact absurd hsame (by decide)
  have hskip := language?_append (w := []) (a := header ++ [a, s]) (t := body)
    fun u v name hsplit hv hclause => by
      rw [List.nil_append] at hclause
      rcases List.append_eq_append_iff.1 hsplit with ⟨x, rfl, has⟩ | ⟨x, rfl, rfl⟩
      · rcases x with - | ⟨c, - | ⟨d, x⟩⟩
        · obtain rfl : [a, s] = v := has
          exact hatAs _ _ _ hclause
        · obtain ⟨rfl, -⟩ := List.cons.inj has
          have hprevious := hclause.1
          simp [hletter] at hprevious
        · have hnil := (List.cons.inj (List.cons.inj has).2).2
          exact hv (List.append_eq_nil_iff.1 hnil.symm).2
      · by_cases hx : x = []
        · subst hx
          exact hatAs _ _ _ hclause
        · rw [List.getLast?_append_of_ne_nil u hx] at hbefore
          rw [List.append_assoc] at hclause
          exact hheader (hclause.hasWord hx hbefore)
  rw [List.nil_append, List.append_assoc] at hskip
  exact hskip.trans (language?_of_head hbehind _)

theorem HasWord.exists_drop {keyword : String} (h : HasWord keyword t) :
    ∃ k ≤ t.length, (keyword? keyword.toList (t.drop k)).isSome = true := by
  obtain ⟨u, w, v, rfl, hw, -⟩ := h
  refine ⟨u.length, by simp, ?_⟩
  rw [List.drop_left, keyword?_eq_some_iff.2 ⟨w, rfl, hw⟩, Option.isSome_some]

end Words

section Functions

variable {s candidate : Script} {pool : List Script} {i : Nat}

theorem isForeign_iff (hs : s.objectType = .function) (t : List Char) : isForeign s t = true ↔
    ∃ language, language? none t = some language ∧ same language "SQL".toList = false := by
  rw [isForeign, hs]
  simp only [beq_self_eq_true, Bool.true_and, Option.any_eq_true, Bool.not_eq_true']

theorem mem_inferred_of_named (hi : pool[i]? = some candidate) (hne : candidate.fullName ≠ s.fullName)
    (hnamed : ∃ q ∈ references candidate.name.toList (clean s.content.toList),
      q.resolve s.database s.schema = candidate.fullName) :
    i ∈ inferred s pool ↔ ¬ isForeign s (clean s.content.toList) = true := by
  have hnames : names s (clean s.content.toList) candidate = true := by
    obtain ⟨q, hq, hresolve⟩ := hnamed
    exact List.any_eq_true.2 ⟨q, hq, beq_iff_eq.2 hresolve⟩
  have hearlier : isEarlierVersion s candidate = false := by
    rw [isEarlierVersion, beq_eq_false_iff_ne.2 hne]
    split <;> simp
  rw [mem_inferred, hi]
  simp [Infers, dependsOn, hnames, hearlier, hne]

/-- A function that declares no language before its body depends on a script that it names, unless its
body seems to name a language other than SQL. -/
theorem mem_inferred_function_iff (hs : s.objectType = .function)
    (hsplit : SplitsAtAs (clean s.content.toList) header body)
    (hheader : ¬ HasWord "LANGUAGE" header) (hi : pool[i]? = some candidate)
    (hne : candidate.fullName ≠ s.fullName)
    (hnamed : ∃ q ∈ references candidate.name.toList (clean s.content.toList),
      q.resolve s.database s.schema = candidate.fullName) :
    i ∈ inferred s pool ↔
      ¬ ∃ language, FirstNames language body ∧ same language "SQL".toList = false := by
  rw [mem_inferred_of_named hi hne hnamed, isForeign_iff hs, language?_of_splitsAtAs hsplit hheader]
  simp only [language?_eq_some_iff]

def languageOfTable : Script :=
  Script.state "DB" "S" .function "F"
    "CREATE FUNCTION F() RETURNS VARCHAR AS 'SELECT LANGUAGE FROM TABLE1'"

def table1 : Script :=
  Script.state "DB" "S" .table "TABLE1" "CREATE TABLE TABLE1 (ID INT)"

theorem clean_languageOfTable : clean languageOfTable.content.toList =
    "CREATE FUNCTION F() RETURNS VARCHAR AS 'SELECT LANGUAGE FROM TABLE1'".toList := by
  decide

theorem splitsAtAs_languageOfTable : SplitsAtAs (clean languageOfTable.content.toList)
    "CREATE FUNCTION F() RETURNS VARCHAR ".toList " 'SELECT LANGUAGE FROM TABLE1'".toList := by
  rw [clean_languageOfTable]
  exact ⟨"AS".toList, by decide, by decide, by decide, by decide⟩

theorem not_hasWord_languageOfTable :
    ¬ HasWord "LANGUAGE" "CREATE FUNCTION F() RETURNS VARCHAR ".toList := fun h =>
  absurd h.exists_drop (by decide)

theorem names_table1 : ∃ q ∈ references table1.name.toList (clean languageOfTable.content.toList),
    q.resolve languageOfTable.database languageOfTable.schema = table1.fullName := by
  rw [clean_languageOfTable]
  decide

theorem not_mem_inferred_languageOfTable : 0 ∉ inferred languageOfTable [table1] := by
  have hpool : [table1][0]? = some table1 := rfl
  have hlanguage : FirstNames "FROM".toList " 'SELECT LANGUAGE FROM TABLE1'".toList :=
    language?_eq_some_iff.1 (by decide)
  have hiff := mem_inferred_function_iff rfl splitsAtAs_languageOfTable not_hasWord_languageOfTable
    hpool (by decide) names_table1
  exact fun hmem => hiff.1 hmem ⟨"FROM".toList, hlanguage, by decide⟩

/-- That no language is declared before the body is not enough. -/
theorem not_forall_mem_inferred_function :
    ¬ ∀ (s candidate : Script) (pool : List Script) (i : Nat) (header body : List Char),
      s.objectType = .function → SplitsAtAs (clean s.content.toList) header body →
      ¬ HasWord "LANGUAGE" header → pool[i]? = some candidate →
      candidate.fullName ≠ s.fullName →
      (∃ q ∈ references candidate.name.toList (clean s.content.toList),
        q.resolve s.database s.schema = candidate.fullName) →
      i ∈ inferred s pool := by
  intro h
  have hne : table1.fullName ≠ languageOfTable.fullName := by decide
  have hmem := h languageOfTable table1 [table1] 0 _ _ rfl splitsAtAs_languageOfTable
    not_hasWord_languageOfTable rfl hne names_table1
  rw [mem_inferred_of_named rfl hne names_table1, clean_languageOfTable] at hmem
  exact hmem (by decide)

end Functions

end SchemaDeploy.Dependency
