import SchemaDeploy.Proofs.ExportedLiterals
import SchemaDeploy.Proofs.MigrationGrammar
import SchemaDeploy.Proofs.WrittenUnits

namespace SchemaDeploy

namespace MigrationFile

open Text

section Quotes

variable {a b p t x : List Char} {digits v : List Char}

theorem quote_not_mem_of_allBlank (hb : allBlank b = true) : '\'' ∉ b := fun h =>
  absurd (List.all_eq_true.1 hb _ h) (by decide)

theorem quote_not_mem_of_spells {keyword : List Char}
    (hk : keyword.all (fun k => !foldsTo k '\'') = true) (h : Spells keyword x) : '\'' ∉ x := by
  induction h with
  | nil => exact List.not_mem_nil
  | @cons k c ks cs hc _ ih =>
      rw [List.all_cons, Bool.and_eq_true] at hk
      rw [List.mem_cons, not_or]
      refine ⟨?_, ih hk.2⟩
      rintro rfl
      simp [hc] at hk

theorem IsNumbered.quote_not_mem (h : IsNumbered p digits []) : '\'' ∉ p := by
  obtain ⟨b, ⟨b', _, rfl, hb', w, k, w', rfl, hw, hk, hw'⟩, hb, -, hdigits⟩ := h
  have hdigits : '\'' ∉ digits := fun h => absurd (hdigits _ h) (by decide)
  have hk : '\'' ∉ k := quote_not_mem_of_spells (by decide) hk
  simp [quote_not_mem_of_allBlank, hb', hw, hk, hw', hb, hdigits]

theorem opensUnit_append_quote : OpensUnit (x ++ '\'' :: t) ↔ OpensUnit x := by
  rw [opensUnit_iff_exists, opensUnit_iff_exists]
  constructor
  · rintro ⟨p, digits, hp, hnumbered⟩
    refine ⟨p, digits, ?_, hnumbered⟩
    rcases List.prefix_or_prefix_of_prefix hp (List.prefix_append x ('\'' :: t)) with h | ⟨q, rfl⟩
    · exact h
    · rw [List.prefix_append_right_inj, List.prefix_cons_iff] at hp
      rcases hp with rfl | ⟨q, rfl, -⟩
      · rw [List.append_nil]
      · exact absurd (by simp) hnumbered.quote_not_mem
  · rintro ⟨p, digits, hp, hnumbered⟩
    exact ⟨p, digits, hp.trans (List.prefix_append x _), hnumbered⟩

theorem hasHeader_line_append_quote (hx : '\n' ∉ x) :
    HasHeader (x ++ '\'' :: t) ↔ OpensUnit x ∨ HasInnerHeader t := by
  have hx' : '\n' ∉ x ++ ['\''] := by simpa using hx
  rw [List.append_cons]
  cases ht : rawLines t with
  | nil =>
      have hnil : t = [] := by rw [← flatten_rawLines t, ht, List.flatten_nil]
      rw [hnil, List.append_nil, hasHeader_of_not_mem hx', opensUnit_append_quote]
      exact (or_iff_left (not_hasInnerHeader List.not_mem_nil)).symm
  | cons l ls =>
      rw [HasHeader, HasInnerHeader, rawLines_append_left hx' ht, ht, List.exists_mem_cons_iff,
        List.append_assoc, List.singleton_append, opensUnit_append_quote, List.tail_cons]

theorem hasHeader_append_quote (hx : '\n' ∉ x) :
    HasHeader (x ++ (a ++ '\'' :: b)) ↔ HasHeader (x ++ a) ∨ HasInnerHeader b := by
  induction a generalizing x with
  | nil => rw [List.nil_append, List.append_nil, hasHeader_line_append_quote hx, hasHeader_of_not_mem hx]
  | cons c a ih =>
      by_cases hc : c = '\n'
      · subst hc
        have hrest := ih (x := []) List.not_mem_nil
        rw [List.nil_append, List.nil_append] at hrest
        rw [List.cons_append, hasHeader_append_newline, hasHeader_append_newline, hrest, or_assoc]
      · have hx' : '\n' ∉ x ++ [c] := by simpa [hx] using Ne.symm hc
        have hrest := ih hx'
        rwa [← List.append_cons, ← List.append_cons] at hrest

theorem hasInnerHeader_append_quote :
    HasInnerHeader (a ++ '\'' :: b) ↔ HasInnerHeader a ∨ HasInnerHeader b := by
  by_cases ha : '\n' ∈ a
  · obtain ⟨x, y, rfl, hx⟩ := List.eq_append_cons_of_mem ha
    have hrest := hasHeader_append_quote (x := []) (a := y) (b := b) List.not_mem_nil
    rw [List.append_assoc, List.cons_append, hasInnerHeader_append_newline hx,
      hasInnerHeader_append_newline hx]
    exact hrest
  · have ha' : '\n' ∉ a ++ ['\''] := by simpa using ha
    rw [List.append_cons, hasInnerHeader_append_left ha']
    exact (or_iff_right (not_hasInnerHeader ha)).symm

end Quotes

section Values

def Carries (p : List Char) (P : Prop) : Prop :=
  ∀ t, HasInnerHeader (p ++ t) ↔ P ∨ HasInnerHeader t

variable {p q v x : List Char} {P Q : Prop}

theorem carries_of_not_mem (hx : '\n' ∉ x) : Carries x False := fun t => by
  rw [hasInnerHeader_append_left hx, false_or]

theorem Carries.append (hp : Carries p P) (hq : Carries q Q) : Carries (p ++ q) (P ∨ Q) := fun t => by
  rw [List.append_assoc, hp, hq, or_assoc]

theorem Carries.congr (h : Carries p P) (hPQ : P ↔ Q) : Carries p Q := fun t => by
  rw [h, hPQ]

theorem carries_quoted : Carries ('\'' :: (v ++ ['\''])) (HasInnerHeader v) := fun t => by
  have hquote := hasInnerHeader_append_left (x := ['\'']) (t := v ++ '\'' :: t) (by decide)
  have htext : '\'' :: (v ++ ['\'']) ++ t = ['\''] ++ (v ++ '\'' :: t) := by simp
  rw [htext, hquote, hasInnerHeader_append_quote]

theorem hasInnerHeader_append_doubled :
    HasInnerHeader (x ++ doubled v) ↔ HasInnerHeader (x ++ v) := by
  induction v generalizing x with
  | nil => rfl
  | cons c v ih =>
      by_cases hc : c = '\''
      · subst hc
        have hquote := hasInnerHeader_append_left (x := ['\'']) (t := doubled v) (by decide)
        have hrest := ih (x := [])
        rw [List.nil_append, List.nil_append] at hrest
        rw [doubled_quote, hasInnerHeader_append_quote, hasInnerHeader_append_quote, ← hrest, ← hquote]
        rfl
      · rw [doubled_cons hc, List.append_cons, List.append_cons x c v]
        exact ih

theorem hasInnerHeader_doubled : HasInnerHeader (doubled v) ↔ HasInnerHeader v :=
  hasInnerHeader_append_doubled (x := [])

theorem carries_valueText (value : Option String) :
    Carries (valueText value).toList (∃ v, value = some v ∧ HasInnerHeader v.toList) := by
  cases value with
  | none => exact (carries_of_not_mem (by decide)).congr (by simp)
  | some v =>
      rw [toList_valueText]
      exact carries_quoted.congr (by simp [hasInnerHeader_doubled])

theorem carries_intercalate {α : Type} (separator : String) {f : α → String} {P : α → Prop}
    (hseparator : '\n' ∉ separator.toList) (h : ∀ a, Carries (f a).toList (P a)) (as : List α) :
    Carries (separator.intercalate (as.map f)).toList (∃ a ∈ as, P a) := by
  rw [String.toList_intercalate, List.map_map]
  induction as with
  | nil => exact (carries_of_not_mem List.not_mem_nil).congr (by simp)
  | cons a as ih =>
      cases as with
      | nil =>
          rw [List.map_singleton, List.intercalate_singleton]
          exact (h a).congr (by simp)
      | cons a' as =>
          rw [List.map_cons, List.map_cons, List.intercalate_cons_cons, ← List.map_cons]
          exact (((h a).append (carries_of_not_mem hseparator)).append ih).congr (by simp)

theorem carries_rowText (row : Row) :
    Carries (rowText row).toList (∃ v, some v ∈ row ∧ HasInnerHeader v.toList) := by
  have hvalues := carries_intercalate ", " (by decide) carries_valueText row
  have hopen : Carries "(".toList False := carries_of_not_mem (by decide)
  have hclose : Carries ")".toList False := carries_of_not_mem (by decide)
  rw [rowText, String.toList_append, String.toList_append]
  refine ((hopen.append hvalues).append hclose).congr ?_
  simp only [false_or, or_false]
  constructor
  · rintro ⟨_, hmem, v, rfl, hv⟩
    exact ⟨v, hmem, hv⟩
  · rintro ⟨v, hmem, hv⟩
    exact ⟨some v, hmem, v, rfl, hv⟩

end Values

section Export

variable {database schema name : String} {rows : List Row}

def insertText (table : String) (rows : List Row) : String :=
  "INSERT INTO " ++ table ++ " values" ++ ", ".intercalate (rows.map rowText) ++ ";"

theorem hasHeader_insertText {table : String} (htable : '\n' ∉ table.toList) (rows : List Row) :
    HasHeader (insertText table rows).toList ↔
      ∃ row ∈ rows, ∃ v, some v ∈ row ∧ HasInnerHeader v.toList := by
  have hbefore : Carries ("INSERT INTO " ++ table ++ " values").toList False :=
    carries_of_not_mem (by simp [htable])
  have hrows := carries_intercalate ", " (by decide) carries_rowText rows
  have hend : Carries ";".toList False := carries_of_not_mem (by decide)
  have hinner := ((hbefore.append hrows).append hend) []
  rw [List.append_nil, ← String.toList_append, ← String.toList_append, false_or, or_false,
    or_iff_left (not_hasInnerHeader List.not_mem_nil)] at hinner
  rw [← hinner]
  apply hasHeader_iff_hasInnerHeader
  unfold insertText
  simp only [String.toList_append, List.append_assoc]
  exact head?_append_any (by decide)

def rowsUnit (table : String) (rows : List Row) (htable : '\n' ∉ table.toList) : WrittenUnit where
  header := ⟨1, some Script.generatedAuthor⟩
  line := ("---version: 1, author: " ++ Script.generatedAuthor).toList
  body := (insertText table rows).toList
  rollback := ("DELETE FROM " ++ table ++ ";").toList
  verify := ("SELECT COUNT(*) FROM " ++ table ++ ";").toList
  isLine := by decide
  isHeader := (isHeader_iff 0).2 ⟨_, _, rfl, rfl⟩
  starts := by decide
  isRollback := by
    rw [String.toList_append, String.toList_append]
    exact isStatement_append (by decide) (by decide) htable (by decide) (by decide)
  isVerify := by
    rw [String.toList_append, String.toList_append]
    exact isStatement_append (by decide) (by decide) htable (by decide) (by decide)

theorem content_withRows {s : Script} (hs : s.objectType = .table) (hrows : rows ≠ []) :
    (s.withRows rows).content = trimText (s.content ++ "\n\n" ++
      ("---version: 1, author: " ++ Script.generatedAuthor ++ "\n" ++ insertText s.fullName rows ++
        "\n---rollback: " ++ ("DELETE FROM " ++ s.fullName ++ ";") ++
        "\n---verify: " ++ ("SELECT COUNT(*) FROM " ++ s.fullName ++ ";"))) := by
  have hheader : "\n\n---version: 1, author: " = "\n\n" ++ "---version: 1, author: " := rfl
  have hinsert : "\nINSERT INTO " = "\n" ++ "INSERT INTO " := rfl
  have hrollback : ";\n---rollback: DELETE FROM " = ";" ++ ("\n---rollback: " ++ "DELETE FROM ") := rfl
  have hverify : ";\n---verify: SELECT COUNT(*) FROM " =
      ";" ++ ("\n---verify: " ++ "SELECT COUNT(*) FROM ") := rfl
  rw [Script.withRows, if_pos ⟨hs, hrows⟩]
  unfold insertText
  simp only [Script.setContent, hheader, hinsert, hrollback, hverify, String.append_assoc]

theorem exists_written_withRows {s : Script} (hs : s.objectType = .table) (hrows : rows ≠ [])
    (hline : '\n' ∉ s.fullName.toList) {w : WrittenUnit} (hw : s.content.toList = w.text) :
    ∃ w' : WrittenUnit, (s.withRows rows).content.toList = w.text ++ '\n' :: '\n' :: w'.text ∧
      w'.header.version = 1 ∧ w'.body = (insertText s.fullName rows).toList ∧
      w'.rollback = ("DELETE FROM " ++ s.fullName ++ ";").toList ∧
      w'.verify = ("SELECT COUNT(*) FROM " ++ s.fullName ++ ";").toList := by
  refine ⟨rowsUnit s.fullName rows hline, ?_, by rw [rowsUnit], by rw [rowsUnit], by rw [rowsUnit],
    by rw [rowsUnit]⟩
  have hunit : ("---version: 1, author: " ++ Script.generatedAuthor ++ "\n" ++
      insertText s.fullName rows ++ "\n---rollback: " ++ ("DELETE FROM " ++ s.fullName ++ ";") ++
      "\n---verify: " ++ ("SELECT COUNT(*) FROM " ++ s.fullName ++ ";")).toList =
        (rowsUnit s.fullName rows hline).text := by
    rw [toList_written, WrittenUnit.text, rowsUnit]
  have hnewlines : "\n\n".toList = ['\n', '\n'] := rfl
  have hlast := (rowsUnit s.fullName rows hline).getLast?_text
  generalize (rowsUnit s.fullName rows hline).text = text at hunit hlast ⊢
  rw [content_withRows hs hrows, trimText, String.toList_ofList, String.toList_append, hunit,
    String.toList_append, hw, hnewlines, List.append_assoc]
  exact trim_eq_self (head?_append_any w.head?_text) (getLast?_append_any (getLast?_append_any hlast))

theorem hasHeader_iff_fileLines {content : String} :
    HasHeader content.toList ↔ ∃ l ∈ fileLines content, OpensUnit l := by
  simp [HasHeader, fileLines, opensUnit_withoutLineEnd]

theorem hasInnerHeader_iff_fileLines {content : String} :
    HasInnerHeader content.toList ↔ ∃ l ∈ (fileLines content).tail, OpensUnit l := by
  simp [HasInnerHeader, fileLines, ← List.map_tail, opensUnit_withoutLineEnd]

theorem exists_written (ddl : String) (hdatabase : '\n' ∉ database.toList)
    (hschema : '\n' ∉ schema.toList) (hname : '\n' ∉ name.toList) (hrows : rows ≠ []) :
    let s := Script.initial database schema .table name ddl
    ∃ w w' : WrittenUnit, (s.withRows rows).content.toList = w.text ++ '\n' :: '\n' :: w'.text ∧
      w.header.version = 0 ∧ w'.header.version = 1 ∧
      w'.rollback = ("DELETE FROM " ++ s.fullName ++ ";").toList ∧
      w'.verify = ("SELECT COUNT(*) FROM " ++ s.fullName ++ ";").toList ∧
      (¬ HasHeader w.body ↔ ∀ l ∈ fileLines ddl, ¬ OpensUnit l) ∧
      (¬ HasHeader w'.body ↔
        ∀ row ∈ rows, ∀ v, some v ∈ row → ∀ l ∈ (fileLines v).tail, ¬ OpensUnit l) := by
  intro s
  have hline : '\n' ∉ s.fullName.toList := Script.not_mem_fullName (not_mem_upperText hdatabase)
    (not_mem_upperText hschema) (not_mem_upperText hname)
  obtain ⟨w, hw, hversion, hbody⟩ :=
    Script.exists_written_initial .table ddl hdatabase hschema hname
  obtain ⟨w', hcontent, hversion', hbody', hrollback, hverify⟩ :=
    exists_written_withRows (s := s) rfl hrows hline hw
  refine ⟨w, w', hcontent, hversion, hversion', hrollback, hverify, ?_, ?_⟩
  · rw [hbody, trimText, String.toList_ofList, hasHeader_trim, hasHeader_iff_fileLines]
    simp
  · rw [hbody', hasHeader_insertText hline]
    simp [hasInnerHeader_iff_fileLines]

/-- The rows of a table are read back as the second unit of its file exactly if no line of the
definition, and no line of a value behind its first one, opens a unit. -/
theorem units_withRows_iff (ddl : String) (hdatabase : '\n' ∉ database.toList)
    (hschema : '\n' ∉ schema.toList) (hname : '\n' ∉ name.toList) (hrows : rows ≠ []) :
    let s := Script.initial database schema .table name ddl
    (∃ u v, units (s.withRows rows).content = .ok [u, v] ∧ u.version = 0 ∧ v.version = 1 ∧
      v.rollback = some ("DELETE FROM " ++ s.fullName ++ ";") ∧
      v.verify = some ("SELECT COUNT(*) FROM " ++ s.fullName ++ ";")) ↔
    (∀ l ∈ fileLines ddl, ¬ OpensUnit l) ∧
      ∀ row ∈ rows, ∀ v, some v ∈ row → ∀ l ∈ (fileLines v).tail, ¬ OpensUnit l := by
  intro s
  obtain ⟨w, w', hcontent, hversion, hversion', hrollback, hverify, hddl, hvalues⟩ :=
    exists_written ddl hdatabase hschema hname hrows
  rw [← hddl, ← hvalues]
  constructor
  · rintro ⟨u, v, h, -⟩
    exact not_hasHeader_of_units_pair hcontent h
  · rintro ⟨hno, hno'⟩
    have hne : w.header.version ≠ w'.header.version := by
      rw [hversion, hversion']
      exact Nat.zero_ne_one
    refine ⟨w.unit, w'.unit, units_pair hcontent hne hno hno', hversion, hversion', ?_, ?_⟩
    · rw [WrittenUnit.unit, hrollback, String.ofList_toList]
    · rw [WrittenUnit.unit, hverify, String.ofList_toList]

theorem units_withRows_iff_tableT :
    let s := Script.initial "DB" "S" .table "T" "CREATE TABLE T (A VARCHAR);"
    let rows : List Row := [[some "it's\r\n-- two", none], [some "---version: 2", none]]
    '\n' ∉ "DB".toList ∧ '\n' ∉ "S".toList ∧ '\n' ∉ "T".toList ∧ rows ≠ [] ∧
      ∃ u v, units (s.withRows rows).content = .ok [u, v] ∧ u.version = 0 ∧ v.version = 1 ∧
        v.rollback = some ("DELETE FROM " ++ s.fullName ++ ";") ∧
        v.verify = some ("SELECT COUNT(*) FROM " ++ s.fullName ++ ";") := by
  intro s rows
  have hvalues : ∀ row ∈ rows, ∀ v, some v ∈ row → ∀ l ∈ (fileLines v).tail, ¬ OpensUnit l := by
    have hfirst : ∀ l ∈ (fileLines "it's\r\n-- two").tail, ¬ OpensUnit l := by decide
    have hsecond : ∀ l ∈ (fileLines "---version: 2").tail, ¬ OpensUnit l := by decide
    simpa [rows] using ⟨hfirst, hsecond⟩
  refine ⟨by decide, by decide, by decide, by decide, ?_⟩
  exact (units_withRows_iff "CREATE TABLE T (A VARCHAR);" (by decide) (by decide) (by decide)
    (by decide)).2 ⟨by decide, hvalues⟩

/-- The rows need not be read back: a value may hold a header. -/
theorem not_units_withRows :
    ¬ ∀ (database schema name ddl : String) (rows : List Row), '\n' ∉ database.toList →
      '\n' ∉ schema.toList → '\n' ∉ name.toList →
      (∀ l ∈ fileLines ddl, ¬ ['-', '-', '-'] <+: trimStart l) → rows ≠ [] →
      let s := Script.initial database schema .table name ddl
      ∃ u v, units (s.withRows rows).content = .ok [u, v] ∧ u.version = 0 ∧ v.version = 1 ∧
        v.rollback = some ("DELETE FROM " ++ s.fullName ++ ";") ∧
        v.verify = some ("SELECT COUNT(*) FROM " ++ s.fullName ++ ";") := by
  intro h
  let ddl := "CREATE TABLE T (A VARCHAR);"
  let rows : List Row := [[some "x\n---version: 2\ny"]]
  have hdatabase : '\n' ∉ "DB".toList := by decide
  have hschema : '\n' ∉ "S".toList := by decide
  have hname : '\n' ∉ "T".toList := by decide
  have hrows : rows ≠ [] := by decide
  obtain ⟨u, v, hunits, -⟩ := h "DB" "S" "T" ddl rows hdatabase hschema hname (by decide) hrows
  obtain ⟨w, w', hcontent, -, -, -, -, -, hvalues⟩ := exists_written ddl hdatabase hschema hname hrows
  have hno := hvalues.1 (not_hasHeader_of_units_pair hcontent hunits).2
  have hopens : OpensUnit "---version: 2".toList := by decide
  have hmem : "---version: 2".toList ∈ (fileLines "x\n---version: 2\ny").tail := by decide
  exact hno _ List.mem_cons_self _ List.mem_cons_self _ hmem hopens

end Export

end MigrationFile

end SchemaDeploy
