import Mathlib.Data.List.Forall2
import SchemaDeploy.Query.Assertion

namespace SchemaDeploy.Query

section Redirection

variable {mocks : List String} {name : List Ident} {f g : Form} {p p' : Piece} {m : String}

/-- Whether a reference has several parts, the last of which is the name of a mock in any case. -/
def Mocked (mocks : List String) (name : List Ident) (m : String) : Prop :=
  2 ≤ name.length ∧ m ∈ mocks ∧ ∃ last, name.getLast? = some last ∧ upperText last.value = m

/-- What becomes of a piece of the subject's query. -/
inductive Redirected (mocks : List String) : Piece → Piece → Prop
  | text (s : String) : Redirected mocks (.text s) (.text s)
  | mock {name : List Ident} {m : String} (h : Mocked mocks name m) :
      Redirected mocks (.relation name) (.relation [⟨m, none⟩])
  | other {name : List Ident} (h : ∀ m, ¬ Mocked mocks name m) :
      Redirected mocks (.relation name) (.relation name)

theorem redirectName_of_mocked (h : Mocked mocks name m) :
    redirectName mocks name = [⟨m, none⟩] := by
  obtain ⟨hlength, hm, last, hlast, rfl⟩ := h
  rw [redirectName, hlast]
  exact if_pos ⟨hlength, List.contains_iff_mem.2 hm⟩

theorem redirectName_of_not_mocked (h : ∀ m, ¬ Mocked mocks name m) :
    redirectName mocks name = name := by
  rw [redirectName]
  split
  · next last hlast =>
    refine if_neg fun hc => h _ ⟨hc.1, List.contains_iff_mem.1 hc.2, last, hlast, rfl⟩
  · rfl

def redirectPiece (mocks : List String) : Piece → Piece
  | .relation name => .relation (redirectName mocks name)
  | .text s => .text s

theorem redirected_iff : Redirected mocks p p' ↔ redirectPiece mocks p = p' := by
  constructor
  · intro h
    cases h with
    | text s => rfl
    | mock hm => exact congrArg Piece.relation (redirectName_of_mocked hm)
    | other hnone => exact congrArg Piece.relation (redirectName_of_not_mocked hnone)
  · rintro rfl
    cases p with
    | text s => exact .text s
    | relation name =>
        rw [redirectPiece]
        by_cases hm : ∃ m, Mocked mocks name m
        · obtain ⟨m, hm⟩ := hm
          rw [redirectName_of_mocked hm]
          exact .mock hm
        · rw [redirectName_of_not_mocked (not_exists.1 hm)]
          exact .other (not_exists.1 hm)

theorem forall₂_redirected_iff : List.Forall₂ (Redirected mocks) f g ↔ redirect mocks f = g := by
  have hmap : redirect mocks f = f.map (redirectPiece mocks) := rfl
  have heq : Redirected mocks = fun p p' => redirectPiece mocks p = p' := by
    funext p p'
    exact propext redirected_iff
  rw [heq, ← List.forall₂_map_left_iff, List.forall₂_eq_eq_eq, hmap]

end Redirection

section WithList

structure Entry where
  name : String
  columns : List String
  query : Form

def Entry.text (e : Entry) : String :=
  e.name ++ columnList e.columns ++ " AS (\n\t" ++ render e.query ++ "\n)"

/-- A test query with a WITH list. -/
def testText (es : List Entry) : String :=
  "WITH " ++ ",\n".intercalate (es.map Entry.text) ++ "\nSELECT * FROM ASSERTION;"

def Cte.upperName (c : Cte) : String :=
  upperText c.name.value

/-- A mock with all that it has in the test. -/
def Cte.entry (c : Cte) : Entry :=
  ⟨c.upperName, c.columns, c.query⟩

def Cte.bareEntry (c : Cte) : Entry :=
  ⟨c.upperName, [], c.query⟩

/-- The entries after the mocks. -/
def closing (expected actual : Form) : List Entry :=
  [⟨expectedData, [], expected⟩, ⟨actualData, [], actual⟩, ⟨"ASSERTION", [], words assertion⟩]

def ParsedQuery.mocks (q : ParsedQuery) : List Cte :=
  q.ctes.filter fun c => !(c.upperName == expectedData)

def ParsedQuery.expected? (q : ParsedQuery) : Option Cte :=
  (q.ctes.filter fun c => c.upperName == expectedData).getLast?

variable {parse : SqlParser} {t : TestScript} {f : Fixture} {sql : String}

theorem fixtureBy_eq_ok_iff : fixtureBy parse t = .ok f ↔ ∃ q expected,
    single parse t t.content = .ok q ∧ q.expected? = some expected ∧
      f = ⟨q.mocks.map Mock.ofCte, expected.query⟩ := by
  rw [fixtureBy]
  cases single parse t t.content with
  | error e => simp
  | ok q =>
      have hparts : (q.ctes.map Mock.ofCte).partition (·.name == expectedData) =
          ((q.ctes.filter fun c => c.upperName == expectedData).map Mock.ofCte,
            q.mocks.map Mock.ofCte) := by
        rw [List.partition_eq_filter_filter, List.filter_map, List.filter_map]
        rfl
      have hexpected : ((q.ctes.filter fun c => c.upperName == expectedData).map
          Mock.ofCte).getLast? = q.expected?.map Mock.ofCte :=
        List.getLast?_map
      simp only [hparts, hexpected, Except.ok.injEq, exists_and_left, exists_eq_left']
      cases hlast : q.expected? with
      | none => by_cases hnil : q.ctes = [] <;> simp [hnil, invalid]
      | some c =>
          have hnil : q.ctes ≠ [] := by
            rintro hnil
            rw [ParsedQuery.expected?, hnil] at hlast
            cases hlast
          simp [hnil, Mock.ofCte, eq_comm]

theorem render_words (s : String) : render (words s) = s := by
  simp [render, words, Piece.render, String.join]

theorem block_render (name : String) (query : Form) :
    block name (render query) = Entry.text ⟨name, [], query⟩ := by
  simp [block, Entry.text, columnList]

theorem queryBy_eq_ok_iff : queryBy parse t = .ok sql ↔ ∃ q s expected,
    single parse t t.content = .ok q ∧ subject parse t = .ok s ∧ q.expected? = some expected ∧
      sql = testText (q.mocks.map Cte.bareEntry ++
        closing expected.query (redirect (q.mocks.map Cte.upperName) s.form)) := by
  have htext (q : ParsedQuery) (expected form : Form) :
      (blocks ⟨q.mocks.map Mock.ofCte, expected⟩ form).map (fun b => block b.1 b.2) =
        (q.mocks.map Cte.bareEntry ++
          closing expected (redirect (q.mocks.map Cte.upperName) form)).map Entry.text := by
    have hbare : Entry.text ∘ Cte.bareEntry = fun c => block c.upperName (render c.query) :=
      funext fun c => (block_render c.upperName c.query).symm
    simp only [blocks, closing, List.map_append, List.map_map, List.map_cons, List.map_nil, hbare,
      ← block_render, render_words]
    rfl
  rw [queryBy]
  constructor
  · intro h
    split at h
    · cases h
    · next f hf =>
      obtain ⟨q, expected, hq, hexpected, rfl⟩ := fixtureBy_eq_ok_iff.1 hf
      split at h
      · cases h
      · next s hs =>
        cases h
        exact ⟨q, s, expected, hq, hs, hexpected, by rw [testText, htext]⟩
  · rintro ⟨q, s, expected, hq, hs, hexpected, rfl⟩
    rw [fixtureBy_eq_ok_iff.2 ⟨q, expected, hq, hexpected, rfl⟩, hs]
    dsimp only
    rw [testText, htext]

theorem columnList_length_eq_zero_iff {columns : List String} :
    (columnList columns).length = 0 ↔ columns = [] := by
  rw [columnList]
  split
  · next hnil => simp [hnil]
  · next hnil => simp [hnil]

theorem length_entry_text (c : Cte) :
    c.entry.text.length = c.bareEntry.text.length + (columnList c.columns).length := by
  have hnil : (columnList []).length = 0 := rfl
  simp only [Entry.text, Cte.entry, Cte.bareEntry, String.length_append, hnil]
  omega

theorem length_intercalate_bareEntry (cs : List Cte) {es : List Entry} (hes : es ≠ []) :
    let bare := (",\n".intercalate ((cs.map Cte.bareEntry ++ es).map Entry.text)).length
    let full := (",\n".intercalate ((cs.map Cte.entry ++ es).map Entry.text)).length
    bare ≤ full ∧ (full ≤ bare → ∀ c ∈ cs, c.columns = []) := by
  induction cs with
  | nil => simp
  | cons c cs ih =>
      have hne (f : Cte → Entry) : (cs.map f ++ es).map Entry.text ≠ [] := by
        simp [hes]
      simp only [List.map_cons, List.cons_append, String.intercalate_cons_of_ne_nil (hne _),
        String.length_append, length_entry_text, List.forall_mem_cons] at ih ⊢
      refine ⟨by omega, fun hle => ⟨?_, ih.2 (by omega)⟩⟩
      exact columnList_length_eq_zero_iff.1 (by omega)

theorem testText_bareEntry_eq_iff {cs : List Cte} {es : List Entry} (hes : es ≠ []) :
    testText (cs.map Cte.bareEntry ++ es) = testText (cs.map Cte.entry ++ es) ↔
      ∀ c ∈ cs, c.columns = [] := by
  constructor
  · intro h
    have hlength := congrArg String.length h
    simp only [testText, String.length_append] at hlength
    exact (length_intercalate_bareEntry cs hes).2 (by omega)
  · intro h
    have hentries : cs.map Cte.bareEntry = cs.map Cte.entry := by
      refine List.map_congr_left fun c hc => ?_
      rw [Cte.entry, h c hc, Cte.bareEntry]
    rw [hentries]

/-- A test query has the mocks of the test in their order, each with its name in upper case and its
query, then the expected rows, the subject and the assertion. In the subject's query exactly the
qualified references to mocks are pointed at them. The column lists of the mocks are as in the test
if and only if there are none. -/
theorem withList_of_queryBy (parse : SqlParser) (t : TestScript) {sql : String}
    (h : queryBy parse t = .ok sql) : ∃ q s expected actual,
      single parse t t.content = .ok q ∧ subject parse t = .ok s ∧ q.expected? = some expected ∧
        List.Forall₂ (Redirected (q.mocks.map Cte.upperName)) s.form actual ∧
        sql = testText (q.mocks.map Cte.bareEntry ++ closing expected.query actual) ∧
        (sql = testText (q.mocks.map Cte.entry ++ closing expected.query actual) ↔
          ∀ c ∈ q.mocks, c.columns = []) := by
  obtain ⟨q, s, expected, hq, hs, hexpected, rfl⟩ := queryBy_eq_ok_iff.1 h
  exact ⟨q, s, expected, _, hq, hs, hexpected, forall₂_redirected_iff.2 rfl, rfl,
    testText_bareEntry_eq_iff (List.cons_ne_nil _ _)⟩

def ordersTest : TestScript :=
  .of (.state "DB" "S" .view "V"
      "CREATE OR REPLACE VIEW V AS SELECT A FROM (SELECT A FROM S.Orders), S.T")
    "WITH orders AS (SELECT 1 AS A), EXPECTED_DATA AS (SELECT 1) SELECT 1" none

theorem withList_of_queryBy_ordersTest : ∃ sql, queryBy parse? ordersTest = .ok sql ∧
    ∃ q s expected actual,
      single parse? ordersTest ordersTest.content = .ok q ∧ subject parse? ordersTest = .ok s ∧
        q.expected? = some expected ∧ q.mocks.map Cte.upperName = ["ORDERS"] ∧
        render actual = "SELECT A FROM (SELECT A FROM ORDERS), S.T" ∧
        sql = testText (q.mocks.map Cte.bareEntry ++ closing expected.query actual) := by
  obtain ⟨hsingle, hsubject⟩ :
      (single parse? ordersTest ordersTest.content).toOption.map
          (fun q => (q.expected?.isSome, q.mocks.map Cte.upperName)) = some (true, ["ORDERS"]) ∧
        (subject parse? ordersTest).toOption.map (fun s => render (redirect ["ORDERS"] s.form)) =
          some "SELECT A FROM (SELECT A FROM ORDERS), S.T" := by
    decide +kernel
  obtain ⟨q, hq, hmocks⟩ := exists_ok_of_map hsingle
  obtain ⟨s, hs, hrender⟩ := exists_ok_of_map hsubject
  obtain ⟨hsome, hnames⟩ := Prod.mk.inj hmocks
  obtain ⟨expected, hexpected⟩ := Option.isSome_iff_exists.1 hsome
  have hsql := queryBy_eq_ok_iff.2 ⟨q, s, expected, hq, hs, hexpected, rfl⟩
  refine ⟨_, hsql, ?_⟩
  obtain ⟨q', s', expected', actual, hq', hs', hexpected', hactual, htext, -⟩ :=
    withList_of_queryBy parse? ordersTest hsql
  cases hq.symm.trans hq'
  cases hs.symm.trans hs'
  have hform := forall₂_redirected_iff.1 hactual
  rw [hnames] at hform
  exact ⟨q, s, expected', actual, hq, hs, hexpected', hnames, hform ▸ hrender, htext⟩

def columnsTest : TestScript :=
  .of (.state "DB" "S" .view "V" "CREATE OR REPLACE VIEW V AS SELECT A FROM S.ORDERS")
    "WITH ORDERS (A) AS (SELECT 1), EXPECTED_DATA AS (SELECT 1) SELECT 1" none

/-- The column list of a mock is lost, and with it the column that the subject reads. -/
theorem not_withList_of_queryBy :
    ¬ ∀ (parse : SqlParser) (t : TestScript) (sql : String), queryBy parse t = .ok sql →
      ∃ q s expected actual,
        single parse t t.content = .ok q ∧ subject parse t = .ok s ∧ q.expected? = some expected ∧
          List.Forall₂ (Redirected (q.mocks.map Cte.upperName)) s.form actual ∧
          sql = testText (q.mocks.map Cte.entry ++ closing expected.query actual) := by
  intro h
  obtain ⟨hsingle, hsubject⟩ :
      (single parse? columnsTest columnsTest.content).toOption.map
          (fun q => (q.expected?.isSome, q.mocks.any fun c => c.columns ≠ [])) = some (true, true) ∧
        (subject parse? columnsTest).toOption.map (fun _ => ()) = some () := by
    decide +kernel
  obtain ⟨q, hq, hlist⟩ := exists_ok_of_map hsingle
  obtain ⟨s, hs, -⟩ := exists_ok_of_map hsubject
  obtain ⟨hsome, hcolumns⟩ := Prod.mk.inj hlist
  obtain ⟨expected, hexpected⟩ := Option.isSome_iff_exists.1 hsome
  have hsql := queryBy_eq_ok_iff.2 ⟨q, s, expected, hq, hs, hexpected, rfl⟩
  obtain ⟨q', s', expected', actual, hq', hs', hexpected', hactual, hkept⟩ := h _ _ _ hsql
  cases hq.symm.trans hq'
  cases hs.symm.trans hs'
  cases hexpected.symm.trans hexpected'
  cases forall₂_redirected_iff.1 hactual
  have hnone := (testText_bareEntry_eq_iff (List.cons_ne_nil _ _)).1 hkept
  obtain ⟨c, hc, hsome⟩ := List.any_eq_true.1 hcolumns
  exact absurd (hnone c hc) (of_decide_eq_true hsome)

end WithList

end SchemaDeploy.Query
