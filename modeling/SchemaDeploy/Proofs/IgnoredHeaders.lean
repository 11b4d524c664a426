import SchemaDeploy.Proofs.SolidText
import SchemaDeploy.Proofs.ViewHeaders

namespace SchemaDeploy.Body

open Text Sql

variable {keyword : String} {c : Char} {h h' p q t u x : List Char}

section Headers

def IsPlainColumns (u : List Char) : Prop :=
  ∃ b x, u = b ++ '(' :: (x ++ [')']) ∧ allBlank b = true ∧ x ≠ [] ∧ ')' ∉ x ∧
    (∀ c ∈ x, isQuote c = false) ∧ ∀ c d, opensComment c d = true → ¬ [c, d] <:+: x

def IsPlainComment (u : List Char) : Prop :=
  ∃ b w b' b'' x, u = b ++ (w ++ (b' ++ '=' :: (b'' ++ '\'' :: (x ++ ['\''])))) ∧ b ≠ [] ∧
    allBlank b = true ∧ Spells "COMMENT".toList w ∧ allBlank b' = true ∧ allBlank b'' = true ∧
    x ≠ [] ∧ ∀ c ∈ x, c ≠ '\'' ∧ c ≠ '\\'

inductive IsViewOpening : List Char → Prop
  | intro {create or replace secure recursive view : List Char} (hcreate : IsSpaced "CREATE" create)
      (hor : IsSpaced "OR" or) (hreplace : IsSpaced "REPLACE" replace)
      (hsecure : secure = [] ∨ IsSpaced "SECURE" secure)
      (hrecursive : recursive = [] ∨ IsSpaced "RECURSIVE" recursive) (hview : IsSpaced "VIEW" view) :
      IsViewOpening (create ++ (or ++ (replace ++ (secure ++ (recursive ++ view)))))

/-- Everything before the query: CREATE OR REPLACE, SECURE and RECURSIVE or not, VIEW, a name without
quotes, columns and a comment or not, and AS. Blanks stand behind each keyword, before COMMENT and
before AS, and may stand before the columns and around the equals sign. -/
inductive IsPlainViewHeader : List Char → Prop
  | intro {opening name columns comment gap as : List Char} (hopening : IsViewOpening opening)
      (hne : name ≠ []) (hname : ∀ c ∈ name, isNameChar c = true ∧ c ≠ '"')
      (hcolumns : columns = [] ∨ IsPlainColumns columns)
      (hcomment : comment = [] ∨ IsPlainComment comment) (hgap : gap ≠ [])
      (hblank : allBlank gap = true) (has : IsSpaced "AS" as) :
      IsPlainViewHeader (opening ++ (name ++ (columns ++ (comment ++ (gap ++ as)))))

theorem IsPlainColumns.isColumns (h : IsPlainColumns u) : IsColumns u := by
  obtain ⟨b, x, hu, hb, hne, hx, -⟩ := h
  exact ⟨b, x, hu, hb, hne, hx⟩

theorem IsPlainComment.isComment (h : IsPlainComment u) : IsComment u := by
  obtain ⟨b, w, b', b'', x, hu, hne, hb, hw, hb', hb'', -, hx⟩ := h
  exact ⟨b, w, b', b'', x, hu, hne, hb, hw, hb', hb'', fun hquote => (hx _ hquote).1 rfl⟩

theorem IsPlainViewHeader.isViewHeader (h : IsPlainViewHeader t) : IsViewHeader t := by
  obtain @⟨opening, name, columns, comment, gap, as, hopening, hne, hname, hcolumns, hcomment, hgap,
    hblank, has⟩ := h
  obtain @⟨create, or, replace, secure, recursive, view, hcreate, hor, hreplace, hsecure, hrecursive,
    hview⟩ := hopening
  have hheader : IsViewHeader ([] ++ (create ++ (or ++ (replace ++ (secure ++ (recursive ++ (view ++
      (name ++ (columns ++ (comment ++ (gap ++ as))))))))))) :=
    .intro rfl hcreate hor hreplace hsecure hrecursive hview hne (fun c hc => (hname c hc).1)
      (hcolumns.imp_right IsPlainColumns.isColumns) (hcomment.imp_right IsPlainComment.isComment) hgap
      hblank has
  simpa using hheader

end Headers

section Comparable

theorem comparable_append_of_unquoted (hquote : ∀ c ∈ p, isQuote c = false)
    (hnone : ¬ EntersComment .plain p)
    (hcut : ∀ c ∈ p.getLast?, ∀ d ∈ t.head?, opensComment c d = false) :
    comparable (p ++ t) = p ++ comparable t := by
  have hmem : '\'' ∉ p := fun hc => absurd (hquote _ hc) (by decide)
  rw [comparable, comparable, replacePair_quotes, replacePair_quotes,
    stripComments_append_of_plain (endsPlain_of_unquoted hquote hnone) hcut,
    stripComments_eq_self_iff.2 hnone, halve_append_of_not_mem hmem]

def isInert (c : Char) : Bool :=
  !isQuote c && c != '-' && c != '/'

theorem comparable_append_of_inert (hp : ∀ c ∈ p, isInert c = true) (t : List Char) :
    comparable (p ++ t) = p ++ comparable t := by
  have hchar : ∀ c ∈ p, isQuote c = false ∧ c ≠ '-' ∧ c ≠ '/' := by
    intro c hc
    simpa [isInert, and_assoc] using hp c hc
  have hself : stripComments p = p :=
    stripComments_of_not_mem (fun hc => (hchar _ hc).2.1 rfl) (fun hc => (hchar _ hc).2.2 rfl)
  refine comparable_append_of_unquoted (fun c hc => (hchar c hc).1) (stripComments_eq_self_iff.1 hself)
    fun c hc d _ => ?_
  obtain ⟨-, hdash, hslash⟩ := hchar c (List.mem_of_getLast? hc)
  simp [opensComment, hdash, hslash]

theorem isInert_of_isBlank (hc : isBlank c = true) : isInert c = true :=
  forall_blank (by decide) hc

theorem isInert_of_isNameChar (hc : isNameChar c = true) (hquote : c ≠ '"') : isInert c = true := by
  have hother {d : Char} (hd : isNameChar d = false) : c ≠ d := by
    rintro rfl
    rw [hc] at hd
    cases hd
  have hsingle : c ≠ '\'' := hother (by decide +kernel)
  have hdash : c ≠ '-' := hother (by decide +kernel)
  have hslash : c ≠ '/' := hother (by decide +kernel)
  simp [isInert, isQuote, hquote, hsingle, hdash, hslash]

theorem isInert_of_isWord (hc : isWord c = true) : isInert c = true := by
  refine isInert_of_isNameChar (by rw [isNameChar, hc, Bool.true_or]) ?_
  rintro rfl
  exact absurd hc (by decide +kernel)

theorem isInert_of_spells {ks w : List Char} (hks : ks.all Char.isAlpha = true) (hw : Spells ks w) :
    ∀ c ∈ w, isInert c = true :=
  fun c hc => isInert_of_isWord (isWord_of_spells (List.all_eq_true.1 hks) hw c hc)

theorem isInert_of_allBlank (hb : allBlank p = true) : ∀ c ∈ p, isInert c = true :=
  fun c hc => isInert_of_isBlank (List.all_eq_true.1 hb c hc)

theorem IsSpaced.isInert (hu : IsSpaced keyword u) (hk : keyword.toList.all Char.isAlpha = true) :
    ∀ c ∈ u, Body.isInert c = true := by
  obtain ⟨w, b, rfl, hw, -, hb⟩ := hu
  exact List.forall_mem_append.2 ⟨isInert_of_spells hk hw, isInert_of_allBlank hb⟩

theorem IsViewOpening.isInert (h : IsViewOpening u) : ∀ c ∈ u, Body.isInert c = true := by
  obtain @⟨create, or, replace, secure, recursive, view, hcreate, hor, hreplace, hsecure, hrecursive,
    hview⟩ := h
  have hoptional {keyword : String} {v : List Char} (hk : keyword.toList.all Char.isAlpha = true)
      (hv : v = [] ∨ IsSpaced keyword v) : ∀ c ∈ v, Body.isInert c = true := by
    rcases hv with rfl | hv
    · simp
    · exact hv.isInert hk
  simp only [List.forall_mem_append]
  exact ⟨hcreate.isInert (by decide +kernel), hor.isInert (by decide +kernel),
    hreplace.isInert (by decide +kernel), hoptional (by decide +kernel) hsecure,
    hoptional (by decide +kernel) hrecursive, hview.isInert (by decide +kernel)⟩

theorem IsPlainColumns.comparable_append (hu : IsPlainColumns u) (t : List Char) :
    comparable (u ++ t) = u ++ comparable t := by
  obtain ⟨b, x, rfl, hb, -, -, hquote, hopen⟩ := hu
  have htext (r : List Char) : b ++ '(' :: (x ++ [')']) ++ r = (b ++ ['(']) ++ (x ++ ([')'] ++ r)) := by
    simp
  have hbefore : ∀ c ∈ b ++ ['('], isInert c = true :=
    List.forall_mem_append.2 ⟨isInert_of_allBlank hb, by simp [isInert, isQuote]⟩
  have hnone : ¬ EntersComment .plain x := fun h => by
    obtain ⟨y, c, d, z, -, rfl, -, hcd⟩ := exists_first_comment rfl h
    exact hopen c d hcd ⟨y, z, by simp⟩
  have hcut : ∀ c ∈ x.getLast?, ∀ d ∈ ([')'] ++ t).head?, opensComment c d = false := by
    intro c _ d hd
    cases hd
    simp [opensComment]
  rw [htext, comparable_append_of_inert hbefore, comparable_append_of_unquoted hquote hnone hcut,
    comparable_append_of_inert (by simp [isInert, isQuote]), ← htext]

theorem comparable_literal (hne : x ≠ []) (hx : ∀ c ∈ x, c ≠ '\'' ∧ c ≠ '\\') (hc : isInert c = true)
    (t : List Char) :
    comparable ('\'' :: (x ++ '\'' :: c :: t)) = '\'' :: (x ++ '\'' :: comparable (c :: t)) := by
  have hstrip : stripComments ('\'' :: (x ++ '\'' :: c :: t)) =
      '\'' :: (x ++ '\'' :: stripComments (c :: t)) := stripComments_literal (a := []) rfl hx _
  have hmem : '\'' ∉ x := fun h => (hx _ h).1 rfl
  have hfollows : comparable (c :: t) = c :: comparable t :=
    comparable_append_of_inert (p := [c]) (by simpa using hc) t
  obtain ⟨d, x, rfl⟩ := List.exists_cons_of_ne_nil hne
  have hd : d ≠ '\'' := fun h => hmem (h ▸ List.mem_cons_self)
  have hhead : (stripComments (c :: t)).head? ≠ some '\'' := by
    rw [comparable, replacePair_quotes] at hfollows
    rw [← head?_halve, hfollows]
    rintro hquote
    cases hquote
    cases hc
  rw [comparable, comparable, replacePair_quotes, replacePair_quotes, hstrip, halve_first,
    List.cons_append, halve_cons hd, ← halve_cons hd false, ← List.cons_append,
    halve_append_of_not_mem hmem, halve_first, halve_of_head hhead]

theorem IsPlainComment.comparable_append (hu : IsPlainComment u) (hc : isBlank c = true)
    (t : List Char) : comparable (u ++ c :: t) = u ++ comparable (c :: t) := by
  obtain ⟨b, w, b', b'', x, rfl, -, hb, hw, hb', hb'', hne, hx⟩ := hu
  have htext (r : List Char) : b ++ (w ++ (b' ++ '=' :: (b'' ++ '\'' :: (x ++ ['\''])))) ++ r =
      (b ++ (w ++ (b' ++ '=' :: b''))) ++ '\'' :: (x ++ '\'' :: r) := by simp
  have hbefore : ∀ c ∈ b ++ (w ++ (b' ++ '=' :: b'')), isInert c = true := by
    simp only [List.forall_mem_append, List.forall_mem_cons]
    exact ⟨isInert_of_allBlank hb, isInert_of_spells (by decide +kernel) hw,
      isInert_of_allBlank hb', by decide +kernel, isInert_of_allBlank hb''⟩
  rw [htext, comparable_append_of_inert hbefore, comparable_literal hne hx (isInert_of_isBlank hc),
    ← htext]

theorem IsPlainViewHeader.comparable_append (hh : IsPlainViewHeader h) (q : List Char) :
    comparable (h ++ q) = h ++ comparable q := by
  obtain @⟨opening, name, columns, comment, gap, as, hopening, -, hname, hcolumns, hcomment, hgap,
    hblank, has⟩ := hh
  have hfirst : ∀ c ∈ opening ++ name, isInert c = true :=
    List.forall_mem_append.2 ⟨hopening.isInert, fun c hc =>
      isInert_of_isNameChar (hname c hc).1 (hname c hc).2⟩
  have hlast : ∀ c ∈ gap ++ as, isInert c = true :=
    List.forall_mem_append.2 ⟨isInert_of_allBlank hblank, has.isInert (by decide +kernel)⟩
  have hcomment' : comparable (comment ++ ((gap ++ as) ++ q)) =
      comment ++ ((gap ++ as) ++ comparable q) := by
    rcases hcomment with rfl | hcomment
    · exact comparable_append_of_inert hlast q
    · obtain ⟨c, gap, rfl⟩ := List.exists_cons_of_ne_nil hgap
      have hc : isBlank c = true := List.all_eq_true.1 hblank c List.mem_cons_self
      rw [← comparable_append_of_inert hlast]
      exact hcomment.comparable_append hc _
  have hcolumns' : comparable (columns ++ (comment ++ ((gap ++ as) ++ q))) =
      columns ++ (comment ++ ((gap ++ as) ++ comparable q)) := by
    rw [← hcomment']
    rcases hcolumns with rfl | hcolumns
    · rfl
    · exact hcolumns.comparable_append _
  have htext (r : List Char) : opening ++ (name ++ (columns ++ (comment ++ (gap ++ as)))) ++ r =
      (opening ++ name) ++ (columns ++ (comment ++ ((gap ++ as) ++ r))) := by simp
  rw [htext, comparable_append_of_inert hfirst, hcolumns', ← htext]

end Comparable

theorem IsPlainViewHeader.normalize_append (hh : IsPlainViewHeader h)
    (hq : allBlank (stripComments q) = false) :
    normalize .view (h ++ q) = folded (comparable q) := by
  have hne : allBlank (comparable q) = false := by
    rw [comparable, replacePair_quotes, allBlank_halve, hq]
  have hbody : find? .view (comparable (h ++ q)) = some (trimStart (comparable q)) := by
    rw [hh.comparable_append]
    exact hh.isViewHeader.endsAtQuery _ hne
  rw [normalize, hbody, ← folded_trimStart]
  rfl

/-- Views with the same query have the same body whatever their headers are: it is the query itself,
without comments, with single quotes and in one line. -/
theorem normalize_of_headers (hh : IsPlainViewHeader h) (hh' : IsPlainViewHeader h')
    (hq : allBlank (stripComments q) = false) :
    normalize .view (h ++ q) = normalize .view (h' ++ q) ∧
      normalize .view (h ++ q) = folded (comparable q) := by
  rw [hh.normalize_append hq, hh'.normalize_append hq]
  exact ⟨rfl, rfl⟩

theorem isSpaced_of_spaced? (h : spaced? keyword u = some []) : IsSpaced keyword u := by
  obtain ⟨v, hu, hv, -⟩ := spaced?_eq_some_iff.1 h
  rwa [hu, List.append_nil]

theorem normalize_of_headers_recursive :
    let header := "create or replace secure recursive view DB.S.V(ID, N -1) comment = 'a -- b'\n\tas\n".toList
    let header' := "CREATE OR REPLACE VIEW ${db}.S.V AS ".toList
    let query := "-- as\nSELECT ' AS ''x''', \"VIEW\" AS A FROM V -- CREATE OR REPLACE VIEW V AS\n;".toList
    IsPlainViewHeader header ∧ IsPlainViewHeader header' ∧ allBlank (stripComments query) = false ∧
      normalize .view (header ++ query) = normalize .view (header' ++ query) ∧
      normalize .view (header ++ query) = "SELECT ' AS 'x'', \"VIEW\" AS A FROM V".toList := by
  intro header header' query
  have hopening : IsViewOpening ("create ".toList ++ ("or ".toList ++ ("replace ".toList ++
      ("secure ".toList ++ ("recursive ".toList ++ "view ".toList))))) :=
    .intro (isSpaced_of_spaced? (by decide)) (isSpaced_of_spaced? (by decide))
      (isSpaced_of_spaced? (by decide)) (.inr (isSpaced_of_spaced? (by decide)))
      (.inr (isSpaced_of_spaced? (by decide))) (isSpaced_of_spaced? (by decide))
  have hcolumns : IsPlainColumns ([] ++ '(' :: ("ID, N -1".toList ++ [')'])) := by
    refine ⟨[], "ID, N -1".toList, rfl, rfl, by decide, by decide, by simp [isQuote], ?_⟩
    intro c d hopen
    rcases opensComment_iff.1 hopen with ⟨rfl, rfl⟩ | ⟨rfl, rfl | rfl⟩ <;> decide
  have hcomment : IsPlainComment ([' '] ++ ("comment".toList ++ ([' '] ++ '=' :: ([' '] ++ '\'' ::
      ("a -- b".toList ++ ['\'']))))) :=
    ⟨_, _, _, _, _, rfl, by decide, by decide, by simp [Spells, foldsTo, sameLetter], by decide,
      by decide, by decide, by simp⟩
  have hh : IsPlainViewHeader header := by
    have hparts := IsPlainViewHeader.intro hopening (List.cons_ne_nil 'D' "B.S.V".toList)
      (by simp [isNameChar, isWord]) (.inr hcolumns) (.inr hcomment) (List.cons_ne_nil '\n' ['\t'])
      (by decide) (isSpaced_of_spaced? (u := "as\n".toList) (by decide))
    refine (congrArg IsPlainViewHeader ?_).mp hparts
    decide +kernel
  have hopening' : IsViewOpening ("CREATE ".toList ++ ("OR ".toList ++ ("REPLACE ".toList ++
      ([] ++ ([] ++ "VIEW ".toList))))) :=
    .intro (isSpaced_self "CREATE") (isSpaced_self "OR") (isSpaced_self "REPLACE") (.inl rfl) (.inl rfl)
      (isSpaced_self "VIEW")
  have hh' : IsPlainViewHeader header' := by
    have hparts := IsPlainViewHeader.intro hopening' (List.cons_ne_nil '$' "{db}.S.V".toList)
      (by simp [isNameChar, isWord]) (.inl rfl) (.inl rfl) (List.cons_ne_nil ' ' []) (by decide)
      (isSpaced_self "AS")
    refine (congrArg IsPlainViewHeader ?_).mp hparts
    decide +kernel
  have hq : allBlank (stripComments query) = false := by decide +kernel
  obtain ⟨hsame, hbody⟩ := normalize_of_headers hh hh' hq
  exact ⟨hh, hh', hq, hsame, hbody.trans (by decide +kernel)⟩

end SchemaDeploy.Body
