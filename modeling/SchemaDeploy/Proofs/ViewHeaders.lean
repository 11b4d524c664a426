import SchemaDeploy.Proofs.HeaderLines
import SchemaDeploy.Script.Body

namespace SchemaDeploy.Body

open Text Sql

variable {k : Char} {keyword : String} {b h ks q t u w : List Char}

section Keywords

def Starts (k : Char) (t : List Char) : Prop :=
  t.head?.any (foldsTo k ·) = true

theorem Starts.exists_cons (h : Starts k t) : ∃ c r, t = c :: r ∧ foldsTo k c = true := by
  cases t with
  | nil => cases h
  | cons c r => exact ⟨c, r, rfl, h⟩

theorem Starts.not_blank (hk : k.isAlpha = true) (h : Starts k t) :
    t.head?.all (!isBlank ·) = true := by
  obtain ⟨c, r, rfl, hc⟩ := h.exists_cons
  simpa using isBlank_eq_false_of_foldsTo hk hc

theorem toLower_of_foldsTo {c : Char} (hk : k.isAlpha = true) (h : foldsTo k c = true) :
    k.toLower = if c.toNat = 0x17F then 's' else if c.toNat = 0x212A then 'k' else c.toLower := by
  simp only [foldsTo, sameLetter, Bool.or_eq_true, Bool.and_eq_true, beq_iff_eq] at h
  rcases h with (h | ⟨h, hc⟩) | ⟨h, hc⟩
  · have hletter : c.isAlpha = true := by
      rw [← Char.isAlpha_toLower_eq_isAlpha, ← h, Char.isAlpha_toLower_eq_isAlpha, hk]
    have hascii {n : Nat} (hn : (Char.ofNat n).isAlpha = false) : c.toNat ≠ n := by
      rintro rfl
      rw [Char.ofNat_toNat, hletter] at hn
      cases hn
    rw [if_neg (hascii (by decide)), if_neg (hascii (by decide)), h]
  · rw [if_pos hc, h]
  · rw [if_neg (by omega), if_pos hc, h]

theorem ne_paren_of_foldsTo {c : Char} (hk : k.isAlpha = true) (h : foldsTo k c = true) :
    c ≠ '(' := by
  rintro rfl
  have hletter : k.toLower = '(' := toLower_of_foldsTo hk h
  rw [← Char.isAlpha_toLower_eq_isAlpha, hletter] at hk
  exact absurd hk (by decide)

theorem Starts.keyword?_eq_none {k' : Char} (h : Starts k t) (hk : k.isAlpha = true)
    (hk' : k'.isAlpha = true) (hne : k.toLower ≠ k'.toLower) : keyword? (k' :: ks) t = none := by
  obtain ⟨c, r, rfl, hc⟩ := h.exists_cons
  have hother : foldsTo k' c ≠ true := fun hc' =>
    hne ((toLower_of_foldsTo hk hc).trans (toLower_of_foldsTo hk' hc').symm)
  rw [keyword?, if_neg hother]

theorem Starts.spaced?_eq_none {k' : Char} (h : Starts k t) (hkeyword : keyword.toList = k' :: ks)
    (hk : k.isAlpha = true) (hk' : k'.isAlpha = true) (hne : k.toLower ≠ k'.toLower) :
    spaced? keyword t = none := by
  rw [spaced?, hkeyword, h.keyword?_eq_none hk hk' hne, Option.bind_none]

def IsSpaced (keyword : String) (u : List Char) : Prop :=
  ∃ w b, u = w ++ b ∧ Spells keyword.toList w ∧ b ≠ [] ∧ allBlank b = true

theorem starts_of_spells (h : Spells (k :: ks) w) (t : List Char) :
    Starts k (w ++ t) := by
  cases h with
  | cons hk _ => exact hk

theorem IsSpaced.starts (h : IsSpaced keyword u)
    (hkeyword : keyword.toList = k :: ks) (t : List Char) : Starts k (u ++ t) := by
  obtain ⟨w, b, rfl, hw, -, -⟩ := h
  rw [hkeyword] at hw
  rw [List.append_assoc]
  exact starts_of_spells hw _

theorem spells_self (ks : List Char) : Spells ks ks :=
  List.forall₂_same.2 fun k _ => by simp [foldsTo, sameLetter]

theorem isSpaced_self (keyword : String) : IsSpaced keyword (keyword.toList ++ [' ']) :=
  ⟨keyword.toList, [' '], rfl, spells_self _, by simp, by decide⟩

theorem isWord_of_isAlpha {c : Char} (h : c.isAlpha = true) : isWord c = true := by
  have hlow : c.toNat < 128 := by
    simp [Char.isAlpha, Char.isUpper, Char.isLower, UInt32.le_iff_toNat_le] at h
    omega
  rw [isWord, if_pos hlow, Char.isAlphanum, h, Bool.true_or, Bool.true_or]

theorem isWord_of_foldsTo {k c : Char} (hk : k.isAlpha = true) (h : foldsTo k c = true) :
    isWord c = true := by
  simp only [foldsTo, sameLetter, Bool.or_eq_true, Bool.and_eq_true, beq_iff_eq] at h
  rcases h with (h | ⟨-, hc⟩) | ⟨-, hc⟩
  · apply isWord_of_isAlpha
    rw [← Char.isAlpha_toLower_eq_isAlpha, ← h, Char.isAlpha_toLower_eq_isAlpha, hk]
  · rw [← Char.ofNat_toNat c, hc]
    decide +kernel
  · rw [← Char.ofNat_toNat c, hc]
    decide +kernel

theorem isWord_of_spells {ks : List Char} (hks : ∀ k ∈ ks, k.isAlpha = true) (h : Spells ks w) :
    ∀ c ∈ w, isWord c = true := by
  induction h with
  | nil => simp
  | cons hk _ ih =>
      obtain ⟨hkalpha, hks⟩ := List.forall_mem_cons.1 hks
      exact List.forall_mem_cons.2 ⟨isWord_of_foldsTo hkalpha hk, ih hks⟩

theorem blanks?_append (hne : b ≠ []) (hb : allBlank b = true) (t : List Char) :
    blanks? (b ++ t) = some (trimStart t) := by
  cases b with
  | nil => exact absurd rfl hne
  | cons c b =>
      have hall := List.all_eq_true.1 hb
      rw [List.cons_append, blanks?, if_pos (hall c List.mem_cons_self),
        List.dropWhile_append_of_pos fun d hd => hall d (List.mem_cons_of_mem c hd)]
      rfl

theorem spaced?_append (h : IsSpaced keyword u) (ht : t.head?.all (!isBlank ·) = true) :
    spaced? keyword (u ++ t) = some t := by
  obtain ⟨w, b, rfl, hw, hne, hb⟩ := h
  have htrim : trimStart t = t := trimStart_append (b := []) rfl ht
  rw [spaced?, List.append_assoc, keyword?_eq_some_iff.2 ⟨w, rfl, hw⟩, Option.bind_some,
    blanks?_append hne hb, htrim]

theorem blanks?_eq_some_iff {r : List Char} : blanks? t = some r ↔
    ∃ b, t = b ++ r ∧ b ≠ [] ∧ allBlank b = true ∧ r.head?.all (!isBlank ·) = true := by
  constructor
  · intro h
    cases t with
    | nil => cases h
    | cons c t =>
        rw [blanks?] at h
        split at h
        · next hc =>
          obtain ⟨b, ht, hb, hr⟩ := trimStart_eq_iff.1 (Option.some.inj h)
          exact ⟨c :: b, by rw [ht, List.cons_append], List.cons_ne_nil c b,
            List.all_eq_true.2 (List.forall_mem_cons.2 ⟨hc, List.all_eq_true.1 hb⟩), hr⟩
        · cases h
  · rintro ⟨b, rfl, hne, hb, hr⟩
    rw [blanks?_append hne hb]
    exact congrArg some (trimStart_append (b := []) rfl hr)

theorem spaced?_eq_some_iff {r : List Char} : spaced? keyword t = some r ↔
    ∃ u, t = u ++ r ∧ IsSpaced keyword u ∧ r.head?.all (!isBlank ·) = true := by
  constructor
  · intro h
    obtain ⟨x, hx, hr⟩ := Option.bind_eq_some_iff.1 h
    obtain ⟨w, rfl, hw⟩ := keyword?_eq_some_iff.1 hx
    obtain ⟨b, rfl, hne, hb, hr⟩ := blanks?_eq_some_iff.1 hr
    exact ⟨w ++ b, (List.append_assoc w b r).symm, ⟨w, b, rfl, hw, hne, hb⟩, hr⟩
  · rintro ⟨u, rfl, hu, hr⟩
    exact spaced?_append hu hr

theorem spacedOr_append (h : u = [] ∨ IsSpaced keyword u) (ht : t.head?.all (!isBlank ·) = true)
    (hnone : spaced? keyword t = none) : spacedOr keyword (u ++ t) = t := by
  rcases h with rfl | h
  · rw [List.nil_append, spacedOr, hnone, Option.getD_none]
  · rw [spacedOr, spaced?_append h ht, Option.getD_some]

end Keywords

section Clauses

def IsColumns (u : List Char) : Prop :=
  ∃ b x, u = b ++ '(' :: (x ++ [')']) ∧ allBlank b = true ∧ x ≠ [] ∧ ')' ∉ x

def IsComment (u : List Char) : Prop :=
  ∃ b w b' b'' x, u = b ++ (w ++ (b' ++ '=' :: (b'' ++ '\'' :: (x ++ ['\''])))) ∧ b ≠ [] ∧
    allBlank b = true ∧ Spells "COMMENT".toList w ∧ allBlank b' = true ∧ allBlank b'' = true ∧
    '\'' ∉ x

theorem columns?_append (h : IsColumns u) (t : List Char) : columns? (u ++ t) = some t := by
  obtain ⟨b, x, rfl, hb, hne, hx⟩ := h
  have htext : b ++ '(' :: (x ++ [')']) ++ t = b ++ '(' :: (x ++ ')' :: t) := by simp
  have htrim : trimStart (b ++ '(' :: (x ++ ')' :: t)) = '(' :: (x ++ ')' :: t) :=
    trimStart_append hb rfl
  have hinside : ∀ c ∈ x, decide (c ≠ ')') = true := fun c hc =>
    decide_eq_true (ne_of_mem_of_not_mem hc hx)
  obtain ⟨d, x, rfl⟩ := List.exists_cons_of_ne_nil hne
  simp only [htext, columns?, htrim]
  rw [List.takeWhile_append_of_pos hinside, List.dropWhile_append_of_pos hinside]
  rfl

theorem columns?_eq_none (hb : allBlank b = true) (hk : k.isAlpha = true) (h : Starts k t) :
    columns? (b ++ t) = none := by
  obtain ⟨c, r, rfl, hc⟩ := h.exists_cons
  have hparen : c ≠ '(' := ne_paren_of_foldsTo hk hc
  rw [columns?, trimStart_append hb (h.not_blank hk)]
  split
  · next hparen' => exact absurd (List.cons.inj hparen').1 hparen
  · rfl

theorem blanksThen?_append (hne : b ≠ []) (hb : allBlank b = true) (hw : Spells keyword.toList w)
    (hkeyword : keyword.toList = k :: ks) (hk : k.isAlpha = true) (t : List Char) :
    blanksThen? keyword (b ++ (w ++ t)) = some t := by
  rw [hkeyword] at hw
  have htrim : trimStart (w ++ t) = w ++ t :=
    trimStart_append (b := []) rfl ((starts_of_spells hw t).not_blank hk)
  rw [blanksThen?, blanks?_append hne hb, htrim, Option.bind_some, hkeyword,
    keyword?_eq_some_iff.2 ⟨w, rfl, hw⟩]

theorem commentClause?_append (h : IsComment u) (t : List Char) :
    commentClause? (u ++ t) = some t := by
  obtain ⟨b, w, b', b'', x, rfl, hne, hb, hw, hb', hb'', hx⟩ := h
  have htext : b ++ (w ++ (b' ++ '=' :: (b'' ++ '\'' :: (x ++ ['\''])))) ++ t =
      b ++ (w ++ (b' ++ '=' :: (b'' ++ '\'' :: (x ++ '\'' :: t)))) := by simp
  have hequals : trimStart (b' ++ '=' :: (b'' ++ '\'' :: (x ++ '\'' :: t))) =
      '=' :: (b'' ++ '\'' :: (x ++ '\'' :: t)) := trimStart_append hb' rfl
  have hquote : trimStart (b'' ++ '\'' :: (x ++ '\'' :: t)) = '\'' :: (x ++ '\'' :: t) :=
    trimStart_append hb'' rfl
  have hinside : ∀ c ∈ x, decide (c ≠ '\'') = true := fun c hc =>
    decide_eq_true (ne_of_mem_of_not_mem hc hx)
  rw [htext, commentClause?, blanksThen?_append hne hb hw rfl (by decide)]
  simp only [Option.bind_eq_bind, Option.bind_some, hequals, hquote]
  rw [List.dropWhile_append_of_pos hinside]
  rfl

theorem commentClause?_eq_none (hne : b ≠ []) (hb : allBlank b = true) (hk : k.isAlpha = true)
    (h : Starts k t) (hc : k.toLower ≠ 'c') : commentClause? (b ++ t) = none := by
  have htrim : trimStart t = t := trimStart_append (b := []) rfl (h.not_blank hk)
  have hkeyword : keyword? "COMMENT".toList t = none := h.keyword?_eq_none hk (by decide) hc
  rw [commentClause?, blanksThen?, blanks?_append hne hb, htrim, Option.bind_some, hkeyword]
  rfl

theorem bodyAfterAs?_append (hne : b ≠ []) (hb : allBlank b = true) (hu : IsSpaced "AS" u)
    (hq : allBlank q = false) : bodyAfterAs? (b ++ (u ++ q)) = some (trimStart q) := by
  obtain ⟨w, b', rfl, hw, hne', hb'⟩ := hu
  have hquery : trimStart q ≠ [] := fun h =>
    absurd (List.all_eq_true.2 (List.dropWhile_eq_nil_iff.1 h)) (by simpa [allBlank] using hq)
  rw [bodyAfterAs?, List.append_assoc, blanksThen?_append hne hb hw rfl (by decide)]
  simp only [Option.bind_eq_bind, Option.bind_some, blanks?_append hne' hb']

end Clauses

section Headers

theorem isNameChar_eq_false_of_isBlank {c : Char} (h : isBlank c = true) :
    isNameChar c = false := by
  have hother : ['.', '$', '{', '}', '"'].contains c = false := by
    simpa using forall_blank (p := fun c => !(['.', '$', '{', '}', '"'].contains c)) (by decide) h
  rw [isNameChar, isWord_eq_false_of_isBlank h, hother]
  rfl

theorem head?_isNameChar (hne : b ≠ []) (hb : allBlank b = true) (t : List Char) :
    (b ++ t).head?.all (!isNameChar ·) = true := by
  cases b with
  | nil => exact absurd rfl hne
  | cons c b =>
      have hc := List.all_eq_true.1 hb c List.mem_cons_self
      simpa using isNameChar_eq_false_of_isBlank hc

theorem run?_append {p : Char → Bool} (hne : u ≠ []) (hu : ∀ c ∈ u, p c = true)
    (ht : t.head?.all (!p ·) = true) : run? p (u ++ t) = some (u, t) := by
  have hspan := span_eq_iff.2 ⟨rfl, hu, ht⟩
  rw [List.span_eq_takeWhile_dropWhile, Prod.mk.injEq] at hspan
  rw [run?, hspan.1, hspan.2]
  cases u with
  | nil => exact absurd rfl hne
  | cons c u => rfl

theorem run?_eq_some_iff {p : Char → Bool} {r : List Char} : run? p t = some (u, r) ↔
    t = u ++ r ∧ u ≠ [] ∧ (∀ c ∈ u, p c = true) ∧ r.head?.all (!p ·) = true := by
  constructor
  · intro h
    have hspan : t.span p = (t.takeWhile p, t.dropWhile p) :=
      List.span_eq_takeWhile_dropWhile p t
    rw [run?] at h
    split at h
    · cases h
    · next hne =>
      obtain ⟨rfl, rfl⟩ := Prod.mk.inj (Option.some.inj h)
      obtain ⟨ht, hu, hr⟩ := span_eq_iff.1 hspan
      exact ⟨ht, hne, hu, hr⟩
  · rintro ⟨rfl, hne, hu, hr⟩
    exact run?_append hne hu hr

/-- Everything before the query in a definition of the usual form. -/
inductive IsViewHeader : List Char → Prop
  | intro {lead create or replace secure recursive view name columns comment gap as : List Char}
      (hlead : allBlank lead = true) (hcreate : IsSpaced "CREATE" create) (hor : IsSpaced "OR" or)
      (hreplace : IsSpaced "REPLACE" replace) (hsecure : secure = [] ∨ IsSpaced "SECURE" secure)
      (hrecursive : recursive = [] ∨ IsSpaced "RECURSIVE" recursive) (hview : IsSpaced "VIEW" view)
      (hne : name ≠ []) (hname : ∀ c ∈ name, isNameChar c = true)
      (hcolumns : columns = [] ∨ IsColumns columns) (hcomment : comment = [] ∨ IsComment comment)
      (hgap : gap ≠ []) (hblank : allBlank gap = true) (has : IsSpaced "AS" as) :
      IsViewHeader (lead ++ (create ++ (or ++ (replace ++ (secure ++ (recursive ++ (view ++ (name ++
        (columns ++ (comment ++ (gap ++ as)))))))))))

/-- Whatever the query behind a text is, it is what is found. -/
def EndsAtQuery (h : List Char) : Prop :=
  ∀ q, allBlank q = false → find? .view (h ++ q) = some (trimStart q)

theorem createOrReplace?_blank_cons {c : Char} (hc : isBlank c = true) (t : List Char) :
    createOrReplace? (c :: t) = none := by
  have hletter : ¬ foldsTo 'C' c = true := fun h => by
    rw [isBlank_eq_false_of_foldsTo (by decide) h] at hc
    cases hc
  have hkeyword : keyword? "CREATE".toList (c :: t) = none := if_neg hletter
  rw [createOrReplace?, spaced?, hkeyword]
  rfl

theorem viewBody?_blank_cons {c : Char} (hc : isBlank c = true) (t : List Char) :
    viewBody? (c :: t) = none := by
  rw [viewBody?, createOrReplace?_blank_cons hc]
  rfl

theorem firstMatch_lead {read : List Char → Option (List Char)}
    (hread : ∀ {c}, isBlank c = true → ∀ t, read (c :: t) = none) (hb : allBlank b = true)
    (t : List Char) : firstMatch read (b ++ t) = firstMatch read t := by
  induction b with
  | nil => rfl
  | cons c b ih =>
      obtain ⟨hc, hb⟩ := List.forall_mem_cons.1 (List.all_eq_true.1 hb)
      rw [List.cons_append, firstMatch, hread hc, ih (List.all_eq_true.2 hb), Option.none_or]

theorem firstMatch_of_some {read : List Char → Option (List Char)} (h : read t = some u) :
    firstMatch read t = some u := by
  cases t with
  | nil => exact h
  | cons c t => rw [firstMatch, h, Option.some_or]

theorem createOrReplace?_append {create or replace : List Char} (hcreate : IsSpaced "CREATE" create)
    (hor : IsSpaced "OR" or) (hreplace : IsSpaced "REPLACE" replace)
    (ht : t.head?.all (!isBlank ·) = true) :
    createOrReplace? (create ++ (or ++ (replace ++ t))) = some t := by
  have hr := (hreplace.starts rfl t).not_blank (by decide)
  have ho := (hor.starts rfl (replace ++ t)).not_blank (by decide)
  rw [createOrReplace?, spaced?_append hcreate ho]
  simp only [Option.bind_eq_bind, Option.bind_some]
  rw [spaced?_append hor hr, Option.bind_some, spaced?_append hreplace ht]

theorem spaced?_view_append {secure recursive view : List Char}
    (hsecure : secure = [] ∨ IsSpaced "SECURE" secure)
    (hrecursive : recursive = [] ∨ IsSpaced "RECURSIVE" recursive) (hview : IsSpaced "VIEW" view)
    (ht : t.head?.all (!isBlank ·) = true) :
    let u := secure ++ (recursive ++ (view ++ t))
    u.head?.all (!isBlank ·) = true ∧
      spaced? "VIEW" (spacedOr "RECURSIVE" (spacedOr "SECURE" u)) = some t := by
  have hv : Starts 'V' (view ++ t) := hview.starts rfl t
  have hvblank := hv.not_blank (by decide)
  have hvr : spaced? "RECURSIVE" (view ++ t) = none :=
    hv.spaced?_eq_none rfl (by decide) (by decide) (by decide)
  have hrblank : (recursive ++ (view ++ t)).head?.all (!isBlank ·) = true := by
    rcases hrecursive with rfl | h
    · exact hvblank
    · exact (h.starts rfl _).not_blank (by decide)
  have hrs : spaced? "SECURE" (recursive ++ (view ++ t)) = none := by
    rcases hrecursive with rfl | h
    · exact hv.spaced?_eq_none rfl (by decide) (by decide) (by decide)
    · exact (h.starts rfl _).spaced?_eq_none rfl (by decide) (by decide) (by decide)
  dsimp only
  rw [spacedOr_append hsecure hrblank hrs, spacedOr_append hrecursive hvblank hvr,
    spaced?_append hview ht]
  refine ⟨?_, rfl⟩
  rcases hsecure with rfl | h
  · exact hrblank
  · exact (h.starts rfl _).not_blank (by decide)

theorem head?_clauses {columns comment gap : List Char}
    (hcolumns : columns = [] ∨ IsColumns columns) (hcomment : comment = [] ∨ IsComment comment)
    (hgap : gap ≠ []) (hblank : allBlank gap = true) (t : List Char) :
    (columns ++ (comment ++ (gap ++ t))).head?.all (!isNameChar ·) = true := by
  rcases hcolumns with rfl | ⟨b, x, rfl, hb, -⟩
  · rcases hcomment with rfl | ⟨b, w, b', b'', x, rfl, hne, hb, -⟩
    · exact head?_isNameChar hgap hblank t
    · rw [List.nil_append, List.append_assoc]
      exact head?_isNameChar hne hb _
  · rw [List.append_assoc]
    cases b with
    | nil =>
        have hparen : isNameChar '(' = false := by decide +kernel
        simpa using hparen
    | cons c b => exact head?_isNameChar (List.cons_ne_nil c b) hb _

theorem bodyAfterName?_append {columns comment gap as : List Char}
    (hcolumns : columns = [] ∨ IsColumns columns) (hcomment : comment = [] ∨ IsComment comment)
    (hgap : gap ≠ []) (hblank : allBlank gap = true) (has : IsSpaced "AS" as)
    (hq : allBlank q = false) :
    let t := columns ++ (comment ++ (gap ++ (as ++ q)))
    let t' := (columns? t).getD t
    bodyAfterAs? ((commentClause? t').getD t') = some (trimStart q) := by
  have has' : Starts 'A' (as ++ q) := has.starts rfl q
  have hcomment' : (commentClause? (comment ++ (gap ++ (as ++ q)))).getD
      (comment ++ (gap ++ (as ++ q))) = gap ++ (as ++ q) := by
    rcases hcomment with rfl | h
    · rw [List.nil_append, commentClause?_eq_none hgap hblank (by decide) has' (by decide),
        Option.getD_none]
    · rw [commentClause?_append h, Option.getD_some]
  have hcolumns' : (columns? (columns ++ (comment ++ (gap ++ (as ++ q))))).getD
      (columns ++ (comment ++ (gap ++ (as ++ q)))) = comment ++ (gap ++ (as ++ q)) := by
    rcases hcolumns with rfl | h
    · have hnone : columns? (comment ++ (gap ++ (as ++ q))) = none := by
        rcases hcomment with rfl | ⟨b, w, b', b'', x, rfl, -, hb, hw, -⟩
        · rw [List.nil_append]
          exact columns?_eq_none hblank (by decide) has'
        · rw [List.append_assoc, List.append_assoc]
          exact columns?_eq_none hb (by decide) (starts_of_spells hw _)
      rw [List.nil_append, hnone, Option.getD_none]
    · rw [columns?_append h, Option.getD_some]
  dsimp only
  rw [hcolumns', hcomment', bodyAfterAs?_append hgap hblank has hq]

theorem IsViewHeader.endsAtQuery (h : IsViewHeader t) : EndsAtQuery t := by
  intro q hq
  obtain @⟨lead, create, or, replace, secure, recursive, view, name, columns, comment, gap, as, hlead,
    hcreate, hor, hreplace, hsecure, hrecursive, hview, hne, hname, hcolumns, hcomment, hgap, hblank,
    has⟩ := h
  have hend := head?_clauses hcolumns hcomment hgap hblank (as ++ q)
  have hstart := MigrationFile.head?_append_not_blank (fun _ => isNameChar_eq_false_of_isBlank) hne
    hname (columns ++ (comment ++ (gap ++ (as ++ q))))
  obtain ⟨hwords, hview'⟩ := spaced?_view_append hsecure hrecursive hview hstart
  simp only [List.append_assoc]
  rw [find?, firstMatch_lead viewBody?_blank_cons hlead]
  apply firstMatch_of_some
  rw [viewBody?, createOrReplace?_append hcreate hor hreplace hwords]
  simp only [Option.bind_eq_bind, Option.bind_some, hview', run?_append hne hname hend]
  exact bodyAfterName?_append hcolumns hcomment hgap hblank has hq

theorem isViewHeader_name (lead name : List Char) (hlead : allBlank lead = true) (hne : name ≠ [])
    (hname : ∀ c ∈ name, isNameChar c = true) :
    IsViewHeader (lead ++ ("CREATE OR REPLACE VIEW ".toList ++ (name ++ " AS ".toList))) :=
  .intro hlead (isSpaced_self "CREATE") (isSpaced_self "OR") (isSpaced_self "REPLACE") (.inl rfl)
    (.inl rfl) (isSpaced_self "VIEW") hne hname (.inl rfl) (.inl rfl) (List.cons_ne_nil ' ' [])
    (by decide) (isSpaced_self "AS")

end Headers

end SchemaDeploy.Body
