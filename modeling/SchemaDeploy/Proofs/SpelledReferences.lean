import SchemaDeploy.Proofs.UpperText
import SchemaDeploy.Proofs.Wiring

namespace SchemaDeploy

namespace Text

theorem toNat_of_isUpper {c : Char} (h : c.isUpper = true) : 65 ≤ c.toNat ∧ c.toNat ≤ 90 := by
  simpa [Char.isUpper, UInt32.le_iff_toNat_le] using h

theorem toNat_of_isDigit {c : Char} (h : c.isDigit = true) : 48 ≤ c.toNat ∧ c.toNat ≤ 57 := by
  simpa [Char.isDigit, UInt32.le_iff_toNat_le] using h

theorem toNat_of_isLower {c : Char} (h : c.isLower = true) : 97 ≤ c.toNat ∧ c.toNat ≤ 122 := by
  simpa [Char.isLower, UInt32.le_iff_toNat_le] using h

theorem upperChar_of_toNat_lt {c : Char} (h : c.toNat < 97) : upperChar c = [c] := by
  have hl : ¬ c.isLower = true := by
    intro hl
    have hn := toNat_of_isLower hl
    omega
  rw [upperChar, if_pos (by omega), Char.toUpper_eq_of_not_isLower hl]

end Text

namespace Sql

open Text

def mark (quoted : Bool) : List Char :=
  if quoted then ['"'] else []

def written (quoted : Bool) (part : List Char) : List Char :=
  mark quoted ++ part ++ mark quoted

def qualifiers (quoted : Bool) (qs : List (List Char)) : List Char :=
  qs.flatMap fun q => written quoted q ++ ['.']

def spelled (quoted : Bool) (qs : List (List Char)) (name : List Char) : List Char :=
  qualifiers quoted qs ++ written quoted name

/-- A character that can stand before a spelled name. -/
def precedesName (c : Char) : Bool :=
  ['=', '(', ')', '[', ']', ',', '\''].contains c || isAsciiBlank c

/-- A character that can stand after a spelled name. -/
def followsName (c : Char) : Bool :=
  ['.', ';'].contains c || precedesName c

/-- A qualifier that can be read bare. -/
def IsQualifier (q : List Char) : Prop :=
  q ≠ [] ∧ ∀ c ∈ q, isSegmentChar c = true

theorem isStartBoundary_of_precedesName {c : Char} (h : precedesName c = true) :
    isStartBoundary c = true := by
  simp only [precedesName, isStartBoundary, List.contains_cons, Bool.or_eq_true] at h ⊢
  tauto

theorem isEndBoundary_of_followsName {c : Char} (h : followsName c = true) :
    isEndBoundary c = true := by
  simp only [followsName, precedesName, isEndBoundary, isStartBoundary, List.contains_cons,
    Bool.or_eq_true] at h ⊢
  tauto

theorem isSegmentChar_eq_false {c : Char} (h : precedesName c = true) : isSegmentChar c = false := by
  simp only [precedesName, isAsciiBlank, List.contains_cons, List.contains_nil, Bool.or_eq_true,
    beq_iff_eq, Bool.false_eq_true, or_false] at h
  rcases h with (h | h | h | h | h | h | h) | (((h | h) | h) | h) | h <;> subst h <;> decide

theorem toNat_of_isSegmentChar {c : Char} (h : isSegmentChar c = true) :
    36 ≤ c.toNat ∧ c.toNat ≤ 125 := by
  simp only [isSegmentChar, Char.isAlphanum, Char.isAlpha, List.contains_cons, List.contains_nil,
    Bool.or_eq_true, beq_iff_eq, Bool.false_eq_true, or_false] at h
  rcases h with ((h | h) | h) | h | h | h | h
  · have hn := toNat_of_isUpper h
    omega
  · have hn := toNat_of_isLower h
    omega
  · have hn := toNat_of_isDigit h
    omega
  all_goals
    subst h
    decide

theorem not_isBlank_of_isSegmentChar {c : Char} (h : isSegmentChar c = true) :
    Text.isBlank c = false := by
  obtain ⟨hlow, hhigh⟩ := toNat_of_isSegmentChar h
  rw [Bool.eq_false_iff]
  intro hb
  simp [Text.isBlank] at hb
  omega

theorem isSegmentChar_toLower (c : Char) : isSegmentChar c.toLower = isSegmentChar c := by
  by_cases hu : c.isUpper
  · have ha : c.isAlpha = true := by simp [Char.isAlpha, hu]
    have hl : c.toLower.isAlpha = true := by rw [Char.isAlpha_toLower_eq_isAlpha, ha]
    simp only [isSegmentChar, Char.isAlphanum, ha, hl, Bool.true_or]
  · rw [Char.toLower_eq_of_not_isUpper hu]

theorem IsQualifier.of_same {q p : List Char} (hp : IsQualifier p) (h : same q p = true) :
    IsQualifier q := by
  have hmap : q.map Char.toLower = p.map Char.toLower := eq_of_beq h
  refine ⟨?_, fun c hc => ?_⟩
  · rintro rfl
    exact hp.1 (List.map_eq_nil_iff.1 hmap.symm)
  · obtain ⟨d, hd, hdc⟩ := List.mem_map.1 (hmap ▸ List.mem_map_of_mem (f := Char.toLower) hc)
    rw [← isSegmentChar_toLower, ← hdc, isSegmentChar_toLower, hp.2 d hd]

theorem segment?_written {quoted : Bool} {q before : List Char} (hq : IsQualifier q)
    (hb : before.head?.all fun c => !isSegmentChar c) :
    segment? ('.' :: ((written quoted q).reverse ++ before)) = some ⟨q, before⟩ := by
  have hall : ∀ c ∈ q.reverse, isSegmentChar c = true := fun c hc => hq.2 c (List.mem_reverse.1 hc)
  cases quoted with
  | true =>
      have hquote : ∀ c ∈ q.reverse, decide (c ≠ '"') = true := by
        intro c hc
        rw [decide_eq_true_iff]
        rintro rfl
        exact absurd (hall _ hc) (by decide)
      have hw : (written true q).reverse ++ before = '"' :: (q.reverse ++ '"' :: before) := by
        simp [written, mark]
      rw [hw]
      simp only [segment?]
      rw [List.takeWhile_append_of_pos hquote, List.dropWhile_append_of_pos hquote]
      simp [hq.1]
  | false =>
      obtain ⟨c, t, hct⟩ := List.exists_cons_of_ne_nil (List.reverse_ne_nil_iff.2 hq.1)
      have hc : c ≠ '"' := by
        rintro rfl
        exact absurd (hall '"' (hct ▸ List.mem_cons_self)) (by decide)
      have htake : before.takeWhile isSegmentChar = [] := by
        cases before <;> simp_all
      have hdrop : before.dropWhile isSegmentChar = before := by
        cases before <;> simp_all
      have hw : (written false q).reverse ++ before = c :: (t ++ before) := by
        simp [written, mark, hct]
      rw [hw]
      unfold segment?
      split
      · next h =>
        cases h
        exact absurd rfl hc
      · next h =>
        cases h
        have hback : c :: (t ++ before) = q.reverse ++ before := by
          rw [hct, List.cons_append]
        rw [hback, List.takeWhile_append_of_pos hall, List.dropWhile_append_of_pos hall, htake,
          hdrop]
        simp [hq.1]
      · next h => exact absurd rfl (h _)

theorem segment?_eq_none {before : List Char} (h : before.head? ≠ some '.') :
    segment? before = none := by
  unfold segment?
  split
  · exact absurd rfl h
  · exact absurd rfl h
  · rfl

def Opens (before : List Char) : Prop :=
  before.head?.all precedesName = true

theorem Opens.startsAtBoundary {before : List Char} (h : Opens before) :
    startsAtBoundary before = true := by
  cases before with
  | nil => rfl
  | cons c t => exact isStartBoundary_of_precedesName h

theorem Opens.stops {before : List Char} (h : Opens before) :
    before.head?.all fun c => !isSegmentChar c := by
  cases before with
  | nil => rfl
  | cons c t => simp [isSegmentChar_eq_false h]

theorem Opens.head?_ne {before : List Char} (h : Opens before) {c : Char}
    (hc : precedesName c = false) : before.head? ≠ some c := by
  cases before with
  | nil => simp
  | cons d t =>
      intro hd
      cases hd
      rw [Opens, List.head?_cons, Option.all_some, hc] at h
      cases h

theorem Opens.segments {before : List Char} (h : Opens before) (limit : Nat) :
    segments limit before = [] := by
  cases limit with
  | zero => rfl
  | succ limit =>
      have hn : segment? before = none := segment?_eq_none (h.head?_ne (by decide))
      simp only [Sql.segments, hn]

theorem exists_chain? (quoted opened : Bool) {qs : List (List Char)} {before : List Char}
    (hlen : qs.length ≤ 2) (hqs : ∀ q ∈ qs, IsQualifier q) (hb : Opens before) :
    ∃ found, chain? opened ((qualifiers quoted qs).reverse ++ before)
        (segments 2 ((qualifiers quoted qs).reverse ++ before)) = some found ∧
      found.map Segment.name = qs.reverse := by
  have hstart := hb.startsAtBoundary
  have hstep (q rest : List Char) (limit : Nat) (hq : IsQualifier q)
      (hr : rest.head?.all fun c => !isSegmentChar c) :
      segments (limit + 1) ('.' :: ((written quoted q).reverse ++ rest)) =
        ⟨q, rest⟩ :: segments limit rest := by
    simp only [segments, segment?_written hq hr]
  match qs with
  | [] =>
      refine ⟨[], ?_, rfl⟩
      simp [qualifiers, hb.segments, chain?, hstart]
  | [s] =>
      have hs := hstep s before 1 (hqs s List.mem_cons_self) hb.stops
      refine ⟨[⟨s, before⟩], ?_, rfl⟩
      simp [qualifiers, hs, hb.segments, chain?, hstart]
  | [d, s] =>
      obtain ⟨hd, hs⟩ := List.forall_mem_cons.1 hqs
      have houter := hstep d before 0 hd hb.stops
      have hinner := hstep s ('.' :: ((written quoted d).reverse ++ before)) 1
        (hs s List.mem_cons_self) (by simp [isSegmentChar])
      refine ⟨[⟨s, '.' :: ((written quoted d).reverse ++ before)⟩, ⟨d, before⟩], ?_, rfl⟩
      simp [qualifiers, hinner, houter, hb.segments, chain?, hstart]
  | _ :: _ :: _ :: _ => simp at hlen

theorem head?_qualifiers_ne (quoted : Bool) (qs : List (List Char)) {before : List Char}
    (hb : Opens before) : ((qualifiers quoted qs).reverse ++ before).head? ≠ some '"' := by
  rcases List.eq_nil_or_concat qs with rfl | ⟨qs, q, rfl⟩
  · exact hb.head?_ne (by decide)
  · simp [qualifiers]

theorem referenceAt?_bare {name before after : List Char} (hb : before.head? ≠ some '"')
    (ha : after.head? ≠ some '"') : referenceAt? name before after =
      if after.head?.all isEndBoundary then
        (chain? false before (segments 2 before)).map fun found =>
          let part (i : Nat) := found[i]?.map fun s => String.ofList (upper s.name)
          ⟨part 1, part 0, String.ofList (upper name)⟩
      else none := by
  unfold referenceAt?
  split
  next opened before' hsplit =>
    split at hsplit
    · exact (hb rfl).elim
    · cases hsplit
      dsimp only
      split
      · exact (ha rfl).elim
      · rfl

def QualifiedName.ofFound (qs : List (List Char)) (name : List Char) : QualifiedName :=
  let part (i : Nat) := qs.reverse[i]?.map fun q => String.ofList (upper q)
  ⟨part 1, part 0, String.ofList (upper name)⟩

theorem referenceAt?_spelled (quoted : Bool) {qs : List (List Char)} {before after : List Char}
    (hlen : qs.length ≤ 2) (hqs : ∀ q ∈ qs, IsQualifier q) (hb : Opens before)
    (ha : after.head?.all followsName = true) (name : List Char) :
    referenceAt? name ((qualifiers quoted qs ++ mark quoted).reverse ++ before)
      (mark quoted ++ after) = some (.ofFound qs name) := by
  have hend : after.head?.all isEndBoundary = true := by
    cases after with
    | nil => rfl
    | cons c t => exact isEndBoundary_of_followsName ha
  obtain ⟨found, hchain, hfound⟩ := exists_chain? quoted quoted hlen hqs hb
  have hparts (i : Nat) : (found[i]?.map fun s => String.ofList (upper s.name)) =
      qs.reverse[i]?.map fun q => String.ofList (upper q) := by
    rw [← hfound, List.getElem?_map, Option.map_map]
    rfl
  cases quoted with
  | true =>
      have hr : (qualifiers true qs ++ mark true).reverse ++ before =
          '"' :: ((qualifiers true qs).reverse ++ before) := by
        simp [mark]
      have hm : mark true ++ after = '"' :: after := rfl
      rw [hr, hm]
      simp only [referenceAt?, hend, if_true, hchain, Option.map_some, hparts]
      rfl
  | false =>
      have hfront := head?_qualifiers_ne false qs hb
      have hback : after.head? ≠ some '"' := by
        intro h
        rw [h] at ha
        exact absurd ha (by decide)
      have hr : (qualifiers false qs ++ mark false).reverse ++ before =
          (qualifiers false qs).reverse ++ before := by
        simp [mark]
      have hm : mark false ++ after = after := rfl
      rw [hr, hm, referenceAt?_bare hfront hback, if_pos hend, hchain]
      simp only [Option.map_some, hparts]
      rfl

theorem dropSame?_append {a b : List Char} (h : same b a = true) (t : List Char) :
    dropSame? a (b ++ t) = some t := by
  induction a generalizing b with
  | nil =>
      have hb : b.map Char.toLower = [] := eq_of_beq h
      rw [List.map_eq_nil_iff.1 hb]
      rfl
  | cons x a ih =>
      have hb : b.map Char.toLower = x.toLower :: a.map Char.toLower := eq_of_beq h
      obtain ⟨y, b, rfl, hy, hrest⟩ := List.map_eq_cons_iff.1 hb
      have hs : sameLetter x y = true := by rw [sameLetter, hy, beq_self_eq_true]
      rw [List.cons_append, dropSame?, if_pos hs]
      exact ih (by rw [same, hrest, beq_self_eq_true])

theorem mem_referencesAfter {name p t rest : List Char} {q : QualifiedName} (hn : name ≠ [])
    (hd : dropSame? name t = some rest) {before : List Char}
    (hr : referenceAt? name (p.reverse ++ before) rest = some q) :
    q ∈ referencesAfter name before (p ++ t) := by
  induction p generalizing before with
  | nil =>
      cases t with
      | nil =>
          have hlength := length_of_dropSame? hd
          rw [List.length_nil] at hlength
          exact absurd (List.eq_nil_of_length_eq_zero (by omega)) hn
      | cons c t =>
          rw [List.nil_append, referencesAfter, hd]
          simp only [List.reverse_nil, List.nil_append] at hr
          simp [hr]
  | cons c p ih =>
      rw [List.cons_append, referencesAfter]
      apply List.mem_append_right
      apply ih
      rwa [List.reverse_cons, List.append_assoc, List.singleton_append] at hr

theorem mem_references_of_spelled (quoted : Bool) {qs : List (List Char)}
    {before n name after : List Char} (hlen : qs.length ≤ 2) (hqs : ∀ q ∈ qs, IsQualifier q)
    (hname : name ≠ []) (hn : same n name = true)
    (hb : before.getLast?.all precedesName = true) (ha : after.head?.all followsName = true) :
    .ofFound qs name ∈ references name (before ++ spelled quoted qs n ++ after) := by
  have hopens : Opens (before.reverse ++ []) := by
    rwa [Opens, List.append_nil, List.head?_reverse]
  have hmatch := dropSame?_append hn (mark quoted ++ after)
  have hread := referenceAt?_spelled quoted hlen hqs hopens ha name
  rw [← List.append_assoc, ← List.reverse_append] at hread
  have hmem := mem_referencesAfter hname hmatch hread
  have htext : before ++ (qualifiers quoted qs ++ mark quoted) ++ (n ++ (mark quoted ++ after)) =
      before ++ spelled quoted qs n ++ after := by
    simp [spelled, written]
  rw [references, if_neg hname, ← htext]
  exact hmem

end Sql

namespace Dependency

open Text Sql

/-- A character of a database or a schema that can be spelled without quotes. -/
def isQualifierChar (c : Char) : Bool :=
  c.isUpper || c.isDigit || ['_', '$', '{', '}'].contains c

def isNameChar (c : Char) : Bool :=
  c.isUpper || c.isDigit || ['_', '$'].contains c

def IsSpellable (allowed : Char → Bool) (part : String) : Prop :=
  part ≠ "" ∧ part.toList.all allowed = true

instance (allowed : Char → Bool) (part : String) : Decidable (IsSpellable allowed part) :=
  inferInstanceAs (Decidable (_ ∧ _))

/-- The qualifiers under which a subject means a candidate; what is left out is the subject's own. -/
inductive Qualifies (subject candidate : Script) : List (List Char) → Prop
  | none (hd : candidate.database = subject.database) (hs : candidate.schema = subject.schema) :
    Qualifies subject candidate []
  | schema {s : List Char} (hd : candidate.database = subject.database)
    (hs : same s candidate.schema.toList = true) : Qualifies subject candidate [s]
  | full {d s : List Char} (hd : same d candidate.database.toList = true)
    (hs : same s candidate.schema.toList = true) : Qualifies subject candidate [d, s]

theorem isQualifierChar_of_isNameChar {c : Char} (h : isNameChar c = true) :
    isQualifierChar c = true := by
  simp only [isNameChar, isQualifierChar, List.contains_cons, Bool.or_eq_true] at h ⊢
  tauto

theorem isSegmentChar_of_isQualifierChar {c : Char} (h : isQualifierChar c = true) :
    isSegmentChar c = true := by
  simp only [isQualifierChar, isSegmentChar, Char.isAlphanum, Char.isAlpha, Bool.or_eq_true] at h ⊢
  tauto

theorem upperChar_of_isQualifierChar {c : Char} (h : isQualifierChar c = true) :
    upperChar c = [c] := by
  simp only [isQualifierChar, List.contains_cons, List.contains_nil, Bool.or_eq_true, beq_iff_eq,
    Bool.or_false] at h
  rcases h with (h | h) | h | h | h | h
  · exact upperChar_of_toNat_lt (by have hn := toNat_of_isUpper h; omega)
  · exact upperChar_of_toNat_lt (by have hn := toNat_of_isDigit h; omega)
  all_goals
    subst h
    decide

theorem upper_of_isQualifierChar {t : List Char} (h : ∀ c ∈ t, isQualifierChar c = true) :
    upper t = t := by
  induction t with
  | nil => rfl
  | cons c t ih =>
      obtain ⟨hc, ht⟩ := List.forall_mem_cons.1 h
      have ih := ih ht
      rw [upper] at ih ⊢
      rw [List.flatMap_cons, upperChar_of_isQualifierChar hc, ih]
      rfl

theorem IsSpellable.isQualifier {part : String} (h : IsSpellable isQualifierChar part)
    {q : List Char} (hq : same q part.toList = true) : IsQualifier q := by
  have hpart : IsQualifier part.toList :=
    ⟨fun hn => h.1 (String.toList_eq_nil_iff.1 hn),
      fun c hc => isSegmentChar_of_isQualifierChar (List.all_eq_true.1 h.2 c hc)⟩
  exact hpart.of_same hq

theorem IsSpellable.ofList_upper {part : String} (h : IsSpellable isQualifierChar part)
    {q : List Char} (hq : same q part.toList = true) : String.ofList (upper q) = part := by
  rw [upper_eq_of_same hq, upper_of_isQualifierChar (List.all_eq_true.1 h.2), String.ofList_toList]

theorem Qualifies.resolve {subject candidate : Script} {qs : List (List Char)}
    (h : Qualifies subject candidate qs)
    (hdatabase : IsSpellable isQualifierChar candidate.database)
    (hschema : IsSpellable isQualifierChar candidate.schema)
    (hname : upper candidate.name.toList = candidate.name.toList) :
    (QualifiedName.ofFound qs candidate.name.toList).resolve subject.database subject.schema =
      candidate.fullName := by
  have hn : String.ofList (upper candidate.name.toList) = candidate.name := by
    rw [hname, String.ofList_toList]
  cases h with
  | none hd hs =>
      simp [QualifiedName.ofFound, QualifiedName.resolve, Script.fullName, hn, hd, hs]
  | schema hd hs =>
      simp [QualifiedName.ofFound, QualifiedName.resolve, Script.fullName, hn, hd,
        hschema.ofList_upper hs]
  | full hd hs =>
      simp [QualifiedName.ofFound, QualifiedName.resolve, Script.fullName, hn,
        hdatabase.ofList_upper hd, hschema.ofList_upper hs]

theorem Qualifies.isQualifier {subject candidate : Script} {qs : List (List Char)}
    (h : Qualifies subject candidate qs)
    (hdatabase : IsSpellable isQualifierChar candidate.database)
    (hschema : IsSpellable isQualifierChar candidate.schema) :
    qs.length ≤ 2 ∧ ∀ q ∈ qs, IsQualifier q := by
  cases h with
  | none => simp
  | schema hd hs =>
      exact ⟨by simp, List.forall_mem_singleton.2 (hschema.isQualifier hs)⟩
  | full hd hs =>
      refine ⟨by simp, List.forall_mem_cons.2 ⟨hdatabase.isQualifier hd, ?_⟩⟩
      exact List.forall_mem_singleton.2 (hschema.isQualifier hs)

/-- A script depends on every other one that its text spells. -/
theorem mem_inferred_of_spelled {subject candidate : Script} {pool : List Script} {j : Nat}
    {quoted : Bool} {qs : List (List Char)} {before n after : List Char}
    (hforeign : isForeign subject (clean subject.content.toList) = false)
    (hj : pool[j]? = some candidate) (hne : candidate.fullName ≠ subject.fullName)
    (hdatabase : IsSpellable isQualifierChar candidate.database)
    (hschema : IsSpellable isQualifierChar candidate.schema)
    (hname : IsSpellable isNameChar candidate.name)
    (hqs : Qualifies subject candidate qs) (hn : same n candidate.name.toList = true)
    (htext : clean subject.content.toList = before ++ spelled quoted qs n ++ after)
    (hb : before.getLast?.all precedesName = true) (ha : after.head?.all followsName = true) :
    j ∈ inferred subject pool := by
  obtain ⟨hlen, hparts⟩ := hqs.isQualifier hdatabase hschema
  have hupper : upper candidate.name.toList = candidate.name.toList :=
    upper_of_isQualifierChar fun c hc =>
      isQualifierChar_of_isNameChar (List.all_eq_true.1 hname.2 c hc)
  have hmem := mem_references_of_spelled quoted hlen hparts
    (fun h => hname.1 (String.toList_eq_nil_iff.1 h)) hn hb ha
  have hnames : names subject (clean subject.content.toList) candidate = true := by
    rw [names, List.any_eq_true]
    refine ⟨_, htext ▸ hmem, ?_⟩
    rw [hqs.resolve hdatabase hschema hupper, beq_self_eq_true]
  refine mem_inferred.2 ⟨candidate, hj, ?_⟩
  rw [Infers, dependsOn, hforeign, hnames]
  simp [hne]

theorem mem_inferred_of_spelled_quoted :
    let subject := Script.state "DB" "S" .view "TOP" "CREATE VIEW TOP AS (SELECT 1 FROM \"a\".\"v\")"
    let candidate := Script.state "DB" "A" .view "V" "CREATE VIEW A.V AS SELECT 1"
    0 ∈ inferred subject [candidate] := by
  intro subject candidate
  have hforeign : isForeign subject (clean subject.content.toList) = false := by
    decide +kernel
  have hqs : Qualifies subject candidate ["a".toList] := .schema (by decide) (by decide)
  have htext : clean subject.content.toList = "CREATE VIEW TOP AS (SELECT 1 FROM ".toList ++
      spelled true ["a".toList] "v".toList ++ ")".toList := by
    decide +kernel
  have hdatabase : IsSpellable isQualifierChar candidate.database := by
    decide +kernel
  have hschema : IsSpellable isQualifierChar candidate.schema := by
    decide +kernel
  have hname : IsSpellable isNameChar candidate.name := by
    decide +kernel
  exact mem_inferred_of_spelled hforeign rfl (by decide +kernel) hdatabase hschema hname hqs
    (by decide) htext (by decide) (by decide)

end Dependency

end SchemaDeploy
