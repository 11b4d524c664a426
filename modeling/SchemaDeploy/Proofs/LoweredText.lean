import SchemaDeploy.Proofs.HiddenText
import SchemaDeploy.Proofs.LanguageClauses
import SchemaDeploy.Proofs.ReferencePlaces

namespace SchemaDeploy

namespace Text

section Characters

def IgnoresCase (p : Char → Bool) : Prop :=
  ∀ c : Char, p c.toLower = p c

theorem ignoresCase_of_isUpper {p : Char → Bool}
    (h : ∀ c : Char, c.isUpper = true → c.toLower.toNat = c.toNat + 32 → p c.toLower = p c) :
    IgnoresCase p := by
  intro c
  by_cases hu : c.isUpper = true
  · have hn := toNat_of_isUpper hu
    refine h c hu ?_
    rw [Char.toLower_eq_of_isUpper hu, Char.toNat_ofNat, if_pos (.inl (by omega))]
  · rw [Char.toLower_eq_of_not_isUpper hu]

theorem ignoresCase_beq {d : Char} (hd : d.isAlpha = false) : IgnoresCase (· == d) := by
  intro c
  rw [Bool.eq_iff_iff, beq_iff_eq, beq_iff_eq]
  exact toLower_eq_iff hd

theorem IgnoresCase.or {p q : Char → Bool} (hp : IgnoresCase p) (hq : IgnoresCase q) :
    IgnoresCase fun c => p c || q c :=
  fun c => congrArg₂ _ (hp c) (hq c)

theorem ignoresCase_contains {l : List Char} (hl : l.all (!·.isAlpha) = true) :
    IgnoresCase l.contains := by
  induction l with
  | nil => exact fun _ => rfl
  | cons d l ih =>
      rw [List.all_cons, Bool.and_eq_true, Bool.not_eq_true'] at hl
      exact (ignoresCase_beq hl.1).or (ih hl.2)

theorem ignoresCase_isAsciiBlank : IgnoresCase isAsciiBlank :=
  ((((ignoresCase_beq rfl).or (ignoresCase_beq rfl)).or (ignoresCase_beq rfl)).or
    (ignoresCase_beq rfl)).or (ignoresCase_beq rfl)

theorem ignoresCase_isBlank : IgnoresCase isBlank := by
  refine ignoresCase_of_isUpper fun c hu hlower => ?_
  have hn := toNat_of_isUpper hu
  have hnone (d : Char) (h : 65 ≤ d.toNat ∧ d.toNat ≤ 122) : isBlank d = false := by
    rw [Bool.eq_false_iff]
    intro hb
    simp [isBlank] at hb
    omega
  rw [hnone c (by omega), hnone c.toLower (by omega)]

theorem ignoresCase_isAlphanum : IgnoresCase Char.isAlphanum := by
  refine ignoresCase_of_isUpper fun c hu _ => ?_
  have ha : c.isAlpha = true := by simp [Char.isAlpha, hu]
  rw [Char.isAlphanum, Char.isAlphanum, Char.isAlpha_toLower_eq_isAlpha, ha, Bool.true_or,
    Bool.true_or]

theorem ignoresCase_isWord : IgnoresCase isWord := by
  refine ignoresCase_of_isUpper fun c hu hlower => ?_
  have hn := toNat_of_isUpper hu
  rw [isWord, isWord, if_pos (by omega), if_pos (by omega)]
  exact (ignoresCase_isAlphanum.or (ignoresCase_beq rfl)) c

theorem ignoresCase_sameLetter (a : Char) : IgnoresCase (sameLetter a) := by
  intro c
  rw [sameLetter, sameLetter, Char.toLower_toLower_eq_toLower]

theorem ignoresCase_foldsTo (k : Char) : IgnoresCase (foldsTo k) := by
  refine ignoresCase_of_isUpper fun c hu hlower => ?_
  have hn := toNat_of_isUpper hu
  have hother (d : Char) (h : d.toNat ≤ 122) :
      (d.toNat == 0x17F) = false ∧ (d.toNat == 0x212A) = false := by
    simp only [beq_eq_false_iff_ne]
    omega
  rw [foldsTo, foldsTo, ignoresCase_sameLetter, (hother c (by omega)).1, (hother c (by omega)).2,
    (hother _ (by omega)).1, (hother _ (by omega)).2]

end Characters

section Searches

variable {p : Char → Bool}

theorem same_map_toLower (s t : List Char) : same (s.map Char.toLower) t = same s t := by
  simp only [same, List.map_map, Function.comp_def, Char.toLower_toLower_eq_toLower]

theorem dropSame?_toLower (needle t : List Char) :
    dropSame? needle (t.map Char.toLower) = (dropSame? needle t).map (List.map Char.toLower) := by
  induction needle generalizing t with
  | nil => rfl
  | cons a needle ih =>
      cases t with
      | nil => rfl
      | cons c t =>
          rw [List.map_cons, dropSame?, dropSame?, ignoresCase_sameLetter]
          split
          · exact ih t
          · rfl

theorem keyword?_toLower (ks t : List Char) :
    keyword? ks (t.map Char.toLower) = (keyword? ks t).map (List.map Char.toLower) := by
  induction ks generalizing t with
  | nil => rfl
  | cons k ks ih =>
      cases t with
      | nil => rfl
      | cons c t =>
          rw [List.map_cons, keyword?, keyword?, ignoresCase_foldsTo]
          split
          · exact ih t
          · rfl

theorem IgnoresCase.takeWhile (hp : IgnoresCase p) (t : List Char) :
    (t.map Char.toLower).takeWhile p = (t.takeWhile p).map Char.toLower := by
  have hcomp : p ∘ Char.toLower = p := funext hp
  rw [List.takeWhile_map, hcomp]

theorem IgnoresCase.dropWhile (hp : IgnoresCase p) (t : List Char) :
    (t.map Char.toLower).dropWhile p = (t.dropWhile p).map Char.toLower := by
  have hcomp : p ∘ Char.toLower = p := funext hp
  rw [List.dropWhile_map, hcomp]

theorem IgnoresCase.head?_any (hp : IgnoresCase p) (t : List Char) :
    (t.map Char.toLower).head?.any p = t.head?.any p := by
  cases t with
  | nil => rfl
  | cons c t => exact hp c

theorem IgnoresCase.head?_all (hp : IgnoresCase p) (t : List Char) :
    (t.map Char.toLower).head?.all p = t.head?.all p := by
  cases t with
  | nil => rfl
  | cons c t => exact hp c

end Searches

end Text

namespace Sql

open Text

section Comments

def Chunk.lowered {σ : Type} (k : Chunk σ) : Chunk σ :=
  { k with text := k.text.map Char.toLower }

theorem chunks_toLower {σ : Type} {step : σ → Char → Option Char → σ × Bool}
    (hstep : ∀ s (c : Char) next, step s c.toLower (next.map Char.toLower) = step s c next)
    (s : σ) (t : List Char) :
    chunks step s (t.map Char.toLower) = (chunks step s t).map Chunk.lowered := by
  fun_induction chunks step s t with
  | case1 s => rfl
  | case2 s c =>
      have hlower := hstep s c none
      rw [Option.map_none] at hlower
      simp only [List.map_cons, List.map_nil, chunks, hlower, Chunk.lowered]
  | case3 s c d t s' h ih =>
      have hlower := hstep s c (some d)
      rw [h, Option.map_some] at hlower
      simp only [List.map_cons, chunks, hlower, ih, Chunk.lowered, List.map_nil]
  | case4 s c d t s' h ih =>
      have hlower := hstep s c (some d)
      rw [h, Option.map_some] at hlower
      rw [List.map_cons] at ih
      simp only [List.map_cons, chunks, hlower, ih, Chunk.lowered, List.map_nil]

theorem map_toLower_eq_some_iff {next : Option Char} {d : Char} (hd : d.isAlpha = false) :
    next.map Char.toLower = some d ↔ next = some d := by
  cases next with
  | none => simp
  | some c => simp [toLower_eq_iff hd]

theorem step_toLower (s : ScanState) (c : Char) (next : Option Char) :
    s.step c.toLower (next.map Char.toLower) = s.step c next := by
  rw [ScanState.step_eq, ScanState.step_eq]
  simp only [toLower_eq_iff (d := '-') rfl, toLower_eq_iff (d := '/') rfl,
    toLower_eq_iff (d := '\'') rfl, toLower_eq_iff (d := '"') rfl, toLower_eq_iff (d := '\n') rfl,
    toLower_eq_iff (d := '*') rfl, toLower_eq_iff (d := '\\') rfl,
    map_toLower_eq_some_iff (d := '-') rfl, map_toLower_eq_some_iff (d := '/') rfl,
    map_toLower_eq_some_iff (d := '*') rfl]

theorem uncommented_lowered (k : Chunk ScanState) :
    k.lowered.uncommented = k.uncommented.map Char.toLower := by
  obtain ⟨s, s', t⟩ := k
  cases s <;> cases s' <;> rfl

theorem stripComments_toLower (t : List Char) :
    stripComments (t.map Char.toLower) = (stripComments t).map Char.toLower := by
  rw [stripComments, stripComments, chunks_toLower step_toLower, List.flatMap_map, List.map_flatMap]
  exact List.flatMap_congr fun k _ => uncommented_lowered k

end Comments

section Literals

theorem literalLength?_toLower (t : List Char) :
    literalLength? (t.map Char.toLower) = literalLength? t := by
  have hquote : Char.toLower '\'' = '\'' := rfl
  have hescape : Char.toLower '\\' = '\\' := rfl
  fun_induction literalLength? t with
  | case1 => rfl
  | case2 c t ih => rw [List.map_cons, List.map_cons, hescape, literalLength?, ih]
  | case3 t ih => rw [List.map_cons, List.map_cons, hquote, literalLength?, ih]
  | case4 t hnext =>
      rw [List.map_cons, hquote]
      apply literalLength?_of_head
      cases t with
      | nil => simp
      | cons d t =>
          intro hd
          rw [List.map_cons, List.head?_cons, Option.some.injEq, toLower_eq_iff rfl] at hd
          exact hnext t (by rw [hd])
  | case5 c t hescaped _ hne ih =>
      by_cases hc : c = '\\'
      · subst hc
        cases t with
        | nil => rfl
        | cons d t => exact absurd rfl (hescaped d t rfl)
      · have hlower : c.toLower ≠ '\'' ∧ c.toLower ≠ '\\' := by
          rw [ne_eq, toLower_eq_iff rfl, ne_eq, toLower_eq_iff rfl]
          exact ⟨hne, hc⟩
        rw [List.map_cons, literalLength?_cons hlower, ih]

theorem quotedLength_toLower (t : List Char) :
    quotedLength (t.map Char.toLower) = quotedLength t := by
  have hquote : IgnoresCase fun c => decide (c ≠ '"') := fun c => by
    simp only [ne_eq, toLower_eq_iff (d := '"') rfl]
  rw [quotedLength, hquote.takeWhile, List.length_map, quotedLength]

theorem followsAs_toLower (before : List Char) :
    followsAs (before.map Char.toLower) = followsAs before := by
  rw [followsAs, followsAs, ignoresCase_isAsciiBlank.dropWhile, ignoresCase_isAsciiBlank.head?_any]
  rcases before.dropWhile isAsciiBlank with - | ⟨s, - | ⟨a, - | ⟨b, t⟩⟩⟩
  · rfl
  · rfl
  · rfl
  · simp only [List.map_cons, ignoresCase_sameLetter _ _, ignoresCase_isAsciiBlank b]

theorem stripLiteralsFrom_toLower (skip : Nat) (keep : Bool) (before t : List Char) :
    stripLiteralsFrom skip keep (before.map Char.toLower) (t.map Char.toLower) =
      (stripLiteralsFrom skip keep before t).map Char.toLower := by
  have hquote : Char.toLower '\'' = '\'' := rfl
  have hdouble : Char.toLower '"' = '"' := rfl
  induction t generalizing skip keep before with
  | nil => cases skip <;> rfl
  | cons c t ih =>
      have ih (skip : Nat) (keep : Bool) := ih skip keep (c :: before)
      simp only [List.map_cons] at ih
      cases skip with
      | succ skip =>
          simp only [List.map_cons, stripLiteralsFrom, ih]
          cases keep <;> rfl
      | zero =>
          simp only [List.map_cons, stripLiteralsFrom, ih, toLower_eq_iff (d := '"') rfl,
            toLower_eq_iff (d := '\'') rfl, literalLength?_toLower, quotedLength_toLower,
            followsAs_toLower]
          split
          · rfl
          · split
            · split
              · rfl
              · split
                · rfl
                · rfl
            · rfl

theorem clean_toLower (t : List Char) : clean (t.map Char.toLower) = (clean t).map Char.toLower := by
  rw [clean, clean, stripComments_toLower]
  exact stripLiteralsFrom_toLower 0 true [] (stripComments t)

end Literals

section References

variable {name before t : List Char}

theorem ignoresCase_isStartBoundary : IgnoresCase isStartBoundary :=
  (ignoresCase_contains rfl).or ignoresCase_isAsciiBlank

theorem ignoresCase_isEndBoundary : IgnoresCase isEndBoundary :=
  (ignoresCase_beq rfl).or ignoresCase_isStartBoundary

def Segment.lowered (s : Segment) : Segment :=
  ⟨s.name.map Char.toLower, s.before.map Char.toLower⟩

theorem mem_map_toLower_iff {c : Char} (hc : c.isAlpha = false) : c ∈ t.map Char.toLower ↔ c ∈ t := by
  simp only [List.mem_map, toLower_eq_iff hc, exists_eq_right]

theorem segment?_toLower (t : List Char) :
    segment? (t.map Char.toLower) = (segment? t).map Segment.lowered := by
  have hdot : Char.toLower '.' = '.' := rfl
  have hquote : Char.toLower '"' = '"' := rfl
  have hbare : IgnoresCase isSegmentChar := isSegmentChar_toLower
  by_cases hhead : t.head? = some '.'
  · obtain ⟨t, rfl⟩ := List.head?_eq_some_iff.1 hhead
    rw [List.map_cons, hdot]
    by_cases hopen : t.head? = some '"'
    · obtain ⟨t, rfl⟩ := List.head?_eq_some_iff.1 hopen
      rw [List.map_cons, hquote]
      by_cases hmem : '"' ∈ t
      · obtain ⟨x, before, rfl, hx⟩ := List.eq_append_cons_of_mem hmem
        have hlower : '"' ∉ x.map Char.toLower := by rwa [mem_map_toLower_iff rfl]
        rw [List.map_append, List.map_cons, hquote, segment?_quoted hlower, segment?_quoted hx]
        simp only [List.map_eq_nil_iff, ← List.map_reverse]
        split <;> rfl
      · rw [segment?_unquoted hmem, segment?_unquoted (by rwa [mem_map_toLower_iff rfl])]
        rfl
    · have hlower : (t.map Char.toLower).head? ≠ some '"' := by
        rwa [List.head?_map, ne_eq, map_toLower_eq_some_iff rfl]
      rw [segment?_bare hlower, segment?_bare hopen, hbare.takeWhile, hbare.dropWhile]
      simp only [List.map_eq_nil_iff, ← List.map_reverse]
      split <;> rfl
  · have hlower : (t.map Char.toLower).head? ≠ some '.' := by
      rwa [List.head?_map, ne_eq, map_toLower_eq_some_iff rfl]
    rw [segment?_eq_none hlower, segment?_eq_none hhead]
    rfl

theorem segments_toLower (limit : Nat) (before : List Char) :
    segments limit (before.map Char.toLower) = (segments limit before).map Segment.lowered := by
  induction limit generalizing before with
  | zero => rfl
  | succ limit ih =>
      rw [segments, segments, segment?_toLower]
      cases segment? before with
      | none => rfl
      | some s => exact congrArg (s.lowered :: ·) (ih s.before)

theorem startsAtBoundary_toLower (before : List Char) :
    startsAtBoundary (before.map Char.toLower) = startsAtBoundary before :=
  ignoresCase_isStartBoundary.head?_all before

theorem chain?_toLower (opened : Bool) (before : List Char) (found : List Segment) :
    chain? opened (before.map Char.toLower) (found.map Segment.lowered) =
      (chain? opened before found).map (List.map Segment.lowered) := by
  have hsegment (s : Segment) : startsAtBoundary s.lowered.before = startsAtBoundary s.before :=
    startsAtBoundary_toLower s.before
  match found with
  | [] =>
    simp only [List.map_nil, chain?, startsAtBoundary_toLower]
    split <;> rfl
  | [s] =>
    simp only [List.map_cons, List.map_nil, chain?, startsAtBoundary_toLower, hsegment]
    split
    · rfl
    · split <;> rfl
  | s :: t :: found =>
    simp only [List.map_cons, chain?, startsAtBoundary_toLower, hsegment]
    split
    · rfl
    · split
      · rfl
      · split <;> rfl

theorem closesName_toLower (after : List Char) :
    closesName (after.map Char.toLower) = closesName after := by
  have hclosed (t : List Char) : closesName ('"' :: t) = t.head?.all isEndBoundary := rfl
  have hopen {t : List Char} (h : t.head? ≠ some '"') :
      closesName t = t.head?.all isEndBoundary := by
    rw [closesName]
    rintro r rfl
    exact h rfl
  by_cases h : after.head? = some '"'
  · obtain ⟨t, rfl⟩ := List.head?_eq_some_iff.1 h
    exact ignoresCase_isEndBoundary.head?_all t
  · have hlower : (after.map Char.toLower).head? ≠ some '"' := by
      rwa [List.head?_map, ne_eq, map_toLower_eq_some_iff rfl]
    rw [hopen hlower, hopen h, ignoresCase_isEndBoundary.head?_all]

theorem referenceAt?_toLower (name before after : List Char) :
    referenceAt? name (before.map Char.toLower) (after.map Char.toLower) =
      referenceAt? name before after := by
  have hmark (opened : Bool) : (mark opened).map Char.toLower = mark opened := by
    cases opened <;> rfl
  obtain ⟨opened, y, rfl, hy⟩ := exists_mark before
  have hylower : opened = false → (y.map Char.toLower).head? ≠ some '"' := fun h => by
    rw [List.head?_map, ne_eq, map_toLower_eq_some_iff rfl]
    exact hy h
  rw [List.map_append, hmark, referenceAt?_eq opened hylower, referenceAt?_eq opened hy,
    closesName_toLower, segments_toLower, chain?_toLower, Option.map_map]
  have hupper (x : List Char) : upper (x.map Char.toLower) = upper x :=
    upper_eq_of_same ((same_map_toLower x x).trans (same_refl x))
  have hfound (found : List Segment) :
      QualifiedName.ofFound ((found.map Segment.lowered).map Segment.name).reverse name =
        .ofFound (found.map Segment.name).reverse name := by
    simp only [QualifiedName.ofFound, List.reverse_reverse, List.getElem?_map, Option.map_map,
      Function.comp_def, Segment.lowered, hupper]
  simp only [Function.comp_def, hfound]

theorem referencesAfter_toLower (name before t : List Char) :
    referencesAfter name (before.map Char.toLower) (t.map Char.toLower) =
      referencesAfter name before t := by
  induction t generalizing before with
  | nil => rfl
  | cons c t ih =>
      have hhere := dropSame?_toLower name (c :: t)
      rw [List.map_cons] at hhere
      rw [List.map_cons, referencesAfter, referencesAfter, hhere, ← ih (c :: before), List.map_cons,
        Option.bind_map]
      simp only [Function.comp_def, referenceAt?_toLower]

theorem references_toLower (name t : List Char) :
    references name (t.map Char.toLower) = references name t := by
  rw [references, references]
  split
  · rfl
  · exact referencesAfter_toLower name [] t

end References

end Sql

namespace Dependency

open Text Sql

section Clauses

theorem spaced?_toLower (keyword : String) (t : List Char) :
    spaced? keyword (t.map Char.toLower) = (spaced? keyword t).map (List.map Char.toLower) := by
  have hblanks (t : List Char) :
      blanks? (t.map Char.toLower) = (blanks? t).map (List.map Char.toLower) := by
    cases t with
    | nil => rfl
    | cons c t =>
        rw [List.map_cons, blanks?, blanks?, ignoresCase_isBlank, ignoresCase_isBlank.dropWhile]
        split <;> rfl
  rw [spaced?, spaced?, keyword?_toLower, Option.bind_map, Option.map_bind]
  exact congrArg _ (funext hblanks)

theorem clause?_toLower (previous : Option Char) (t : List Char) :
    clause? (previous.map Char.toLower) (t.map Char.toLower) =
      (clause? previous t).map (List.map Char.toLower) := by
  have hrun (t : List Char) : (run? isWord (t.map Char.toLower)).map Prod.fst =
      ((run? isWord t).map Prod.fst).map (List.map Char.toLower) := by
    rw [run?, run?, ignoresCase_isWord.takeWhile]
    cases t.takeWhile isWord <;> rfl
  have hprevious : (previous.map Char.toLower).any isWord = previous.any isWord := by
    cases previous with
    | none => rfl
    | some c => exact ignoresCase_isWord c
  rw [clause?_eq, clause?_eq, hprevious, spaced?_toLower, Option.bind_map]
  split
  · rfl
  · rw [Option.map_bind]
    exact congrArg _ (funext hrun)

theorem language?_toLower (previous : Option Char) (t : List Char) :
    language? (previous.map Char.toLower) (t.map Char.toLower) =
      (language? previous t).map (List.map Char.toLower) := by
  induction t generalizing previous with
  | nil => rfl
  | cons c t ih =>
      have hhere := clause?_toLower previous (c :: t)
      have hrest := ih (some c)
      rw [List.map_cons] at hhere
      rw [Option.map_some] at hrest
      rw [List.map_cons, language?_cons, language?_cons, hhere, hrest, Option.map_or]

end Clauses

theorem isForeign_toLower (s : Script) (cleaned : List Char) :
    isForeign s (cleaned.map Char.toLower) = isForeign s cleaned := by
  have hlanguage := language?_toLower none cleaned
  rw [Option.map_none] at hlanguage
  rw [isForeign, isForeign, hlanguage, Option.any_map]
  simp only [same_map_toLower]

theorem names_toLower (s candidate : Script) (cleaned : List Char) :
    names s (cleaned.map Char.toLower) candidate = names s cleaned candidate := by
  rw [names, names, references_toLower]

/-- Scripts of one object whose texts differ in the case of their letters depend on the same scripts. -/
theorem inferred_of_sameText {s t : Script} (hdatabase : s.database = t.database)
    (hschema : s.schema = t.schema) (hname : s.name = t.name) (htype : s.objectType = t.objectType)
    (hversion : s.version = t.version) (hcontent : sameText s.content t.content = true)
    (pool : List Script) : inferred s pool = inferred t pool := by
  have hcleaned : (clean s.content.toList).map Char.toLower =
      (clean t.content.toList).map Char.toLower := by
    rw [← clean_toLower, ← clean_toLower, eq_of_beq hcontent]
  have hfullName : s.fullName = t.fullName := by
    rw [Script.fullName, hdatabase, hschema, hname, Script.fullName]
  have hforeign : isForeign s (clean s.content.toList) = isForeign t (clean t.content.toList) := by
    rw [← isForeign_toLower, hcleaned, isForeign_toLower, isForeign, htype, isForeign]
  have hnames (candidate : Script) :
      names s (clean s.content.toList) candidate = names t (clean t.content.toList) candidate := by
    rw [← names_toLower, hcleaned, names_toLower, names, hdatabase, hschema, names]
  have hearlier (candidate : Script) :
      isEarlierVersion s candidate = isEarlierVersion t candidate := by
    rw [isEarlierVersion, hversion, htype, hfullName, isEarlierVersion]
  simp only [inferred, dependsOn, hforeign, hfullName, hnames, hearlier]

theorem inferred_of_sameText_function :
    let s := Script.state "DB" "S" .function "F"
      "create function F() language SQL as 'select * from b.\"t\", V' -- w"
    let t := Script.state "DB" "S" .function "F"
      "CREATE FUNCTION f() Language sql AS 'SELECT * FROM B.\"T\", v' -- W"
    let pool := [Script.state "DB" "B" .table "T" "", Script.state "DB" "S" .view "V" "",
      Script.state "DB" "S" .view "W" ""]
    inferred s pool = inferred t pool ∧ inferred t pool = [0, 1] := by
  intro s t pool
  obtain ⟨hcontent, hpositions⟩ : sameText s.content t.content = true ∧ inferred t pool = [0, 1] := by
    decide +kernel
  have hsame := inferred_of_sameText (s := s) (t := t) (by decide) (by decide)
    (by decide) (by decide) (by decide) hcontent pool
  exact ⟨hsame, hpositions⟩

end Dependency

end SchemaDeploy
