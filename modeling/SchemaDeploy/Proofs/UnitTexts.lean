import SchemaDeploy.Proofs.HeaderLines
import SchemaDeploy.Proofs.TrimmedText

namespace SchemaDeploy.MigrationFile

open Text

section Headers

variable {keyword : String} {b l p line digits rest t : List Char} {version : Nat}
  {author : Option String}

theorem isLabel_iff_exists : IsLabel keyword t rest ↔ ∃ p, t = p ++ rest ∧ IsLabel keyword p [] := by
  constructor
  · rintro ⟨b, w, b', rfl, hb, hw, hb'⟩
    exact ⟨b ++ (w ++ (b' ++ [':'])), by simp, b, w, b', rfl, hb, hw, hb'⟩
  · rintro ⟨_, rfl, b, w, b', rfl, hb, hw, hb'⟩
    exact ⟨b, w, b', by simp, hb, hw, hb'⟩

theorem isNumbered_iff_exists : IsNumbered line digits rest ↔
    ∃ p, line = p ++ rest ∧ IsNumbered p digits [] := by
  constructor
  · rintro ⟨b, ⟨b', t, rfl, hb', ht⟩, hb, hne, hall⟩
    obtain ⟨p, rfl, hp⟩ := isLabel_iff_exists.1 ht
    have hstem : IsLabel "version" (p ++ (b ++ (digits ++ []))) (b ++ (digits ++ [])) :=
      isLabel_iff_exists.2 ⟨p, rfl, hp⟩
    exact ⟨b' ++ '-' :: '-' :: '-' :: (p ++ (b ++ (digits ++ []))), by simp,
      b, ⟨b', _, rfl, hb', hstem⟩, hb, hne, hall⟩
  · rintro ⟨_, rfl, b, ⟨b', t, rfl, hb', ht⟩, hb, hne, hall⟩
    obtain ⟨p, rfl, hp⟩ := isLabel_iff_exists.1 ht
    have hlabel : IsLabel "version" (p ++ (b ++ (digits ++ rest))) (b ++ (digits ++ rest)) :=
      isLabel_iff_exists.2 ⟨p, rfl, hp⟩
    exact ⟨b, ⟨b', _, by simp, hb', hlabel⟩, hb, hne, hall⟩

theorem getLast?_append_not_blank {q : Char → Bool} (hq : ∀ c, isBlank c = true → q c = false)
    {a : List Char} (hne : a ≠ []) (ha : ∀ c ∈ a, q c = true) (t : List Char) :
    (t ++ a).getLast?.all (!isBlank ·) = true := by
  have hlast := ha _ (List.getLast_mem hne)
  rw [List.getLast?_append_of_ne_nil _ hne, List.getLast?_eq_getLast_of_ne_nil hne]
  cases hblank : isBlank (a.getLast hne) with
  | false => simp [hblank]
  | true =>
      rw [hq _ hblank] at hlast
      cases hlast

theorem IsNumbered.getLast? (h : IsNumbered p digits []) :
    p.getLast?.all (!isBlank ·) = true := by
  obtain ⟨b, ⟨b', t, rfl, -, ht⟩, -, hne, hall⟩ := h
  obtain ⟨q, rfl, -⟩ := isLabel_iff_exists.1 ht
  have htext : b' ++ '-' :: '-' :: '-' :: (q ++ (b ++ (digits ++ []))) =
      b' ++ '-' :: '-' :: '-' :: (q ++ b) ++ digits := by simp
  rw [htext]
  exact getLast?_append_not_blank (fun _ => isDecimal_eq_false_of_isBlank) hne hall _

theorem isNumbered_append_blank (hb : allBlank b = true) : IsNumbered (l ++ b) digits rest ↔
    ∃ r, rest = r ++ b ∧ IsNumbered l digits r := by
  constructor
  · intro h
    obtain ⟨p, hp, hstem⟩ := isNumbered_iff_exists.1 h
    obtain ⟨r, rfl, rfl⟩ := exists_append_of_blank hp.symm hb hstem.getLast?
    exact ⟨r, rfl, isNumbered_iff_exists.2 ⟨p, rfl, hstem⟩⟩
  · rintro ⟨r, rfl, h⟩
    obtain ⟨p, rfl, hstem⟩ := isNumbered_iff_exists.1 h
    exact isNumbered_iff_exists.2 ⟨p, by simp, hstem⟩

theorem opensUnit_iff_exists : OpensUnit l ↔ ∃ p digits, p <+: l ∧ IsNumbered p digits [] := by
  constructor
  · rintro ⟨digits, rest, h⟩
    obtain ⟨p, rfl, hp⟩ := isNumbered_iff_exists.1 h
    exact ⟨p, digits, List.prefix_append p rest, hp⟩
  · rintro ⟨p, digits, ⟨rest, rfl⟩, hp⟩
    exact ⟨digits, rest, isNumbered_iff_exists.2 ⟨p, rfl, hp⟩⟩

theorem opensUnit_append_blank (hb : allBlank b = true) : OpensUnit (l ++ b) ↔ OpensUnit l := by
  constructor
  · rintro ⟨digits, rest, h⟩
    obtain ⟨r, -, hr⟩ := (isNumbered_append_blank hb).1 h
    exact ⟨digits, r, hr⟩
  · rintro ⟨digits, r, h⟩
    exact ⟨digits, r ++ b, (isNumbered_append_blank hb).2 ⟨r, rfl, h⟩⟩

theorem isAuthorClause_append_blank (hb : allBlank b = true) :
    IsAuthorClause (t ++ b) author ↔ IsAuthorClause t author := by
  constructor
  · intro h
    generalize htext : t ++ b = u at h
    cases h with
    | none hu =>
        rw [← htext] at hu
        exact .none (allBlank_append.1 hu).1
    | @some b₁ b₂ b₃ v name hb₁ hv hb₂ hne hname hb₃ =>
        obtain ⟨p, rfl, hp⟩ := isLabel_iff_exists.1 hv
        have hne' : name.toList ≠ [] := by rwa [Ne, String.toList_eq_nil_iff]
        have hlast := getLast?_append_not_blank (fun _ => isWord_eq_false_of_isBlank) hne' hname
          (b₁ ++ ',' :: (p ++ b₂))
        have hcut : b₁ ++ ',' :: (p ++ b₂) ++ name.toList ++ b₃ = t ++ b := by
          rw [htext]
          simp
        obtain ⟨y, rfl, rfl⟩ := exists_append_of_blank hcut hb hlast
        have hclause := IsAuthorClause.some hb₁ (isLabel_iff_exists.2 ⟨p, rfl, hp⟩) hb₂ hne hname
          (allBlank_append.1 hb₃).1
        simpa using hclause
  · intro h
    cases h with
    | none hu => exact .none (allBlank_append.2 ⟨hu, hb⟩)
    | @some b₁ b₂ b₃ v name hb₁ hv hb₂ hne hname hb₃ =>
        obtain ⟨p, rfl, hp⟩ := isLabel_iff_exists.1 hv
        have hclause := IsAuthorClause.some hb₁ (isLabel_iff_exists.2 ⟨p, rfl, hp⟩) hb₂ hne hname
          (allBlank_append.2 ⟨hb₃, hb⟩)
        simpa using hclause

theorem isHeader_append_blank (hb : allBlank b = true) :
    IsHeader (l ++ b) version author ↔ IsHeader l version author := by
  constructor
  · rintro ⟨digits, rest, hline, hversion, hclause⟩
    obtain ⟨r, rfl, hr⟩ := (isNumbered_append_blank hb).1 hline
    exact ⟨digits, r, hr, hversion, (isAuthorClause_append_blank hb).1 hclause⟩
  · rintro ⟨digits, r, hline, hversion, hclause⟩
    exact ⟨digits, r ++ b, (isNumbered_append_blank hb).2 ⟨r, rfl, hline⟩, hversion,
      (isAuthorClause_append_blank hb).2 hclause⟩

theorem headerDigits?_blank_append (hb : allBlank b = true) (l : List Char) :
    headerDigits? (b ++ l) = headerDigits? l := by
  have hstart : trimStart (b ++ l) = trimStart l :=
    List.dropWhile_append_of_pos (List.all_eq_true.1 hb)
  rw [headerDigits?, headerDigits?, directive?, directive?, hstart]

theorem isHeader_blank_append (hb : allBlank b = true) :
    IsHeader (b ++ l) version author ↔ IsHeader l version author := by
  rw [isHeader_iff 0, isHeader_iff 0, headerDigits?_blank_append hb]
  simp only [header_eq_ok_iff]

theorem opensUnit_blank_append (hb : allBlank b = true) : OpensUnit (b ++ l) ↔ OpensUnit l := by
  rw [opensUnit_iff, opensUnit_iff, headerDigits?_blank_append hb]

theorem exists_withoutLineEnd (l : List Char) :
    ∃ e, l = withoutLineEnd l ++ e ∧ allBlank e = true := by
  obtain ⟨e, hl, he⟩ := exists_dropEndWhile (fun c => c == '\n' || c == '\r') l
  refine ⟨e, hl, List.all_eq_true.2 fun c hc => ?_⟩
  rcases Bool.or_eq_true_iff.1 (he c hc) with h | h <;> rw [eq_of_beq h] <;> decide

theorem opensUnit_withoutLineEnd : OpensUnit (withoutLineEnd l) ↔ OpensUnit l := by
  obtain ⟨e, hl, he⟩ := exists_withoutLineEnd l
  conv_rhs => rw [hl]
  exact (opensUnit_append_blank he).symm

theorem isHeader_withoutLineEnd :
    IsHeader (withoutLineEnd l) version author ↔ IsHeader l version author := by
  obtain ⟨e, hl, he⟩ := exists_withoutLineEnd l
  conv_rhs => rw [hl]
  exact (isHeader_append_blank he).symm

theorem not_opensUnit_of_allBlank (hb : allBlank b = true) : ¬ OpensUnit b := by
  rw [← List.append_nil b, opensUnit_blank_append hb]
  decide

theorem ignoresBlanks_opensUnit : IgnoresBlanks OpensUnit where
  append := opensUnit_append_blank
  before := opensUnit_blank_append
  blank := not_opensUnit_of_allBlank

end Headers

section Units

variable {u : RawUnit} {us found : List RawUnit} {b s : List Char} {ls : List (List Char)}
  {number : Nat}

def IsUnit (u : RawUnit) : Prop :=
  ∃ l ls, rawLines u.text = l :: ls ∧ IsHeader l u.header.version u.header.author ∧
    ∀ m ∈ ls, ¬ OpensUnit m

theorem isUnit_append_blank (hb : allBlank b = true) (h : Header) :
    IsUnit ⟨h, s ++ b⟩ ↔ IsUnit ⟨h, s⟩ := by
  obtain ⟨ms, rest, hlines, hms, hrest⟩ := exists_rawLines_append hb s
  simp only [IsUnit, hlines]
  cases hs : rawLines s with
  | nil =>
      rw [hs] at hms
      cases hms
      refine iff_of_false ?_ (by simp)
      rintro ⟨l, ls, rfl, hl, -⟩
      exact not_opensUnit_of_allBlank (hrest l List.mem_cons_self) hl.opensUnit
  | cons l ls =>
      rw [hs] at hms
      cases hms with
      | @cons _ m _ ms hm hms =>
          have hheader : IsHeader m h.version h.author ↔ IsHeader l h.version h.author := by
            obtain ⟨e, he, rfl⟩ := hm
            exact isHeader_append_blank he
          have hmore : ∀ m ∈ rest, ¬ OpensUnit m := fun m hm => not_opensUnit_of_allBlank (hrest m hm)
          constructor
          · rintro ⟨_, _, heq, hl, hls⟩
            obtain ⟨rfl, rfl⟩ := List.cons.inj heq
            exact ⟨l, ls, rfl, hheader.1 hl, (ignoresBlanks_opensUnit.forall_not_iff hms).1 (List.forall_mem_append.1 hls).1⟩
          · rintro ⟨_, _, heq, hl, hls⟩
            obtain ⟨rfl, rfl⟩ := List.cons.inj heq
            exact ⟨m, ms ++ rest, rfl, hheader.2 hl,
              List.forall_mem_append.2 ⟨(ignoresBlanks_opensUnit.forall_not_iff hms).2 hls, hmore⟩⟩

theorem isUnit_of_blank_append (hb : allBlank b = true) {h : Header} (hu : IsUnit ⟨h, b ++ s⟩) :
    IsUnit ⟨h, s⟩ := by
  obtain ⟨l, ls, hlines, hl, hls⟩ := hu
  dsimp only at hlines hl hls
  have hnot : ¬ allBlank l = true := fun hblank => not_opensUnit_of_allBlank hblank hl.opensUnit
  by_cases hnewline : '\n' ∈ b
  · obtain ⟨x, y, rfl, hx⟩ := List.eq_append_cons_of_mem hnewline
    rw [List.append_assoc, List.cons_append, rawLines_append hx] at hlines
    obtain ⟨rfl, rfl⟩ := List.cons.inj hlines
    refine absurd ?_ hnot
    exact allBlank_append.2 ⟨(allBlank_append.1 hb).1, by decide⟩
  · cases hs : rawLines s with
    | nil =>
        have hnil : s = [] := by rw [← flatten_rawLines s, hs, List.flatten_nil]
        rw [hnil, List.append_nil] at hlines
        exact absurd (allBlank_of_mem_rawLines hb (hlines ▸ List.mem_cons_self)) hnot
    | cons m ms =>
        rw [rawLines_append_left hnewline hs] at hlines
        obtain ⟨rfl, rfl⟩ := List.cons.inj hlines
        exact ⟨m, ms, hs, (isHeader_blank_append hb).1 hl, hls⟩

theorem IsUnit.trim_append (hu : IsUnit u) (hb : allBlank b = true) :
    IsUnit ⟨u.header, trim u.text ++ b⟩ := by
  obtain ⟨e, e', htext, he, he'⟩ := exists_trim u.text
  have hwhole : IsUnit ⟨u.header, e ++ (trim u.text ++ e')⟩ := htext ▸ hu
  rw [isUnit_append_blank hb, ← isUnit_append_blank he']
  exact isUnit_of_blank_append he hwhole

theorem readUnits_append (hls : ∀ l ∈ ls, ¬ OpensUnit l) (u : RawUnit) (found : List RawUnit)
    (number : Nat) (rest : List (List Char)) : readUnits number (u :: found) (ls ++ rest) =
      readUnits (number + ls.length) ({ u with text := u.text ++ ls.flatten } :: found) rest := by
  induction ls generalizing u number with
  | nil => simp
  | cons l ls ih =>
      obtain ⟨hl, hls⟩ := List.forall_mem_cons.1 hls
      have hdigits : headerDigits? (withoutLineEnd l) = none := by
        rw [← opensUnit_withoutLineEnd, opensUnit_iff, Option.not_isSome_iff_eq_none] at hl
        exact hl
      have hnumber : number + 1 + ls.length = number + (l :: ls).length := by
        rw [List.length_cons]
        omega
      simp only [List.cons_append, readUnits, hdigits, ih hls]
      rw [hnumber, List.flatten_cons, List.append_assoc]

theorem exists_readUnits_append (hu : IsUnit u)
    (hnew : ∀ v ∈ found, v.header.version ≠ u.header.version) (number : Nat)
    (rest : List (List Char)) : ∃ n, readUnits number found (rawLines u.text ++ rest) =
      readUnits n (u :: found) rest := by
  obtain ⟨l, ls, hlines, hl, hls⟩ := hu
  obtain ⟨digits, t, hdigits, hheader⟩ := (isHeader_iff number).1 (isHeader_withoutLineEnd.2 hl)
  have hany : found.any (·.header.version == u.header.version) = false := by
    simpa using hnew
  have htext : l ++ ls.flatten = u.text := by
    rw [← flatten_rawLines u.text, hlines, List.flatten_cons]
  refine ⟨number + 1 + ls.length, ?_⟩
  rw [hlines, List.cons_append]
  simp only [readUnits, hdigits, hheader, hany, Bool.false_eq_true, if_false]
  rw [readUnits_append hls]
  simp only [htext]

theorem readUnits_flatMap (hus : ∀ u ∈ us, IsUnit u)
    (hnodup : ((found.reverse ++ us).map (·.header.version)).Nodup) (number : Nat) :
    readUnits number found (us.flatMap (rawLines ·.text)) = .ok (found.reverse ++ us) := by
  induction us generalizing number found with
  | nil => simp [readUnits]
  | cons u us ih =>
      obtain ⟨hu, hus⟩ := List.forall_mem_cons.1 hus
      have hnew : ∀ v ∈ found, v.header.version ≠ u.header.version := by
        intro v hv heq
        rw [List.map_append, List.nodup_append] at hnodup
        exact hnodup.2.2 _ (List.mem_map_of_mem (List.mem_reverse.2 hv)) _
          (List.mem_map_of_mem List.mem_cons_self) heq
      obtain ⟨n, hn⟩ := exists_readUnits_append hu hnew number (us.flatMap (rawLines ·.text))
      have hcons : (u :: found).reverse ++ us = found.reverse ++ u :: us := by simp
      rw [List.flatMap_cons, hn, ih hus (hcons ▸ hnodup), hcons]

def IsBlock (u : RawUnit) (ls : List (List Char)) : Prop :=
  u.text = ls.flatten ∧ ∃ l ms, ls = l :: ms ∧ IsHeader l u.header.version u.header.author ∧
    ∀ m ∈ ms, ¬ OpensUnit m

/-- The lines that were read are those before the first unit and those of the units found, the newest
first. -/
structure IsCut (done : List (List Char)) (found : List RawUnit) : Prop where
  lines : ∃ before blocks, done = before ++ blocks.reverse.flatten ∧
    (∀ l ∈ before, ¬ OpensUnit l) ∧ List.Forall₂ IsBlock found blocks
  versions : (found.map (·.header.version)).Nodup

namespace IsCut

variable {done : List (List Char)} {l : List Char}

theorem preamble (h : IsCut done []) (hl : ¬ OpensUnit l) : IsCut (done ++ [l]) [] := by
  obtain ⟨⟨before, blocks, rfl, hbefore, hblocks⟩, hversions⟩ := h
  cases hblocks
  exact ⟨⟨before ++ [l], [], by simp, by simpa [or_imp, forall_and] using ⟨hbefore, hl⟩, .nil⟩,
    hversions⟩

theorem header (h : IsCut done found) {hd : Header} (hl : IsHeader l hd.version hd.author)
    (hnew : ∀ u ∈ found, u.header.version ≠ hd.version) :
    IsCut (done ++ [l]) (⟨hd, l⟩ :: found) := by
  obtain ⟨⟨before, blocks, rfl, hbefore, hblocks⟩, hversions⟩ := h
  refine ⟨⟨before, [l] :: blocks, by simp, hbefore, .cons ⟨by simp, l, [], rfl, hl, by simp⟩ hblocks⟩,
    List.nodup_cons.2 ⟨?_, hversions⟩⟩
  rintro hmem
  obtain ⟨u, hu, heq⟩ := List.mem_map.1 hmem
  exact hnew u hu heq

theorem line (h : IsCut done (u :: found)) (hl : ¬ OpensUnit l) :
    IsCut (done ++ [l]) ({ u with text := u.text ++ l } :: found) := by
  obtain ⟨⟨before, blocks, rfl, hbefore, hblocks⟩, hversions⟩ := h
  cases hblocks with
  | cons hblock hblocks =>
      obtain ⟨htext, hd, ms, rfl, hheader, hms⟩ := hblock
      refine ⟨⟨before, (hd :: (ms ++ [l])) :: _, by simp, hbefore, .cons ⟨?_, hd, ms ++ [l], rfl,
        hheader, ?_⟩ hblocks⟩, hversions⟩
      · simp [htext]
      · simpa [or_imp, forall_and] using ⟨hms, hl⟩

theorem readUnits (h : IsCut done found) (hread : readUnits number found ls = .ok us) :
    IsCut (done ++ ls) us.reverse := by
  induction ls generalizing number done found with
  | nil =>
      cases hread
      rwa [List.append_nil, List.reverse_reverse]
  | cons raw rest ih =>
      rw [List.append_cons]
      cases hdigits : headerDigits? (withoutLineEnd raw) with
      | some dt =>
          obtain ⟨digits, t⟩ := dt
          simp only [MigrationFile.readUnits, hdigits] at hread
          cases hheader : MigrationFile.header number (withoutLineEnd raw) digits t with
          | error e => simp [hheader] at hread
          | ok hd =>
              simp only [hheader] at hread
              split at hread
              · cases hread
              · next hany =>
                have hl : IsHeader raw hd.version hd.author :=
                  isHeader_withoutLineEnd.1 ((isHeader_iff number).2 ⟨digits, t, hdigits, hheader⟩)
                exact ih (h.header hl (by simpa using hany)) hread
      | none =>
          have hl : ¬ OpensUnit raw := by
            rw [← opensUnit_withoutLineEnd, opensUnit_iff, hdigits]
            simp
          simp only [MigrationFile.readUnits, hdigits] at hread
          cases found with
          | nil =>
              simp only at hread
              split at hread
              · exact ih (h.preamble hl) hread
              · cases hread
          | cons u us => exact ih (h.line hl) hread

end IsCut

theorem isUnit_of_blocks {blocks : List (List (List Char))} (h : List.Forall₂ IsBlock us blocks)
    (hlines : AreLines blocks.flatten) :
    (∀ u ∈ us, IsUnit u) ∧ us.flatMap (rawLines ·.text) = blocks.flatten := by
  induction h with
  | nil => simp
  | @cons u block us blocks hblock _ ih =>
      rw [List.flatten_cons] at hlines
      obtain ⟨htext, l, ms, rfl, hheader, hms⟩ := hblock
      have hraw : rawLines u.text = l :: ms := by
        rw [htext, hlines.of_append.1.rawLines_flatten]
      obtain ⟨hus, hflat⟩ := ih hlines.of_append.2
      refine ⟨List.forall_mem_cons.2 ⟨⟨l, ms, hraw, hheader, hms⟩, hus⟩, ?_⟩
      rw [List.flatMap_cons, hraw, hflat, List.flatten_cons]

theorem exists_units_of_readUnits {t : List Char} (h : readUnits 1 [] (rawLines t) = .ok us) :
    ∃ before, rawLines t = before ++ us.flatMap (rawLines ·.text) ∧
      (∀ l ∈ before, ¬ OpensUnit l) ∧ (∀ u ∈ us, IsUnit u) ∧
      (us.map (·.header.version)).Nodup := by
  have hnil : IsCut [] [] := ⟨⟨[], [], rfl, by simp, .nil⟩, List.nodup_nil⟩
  obtain ⟨⟨before, blocks, hcut, hbefore, hblocks⟩, hversions⟩ := hnil.readUnits h
  rw [List.nil_append] at hcut
  have hblocks' : List.Forall₂ IsBlock us blocks.reverse := by
    have hrev := List.rel_reverse hblocks
    rwa [List.reverse_reverse] at hrev
  have hlines : AreLines blocks.reverse.flatten := by
    have hall := areLines_rawLines t
    rw [hcut] at hall
    exact hall.of_append.2
  obtain ⟨hus, hflat⟩ := isUnit_of_blocks hblocks' hlines
  refine ⟨before, by rw [hcut, hflat], hbefore, hus, ?_⟩
  rwa [List.map_reverse, List.nodup_reverse] at hversions

theorem units_eq_ok_iff {content : String} {vs : List MigrationUnit} : units content = .ok vs ↔
    ∃ us, readUnits 1 [] (rawLines content.toList) = .ok us ∧ us.map RawUnit.finish = vs := by
  rw [units]
  cases readUnits 1 [] (rawLines content.toList) <;> simp

end Units

end SchemaDeploy.MigrationFile
