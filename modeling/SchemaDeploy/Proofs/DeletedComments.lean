import SchemaDeploy.Proofs.HiddenText
import SchemaDeploy.Proofs.ReferencePlaces

namespace SchemaDeploy.Sql

open Text

section Meeting

variable {name p t w z n before after : List Char} {q : QualifiedName}

/-- The text before a name without the quote that opens the name, both in reverse. -/
def unopened : List Char → List Char
  | '"' :: before => before
  | before => before

/-- What is left of the text before a name, in reverse, once up to `limit` qualifiers are read. -/
def unread : Nat → List Char → List Char
  | 0, before => before
  | limit + 1, before =>
    match segment? before with
    | none => before
    | some s => unread limit s.before

/-- Whether a name behind `w` is read alike with `p` before. Only a reference that begins where `w`
begins, or behind a dot there, depends on what `p` ends in. -/
structure BeginsApart (p w : List Char) : Prop where
  boundary : w ≠ ['"'] → unread 2 (unopened w.reverse) = [] →
    p.getLast?.all isStartBoundary = true
  dotless : unread 1 (unopened w.reverse) = [] → p.getLast? ≠ some '.'
  bare : w = [] → ¬ ['.', '"'] <:+ p
  dotted : unread 1 (unopened w.reverse) = ['.'] →
    p.getLast?.all (fun c => c != '"' && !isSegmentChar c) = true
  unclosed : ['.', '"'] <+: unread 1 (unopened w.reverse) →
    '"' ∉ (unread 1 (unopened w.reverse)).drop 2 → '"' ∉ p

def Segment.behind (s : Segment) (before : List Char) : Segment :=
  { s with before := s.before ++ before }

theorem isSegmentChar_eq_false_of_isStartBoundary {c : Char} (h : isStartBoundary c = true) :
    isSegmentChar c = false := by
  by_cases hp : precedesName c = true
  · exact isSegmentChar_eq_false hp
  · have hrest : c = '.' ∨ c = '"' := by
      simp only [isStartBoundary, precedesName, List.contains_cons, Bool.or_eq_true,
        beq_iff_eq] at h hp
      tauto
    rcases hrest with rfl | rfl <;> decide

theorem segment?_quoted_append {y : List Char} (hopen : '"' ∉ y → '"' ∉ before) :
    segment? ('.' :: '"' :: (y ++ before)) =
      (segment? ('.' :: '"' :: y)).map (·.behind before) := by
  by_cases hmem : '"' ∈ y
  · obtain ⟨x, y, rfl, hx⟩ := List.eq_append_cons_of_mem hmem
    rw [List.append_assoc, List.cons_append, segment?_quoted hx, segment?_quoted hx]
    split <;> rfl
  · rw [segment?_unquoted hmem, Option.map_none]
    exact segment?_unquoted (by simp [hmem, hopen hmem])

theorem segment?_bare_append {y : List Char} (hy : y ≠ []) (hquote : y.head? ≠ some '"')
    (hends : ∀ s, segment? ('.' :: y) = some s → s.before = [] →
      before.head?.all (fun c => !isSegmentChar c) = true) :
    segment? ('.' :: (y ++ before)) = (segment? ('.' :: y)).map (·.behind before) := by
  have hbare := segment?_bare hquote
  rw [segment?_bare (by rwa [List.head?_append_of_ne_nil _ hy]), hbare]
  by_cases hdrop : y.dropWhile isSegmentChar = []
  · -- nothing is left of `y`, so the text before has to end the qualifier
    have hall := List.dropWhile_eq_nil_iff.1 hdrop
    have htake := List.takeWhile_eq_self_iff.2 hall
    rw [if_neg (by rwa [htake]), hdrop] at hbare
    have hbefore := hends _ hbare rfl
    have hstop : before.takeWhile isSegmentChar = [] ∧ before.dropWhile isSegmentChar = before := by
      cases before with
      | nil => exact ⟨rfl, rfl⟩
      | cons c t =>
          rw [List.head?_cons, Option.all_some, Bool.not_eq_true'] at hbefore
          simp [hbefore]
    rw [List.takeWhile_append_of_pos hall, List.dropWhile_append_of_pos hall, htake, hdrop, hstop.1,
      hstop.2, List.append_nil, if_neg hy, if_neg hy]
    rfl
  · have hlength : (y.takeWhile isSegmentChar).length ≠ y.length := by
      intro hlength
      have hsum := congrArg List.length
        (List.takeWhile_append_dropWhile (p := isSegmentChar) (l := y))
      rw [List.length_append, hlength] at hsum
      exact hdrop (List.eq_nil_of_length_eq_zero (by omega))
    have hdrop' : (y.dropWhile isSegmentChar).isEmpty = false := by simpa using hdrop
    rw [List.takeWhile_append, if_neg hlength, List.dropWhile_append, hdrop']
    split <;> rfl

/-- A qualifier is read alike with any text before that does not go on with it. -/
theorem segment?_append (hz : z ≠ [])
    (hends : ∀ s, segment? z = some s → s.before = [] →
      before.head?.all (fun c => !isSegmentChar c) = true)
    (hdot : z = ['.'] → before.head?.all (fun c => c != '"' && !isSegmentChar c) = true)
    (hopen : ∀ y, z = '.' :: '"' :: y → '"' ∉ y → '"' ∉ before) :
    segment? (z ++ before) = (segment? z).map (·.behind before) := by
  obtain ⟨c, y, rfl⟩ := List.exists_cons_of_ne_nil hz
  by_cases hc : c = '.'
  · subst hc
    by_cases hy : y = []
    · subst hy
      have hbefore := hdot rfl
      have hdotted : segment? ['.'] = none := rfl
      rw [hdotted, Option.map_none]
      apply segment?_bare_eq_none <;> cases before <;> simp_all
    by_cases hquote : y.head? = some '"'
    · obtain ⟨y, rfl⟩ := List.head?_eq_some_iff.1 hquote
      exact segment?_quoted_append (hopen y rfl)
    · exact segment?_bare_append hy hquote hends
  · rw [segment?_eq_none (by simpa using hc), segment?_eq_none (by simpa using hc), Option.map_none]

theorem unread_of_segment?_eq_none (h : segment? z = none) (limit : Nat) : unread limit z = z := by
  cases limit with
  | zero => rfl
  | succ limit => rw [unread, h]

theorem unread_nil (limit : Nat) : unread limit [] = [] :=
  unread_of_segment?_eq_none rfl limit

theorem unread_eq_nil_of_mem {limit : Nat} {s : Segment} (hs : s ∈ segments limit z)
    (hnil : s.before = []) : unread limit z = [] := by
  induction limit generalizing z with
  | zero => cases hs
  | succ limit ih =>
      rw [segments] at hs
      rw [unread]
      cases hr : segment? z with
      | none =>
          rw [hr] at hs
          cases hs
      | some s' =>
          rw [hr] at hs
          rcases List.mem_cons.1 hs with rfl | hs
          · exact (congrArg (unread limit) hnil).trans (unread_nil limit)
          · exact ih hs

/-- What the chain of qualifiers before a name needs of the text before it. -/
structure EndsChain (z before : List Char) : Prop where
  boundary : z ≠ [] → unread 2 z = [] → before.head?.all isStartBoundary = true
  dotless : unread 1 z = [] → before.head? ≠ some '.'
  dotted : unread 1 z = ['.'] → before.head?.all (fun c => c != '"' && !isSegmentChar c) = true
  unclosed : ∀ y, unread 1 z = '.' :: '"' :: y → '"' ∉ y → '"' ∉ before

theorem EndsChain.segments_append (h : EndsChain z before) :
    segments 2 (z ++ before) = (segments 2 z).map (·.behind before) := by
  have hnone (hdot : before.head? ≠ some '.') : segment? ([] ++ before) = none :=
    segment?_eq_none hdot
  by_cases hz : z = []
  · subst hz
    rw [segments, hnone (h.dotless rfl)]
    rfl
  have hends {s : Segment} (hs : s ∈ segments 2 z) (hnil : s.before = []) :
      before.head?.all (fun c => !isSegmentChar c) = true := by
    have hboundary := h.boundary hz (unread_eq_nil_of_mem hs hnil)
    cases hb : before.head? with
    | none => rfl
    | some c =>
        rw [hb, Option.all_some] at hboundary
        simp [isSegmentChar_eq_false_of_isStartBoundary hboundary]
  have hread : segment? (z ++ before) = (segment? z).map (·.behind before) := by
    apply segment?_append hz
    · intro s hs
      exact hends (by simp [segments, hs])
    · rintro rfl
      exact h.dotted rfl
    · rintro y rfl hy
      exact h.unclosed y (unread_of_segment?_eq_none (segment?_unquoted hy) 1) hy
  rw [segments, segments, hread]
  cases hs : segment? z with
  | none => rfl
  | some s =>
      have hrest : unread 1 z = s.before := by
        rw [unread, hs]
        rfl
      have hread' : segment? (s.before ++ before) = (segment? s.before).map (·.behind before) := by
        by_cases hnil : s.before = []
        · rw [hnil, hnone (h.dotless (hrest.trans hnil))]
          rfl
        apply segment?_append hnil
        · intro s' hs'
          exact hends (by simp [segments, hs, hs'])
        · exact fun hdot => h.dotted (hrest.trans hdot)
        · exact fun y hy => h.unclosed y (hrest.trans hy)
      simp only [Option.map_some, segments, Segment.behind, hread']
      cases segment? s.before <;> rfl

theorem EndsChain.startsAtBoundary_append (h : EndsChain z before) (hz : z ≠ []) {y : List Char}
    (hy : y = [] → unread 2 z = []) : startsAtBoundary (y ++ before) = startsAtBoundary y := by
  cases y with
  | nil => exact h.boundary hz (hy rfl)
  | cons c y => rfl

theorem EndsChain.chain?_append (h : EndsChain z before) (opened : Bool)
    (ho : opened = false → z ≠ []) :
    (chain? opened (z ++ before) (segments 2 (z ++ before))).map (·.map Segment.name) =
      (chain? opened z (segments 2 z)).map (·.map Segment.name) := by
  rw [h.segments_append]
  by_cases hz : z = []
  · subst hz
    cases opened with
    | true => rfl
    | false => exact absurd rfl (ho rfl)
  have hstart : startsAtBoundary (z ++ before) = startsAtBoundary z :=
    h.startsAtBoundary_append hz fun hnil => absurd hnil hz
  have hbehind {s : Segment} (hs : s ∈ segments 2 z) :
      startsAtBoundary (s.before ++ before) = startsAtBoundary s.before :=
    h.startsAtBoundary_append hz fun hnil => unread_eq_nil_of_mem hs hnil
  match hsegments : segments 2 z with
  | [] => simp [chain?, hstart]
  | [s] =>
      have hs := hbehind (s := s) (by simp [hsegments])
      simp only [List.map_cons, List.map_nil, chain?, Segment.behind, hstart, hs]
      split_ifs <;> rfl
  | s :: s' :: rest =>
      have hs := hbehind (s := s) (by simp [hsegments])
      have hs' := hbehind (s := s') (by simp [hsegments])
      simp only [List.map_cons, chain?, Segment.behind, hstart, hs, hs']
      split_ifs <;> rfl

theorem unopened_mark {opened : Bool} (hz : opened = false → z.head? ≠ some '"') :
    unopened (mark opened ++ z) = z := by
  cases opened with
  | true => rfl
  | false =>
      rw [mark, if_neg (by decide), List.nil_append, unopened.eq_def]
      split
      · exact absurd rfl (hz rfl)
      · rfl

theorem BeginsApart.endsChain (h : BeginsApart p w) (hw : w ≠ []) :
    EndsChain (unopened w.reverse) p.reverse := by
  constructor
  case boundary =>
    intro hz hnil
    rw [List.head?_reverse]
    refine h.boundary ?_ hnil
    rintro rfl
    exact hz rfl
  case dotless =>
    rw [List.head?_reverse]
    exact h.dotless
  case dotted =>
    rw [List.head?_reverse]
    exact h.dotted
  case unclosed =>
    intro y hy hmem
    rw [List.mem_reverse]
    exact h.unclosed (hy ▸ ⟨y, rfl⟩) (by rwa [hy])

theorem BeginsApart.referenceAt?_nil (h : BeginsApart p []) :
    referenceAt? name p.reverse after = referenceAt? name [] after := by
  obtain ⟨opened, y, hy, hquote⟩ := exists_mark p.reverse
  have hchain : chain? opened y (segments 2 y) = some [] := by
    cases opened with
    | true =>
        have hdot : y.head? ≠ some '.' := by
          intro hdot
          obtain ⟨y, rfl⟩ := List.head?_eq_some_iff.1 hdot
          refine h.bare rfl ⟨y.reverse, ?_⟩
          rw [← List.reverse_reverse p, hy]
          simp [mark]
        rw [segments, segment?_eq_none hdot]
        rfl
    | false =>
        have hp : p.reverse = y := hy
        have hdot : y.head? ≠ some '.' := by
          rw [← hp, List.head?_reverse]
          exact h.dotless rfl
        have hstart : startsAtBoundary y = true := by
          rw [startsAtBoundary, ← hp, List.head?_reverse]
          exact h.boundary (by simp) rfl
        rw [segments, segment?_eq_none hdot]
        exact if_pos hstart
  have hnil : referenceAt? name (mark false ++ []) after = _ := referenceAt?_eq false (by simp)
  rw [hy, referenceAt?_eq opened hquote, hchain]
  exact hnil.symm

theorem BeginsApart.referenceAt?_append (h : BeginsApart p w) :
    referenceAt? name (p ++ w).reverse after = referenceAt? name w.reverse after := by
  by_cases hw : w = []
  · subst hw
    rw [List.append_nil]
    exact h.referenceAt?_nil
  obtain ⟨opened, z, hwz, hz⟩ := exists_mark w.reverse
  have hchain := h.endsChain hw
  rw [hwz, unopened_mark hz] at hchain
  have ho : opened = false → z ≠ [] := by
    rintro rfl rfl
    exact hw (List.reverse_eq_nil_iff.1 hwz)
  have hz' : opened = false → (z ++ p.reverse).head? ≠ some '"' := by
    intro hopened
    rw [List.head?_append_of_ne_nil _ (ho hopened)]
    exact hz hopened
  have hfound := congrArg (Option.map fun qs => QualifiedName.ofFound qs.reverse name)
    (hchain.chain?_append opened ho)
  rw [Option.map_map, Option.map_map] at hfound
  rw [List.reverse_append, hwz, List.append_assoc, referenceAt?_eq opened hz',
    referenceAt?_eq opened hz]
  exact congrArg (fun found => if closesName after then found else none) hfound

/-- What a space keeps apart for the search after a name stays apart without it: a reference that
ends where the first text ends can end there, one that begins where the second text begins can begin
there, and no name is read across the space. -/
structure MeetApart (name p t : List Char) : Prop where
  ends : ∀ before n s, p = before ++ (n ++ s) → same n name = true → s = [] ∨ s = ['"'] →
    (referenceAt? name before.reverse s).isSome = true → closesName (s ++ t) = true
  begins : ∀ w n after, t = w ++ (n ++ after) → same n name = true →
    (referenceAt? name (p ++ ' ' :: w).reverse after).isSome = true → BeginsApart p w
  across : ∀ before u v after, p = before ++ u → t = v ++ after →
    same (u ++ ' ' :: v) name = true → referenceAt? name before.reverse after = none

instance : Decidable (BeginsApart p w) :=
  decidable_of_iff
    ((w ≠ ['"'] → unread 2 (unopened w.reverse) = [] → p.getLast?.all isStartBoundary = true) ∧
      (unread 1 (unopened w.reverse) = [] → p.getLast? ≠ some '.') ∧
      (w = [] → ¬ ['.', '"'] <:+ p) ∧
      (unread 1 (unopened w.reverse) = ['.'] →
        p.getLast?.all (fun c => c != '"' && !isSegmentChar c) = true) ∧
      (['.', '"'] <+: unread 1 (unopened w.reverse) →
        '"' ∉ (unread 1 (unopened w.reverse)).drop 2 → '"' ∉ p))
    ⟨fun ⟨h₁, h₂, h₃, h₄, h₅⟩ => ⟨h₁, h₂, h₃, h₄, h₅⟩,
      fun h => ⟨h.boundary, h.dotless, h.bare, h.dotted, h.unclosed⟩⟩

theorem forall_places_iff {P : List Char → List Char → List Char → Prop} :
    (∀ before n after, t = before ++ (n ++ after) → same n name = true → P before n after) ↔
      ∀ i ≤ t.length, same ((t.drop i).take name.length) name = true →
        P (t.take i) ((t.drop i).take name.length) ((t.drop i).drop name.length) := by
  constructor
  · intro h i _ hn
    exact h _ _ _ (by simp) hn
  · rintro h before n after rfl hn
    have hi := h before.length (by simp)
    simp only [List.drop_left, List.take_left, ← length_eq_of_same hn] at hi
    exact hi hn

theorem meetApart_iff : MeetApart name p t ↔
    (∀ i ≤ p.length, same ((p.drop i).take name.length) name = true →
      let s := (p.drop i).drop name.length
      s = [] ∨ s = ['"'] → (referenceAt? name (p.take i).reverse s).isSome = true →
        closesName (s ++ t) = true) ∧
    (∀ i ≤ t.length, same ((t.drop i).take name.length) name = true →
      (referenceAt? name (p ++ ' ' :: t.take i).reverse ((t.drop i).drop name.length)).isSome = true →
        BeginsApart p (t.take i)) ∧
    ∀ i ≤ p.length, ∀ j ≤ t.length, same (p.drop i ++ ' ' :: t.take j) name = true →
      referenceAt? name (p.take i).reverse (t.drop j) = none := by
  constructor
  · intro h
    refine ⟨forall_places_iff.1 h.ends, forall_places_iff.1 h.begins, ?_⟩
    intro i _ j _ hn
    exact h.across _ _ _ _ (by simp) (by simp) hn
  · rintro ⟨hends, hbegins, hacross⟩
    refine ⟨forall_places_iff.2 hends, forall_places_iff.2 hbegins, ?_⟩
    rintro before u v after rfl rfl hn
    have hij := hacross before.length (by simp) v.length (by simp)
    simp only [List.drop_left, List.take_left] at hij
    exact hij hn

instance : Decidable (MeetApart name p t) :=
  decidable_of_iff' _ meetApart_iff

theorem place_cases (htext : p ++ ' ' :: t = before ++ (n ++ after)) :
    (∃ s, p = before ++ (n ++ s) ∧ after = s ++ ' ' :: t) ∨
      (∃ w, before = p ++ ' ' :: w ∧ t = w ++ (n ++ after)) ∨
      ∃ u v, n = u ++ ' ' :: v ∧ p = before ++ u ∧ t = v ++ after := by
  rcases List.append_eq_append_iff.1 htext with ⟨w, rfl, hw⟩ | ⟨u, rfl, hu⟩
  · rcases List.cons_eq_append_iff.1 hw with ⟨rfl, hrest⟩ | ⟨w, rfl, ht⟩
    · rcases List.append_eq_cons_iff.1 hrest with ⟨rfl, rfl⟩ | ⟨v, rfl, rfl⟩
      · exact .inl ⟨[], by simp, rfl⟩
      · exact .inr (.inr ⟨[], v, rfl, by simp, rfl⟩)
    · exact .inr (.inl ⟨w, rfl, ht⟩)
  · rcases List.append_eq_append_iff.1 hu with ⟨s, rfl, rfl⟩ | ⟨v, rfl, hv⟩
    · exact .inl ⟨s, rfl, rfl⟩
    · rcases List.cons_eq_append_iff.1 hv with ⟨rfl, rfl⟩ | ⟨v, rfl, ht⟩
      · exact .inl ⟨[], by simp, rfl⟩
      · exact .inr (.inr ⟨u, v, rfl, rfl, ht⟩)

theorem BeginsApart.append_space (h : BeginsApart p w) : BeginsApart (p ++ [' ']) w where
  boundary _ _ := by simp; rfl
  dotless _ := by simp
  bare _ := by
    rintro ⟨u, hu⟩
    have hlast := congrArg List.getLast? hu
    simp at hlast
  dotted _ := by simp; rfl
  unclosed hprefix hdrop := by simpa using h.unclosed hprefix hdrop

theorem MeetApart.closesName_append (h : MeetApart name p t) {s : List Char}
    (hp : p = before ++ (n ++ s)) (hn : same n name = true)
    (hr : referenceAt? name before.reverse (s ++ ' ' :: t) = some q) :
    closesName (s ++ t) = true := by
  have hclose := closesName_of_referenceAt? hr
  have hends (hs : s = [] ∨ s = ['"']) : closesName (s ++ t) = true := by
    refine h.ends before n s hp hn hs ?_
    have hsame : closesName s = closesName (s ++ ' ' :: t) := by
      rw [hclose]
      rcases hs with rfl | rfl <;> rfl
    rw [referenceAt?_congr hsame, hr]
    rfl
  rcases s with - | ⟨c, - | ⟨d, s⟩⟩
  · exact hends (.inl rfl)
  · by_cases hc : c = '"'
    · subst hc
      exact hends (.inr rfl)
    · simpa [closesName, hc] using hclose
  · by_cases hc : c = '"' <;> simpa [closesName, hc] using hclose

theorem MeetApart.mem_references (h : MeetApart name p t) (hq : q ∈ references name (p ++ ' ' :: t)) :
    q ∈ references name (p ++ t) := by
  rw [mem_references_iff] at hq ⊢
  obtain ⟨hname, before, n, after, htext, hn, hr⟩ := hq
  refine ⟨hname, ?_⟩
  rcases place_cases htext with ⟨s, hp, rfl⟩ | ⟨w, rfl, ht⟩ | ⟨u, v, rfl, hp, ht⟩
  · have hclose := closesName_of_referenceAt? hr
    refine ⟨before, n, s ++ t, by simp [hp], hn, ?_⟩
    rw [← hr]
    exact referenceAt?_congr ((h.closesName_append hp hn hr).trans hclose.symm) _
  · have hbegins := h.begins w n after ht hn (by rw [hr]; rfl)
    refine ⟨p ++ w, n, after, by rw [ht, List.append_assoc], hn, ?_⟩
    have hspace : p ++ ' ' :: w = (p ++ [' ']) ++ w := by simp
    rw [hspace, hbegins.append_space.referenceAt?_append] at hr
    rw [hbegins.referenceAt?_append, hr]
  · rw [h.across before u v after hp ht hn] at hr
    cases hr

end Meeting

section Cleaning

variable {a b x name : List Char}

/-- What is left of a text once it stands behind another one. -/
def cleanBehind (a b : List Char) : List Char :=
  stripLiteralsFrom 0 true (stripComments a).reverse (stripComments b)

/-- The literals are the same with a space between two texts and without it: none of one text touches
one of the other, and those after the keyword AS stay those after it. -/
structure KeepsLiterals (a b : List Char) : Prop where
  apart : (stripComments a).getLast? = some '\'' → (stripComments b).head? ≠ some '\''
  bodies : ∀ w v, stripComments b = w ++ '\'' :: v →
    (EndsInAs (stripComments a ++ ' ' :: w) ↔ EndsInAs (stripComments a ++ w))

theorem keepsLiterals_of_not_mem (h : '\'' ∉ stripComments b) : KeepsLiterals a b where
  apart _ hb := h (List.mem_of_head? hb)
  bodies w v hw := absurd (by simp [hw]) h

theorem stripLiterals_append (h : EndsPlain a) {t : List Char}
    (ht : (stripComments a).getLast? = some '\'' → t.head? ≠ some '\'') :
    stripLiterals (stripComments a ++ t) =
      clean a ++ stripLiteralsFrom 0 true (stripComments a).reverse t := by
  obtain ⟨p, -, hp⟩ := (closed_stripComments h).exists_stripLiteralsFrom []
  have hclean : clean a = p := by
    have hall := hp [] (by simp) true
    rwa [List.append_nil, List.append_nil, stripLiteralsFrom, List.append_nil] at hall
  rw [stripLiterals, hp t ht, List.append_nil, hclean]

theorem clean_append_space (h : EndsPlain a) (hk : KeepsLiterals a b) :
    clean (a ++ ' ' :: b) = clean a ++ ' ' :: cleanBehind a b := by
  rw [clean, stripComments_space h, stripLiterals_append h (by simp),
    stripLiteralsFrom_other (by decide), cleanBehind]
  congr 2
  apply stripLiteralsFrom_congr
  intro w v hw
  rw [Bool.eq_iff_iff, ← List.reverse_append, followsAs_reverse_iff, ← hk.bodies w v hw,
    ← followsAs_reverse_iff]
  simp

theorem clean_append_blockComment (h : EndsPlain a) (hslash : a.getLast? ≠ some '/')
    (hx : IsCommentBody x) (hk : KeepsLiterals a b) :
    clean (a ++ blockComment x ++ b) = clean a ++ cleanBehind a b := by
  rw [clean, stripComments_blockComment h hslash hx, stripLiterals_append h hk.apart, cleanBehind]

/-- A comment in the place of a space loses no reference, if the texts around it meet apart. -/
theorem distinctReferences_of_comment (h : EndsPlain a) (hslash : a.getLast? ≠ some '/')
    (hx : IsCommentBody x) (hk : KeepsLiterals a b)
    (hm : MeetApart name (clean a) (cleanBehind a b)) {q : QualifiedName}
    (hq : q ∈ distinctReferences name (clean (a ++ ' ' :: b))) :
    q ∈ distinctReferences name (clean (a ++ blockComment x ++ b)) := by
  rw [mem_distinctReferences, clean_append_space h hk] at hq
  rw [mem_distinctReferences, clean_append_blockComment h hslash hx hk]
  exact hm.mem_references hq

theorem distinctReferences_of_orders :
    let a := "SELECT 'old' AS ID".toList
    let b := "FROM SC.ORDERS O -- ORDERS".toList
    (⟨none, some "SC", "ORDERS"⟩ : QualifiedName) ∈
      distinctReferences "ORDERS".toList (clean (a ++ blockComment " not 'ORDERS'".toList ++ b)) := by
  intro a b
  have hk : KeepsLiterals a b := keepsLiterals_of_not_mem (by decide +kernel)
  have hm : MeetApart "ORDERS".toList (clean a) (cleanBehind a b) := by decide +kernel
  exact distinctReferences_of_comment (by decide +kernel) (by decide +kernel) (by decide +kernel) hk hm
    (by decide +kernel)

/-- Between a keyword and a name a comment does not do for a space. -/
theorem not_forall_distinctReferences_of_comment :
    ¬ ∀ (name a b x : List Char) (q : QualifiedName), EndsPlain a → a.getLast? ≠ some '/' →
      IsCommentBody x → q ∈ distinctReferences name (clean (a ++ ' ' :: b)) →
      q ∈ distinctReferences name (clean (a ++ blockComment x ++ b)) := by
  intro h
  have hmem := h "ORDERS".toList "SELECT 1 FROM".toList "ORDERS".toList [] ⟨none, none, "ORDERS"⟩
    (by decide +kernel) (by decide +kernel) (by decide +kernel) (by decide +kernel)
  exact absurd hmem (by decide +kernel)

end Cleaning

end SchemaDeploy.Sql
