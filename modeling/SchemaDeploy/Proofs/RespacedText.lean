import SchemaDeploy.Proofs.DefinedNames
import SchemaDeploy.Proofs.FoldedText

namespace SchemaDeploy

section Relations

variable {α β : Type} {R : α → α → Prop} {S : β → β → Prop} {o o' p p' : Option α}

theorem rel_bind {f f' : α → Option β} (h : Option.Rel R o o')
    (hf : ∀ a a', R a a' → Option.Rel S (f a) (f' a')) : Option.Rel S (o.bind f) (o'.bind f') := by
  cases h with
  | none => exact .none
  | some h => exact hf _ _ h

theorem rel_map {f f' : α → β} (h : Option.Rel R o o') (hf : ∀ a a', R a a' → S (f a) (f' a')) :
    Option.Rel S (o.map f) (o'.map f') := by
  cases h with
  | none => exact .none
  | some h => exact .some (hf _ _ h)

theorem rel_or (h : Option.Rel R o o') (hp : Option.Rel R p p') :
    Option.Rel R (o.or p) (o'.or p') := by
  cases h with
  | none => simpa using hp
  | some h => simpa using Option.Rel.some h

theorem rel_getD {a a' : α} (h : Option.Rel R o o') (ha : R a a') : R (o.getD a) (o'.getD a') := by
  cases h with
  | none => exact ha
  | some h => exact h

theorem rel_any {q q' : α → Bool} (h : Option.Rel R o o') (hq : ∀ a a', R a a' → q a = q' a') :
    o.any q = o'.any q' := by
  cases h with
  | none => rfl
  | some h => exact hq _ _ h

theorem rel_isSome (h : Option.Rel R o o') : o.isSome = o'.isSome := by
  cases h <;> rfl

theorem rel_ite {b b' : Bool} (hb : b = b') (h : Option.Rel R o o') (hp : Option.Rel R p p') :
    Option.Rel R (if b then o else p) (if b' then o' else p') := by
  subst hb
  cases b with
  | false => exact hp
  | true => exact h

end Relations

namespace Sql

open Text

instance (b : List Char) : Decidable (IsGap b) :=
  inferInstanceAs (Decidable (_ ∧ _))

theorem IsGap.exists_cons {b : List Char} (hb : IsGap b) :
    ∃ d u, b = d :: u ∧ isBlank d = true ∧ allBlank u = true := by
  obtain ⟨d, u, rfl⟩ := List.exists_cons_of_ne_nil hb.1
  obtain ⟨hd, hu⟩ := List.forall_mem_cons.1 (List.all_eq_true.1 hb.2)
  exact ⟨d, u, rfl, hd, List.all_eq_true.2 hu⟩

end Sql

namespace Text

open Sql

variable {b b' t t' x : List Char} {c d : Char}

/-- The same text with other runs of blanks: where one of the texts has some before another character,
the other one has some as well. Neither text ends in blanks. -/
inductive Respaced : List Char → List Char → Prop
  | nil : Respaced [] []
  | solid {c : Char} {t t' : List Char} (hc : isBlank c = false) (h : Respaced t t') :
      Respaced (c :: t) (c :: t')
  | gap {b b' : List Char} {c : Char} {t t' : List Char} (hb : IsGap b) (hb' : IsGap b')
      (hc : isBlank c = false) (h : Respaced t t') : Respaced (b ++ c :: t) (b' ++ c :: t')

theorem trimStart_gap (hb : IsGap b) (hc : isBlank c = false) (t : List Char) :
    trimStart (b ++ c :: t) = c :: t :=
  trimStart_append hb.2 (by simp [hc])

section Folding

theorem squeeze_gap_append (hb : IsGap b) (gap : Bool) (x : List Char) :
    squeeze gap (b ++ x) = squeeze true x := by
  rw [squeeze_append hb.1]
  have hblank : ∀ gap, squeeze gap b = [] := by
    have hall := List.all_eq_true.1 hb.2
    clear hb
    induction b with
    | nil => intro gap; rfl
    | cons d b ih =>
        intro gap
        obtain ⟨hd, hb⟩ := List.forall_mem_cons.1 hall
        rw [squeeze_blank hd, ih hb]
  obtain ⟨u, d, rfl⟩ := (List.eq_nil_or_concat' b).resolve_left hb.1
  have hd : isBlank d = true := List.all_eq_true.1 hb.2 d (by simp)
  rw [hblank, List.getLast?_concat, Option.any_some, hd, List.nil_append]

/-- Whether two texts are the same once their blanks are folded, behind blanks or not. -/
def FoldAlike (x x' : List Char) : Prop :=
  ∀ gap, squeeze gap x = squeeze gap x'

theorem FoldAlike.cons (hc : isBlank c = false) {x x' : List Char} (h : FoldAlike x x') :
    FoldAlike (c :: x) (c :: x') := by
  intro gap
  rw [squeeze_cons hc, squeeze_cons hc, h false]

theorem FoldAlike.gap (hb : IsGap b) (hb' : IsGap b') {x x' : List Char} (h : FoldAlike x x') :
    FoldAlike (b ++ x) (b' ++ x') := by
  intro gap
  rw [squeeze_gap_append hb, squeeze_gap_append hb', h true]

theorem FoldAlike.collapse_eq {x x' : List Char} (h : FoldAlike x x') : collapse x = collapse x' := by
  rw [Text.collapse_eq, Text.collapse_eq, h true]

theorem Respaced.foldAlike (h : Respaced t t') : FoldAlike t t' := by
  induction h with
  | nil => exact fun gap => rfl
  | solid hc _ ih => exact ih.cons hc
  | gap hb hb' hc _ ih => exact (ih.cons hc).gap hb hb'

end Folding

section Readers

theorem Respaced.trimStart (h : Respaced t t') : Respaced (trimStart t) (trimStart t') := by
  cases h with
  | nil => exact .nil
  | solid hc h =>
      rw [trimStart_cons hc, trimStart_cons hc]
      exact .solid hc h
  | gap hb hb' hc h =>
      rw [trimStart_gap hb hc, trimStart_gap hb' hc]
      exact .solid hc h

theorem Respaced.allBlank_eq (h : Respaced t t') : allBlank t = allBlank t' := by
  cases h with
  | nil => rfl
  | solid hc h => simp [allBlank, hc]
  | gap hb hb' hc h => simp [allBlank, hc]

theorem Respaced.isEmpty_eq (h : Respaced t t') : t.isEmpty = t'.isEmpty := by
  cases h with
  | nil => rfl
  | solid => rfl
  | gap hb hb' =>
      obtain ⟨d, u, rfl, -⟩ := hb.exists_cons
      obtain ⟨d', u', rfl, -⟩ := hb'.exists_cons
      rfl

theorem Respaced.append_solid (hx : ∀ c ∈ x, isBlank c = false) (h : Respaced t t') :
    Respaced (x ++ t) (x ++ t') := by
  induction x with
  | nil => exact h
  | cons c x ih =>
      obtain ⟨hc, hx⟩ := List.forall_mem_cons.1 hx
      exact .solid hc (ih hx)

theorem Respaced.append_gap (hb : IsGap b) (hb' : IsGap b') (hx : ∀ c ∈ x, isBlank c = false)
    (hne : x ≠ []) (h : Respaced t t') : Respaced (b ++ (x ++ t)) (b' ++ (x ++ t')) := by
  obtain ⟨c, x, rfl⟩ := List.exists_cons_of_ne_nil hne
  obtain ⟨hc, hx⟩ := List.forall_mem_cons.1 hx
  exact .gap hb hb' hc (h.append_solid hx)

theorem respaced_flatMap {l : List (List Char × List Char × List Char)}
    (h : ∀ p ∈ l, IsGap p.1 ∧ IsGap p.2.1 ∧ p.2.2 ≠ [] ∧ p.2.2.all (!isBlank ·) = true) :
    Respaced (l.flatMap fun p => p.1 ++ p.2.2) (l.flatMap fun p => p.2.1 ++ p.2.2) := by
  induction l with
  | nil => exact .nil
  | cons p l ih =>
      obtain ⟨⟨hb, hb', hne, hx⟩, hl⟩ := List.forall_mem_cons.1 h
      have hsolid : ∀ c ∈ p.2.2, isBlank c = false := by simpa using hx
      rw [List.flatMap_cons, List.flatMap_cons, List.append_assoc, List.append_assoc]
      exact (ih hl).append_gap hb hb' hsolid hne

theorem Respaced.rel_of_solid {R : List Char → List Char → Prop}
    {read : List Char → Option (List Char)} (hnil : Option.Rel R (read []) (read []))
    (hblank : ∀ {c}, isBlank c = true → ∀ t, read (c :: t) = none)
    (hsolid : ∀ {c t t'}, isBlank c = false → Respaced t t' →
      Option.Rel R (read (c :: t)) (read (c :: t'))) (h : Respaced t t') :
    Option.Rel R (read t) (read t') := by
  cases h with
  | nil => exact hnil
  | solid hc h => exact hsolid hc h
  | gap hb hb' hc h =>
      obtain ⟨d, u, rfl, hd, -⟩ := hb.exists_cons
      obtain ⟨d', u', rfl, hd', -⟩ := hb'.exists_cons
      rw [List.cons_append, List.cons_append, hblank hd, hblank hd']
      exact .none

theorem Respaced.blanks? (h : Respaced t t') : Option.Rel Respaced (blanks? t) (blanks? t') := by
  cases h with
  | nil => exact .none
  | @solid c t t' hc h =>
      have hnone (t : List Char) : Sql.blanks? (c :: t) = none := if_neg (by simp [hc])
      rw [hnone, hnone]
      exact .none
  | gap hb hb' hc h =>
      rw [Body.blanks?_append hb.1 hb.2, Body.blanks?_append hb'.1 hb'.2,
        trimStart_cons hc, trimStart_cons hc]
      exact .some (.solid hc h)

theorem keyword?_blank_cons {k : Char} {ks : List Char} (hk : k.isAlpha = true)
    (hc : isBlank c = true) (t : List Char) : keyword? (k :: ks) (c :: t) = none := by
  refine if_neg fun h => ?_
  rw [isBlank_eq_false_of_foldsTo hk h] at hc
  cases hc

theorem Respaced.keyword? {ks : List Char} (hks : ks.all Char.isAlpha = true) (h : Respaced t t') :
    Option.Rel Respaced (keyword? ks t) (keyword? ks t') := by
  induction ks generalizing t t' with
  | nil => exact .some h
  | cons k ks ih =>
      obtain ⟨hk, hks⟩ := List.forall_mem_cons.1 (List.all_eq_true.1 hks)
      refine h.rel_of_solid .none (keyword?_blank_cons hk) fun {c t t'} _ h => ?_
      rw [Text.keyword?, Text.keyword?]
      exact rel_ite rfl (ih (List.all_eq_true.2 hks) h) .none

theorem Respaced.spaced? {keyword : String} (hk : keyword.toList.all Char.isAlpha = true)
    (h : Respaced t t') : Option.Rel Respaced (spaced? keyword t) (spaced? keyword t') :=
  rel_bind (h.keyword? hk) fun _ _ => Respaced.blanks?

theorem Respaced.spacedOr {keyword : String} (hk : keyword.toList.all Char.isAlpha = true)
    (h : Respaced t t') : Respaced (spacedOr keyword t) (spacedOr keyword t') :=
  rel_getD (h.spaced? hk) h

theorem Respaced.createOrReplace? (h : Respaced t t') :
    Option.Rel Respaced (createOrReplace? t) (createOrReplace? t') :=
  rel_bind (h.spaced? (by decide)) fun _ _ h =>
    rel_bind (h.spaced? (by decide)) fun _ _ h => h.spaced? (by decide)

theorem Respaced.run? {p : Char → Bool} (hp : ∀ {c}, isBlank c = true → p c = false)
    (h : Respaced t t') :
    Option.Rel (fun r r' => r.1 = r'.1 ∧ (∀ c ∈ r.1, p c = true) ∧ Respaced r.2 r'.2)
      (run? p t) (run? p t') := by
  have hspan : t.takeWhile p = t'.takeWhile p ∧ Respaced (t.dropWhile p) (t'.dropWhile p) := by
    induction h with
    | nil => exact ⟨rfl, .nil⟩
    | @solid c t t' hc h ih =>
        rw [List.takeWhile_cons, List.takeWhile_cons, List.dropWhile_cons, List.dropWhile_cons]
        split
        · exact ⟨congrArg (c :: ·) ih.1, ih.2⟩
        · exact ⟨rfl, .solid hc h⟩
    | gap hb hb' hc h ih =>
        have hstop {b : List Char} (hb : IsGap b) (u : List Char) :
            (b ++ u).takeWhile p = [] ∧ (b ++ u).dropWhile p = b ++ u := by
          obtain ⟨d, v, rfl, hd, -⟩ := hb.exists_cons
          simp [hp hd]
        rw [(hstop hb _).1, (hstop hb' _).1, (hstop hb _).2, (hstop hb' _).2]
        exact ⟨rfl, .gap hb hb' hc h⟩
  obtain ⟨hsame, hrest⟩ := hspan
  have hmem : ∀ c ∈ t'.takeWhile p, p c = true := fun c hc => List.mem_takeWhile_imp hc
  rw [Sql.run?, Sql.run?, hsame]
  cases hrun : t'.takeWhile p with
  | nil => exact .none
  | cons c w => exact .some ⟨rfl, hrun ▸ hmem, hrest⟩

theorem Respaced.dropWhile_ne (hd : isBlank d = false) (h : Respaced t t') :
    (t.takeWhile (· ≠ d) = [] ↔ t'.takeWhile (· ≠ d) = []) ∧
      Respaced (t.dropWhile (· ≠ d)) (t'.dropWhile (· ≠ d)) := by
  have hpass {b : List Char} (hb : IsGap b) : ∀ c ∈ b, decide (c ≠ d) = true := by
    intro c hc
    refine decide_eq_true ?_
    rintro rfl
    rw [List.all_eq_true.1 hb.2 c hc] at hd
    cases hd
  have hsolid {c : Char} {t t' : List Char} (hc : isBlank c = false) (h : Respaced t t')
      (ih : Respaced (t.dropWhile (· ≠ d)) (t'.dropWhile (· ≠ d))) :
      Respaced ((c :: t).dropWhile (· ≠ d)) ((c :: t').dropWhile (· ≠ d)) := by
    rw [List.dropWhile_cons, List.dropWhile_cons]
    split
    · exact ih
    · exact .solid hc h
  induction h with
  | nil => exact ⟨Iff.rfl, .nil⟩
  | @solid c t t' hc h ih =>
      refine ⟨?_, hsolid hc h ih.2⟩
      rw [List.takeWhile_cons, List.takeWhile_cons]
      split <;> simp
  | gap hb hb' hc h ih =>
      have hne {b : List Char} (hb : IsGap b) (u : List Char) :
          (b ++ u).takeWhile (· ≠ d) ≠ [] := by
        rw [List.takeWhile_append_of_pos (hpass hb)]
        exact List.append_ne_nil_of_left_ne_nil hb.1 _
      rw [List.dropWhile_append_of_pos (hpass hb), List.dropWhile_append_of_pos (hpass hb')]
      exact ⟨iff_of_false (hne hb _) (hne hb' _), hsolid hc h ih.2⟩

def after? (d : Char) : List Char → Option (List Char)
  | [] => none
  | c :: t => if c = d then some t else none

theorem Respaced.after? (hd : isBlank d = false) (h : Respaced t t') :
    Option.Rel Respaced (after? d t) (after? d t') := by
  refine h.rel_of_solid .none (fun {c} hc t => if_neg ?_) fun {c t t'} _ h => ?_
  · rintro rfl
    rw [hc] at hd
    cases hd
  · rw [Text.after?, Text.after?]
    split
    · exact .some h
    · exact .none

theorem Respaced.halve (h : Respaced t t') (odd : Bool) : Respaced (halve odd t) (halve odd t') := by
  have hgap {b : List Char} (hb : IsGap b) (odd : Bool) (t : List Char) :
      Text.halve odd (b ++ t) = b ++ Text.halve false t := by
    have hquote : '\'' ∉ b := fun hmem =>
      absurd (List.all_eq_true.1 hb.2 _ hmem) (by decide)
    obtain ⟨d, u, rfl, -, -⟩ := hb.exists_cons
    have hd : d ≠ '\'' := fun hd => hquote (hd ▸ List.mem_cons_self)
    rw [List.cons_append, halve_cons hd, ← halve_cons hd false, ← List.cons_append,
      halve_append_of_not_mem hquote]
  induction h generalizing odd with
  | nil => exact .nil
  | @solid c t t' hc h ih =>
      by_cases hquote : c = '\''
      · subst hquote
        cases odd with
        | false => exact .solid hc (ih true)
        | true => exact ih false
      · rw [halve_cons hquote, halve_cons hquote]
        exact .solid hc (ih false)
  | @gap b b' c t t' hb hb' hc h ih =>
      rw [hgap hb, hgap hb']
      by_cases hquote : c = '\''
      · subst hquote
        exact .gap hb hb' hc (ih true)
      · rw [halve_cons hquote, halve_cons hquote]
        exact .gap hb hb' hc (ih false)

end Readers

end Text

end SchemaDeploy
