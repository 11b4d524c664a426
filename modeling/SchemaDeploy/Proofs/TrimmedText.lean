import Mathlib.Data.List.DropRight
import Mathlib.Data.List.Forall2
import SchemaDeploy.Text.Blank

namespace SchemaDeploy.Text

variable {a b s t x : List Char}

section Trim

theorem dropEndWhile_append {p : Char → Bool} {c : Char} (hc : p c = false) (x rest : List Char) :
    dropEndWhile p (x ++ c :: rest) = x ++ c :: dropEndWhile p rest := by
  have hr : (x ++ c :: rest).reverse = rest.reverse ++ c :: x.reverse := by simp
  have hstop : (c :: x.reverse).dropWhile p = c :: x.reverse :=
    List.dropWhile_cons_of_neg (by simp [hc])
  rw [dropEndWhile, dropEndWhile, hr, List.dropWhile_append, hstop]
  cases hd : rest.reverse.dropWhile p with
  | nil => simp
  | cons d ds => simp

theorem exists_dropEndWhile (p : Char → Bool) (t : List Char) :
    ∃ e, t = dropEndWhile p t ++ e ∧ ∀ c ∈ e, p c = true := by
  refine ⟨(t.reverse.takeWhile p).reverse, ?_, fun c hc =>
    List.mem_takeWhile_imp (List.mem_reverse.1 hc)⟩
  rw [dropEndWhile, ← List.reverse_append, List.takeWhile_append_dropWhile, List.reverse_reverse]

theorem allBlank_append : allBlank (a ++ b) = true ↔ allBlank a = true ∧ allBlank b = true := by
  simp [allBlank]

theorem trimStart_cons {c : Char} (hc : isBlank c = false) (t : List Char) :
    trimStart (c :: t) = c :: t :=
  List.dropWhile_cons_of_neg (by simp [hc])

theorem trimStart_trim (t : List Char) : trimStart (trim t) = trim t := by
  have hinit : trim t <+: trimStart t := List.rdropWhile_prefix isBlank _
  rw [trimStart, List.dropWhile_eq_self_iff]
  intro hpos
  have hlong := Nat.lt_of_lt_of_le hpos hinit.length_le
  have hhead : (trim t)[0] = (trimStart t)[0] := List.IsPrefix.getElem hinit hpos
  rw [hhead]
  exact List.dropWhile_get_zero_not isBlank t hlong

theorem trimStart_eq_self_iff : trimStart t = t ↔ t.head?.all (!isBlank ·) = true := by
  cases t with
  | nil => simp [trimStart]
  | cons c t => simp [trimStart, List.dropWhile_eq_self_iff]

theorem trimEnd_eq_self_iff : trimEnd t = t ↔ t.getLast?.all (!isBlank ·) = true := by
  rcases List.eq_nil_or_concat' t with rfl | ⟨t, c, rfl⟩
  · simp [trimEnd, dropEndWhile]
  · have hlast : List.rdropWhile isBlank (t ++ [c]) = t ++ [c] ↔ _ := List.rdropWhile_eq_self_iff
    have hdrop : trimEnd (t ++ [c]) = List.rdropWhile isBlank (t ++ [c]) := rfl
    rw [hdrop, hlast]
    simp

theorem trim_eq_self_iff : trim t = t ↔
    t.head?.all (!isBlank ·) = true ∧ t.getLast?.all (!isBlank ·) = true := by
  rw [← trimStart_eq_self_iff, ← trimEnd_eq_self_iff]
  constructor
  · intro h
    have hs : trimStart t = t := by
      rw [← h]
      exact trimStart_trim t
    rw [trim, hs] at h
    exact ⟨hs, h⟩
  · rintro ⟨hs, he⟩
    rw [trim, hs, he]

theorem trim_trim (t : List Char) : trim (trim t) = trim t := by
  rw [trim, trimStart_trim]
  exact List.rdropWhile_idempotent isBlank _

theorem exists_trim (t : List Char) :
    ∃ b b', t = b ++ (trim t ++ b') ∧ allBlank b = true ∧ allBlank b' = true := by
  obtain ⟨e, he, hblank⟩ := exists_dropEndWhile isBlank (trimStart t)
  refine ⟨t.takeWhile isBlank, e, ?_, ?_, List.all_eq_true.2 hblank⟩
  · rw [trim, trimEnd, ← he]
    exact List.takeWhile_append_dropWhile.symm
  · exact List.all_eq_true.2 fun c hc => List.mem_takeWhile_imp hc

theorem trimEnd_append_blank (hb : allBlank b = true) (t : List Char) :
    trimEnd (t ++ b) = trimEnd t := by
  have hall : ∀ c ∈ b.reverse, isBlank c = true := fun c hc =>
    List.all_eq_true.1 hb c (List.mem_reverse.1 hc)
  rw [trimEnd, trimEnd, dropEndWhile, dropEndWhile, List.reverse_append,
    List.dropWhile_append_of_pos hall]

theorem trim_append_blank (hb : allBlank b = true) (t : List Char) : trim (t ++ b) = trim t := by
  have hrest : trimStart b = [] := List.dropWhile_eq_nil_iff.2 (List.all_eq_true.1 hb)
  have hstart : trimStart (t ++ b) = trimStart t ∨ trimStart (t ++ b) = trimStart t ++ b := by
    rw [trimStart, trimStart, List.dropWhile_append]
    split
    · next h => exact .inl (by rw [List.isEmpty_iff.1 h]; exact hrest)
    · exact .inr rfl
  rw [trim]
  rcases hstart with h | h
  · rw [h]
    rfl
  · rw [h, trimEnd_append_blank hb]
    rfl

theorem exists_append_of_blank {p r l : List Char} (h : p ++ r = l ++ b) (hb : allBlank b = true)
    (hp : p.getLast?.all (!isBlank ·) = true) : ∃ y, l = p ++ y ∧ r = y ++ b := by
  rcases List.append_eq_append_iff.1 h with ⟨y, hl, hr⟩ | ⟨y, hpy, hby⟩
  · exact ⟨y, hl, hr⟩
  · have hy : y = [] := by
      by_contra hne
      obtain ⟨c, hc⟩ := Option.ne_none_iff_exists'.1 (mt List.getLast?_eq_none_iff.1 hne)
      rw [hpy, List.getLast?_append, hc] at hp
      have hblank := List.all_eq_true.1 hb c
        (hby ▸ List.mem_append_left _ (List.mem_of_getLast? hc))
      simp [hblank] at hp
    subst hy
    exact ⟨[], by simpa using hpy.symm, by simpa using hby.symm⟩

end Trim

section Lines

theorem exists_rawLines_cons {c : Char} (hc : c ≠ '\n') (t : List Char) :
    ∃ l ls, rawLines (c :: t) = (c :: l) :: ls := by
  rw [rawLines, if_neg hc]
  cases rawLines t with
  | nil => exact ⟨[], [], rfl⟩
  | cons l ls => exact ⟨l, ls, rfl⟩

theorem rawLines_append (hx : '\n' ∉ x) (t : List Char) :
    rawLines (x ++ '\n' :: t) = (x ++ ['\n']) :: rawLines t := by
  induction x with
  | nil => rfl
  | cons c x ih =>
      rw [List.mem_cons, not_or] at hx
      rw [List.cons_append, rawLines, if_neg (Ne.symm hx.1), ih hx.2]
      rfl

theorem rawLines_of_not_mem (hx : '\n' ∉ x) (hne : x ≠ []) : rawLines x = [x] := by
  induction x with
  | nil => exact absurd rfl hne
  | cons c x ih =>
      rw [List.mem_cons, not_or] at hx
      rw [rawLines, if_neg (Ne.symm hx.1)]
      cases x with
      | nil => rfl
      | cons d x => rw [ih hx.2 (List.cons_ne_nil d x)]

theorem rawLines_append_left {l : List Char} {ls : List (List Char)} (hx : '\n' ∉ x)
    (h : rawLines t = l :: ls) : rawLines (x ++ t) = (x ++ l) :: ls := by
  induction x with
  | nil => exact h
  | cons c x ih =>
      rw [List.mem_cons, not_or] at hx
      rw [List.cons_append, rawLines, if_neg (Ne.symm hx.1), ih hx.2]
      rfl

/-- Lines as a text is cut into them: each but the last ends in a newline, and has no other one. -/
inductive AreLines : List (List Char) → Prop
  | nil : AreLines []
  | last {x : List Char} (hx : '\n' ∉ x) (hne : x ≠ []) : AreLines [x]
  | cons {x : List Char} {ls : List (List Char)} (hx : '\n' ∉ x) (h : AreLines ls) :
      AreLines ((x ++ ['\n']) :: ls)

theorem areLines_rawLines (t : List Char) : AreLines (rawLines t) := by
  induction t with
  | nil => exact .nil
  | cons c t ih =>
      rw [rawLines]
      split
      · next hc =>
        subst hc
        exact .cons (x := []) List.not_mem_nil ih
      · next hc =>
        have hcons {x : List Char} (hx : '\n' ∉ x) : '\n' ∉ c :: x := by
          simpa [Ne.symm hc] using hx
        cases h : rawLines t with
        | nil => exact .last (hcons List.not_mem_nil) (List.cons_ne_nil c [])
        | cons l ls =>
            rw [h] at ih
            cases ih with
            | last hx _ => exact .last (hcons hx) (List.cons_ne_nil c l)
            | cons hx hls => exact .cons (hcons hx) hls

theorem AreLines.of_append {ls ms : List (List Char)} (h : AreLines (ls ++ ms)) :
    AreLines ls ∧ AreLines ms := by
  induction ls with
  | nil => exact ⟨.nil, h⟩
  | cons l ls ih =>
      generalize hall : l :: ls ++ ms = all at h
      cases h with
      | nil => cases hall
      | last hx hne =>
          obtain ⟨rfl, hrest⟩ := List.cons.inj hall
          obtain ⟨rfl, rfl⟩ := List.append_eq_nil_iff.1 hrest
          exact ⟨.last hx hne, .nil⟩
      | cons hx h =>
          obtain ⟨rfl, rfl⟩ := List.cons.inj hall
          exact ⟨.cons hx (ih h).1, (ih h).2⟩

theorem AreLines.rawLines_flatten {ls : List (List Char)} (h : AreLines ls) :
    rawLines ls.flatten = ls := by
  induction h with
  | nil => rfl
  | last hx hne =>
      rw [List.flatten_singleton]
      exact rawLines_of_not_mem hx hne
  | @cons x ls hx _ ih =>
      rw [List.flatten_cons, List.append_assoc, List.singleton_append, rawLines_append hx, ih]

theorem flatten_rawLines (t : List Char) : (rawLines t).flatten = t := by
  induction t with
  | nil => rfl
  | cons c t ih =>
      rw [rawLines]
      split
      · rw [List.flatten_cons, ih]
        rfl
      · cases h : rawLines t with
        | nil => simpa [h] using ih
        | cons l ls => simpa [h] using ih

theorem rawLines_append_newline (s t : List Char) :
    rawLines (s ++ '\n' :: t) = rawLines (s ++ ['\n']) ++ rawLines t := by
  induction s with
  | nil => rfl
  | cons c s ih =>
      rw [List.cons_append, List.cons_append, rawLines, rawLines, ih]
      split
      · rfl
      · cases h : rawLines (s ++ ['\n']) with
        | nil =>
            have hflat := flatten_rawLines (s ++ ['\n'])
            rw [h] at hflat
            simp at hflat
        | cons l ls => rfl

theorem allBlank_of_mem_rawLines (hb : allBlank b = true) {l : List Char} (hl : l ∈ rawLines b) :
    allBlank l = true := by
  refine List.all_eq_true.2 fun c hc => List.all_eq_true.1 hb c ?_
  rw [← flatten_rawLines b]
  exact List.mem_flatten.2 ⟨l, hl, hc⟩

theorem exists_rawLines_append (hb : allBlank b = true) (s : List Char) :
    ∃ ms rest, rawLines (s ++ b) = ms ++ rest ∧
      List.Forall₂ (fun l m => ∃ e, allBlank e = true ∧ m = l ++ e) (rawLines s) ms ∧
      ∀ l ∈ rest, allBlank l = true := by
  induction s with
  | nil => exact ⟨[], rawLines b, rfl, .nil, fun l hl => allBlank_of_mem_rawLines hb hl⟩
  | cons c s ih =>
      obtain ⟨ms, rest, hlines, hms, hrest⟩ := ih
      rw [List.cons_append, rawLines, rawLines, hlines]
      split
      · exact ⟨[c] :: ms, rest, rfl, .cons ⟨[], rfl, by simp⟩ hms, hrest⟩
      · generalize rawLines s = ls at hms ⊢
        cases hms with
        | nil =>
            cases rest with
            | nil => exact ⟨[[c]], [], rfl, .cons ⟨[], rfl, by simp⟩ .nil, by simp⟩
            | cons l rest =>
                obtain ⟨hl, hrest⟩ := List.forall_mem_cons.1 hrest
                exact ⟨[c :: l], rest, rfl, .cons ⟨l, hl, rfl⟩ .nil, hrest⟩
        | @cons l m ls ms hm hms =>
            obtain ⟨e, he, rfl⟩ := hm
            exact ⟨(c :: (l ++ e)) :: ms, rest, rfl, .cons ⟨e, he, rfl⟩ hms, hrest⟩

end Lines

section LineProperties

/-- Blanks around a line do not matter to the property, and no line of blanks has it. -/
structure IgnoresBlanks (P : List Char → Prop) : Prop where
  append {l b : List Char} (hb : allBlank b = true) : P (l ++ b) ↔ P l
  before {l b : List Char} (hb : allBlank b = true) : P (b ++ l) ↔ P l
  blank {b : List Char} (hb : allBlank b = true) : ¬ P b

def HasLine (P : List Char → Prop) (t : List Char) : Prop :=
  ∃ l ∈ rawLines t, P l

namespace IgnoresBlanks

variable {P : List Char → Prop}

theorem not_hasLine_iff : ¬ HasLine P t ↔ ∀ l ∈ rawLines t, ¬ P l := by
  simp [HasLine]

theorem forall_not_iff (h : IgnoresBlanks P) {ls ms : List (List Char)}
    (hms : List.Forall₂ (fun l m => ∃ e, allBlank e = true ∧ m = l ++ e) ls ms) :
    (∀ m ∈ ms, ¬ P m) ↔ ∀ l ∈ ls, ¬ P l := by
  induction hms with
  | nil => simp
  | cons hm _ ih =>
      obtain ⟨e, he, rfl⟩ := hm
      rw [List.forall_mem_cons, List.forall_mem_cons, h.append he, ih]

theorem hasLine_append_blank (h : IgnoresBlanks P) (hb : allBlank b = true) :
    HasLine P (s ++ b) ↔ HasLine P s := by
  obtain ⟨ms, rest, hlines, hms, hrest⟩ := exists_rawLines_append hb s
  rw [← not_iff_not, not_hasLine_iff, not_hasLine_iff, hlines, List.forall_mem_append,
    h.forall_not_iff hms]
  exact and_iff_left fun l hl => h.blank (hrest l hl)

theorem hasLine_append_newline (h : IgnoresBlanks P) :
    HasLine P (a ++ '\n' :: b) ↔ HasLine P a ∨ HasLine P b := by
  have hnewline : allBlank ['\n'] = true := by decide
  rw [← h.hasLine_append_blank (s := a) hnewline]
  simp only [HasLine, rawLines_append_newline a b, List.mem_append, or_and_right, exists_or]

theorem hasLine_blank_append (h : IgnoresBlanks P) (hb : allBlank b = true) :
    HasLine P (b ++ t) ↔ HasLine P t := by
  induction b with
  | nil => rfl
  | cons c b ih =>
      obtain ⟨hc, hb⟩ : allBlank [c] = true ∧ allBlank b = true := allBlank_append.1 hb
      rw [← ih hb, List.cons_append]
      by_cases hnewline : c = '\n'
      · subst hnewline
        rw [← List.nil_append ('\n' :: (b ++ t)), h.hasLine_append_newline]
        simp [HasLine, rawLines]
      · have hfirst (l : List Char) : P (c :: l) ↔ P l := h.before hc
        rw [HasLine, HasLine, rawLines, if_neg hnewline]
        cases rawLines (b ++ t) with
        | nil => simpa using h.blank hc
        | cons l ls => simp [hfirst]

theorem hasLine_trim (h : IgnoresBlanks P) (t : List Char) : HasLine P (trim t) ↔ HasLine P t := by
  obtain ⟨b, b', ht, hb, hb'⟩ := exists_trim t
  conv_rhs => rw [ht]
  rw [h.hasLine_blank_append hb, h.hasLine_append_blank hb']

end IgnoresBlanks

end LineProperties

end SchemaDeploy.Text
