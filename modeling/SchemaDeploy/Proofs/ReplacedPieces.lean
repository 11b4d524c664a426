import SchemaDeploy.Proofs.ByteSearch

namespace SchemaDeploy

namespace Parameters

open Text

variable {accept : Option Char → Option Char → Bool} {needle image before t : List Char}

/-- A text in pieces: each match with the stretch before it that stays, and the stretch behind all
matches. -/
structure Cut where
  pieces : List (List Char × List Char)
  last : List Char

def Cut.text (k : Cut) : List Char :=
  k.pieces.flatMap (fun p => p.1 ++ p.2) ++ k.last

/-- The text with the image in place of every match. -/
def Cut.render (image : List Char) (k : Cut) : List Char :=
  k.pieces.flatMap (fun p => p.1 ++ image) ++ k.last

/-- Whether no match that is accepted starts in a stretch between two parts of a text. -/
def IsKept (accept : Option Char → Option Char → Bool) (needle before kept after : List Char) : Prop :=
  ∀ x c y m rest, kept = x ++ c :: y → c :: (y ++ after) = m ++ rest → same m needle = true →
    accept (before ++ x).getLast? rest.head? = false

/-- Whether the stretches of a text stay and its matches are replaced, where the text stands after
`before`. -/
structure Cut.IsOf (accept : Option Char → Option Char → Bool) (needle before t : List Char)
    (k : Cut) : Prop where
  text : k.text = t
  piece : ∀ front kept m back, k.pieces = front ++ (kept, m) :: back →
    same m needle = true ∧
    accept (before ++ Cut.text ⟨front, kept⟩).getLast? (Cut.text ⟨back, k.last⟩).head? = true ∧
    IsKept accept needle (before ++ Cut.text ⟨front, []⟩) kept (m ++ Cut.text ⟨back, k.last⟩)
  last : IsKept accept needle (before ++ Cut.text ⟨k.pieces, []⟩) k.last []

@[simp] theorem Cut.text_nil (last : List Char) : Cut.text ⟨[], last⟩ = last :=
  rfl

@[simp] theorem Cut.text_cons (kept m : List Char) (ps : List (List Char × List Char))
    (last : List Char) : Cut.text ⟨(kept, m) :: ps, last⟩ = kept ++ (m ++ Cut.text ⟨ps, last⟩) := by
  simp [Cut.text]

theorem Cut.render_cons (kept m : List Char) (ps : List (List Char × List Char)) (last : List Char) :
    Cut.render image ⟨(kept, m) :: ps, last⟩ = kept ++ (image ++ Cut.render image ⟨ps, last⟩) := by
  simp [Cut.render]

theorem Cut.isOf_nil (h : IsKept accept needle before t []) :
    Cut.IsOf accept needle before t ⟨[], t⟩ where
  text := rfl
  piece front kept m back hsplit := by simp at hsplit
  last := by simpa using h

theorem Cut.isOf_cons_iff {kept m last : List Char} {ps : List (List Char × List Char)} :
    Cut.IsOf accept needle before t ⟨(kept, m) :: ps, last⟩ ↔
      ∃ rest, t = kept ++ (m ++ rest) ∧ same m needle = true ∧
        accept (before ++ kept).getLast? rest.head? = true ∧
        IsKept accept needle before kept (m ++ rest) ∧
        Cut.IsOf accept needle (before ++ kept ++ m) rest ⟨ps, last⟩ := by
  constructor
  · intro h
    obtain ⟨hm, ha, hkept⟩ := h.piece [] kept m ps rfl
    have htext := h.text
    rw [text_nil] at ha
    rw [text_nil, List.append_nil] at hkept
    rw [text_cons] at htext
    refine ⟨Cut.text ⟨ps, last⟩, htext.symm, hm, ha, hkept, rfl,
      fun front kept' m' back hsplit => ?_, ?_⟩
    · have hpiece := h.piece ((kept, m) :: front) kept' m' back (congrArg ((kept, m) :: ·) hsplit)
      simpa [List.append_assoc] using hpiece
    · simpa [List.append_assoc] using h.last
  · rintro ⟨rest, rfl, hm, ha, hkept, h⟩
    obtain rfl := h.text
    refine ⟨text_cons .., fun front kept' m' back hsplit => ?_, ?_⟩
    · cases front with
      | nil =>
          simp only [List.nil_append, List.cons.injEq, Prod.mk.injEq] at hsplit
          obtain ⟨⟨rfl, rfl⟩, rfl⟩ := hsplit
          exact ⟨hm, ha, by simpa using hkept⟩
      | cons p front =>
          obtain ⟨rfl, hback⟩ := List.cons.inj hsplit
          simpa [List.append_assoc] using h.piece front kept' m' back hback
    · simpa [List.append_assoc] using h.last

theorem isKept_nil (accept : Option Char → Option Char → Bool) (needle before after : List Char) :
    IsKept accept needle before [] after := by
  intro x c y m rest hx
  simp at hx

theorem isKept_cons {c : Char} {kept after : List Char}
    (hfirst : ∀ m rest, c :: (kept ++ after) = m ++ rest → same m needle = true →
      accept before.getLast? rest.head? = false)
    (h : IsKept accept needle (before ++ [c]) kept after) :
    IsKept accept needle before (c :: kept) after := by
  intro x d y m rest hx hm hsame
  cases x with
  | nil =>
      cases hx
      rw [List.append_nil]
      exact hfirst m rest hm hsame
  | cons e x =>
      obtain ⟨rfl, hkept⟩ := List.cons.inj hx
      have hrest := h x d y m rest hkept hm hsame
      rwa [List.append_assoc, List.singleton_append] at hrest

theorem isKept_or_exists (accept : Option Char → Option Char → Bool) (needle before t : List Char) :
    IsKept accept needle before t [] ∨
      ∃ kept m rest, t = kept ++ (m ++ rest) ∧ same m needle = true ∧
        accept (before ++ kept).getLast? rest.head? = true ∧
        IsKept accept needle before kept (m ++ rest) := by
  induction t generalizing before with
  | nil => exact .inl (isKept_nil accept needle before [])
  | cons c t ih =>
      by_cases hhere : ∃ m rest, c :: t = m ++ rest ∧ same m needle = true ∧
          accept before.getLast? rest.head? = true
      · obtain ⟨m, rest, ht, hm, ha⟩ := hhere
        exact .inr ⟨[], m, rest, ht, hm, by rwa [List.append_nil], isKept_nil accept needle before _⟩
      · have hfirst : ∀ m rest, c :: t = m ++ rest → same m needle = true →
            accept before.getLast? rest.head? = false := by
          intro m rest ht hm
          rw [Bool.eq_false_iff]
          exact fun ha => hhere ⟨m, rest, ht, hm, ha⟩
        rcases ih (before ++ [c]) with hkept | ⟨kept, m, rest, rfl, hm, ha, hkept⟩
        · exact .inl (isKept_cons (by rwa [List.append_nil]) hkept)
        · rw [List.append_assoc, List.singleton_append] at ha
          exact .inr ⟨c :: kept, m, rest, rfl, hm, ha, isKept_cons hfirst hkept⟩

theorem exists_isOf (accept : Option Char → Option Char → Bool) (hne : needle ≠ [])
    (before t : List Char) : ∃ k : Cut, k.IsOf accept needle before t := by
  induction hn : t.length using Nat.strong_induction_on generalizing before t with
  | _ n ih =>
    rcases isKept_or_exists accept needle before t with hkept | ⟨kept, m, rest, rfl, hm, ha, hkept⟩
    · exact ⟨⟨[], t⟩, Cut.isOf_nil hkept⟩
    · have hlt : rest.length < n := by
        have hpos := List.length_pos_iff.2 (Sql.ne_nil_of_same hm hne)
        rw [← hn, List.length_append, List.length_append]
        omega
      obtain ⟨⟨ps, last⟩, hrest⟩ := ih rest.length hlt (before ++ kept ++ m) rest rfl
      exact ⟨⟨(kept, m) :: ps, last⟩, Cut.isOf_cons_iff.2 ⟨rest, rfl, hm, ha, hkept, hrest⟩⟩

theorem IsKept.replaceFrom_eq {kept after : List Char} (h : IsKept accept needle before kept after) :
    replaceFrom accept needle image 0 before.getLast? (kept ++ after) =
      kept ++ replaceFrom accept needle image 0 (before ++ kept).getLast? after := by
  rw [List.getLast?_append]
  refine replaceFrom_append fun x c y rest hkept hd => ?_
  obtain ⟨m, hm, hsame⟩ := exists_of_dropSame? hd
  rw [← List.getLast?_append]
  exact h x c y m rest hkept hm hsame

theorem Cut.IsOf.replaceFrom_eq (hne : needle ≠ []) {k : Cut} (h : k.IsOf accept needle before t) :
    replaceFrom accept needle image 0 before.getLast? t = k.render image := by
  obtain ⟨ps, last⟩ := k
  induction ps generalizing before t with
  | nil =>
      have hkept := h.last
      have ht : last = t := h.text
      rw [text_nil, List.append_nil] at hkept
      rw [← ht, ← List.append_nil last, hkept.replaceFrom_eq]
      simp [render, replaceFrom]
  | cons p ps ih =>
      obtain ⟨kept, m⟩ := p
      obtain ⟨rest, rfl, hm, ha, hkept, hrest⟩ := isOf_cons_iff.1 h
      have hlast : (before ++ kept ++ m).getLast? = m.getLast? :=
        List.getLast?_append_of_ne_nil _ (Sql.ne_nil_of_same hm hne)
      rw [hkept.replaceFrom_eq, replaceFrom_of_match hne hm ha, ← hlast, ih hrest, render_cons]

/-- A text can be cut into stretches that stay and matches that are replaced. The replacement ends, and
its result is the cut text with the image in place of the matches. -/
theorem replaceSame_cut (bounded : Bool) (needle image t : List Char) (hne : needle ≠ []) :
    (∃ k : Cut, k.IsOf (accepts bounded) needle [] t) ∧
      ∀ k : Cut, k.IsOf (accepts bounded) needle [] t →
        replaceSame (accepts bounded) needle image t = k.render image ∧
        replaceBytes? bounded needle image t = some (k.render image) := by
  refine ⟨exists_isOf (accepts bounded) hne [] t, fun k hk => ?_⟩
  have hrender : replaceSame (accepts bounded) needle image t = k.render image := hk.replaceFrom_eq hne
  exact ⟨hrender, by rw [replaceBytes?_eq, hrender]⟩

theorem replaceSame_cut_overlapping :
    "a.a".toList ≠ [] ∧ ∃ k : Cut, k.IsOf (accepts true) "a.a".toList [] "xA.a.A".toList ∧
      k.render "v".toList = "xA.v".toList ∧
      replaceBytes? true "a.a".toList "v".toList "xA.a.A".toList = some "xA.v".toList := by
  have hne : "a.a".toList ≠ [] := by decide
  obtain ⟨⟨k, hk⟩, hall⟩ := replaceSame_cut true "a.a".toList "v".toList "xA.a.A".toList hne
  obtain ⟨hsame, hbytes⟩ := hall k hk
  have hrender : k.render "v".toList = "xA.v".toList := hsame.symm.trans (by decide)
  exact ⟨hne, k, hk, hrender, hrender ▸ hbytes⟩

end Parameters

end SchemaDeploy
