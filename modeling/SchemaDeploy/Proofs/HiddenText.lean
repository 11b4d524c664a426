import SchemaDeploy.Dependency.Inference
import SchemaDeploy.Proofs.ClosedText
import Mathlib.Data.List.TakeWhile

namespace SchemaDeploy

namespace Sql

open Text

variable {a b x y : List Char}

def literal (x : List Char) : List Char :=
  '\'' :: (x ++ ['\''])

/-- Whether a text ends in a blank, the keyword AS in any case, and blanks. A literal after it is the
body of a routine. -/
def EndsInAs (t : List Char) : Prop :=
  ∃ u b a s w, t = u ++ b :: a :: s :: w ∧ isAsciiBlank b = true ∧
    sameLetter 'a' a = true ∧ sameLetter 's' s = true ∧ w ≠ [] ∧ ∀ c ∈ w, isAsciiBlank c = true

theorem isAsciiBlank_eq_false {c : Char} (h : sameLetter 's' c = true) :
    isAsciiBlank c = false := by
  rw [Bool.eq_false_iff]
  intro hb
  simp only [isAsciiBlank, Bool.or_eq_true, beq_iff_eq] at hb
  rcases hb with (((hb | hb) | hb) | hb) | hb <;> subst hb <;> exact absurd h (by decide)

theorem followsAs_reverse_iff {t : List Char} : followsAs t.reverse = true ↔ EndsInAs t := by
  constructor
  · intro h
    have hsplit := List.takeWhile_append_dropWhile (p := isAsciiBlank) (l := t.reverse)
    rw [followsAs] at h
    split at h
    · next s a b u hdrop =>
      simp only [Bool.and_eq_true] at h
      obtain ⟨⟨⟨hhead, hs⟩, ha⟩, hb⟩ := h
      rw [hdrop] at hsplit
      refine ⟨u.reverse, b, a, s, (t.reverse.takeWhile isAsciiBlank).reverse, ?_, hb, ha, hs, ?_, ?_⟩
      · have ht := congrArg List.reverse hsplit
        rw [List.reverse_reverse, List.reverse_append] at ht
        simpa using ht.symm
      · intro hnil
        rw [List.reverse_eq_nil_iff] at hnil
        rw [hnil, List.nil_append] at hsplit
        rw [← hsplit, List.head?_cons, Option.any_some,
          isAsciiBlank_eq_false hs] at hhead
        cases hhead
      · intro c hc
        exact List.mem_takeWhile_imp (List.mem_reverse.1 hc)
    · cases h
  · rintro ⟨u, b, a, s, w, rfl, hb, ha, hs, hw, hall⟩
    have hall' : ∀ c ∈ w.reverse, isAsciiBlank c = true := fun c hc => hall c (List.mem_reverse.1 hc)
    have hback : (u ++ b :: a :: s :: w).reverse = w.reverse ++ s :: a :: b :: u.reverse := by simp
    have hdrop : (w.reverse ++ s :: a :: b :: u.reverse).dropWhile isAsciiBlank =
        s :: a :: b :: u.reverse := by
      rw [List.dropWhile_append_of_pos hall', List.dropWhile_cons_of_neg]
      rw [isAsciiBlank_eq_false hs]
      decide
    obtain ⟨c, v, hcv⟩ := List.exists_cons_of_ne_nil (List.reverse_ne_nil_iff.2 hw)
    have hc : isAsciiBlank c = true := hall' c (hcv ▸ List.mem_cons_self)
    rw [hback, followsAs, hdrop, hcv]
    simp [hc, hs, ha, hb]

theorem followsAs_append_quote (w y y' : List Char) :
    followsAs (w ++ '\'' :: y) = followsAs (w ++ '\'' :: y') := by
  have hhead : (w ++ '\'' :: y).head? = (w ++ '\'' :: y').head? := by
    cases w <;> rfl
  have hquote : ∀ z : List Char, ('\'' :: z).dropWhile isAsciiBlank = '\'' :: z := fun z => rfl
  have hs : sameLetter 's' '\'' = false := by decide
  have ha : sameLetter 'a' '\'' = false := by decide
  have hb : isAsciiBlank '\'' = false := by decide
  rw [followsAs, followsAs, hhead, List.dropWhile_append, List.dropWhile_append, hquote, hquote]
  match w.dropWhile isAsciiBlank with
  | [] =>
      rcases y with - | ⟨c, - | ⟨d, y⟩⟩ <;> rcases y' with - | ⟨c', - | ⟨d', y'⟩⟩ <;> simp [hs]
  | [s] => rcases y with - | ⟨c, y⟩ <;> rcases y' with - | ⟨c', y'⟩ <;> simp [ha]
  | [s, a] => simp [hb]
  | s :: a :: b :: v => simp

theorem clean_blockComment (h : EndsPlain a) (hslash : a.getLast? ≠ some '/')
    (hx : IsCommentBody x) (hy : IsCommentBody y) :
    clean (a ++ blockComment x ++ b) = clean (a ++ blockComment y ++ b) := by
  rw [clean, clean, stripComments_blockComment h hslash hx, stripComments_blockComment h hslash hy]

theorem literalLength?_of_closed (hx : ∀ c ∈ x, c ≠ '\'' ∧ c ≠ '\\') (hb : b.head? ≠ some '\'') :
    literalLength? (x ++ ['\''] ++ b) = some (x ++ ['\'']).length := by
  induction x with
  | nil => exact literalLength?_of_head hb
  | cons c x ih =>
      obtain ⟨hc, hrest⟩ := List.forall_mem_cons.1 hx
      rw [List.cons_append, List.cons_append, literalLength?_cons hc, ih hrest]
      rfl

theorem clean_literal (h : EndsPlain a) (hx : ∀ c ∈ x, c ≠ '\'' ∧ c ≠ '\\')
    (hy : ∀ c ∈ y, c ≠ '\'' ∧ c ≠ '\\') (hquote : (stripComments a).getLast? ≠ some '\'')
    (has : ¬ EndsInAs (stripComments a)) (hb : (stripComments b).head? ≠ some '\'') :
    clean (a ++ literal x ++ b) = clean (a ++ literal y ++ b) := by
  obtain ⟨p, -, hp⟩ := (closed_stripComments h).exists_stripLiteralsFrom []
  have hbody : followsAs ((stripComments a).reverse ++ []) = false := by
    rwa [List.append_nil, Bool.eq_false_iff, Ne, followsAs_reverse_iff]
  have hclean (z : List Char) (hz : ∀ c ∈ z, c ≠ '\'' ∧ c ≠ '\\') :
      clean (a ++ literal z ++ b) = p ++ ('\'' :: '\'' ::
        stripLiteralsFrom 0 true ('\'' :: (z.reverse ++ '\'' :: (stripComments a).reverse))
          (stripComments b)) := by
    have htext : a ++ literal z ++ b = a ++ '\'' :: (z ++ '\'' :: b) := by simp [literal]
    have hread := stripLiteralsFrom_literal (literalLength?_of_closed hz hb) true
      ((stripComments a).reverse ++ [])
    have hrest : z ++ '\'' :: stripComments b = z ++ ['\''] ++ stripComments b := by simp
    rw [htext, clean, stripLiterals, stripComments_literal h hz,
      hp _ (fun hl => absurd hl hquote), hrest, hread, literalImage, hbody]
    simp
  rw [hclean x hx, hclean y hy]
  congr 3
  apply stripLiteralsFrom_congr
  intro w v _
  exact followsAs_append_quote _ _ _

end Sql

namespace Dependency

open Sql

theorem inferred_of_clean_eq (s : Script) (pool : List Script) {content content' : String}
    (h : clean content.toList = clean content'.toList) :
    inferred { s with content := content } pool = inferred { s with content := content' } pool := by
  simp only [inferred, h]
  rfl

/-- The dependencies of a script stay the same when the inside of a block comment changes, and when
the text of a literal changes that is no body of a routine and that no other literal touches. -/
theorem inferred_of_hidden (s : Script) (pool : List Script) :
    (∀ a x y b : List Char, EndsPlain a → a.getLast? ≠ some '/' → IsCommentBody x →
      IsCommentBody y →
      inferred { s with content := String.ofList (a ++ blockComment x ++ b) } pool =
        inferred { s with content := String.ofList (a ++ blockComment y ++ b) } pool) ∧
    (∀ a x y b : List Char, EndsPlain a → (∀ c ∈ x, c ≠ '\'' ∧ c ≠ '\\') →
      (∀ c ∈ y, c ≠ '\'' ∧ c ≠ '\\') → (stripComments a).getLast? ≠ some '\'' →
      ¬ EndsInAs (stripComments a) → (stripComments b).head? ≠ some '\'' →
      inferred { s with content := String.ofList (a ++ literal x ++ b) } pool =
        inferred { s with content := String.ofList (a ++ literal y ++ b) } pool) := by
  constructor
  · intro a x y b ha hslash hx hy
    apply inferred_of_clean_eq
    rw [String.toList_ofList, String.toList_ofList]
    exact clean_blockComment ha hslash hx hy
  · intro a x y b ha hx hy hquote has hb
    apply inferred_of_clean_eq
    rw [String.toList_ofList, String.toList_ofList]
    exact clean_literal ha hx hy hquote has hb

theorem inferred_of_hidden_view :
    let s := Script.state "DB" "S" .view "TOP" ""
    let pool := [Script.state "DB" "S" .view "A" "", Script.state "DB" "S" .view "B" "",
      Script.state "DB" "S" .view "C" ""]
    let a := "CREATE VIEW TOP AS SELECT ".toList
    let b := " FROM C -- not A".toList
    inferred { s with content := String.ofList (a ++ blockComment " FROM A '".toList ++ b) } pool =
        inferred { s with content := String.ofList (a ++ blockComment "* /".toList ++ b) } pool ∧
      inferred { s with content := String.ofList (a ++ literal " FROM B ".toList ++ b) } pool =
        inferred { s with content := String.ofList (a ++ literal "/*".toList ++ b) } pool ∧
      inferred { s with content := String.ofList (a ++ literal "/*".toList ++ b) } pool = [2] := by
  intro s pool a b
  obtain ⟨hcomment, hliteral⟩ := inferred_of_hidden s pool
  have ha : EndsPlain a := by decide +kernel
  have has : ¬ EndsInAs (stripComments a) := by
    rw [← followsAs_reverse_iff]
    decide +kernel
  have hplain (x : List Char) (hx : x.all (fun c => c != '\'' && c != '\\') = true) :
      ∀ c ∈ x, c ≠ '\'' ∧ c ≠ '\\' := by
    simpa using hx
  refine ⟨hcomment a _ _ b ha (by decide +kernel) (by decide +kernel) (by decide +kernel),
    hliteral a _ _ b ha (hplain _ (by decide +kernel)) (hplain _ (by decide +kernel))
      (by decide +kernel) has (by decide +kernel), ?_⟩
  decide +kernel

end Dependency

end SchemaDeploy
