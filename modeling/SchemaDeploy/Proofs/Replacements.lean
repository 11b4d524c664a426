import SchemaDeploy.Parameters
import SchemaDeploy.Proofs.SpelledReferences

namespace SchemaDeploy

namespace Text

theorem toLower_eq_iff {c d : Char} (hd : d.isAlpha = false) : c.toLower = d ↔ c = d := by
  by_cases hu : c.isUpper
  · have ha : c.toLower.isAlpha = true := by
      rw [Char.isAlpha_toLower_eq_isAlpha, Char.isAlpha, hu, Bool.true_or]
    constructor
    · rintro rfl
      rw [hd] at ha
      cases ha
    · rintro rfl
      rw [Char.isAlpha, hu, Bool.true_or] at hd
      cases hd
  · rw [Char.toLower_eq_of_not_isUpper hu]

theorem same_refl (t : List Char) : same t t = true :=
  beq_self_eq_true _

theorem same_symm {s t : List Char} (h : same s t = true) : same t s = true :=
  beq_iff_eq.2 (eq_of_beq h).symm

theorem same_trans {s t u : List Char} (h : same s t = true) (h' : same t u = true) :
    same s u = true :=
  beq_iff_eq.2 ((eq_of_beq h).trans (eq_of_beq h'))

theorem same_append {a b a' b' : List Char} (ha : same a a' = true) (hb : same b b' = true) :
    same (a ++ b) (a' ++ b') = true := by
  rw [same, List.map_append, List.map_append, eq_of_beq ha, eq_of_beq hb, beq_self_eq_true]

theorem same_congr {s t : List Char} (h : same s t = true) (u : List Char) :
    same u s = same u t := by
  rw [same, same, eq_of_beq h]

theorem exists_of_dropSame? {needle t r : List Char} (h : dropSame? needle t = some r) :
    ∃ m, t = m ++ r ∧ same m needle = true := by
  induction needle generalizing t with
  | nil =>
      cases h
      exact ⟨[], rfl, rfl⟩
  | cons a needle ih =>
      cases t with
      | nil => cases h
      | cons c t =>
          simp only [dropSame?] at h
          split at h
          · next hac =>
            obtain ⟨m, rfl, hm⟩ := ih h
            refine ⟨c :: m, rfl, ?_⟩
            rw [same, List.map_cons, List.map_cons, eq_of_beq hm, ← eq_of_beq hac,
              beq_self_eq_true]
          · cases h

theorem length_eq_of_same {s t : List Char} (h : same s t = true) : s.length = t.length := by
  simpa using congrArg List.length (eq_of_beq h)

theorem same_nil {t : List Char} (h : t ≠ []) : same t [] = false := by
  cases t with
  | nil => exact absurd rfl h
  | cons a t => rfl

theorem same_eq_false_of_dropSame? {needle t : List Char} (h : dropSame? needle t = none) :
    same needle t = false := by
  rw [Bool.eq_false_iff]
  intro hs
  have hfull := Sql.dropSame?_append (same_symm hs) []
  rw [List.append_nil, h] at hfull
  cases hfull

theorem dropSame?_append_cons {needle : List Char} {c : Char}
    (hc : ∀ a ∈ needle, sameLetter a c = false) (t u : List Char) :
    dropSame? needle (t ++ c :: u) = (dropSame? needle t).map (· ++ c :: u) := by
  induction needle generalizing t with
  | nil => rfl
  | cons a needle ih =>
      obtain ⟨ha, hneedle⟩ := List.forall_mem_cons.1 hc
      cases t with
      | nil => simp [dropSame?, ha]
      | cons d t =>
          rw [List.cons_append, dropSame?, dropSame?, ih hneedle]
          split <;> rfl

theorem mem_of_same {s t : List Char} (h : same s t = true) {c : Char} (hc : c.isAlpha = false)
    (hmem : c ∈ s) : c ∈ t := by
  have hlower : c.toLower = c := (toLower_eq_iff hc).2 rfl
  have hmap : c ∈ t.map Char.toLower := by
    rw [← eq_of_beq h, ← hlower]
    exact List.mem_map_of_mem hmem
  obtain ⟨d, hd, hdc⟩ := List.mem_map.1 hmap
  rwa [← (toLower_eq_iff hc).1 hdc]

theorem eq_of_append_cons {a b u v : List Char} {c : Char} (ha : c ∉ a) (hb : c ∉ b)
    (h : a ++ c :: u = b ++ c :: v) : a = b := by
  have htake {x : List Char} (hx : c ∉ x) (y : List Char) :
      (x ++ c :: y).takeWhile (· ≠ c) = x := by
    rw [List.takeWhile_append_of_pos fun d hd => by simpa using fun he : d = c => hx (he ▸ hd)]
    simp
  rw [← htake ha u, h, htake hb v]

def Occurs (value t : List Char) : Prop :=
  ∃ a m b, t = a ++ (m ++ b) ∧ same m value = true

theorem occurs_iff {value t : List Char} :
    Occurs value t ↔ ∃ i < t.length + 1, (dropSame? value (t.drop i)).isSome = true := by
  constructor
  · rintro ⟨a, m, b, rfl, hm⟩
    refine ⟨a.length, by simp, ?_⟩
    rw [List.drop_left, Sql.dropSame?_append hm, Option.isSome_some]
  · rintro ⟨i, -, hi⟩
    obtain ⟨rest, hd⟩ := Option.isSome_iff_exists.1 hi
    obtain ⟨m, hm, hms⟩ := exists_of_dropSame? hd
    exact ⟨t.take i, m, rest, by rw [← hm, List.take_append_drop], hms⟩

instance (value t : List Char) : Decidable (Occurs value t) :=
  decidable_of_iff _ occurs_iff.symm

section Replace

variable {accept : Option Char → Option Char → Bool} {needle image m u : List Char} {c : Char}
  {before : Option Char}

theorem getLast?_cons_or (c : Char) (t : List Char) (before : Option Char) :
    (c :: t).getLast?.or before = t.getLast?.or (some c) := by
  cases t <;> simp [List.getLast?_cons]

theorem replaceFrom_append_of_dropSame? (hdrop : ∀ d t, dropSame? needle (d :: t ++ c :: u) =
      (dropSame? needle (d :: t)).map (· ++ c :: u))
    (hend : ∀ before, accept before (some c) = accept before none) (t : List Char) (skip : Nat)
    (before : Option Char) (hskip : skip ≤ t.length) :
    replaceFrom accept needle image skip before (t ++ c :: u) =
      replaceFrom accept needle image skip before t ++
        replaceFrom accept needle image 0 (t.getLast?.or before) (c :: u) := by
  induction t generalizing skip before with
  | nil =>
      cases Nat.le_zero.1 hskip
      rfl
  | cons d t ih =>
      rw [getLast?_cons_or]
      cases skip with
      | succ skip =>
          rw [List.cons_append, replaceFrom, replaceFrom]
          exact ih skip (some d) (Nat.le_of_succ_le_succ hskip)
      | zero =>
          have hd := hdrop d t
          rw [List.cons_append] at hd
          rw [List.cons_append, replaceFrom, replaceFrom, hd]
          cases hm : dropSame? needle (d :: t) with
          | none => exact congrArg (d :: ·) (ih 0 (some d) (Nat.zero_le _))
          | some rest =>
              have hlength := length_of_dropSame? hm
              rw [List.length_cons] at hlength
              have hhead : accept before (rest ++ c :: u).head? = accept before rest.head? := by
                cases rest with
                | nil => exact hend before
                | cons x rest => rfl
              simp only [Option.map_some, hhead]
              split
              · rw [ih (needle.length - 1) (some d) (by omega), List.append_assoc]
              · exact congrArg (d :: ·) (ih 0 (some d) (Nat.zero_le _))

theorem replaceFrom_append_cons (hc : ∀ a ∈ needle, sameLetter a c = false)
    (hend : ∀ before, accept before (some c) = accept before none) (t u : List Char) (skip : Nat)
    (before : Option Char) (hskip : skip ≤ t.length) :
    replaceFrom accept needle image skip before (t ++ c :: u) =
      replaceFrom accept needle image skip before t ++
        c :: replaceFrom accept needle image 0 (some c) u := by
  rw [replaceFrom_append_of_dropSame? (fun d t => dropSame?_append_cons hc (d :: t) u) hend t skip
    before hskip]
  congr 1
  cases needle with
  | nil => simp [replaceFrom, dropSame?]
  | cons a needle => simp [replaceFrom, dropSame?, hc a List.mem_cons_self]

theorem replaceFrom_some {b : Char} (h : ∀ after, accept (some b) after = accept none after)
    (t : List Char) : replaceFrom accept needle image 0 (some b) t =
      replaceFrom accept needle image 0 none t := by
  cases t with
  | nil => rfl
  | cons d t => simp only [replaceFrom, h]

theorem replaceFrom_length (t : List Char) (before : Option Char) :
    replaceFrom accept needle image t.length before t = [] := by
  induction t generalizing before with
  | nil => rfl
  | cons d t ih => exact ih (some d)

theorem mem_replaceFrom {t : List Char} {skip : Nat} {before : Option Char} {d : Char}
    (h : d ∈ replaceFrom accept needle image skip before t) : d ∈ t ∨ d ∈ image := by
  induction t generalizing skip before with
  | nil => cases skip <;> cases h
  | cons c t ih =>
      have htail {skip : Nat} (hd : d ∈ replaceFrom accept needle image skip (some c) t) :
          d ∈ c :: t ∨ d ∈ image :=
        (ih hd).imp_left (List.mem_cons_of_mem c)
      have hcons (hd : d ∈ c :: replaceFrom accept needle image 0 (some c) t) :
          d ∈ c :: t ∨ d ∈ image := by
        rcases List.mem_cons.1 hd with rfl | hd
        · exact .inl List.mem_cons_self
        · exact htail hd
      cases skip with
      | succ skip => exact htail h
      | zero =>
          simp only [replaceFrom] at h
          split at h
          · exact hcons h
          · split at h
            · rcases List.mem_append.1 h with h | h
              · exact .inr h
              · exact htail h
            · exact hcons h

theorem replaceFrom_length_append (m u : List Char) (before : Option Char) :
    replaceFrom accept needle image m.length before (m ++ u) =
      replaceFrom accept needle image 0 (m.getLast?.or before) u := by
  induction m generalizing before with
  | nil => rfl
  | cons c m ih =>
      rw [getLast?_cons_or]
      exact ih (some c)

/-- What a replacement can do at a character: it keeps the character, or it puts the image in for an
accepted match that begins there. -/
theorem replaceFrom_cons_cases (accept : Option Char → Option Char → Bool)
    (needle image : List Char) (before : Option Char) (c : Char) (t : List Char) :
    (replaceFrom accept needle image 0 before (c :: t) =
        c :: replaceFrom accept needle image 0 (some c) t ∧
      ∀ rest, needle ≠ [] → dropSame? needle (c :: t) = some rest →
        accept before rest.head? = false) ∨
    ∃ m rest, c :: t = m ++ rest ∧ m ≠ [] ∧ same m needle = true ∧
      accept before rest.head? = true ∧
      replaceFrom accept needle image 0 before (c :: t) =
        image ++ replaceFrom accept needle image 0 m.getLast? rest := by
  cases hd : dropSame? needle (c :: t) with
  | none => exact .inl ⟨by simp only [replaceFrom, hd], fun _ _ h => absurd h (by simp)⟩
  | some rest =>
      by_cases ha : needle ≠ [] ∧ accept before rest.head? = true
      · obtain ⟨m, hm, hms⟩ := exists_of_dropSame? hd
        have hlength := length_eq_of_same hms
        cases m with
        | nil => exact absurd (List.eq_nil_of_length_eq_zero hlength.symm) ha.1
        | cons d m =>
            obtain ⟨rfl, rfl⟩ : c = d ∧ t = m ++ rest := List.cons.inj hm
            refine .inr ⟨c :: m, rest, rfl, List.cons_ne_nil _ _, hms, ha.2, ?_⟩
            have hskip : needle.length - 1 = m.length := by
              rw [← hlength, List.length_cons, Nat.add_sub_cancel]
            have hlast := getLast?_cons_or c m none
            rw [Option.or_none] at hlast
            simp only [replaceFrom, hd, if_pos ha, hskip, hlast]
            rw [replaceFrom_length_append]
      · refine .inl ⟨by simp only [replaceFrom, hd, if_neg ha], fun r hne hr => ?_⟩
        cases hr
        simpa [hne] using ha

theorem replaceFrom_append {k : List Char} (h : ∀ a c b rest, k = a ++ c :: b →
      dropSame? needle (c :: (b ++ u)) = some rest → accept (a.getLast?.or before) rest.head? = false) :
    replaceFrom accept needle image 0 before (k ++ u) =
      k ++ replaceFrom accept needle image 0 (k.getLast?.or before) u := by
  induction k generalizing before with
  | nil => rfl
  | cons c k ih =>
      have htail : replaceFrom accept needle image 0 (some c) (k ++ u) =
          k ++ replaceFrom accept needle image 0 ((c :: k).getLast?.or before) u := by
        rw [getLast?_cons_or]
        refine ih fun a d b rest hk hd => ?_
        rw [← getLast?_cons_or c a before]
        exact h (c :: a) d b rest (congrArg (c :: ·) hk) hd
      rw [List.cons_append, List.cons_append, ← htail]
      rcases replaceFrom_cons_cases accept needle image before c (k ++ u) with
        ⟨hkeep, -⟩ | ⟨m, rest, hm, -, hms, ha, -⟩
      · exact hkeep
      · have hd : dropSame? needle (c :: (k ++ u)) = some rest := by
          rw [hm]
          exact Sql.dropSame?_append hms rest
        have hrefused := h [] c k rest rfl hd
        rw [List.getLast?_nil, Option.none_or, ha] at hrefused
        cases hrefused

theorem replaceFrom_of_match (hne : needle ≠ []) (hm : same m needle = true)
    (ha : accept before u.head? = true) :
    replaceFrom accept needle image 0 before (m ++ u) =
      image ++ replaceFrom accept needle image 0 m.getLast? u := by
  have hd := Sql.dropSame?_append hm u
  have hlength := length_eq_of_same hm
  cases m with
  | nil => exact absurd (List.eq_nil_of_length_eq_zero hlength.symm) hne
  | cons c m =>
      have hskip : needle.length - 1 = m.length := by
        rw [← hlength, List.length_cons, Nat.add_sub_cancel]
      have hlast := getLast?_cons_or c m none
      rw [Option.or_none] at hlast
      rw [List.cons_append] at hd ⊢
      simp only [replaceFrom, hd, if_pos (And.intro hne ha), hskip, hlast]
      rw [replaceFrom_length_append]

theorem replaceFrom_nil_needle (accept : Option Char → Option Char → Bool) (image : List Char)
    (before : Option Char) (t : List Char) : replaceFrom accept [] image 0 before t = t := by
  induction t generalizing before with
  | nil => rfl
  | cons c t ih => simp only [replaceFrom, dropSame?, ne_eq, not_true, false_and, if_false, ih]

end Replace

end Text

namespace Parameters

open Text

variable {value image : List Char}

theorem replaceFrom_anywhere (before : Option Char) (t : List Char) :
    replaceFrom anywhere value image 0 before t = replaceSame anywhere value image t := by
  cases before with
  | none => rfl
  | some b => exact replaceFrom_some (fun _ => rfl) t

theorem replaceSame_cons_of_none {c : Char} {t : List Char} (h : dropSame? value (c :: t) = none) :
    replaceSame anywhere value image (c :: t) = c :: replaceSame anywhere value image t := by
  simp only [replaceSame, replaceFrom, h]
  rw [replaceFrom_anywhere, replaceSame]

theorem replaceSame_anywhere (image : List Char) (hv : value ≠ []) (t : List Char) :
    (replaceSame anywhere value image t = t ∧ ¬ Occurs value t) ∨
      ∃ a m b, t = a ++ (m ++ b) ∧ same m value = true ∧
        replaceSame anywhere value image t = a ++ (image ++ replaceSame anywhere value image b) := by
  induction t with
  | nil =>
      refine .inl ⟨rfl, ?_⟩
      rintro ⟨a, m, b, ht, hm⟩
      obtain ⟨-, hmb⟩ := List.append_eq_nil_iff.1 ht.symm
      obtain ⟨rfl, -⟩ := List.append_eq_nil_iff.1 hmb
      exact hv (List.eq_nil_of_length_eq_zero (length_eq_of_same hm).symm)
  | cons c t ih =>
      rcases replaceFrom_cons_cases anywhere value image none c t with
        ⟨hkeep, hnone⟩ | ⟨m, rest, hm, -, hms, -, hput⟩
      · rw [replaceSame, hkeep, replaceFrom_anywhere]
        rcases ih with ⟨hstay, hnot⟩ | ⟨a, m, b, rfl, hm, hstep⟩
        · refine .inl ⟨by rw [hstay], ?_⟩
          rintro ⟨a, m, b, ht, hm⟩
          cases a with
          | nil =>
              have hd : dropSame? value (c :: t) = some b := by
                rw [ht]
                exact Sql.dropSame?_append hm b
              exact absurd (hnone b hv hd) (by simp [anywhere])
          | cons d a => exact hnot ⟨a, m, b, (List.cons.inj ht).2, hm⟩
        · exact .inr ⟨c :: a, m, b, rfl, hm, by rw [hstep, List.cons_append]⟩
      · exact .inr ⟨[], m, rest, hm, hms, by rw [replaceSame, hput, replaceFrom_anywhere]; rfl⟩

end Parameters

end SchemaDeploy
