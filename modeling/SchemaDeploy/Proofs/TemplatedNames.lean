import SchemaDeploy.Proofs.Placeholders

namespace SchemaDeploy

namespace Text

theorem upperChar_of_upper_eq {t : List Char} (h : upper t = t) : ∀ c ∈ t, upperChar c = [c] := by
  induction t with
  | nil => simp
  | cons c t ih =>
      have hlength := length_le_upper t
      rw [upper, List.flatMap_cons] at h
      rw [upper] at hlength
      obtain ⟨d, hd⟩ : ∃ d, upperChar c = [d] := by
        have htotal := congrArg List.length h
        have hpos := List.length_pos_iff.2 (upperChar_ne_nil c)
        rw [List.length_append, List.length_cons] at htotal
        exact List.length_eq_one_iff.1 (by omega)
      rw [hd, List.singleton_append, List.cons.injEq] at h
      obtain ⟨rfl, ht⟩ := h
      exact List.forall_mem_cons.2 ⟨hd, ih ht⟩

theorem same_upper_of_forall {t : List Char} (h : ∀ c ∈ t, same (upperChar c) [c] = true) :
    same (upper t) t = true := by
  induction t with
  | nil => rfl
  | cons c t ih =>
      obtain ⟨hc, ht⟩ := List.forall_mem_cons.1 h
      rw [upper, List.flatMap_cons]
      exact same_append hc (ih ht)

theorem same_upperChar_of_ascii {c : Char} (h : c.toNat < 128) : same (upperChar c) [c] = true := by
  rw [upperChar, if_pos h, same, beq_iff_eq]
  exact congrArg (fun d => [d]) (Char.toLower_toUpper_eq_toLower c)

theorem isSome_dropSame?_of_same (needle : List Char) {s t : List Char} (h : same s t = true) :
    (dropSame? needle s).isSome = (dropSame? needle t).isSome := by
  induction needle generalizing s t with
  | nil => rfl
  | cons a needle ih =>
      have he := eq_of_beq h
      cases s with
      | nil => rw [List.map_eq_nil_iff.1 he.symm]
      | cons c s =>
          obtain ⟨d, t, rfl, hd, ht⟩ := List.map_eq_cons_iff.1 he.symm
          rw [dropSame?, dropSame?, sameLetter, sameLetter, hd]
          split
          · exact ih (beq_iff_eq.2 ht.symm)
          · rfl

end Text

namespace Parameters

open Text Sql

section Passes

variable {value image needle : List Char}

theorem not_sameLetter_of_not_mem {c : Char} (hc : c.isAlpha = false) (h : c ∉ needle) :
    ∀ a ∈ needle, sameLetter a c = false := by
  intro a ha
  rw [sameLetter, beq_eq_false_iff_ne, (toLower_eq_iff hc).2 rfl, Ne, toLower_eq_iff hc]
  rintro rfl
  exact h ha

theorem replaceSame_append_cons (image : List Char) {c : Char} (hc : c.isAlpha = false)
    (hv : c ∉ value) (t u : List Char) :
    replaceSame anywhere value image (t ++ c :: u) =
      replaceSame anywhere value image t ++ c :: replaceSame anywhere value image u := by
  rw [replaceSame, replaceFrom_append_cons (not_sameLetter_of_not_mem hc hv) (fun _ => rfl) t u 0
    none (Nat.zero_le _), replaceFrom_anywhere none t, replaceFrom_anywhere (some c) u]

theorem same_replaceFrom {s t : List Char} (h : same s t = true) (skip : Nat)
    (before before' : Option Char) :
    same (replaceFrom anywhere value image skip before s)
      (replaceFrom anywhere value image skip before' t) = true := by
  induction s generalizing t skip before before' with
  | nil =>
      rw [List.map_eq_nil_iff.1 (eq_of_beq h).symm]
      cases skip <;> rfl
  | cons c s ih =>
      obtain ⟨d, t, rfl, hd, ht⟩ := List.map_eq_cons_iff.1 (eq_of_beq h).symm
      have hst : same s t = true := beq_iff_eq.2 ht.symm
      cases skip with
      | succ skip => exact ih hst skip _ _
      | zero =>
          have hhead : same [c] [d] = true := beq_iff_eq.2 (congrArg ([·]) hd.symm)
          have hkeep : same (c :: replaceFrom anywhere value image 0 (some c) s)
              (d :: replaceFrom anywhere value image 0 (some d) t) = true :=
            same_append hhead (ih hst 0 _ _)
          have hsome := isSome_dropSame?_of_same value h
          cases hs : dropSame? value (c :: s) with
          | none =>
              rw [hs, Option.isSome_none, eq_comm, Option.isSome_eq_false_iff,
                Option.isNone_iff_eq_none] at hsome
              simp only [replaceFrom, hs, hsome]
              exact hkeep
          | some r =>
              rw [hs, Option.isSome_some, eq_comm, Option.isSome_iff_exists] at hsome
              obtain ⟨r', hr'⟩ := hsome
              simp only [replaceFrom, hs, hr', anywhere]
              split
              · exact same_append (same_refl _) (ih hst _ _ _)
              · exact hkeep

theorem same_injectChars {s t : List Char} (ps : Parameters) (h : same s t = true) :
    same (ps.injectChars s) (ps.injectChars t) = true := by
  rw [injectChars, injectChars]
  generalize ps.entries = es
  induction es generalizing s t with
  | nil => exact h
  | cons p es ih => exact ih (same_replaceFrom h 0 none none)

end Passes

/-- The passes that put in the placeholders of some parameters, one after the other. -/
def named (es : List (String × String)) (t : List Char) : List Char :=
  es.foldl (fun t p => replaceSame anywhere p.2.toList (placeholder p.1) t) t

/-- No pass puts in a placeholder in whose name a later value occurs. -/
def KeepsApart : List (String × String) → List Char → Prop
  | [], _ => True
  | p :: es, t =>
    (Occurs p.2.toList t → ∀ q ∈ es, ¬ Occurs q.2.toList p.1.toList) ∧
      KeepsApart es (replaceSame anywhere p.2.toList (placeholder p.1) t)

instance decidableKeepsApart : (es : List (String × String)) → (t : List Char) →
    Decidable (KeepsApart es t)
  | [], _ => inferInstanceAs (Decidable True)
  | p :: es, t =>
    have := decidableKeepsApart es (replaceSame anywhere p.2.toList (placeholder p.1) t)
    inferInstanceAs (Decidable (_ ∧ _))

def AreValues (es : List (String × String)) : Prop :=
  ∀ p ∈ es, p.2.toList ≠ [] ∧ IsUnmarked p.2.toList

variable {es done : List (String × String)} {p q : String × String} {t x : List Char}

section Restored

theorem spares_anywhere (hne : q.2.toList ≠ []) (hq : IsUnmarked q.2.toList)
    (h : ¬ Occurs q.2.toList p.1.toList) : Spares anywhere q p := by
  intro before u
  have hstay : replaceSame anywhere q.2.toList (placeholder q.1) p.1.toList = p.1.toList := by
    rcases replaceSame_anywhere (placeholder q.1) hne p.1.toList with
      ⟨hstay, -⟩ | ⟨a, m, b, hsplit, hm, -⟩
    · exact hstay
    · exact absurd ⟨a, m, b, hsplit, hm⟩ h
  have hdollar := replaceSame_append_cons (placeholder q.1) (by decide) hq.1 []
    ('{' :: (p.1.toList ++ '}' :: u))
  have hbrace := replaceSame_append_cons (placeholder q.1) (by decide) hq.2.1 []
    (p.1.toList ++ '}' :: u)
  rw [List.nil_append] at hdollar hbrace
  rw [replaceFrom_anywhere, replaceFrom_anywhere, placeholder_append, placeholder_append, hdollar,
    hbrace, replaceSame_append_cons _ (by decide) hq.2.2, hstay]
  rfl

theorem stands_named {all : List (String × String)} (hdone : done ⊆ all) (hes : es ⊆ all)
    (hvalues : AreValues es)
    (hspared : ∀ p ∈ done, ∀ q ∈ es, ¬ Occurs q.2.toList p.1.toList) (hkeeps : KeepsApart es t)
    (h : Stands (StandsFor done) t x) : Stands (StandsFor all) (named es t) x := by
  induction es generalizing done t with
  | nil => exact h.mono fun p m hm => ⟨hdone hm.1, hm.2⟩
  | cons q es ih =>
      obtain ⟨hq, hes⟩ := List.cons_subset.1 hes
      obtain ⟨⟨hne, hunmarked⟩, hvalues⟩ := List.forall_mem_cons.1 hvalues
      obtain ⟨happart, hkeeps⟩ := hkeeps
      rcases replaceSame_anywhere (placeholder q.1) hne t with
        ⟨hstay, -⟩ | ⟨a, m, b, hsplit, hm, -⟩
      · rw [hstay] at hkeeps
        rw [named, List.foldl_cons, hstay]
        exact ih hdone hes hvalues (fun p hp r hr => hspared p hp r (List.mem_cons_of_mem q hr))
          hkeeps h
      · have hspares : ∀ p m, StandsFor done p m → Spares anywhere q p := fun p m hm =>
          spares_anywhere hne hunmarked (hspared p hm.1 q List.mem_cons_self)
        have hput : Stands (StandsFor (q :: done))
            (replaceSame anywhere q.2.toList (placeholder q.1) t) x :=
          h.template hunmarked.1 hspares (fun p m hm => ⟨List.mem_cons_of_mem q hm.1, hm.2⟩)
            (fun m hm => ⟨List.mem_cons_self, hm⟩) none
        refine ih (List.cons_subset.2 ⟨hq, hdone⟩) hes hvalues ?_ hkeeps hput
        refine List.forall_mem_cons.2 ⟨happart ⟨a, m, b, hsplit, hm⟩, fun p hp r hr => ?_⟩
        exact hspared p hp r (List.mem_cons_of_mem q hr)

end Restored

section Stuck

theorem named_append_cons {c : Char} (hc : c.isAlpha = false)
    (hvalues : ∀ p ∈ es, c ∉ p.2.toList) (t u : List Char) :
    named es (t ++ c :: u) = named es t ++ c :: named es u := by
  induction es generalizing t u with
  | nil => rfl
  | cons p es ih =>
      obtain ⟨hp, hes⟩ := List.forall_mem_cons.1 hvalues
      rw [named, List.foldl_cons, replaceSame_append_cons _ hc hp]
      exact ih hes _ _

theorem named_nil (es : List (String × String)) : named es [] = [] := by
  induction es with
  | nil => rfl
  | cons p es ih => exact ih

theorem named_cons {c : Char} (hc : c.isAlpha = false) (hvalues : ∀ p ∈ es, c ∉ p.2.toList)
    (u : List Char) : named es (c :: u) = c :: named es u := by
  have h := named_append_cons hc hvalues [] u
  rwa [named_nil, List.nil_append, List.nil_append] at h

theorem named_braces (hvalues : AreValues es) (a m b : List Char) :
    named es (a ++ '$' :: '{' :: (m ++ '}' :: b)) =
      named es a ++ '$' :: '{' :: (named es m ++ '}' :: named es b) := by
  rw [named_append_cons (by decide) fun p hp => (hvalues p hp).2.1,
    named_cons (by decide) fun p hp => (hvalues p hp).2.2.1,
    named_append_cons (by decide) fun p hp => (hvalues p hp).2.2.2]

theorem dollar_mem_named (hvalues : AreValues es) (h : '$' ∈ t ∨ ∃ q ∈ es, Occurs q.2.toList t) :
    '$' ∈ named es t := by
  induction es generalizing t with
  | nil => simpa [named] using h
  | cons p es ih =>
      obtain ⟨⟨hne, hunmarked⟩, hvalues⟩ := List.forall_mem_cons.1 hvalues
      refine ih hvalues ?_
      dsimp only
      rcases replaceSame_anywhere (placeholder p.1) hne t with
        ⟨hstay, hnot⟩ | ⟨a, m, b, -, -, hput⟩
      · rw [hstay]
        refine h.imp_right ?_
        rintro ⟨q, hq, hoccurs⟩
        rcases List.mem_cons.1 hq with rfl | hq
        · exact absurd hoccurs hnot
        · exact ⟨q, hq, hoccurs⟩
      · left
        rw [hput, placeholder_append]
        simp

theorem KeepsApart.name (hvalues : AreValues es) {a n b : List Char}
    (h : KeepsApart es (a ++ '{' :: (n ++ '}' :: b))) : KeepsApart es n := by
  induction es generalizing a n b with
  | nil => trivial
  | cons p es ih =>
      obtain ⟨⟨-, hunmarked⟩, hvalues⟩ := List.forall_mem_cons.1 hvalues
      obtain ⟨happart, hkeeps⟩ := h
      refine ⟨fun hoccurs => happart ?_, ?_⟩
      · obtain ⟨a', m, b', rfl, hm⟩ := hoccurs
        exact ⟨a ++ '{' :: a', m, b' ++ '}' :: b, by simp, hm⟩
      · rw [replaceSame_append_cons _ (by decide) hunmarked.2.1,
          replaceSame_append_cons _ (by decide) hunmarked.2.2] at hkeeps
        exact ih hvalues hkeeps

theorem exists_clash (h : ¬ KeepsApart es t) : ∃ before p after, es = before ++ p :: after ∧
    Occurs p.2.toList (named before t) ∧ (∃ q ∈ after, Occurs q.2.toList p.1.toList) ∧
    KeepsApart after (replaceSame anywhere p.2.toList (placeholder p.1) (named before t)) := by
  induction es generalizing t with
  | nil => exact absurd trivial h
  | cons p es ih =>
      by_cases hrest : KeepsApart es (replaceSame anywhere p.2.toList (placeholder p.1) t)
      · have hclash : ¬ (Occurs p.2.toList t → ∀ q ∈ es, ¬ Occurs q.2.toList p.1.toList) :=
          fun happart => h ⟨happart, hrest⟩
        push Not at hclash
        exact ⟨[], p, es, rfl, hclash.1, hclash.2, hrest⟩
      · obtain ⟨before, q, after, rfl, hq⟩ := ih hrest
        exact ⟨p :: before, q, after, rfl, hq⟩

variable {V : String × String → List Char → Prop} {w n u : List Char}

theorem replaceSame_append_dollar (hq : '$' ∉ q.1.toList) (image t u : List Char) :
    replaceSame anywhere (placeholder q.1) image (t ++ '$' :: u) =
      replaceSame anywhere (placeholder q.1) image t ++
        replaceSame anywhere (placeholder q.1) image ('$' :: u) := by
  have htail : '$' ∉ '{' :: (q.1.toList ++ ['}']) := by simp [hq]
  rw [replaceSame, replaceFrom_append_of_dropSame? (fun d t => ?_) (fun _ => rfl) t 0 none
    (Nat.zero_le _), replaceFrom_anywhere]
  · rfl
  · rw [placeholder_eq, List.cons_append, dropSame?, dropSame?,
      dropSame?_append_cons (not_sameLetter_of_not_mem (by decide) htail)]
    split <;> rfl

theorem replaceSame_placeholder_cons {c : Char} (hc : c ≠ '$') (image t : List Char) :
    replaceSame anywhere (placeholder q.1) image (c :: t) =
      c :: replaceSame anywhere (placeholder q.1) image t := by
  refine replaceSame_cons_of_none (Option.eq_none_iff_forall_ne_some.2 fun r hr => ?_)
  obtain ⟨w, hw, -⟩ := exists_of_dropSame?_placeholder hr
  exact hc (List.cons.inj hw).1

namespace Stands

/-- A stretch that stands for a text without dollar signs ends outside its placeholders, so a pass
goes on afresh behind it. -/
theorem replaceSame_append (h : Stands V w n) (hn : '$' ∉ n)
    (hname : ∀ p m, V p m → IsUnmarked p.1.toList) (hq : IsUnmarked q.1.toList)
    (image u : List Char) :
    replaceSame anywhere (placeholder q.1) image (w ++ u) =
      replaceSame anywhere (placeholder q.1) image w ++
        replaceSame anywhere (placeholder q.1) image u := by
  induction h with
  | nil => rfl
  | char c _ ih =>
      rw [List.mem_cons, not_or] at hn
      rw [List.cons_append, replaceSame_placeholder_cons (Ne.symm hn.1),
        replaceSame_placeholder_cons (Ne.symm hn.1), ih hn.2, List.cons_append]
  | @slot p m t x hm _ ih =>
      rw [List.mem_append, not_or] at hn
      rw [List.append_assoc]
      cases hs : same p.1.toList q.1.toList with
      | true =>
          rw [replaceSame_placeholder_of_same hs, replaceSame_placeholder_of_same hs, ih hn.2,
            List.append_assoc]
      | false =>
          rw [replaceSame_placeholder_of_ne hq (hname p m hm) hs,
            replaceSame_placeholder_of_ne hq (hname p m hm) hs, ih hn.2, List.append_assoc]

theorem replaceSame_eq (h : Stands V w n) (hn : '$' ∉ n)
    (hname : ∀ p m, V p m → IsUnmarked p.1.toList) (hq : IsUnmarked q.1.toList)
    (hne : ∀ p m, V p m → same p.1.toList q.1.toList = false) (image : List Char) :
    replaceSame anywhere (placeholder q.1) image w = w := by
  induction h with
  | nil => rfl
  | char c _ ih =>
      rw [List.mem_cons, not_or] at hn
      rw [replaceSame_placeholder_cons (Ne.symm hn.1), ih hn.2]
  | @slot p m t x hm _ ih =>
      rw [List.mem_append, not_or] at hn
      rw [replaceSame_placeholder_of_ne hq (hname p m hm) (hne p m hm), ih hn.2]

theorem eq_of_append_brace {b r : List Char} (h : Stands V w n) (hn : IsUnmarked n)
    (hu : IsUnmarked u) (he : w ++ '}' :: b = u ++ '}' :: r) : w = u := by
  induction h generalizing u with
  | nil =>
      cases u with
      | nil => rfl
      | cons c u => exact absurd ((List.cons.inj he).1 ▸ List.mem_cons_self) hu.2.2
  | @char c t x _ ih =>
      cases u with
      | nil => exact absurd ((List.cons.inj he).1 ▸ List.mem_cons_self) hn.2.2
      | cons d u =>
          obtain ⟨rfl, htail⟩ := List.cons.inj he
          rw [ih hn.tail hu.tail htail]
  | slot =>
      rw [List.append_assoc, placeholder_append] at he
      cases u with
      | nil => exact absurd (List.cons.inj he).1 (by decide)
      | cons d u => exact absurd ((List.cons.inj he).1 ▸ List.mem_cons_self) hu.1

theorem replaceSame_braces (h : Stands V w n) (hn : IsUnmarked n)
    (hname : ∀ p m, V p m → IsUnmarked p.1.toList) (hq : IsUnmarked q.1.toList)
    (hstuck : '$' ∈ w ∨ same n q.1.toList = false) (image a b : List Char) :
    replaceSame anywhere (placeholder q.1) image (a ++ '$' :: '{' :: (w ++ '}' :: b)) =
      replaceSame anywhere (placeholder q.1) image a ++ '$' :: '{' ::
        (replaceSame anywhere (placeholder q.1) image w ++
          '}' :: replaceSame anywhere (placeholder q.1) image b) := by
  have hnone : dropSame? (placeholder q.1) ('$' :: '{' :: (w ++ '}' :: b)) = none := by
    refine Option.eq_none_iff_forall_ne_some.2 fun r hr => ?_
    obtain ⟨u, hu, hs⟩ := exists_of_dropSame?_placeholder hr
    obtain rfl : w = u :=
      h.eq_of_append_brace hn (hq.of_same hs) (List.cons.inj (List.cons.inj hu).2).2
    have hdollar : '$' ∉ w := (hq.of_same hs).1
    rw [← h.eq_of_unmarked hdollar, hs] at hstuck
    exact hstuck.elim hdollar (by simp)
  rw [replaceSame_append_dollar hq.1, replaceSame_cons_of_none hnone,
    replaceSame_placeholder_cons (by decide), h.replaceSame_append hn.1 hname hq,
    replaceSame_placeholder_cons (by decide)]

theorem exists_foldl_braces (h : Stands V w n) (hn : IsUnmarked n)
    (hname : ∀ p m, V p m → IsUnmarked p.1.toList) (hes : ∀ q ∈ es, IsUnmarked q.1.toList)
    (hne : ∀ q ∈ es, ∀ p m, V p m → same p.1.toList q.1.toList = false) (hw : '$' ∈ w)
    (a b : List Char) : ∃ a' b',
      es.foldl (fun t q => replaceSame anywhere (placeholder q.1) q.2.toList t)
        (a ++ '$' :: '{' :: (w ++ '}' :: b)) = a' ++ '$' :: '{' :: (w ++ '}' :: b') := by
  induction es generalizing a b with
  | nil => exact ⟨a, b, rfl⟩
  | cons q es ih =>
      obtain ⟨hq, hes⟩ := List.forall_mem_cons.1 hes
      obtain ⟨hqne, hne⟩ := List.forall_mem_cons.1 hne
      rw [List.foldl_cons, h.replaceSame_braces hn hname hq (.inl hw),
        h.replaceSame_eq hn.1 hname hq hqne]
      exact ih hes hne _ _

end Stands

variable {ps : Parameters}

theorem IsInvertible.eq_of_same (hps : ps.IsInvertible) (hp : p ∈ ps.entries) (hq : q ∈ ps.entries)
    (h : same p.1.toList q.1.toList = true) : p = q := by
  by_contra hne
  have hsymm : Std.Symm fun p q : String × String => sameText p.1 q.1 = false := symm_sameText _
  have hdistinct : sameText p.1 q.1 = false := hps.distinct.forall hp hq hne
  rw [sameText, h] at hdistinct
  cases hdistinct

theorem IsInvertible.dollar_mem_foldl (hps : ps.IsInvertible) {all : List (String × String)}
    (hall : all ⊆ ps.entries) (hes : es ⊆ all) (hn : IsUnmarked n)
    (hne : ∀ q ∈ es, same n q.1.toList = false)
    (h : Stands (fun p m => p ∈ all ∧ m = p.2.toList) w n) (a b : List Char) :
    '$' ∈ es.foldl (fun t q => replaceSame anywhere (placeholder q.1) q.2.toList t)
      (a ++ '$' :: '{' :: (w ++ '}' :: b)) := by
  induction es generalizing w a b with
  | nil => simp
  | cons q es ih =>
      obtain ⟨hq, hes⟩ := List.cons_subset.1 hes
      obtain ⟨hqne, hne⟩ := List.forall_mem_cons.1 hne
      have hname : ∀ p m, p ∈ all ∧ m = p.2.toList → IsUnmarked p.1.toList := fun p m hm =>
        (hps.name p (hall hm.1)).isUnmarked
      have hqname : IsUnmarked q.1.toList := (hps.name q (hall hq)).isUnmarked
      rw [List.foldl_cons, h.replaceSame_braces hn hname hqname (.inr hqne)]
      have hinject := h.inject hqname hname (fun p m hm hs => ?_) (isUnopened_of_not_mem hn.1)
      · exact ih hes hne (hinject.mono fun _ _ hm => hm.1) _ _
      · rw [hm.2, hps.eq_of_same (hall hm.1) (hall hq) hs]

theorem IsInvertible.dollar_mem_braces (hps : ps.IsInvertible) {before after : List (String × String)}
    (hsplit : ps.entries = before ++ p :: after)
    (h : Stands (fun p m => p ∈ after ∧ m = p.2.toList) w n) (hn : same n p.1.toList = true)
    (hw : '$' ∈ w) (a b : List Char) :
    '$' ∈ ps.injectChars (a ++ '$' :: '{' :: (w ++ '}' :: b)) := by
  have hname : ∀ q ∈ (before ++ [p]) ++ after, IsUnmarked q.1.toList := fun q hq =>
    (hps.name q (by rwa [hsplit, List.append_cons])).isUnmarked
  have hafter : after ⊆ ps.entries := fun q hq => by simp [hsplit, hq]
  have hunmarked : IsUnmarked n := (hname p (by simp)).of_same hn
  have hdistinct := hps.distinct
  rw [hsplit, List.append_cons, List.pairwise_append] at hdistinct
  obtain ⟨-, -, hdistinct⟩ := hdistinct
  have hforeign : ∀ q ∈ before ++ [p], ∀ r m, r ∈ after ∧ m = r.2.toList →
      same r.1.toList q.1.toList = false := fun q hq r m hr =>
    (symm_sameText (α := String × String) (·.1)).symm q r (hdistinct q hq r hr.1)
  have hown : ∀ q ∈ after, same n q.1.toList = false := by
    intro q hq
    rw [Bool.eq_false_iff]
    intro hs
    have hne := hdistinct p (by simp) q hq
    rw [sameText, same_trans (same_symm hn) hs] at hne
    cases hne
  obtain ⟨a', b', hfirst⟩ := h.exists_foldl_braces hunmarked
    (fun q m hm => hname q (List.mem_append_right _ hm.1))
    (fun q hq => hname q (List.mem_append_left _ hq)) hforeign hw a b
  rw [injectChars, hsplit, List.append_cons before, List.foldl_append, hfirst]
  exact hps.dollar_mem_foldl hafter (List.Subset.refl after) hunmarked hown h a' b'

theorem IsInvertible.dollar_mem_injectChars (hps : ps.IsInvertible)
    (hvalues : AreValues ps.entries) (h : ¬ KeepsApart ps.entries t) :
    '$' ∈ ps.injectChars (named ps.entries t) := by
  obtain ⟨before, p, after, hsplit, hoccurs, hclash, hkeeps⟩ := exists_clash h
  have hp : p ∈ ps.entries := by simp [hsplit]
  have hvalues' : AreValues after := fun q hq => hvalues q (by simp [hsplit, hq])
  rcases replaceSame_anywhere (placeholder p.1) (hvalues p hp).1 (named before t) with
    ⟨-, hnot⟩ | ⟨a, m, b, -, -, hput⟩
  · exact absurd hoccurs hnot
  rw [hput, placeholder_append] at hkeeps
  have happart : KeepsApart after p.1.toList :=
    KeepsApart.name hvalues' (a := a ++ ['$']) (by rwa [List.append_assoc])
  obtain ⟨n, hstands, hsame⟩ := (stands_named (List.nil_subset _) (List.Subset.refl after) hvalues'
    (fun q hq => absurd hq List.not_mem_nil) happart (Stands.refl p.1.toList)).exists_exact
  have hnamed : named ps.entries t = named after a ++ '$' :: '{' ::
      (named after p.1.toList ++ '}' :: named after
        (replaceSame anywhere p.2.toList (placeholder p.1) b)) := by
    rw [hsplit, named, List.foldl_append, List.foldl_cons]
    change named after (replaceSame anywhere p.2.toList (placeholder p.1) (named before t)) = _
    rw [hput, placeholder_append, named_braces hvalues']
  rw [hnamed]
  exact hps.dollar_mem_braces hsplit hstands hsame (dollar_mem_named hvalues' (.inr hclash)) _ _

theorem IsInvertible.same_inject_named_iff (hps : ps.IsInvertible)
    (hvalues : AreValues ps.entries) (ht : IsUnmarked t) :
    same (ps.injectChars (named ps.entries t)) t = true ↔ KeepsApart ps.entries t := by
  constructor
  · intro h
    by_contra hclash
    exact ht.1 (mem_of_same h (by decide) (hps.dollar_mem_injectChars hvalues hclash))
  · intro h
    refine hps.same_injectChars (isUnopened_of_not_mem ht.1) ?_
    exact stands_named (List.nil_subset _) (List.Subset.refl _) hvalues
      (fun q hq => absurd hq List.not_mem_nil) h (.refl t)

end Stuck

section Identity

variable {ps : Parameters}

theorem mem_named {c : Char} (h : c ∈ named es t) : c ∈ t ∨ ∃ p ∈ es, c ∈ placeholder p.1 := by
  induction es generalizing t with
  | nil => exact .inl h
  | cons p es ih =>
      rcases ih h with h | ⟨q, hq, hc⟩
      · exact (mem_replaceFrom h).imp_right fun hc => ⟨p, List.mem_cons_self, hc⟩
      · exact .inr ⟨q, List.mem_cons_of_mem p hq, hc⟩

theorem IsInvertible.same_upper_named (hps : ps.IsInvertible) (ht : upper t = t) :
    same (upper (named ps.entries t)) (named ps.entries t) = true := by
  refine same_upper_of_forall fun c hc => ?_
  rcases mem_named hc with hc | ⟨p, hp, hc⟩
  · rw [upperChar_of_upper_eq ht c hc]
    exact same_refl _
  · have hsegment := (isQualifier_placeholder (hps.name p hp).isIdentifier).2 c hc
    exact same_upperChar_of_ascii ((toNat_of_isSegmentChar hsegment).2.trans_lt (by decide))

theorem IsInvertible.sameText_inject_part_iff (hps : ps.IsInvertible)
    (hvalues : AreValues ps.entries) {x : String} (hup : upperText x = x)
    (hx : IsUnmarked x.toList) :
    sameText (ps.inject (upperText (ps.parametrizePart x))) x = true ↔
      KeepsApart ps.entries x.toList := by
  have hupper : upper x.toList = x.toList := by
    simpa [upperText] using congrArg String.toList hup
  have hsame := Parameters.same_injectChars ps (hps.same_upper_named hupper)
  rw [← hps.same_inject_named_iff hvalues hx, sameText, inject, upperText, parametrizePart,
    String.toList_ofList, String.toList_ofList, String.toList_ofList]
  exact ⟨fun h => same_trans (same_symm hsame) h, same_trans hsame⟩

/-- The identity of a script deploys back to itself, part by part, exactly if no later value occurs
in the name of a placeholder that its part gets. -/
theorem inject_parametrizeIdentity_iff (hps : ps.IsInvertible)
    (hvalues : ∀ p ∈ ps.entries, p.2 ≠ "") {s : Script} (hs : s.IsUpper)
    (hdatabase : IsUnmarked s.database.toList) (hschema : IsUnmarked s.schema.toList) :
    (sameText (ps.inject (ps.parametrizeIdentity s).database) s.database = true ↔
      KeepsApart ps.entries s.database.toList) ∧
    (sameText (ps.inject (ps.parametrizeIdentity s).schema) s.schema = true ↔
      KeepsApart ps.entries s.schema.toList) := by
  have hvalues : AreValues ps.entries := fun p hp =>
    ⟨fun h => hvalues p hp (String.toList_eq_nil_iff.1 h), hps.value p hp⟩
  exact ⟨hps.sameText_inject_part_iff hvalues hs.database hdatabase,
    hps.sameText_inject_part_iff hvalues hs.schema hschema⟩

theorem inject_parametrizeIdentity_owner :
    let ps : Parameters := ⟨[("db", "TEST"), ("owner", "db")], by decide⟩
    let s := Script.state "TEST" "OWN_DB" .view "V" "SELECT 1"
    (ps.IsInvertible ∧ (∀ p ∈ ps.entries, p.2 ≠ "") ∧ s.IsUpper ∧ IsUnmarked s.database.toList ∧
      IsUnmarked s.schema.toList) ∧
    ¬ sameText (ps.inject (ps.parametrizeIdentity s).database) s.database = true ∧
    sameText (ps.inject (ps.parametrizeIdentity s).schema) s.schema = true := by
  intro ps s
  have hps : ps.IsInvertible := ⟨by decide, by decide, by decide⟩
  have hvalues : ∀ p ∈ ps.entries, p.2 ≠ "" := by decide
  have hs : s.IsUpper := Script.isUpper_ofContent _ _ _ _ _ _
  have hdatabase : IsUnmarked s.database.toList := by decide
  have hschema : IsUnmarked s.schema.toList := by decide
  have hiff := inject_parametrizeIdentity_iff hps hvalues hs hdatabase hschema
  exact ⟨⟨hps, hvalues, hs, hdatabase, hschema⟩, fun h => absurd (hiff.1.1 h) (by decide),
    hiff.2.2 (by decide)⟩

/-- The identity of a script need not come back. -/
theorem not_forall_inject_parametrizeIdentity :
    ¬ ∀ (ps : Parameters) (s : Script), ps.IsInvertible → (∀ p ∈ ps.entries, p.2 ≠ "") →
      s.IsUpper → IsUnmarked s.database.toList → IsUnmarked s.schema.toList →
      sameText (ps.inject (ps.parametrizeIdentity s).database) s.database = true ∧
      sameText (ps.inject (ps.parametrizeIdentity s).schema) s.schema = true := by
  intro h
  let ps : Parameters := ⟨[("db", "TEST"), ("owner", "db")], by decide⟩
  let s := Script.state "TEST" "S" .view "V" "SELECT 1"
  have hback := (h ps s ⟨by decide, by decide, by decide⟩ (by decide)
    (Script.isUpper_ofContent _ _ _ _ _ _) (by decide) (by decide)).1
  have hlost : sameText (ps.inject (ps.parametrizeIdentity s).database) s.database = false := by
    decide
  rw [hlost] at hback
  cases hback

end Identity

end Parameters

end SchemaDeploy
