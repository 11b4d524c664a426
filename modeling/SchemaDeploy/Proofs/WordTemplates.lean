import SchemaDeploy.Proofs.Replacements

namespace SchemaDeploy

namespace Text

def isIdentifierChar (c : Char) : Bool :=
  c.isAlphanum || c == '_' || c == '$'

def IsIdentifier (t : List Char) : Prop :=
  t ≠ [] ∧ t.all isIdentifierChar = true

instance (t : List Char) : Decidable (IsIdentifier t) :=
  inferInstanceAs (Decidable (_ ∧ _))

theorem isIdentifierChar_toLower (c : Char) : isIdentifierChar c.toLower = isIdentifierChar c := by
  by_cases hu : c.isUpper
  · have ha : c.isAlpha = true := by simp [Char.isAlpha, hu]
    have hl : c.toLower.isAlpha = true := by rw [Char.isAlpha_toLower_eq_isAlpha, ha]
    simp only [isIdentifierChar, Char.isAlphanum, ha, hl, Bool.true_or]
  · rw [Char.toLower_eq_of_not_isUpper hu]

theorem isSegmentChar_of_isIdentifierChar {c : Char} (h : isIdentifierChar c = true) :
    Sql.isSegmentChar c = true := by
  simp only [isIdentifierChar, Sql.isSegmentChar, List.contains_cons, Bool.or_eq_true] at h ⊢
  tauto

theorem IsIdentifier.mem {t : List Char} (h : IsIdentifier t) {c : Char} (hc : c ∈ t) :
    isIdentifierChar c = true :=
  List.all_eq_true.1 h.2 c hc

theorem IsIdentifier.isQualifier {t : List Char} (h : IsIdentifier t) : Sql.IsQualifier t :=
  ⟨h.1, fun _ hc => isSegmentChar_of_isIdentifierChar (h.mem hc)⟩

theorem sameLetter_eq_false {a c : Char} (ha : isIdentifierChar a = true)
    (hc : isIdentifierChar c = false) : sameLetter a c = false := by
  rw [sameLetter, beq_eq_false_iff_ne]
  intro h
  rw [← isIdentifierChar_toLower, h, isIdentifierChar_toLower, hc] at ha
  cases ha

theorem IsIdentifier.of_same {s t : List Char} (h : IsIdentifier t) (hs : same s t = true) :
    IsIdentifier s := by
  refine ⟨?_, ?_⟩
  · rintro rfl
    exact h.1 (List.eq_nil_of_length_eq_zero (length_eq_of_same hs).symm)
  · rw [List.all_eq_true]
    intro c hc
    have hmem : c.toLower ∈ t.map Char.toLower := by
      rw [← eq_of_beq hs]
      exact List.mem_map_of_mem hc
    obtain ⟨d, hd, he⟩ := List.mem_map.1 hmem
    rw [← isIdentifierChar_toLower, ← he, isIdentifierChar_toLower]
    exact h.mem hd

end Text

namespace Parameters

open Text Sql

variable {ps : Parameters}

/-- All names and values are identifiers. -/
def IsPlain (ps : Parameters) : Prop :=
  ∀ p ∈ ps.entries, IsIdentifier p.1.toList ∧ IsIdentifier p.2.toList

/-- The template of a word: the placeholder of the first parameter with this value, if there is
one. -/
def wordTemplate (ps : Parameters) (w : List Char) : List Char :=
  ((ps.entries.find? fun p => same p.2.toList w).map fun p => placeholder p.1).getD w

theorem startsValue_eq_false {c : Char} (h : isSegmentChar c = true) : startsValue c = false := by
  rw [Bool.eq_false_iff]
  intro hc
  simp only [startsValue, isAsciiBlank, List.contains_cons, List.contains_nil, Bool.or_eq_true,
    beq_iff_eq, Bool.false_eq_true, or_false] at hc
  rcases hc with (hc | hc | hc | hc | hc | hc | hc) | (((hc | hc) | hc) | hc) | hc <;>
    subst hc <;> exact absurd h (by decide)

theorem endsValue_eq_false {c : Char} (h : isSegmentChar c = true) : endsValue c = false := by
  rw [Bool.eq_false_iff]
  intro hc
  simp only [endsValue, isAsciiBlank, List.contains_cons, List.contains_nil, Bool.or_eq_true,
    beq_iff_eq, Bool.false_eq_true, or_false] at hc
  rcases hc with (hc | hc | hc | hc | hc | hc | hc) | (((hc | hc) | hc) | hc) | hc <;>
    subst hc <;> exact absurd h (by decide)

theorem parametrizeWith_append_cons (hps : ps.IsPlain) {c : Char} (hend : endsValue c = true)
    (hc : isIdentifierChar c = false) (t u : List Char) :
    ∃ v, parametrizeWith isBounded ps (t ++ c :: u) = parametrizeWith isBounded ps t ++ c :: v ∧
      (startsValue c = true → v = parametrizeWith isBounded ps u) := by
  rw [IsPlain] at hps
  simp only [parametrizeWith]
  generalize ps.entries = es at hps ⊢
  induction es generalizing t u with
  | nil => exact ⟨u, rfl, fun _ => rfl⟩
  | cons p es ih =>
      obtain ⟨hp, hes⟩ := List.forall_mem_cons.1 hps
      have hne : ∀ a ∈ p.2.toList, sameLetter a c = false :=
        fun a ha => sameLetter_eq_false (hp.2.mem ha) hc
      have hbound (before : Option Char) : isBounded before (some c) = isBounded before none := by
        simp [isBounded, hend]
      have hreplace : replaceSame isBounded p.2.toList (placeholder p.1) (t ++ c :: u) =
          replaceSame isBounded p.2.toList (placeholder p.1) t ++
            c :: replaceFrom isBounded p.2.toList (placeholder p.1) 0 (some c) u :=
        replaceFrom_append_cons hne hbound t u 0 none (Nat.zero_le _)
      obtain ⟨v, hv, hstart⟩ := ih (replaceSame isBounded p.2.toList (placeholder p.1) t)
        (replaceFrom isBounded p.2.toList (placeholder p.1) 0 (some c) u) hes
      refine ⟨v, ?_, fun hs => ?_⟩
      · rw [List.foldl_cons, List.foldl_cons, ← hv, hreplace]
      · have hfresh (after : Option Char) : isBounded (some c) after = isBounded none after := by
          simp [isBounded, hs]
        rw [hstart hs, List.foldl_cons, replaceFrom_some hfresh, replaceSame]

theorem replaceFrom_of_refused {value image t : List Char} {before : Option Char}
    (hb : before.all startsValue = false) (ht : ∀ c ∈ t, isSegmentChar c = true) :
    replaceFrom isBounded value image 0 before t = t := by
  induction t generalizing before with
  | nil => rfl
  | cons c t ih =>
      obtain ⟨hc, htail⟩ := List.forall_mem_cons.1 ht
      have hrest : replaceFrom isBounded value image 0 (some c) t = t :=
        ih (by rw [Option.all_some, startsValue_eq_false hc]) htail
      simp only [replaceFrom, isBounded, hb, Bool.false_and, Bool.false_eq_true, and_false, if_false,
        hrest]
      split <;> rfl

theorem replaceSame_word {value image t : List Char} (hv : value ≠ [])
    (ht : ∀ c ∈ t, isSegmentChar c = true) :
    replaceSame isBounded value image t = if same value t then image else t := by
  cases t with
  | nil =>
      rw [same_nil hv]
      rfl
  | cons c t =>
      obtain ⟨hc, htail⟩ := List.forall_mem_cons.1 ht
      have hrest : replaceFrom isBounded value image 0 (some c) t = t :=
        replaceFrom_of_refused (by rw [Option.all_some, startsValue_eq_false hc]) htail
      rw [replaceSame]
      simp only [replaceFrom, hrest]
      cases hd : dropSame? value (c :: t) with
      | none =>
          simp [same_eq_false_of_dropSame? hd]
      | some rest =>
          obtain ⟨m, hm, hms⟩ := exists_of_dropSame? hd
          cases rest with
          | nil =>
              rw [List.append_nil] at hm
              rw [← hm] at hms
              have hlength : value.length - 1 = t.length := by
                have h := length_of_dropSame? hd
                simp at h
                omega
              rw [hlength, replaceFrom_length]
              simp [hv, isBounded, same_symm hms]
          | cons d rest =>
              have hend : endsValue d = false := endsValue_eq_false (ht d (by simp [hm]))
              have hs : same value (c :: t) = false := by
                rw [Bool.eq_false_iff]
                intro hs
                have hlength := length_eq_of_same hs
                have h := length_of_dropSame? hd
                simp at hlength h
                omega
              simp [isBounded, hend, hs]

theorem isQualifier_placeholder {name : String} (h : IsIdentifier name.toList) :
    IsQualifier (placeholder name) := by
  refine ⟨List.cons_ne_nil _ _, fun c hc => ?_⟩
  simp only [placeholder, List.cons_append, List.mem_cons, List.mem_append, List.not_mem_nil,
    or_false] at hc
  rcases hc with rfl | rfl | hc | rfl
  · decide
  · decide
  · exact isSegmentChar_of_isIdentifierChar (h.mem hc)
  · decide

theorem same_eq_false_of_brace {value t : List Char} (hv : ∀ c ∈ value, isIdentifierChar c = true)
    (ht : '{' ∈ t) : same value t = false := by
  rw [Bool.eq_false_iff]
  intro h
  have hbrace : '{' ∈ value.map Char.toLower := by
    rw [eq_of_beq h]
    exact List.mem_map_of_mem (f := Char.toLower) ht
  obtain ⟨c, hc, hcb⟩ := List.mem_map.1 hbrace
  have hbad := hv c hc
  rw [← isIdentifierChar_toLower, hcb] at hbad
  cases hbad

theorem mem_placeholder (name : String) : '{' ∈ placeholder name := by
  simp [placeholder]

theorem find?_placeholder {es : List (String × String)}
    (hes : ∀ p ∈ es, IsIdentifier p.1.toList ∧ IsIdentifier p.2.toList) (name : String) :
    es.find? (fun p => same p.2.toList (placeholder name)) = none := by
  rw [List.find?_eq_none]
  intro p hp
  rw [same_eq_false_of_brace (fun c hc => (hes p hp).2.mem hc) (mem_placeholder name)]
  exact Bool.false_ne_true

theorem parametrizeWith_word (hps : ps.IsPlain) {w : List Char}
    (hw : ∀ c ∈ w, isSegmentChar c = true) :
    parametrizeWith isBounded ps w = ps.wordTemplate w := by
  rw [IsPlain] at hps
  rw [parametrizeWith, wordTemplate]
  generalize ps.entries = es at hps ⊢
  induction es generalizing w with
  | nil => rfl
  | cons p es ih =>
      obtain ⟨hp, hes⟩ := List.forall_mem_cons.1 hps
      rw [List.foldl_cons, replaceSame_word hp.2.1 hw, List.find?_cons]
      cases hs : same p.2.toList w with
      | false =>
          rw [if_neg Bool.false_ne_true]
          exact ih hw hes
      | true =>
          rw [if_pos rfl, ih (isQualifier_placeholder hp.1).2 hes, find?_placeholder hes]
          rfl

section WordTemplate

variable {w w' : List Char}

theorem wordTemplate_cases (ps : Parameters) (w : List Char) :
    ps.wordTemplate w = w ∨ ∃ p ∈ ps.entries, ps.wordTemplate w = placeholder p.1 := by
  rw [wordTemplate]
  cases hf : ps.entries.find? fun p => same p.2.toList w with
  | none => exact .inl rfl
  | some p => exact .inr ⟨p, List.mem_of_find?_eq_some hf, rfl⟩

theorem isQualifier_wordTemplate (hps : ps.IsPlain) (hw : IsQualifier w) :
    IsQualifier (ps.wordTemplate w) := by
  rcases wordTemplate_cases ps w with h | ⟨p, hp, h⟩
  · rwa [h]
  · rw [h]
    exact isQualifier_placeholder (hps p hp).1

theorem wordTemplate_of_ne (h : ∀ p ∈ ps.entries, same p.2.toList w = false) :
    ps.wordTemplate w = w := by
  have hf : ps.entries.find? (fun p => same p.2.toList w) = none :=
    List.find?_eq_none.2 fun p hp => by simp [h p hp]
  rw [wordTemplate, hf]
  rfl

theorem same_wordTemplate (h : same w w' = true) :
    same (ps.wordTemplate w) (ps.wordTemplate w') = true := by
  have hf : (fun p : String × String => same p.2.toList w) = fun p => same p.2.toList w' :=
    funext fun p => same_congr h p.2.toList
  rw [wordTemplate, wordTemplate, hf]
  cases ps.entries.find? fun p => same p.2.toList w' with
  | none => exact h
  | some p => exact same_refl _

end WordTemplate

section Anywhere

variable {value image : List Char}

theorem count_brace_of_identifier {t : List Char} (h : ∀ c ∈ t, isIdentifierChar c = true) :
    t.count '{' = 0 := by
  rw [List.count_eq_zero]
  intro hb
  exact absurd (h _ hb) (by decide)

theorem count_brace_placeholder {name : String} (h : IsIdentifier name.toList) :
    (placeholder name).count '{' = 1 := by
  have hn := count_brace_of_identifier fun c hc => h.mem hc
  simp [placeholder, hn]

theorem count_brace_of_same {s t : List Char} (h : same s t = true) :
    s.count '{' = t.count '{' := by
  have hlower (u : List Char) : (u.map Char.toLower).count '{' = u.count '{' := by
    rw [List.count_eq_countP, List.count_eq_countP, List.countP_map]
    refine List.countP_congr fun c _ => ?_
    rw [Function.comp_apply, beq_iff_eq, beq_iff_eq]
    exact toLower_eq_iff (by decide)
  rw [← hlower s, ← hlower t, eq_of_beq h]

theorem replaceSame_grows {name : String} (hname : IsIdentifier name.toList)
    (hv : IsIdentifier value) (t : List Char) :
    replaceSame anywhere value (placeholder name) t = t ∨
      t.count '{' < (replaceSame anywhere value (placeholder name) t).count '{' := by
  rcases replaceSame_anywhere (placeholder name) hv.1 t with
    ⟨h, -⟩ | ⟨a, m, b, rfl, hm, h⟩
  · exact .inl h
  · have hlength := length_eq_of_same hm
    have hpos : 0 < value.length := List.length_pos_iff.2 hv.1
    have hdecreases : b.length < (a ++ (m ++ b)).length := by
      simp only [List.length_append]
      omega
    have hrest : b.count '{' ≤ (replaceSame anywhere value (placeholder name) b).count '{' := by
      rcases replaceSame_grows hname hv b with hb | hb
      · rw [hb]
      · exact hb.le
    right
    rw [h]
    simp only [List.count_append, count_brace_placeholder hname, count_brace_of_same hm,
      count_brace_of_identifier fun c hc => hv.mem hc]
    omega
termination_by t.length

theorem foldl_grows {es : List (String × String)}
    (hes : ∀ p ∈ es, IsIdentifier p.1.toList ∧ IsIdentifier p.2.toList) (t : List Char) :
    es.foldl (fun t p => replaceSame anywhere p.2.toList (placeholder p.1) t) t = t ∨
      t.count '{' <
        (es.foldl (fun t p => replaceSame anywhere p.2.toList (placeholder p.1) t) t).count '{' := by
  induction es generalizing t with
  | nil => exact .inl rfl
  | cons p es ih =>
      obtain ⟨hp, hes⟩ := List.forall_mem_cons.1 hes
      rw [List.foldl_cons]
      rcases replaceSame_grows hp.1 hp.2 t with h | h
      · rw [h]
        exact ih hes t
      · rcases ih hes (replaceSame anywhere p.2.toList (placeholder p.1) t) with h' | h'
        · rw [h']
          exact .inr h
        · exact .inr (h.trans h')

theorem eq_nil_of_same_placeholder {a b : List Char} {name name' : String}
    (ha : ∀ c ∈ a, isIdentifierChar c = true) (hname : IsIdentifier name'.toList)
    (h : same (a ++ (placeholder name ++ b)) (placeholder name') = true) : a = [] ∧ b = [] := by
  have he := eq_of_beq h
  have hnil : a = [] := by
    match a with
    | [] => rfl
    | [c] =>
        simp [placeholder] at he
    | c :: d :: a =>
        simp only [placeholder, List.cons_append, List.map_cons, List.cons.injEq] at he
        have hd := ha d (by simp)
        rw [← isIdentifierChar_toLower, he.2.1] at hd
        cases hd
  subst hnil
  refine ⟨rfl, ?_⟩
  simp only [placeholder, List.nil_append, List.cons_append, List.map_cons, List.map_append,
    List.append_assoc, List.map_nil, List.cons.injEq, true_and] at he
  have hclose : '}'.toLower = '}' := by decide
  rw [hclose] at he
  have hmem : '}' ∉ name'.toList.map Char.toLower := by
    intro hm
    obtain ⟨c, hc, hcl⟩ := List.mem_map.1 hm
    rw [toLower_eq_iff (by decide)] at hcl
    subst hcl
    exact absurd (hname.mem hc) (by decide)
  obtain ⟨-, -, hb⟩ := (List.append_cons_inj_of_notMem hmem List.not_mem_nil).1 he.symm
  exact List.map_eq_nil_iff.1 hb.symm

theorem replaceSame_eq_nil (hv : value ≠ []) (hi : image ≠ []) {t : List Char}
    (h : replaceSame anywhere value image t = []) : t = [] := by
  rcases replaceSame_anywhere image hv t with ⟨hstay, -⟩ | ⟨a, m, b, -, -, hstep⟩
  · rw [← hstay, h]
  · rw [hstep] at h
    exact absurd (List.append_eq_nil_iff.1 (List.append_eq_nil_iff.1 h).2).1 hi

theorem foldl_anywhere_of_same {es : List (String × String)} {x : List Char}
    (hes : ∀ p ∈ es, IsIdentifier p.1.toList ∧ IsIdentifier p.2.toList)
    (hx : ∀ c ∈ x, isIdentifierChar c = true)
    (h : let y := es.foldl (fun t p => replaceSame anywhere p.2.toList (placeholder p.1) t) x
      '{' ∉ y ∨ ∃ name : String, IsIdentifier name.toList ∧ same y (placeholder name) = true) :
    es.foldl (fun t p => replaceSame anywhere p.2.toList (placeholder p.1) t) x =
      ((es.find? fun p => same p.2.toList x).map fun p => placeholder p.1).getD x := by
  induction es with
  | nil => rfl
  | cons p es ih =>
      obtain ⟨hp, hrest⟩ := List.forall_mem_cons.1 hes
      rw [List.foldl_cons] at h ⊢
      rw [List.find?_cons]
      rcases replaceSame_anywhere (placeholder p.1) hp.2.1 x with
        ⟨hstay, hnot⟩ | ⟨a, m, b, rfl, hm, hstep⟩
      · have hs : same p.2.toList x = false := by
          rw [Bool.eq_false_iff]
          exact fun hs => hnot ⟨[], x, [], by simp, same_symm hs⟩
        rw [hs]
        rw [hstay] at h ⊢
        exact ih hrest h
      · -- A replaced match leaves its brace to the end, so it is the only one and all there is.
        have hbrace : 1 ≤ (replaceSame anywhere p.2.toList (placeholder p.1)
            (a ++ (m ++ b))).count '{' := by
          rw [hstep, List.count_append, List.count_append, count_brace_placeholder hp.1]
          omega
        have hgrows := foldl_grows hrest
          (replaceSame anywhere p.2.toList (placeholder p.1) (a ++ (m ++ b)))
        rcases h with h | ⟨name, hname, h⟩
        · rw [← List.count_eq_zero] at h
          rcases hgrows with hg | hg
          · rw [hg] at h
            omega
          · omega
        · have hone := count_brace_of_same h
          rw [count_brace_placeholder hname] at hone
          rcases hgrows with hg | hg
          · rw [hg, hstep] at h ⊢
            obtain ⟨rfl, hb⟩ := eq_nil_of_same_placeholder (fun c hc => hx c (by simp [hc])) hname h
            cases replaceSame_eq_nil hp.2.1 (List.cons_ne_nil _ _) hb
            have hx : same p.2.toList ([] ++ (m ++ [])) = true := by
              rw [List.nil_append, List.append_nil]
              exact same_symm hm
            rw [hx, hb]
            simp
          · omega

end Anywhere

theorem parametrizeWith_anywhere_of_same (hps : ps.IsPlain) {x y : List Char} (hx : IsIdentifier x)
    (hy : IsIdentifier y) (h : same (parametrizeWith anywhere ps x) (ps.wordTemplate y) = true) :
    parametrizeWith anywhere ps x = ps.wordTemplate x := by
  refine foldl_anywhere_of_same hps (fun c hc => hx.mem hc) ?_
  rcases wordTemplate_cases ps y with hw | ⟨p, hp, hw⟩
  · left
    rw [hw] at h
    rw [← List.count_eq_zero]
    exact (count_brace_of_same h).trans (count_brace_of_identifier fun c hc => hy.mem hc)
  · right
    rw [hw] at h
    exact ⟨p.1, (hps p hp).1, h⟩

theorem isQualifier_parametrizeWith_anywhere (hps : ps.IsPlain) {t : List Char}
    (ht : IsQualifier t) : IsQualifier (parametrizeWith anywhere ps t) := by
  rw [IsPlain] at hps
  rw [parametrizeWith]
  generalize ps.entries = es at hps ⊢
  induction es generalizing t with
  | nil => exact ht
  | cons p es ih =>
      obtain ⟨hp, hes⟩ := List.forall_mem_cons.1 hps
      rw [List.foldl_cons]
      refine ih ⟨fun hnil => ?_, fun c hc => ?_⟩ hes
      · exact ht.1 (replaceSame_eq_nil hp.2.1 (List.cons_ne_nil _ _) hnil)
      · rcases mem_replaceFrom hc with hc | hc
        · exact ht.2 c hc
        · exact (isQualifier_placeholder hp.1).2 c hc

end Parameters

end SchemaDeploy
