import SchemaDeploy.Proofs.WordTemplates

namespace SchemaDeploy

namespace Text

def isParameterChar (c : Char) : Bool :=
  c.isAlphanum || c == '_'

def IsParameterWord (t : List Char) : Prop :=
  t ≠ [] ∧ t.all isParameterChar = true

instance (t : List Char) : Decidable (IsParameterWord t) :=
  inferInstanceAs (Decidable (_ ∧ _))

/-- No character of the text is one that marks a placeholder. -/
def IsUnmarked (t : List Char) : Prop :=
  '$' ∉ t ∧ '{' ∉ t ∧ '}' ∉ t

instance (t : List Char) : Decidable (IsUnmarked t) :=
  inferInstanceAs (Decidable (_ ∧ _ ∧ _))

/-- No placeholder begins in the text. -/
def IsUnopened (t : List Char) : Prop :=
  ¬ ['$', '{'] <:+: t

instance (t : List Char) : Decidable (IsUnopened t) :=
  inferInstanceAs (Decidable (¬ _))

theorem IsParameterWord.mem {t : List Char} (h : IsParameterWord t) {c : Char} (hc : c ∈ t) :
    isParameterChar c = true :=
  List.all_eq_true.1 h.2 c hc

theorem isIdentifierChar_of_isParameterChar {c : Char} (h : isParameterChar c = true) :
    isIdentifierChar c = true := by
  simp only [isParameterChar, isIdentifierChar, Bool.or_eq_true] at h ⊢
  exact .inl h

theorem IsParameterWord.isIdentifier {t : List Char} (h : IsParameterWord t) : IsIdentifier t :=
  ⟨h.1, List.all_eq_true.2 fun _ hc => isIdentifierChar_of_isParameterChar (h.mem hc)⟩

theorem IsParameterWord.isUnmarked {t : List Char} (h : IsParameterWord t) : IsUnmarked t := by
  refine ⟨fun hc => ?_, fun hc => ?_, fun hc => ?_⟩ <;> exact absurd (h.mem hc) (by decide)

theorem IsUnmarked.tail {c : Char} {t : List Char} (h : IsUnmarked (c :: t)) : IsUnmarked t :=
  ⟨fun hc => h.1 (List.mem_cons_of_mem c hc), fun hc => h.2.1 (List.mem_cons_of_mem c hc),
    fun hc => h.2.2 (List.mem_cons_of_mem c hc)⟩

theorem IsUnmarked.of_same {s t : List Char} (h : IsUnmarked t) (hs : same s t = true) :
    IsUnmarked s :=
  ⟨fun hc => h.1 (mem_of_same hs (by decide) hc), fun hc => h.2.1 (mem_of_same hs (by decide) hc),
    fun hc => h.2.2 (mem_of_same hs (by decide) hc)⟩

theorem IsUnopened.of_same {s t : List Char} (h : IsUnopened t) (hs : same s t = true) :
    IsUnopened s := by
  rintro ⟨a, b, rfl⟩
  have he : (a.map Char.toLower ++ ['$', '{']) ++ b.map Char.toLower = t.map Char.toLower := by
    rw [← eq_of_beq hs]
    simp
  obtain ⟨u, b', rfl, hu, -⟩ := List.map_eq_append_iff.1 he.symm
  obtain ⟨a', v, rfl, -, hv⟩ := List.map_eq_append_iff.1 hu
  obtain ⟨c, w, rfl, hc, hw⟩ := List.map_eq_cons_iff.1 hv
  obtain ⟨d, w', rfl, hd, hw'⟩ := List.map_eq_cons_iff.1 hw
  cases List.map_eq_nil_iff.1 hw'
  rw [(toLower_eq_iff (by decide)).1 hc, (toLower_eq_iff (by decide)).1 hd] at h
  exact h ⟨a', b', rfl⟩

theorem isUnopened_cons {c : Char} {t : List Char} :
    IsUnopened (c :: t) ↔ ¬ (c = '$' ∧ t.head? = some '{') ∧ IsUnopened t := by
  have hhead : ['{'] <+: t ↔ t.head? = some '{' := by
    cases t <;> simp [List.cons_prefix_cons, eq_comm]
  rw [IsUnopened, IsUnopened, List.infix_cons_iff, List.cons_prefix_cons, hhead, not_or, eq_comm]

theorem IsUnopened.append {s t : List Char} (hs : IsUnopened s) (ht : IsUnopened t)
    (h : t.head? ≠ some '{') : IsUnopened (s ++ t) := by
  induction s with
  | nil => exact ht
  | cons c s ih =>
      obtain ⟨hc, hs⟩ := isUnopened_cons.1 hs
      refine isUnopened_cons.2 ⟨fun hopen => ?_, ih hs⟩
      cases s with
      | nil => exact h hopen.2
      | cons d s => exact hc hopen

theorem isUnopened_append_of_not_mem {s t : List Char} (hs : '$' ∉ s) (ht : IsUnopened t) :
    IsUnopened (s ++ t) := by
  induction s with
  | nil => exact ht
  | cons c s ih =>
      rw [List.mem_cons, not_or] at hs
      exact isUnopened_cons.2 ⟨fun hopen => hs.1 hopen.1.symm, ih hs.2⟩

theorem isUnopened_of_not_mem {t : List Char} (h : '$' ∉ t) : IsUnopened t :=
  fun hopen => h (hopen.subset List.mem_cons_self)

end Text

namespace Parameters

open Text Sql

/-- A template stands for a text: it has the characters of that text, and the placeholders of
parameters for some stretches of it. `V` says which stretches a parameter may stand for. -/
inductive Stands (V : String × String → List Char → Prop) : List Char → List Char → Prop
  | nil : Stands V [] []
  | char (c : Char) {t x : List Char} (h : Stands V t x) : Stands V (c :: t) (c :: x)
  | slot {p : String × String} {m t x : List Char} (hm : V p m) (h : Stands V t x) :
      Stands V (placeholder p.1 ++ t) (m ++ x)

namespace Stands

variable {V V' : String × String → List Char → Prop} {t x m : List Char}

theorem refl (x : List Char) : Stands V x x := by
  induction x with
  | nil => exact .nil
  | cons c x ih => exact .char c ih

theorem append (m : List Char) (h : Stands V t x) : Stands V (m ++ t) (m ++ x) := by
  induction m with
  | nil => exact h
  | cons c m ih => exact .char c ih

theorem mono (hV : ∀ p m, V p m → V' p m) (h : Stands V t x) : Stands V' t x := by
  induction h with
  | nil => exact .nil
  | char c _ ih => exact .char c ih
  | slot hm _ ih => exact .slot (hV _ _ hm) ih

theorem eq_of_not (hV : ∀ p m, ¬ V p m) (h : Stands V t x) : t = x := by
  induction h with
  | nil => rfl
  | char c _ ih => rw [ih]
  | slot hm _ _ => exact absurd hm (hV _ _)

theorem exists_of_append (h : Stands V (m ++ t) x) (hm : '$' ∉ m) :
    ∃ y, x = m ++ y ∧ Stands V t y := by
  induction m generalizing x with
  | nil => exact ⟨x, rfl, h⟩
  | cons c m ih =>
      generalize hs : c :: m ++ t = s at h
      cases h with
      | nil => cases hs
      | char d h =>
          obtain ⟨rfl, rfl⟩ := List.cons.inj hs
          obtain ⟨y, rfl, hy⟩ := ih h fun hc => hm (List.mem_cons_of_mem _ hc)
          exact ⟨y, rfl, hy⟩
      | slot =>
          obtain ⟨rfl, -⟩ := List.cons.inj hs
          exact absurd List.mem_cons_self hm

theorem eq_of_unmarked (h : Stands V t x) (ht : '$' ∉ t) : t = x := by
  rw [← List.append_nil t] at h
  obtain ⟨y, rfl, hy⟩ := h.exists_of_append ht
  cases hy with
  | nil => rw [List.append_nil]

theorem head?_eq_brace (h : Stands V ('{' :: t) x) : x.head? = some '{' := by
  generalize hs : '{' :: t = s at h
  cases h with
  | nil => cases hs
  | char c h =>
      obtain ⟨rfl, -⟩ := List.cons.inj hs
      rfl
  | slot => exact absurd (List.cons.inj hs).1 (by decide)

end Stands

def Spares (accept : Option Char → Option Char → Bool) (q p : String × String) : Prop :=
  ∀ before u, replaceFrom accept q.2.toList (placeholder q.1) 0 before (placeholder p.1 ++ u) =
    placeholder p.1 ++ replaceFrom accept q.2.toList (placeholder q.1) 0 (some '}') u

theorem Stands.template {accept : Option Char → Option Char → Bool}
    {V V' : String × String → List Char → Prop} {q : String × String} {t x : List Char}
    (hq : '$' ∉ q.2.toList) (hspares : ∀ p m, V p m → Spares accept q p)
    (hV : ∀ p m, V p m → V' p m) (hV' : ∀ m, same m q.2.toList = true → V' q m)
    (h : Stands V t x) (before : Option Char) :
    Stands V' (replaceFrom accept q.2.toList (placeholder q.1) 0 before t) x := by
  cases h with
  | nil => exact .nil
  | @char c t x h =>
      rcases replaceFrom_cons_cases accept q.2.toList (placeholder q.1) before c t with
        ⟨hkeep, -⟩ | ⟨m, rest, hm, hne, hms, -, hput⟩
      · rw [hkeep]
        exact .char c (h.template hq hspares hV hV' (some c))
      · have hdollar : '$' ∉ m := fun hc => hq (mem_of_same hms (by decide) hc)
        have hshorter : rest.length < (c :: t).length := by
          have hpos := List.length_pos_iff.2 hne
          rw [hm, List.length_append]
          omega
        have hall := Stands.char c h
        rw [hm] at hall
        obtain ⟨y, hy, hrest⟩ := hall.exists_of_append hdollar
        rw [hput, hy]
        exact .slot (hV' m hms) (hrest.template hq hspares hV hV' m.getLast?)
  | @slot p m t x hm h =>
      rw [hspares p m hm]
      exact .slot (hV p m hm) (h.template hq hspares hV hV' (some '}'))
termination_by t.length
decreasing_by
  · exact Nat.lt_succ_self _
  · exact hshorter
  · rw [List.length_append, placeholder, List.length_append, List.length_singleton]
    omega

theorem placeholder_append (name : String) (u : List Char) :
    placeholder name ++ u = '$' :: '{' :: (name.toList ++ '}' :: u) := by
  simp [placeholder]

theorem placeholder_eq (name : String) :
    placeholder name = '$' :: '{' :: (name.toList ++ ['}']) := by
  rw [← placeholder_append, List.append_nil]

section Inject

variable {V : String × String → List Char → Prop} {q : String × String} {t x : List Char}

theorem exists_of_dropSame?_placeholder {name : String} {s r : List Char}
    (h : dropSame? (placeholder name) s = some r) :
    ∃ w, s = '$' :: '{' :: (w ++ '}' :: r) ∧ same w name.toList = true := by
  obtain ⟨m, rfl, hm⟩ := exists_of_dropSame? h
  have he : m.map Char.toLower = '$' :: '{' :: (name.toList.map Char.toLower ++ ['}']) := by
    rw [eq_of_beq hm, placeholder_eq, List.map_cons, List.map_cons, List.map_append]
    rfl
  obtain ⟨a, m, rfl, ha, hm⟩ := List.map_eq_cons_iff.1 he
  obtain ⟨b, m, rfl, hb, hm⟩ := List.map_eq_cons_iff.1 hm
  obtain ⟨w, m, rfl, hw, hm⟩ := List.map_eq_append_iff.1 hm
  obtain ⟨d, m, rfl, hd, hm⟩ := List.map_eq_cons_iff.1 hm
  cases List.map_eq_nil_iff.1 hm
  rw [(toLower_eq_iff (by decide)).1 ha, (toLower_eq_iff (by decide)).1 hb,
    (toLower_eq_iff (by decide)).1 hd]
  exact ⟨w, by simp, beq_iff_eq.2 hw⟩

theorem replaceSame_placeholder_of_ne {name : String} {image : List Char}
    (hq : IsUnmarked q.1.toList) (hname : IsUnmarked name.toList)
    (hne : same name.toList q.1.toList = false) (u : List Char) :
    replaceSame anywhere (placeholder q.1) image (placeholder name ++ u) =
      placeholder name ++ replaceSame anywhere (placeholder q.1) image u := by
  rw [replaceSame, replaceFrom_append, replaceFrom_anywhere]
  intro a c b rest hsplit hd
  exfalso
  obtain ⟨w, hw, hws⟩ := exists_of_dropSame?_placeholder hd
  obtain ⟨rfl, hb⟩ := List.cons.inj hw
  rw [placeholder_eq] at hsplit
  cases a with
  | nil =>
      obtain ⟨-, rfl⟩ := List.cons.inj hsplit
      rw [List.cons_append, List.append_assoc, List.singleton_append, List.cons.injEq] at hb
      rw [eq_of_append_cons hname.2.2 (hq.of_same hws).2.2 hb.2, hws] at hne
      cases hne
  | cons d a =>
      have hdollar : '$' ∈ '{' :: (name.toList ++ ['}']) := by
        rw [(List.cons.inj hsplit).2]
        simp
      simp [hname.1] at hdollar

theorem replaceSame_placeholder_of_same {name : String} (h : same name.toList q.1.toList = true)
    (image u : List Char) :
    replaceSame anywhere (placeholder q.1) image (placeholder name ++ u) =
      image ++ replaceSame anywhere (placeholder q.1) image u := by
  have hmatch : same (placeholder name) (placeholder q.1) = true := by
    rw [same, beq_iff_eq] at h ⊢
    simp [placeholder, h]
  rw [replaceSame, replaceFrom_of_match (by simp [placeholder]) hmatch (by rfl),
    replaceFrom_anywhere]

theorem Stands.inject (hq : IsUnmarked q.1.toList)
    (hname : ∀ p m, V p m → IsUnmarked p.1.toList)
    (hvalue : ∀ p m, V p m → same p.1.toList q.1.toList = true → m = q.2.toList)
    (hx : IsUnopened x) (h : Stands V t x) :
    Stands (fun p m => V p m ∧ same p.1.toList q.1.toList = false)
      (replaceSame anywhere (placeholder q.1) q.2.toList t) x := by
  induction h with
  | nil => exact .nil
  | @char c t x h ih =>
      have hrest : IsUnopened x := fun hi => hx (hi.trans (List.suffix_cons c x).isInfix)
      rcases replaceFrom_cons_cases anywhere (placeholder q.1) q.2.toList none c t with
        ⟨hkeep, -⟩ | ⟨m, rest, hm, -, hms, -, -⟩
      · rw [replaceSame, hkeep, replaceFrom_anywhere]
        exact .char c (ih hrest)
      · exfalso
        obtain ⟨w, hw, -⟩ := exists_of_dropSame?_placeholder (Sql.dropSame?_append hms rest)
        rw [← hm, List.cons.injEq] at hw
        obtain ⟨rfl, rfl⟩ := hw
        have hbrace := h.head?_eq_brace
        cases x with
        | nil => cases hbrace
        | cons d x =>
            cases hbrace
            exact hx ⟨[], x, rfl⟩
  | @slot p m t x hm h ih =>
      have hrest : IsUnopened x := fun hi => hx (hi.trans (List.suffix_append m x).isInfix)
      cases hs : same p.1.toList q.1.toList with
      | true =>
          rw [replaceSame_placeholder_of_same hs, hvalue p m hm hs]
          exact (ih hrest).append _
      | false =>
          rw [replaceSame_placeholder_of_ne hq (hname p m hm) hs]
          exact .slot ⟨hm, hs⟩ (ih hrest)

theorem foldl_inject {es : List (String × String)}
    (hname : ∀ p ∈ es, IsUnmarked p.1.toList)
    (hdistinct : es.Pairwise fun p q => sameText p.1 q.1 = false)
    (hx : IsUnopened x) (h : Stands (fun p m => p ∈ es ∧ m = p.2.toList) t x) :
    es.foldl (fun t p => replaceSame anywhere (placeholder p.1) p.2.toList t) t = x := by
  induction es generalizing t with
  | nil => exact h.eq_of_not fun p m hm => absurd hm.1 List.not_mem_nil
  | cons q es ih =>
      obtain ⟨hq, hes⟩ := List.forall_mem_cons.1 hname
      obtain ⟨hqes, hdistinct⟩ := List.pairwise_cons.1 hdistinct
      rw [List.foldl_cons]
      refine ih hes hdistinct ?_
      refine (h.inject hq (fun p m hm => hname p hm.1) (fun p m hm hs => ?_) hx).mono ?_
      · rcases List.mem_cons.1 hm.1 with rfl | hp
        · exact hm.2
        · have hd := hqes p hp
          rw [sameText, same_symm hs] at hd
          cases hd
      · rintro p m ⟨⟨hp, hm⟩, hs⟩
        rcases List.mem_cons.1 hp with rfl | hp
        · rw [same_refl] at hs
          cases hs
        · exact ⟨hp, hm⟩

end Inject

/-- The names are words and all differ up to case; no value has a character that marks a
placeholder. -/
structure IsInvertible (ps : Parameters) : Prop where
  name : ∀ p ∈ ps.entries, IsParameterWord p.1.toList
  distinct : ps.entries.Pairwise fun p q => sameText p.1 q.1 = false
  value : ∀ p ∈ ps.entries, IsUnmarked p.2.toList

theorem symm_sameText {α : Type} (f : α → String) :
    Std.Symm fun a b => sameText (f a) (f b) = false := by
  refine ⟨fun a b h => ?_⟩
  rw [Bool.eq_false_iff] at h ⊢
  exact fun hs => h (same_symm hs)

def StandsFor (es : List (String × String)) (p : String × String) (m : List Char) : Prop :=
  p ∈ es ∧ same m p.2.toList = true

theorem Stands.exists_exact {es : List (String × String)} {t x : List Char}
    (h : Stands (StandsFor es) t x) :
    ∃ y, Stands (fun p m => p ∈ es ∧ m = p.2.toList) t y ∧ same y x = true := by
  induction h with
  | nil => exact ⟨[], .nil, rfl⟩
  | char c _ ih =>
      obtain ⟨y, hy, hs⟩ := ih
      exact ⟨c :: y, .char c hy, same_append (same_refl [c]) hs⟩
  | @slot p m t x hm _ ih =>
      obtain ⟨y, hy, hs⟩ := ih
      exact ⟨p.2.toList ++ y, .slot ⟨hm.1, rfl⟩ hy, same_append (same_symm hm.2) hs⟩

variable {ps : Parameters}

theorem IsInvertible.same_injectChars (hps : ps.IsInvertible) {t x : List Char}
    (hx : IsUnopened x) (h : Stands (StandsFor ps.entries) t x) :
    same (ps.injectChars t) x = true := by
  obtain ⟨y, hy, hs⟩ := h.exists_exact
  have hname : ∀ p ∈ ps.entries, IsUnmarked p.1.toList := fun p hp => (hps.name p hp).isUnmarked
  rw [injectChars, foldl_inject hname hps.distinct (hx.of_same hs) hy]
  exact hs

theorem exists_of_dropSame?_unmarked {value : List Char} (hv : IsUnmarked value)
    (hne : value ≠ []) {c : Char} {t rest : List Char} (h : dropSame? value (c :: t) = some rest) :
    ∃ m, t = m ++ rest ∧ IsUnmarked (c :: m) := by
  obtain ⟨m, hm, hms⟩ := exists_of_dropSame? h
  cases m with
  | nil => exact absurd (List.eq_nil_of_length_eq_zero (length_eq_of_same hms).symm) hne
  | cons d m =>
      obtain ⟨rfl, ht⟩ := List.cons.inj hm
      exact ⟨m, ht, hv.of_same hms⟩

theorem getLast?_placeholder_or (name : String) (before : Option Char) :
    (placeholder name).getLast?.or before = some '}' := by
  simp [placeholder, List.getLast?_cons]

theorem spares_isBounded {p q : String × String} (hp : IsParameterWord p.1.toList)
    (hq : IsUnmarked q.2.toList) : Spares isBounded q p := by
  intro before u
  rcases eq_or_ne q.2.toList [] with hnil | hne
  · simp only [hnil, replaceFrom_nil_needle]
  rw [replaceFrom_append, getLast?_placeholder_or]
  intro a c b rest hsplit hd
  obtain ⟨m, -, hm⟩ := exists_of_dropSame?_unmarked hq hne hd
  rcases List.eq_nil_or_concat a with rfl | ⟨a, l, rfl⟩
  · obtain ⟨rfl, -⟩ := List.cons.inj (placeholder_eq p.1 ▸ hsplit)
    exact absurd List.mem_cons_self hm.1
  · have hl : isSegmentChar l = true :=
      (isQualifier_placeholder hp.isIdentifier).2 l (by simp [hsplit])
    rw [List.concat_eq_append, List.getLast?_concat, Option.some_or, isBounded, Option.all_some,
      startsValue_eq_false hl, Bool.false_and]

theorem IsInvertible.stands_parametrizeWith (hps : ps.IsInvertible) (x : List Char) :
    Stands (StandsFor ps.entries) (parametrizeWith isBounded ps x) x := by
  have hfold (es : List (String × String)) (hes : es ⊆ ps.entries) (t : List Char)
      (h : Stands (StandsFor ps.entries) t x) : Stands (StandsFor ps.entries)
        (es.foldl (fun t p => replaceSame isBounded p.2.toList (placeholder p.1) t) t) x := by
    induction es generalizing t with
    | nil => exact h
    | cons q es ih =>
        obtain ⟨hq, hes⟩ := List.cons_subset.1 hes
        refine ih hes _ (h.template (hps.value q hq).1 (fun p m hm => ?_) (fun _ _ hm => hm)
          (fun m hm => ⟨hq, hm⟩) none)
        exact spares_isBounded (hps.name p hm.1) (hps.value q hq)
  exact hfold ps.entries (List.Subset.refl _) x (.refl x)

/-- Exported text deploys back to itself: with the values put in for its placeholders it is the text
that it was made from, up to case. -/
theorem inject_parametrize (hps : ps.IsInvertible) {x : String} (hx : IsUnopened x.toList) :
    sameText (ps.inject (ps.parametrize x)) x = true := by
  rw [sameText, inject, parametrize, String.toList_ofList, String.toList_ofList]
  exact hps.same_injectChars hx (hps.stands_parametrizeWith x.toList)

theorem inject_parametrize_overlapping :
    let ps : Parameters := ⟨[("db", "sales.dev"), ("env", "dev")], by decide⟩
    let x := "SELECT * FROM SALES.DEV.T WHERE E = 'dev'"
    (ps.IsInvertible ∧ IsUnopened x.toList) ∧
      sameText (ps.inject (ps.parametrize x)) x = true := by
  intro ps x
  have hps : ps.IsInvertible := ⟨by decide, by decide, by decide⟩
  have hx : IsUnopened x.toList := by decide
  exact ⟨⟨hps, hx⟩, inject_parametrize hps hx⟩

end Parameters

end SchemaDeploy
