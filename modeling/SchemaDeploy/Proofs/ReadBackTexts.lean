import SchemaDeploy.Proofs.TemplateRoundTrip
import SchemaDeploy.Proofs.TrimmedText

namespace SchemaDeploy

namespace Template

open Text Parameters

variable {f g : String → List Char} {p : Char → Bool} {T : Template} {ps : Parameters}

/-- Whether every name is shown as a text with characters of one kind at its ends. -/
def ShowsEnds (p : Char → Bool) (f : String → List Char) (slots : List (String × List Char)) : Prop :=
  ∀ s ∈ slots, f s.1 ≠ [] ∧ (f s.1).head?.all p = true ∧ (f s.1).getLast?.all p = true

theorem head?_all_render (hf : ShowsEnds p f T.slots) :
    (T.render f).head?.all p = T.front.head?.all p := by
  obtain ⟨k, slots⟩ := T
  cases k with
  | cons c k => rfl
  | nil =>
      cases slots with
      | nil => rfl
      | cons s slots =>
          obtain ⟨hne, hhead, -⟩ := hf s List.mem_cons_self
          rw [render_cons, List.nil_append, List.head?_append_of_ne_nil _ hne, hhead]
          rfl

theorem getLast?_all_append {m t : List Char} (hm : m.getLast?.all p = true) :
    (m ++ t).getLast?.all p = t.getLast?.all p := by
  cases t with
  | nil => rw [List.append_nil, hm]; rfl
  | cons c t => rw [List.getLast?_append_of_ne_nil _ (List.cons_ne_nil c t)]

theorem getLast?_all_render {k : List Char} {slots : List (String × List Char)}
    (hf : ShowsEnds p f slots) (hg : ShowsEnds p g slots) :
    (render f ⟨k, slots⟩).getLast?.all p = (render g ⟨k, slots⟩).getLast?.all p := by
  induction slots generalizing k with
  | nil => rw [render_nil, render_nil]
  | cons s slots ih =>
      obtain ⟨⟨hne, -, hlast⟩, hf⟩ := List.forall_mem_cons.1 hf
      obtain ⟨⟨hne', -, hlast'⟩, hg⟩ := List.forall_mem_cons.1 hg
      rw [render_cons, render_cons,
        List.getLast?_append_of_ne_nil _ (List.append_ne_nil_of_left_ne_nil hne _),
        List.getLast?_append_of_ne_nil _ (List.append_ne_nil_of_left_ne_nil hne' _),
        getLast?_all_append hlast, getLast?_all_append hlast', ih hf hg]

/-- Whether a text comes back when the values of parameters and then placeholders are put in: its
placeholders have the names of parameters and stand on their own, and no value stands on its own in
the text around them. -/
structure ReadsBack (ps : Parameters) (T : Template) : Prop where
  trimmed : trim T.text = T.text
  distinct : T.slots ≠ [] → ps.IsDistinct
  keys : ∀ s ∈ T.slots, s.1 ∈ ps.keys
  unopened : ∀ k ∈ T.chunks, IsUnopened k
  bounded : T.IsBounded
  free : ∀ k ∈ T.chunks, ∀ p ∈ ps.entries, p.2 ≠ "" → ¬ OccursBounded p.2.toList k

theorem trim_render (hps : ps.IsDistinct) (hkeys : ∀ s ∈ T.slots, s.1 ∈ ps.keys)
    (h : trim T.text = T.text) : trim (T.render ps.valueOf) = T.render ps.valueOf := by
  have hplaceholder : ShowsEnds (fun c => !isBlank c) placeholder T.slots := by
    intro s _
    refine ⟨by simp [placeholder], rfl, ?_⟩
    rw [placeholder, List.getLast?_append_of_ne_nil _ (List.cons_ne_nil _ _)]
    rfl
  have hvalue : ShowsEnds (fun c => !isBlank c) ps.valueOf T.slots := by
    intro s hs
    obtain ⟨p, hp, hname⟩ := exists_of_mem_keys (hkeys s hs)
    have hword := (hps.value p hp).isIdentifier.isQualifier
    have hsolid (c : Char) (hc : c ∈ p.2.toList) : (!isBlank c) = true := by
      rw [Sql.not_isBlank_of_isSegmentChar (hword.2 c hc)]
      rfl
    rw [← hname, valueOf_eq hp]
    refine ⟨hword.1, ?_, ?_⟩ <;> rw [Option.all_eq_true]
    · exact fun c hc => hsolid c (List.mem_of_head? hc)
    · exact fun c hc => hsolid c (List.mem_of_getLast? hc)
  rw [trim_eq_self_iff] at h ⊢
  rw [head?_all_render hvalue, getLast?_all_render hvalue hplaceholder]
  rw [text, head?_all_render hplaceholder] at h
  exact h

end Template

namespace Parameters

open Text Sql Template

variable {ps : Parameters} {t : List Char} {T : Template}

theorem replaceFrom_eq_self {accept : Option Char → Option Char → Bool} {needle image : List Char}
    {before : Option Char} (h : ∀ a m b, t = a ++ (m ++ b) → m ≠ [] → same m needle = true →
      accept (a.getLast?.or before) b.head? = false) :
    replaceFrom accept needle image 0 before t = t := by
  induction t generalizing before with
  | nil => rfl
  | cons c t ih =>
      rcases replaceFrom_cons_cases accept needle image before c t with
        ⟨hkeep, -⟩ | ⟨m, rest, hm, hne, hms, haccept, -⟩
      · rw [hkeep, ih]
        intro a m b ht hne hms
        rw [← getLast?_cons_or c a before]
        exact h (c :: a) m b (congrArg (c :: ·) ht) hne hms
      · have hrefused := h [] m rest hm hne hms
        rw [List.getLast?_nil, Option.none_or, haccept] at hrefused
        cases hrefused

theorem injectChars_of_isUnopened (h : IsUnopened t) : ps.injectChars t = t := by
  rw [injectChars]
  induction ps.entries with
  | nil => rfl
  | cons q es ih =>
      have hpass : replaceSame anywhere (placeholder q.1) q.2.toList t = t := by
        refine replaceFrom_eq_self fun a m b ht _ hm => ?_
        have hd := dropSame?_append hm b
        obtain ⟨w, hw, -⟩ := exists_of_dropSame?_placeholder hd
        exact absurd ⟨a, w ++ '}' :: b, by rw [ht, hw]; simp⟩ h
      rw [List.foldl_cons, hpass, ih]

theorem parametrizeWith_of_free (h : ∀ p ∈ ps.entries, p.2 ≠ "" → ¬ OccursBounded p.2.toList t) :
    parametrizeWith isBounded ps t = t := by
  rw [parametrizeWith]
  generalize ps.entries = es at h ⊢
  induction es with
  | nil => rfl
  | cons q es ih =>
      obtain ⟨hq, hes⟩ := List.forall_mem_cons.1 h
      have hpass : replaceSame isBounded q.2.toList (placeholder q.1) t = t := by
        refine replaceFrom_eq_self fun a m b ht hne hm => ?_
        rw [Option.or_none, Bool.eq_false_iff]
        refine fun hbounded => hq ?_ ⟨a, m, b, ht, hm, hbounded⟩
        intro hempty
        rw [hempty] at hm
        exact hne (List.eq_nil_of_length_eq_zero (length_eq_of_same hm))
      rw [List.foldl_cons, hpass, ih hes]

theorem trimText_parametrize_inject (h : T.ReadsBack ps) :
    trimText (ps.parametrize (trimText (ps.inject (String.ofList T.text)))) =
      String.ofList T.text := by
  simp only [trimText, parametrize, inject, String.toList_ofList, String.ofList_inj]
  by_cases hslots : T.slots = []
  · have htext : T.text = T.front := by
      rw [text, render, hslots, List.flatMap_nil, List.append_nil]
    have hchunk : T.text ∈ T.chunks := by
      rw [htext]
      exact List.mem_cons_self
    rw [injectChars_of_isUnopened (h.unopened _ hchunk), h.trimmed,
      parametrizeWith_of_free (h.free _ hchunk), h.trimmed]
  · have hps := h.distinct hslots
    have hfree : ∀ k ∈ T.chunks, ∀ p ∈ ps.entries, ¬ OccursBounded p.2.toList k := by
      intro k hk p hp
      refine h.free k hk p hp ?_
      intro hempty
      exact (hps.value p hp).1 (by rw [hempty]; rfl)
    rw [injectChars_text hps h.keys h.unopened, trim_render hps h.keys h.trimmed,
      parametrizeWith_render hps h.keys h.bounded hfree, h.trimmed]

end Parameters

end SchemaDeploy
