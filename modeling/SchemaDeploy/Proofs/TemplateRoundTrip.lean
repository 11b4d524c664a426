import SchemaDeploy.Proofs.KeyedLookup
import SchemaDeploy.Proofs.Placeholders

namespace SchemaDeploy

/-- A text with placeholders: the stretch in front, and the name of each placeholder with the stretch
behind it. -/
structure Template where
  front : List Char
  slots : List (String × List Char)
  deriving DecidableEq, Repr

namespace Template

open Text Parameters

def chunks (T : Template) : List (List Char) :=
  T.front :: T.slots.map (·.2)

/-- The text in which each name is shown as `f` says. -/
def render (f : String → List Char) (T : Template) : List Char :=
  T.front ++ T.slots.flatMap fun s => f s.1 ++ s.2

def text (T : Template) : List Char :=
  T.render placeholder

/-- Every placeholder stands on its own between what is in front of it and what is behind it. -/
def IsBounded (T : Template) : Prop :=
  ∀ before name behind after, T.slots = before ++ (name, behind) :: after →
    Parameters.isBounded (text ⟨T.front, before⟩).getLast? (text ⟨behind, after⟩).head? = true

theorem isBounded_iff {T : Template} : T.IsBounded ↔ ∀ i : Fin T.slots.length,
    Parameters.isBounded (text ⟨T.front, T.slots.take i⟩).getLast?
      (text ⟨T.slots[i].2, T.slots.drop (i + 1)⟩).head? = true := by
  constructor
  · intro h i
    refine h (T.slots.take i) T.slots[i].1 _ _ ?_
    rw [Prod.mk.eta, Fin.getElem_fin, ← List.drop_eq_getElem_cons, List.take_append_drop]
  · intro h before name behind after hsplit
    have hi := h ⟨before.length, by rw [hsplit]; simp⟩
    simpa [hsplit] using hi

instance (T : Template) : Decidable T.IsBounded :=
  decidable_of_iff _ isBounded_iff.symm

variable {f g : String → List Char} {k k' : List Char} {name : String}
  {slots : List (String × List Char)}

theorem render_nil (f : String → List Char) (k : List Char) : render f ⟨k, []⟩ = k := by
  simp [render]

theorem render_cons (f : String → List Char) (k : List Char) (name : String) (k' : List Char)
    (slots : List (String × List Char)) :
    render f ⟨k, (name, k') :: slots⟩ = k ++ (f name ++ render f ⟨k', slots⟩) := by
  simp [render]

theorem render_congr {T : Template} (h : ∀ s ∈ T.slots, f s.1 = g s.1) :
    T.render f = T.render g := by
  rw [render, render]
  congr 1
  exact List.flatMap_congr fun s hs => by rw [h s hs]

theorem getLast?_all_of_append {p : Char → Bool} {s t : List Char}
    (h : (s ++ t).getLast?.all p = true) : t.getLast?.all p = true := by
  cases t with
  | nil => rfl
  | cons c t => rwa [List.getLast?_append_of_ne_nil _ (List.cons_ne_nil _ _)] at h

theorem all_of_or {α : Type} {p : α → Bool} {x y : Option α} (h : (x.or y).all p = true) :
    x.all p = true := by
  cases x with
  | none => rfl
  | some a => exact h

theorem all_of_head?_append {α : Type} {p : α → Bool} {s t : List α}
    (h : (s ++ t).head?.all p = true) : s.head?.all p = true := by
  cases s with
  | nil => rfl
  | cons a s => exact h

theorem IsBounded.cons (h : IsBounded ⟨k, (name, k') :: slots⟩) :
    k.getLast?.all startsValue = true ∧ (k' = [] → slots = []) ∧ k'.head?.all endsValue = true ∧
      IsBounded ⟨k', slots⟩ := by
  have hfirst := h [] name k' slots rfl
  rw [text, render_nil, Parameters.isBounded, Bool.and_eq_true] at hfirst
  refine ⟨hfirst.1, ?_, ?_, fun before n behind after hsplit => ?_⟩
  · rintro rfl
    cases slots with
    | nil => rfl
    | cons s slots =>
        have hbad := hfirst.2
        rw [text, render_cons, List.nil_append, placeholder_append] at hbad
        exact absurd hbad (by simp [endsValue, isAsciiBlank])
  · cases k' with
    | nil => rfl
    | cons c k' => exact hfirst.2
  · have hrest := h ((name, k') :: before) n behind after (congrArg _ hsplit)
    rw [text, render_cons, Parameters.isBounded, Bool.and_eq_true, ← List.append_assoc] at hrest
    rw [Parameters.isBounded, Bool.and_eq_true]
    exact ⟨getLast?_all_of_append hrest.1, hrest.2⟩

theorem head?_render (h : k = [] → slots = []) (f : String → List Char) :
    (render f ⟨k, slots⟩).head? = k.head? := by
  cases k with
  | nil => rw [h rfl, render_nil]
  | cons c k => rfl

end Template

namespace Parameters

open Text Sql Template

/-- Names and values are words, and no two names and no two values are the same up to case. -/
structure IsDistinct (ps : Parameters) : Prop where
  name : ∀ p ∈ ps.entries, IsParameterWord p.1.toList
  value : ∀ p ∈ ps.entries, IsParameterWord p.2.toList
  names : ps.entries.Pairwise fun p q => sameText p.1 q.1 = false
  values : ps.entries.Pairwise fun p q => sameText p.2 q.2 = false

/-- Whether a value, in any case, stands on its own somewhere in a text. -/
def OccursBounded (value t : List Char) : Prop :=
  ∃ a m b, t = a ++ (m ++ b) ∧ same m value = true ∧ isBounded a.getLast? b.head? = true

theorem occursBounded_iff {value t : List Char} : OccursBounded value t ↔
    ∃ i < t.length + 1, (dropSame? value (t.drop i)).any (fun rest =>
      isBounded (t.take i).getLast? rest.head?) = true := by
  constructor
  · rintro ⟨a, m, b, rfl, hm, hbounded⟩
    refine ⟨a.length, by simp, ?_⟩
    rw [List.drop_left, List.take_left, dropSame?_append hm]
    exact hbounded
  · rintro ⟨i, -, hi⟩
    obtain ⟨rest, hd, hbounded⟩ := (Option.any_eq_true _ _).1 hi
    obtain ⟨m, hm, hms⟩ := exists_of_dropSame? hd
    exact ⟨t.take i, m, rest, by rw [← hm, List.take_append_drop], hms, hbounded⟩

instance (value t : List Char) : Decidable (OccursBounded value t) :=
  decidable_of_iff _ occursBounded_iff.symm

def valueOf (ps : Parameters) (name : String) : List Char :=
  ((ps.get? name).getD "").toList

theorem valueOf_eq {ps : Parameters} {p : String × String} (h : p ∈ ps.entries) :
    ps.valueOf p.1 = p.2.toList := by
  rw [valueOf, (Keyed.get?_eq_some_iff ps).2 h, Option.getD_some]

section Parametrize

variable {value image w u : List Char} {before : Option Char}

theorem isSegmentChar_of_same {m : List Char} (hv : IsIdentifier value) (hm : same m value = true)
    {c : Char} (hc : c ∈ m) : isSegmentChar c = true :=
  (hv.of_same hm).isQualifier.2 c hc

theorem replaceFrom_chunk (hv : IsIdentifier value) {k : List Char}
    (hend : u = [] ∨ k.getLast?.all startsValue = true) (hfree : ¬ OccursBounded value k) :
    replaceFrom isBounded value image 0 before (k ++ u) =
      k ++ replaceFrom isBounded value image 0 (k.getLast?.or before) u := by
  refine replaceFrom_append fun a c b rest hk hd => ?_
  obtain ⟨m, hm, hms⟩ := exists_of_dropSame? hd
  obtain ⟨b', hb', rfl⟩ : ∃ b', c :: b = m ++ b' ∧ rest = b' ++ u := by
    rw [← List.cons_append] at hm
    rcases List.append_eq_append_iff.1 hm with ⟨past, rfl, hu⟩ | h
    · rcases hend with rfl | hend
      · obtain ⟨rfl, rfl⟩ := List.append_eq_nil_iff.1 hu.symm
        exact ⟨[], by simp, rfl⟩
      · -- The match covers the last character of the stretch, which would have to bound it.
        have hlast : (c :: b).getLast?.all startsValue = true := by
          rw [hk] at hend
          exact getLast?_all_of_append hend
        rw [List.getLast?_eq_getLast_of_ne_nil (List.cons_ne_nil _ _), Option.all_some,
          startsValue_eq_false (isSegmentChar_of_same hv hms
            (List.mem_append_left past (List.getLast_mem _)))] at hlast
        cases hlast
    · exact h
  rw [Bool.eq_false_iff]
  intro hbounded
  rw [isBounded, Bool.and_eq_true] at hbounded
  refine hfree ⟨a, m, b', by rw [hk, hb'], hms, ?_⟩
  rw [isBounded, Bool.and_eq_true]
  exact ⟨all_of_or hbounded.1, all_of_head?_append hbounded.2⟩

theorem replaceFrom_word (hv : IsIdentifier value) (hw : IsIdentifier w)
    (hne : same w value = false) (hu : u.head?.all endsValue = true) :
    replaceFrom isBounded value image 0 before (w ++ u) =
      w ++ replaceFrom isBounded value image 0 (w.getLast?.or before) u := by
  refine replaceFrom_append fun a c b rest hsplit hd => ?_
  rcases List.eq_nil_or_concat a with rfl | ⟨a, l, rfl⟩
  · obtain ⟨m, hm, hms⟩ := exists_of_dropSame? hd
    rw [List.nil_append] at hsplit
    rw [← List.cons_append, ← hsplit] at hm
    have hends {x : Char} (hx : x ∈ w ∨ x ∈ m) : endsValue x = false := by
      rcases hx with hx | hx
      · exact endsValue_eq_false (hw.isQualifier.2 x hx)
      · exact endsValue_eq_false (isSegmentChar_of_same hv hms hx)
    rcases List.append_eq_append_iff.1 hm with ⟨past, rfl, rfl⟩ | ⟨b', rfl, rfl⟩
    · cases past with
      | nil =>
          rw [List.append_nil, hne] at hms
          cases hms
      | cons x past =>
          rw [List.cons_append, List.head?_cons, Option.all_some,
            hends (.inr (by simp))] at hu
          cases hu
    · cases b' with
      | nil =>
          rw [List.append_nil, hms] at hne
          cases hne
      | cons x b' =>
          rw [isBounded, List.cons_append, List.head?_cons, Option.all_some,
            hends (.inl (by simp)), Bool.and_false]
  · have hl : isSegmentChar l = true := hw.isQualifier.2 l (by simp [hsplit])
    rw [List.concat_eq_append, List.getLast?_concat, Option.some_or, isBounded, Option.all_some,
      startsValue_eq_false hl, Bool.false_and]

end Parametrize

section RoundTrip

variable {ps : Parameters} {q : String × String}

def Shows (ps : Parameters) (f : String → List Char) : Prop :=
  ∀ name, f name = placeholder name ∨ f name = ps.valueOf name

def hide (f : String → List Char) (q : String × String) : String → List Char :=
  Function.update f q.1 (placeholder q.1)

variable {f : String → List Char} {name : String}

theorem hide_eq (h : f name = placeholder name ∨ name = q.1) : hide f q name = placeholder name := by
  by_cases hname : name = q.1
  · rw [hname, hide, Function.update_self]
  · rw [hide, Function.update_of_ne hname]
    exact h.resolve_right hname

theorem Shows.hide (hf : ps.Shows f) (q : String × String) : ps.Shows (hide f q) := by
  intro name
  by_cases hname : name = q.1
  · exact .inl (hide_eq (.inr hname))
  · rw [Parameters.hide, Function.update_of_ne hname]
    exact hf name

theorem exists_of_mem_keys (h : name ∈ ps.keys) : ∃ p ∈ ps.entries, p.1 = name :=
  List.mem_map.1 h

theorem eq_of_name_eq {p : String × String} (hp : p ∈ ps.entries) (hq : q ∈ ps.entries)
    (h : p.1 = q.1) : p = q := by
  have hget := (Keyed.get?_eq_some_iff ps).2 hp
  rw [h, (Keyed.get?_eq_some_iff ps).2 hq] at hget
  exact Prod.ext h (Option.some.inj hget).symm

theorem IsDistinct.value_ne (hps : ps.IsDistinct) {p : String × String} (hp : p ∈ ps.entries)
    (hq : q ∈ ps.entries) (hne : p ≠ q) : same p.2.toList q.2.toList = false := by
  have hsymm : Std.Symm fun p q : String × String => sameText p.2 q.2 = false := symm_sameText _
  exact hps.values.forall hp hq hne

/-- At a placeholder the pass for `q` either turns the value of `q` into the placeholder, or goes on
behind what is shown. -/
theorem exists_replaceFrom_slot (hps : ps.IsDistinct) (hq : q ∈ ps.entries) (hf : ps.Shows f)
    (hname : name ∈ ps.keys) {u : List Char} (hu : u.head?.all endsValue = true)
    {before : Option Char} (hbefore : before.all startsValue = true) : ∃ before',
      replaceFrom isBounded q.2.toList (placeholder q.1) 0 before (f name ++ u) =
        hide f q name ++ replaceFrom isBounded q.2.toList (placeholder q.1) 0 before' u := by
  obtain ⟨p, hp, rfl⟩ := exists_of_mem_keys hname
  have hvalue := hps.value q hq
  rcases hf p.1 with hshown | hshown
  · rw [hide_eq (.inl hshown), hshown, spares_isBounded (hps.name p hp) hvalue.isUnmarked]
    exact ⟨_, rfl⟩
  · rw [hshown, valueOf_eq hp]
    by_cases hpq : p = q
    · subst hpq
      rw [hide_eq (.inr rfl), replaceFrom_of_match hvalue.1 (same_refl _)
        (by rw [isBounded, hbefore, hu, Bool.and_true])]
      exact ⟨_, rfl⟩
    · have hne : p.1 ≠ q.1 := fun h => hpq (eq_of_name_eq hp hq h)
      rw [hide, Function.update_of_ne hne, hshown, valueOf_eq hp,
        replaceFrom_word hvalue.isIdentifier (hps.value p hp).isIdentifier
          (hps.value_ne hp hq hpq) hu]
      exact ⟨_, rfl⟩

theorem replaceFrom_render (hps : ps.IsDistinct) (hq : q ∈ ps.entries) (hf : ps.Shows f)
    {k : List Char} {slots : List (String × List Char)}
    (hkeys : ∀ s ∈ slots, s.1 ∈ ps.keys) (hbounded : Template.IsBounded ⟨k, slots⟩)
    (hfree : ∀ c ∈ Template.chunks ⟨k, slots⟩, ¬ OccursBounded q.2.toList c)
    {before : Option Char} (hbefore : before = none ∨ (k = [] → slots = [])) :
    replaceFrom isBounded q.2.toList (placeholder q.1) 0 before (Template.render f ⟨k, slots⟩) =
      Template.render (hide f q) ⟨k, slots⟩ := by
  have hv := (hps.value q hq).isIdentifier
  induction slots generalizing k before with
  | nil =>
      have hchunk : replaceFrom isBounded q.2.toList (placeholder q.1) 0 before (k ++ []) = _ :=
        replaceFrom_chunk hv (.inl rfl) (hfree k List.mem_cons_self)
      rw [List.append_nil] at hchunk
      rw [render_nil, render_nil, hchunk]
      simp [replaceFrom]
  | cons s slots ih =>
      obtain ⟨name, k'⟩ := s
      obtain ⟨hfront, hnil, hbehind, hrest⟩ := hbounded.cons
      obtain ⟨hk, hfree⟩ := List.forall_mem_cons.1 hfree
      obtain ⟨hname, hkeys⟩ := List.forall_mem_cons.1 hkeys
      have hstart : (k.getLast?.or before).all startsValue = true := by
        cases k with
        | nil =>
            rcases hbefore with rfl | h
            · rfl
            · exact absurd (h rfl) (List.cons_ne_nil _ _)
        | cons c k =>
            rw [List.getLast?_eq_getLast_of_ne_nil (List.cons_ne_nil c k)] at hfront ⊢
            exact hfront
      have hhead : (Template.render f ⟨k', slots⟩).head?.all endsValue = true := by
        rw [head?_render hnil]
        exact hbehind
      obtain ⟨before', hslot⟩ := exists_replaceFrom_slot hps hq hf hname hhead hstart
      rw [render_cons, render_cons, replaceFrom_chunk hv (.inr hfront) hk, hslot,
        ih hkeys hrest hfree (.inr hnil)]

variable {T : Template}

theorem foldl_hide {es : List (String × String)} (h : f name = placeholder name ∨ name ∈ es.map (·.1)) :
    es.foldl hide f name = placeholder name := by
  induction es generalizing f with
  | nil => exact h.resolve_right List.not_mem_nil
  | cons q es ih =>
      refine ih ?_
      rw [List.map_cons, List.mem_cons, ← or_assoc] at h
      exact h.imp_left hide_eq

theorem parametrizeWith_render (hps : ps.IsDistinct) (hkeys : ∀ s ∈ T.slots, s.1 ∈ ps.keys)
    (hbounded : T.IsBounded)
    (hfree : ∀ k ∈ T.chunks, ∀ p ∈ ps.entries, ¬ OccursBounded p.2.toList k) :
    parametrizeWith isBounded ps (T.render ps.valueOf) = T.text := by
  have hfold (es : List (String × String)) (hes : es ⊆ ps.entries) (f : String → List Char)
      (hf : ps.Shows f) :
      es.foldl (fun t p => replaceSame isBounded p.2.toList (placeholder p.1) t) (T.render f) =
        T.render (es.foldl hide f) := by
    induction es generalizing f with
    | nil => rfl
    | cons q es ih =>
        obtain ⟨hq, hes⟩ := List.cons_subset.1 hes
        have hpass : replaceSame isBounded q.2.toList (placeholder q.1) (T.render f) =
            T.render (hide f q) :=
          replaceFrom_render hps hq hf hkeys hbounded (fun c hc => hfree c hc q hq) (.inl rfl)
        rw [List.foldl_cons, List.foldl_cons, hpass, ih hes _ (hf.hide q)]
  rw [parametrizeWith, hfold ps.entries (List.Subset.refl _) ps.valueOf fun _ => .inr rfl]
  exact render_congr fun s hs => foldl_hide (.inr (hkeys s hs))

theorem stands_render {k : List Char} {slots : List (String × List Char)}
    (hkeys : ∀ s ∈ slots, s.1 ∈ ps.keys) :
    Stands (fun p m => p ∈ ps.entries ∧ m = p.2.toList) (Template.text ⟨k, slots⟩)
      (Template.render ps.valueOf ⟨k, slots⟩) := by
  rw [Template.text]
  induction slots generalizing k with
  | nil =>
      rw [render_nil, render_nil]
      exact .refl k
  | cons s slots ih =>
      obtain ⟨name, k'⟩ := s
      obtain ⟨hname, hrest⟩ := List.forall_mem_cons.1 hkeys
      obtain ⟨p, hp, rfl⟩ := exists_of_mem_keys hname
      rw [render_cons, render_cons]
      exact (Stands.slot ⟨hp, valueOf_eq hp⟩ (ih hrest)).append k

theorem isUnopened_render (hps : ps.IsDistinct) {k : List Char} {slots : List (String × List Char)}
    (hkeys : ∀ s ∈ slots, s.1 ∈ ps.keys)
    (hopen : ∀ c ∈ Template.chunks ⟨k, slots⟩, IsUnopened c) :
    IsUnopened (Template.render ps.valueOf ⟨k, slots⟩) := by
  induction slots generalizing k with
  | nil =>
      rw [render_nil]
      exact hopen k List.mem_cons_self
  | cons s slots ih =>
      obtain ⟨name, k'⟩ := s
      obtain ⟨hname, hrest⟩ := List.forall_mem_cons.1 hkeys
      obtain ⟨hk, hopen⟩ := List.forall_mem_cons.1 hopen
      obtain ⟨p, hp, rfl⟩ := exists_of_mem_keys hname
      have hvalue := (hps.value p hp).isUnmarked
      rw [render_cons, valueOf_eq hp]
      refine hk.append (isUnopened_append_of_not_mem hvalue.1 (ih hrest hopen)) ?_
      rw [List.head?_append_of_ne_nil _ (hps.value p hp).1]
      exact fun hhead => hvalue.2.1 (List.mem_of_mem_head? hhead)

theorem injectChars_text (hps : ps.IsDistinct) (hkeys : ∀ s ∈ T.slots, s.1 ∈ ps.keys)
    (hopen : ∀ k ∈ T.chunks, IsUnopened k) : ps.injectChars T.text = T.render ps.valueOf :=
  foldl_inject (fun p hp => (hps.name p hp).isUnmarked) hps.names (isUnopened_render hps hkeys hopen)
    (stands_render hkeys)

/-- Templating is undone by putting in the values and done again by taking them out: a template whose
placeholders stand on their own, and no value with them, comes back unchanged. -/
theorem parametrize_inject (hps : ps.IsDistinct) (hkeys : ∀ s ∈ T.slots, s.1 ∈ ps.keys)
    (hopen : ∀ k ∈ T.chunks, IsUnopened k) (hbounded : T.IsBounded)
    (hfree : ∀ k ∈ T.chunks, ∀ p ∈ ps.entries, ¬ OccursBounded p.2.toList k) :
    ps.parametrize (ps.inject (String.ofList T.text)) = String.ofList T.text := by
  rw [parametrize, inject, String.toList_ofList, String.toList_ofList,
    injectChars_text hps hkeys hopen, parametrizeWith_render hps hkeys hbounded hfree]

theorem parametrize_inject_device :
    let ps : Parameters := ⟨[("db", "TEST_DB"), ("env", "dev")], by decide⟩
    let T : Template := ⟨"SELECT device FROM ".toList, [("db", ".".toList), ("env", ".T;".toList)]⟩
    (ps.IsDistinct ∧ (∀ s ∈ T.slots, s.1 ∈ ps.keys) ∧ (∀ k ∈ T.chunks, IsUnopened k) ∧
      T.IsBounded ∧ ∀ k ∈ T.chunks, ∀ p ∈ ps.entries, ¬ OccursBounded p.2.toList k) ∧
    ps.parametrize (ps.inject (String.ofList T.text)) = String.ofList T.text := by
  intro ps T
  have hps : ps.IsDistinct := ⟨by decide, by decide, by decide, by decide⟩
  have hkeys : ∀ s ∈ T.slots, s.1 ∈ ps.keys := by decide
  have hopen : ∀ k ∈ T.chunks, IsUnopened k := by decide
  have hbounded : T.IsBounded := by decide
  have hfree : ∀ k ∈ T.chunks, ∀ p ∈ ps.entries, ¬ OccursBounded p.2.toList k := by decide
  exact ⟨⟨hps, hkeys, hopen, hbounded, hfree⟩,
    parametrize_inject hps hkeys hopen hbounded hfree⟩

end RoundTrip

end Parameters

end SchemaDeploy
