import SchemaDeploy.Proofs.TemplateRoundTrip

namespace SchemaDeploy

namespace Parameters

open Text Template

variable {ps : Parameters} {q : String × String} {es : List (String × String)}
  {f : String → List Char} {name : String} {k u image : List Char}

/-- No name or value has a character that marks a placeholder, and no value is empty. -/
structure AreUnmarked (ps : Parameters) : Prop where
  name : ∀ p ∈ ps.entries, IsUnmarked p.1.toList
  value : ∀ p ∈ ps.entries, IsUnmarked p.2.toList
  nonempty : ∀ p ∈ ps.entries, p.2 ≠ ""

/-- What a placeholder becomes: the value of the first parameter that has its name in any case. -/
def substitute (ps : Parameters) (name : String) : List Char :=
  ((ps.entries.find? fun p => sameText p.1 name).map (·.2.toList)).getD (placeholder name)

/-- A name is shown as its placeholder, or as a text that no placeholder has a part in. -/
def Settles (f : String → List Char) (name : String) : Prop :=
  f name = placeholder name ∨ IsUnmarked (f name) ∧ f name ≠ []

/-- Shows the names that `q` has in some case as its value, if they were placeholders before. -/
def put (f : String → List Char) (q : String × String) : String → List Char := fun name =>
  if f name = placeholder name ∧ sameText q.1 name = true then q.2.toList else f name

section Pass

theorem replaceSame_append (h : ∀ a b, k = a ++ '$' :: b → (b ++ u).head? ≠ some '{') :
    replaceSame anywhere (placeholder q.1) image (k ++ u) =
      k ++ replaceSame anywhere (placeholder q.1) image u := by
  rw [replaceSame, replaceFrom_append, replaceFrom_anywhere]
  intro a c b rest hk hd
  obtain ⟨w, hw, -⟩ := exists_of_dropSame?_placeholder hd
  obtain ⟨rfl, hb⟩ := List.cons.inj hw
  exact absurd (congrArg List.head? hb) (h a b hk)

theorem replaceSame_chunk (hk : IsUnopened k) (hu : u.head? ≠ some '{') :
    replaceSame anywhere (placeholder q.1) image (k ++ u) =
      k ++ replaceSame anywhere (placeholder q.1) image u := by
  refine replaceSame_append fun a b hsplit hhead => ?_
  cases b with
  | nil => exact hu hhead
  | cons c b =>
      obtain rfl : c = '{' := Option.some.inj hhead
      exact hk ⟨a, b, by rw [hsplit]; simp⟩

theorem replaceSame_value (hk : IsUnmarked k) (u : List Char) :
    replaceSame anywhere (placeholder q.1) image (k ++ u) =
      k ++ replaceSame anywhere (placeholder q.1) image u := by
  refine replaceSame_append fun a b hsplit => absurd ?_ hk.1
  rw [hsplit]
  exact List.mem_append_right a List.mem_cons_self

theorem replaceSame_slot (hq : IsUnmarked q.1.toList) (hname : IsUnmarked name.toList)
    (hf : Settles f name) (u : List Char) :
    replaceSame anywhere (placeholder q.1) q.2.toList (f name ++ u) =
      put f q name ++ replaceSame anywhere (placeholder q.1) q.2.toList u := by
  by_cases hshown : f name = placeholder name
  · cases hs : sameText q.1 name with
    | true =>
        rw [put, if_pos ⟨hshown, hs⟩, hshown]
        exact replaceSame_placeholder_of_same (same_symm hs) q.2.toList u
    | false =>
        have hne : same name.toList q.1.toList = false := by
          rw [Bool.eq_false_iff] at hs ⊢
          exact fun h => hs (same_symm h)
        rw [put, if_neg (by simp [hs]), hshown]
        exact replaceSame_placeholder_of_ne hq hname hne u
  · rw [put, if_neg fun h => hshown h.1]
    exact replaceSame_value (hf.resolve_left hshown).1 u

theorem Settles.head? (h : Settles f name) (u : List Char) : (f name ++ u).head? ≠ some '{' := by
  rcases h with h | ⟨hmarks, hne⟩
  · rw [h, placeholder_append]
    simp
  · rw [List.head?_append_of_ne_nil _ hne]
    exact fun hhead => hmarks.2.1 (List.mem_of_mem_head? hhead)

theorem Settles.put (h : Settles f name) (hvalue : IsUnmarked q.2.toList) (hne : q.2 ≠ "") :
    Settles (put f q) name := by
  rw [Settles, Parameters.put]
  split
  · exact .inr ⟨hvalue, by rwa [Ne, String.toList_eq_nil_iff]⟩
  · exact h

theorem replaceSame_render (hq : IsUnmarked q.1.toList) {slots : List (String × List Char)}
    (hopen : ∀ c ∈ Template.chunks ⟨k, slots⟩, IsUnopened c)
    (hslots : ∀ s ∈ slots, IsUnmarked s.1.toList) (hf : ∀ s ∈ slots, Settles f s.1) :
    replaceSame anywhere (placeholder q.1) q.2.toList (Template.render f ⟨k, slots⟩) =
      Template.render (put f q) ⟨k, slots⟩ := by
  induction slots generalizing k with
  | nil =>
      have hchunk : replaceSame anywhere (placeholder q.1) q.2.toList (k ++ []) = _ :=
        replaceSame_chunk (hopen k List.mem_cons_self) (by simp)
      rw [List.append_nil] at hchunk
      rw [render_nil, render_nil, hchunk]
      simp [replaceSame, replaceFrom]
  | cons s slots ih =>
      obtain ⟨name, k'⟩ := s
      obtain ⟨hk, hopen⟩ := List.forall_mem_cons.1 hopen
      obtain ⟨hname, hslots⟩ := List.forall_mem_cons.1 hslots
      obtain ⟨hfname, hf⟩ := List.forall_mem_cons.1 hf
      rw [render_cons, render_cons, replaceSame_chunk hk (hfname.head? _),
        replaceSame_slot hq hname hfname, ih hopen hslots hf]

end Pass

section Passes

theorem foldl_put_of_ne (h : f name ≠ placeholder name) : es.foldl put f name = f name := by
  induction es generalizing f with
  | nil => rfl
  | cons q es ih =>
      have hstay : put f q name = f name := if_neg fun hq => h hq.1
      rw [List.foldl_cons, ih (by rwa [hstay]), hstay]

theorem foldl_put (hes : ∀ p ∈ es, IsUnmarked p.2.toList) (h : f name = placeholder name) :
    es.foldl put f name =
      ((es.find? fun p => sameText p.1 name).map (·.2.toList)).getD (placeholder name) := by
  induction es generalizing f with
  | nil => exact h
  | cons q es ih =>
      obtain ⟨hq, hes⟩ := List.forall_mem_cons.1 hes
      rw [List.foldl_cons, List.find?_cons]
      cases hs : sameText q.1 name with
      | true =>
          have hput : put f q name = q.2.toList := if_pos ⟨h, hs⟩
          have hvalue : put f q name ≠ placeholder name := by
            rw [hput]
            intro heq
            refine hq.1 ?_
            rw [heq, placeholder_eq]
            exact List.mem_cons_self
          rw [foldl_put_of_ne hvalue, hput]
          rfl
      | false =>
          have hput : put f q name = f name := if_neg (by simp [hs])
          exact ih hes (hput.trans h)

theorem injectChars_render (hps : ps.AreUnmarked) {T : Template}
    (hopen : ∀ k ∈ T.chunks, IsUnopened k) (hslots : ∀ s ∈ T.slots, IsUnmarked s.1.toList)
    (hf : ∀ s ∈ T.slots, Settles f s.1) :
    ps.injectChars (T.render f) = T.render (ps.entries.foldl put f) := by
  have hfold (es : List (String × String)) (hes : es ⊆ ps.entries) (f : String → List Char)
      (hf : ∀ s ∈ T.slots, Settles f s.1) :
      es.foldl (fun t p => replaceSame anywhere (placeholder p.1) p.2.toList t) (T.render f) =
        T.render (es.foldl put f) := by
    induction es generalizing f with
    | nil => rfl
    | cons q es ih =>
        obtain ⟨hq, hes⟩ := List.cons_subset.1 hes
        rw [List.foldl_cons, List.foldl_cons, replaceSame_render (hps.name q hq) hopen hslots hf]
        exact ih hes _ fun s hs => (hf s hs).put (hps.value q hq) (hps.nonempty q hq)
  exact hfold ps.entries (List.Subset.refl _) f hf

theorem settles_substitute (hps : ps.AreUnmarked) (name : String) :
    Settles ps.substitute name := by
  rw [Settles, substitute]
  cases hfind : ps.entries.find? fun p => sameText p.1 name with
  | none => exact .inl rfl
  | some p =>
      have hp := List.mem_of_find?_eq_some hfind
      have hne : p.2.toList ≠ [] := by
        rw [Ne, String.toList_eq_nil_iff]
        exact hps.nonempty p hp
      exact .inr ⟨hps.value p hp, hne⟩

/-- Each placeholder of a template becomes the value of the first parameter of its name, or stays if
there is none, and nothing else changes. Putting the values in again changes nothing. -/
theorem inject_text (hps : ps.AreUnmarked) {T : Template} (hopen : ∀ k ∈ T.chunks, IsUnopened k)
    (hslots : ∀ s ∈ T.slots, IsUnmarked s.1.toList) :
    ps.inject (String.ofList T.text) = String.ofList (T.render ps.substitute) ∧
      ps.inject (ps.inject (String.ofList T.text)) = ps.inject (String.ofList T.text) := by
  have hfirst : ps.injectChars T.text = T.render ps.substitute := by
    rw [text, injectChars_render hps hopen hslots fun _ _ => .inl rfl]
    exact render_congr fun s _ => foldl_put hps.value rfl
  have hsecond : ps.injectChars (T.render ps.substitute) = T.render ps.substitute := by
    rw [injectChars_render hps hopen hslots fun s _ => settles_substitute hps s.1]
    refine render_congr fun s _ => ?_
    by_cases h : ps.substitute s.1 = placeholder s.1
    · exact foldl_put hps.value h
    · exact foldl_put_of_ne h
  simp only [inject, String.toList_ofList, hfirst, hsecond, and_self]

theorem inject_text_sharedNames :
    let ps : Parameters := ⟨[("DB", "SALES"), ("db", "x"), ("env", "dev")], by decide⟩
    let T : Template := ⟨"$".toList,
      [("db", "\x7benv\x7d.$".toList), ("ENV", []), ("e", "env\x7d".toList)]⟩
    (ps.AreUnmarked ∧ (∀ k ∈ T.chunks, IsUnopened k) ∧
      ∀ s ∈ T.slots, IsUnmarked s.1.toList) ∧
    String.ofList T.text = "$$\x7bdb\x7d\x7benv\x7d.$$\x7bENV\x7d$\x7be\x7denv\x7d" ∧
    String.ofList (T.render ps.substitute) = "$SALES\x7benv\x7d.$dev$\x7be\x7denv\x7d" ∧
    ps.inject (String.ofList T.text) = String.ofList (T.render ps.substitute) ∧
      ps.inject (ps.inject (String.ofList T.text)) = ps.inject (String.ofList T.text) := by
  intro ps T
  have hps : ps.AreUnmarked := ⟨by decide, by decide, by decide⟩
  have hopen : ∀ k ∈ T.chunks, IsUnopened k := by decide
  have hslots : ∀ s ∈ T.slots, IsUnmarked s.1.toList := by decide
  exact ⟨⟨hps, hopen, hslots⟩, by decide, by decide, inject_text hps hopen hslots⟩

end Passes

end Parameters

end SchemaDeploy
