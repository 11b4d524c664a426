import SchemaDeploy.Proofs.Replacements
import SchemaDeploy.Proofs.StatementPieces
import SchemaDeploy.Proofs.ViewHeaders

namespace SchemaDeploy.Sql

open Text Body

variable {first second x y : String} {gap k n rest t w : List Char} {o : ObjectType}

section Words

def IsWord (w : List Char) : Prop :=
  w ≠ [] ∧ ∀ c ∈ w, isWord c = true

def IsGap (b : List Char) : Prop :=
  b ≠ [] ∧ allBlank b = true

def IsKeyword (x : String) : Prop :=
  x.toList ≠ [] ∧ x.toList.all Char.isAlpha = true

instance (x : String) : Decidable (IsKeyword x) :=
  inferInstanceAs (Decidable (_ ∧ _))

theorem IsGap.head? (h : IsGap gap) (t : List Char) : (gap ++ t).head?.all (!isWord ·) = true := by
  obtain ⟨c, b, rfl⟩ := List.exists_cons_of_ne_nil h.1
  have hc := List.all_eq_true.1 h.2 c List.mem_cons_self
  simpa using isWord_eq_false_of_isBlank hc

theorem IsWord.head? (hw : IsWord w) (t : List Char) : (w ++ t).head?.all (!isBlank ·) = true :=
  MigrationFile.head?_append_not_blank (fun _ => isWord_eq_false_of_isBlank) hw.1 hw.2 t

theorem IsKeyword.isWord (hx : IsKeyword x) (h : Spells x.toList w) : IsWord w := by
  refine ⟨?_, isWord_of_spells (List.all_eq_true.1 hx.2) h⟩
  rintro rfl
  exact hx.1 (List.forall₂_nil_right_iff.1 h)

theorem IsKeyword.spells_of_spaced? {r : List Char} (hx : IsKeyword x) (hw : IsWord w)
    (hgap : IsGap gap) (ht : t.head?.all (!isBlank ·) = true)
    (h : spaced? x (w ++ (gap ++ t)) = some r) : Spells x.toList w ∧ r = t := by
  obtain ⟨_, hsplit, ⟨v, b, rfl, hv, hb⟩, hr⟩ := spaced?_eq_some_iff.1 h
  have hspan := span_eq_iff.2 ⟨rfl, hw.2, hgap.head? t⟩
  rw [hsplit, List.append_assoc, span_eq_iff.2 ⟨rfl, (hx.isWord hv).2, IsGap.head? hb r⟩] at hspan
  obtain ⟨rfl, hrest⟩ := Prod.mk.inj hspan
  have hrest := congrArg trimStart hrest
  rw [trimStart_append hb.2 hr, trimStart_append hgap.2 ht] at hrest
  exact ⟨hv, hrest⟩

theorem same_of_spells {ks ks' : List Char} (hks : ∀ k ∈ ks, k.isAlpha = true)
    (hks' : ∀ k ∈ ks', k.isAlpha = true) (h : Spells ks w) (h' : Spells ks' w) :
    same ks ks' = true := by
  rw [same, beq_iff_eq]
  induction h generalizing ks' with
  | nil =>
      cases h'
      rfl
  | cons hk _ ih =>
      obtain ⟨hkalpha, hks⟩ := List.forall_mem_cons.1 hks
      cases h' with
      | cons hk' h' =>
          obtain ⟨hkalpha', hks'⟩ := List.forall_mem_cons.1 hks'
          rw [List.map_cons, List.map_cons, ih hks hks' h', toLower_of_foldsTo hkalpha hk,
            toLower_of_foldsTo hkalpha' hk']

theorem IsKeyword.spaced?_eq_none (hx : IsKeyword x) (hy : IsKeyword y)
    (hne : same x.toList y.toList = false) (hw : Spells y.toList w) (hgap : IsGap gap)
    (ht : t.head?.all (!isBlank ·) = true) : spaced? x (w ++ (gap ++ t)) = none := by
  refine Option.eq_none_iff_forall_ne_some.2 fun r hr => ?_
  have hspells := (hx.spells_of_spaced? (hy.isWord hw) hgap ht hr).1
  have hsame := same_of_spells (List.all_eq_true.1 hx.2) (List.all_eq_true.1 hy.2) hspells hw
  rw [hne] at hsame
  cases hsame

theorem spells_of_same {ks : List Char} (h : same ks w = true) : Spells ks w := by
  have heq : List.Forall₂ (· = ·) (ks.map Char.toLower) (w.map Char.toLower) := by
    rw [eq_of_beq h]
    exact List.forall₂_refl _
  rw [List.forall₂_map_left_iff, List.forall₂_map_right_iff] at heq
  exact heq.imp fun k c hkc => by simp [foldsTo, sameLetter, hkc]

theorem splitWhere_of_forall {p : Char → Bool} (h : ∀ c ∈ t, p c = false) : splitWhere p t = [t] := by
  induction t with
  | nil => rfl
  | cons c t ih =>
      obtain ⟨hc, ht⟩ := List.forall_mem_cons.1 h
      rw [splitWhere, if_neg (by simp [hc]), ih ht]

theorem IsWord.collapse (hw : IsWord w) : Text.collapse w = w := by
  have hblank : ∀ c ∈ w, isBlank c = false := fun c hc => by
    cases hb : isBlank c with
    | false => rfl
    | true => rw [← hw.2 c hc, isWord_eq_false_of_isBlank hb]
  rw [Text.collapse, words, splitWhere_of_forall hblank]
  simp [hw.1]

theorem IsWord.spells_singular (hw : IsWord w)
    (ho : ObjectType.ofSingular? (String.ofList w) = some o) :
    IsKeyword o.singular ∧ Spells o.singular.toList w := by
  have hsame : same o.singular.toList w = true := by
    have hfound := List.find?_some ho
    rwa [sameText, String.toList_ofList, String.toList_ofList, hw.collapse] at hfound
  refine ⟨?_, spells_of_same hsame⟩
  have hkeyword : IsKeyword o.singular ∨ ' ' ∈ o.singular.toList := by
    cases o <;> decide
  refine hkeyword.resolve_right fun hspace => ?_
  exact absurd (hw.2 ' ' (mem_of_same hsame rfl hspace)) (by decide)

end Words

section Heads

def isObjectChar (c : Char) : Bool :=
  !isBlank c && c != '('

def IsNameBefore (rest n : List Char) : Prop :=
  n ≠ [] ∧ (∀ c ∈ n, isObjectChar c = true) ∧ rest.head?.all (!isObjectChar ·) = true

def IsModifier (u : List Char) : Prop :=
  u = [] ∨ ∃ m ∈ modifiers, IsSpaced m u

def twoWordTypes : List (String × String) :=
  [("FILE", "FORMAT"), ("DYNAMIC", "TABLE")]

/-- The keyword of a type: one word, or two words with a gap between them. -/
inductive IsTypeKeyword : List Char → Prop
  | word {w : List Char} (hw : IsWord w) : IsTypeKeyword w
  | words {first second : String} {u w : List Char} (htype : (first, second) ∈ twoWordTypes)
      (hu : IsSpaced first u) (hw : Spells second.toList w) : IsTypeKeyword (u ++ w)

/-- Everything before the name in a statement that defines an object. -/
inductive Introduces (o : ObjectType) : List Char → Prop
  | intro {lead create or replace modifier k gap : List Char} (hlead : allBlank lead = true)
      (hcreate : IsSpaced "CREATE" create) (hor : IsSpaced "OR" or)
      (hreplace : IsSpaced "REPLACE" replace) (hmodifier : IsModifier modifier)
      (hk : IsTypeKeyword k) (ho : ObjectType.ofSingular? (String.ofList k) = some o)
      (hgap : IsGap gap) :
      Introduces o (lead ++ (create ++ (or ++ (replace ++ (modifier ++ (k ++ gap))))))

theorem isObjectChar_eq_false_of_isBlank {c : Char} (h : isBlank c = true) :
    isObjectChar c = false := by
  rw [isObjectChar, h]
  rfl

theorem nameAfter?_eq_some_iff : nameAfter? t = some n ↔
    ∃ gap rest, t = gap ++ (n ++ rest) ∧ IsGap gap ∧ IsNameBefore rest n := by
  rw [nameAfter?]
  constructor
  · intro h
    obtain ⟨r, hr, h⟩ := Option.bind_eq_some_iff.1 h
    obtain ⟨⟨_, rest⟩, hrun, h⟩ := Option.bind_eq_some_iff.1 h
    obtain rfl := Option.some.inj h
    obtain ⟨gap, rfl, hne, hgap, -⟩ := blanks?_eq_some_iff.1 hr
    obtain ⟨rfl, hn⟩ := run?_eq_some_iff.1 hrun
    exact ⟨gap, rest, rfl, ⟨hne, hgap⟩, hn⟩
  · rintro ⟨gap, rest, rfl, hgap, hne, hn, hrest⟩
    have hstart := MigrationFile.head?_append_not_blank
      (fun _ => isObjectChar_eq_false_of_isBlank) hne hn rest
    have hblanks := blanks?_eq_some_iff.2 ⟨gap, rfl, hgap.1, hgap.2, hstart⟩
    have hrun : run? (fun c => !isBlank c && c != '(') (n ++ rest) = some (n, rest) :=
      run?_append hne hn hrest
    rw [hblanks]
    simp only [Option.bind_eq_bind, Option.bind_some, hrun]
    rfl

def twoWords? (first second : String) (t : List Char) : Option (List Char × List Char) := do
  let r ← spaced? first t
  let r ← keyword? second.toList r
  let name ← nameAfter? r
  return (t.take (t.length - r.length), name)

def oneWord? (t : List Char) : Option (List Char × List Char) := do
  let (w, r) ← run? isWord t
  let name ← nameAfter? r
  return (w, name)

theorem objectHead?_eq (t : List Char) : objectHead? t =
    (twoWords? "FILE" "FORMAT" t).or ((twoWords? "DYNAMIC" "TABLE" t).or (oneWord? t)) :=
  rfl

theorem twoWords?_eq_some_iff {c : Char} {cs : List Char} (hsecond : second.toList = c :: cs)
    (hc : c.isAlpha = true) : twoWords? first second t = some (k, n) ↔
      ∃ u w gap rest, k = u ++ w ∧ t = u ++ (w ++ (gap ++ (n ++ rest))) ∧ IsSpaced first u ∧
        Spells second.toList w ∧ IsGap gap ∧ IsNameBefore rest n := by
  rw [twoWords?]
  constructor
  · intro h
    obtain ⟨_, hfirst, h⟩ := Option.bind_eq_some_iff.1 h
    obtain ⟨r, hr, h⟩ := Option.bind_eq_some_iff.1 h
    obtain ⟨n', hn, h⟩ := Option.bind_eq_some_iff.1 h
    obtain ⟨rfl, rfl⟩ := Prod.mk.inj (Option.some.inj h)
    obtain ⟨u, rfl, hu, -⟩ := spaced?_eq_some_iff.1 hfirst
    obtain ⟨w, rfl, hw⟩ := keyword?_eq_some_iff.1 hr
    obtain ⟨gap, rest, rfl, hname⟩ := nameAfter?_eq_some_iff.1 hn
    refine ⟨u, w, gap, rest, ?_, rfl, hu, hw, hname⟩
    rw [← List.append_assoc]
    exact List.take_left' (by simp; omega)
  · rintro ⟨u, w, gap, rest, rfl, rfl, hu, hw, hname⟩
    have hr : keyword? second.toList (w ++ (gap ++ (n ++ rest))) = some (gap ++ (n ++ rest)) :=
      keyword?_eq_some_iff.2 ⟨w, rfl, hw⟩
    have hn := nameAfter?_eq_some_iff.2 ⟨gap, rest, rfl, hname⟩
    have hstart : Starts c (w ++ (gap ++ (n ++ rest))) :=
      starts_of_spells (hsecond ▸ hw) (gap ++ (n ++ rest))
    rw [spaced?_append hu (hstart.not_blank hc)]
    simp only [Option.bind_eq_bind, Option.bind_some, hr, hn, Option.pure_def, Option.some.injEq,
      Prod.mk.injEq, and_true]
    rw [← List.append_assoc]
    exact List.take_left' (by simp; omega)

theorem oneWord?_eq_some_iff : oneWord? t = some (k, n) ↔
    ∃ gap rest, t = k ++ (gap ++ (n ++ rest)) ∧ IsWord k ∧ IsGap gap ∧ IsNameBefore rest n := by
  rw [oneWord?]
  constructor
  · intro h
    obtain ⟨⟨w, r⟩, hrun, h⟩ := Option.bind_eq_some_iff.1 h
    obtain ⟨n', hn, h⟩ := Option.bind_eq_some_iff.1 h
    obtain ⟨rfl, rfl⟩ := Prod.mk.inj (Option.some.inj h)
    obtain ⟨rfl, hne, hw, -⟩ := run?_eq_some_iff.1 hrun
    obtain ⟨gap, rest, rfl, hname⟩ := nameAfter?_eq_some_iff.1 hn
    exact ⟨gap, rest, rfl, ⟨hne, hw⟩, hname⟩
  · rintro ⟨gap, rest, rfl, ⟨hne, hw⟩, hname⟩
    have hn := nameAfter?_eq_some_iff.2 ⟨gap, rest, rfl, hname⟩
    rw [run?_append hne hw (hname.1.head? _)]
    simp only [Option.bind_eq_bind, Option.bind_some, hn]
    rfl

theorem exists_of_objectHead? (h : objectHead? t = some (k, n)) :
    ∃ gap rest, t = k ++ (gap ++ (n ++ rest)) ∧ IsTypeKeyword k ∧ IsGap gap ∧
      IsNameBefore rest n := by
  rw [objectHead?_eq] at h
  rcases Option.or_eq_some_iff.1 h with h | ⟨-, h⟩
  · obtain ⟨u, w, gap, rest, rfl, rfl, hu, hw, hname⟩ :=
      (twoWords?_eq_some_iff rfl (by decide)).1 h
    exact ⟨gap, rest, (List.append_assoc ..).symm, .words (.head _) hu hw, hname⟩
  · rcases Option.or_eq_some_iff.1 h with h | ⟨-, h⟩
    · obtain ⟨u, w, gap, rest, rfl, rfl, hu, hw, hname⟩ :=
        (twoWords?_eq_some_iff rfl (by decide)).1 h
      exact ⟨gap, rest, (List.append_assoc ..).symm, .words (.tail _ (.head _)) hu hw, hname⟩
    · obtain ⟨gap, rest, rfl, hk, hname⟩ := oneWord?_eq_some_iff.1 h
      exact ⟨gap, rest, rfl, .word hk, hname⟩

theorem exists_of_modifiedHead? (h : modifiedHead? t = some (k, n)) :
    ∃ modifier gap rest, t = modifier ++ (k ++ (gap ++ (n ++ rest))) ∧ IsModifier modifier ∧
      IsTypeKeyword k ∧ IsGap gap ∧ IsNameBefore rest n := by
  rcases Option.or_eq_some_iff.1 h with h | ⟨-, h⟩
  · obtain ⟨r, hr, hhead⟩ := Option.bind_eq_some_iff.1 h
    obtain ⟨m, hm, hspaced⟩ := List.exists_of_findSome?_eq_some hr
    obtain ⟨modifier, rfl, hmodifier, -⟩ := spaced?_eq_some_iff.1 hspaced
    obtain ⟨gap, rest, rfl, hk, hname⟩ := exists_of_objectHead? hhead
    exact ⟨modifier, gap, rest, rfl, .inr ⟨m, hm, hmodifier⟩, hk, hname⟩
  · obtain ⟨gap, rest, rfl, hk, hname⟩ := exists_of_objectHead? h
    exact ⟨[], gap, rest, rfl, .inl rfl, hk, hname⟩

def objectOf? (t : List Char) : Option (ObjectType × List Char) := do
  let head ← createOrReplace? (trimStart t)
  let (k, n) ← modifiedHead? head
  let o ← ObjectType.ofSingular? (String.ofList k)
  return (o, n)

theorem exists_of_objectOf? (h : objectOf? t = some (o, n)) : ∃ u rest, t = u ++ (n ++ rest) ∧
    Introduces o u ∧ IsNameBefore rest n := by
  obtain ⟨head, hhead, h⟩ := Option.bind_eq_some_iff.1 h
  obtain ⟨⟨k, n'⟩, hk, h⟩ := Option.bind_eq_some_iff.1 h
  obtain ⟨o', ho, h⟩ := Option.bind_eq_some_iff.1 h
  obtain ⟨rfl, rfl⟩ := Prod.mk.inj (Option.some.inj h)
  obtain ⟨_, hfirst, hhead⟩ := Option.bind_eq_some_iff.1 hhead
  obtain ⟨_, hsecond, hthird⟩ := Option.bind_eq_some_iff.1 hhead
  obtain ⟨create, htrim, hcreate, -⟩ := spaced?_eq_some_iff.1 hfirst
  obtain ⟨or, rfl, hor, -⟩ := spaced?_eq_some_iff.1 hsecond
  obtain ⟨replace, rfl, hreplace, -⟩ := spaced?_eq_some_iff.1 hthird
  obtain ⟨lead, rfl, hlead, -⟩ := trimStart_eq_iff.1 htrim
  obtain ⟨modifier, gap, rest, rfl, hmodifier, hkeyword, hgap, hname⟩ := exists_of_modifiedHead? hk
  exact ⟨_, rest, by simp only [List.append_assoc],
    .intro hlead hcreate hor hreplace hmodifier hkeyword ho hgap, hname⟩

theorem IsNameBefore.head? (h : IsNameBefore rest n) : (n ++ rest).head?.all (!isBlank ·) = true :=
  MigrationFile.head?_append_not_blank (fun _ => isObjectChar_eq_false_of_isBlank) h.1 h.2.1 rest

theorem isKeyword_of_mem_modifiers : ∀ m ∈ modifiers, IsKeyword m := by
  decide

theorem twoWordTypes_spec : ∀ p ∈ twoWordTypes,
    IsKeyword p.1 ∧ IsKeyword p.2 ∧ ∀ m ∈ modifiers, same m.toList p.1.toList = false := by
  decide

theorem IsTypeKeyword.exists_first (hk : IsTypeKeyword k)
    (ho : ObjectType.ofSingular? (String.ofList k) = some o) (hgap : IsGap gap)
    (hname : IsNameBefore rest n) :
    ∃ (y : String) (w b t : List Char), k ++ (gap ++ (n ++ rest)) = w ++ (b ++ t) ∧ IsKeyword y ∧
      Spells y.toList w ∧ IsGap b ∧ t.head?.all (!isBlank ·) = true ∧
      ∀ m ∈ modifiers, same m.toList y.toList = false := by
  cases hk with
  | word hw =>
      obtain ⟨hkeyword, hspells⟩ := hw.spells_singular ho
      have hmodifiers : ∀ m ∈ modifiers, same m.toList o.singular.toList = false := by
        cases o <;> decide
      exact ⟨o.singular, _, gap, n ++ rest, rfl, hkeyword, hspells, hgap, hname.head?, hmodifiers⟩
  | @words first second u w htype hu hw =>
      obtain ⟨v, b, rfl, hv, hb⟩ := hu
      obtain ⟨hfirst, hsecond, hmodifiers⟩ := twoWordTypes_spec _ htype
      exact ⟨first, v, b, w ++ (gap ++ (n ++ rest)), by simp only [List.append_assoc], hfirst, hv, hb,
        (hsecond.isWord hw).head? _, hmodifiers⟩

theorem IsTypeKeyword.head? (hk : IsTypeKeyword k)
    (ho : ObjectType.ofSingular? (String.ofList k) = some o) (hgap : IsGap gap)
    (hname : IsNameBefore rest n) : (k ++ (gap ++ (n ++ rest))).head?.all (!isBlank ·) = true := by
  obtain ⟨y, w, b, t, ht, hy, hw, -⟩ := hk.exists_first ho hgap hname
  rw [ht]
  exact (hy.isWord hw).head? _

theorem IsModifier.head? {modifier : List Char} (h : IsModifier modifier)
    (ht : t.head?.all (!isBlank ·) = true) : (modifier ++ t).head?.all (!isBlank ·) = true := by
  rcases h with rfl | ⟨m, hm, v, b, rfl, hv, -⟩
  · exact ht
  · rw [List.append_assoc]
    exact ((isKeyword_of_mem_modifiers m hm).isWord hv).head? _

theorem objectHead?_append (hk : IsTypeKeyword k)
    (ho : ObjectType.ofSingular? (String.ofList k) = some o) (hgap : IsGap gap)
    (hname : IsNameBefore rest n) :
    objectHead? (k ++ (gap ++ (n ++ rest))) = some (k, n) := by
  rw [objectHead?_eq]
  cases hk with
  | word hw =>
      obtain ⟨hkeyword, hspells⟩ := hw.spells_singular ho
      have hother : same "FILE".toList o.singular.toList = false ∧
          same "DYNAMIC".toList o.singular.toList = false := by
        cases o <;> decide
      have hnone {first second : String} (hfirst : IsKeyword first)
          (hne : same first.toList o.singular.toList = false) :
          twoWords? first second (k ++ (gap ++ (n ++ rest))) = none := by
        rw [twoWords?, hfirst.spaced?_eq_none hkeyword hne hspells hgap hname.head?]
        rfl
      rw [hnone (by decide) hother.1, hnone (by decide) hother.2, Option.none_or, Option.none_or]
      exact oneWord?_eq_some_iff.2 ⟨gap, rest, rfl, hw, hgap, hname⟩
  | @words first second u w htype hu hw =>
      rw [List.append_assoc]
      rcases List.mem_cons.1 htype with htype | htype
      · obtain ⟨rfl, rfl⟩ := Prod.mk.inj htype
        rw [(twoWords?_eq_some_iff rfl (by decide)).2 ⟨u, w, gap, rest, rfl, rfl, hu, hw, hgap, hname⟩]
        rfl
      · obtain ⟨rfl, rfl⟩ := Prod.mk.inj (List.mem_singleton.1 htype)
        have hnone : twoWords? "FILE" "FORMAT" (u ++ (w ++ (gap ++ (n ++ rest)))) = none := by
          rw [twoWords?, (hu.starts rfl _).spaced?_eq_none rfl (by decide) (by decide) (by decide)]
          rfl
        rw [hnone, Option.none_or,
          (twoWords?_eq_some_iff rfl (by decide)).2 ⟨u, w, gap, rest, rfl, rfl, hu, hw, hgap, hname⟩]
        rfl

theorem modifiedHead?_append {modifier : List Char} (hmodifier : IsModifier modifier)
    (hk : IsTypeKeyword k) (ho : ObjectType.ofSingular? (String.ofList k) = some o)
    (hgap : IsGap gap) (hname : IsNameBefore rest n) :
    modifiedHead? (modifier ++ (k ++ (gap ++ (n ++ rest)))) = some (k, n) := by
  have hhead := objectHead?_append hk ho hgap hname
  obtain ⟨y, w, b, t, ht, hy, hw, hb, hstart, hmodifiers⟩ := hk.exists_first ho hgap hname
  rw [modifiedHead?]
  rcases hmodifier with rfl | ⟨m, hm, v, b', rfl, hv, hb'⟩
  · have hnone : modifiers.findSome? (spaced? · (k ++ (gap ++ (n ++ rest)))) = none := by
      rw [List.findSome?_eq_none_iff, ht]
      intro m hm
      exact (isKeyword_of_mem_modifiers m hm).spaced?_eq_none hy (hmodifiers m hm) hw hb hstart
    rw [List.nil_append, hnone, Option.bind_none, Option.none_or, hhead]
  · have hstart' := hk.head? ho hgap hname
    have hv' := (isKeyword_of_mem_modifiers m hm).isWord hv
    have hfound : modifiers.findSome? (spaced? · (v ++ b' ++ (k ++ (gap ++ (n ++ rest))))) =
        some (k ++ (gap ++ (n ++ rest))) := by
      cases hfind : modifiers.findSome? (spaced? · (v ++ b' ++ (k ++ (gap ++ (n ++ rest))))) with
      | none =>
          have hnone := List.findSome?_eq_none_iff.1 hfind m hm
          rw [spaced?_append ⟨v, b', rfl, hv, hb'⟩ hstart'] at hnone
          cases hnone
      | some r =>
          obtain ⟨m', hm', hr⟩ := List.exists_of_findSome?_eq_some hfind
          rw [List.append_assoc] at hr
          rw [((isKeyword_of_mem_modifiers m' hm').spells_of_spaced? hv' hb' hstart' hr).2]
    rw [hfound, Option.bind_some, hhead, Option.some_or]

theorem objectOf?_eq_some_iff : objectOf? t = some (o, n) ↔
    ∃ u rest, t = u ++ (n ++ rest) ∧ Introduces o u ∧ IsNameBefore rest n := by
  refine ⟨exists_of_objectOf?, ?_⟩
  rintro ⟨_, rest, rfl, @⟨lead, create, or, replace, modifier, k, gap, hlead, hcreate, hor, hreplace,
    hmodifier, hk, ho, hgap⟩, hname⟩
  have hhead := modifiedHead?_append hmodifier hk ho hgap hname
  have hstart := hmodifier.head? (hk.head? ho hgap hname)
  have hcreates := createOrReplace?_append hcreate hor hreplace hstart
  have hlead' := trimStart_append hlead ((hcreate.starts rfl
    (or ++ (replace ++ (modifier ++ (k ++ (gap ++ (n ++ rest))))))).not_blank (by decide))
  simp only [List.append_assoc]
  rw [objectOf?, hlead', hcreates]
  simp only [Option.bind_eq_bind, Option.bind_some, hhead, ho]
  rfl

end Heads

section Terminators

theorem step_before_terminator {s : ScanState} {c : Char} (h : ¬ (s = .singleQuoted ∧ c = '\\')) :
    s.step c (some ';') = ((s.step c none).1, false) := by
  rw [ScanState.step_eq, ScanState.step_eq]
  cases s <;> grind

theorem stripFrom_concat (s : ScanState) (t : List Char) : stripFrom s (t ++ [';']) =
    stripFrom s t ++ if (scan ScanState.step s t).isComment then [] else [';'] := by
  fun_induction scan ScanState.step s t with
  | case1 s => cases s <;> rfl
  | case2 s c =>
      by_cases h : s = .singleQuoted ∧ c = '\\'
      · obtain ⟨rfl, rfl⟩ := h
        rfl
      · have hlast (s : ScanState) : stripFrom s [';'] = if s.isComment then [] else [';'] := by
          cases s <;> rfl
        have hone : stripFrom s [c] = Chunk.uncommented ⟨s, (s.step c none).1, [c]⟩ := by
          simp [stripFrom, chunks]
        rw [List.singleton_append, stripFrom_cons (t := [';']) (step_before_terminator h), hlast,
          hone]
  | case3 s c d t s' hstep ih =>
      rw [List.cons_append, List.cons_append, stripFrom_cons_cons hstep, stripFrom_cons_cons hstep, ih,
        List.append_assoc]
  | case4 s c d t s' hstep ih =>
      rw [List.cons_append] at ih
      rw [List.cons_append, List.cons_append, stripFrom_cons (t := d :: (t ++ [';'])) hstep,
        stripFrom_cons (t := d :: t) hstep, ih, List.append_assoc]

theorem stripComments_concat (t : List Char) : stripComments (t ++ [';']) =
    stripComments t ++ if (scan ScanState.step .plain t).isComment then [] else [';'] :=
  stripFrom_concat .plain t

/-- Whether a text ends in the name of an object, or where the name should begin. -/
def EndsInName (t : List Char) : Prop :=
  ∃ o u n, t = u ++ n ∧ Introduces o u ∧ ∀ c ∈ n, isObjectChar c = true

theorem Introduces.not_mem_terminator {u : List Char} (h : Introduces o u) : ';' ∉ u := by
  have hword {w : List Char} (hw : IsWord w) : ';' ∉ w := fun h =>
    absurd (hw.2 _ h) (by decide)
  have hblank {b : List Char} (hb : allBlank b = true) : ';' ∉ b := fun h =>
    absurd (List.all_eq_true.1 hb _ h) (by decide)
  have hspaced {x : String} {v : List Char} (hx : IsKeyword x) (hv : IsSpaced x v) : ';' ∉ v := by
    obtain ⟨w, b, rfl, hw, -, hb⟩ := hv
    rw [List.mem_append, not_or]
    exact ⟨hword (hx.isWord hw), hblank hb⟩
  obtain @⟨lead, create, or, replace, modifier, k, gap, hlead, hcreate, hor, hreplace, hmodifier, hk, -,
    hgap⟩ := h
  have hmodifier : ';' ∉ modifier := by
    rcases hmodifier with rfl | ⟨m, hm, hspacedm⟩
    · exact List.not_mem_nil
    · exact hspaced (isKeyword_of_mem_modifiers m hm) hspacedm
  have hk : ';' ∉ k := by
    cases hk with
    | word hw => exact hword hw
    | @words first second u w htype hu hw =>
        obtain ⟨hfirst, hsecond, -⟩ := twoWordTypes_spec _ htype
        rw [List.mem_append, not_or]
        exact ⟨hspaced hfirst hu, hword (hsecond.isWord hw)⟩
  simp only [List.mem_append, not_or]
  exact ⟨hblank hlead, hspaced (by decide) hcreate, hspaced (by decide) hor,
    hspaced (by decide) hreplace, hmodifier, hk, hblank hgap.2⟩

theorem objectOf?_concat {u : List Char} (hu : Introduces o u)
    (hn : ∀ c ∈ n, isObjectChar c = true) :
    objectOf? (u ++ n ++ [';']) = some (o, n ++ [';']) := by
  refine objectOf?_eq_some_iff.2 ⟨u, [], by simp, hu, by simp, ?_, rfl⟩
  rw [List.forall_mem_append]
  exact ⟨hn, List.forall_mem_singleton.2 (by decide)⟩

theorem objectOf?_concat_of_not_endsInName (h : ¬ EndsInName t) :
    objectOf? (t ++ [';']) = objectOf? t := by
  refine Option.ext fun ⟨o, n⟩ => ?_
  rw [objectOf?_eq_some_iff, objectOf?_eq_some_iff]
  constructor
  · rintro ⟨u, rest, ht, hu, hne, hn, hrest⟩
    rcases List.eq_nil_or_concat' rest with rfl | ⟨rest, c, rfl⟩
    · obtain ⟨n', c, rfl⟩ := (List.eq_nil_or_concat' n).resolve_left hne
      rw [List.append_nil, ← List.append_assoc] at ht
      obtain ⟨rfl, -⟩ := List.append_inj' ht rfl
      exact absurd ⟨o, u, n', rfl, hu, fun d hd => hn d (List.mem_append_left _ hd)⟩ h
    · rw [← List.append_assoc, ← List.append_assoc] at ht
      obtain ⟨rfl, -⟩ := List.append_inj' ht rfl
      refine ⟨u, rest, List.append_assoc .., hu, hne, hn, ?_⟩
      cases rest with
      | nil => rfl
      | cons d rest => exact hrest
  · rintro ⟨u, rest, rfl, hu, hne, hn, hrest⟩
    refine ⟨u, rest ++ [';'], by simp only [List.append_assoc], hu, hne, hn, ?_⟩
    cases rest with
    | nil => exact absurd ⟨o, u, n, by rw [List.append_nil], hu, hn⟩ h
    | cons d rest => exact hrest

theorem objectOf?_eq_none_of_introduces {u : List Char} (hu : Introduces o u) :
    objectOf? u = none := by
  refine Option.eq_none_iff_forall_ne_some.2 fun ⟨o', n⟩ h => ?_
  obtain ⟨u', rest, hsplit, hu', hne, hn, hrest⟩ := objectOf?_eq_some_iff.1 h
  have hterminator : objectOf? (u ++ [';']) = some (o, [';']) := by
    have hconcat := objectOf?_concat (n := []) hu (by simp)
    rwa [List.append_nil, List.nil_append] at hconcat
  rcases List.eq_nil_or_concat' rest with rfl | ⟨r, c, rfl⟩
  · rw [hsplit, List.append_nil, objectOf?_concat hu' hn] at hterminator
    have hn' := (Prod.mk.inj (Option.some.inj hterminator)).2
    exact hne (by simpa using hn')
  · have hmore : objectOf? (u ++ [';']) = some (o', n) := by
      refine objectOf?_eq_some_iff.2 ⟨u', r ++ [c] ++ [';'], ?_, hu', hne, hn, ?_⟩
      · rw [hsplit]
        simp only [List.append_assoc]
      · cases r with
        | nil => exact hrest
        | cons d r => exact hrest
    rw [hterminator] at hmore
    have hn' := (Prod.mk.inj (Option.some.inj hmore)).2
    refine hu.not_mem_terminator ?_
    rw [hsplit, ← hn']
    simp

theorem exists_splitWhere_concat {p : Char → Bool} {c : Char} (hc : p c = false) (t : List Char) :
    ∃ ws w, splitWhere p t = ws ++ [w] ∧ splitWhere p (t ++ [c]) = ws ++ [w ++ [c]] := by
  induction t with
  | nil => exact ⟨[], [], rfl, by simp [splitWhere, hc]⟩
  | cons d t ih =>
      obtain ⟨ws, w, ht, htc⟩ := ih
      rw [List.cons_append, splitWhere, splitWhere, ht, htc]
      split
      · exact ⟨[] :: ws, w, rfl, rfl⟩
      · cases ws with
        | nil => exact ⟨[], d :: w, rfl, rfl⟩
        | cons v ws => exact ⟨(d :: v) :: ws, w, rfl, rfl⟩

theorem lastPart_concat_ne (q : List Char) : lastPart (q ++ [';']) ≠ lastPart q := by
  intro h
  obtain ⟨ws, w, hq, hqc⟩ := exists_splitWhere_concat (p := (· == '.')) (c := ';') rfl q
  have hconcat : trimQuotes (w ++ [';']) = w.dropWhile (· == '"') ++ [';'] :=
    dropEndWhile_dropWhile_concat rfl w
  rw [lastPart, lastPart, hq, hqc, List.getLastD_concat, List.getLastD_concat, hconcat] at h
  obtain ⟨e, he, -⟩ := exists_dropEndWhile (· == '"') (w.dropWhile (· == '"'))
  have hlength := congrArg List.length he
  rw [List.length_append, ← trimQuotes, ← h, List.length_append, List.length_singleton] at hlength
  omega

theorem definition?_eq (s : List Char) : definition? s =
    (objectOf? (stripComments s)).map fun p =>
      ⟨p.1, String.ofList (lastPart p.2), String.ofList (terminated (trim s))⟩ := by
  rw [definition?, objectOf?]
  cases createOrReplace? (trimStart (stripComments s)) with
  | none => rfl
  | some head =>
      simp only [Option.bind_eq_bind, Option.bind_some]
      cases modifiedHead? head with
      | none => rfl
      | some p =>
          simp only [Option.bind_some]
          cases ObjectType.ofSingular? (String.ofList p.1) with
          | none => rfl
          | some o => rfl

theorem definition?_concat_ne {s : List Char}
    (hcomment : (scan ScanState.step .plain s).isComment = false)
    (hends : EndsInName (stripComments s)) : definition? (s ++ [';']) ≠ definition? s := by
  intro h
  obtain ⟨o, u, n, ht, hu, hn⟩ := hends
  rw [definition?_eq, definition?_eq, stripComments_concat, hcomment, if_neg Bool.false_ne_true, ht,
    objectOf?_concat hu hn] at h
  cases n with
  | nil =>
      rw [List.append_nil, objectOf?_eq_none_of_introduces hu] at h
      cases h
  | cons c n =>
      have hname : objectOf? (u ++ (c :: n)) = some (o, c :: n) :=
        objectOf?_eq_some_iff.2 ⟨u, [], by rw [List.append_nil], hu, List.cons_ne_nil c n, hn, rfl⟩
      rw [hname] at h
      simp only [Option.map_some, Option.some.injEq, Definition.mk.injEq] at h
      exact lastPart_concat_ne (c :: n) (String.ofList_injective h.2.1)

/-- A terminator behind a statement does not change what the statement defines, unless nothing else
stands behind the name of the object. -/
theorem definition?_concat_iff {s : List Char} (htrim : trim s = s) (hlast : s.getLast? ≠ some ';') :
    definition? (s ++ [';']) = definition? s ↔
      (scan ScanState.step .plain s).isComment = true ∨ ¬ EndsInName (stripComments s) := by
  have hddl : terminated (trim (s ++ [';'])) = terminated (trim s) := by
    have hstart : trimStart s = s := by
      rw [← htrim, trimStart_trim]
    rw [trim_concat, hstart, htrim, terminated, if_pos List.getLast?_concat, terminated, if_neg hlast]
  have hobject (h : objectOf? (stripComments (s ++ [';'])) = objectOf? (stripComments s)) :
      definition? (s ++ [';']) = definition? s := by
    rw [definition?_eq, definition?_eq, h, hddl]
  cases hcomment : (scan ScanState.step .plain s).isComment with
  | true =>
      refine iff_of_true (hobject ?_) (.inl rfl)
      rw [stripComments_concat, hcomment, if_pos rfl, List.append_nil]
  | false =>
      rw [or_iff_right Bool.false_ne_true]
      refine ⟨fun h hends => definition?_concat_ne hcomment hends h, fun hends => hobject ?_⟩
      rw [stripComments_concat, hcomment, if_neg Bool.false_ne_true,
        objectOf?_concat_of_not_endsInName hends]

def sequenceAlone : List Char :=
  "create or replace sequence db.s.seq1".toList

theorem endsInName_sequenceAlone : EndsInName (stripComments sequenceAlone) := by
  have hspaced (x w : String) (h : same x.toList w.toList = true) :
      IsSpaced x (w.toList ++ [' ']) :=
    ⟨w.toList, [' '], rfl, spells_of_same h, by decide, by decide⟩
  have hword : IsWord "sequence".toList :=
    ⟨by decide, List.all_eq_true.1 (by decide)⟩
  have hintroduces : Introduces .sequence ([] ++ ("create".toList ++ [' '] ++ ("or".toList ++ [' '] ++
      ("replace".toList ++ [' '] ++ ([] ++ ("sequence".toList ++ [' '])))))) :=
    .intro rfl (hspaced "CREATE" "create" (by decide)) (hspaced "OR" "or" (by decide))
      (hspaced "REPLACE" "replace" (by decide)) (.inl rfl) (.word hword) (by decide)
      ⟨by decide, by decide⟩
  exact ⟨.sequence, _, "db.s.seq1".toList, by decide, hintroduces,
    List.all_eq_true.1 (by decide)⟩

theorem definition?_sequenceAlone_concat :
    definition? (sequenceAlone ++ [';']) ≠ definition? sequenceAlone := by
  have hiff := definition?_concat_iff (s := sequenceAlone) (by decide) (by decide)
  intro h
  rcases hiff.1 h with hcomment | hends
  · exact absurd hcomment (by decide)
  · exact hends endsInName_sequenceAlone

/-- Nothing else has to follow the name of an object, and then its name is told with the terminator. -/
theorem not_forall_definition?_concat : ¬ ∀ s : List Char, trim s = s → s.getLast? ≠ some ';' →
    definition? (s ++ [';']) = definition? s := fun h =>
  definition?_concat_ne (by decide) endsInName_sequenceAlone (h sequenceAlone (by decide) (by decide))

end Terminators

end SchemaDeploy.Sql
