import SchemaDeploy.Proofs.ViewHeaders

namespace SchemaDeploy.Body

open Text Sql

variable {type : ObjectType} {keyword : String} {c : Char} {body d h r t u v w x y : List Char}

section Delimiters

def delimiters : List (List Char) := [['\''], ['$', '$']]

theorem delimiter?_eq_some_iff : delimiter? t = some r ↔ ∃ d ∈ delimiters, t = d ++ r := by
  constructor
  · intro h
    rw [delimiter?.eq_def] at h
    split at h
    · cases h
      exact ⟨['\''], by simp [delimiters], rfl⟩
    · cases h
      exact ⟨['$', '$'], by simp [delimiters], rfl⟩
    · cases h
  · rintro ⟨d, hd, rfl⟩
    simp only [delimiters, List.mem_cons, List.not_mem_nil, or_false] at hd
    rcases hd with rfl | rfl <;> rfl

theorem foldsTo_of_mem_delimiter (hd : d ∈ delimiters) : ∀ c ∈ d, foldsTo 'A' c = false := by
  have hquote : foldsTo 'A' '\'' = false := by decide
  have hdollar : foldsTo 'A' '$' = false := by decide
  simp only [delimiters, List.mem_cons, List.not_mem_nil, or_false] at hd
  rcases hd with rfl | rfl <;> simp [hquote, hdollar]

theorem not_blank_delimiter (hd : d ∈ delimiters) (t : List Char) :
    (d ++ t).head?.all (!isBlank ·) = true := by
  simp only [delimiters, List.mem_cons, List.not_mem_nil, or_false] at hd
  rcases hd with rfl | rfl <;> rfl

theorem suffix_append_cases (h : w <:+ x ++ y) : w <:+ y ∨ ∃ v, v ≠ [] ∧ v <:+ x ∧ w = v ++ y := by
  obtain ⟨p, hp⟩ := h
  rcases List.append_eq_append_iff.1 hp with ⟨a, rfl, rfl⟩ | ⟨a, rfl, rfl⟩
  · by_cases ha : a = []
    · exact .inl (by simp [ha])
    · exact .inr ⟨a, ha, List.suffix_append p a, rfl⟩
  · exact .inl (List.suffix_append a w)

theorem Starts.not_foldsTo {k : Char} (h : Starts k (c :: t)) (hc : foldsTo k c = false) : False := by
  rw [Starts, List.head?_cons, Option.any_some, hc] at h
  cases h

theorem Starts.suffix_of_append {k : Char} (h : Starts k w) (hw : w <:+ x ++ y)
    (hx : ∀ c ∈ x, foldsTo k c = false) : w <:+ y := by
  rcases suffix_append_cases hw with hw | ⟨v, hv, hvx, rfl⟩
  · exact hw
  · obtain ⟨c, v, rfl⟩ := List.exists_cons_of_ne_nil hv
    exact (h.not_foldsTo (hx c (hvx.subset List.mem_cons_self))).elim

theorem IsSpaced.foldsTo_tail (h : IsSpaced "AS" u) : ∀ c ∈ u.tail, foldsTo 'A' c = false := by
  obtain ⟨w, b, rfl, hw, -, hb⟩ := h
  have hletters : Spells ['A', 'S'] w := hw
  obtain ⟨a, x, -, hx, rfl⟩ := List.forall₂_cons_left_iff.1 hletters
  obtain ⟨s, y, hs, hy, rfl⟩ := List.forall₂_cons_left_iff.1 hx
  obtain rfl := List.forall₂_nil_left_iff.1 hy
  intro c hc
  rcases List.mem_cons.1 hc with rfl | hc
  · refine Bool.eq_false_iff.2 fun ha => ?_
    have hletter := (toLower_of_foldsTo (by decide) ha).trans
      (toLower_of_foldsTo (by decide) hs).symm
    exact absurd hletter (by decide)
  · refine Bool.eq_false_iff.2 fun ha => ?_
    have hblank := List.all_eq_true.1 hb c hc
    rw [isBlank_eq_false_of_foldsTo (by decide) ha] at hblank
    cases hblank

theorem IsSpaced.ne_nil (h : IsSpaced keyword u) : u ≠ [] := by
  obtain ⟨w, b, rfl, -, hb, -⟩ := h
  exact List.append_ne_nil_of_right_ne_nil w hb

def IsBodiless (h : List Char) : Prop :=
  ∀ v ∈ h.tails, (spaced? "AS" v).bind delimiter? = none

instance (h : List Char) : Decidable (IsBodiless h) :=
  inferInstanceAs (Decidable (∀ v ∈ h.tails, _))

theorem exists_delimiter?_of_append (h : delimiter? (x ++ t) = some r) (ht : Starts 'A' t) :
    ∃ y, delimiter? x = some y := by
  obtain ⟨d, hd, hx⟩ := delimiter?_eq_some_iff.1 h
  obtain ⟨a, t, rfl, ha⟩ := ht.exists_cons
  rcases List.append_eq_append_iff.1 hx with ⟨q, rfl, hq⟩ | ⟨q, rfl, hq⟩
  · cases q with
    | nil => exact ⟨[], delimiter?_eq_some_iff.2 ⟨x, by simpa using hd, (List.append_nil x).symm⟩⟩
    | cons b q =>
        obtain ⟨rfl, -⟩ := List.cons.inj hq
        rw [foldsTo_of_mem_delimiter hd a (by simp)] at ha
        cases ha
  · exact ⟨q, delimiter?_eq_some_iff.2 ⟨d, hd, rfl⟩⟩

theorem bind_delimiter?_append (hv : (spaced? "AS" v).bind delimiter? = none) (hne : v ≠ [])
    (ht : Starts 'A' t) : (spaced? "AS" (v ++ t)).bind delimiter? = none := by
  refine Option.eq_none_iff_forall_not_mem.2 fun r hr => ?_
  obtain ⟨y, hy, hdelimiter⟩ := Option.bind_eq_some_iff.1 hr
  obtain ⟨u, huy, hu, hblank⟩ := spaced?_eq_some_iff.1 hy
  rcases List.append_eq_append_iff.1 huy with ⟨z, rfl, rfl⟩ | ⟨z, rfl, rfl⟩
  · -- The blanks behind AS would reach into the text.
    cases z with
    | nil =>
        obtain ⟨z, hz⟩ := exists_delimiter?_of_append (x := []) hdelimiter ht
        cases hz
    | cons a z =>
        obtain ⟨e, v, rfl⟩ := List.exists_cons_of_ne_nil hne
        exact ht.not_foldsTo (hu.foldsTo_tail a (by simp))
  · obtain ⟨r', hz⟩ := exists_delimiter?_of_append hdelimiter ht
    obtain ⟨d, hd, rfl⟩ := delimiter?_eq_some_iff.1 hz
    rw [spaced?_append hu (not_blank_delimiter hd r'), Option.bind_some, hz] at hv
    cases hv

end Delimiters

section Search

theorem routineBodyFrom?_append (hbefore : ∀ v, v <:+ x → v ≠ [] → routineBodyAt? (v ++ t) = none)
    (ht : routineBodyAt? t = some body) (hlast : (c :: x).getLast?.any (!isWord ·) = true) :
    routineBodyFrom? c (x ++ t) = some body := by
  induction x generalizing c with
  | nil =>
      cases t with
      | nil => cases ht
      | cons e t =>
          have hc : isWord c = false := by simpa using hlast
          rw [List.nil_append, routineBodyFrom?, hc, ht]
          rfl
  | cons e x ih =>
      have hnone : routineBodyAt? (e :: (x ++ t)) = none :=
        hbefore (e :: x) (List.suffix_refl _) (List.cons_ne_nil e x)
      rw [List.getLast?_cons_cons] at hlast
      rw [List.cons_append, routineBodyFrom?, hnone, ite_self, Option.none_or]
      exact ih (fun v hv => hbefore v (hv.trans (List.suffix_cons e x))) hlast

theorem routineBodyAfterName?_of_some (hne : x ≠ [])
    (ht : ∀ c, routineBodyFrom? c t = some body) : routineBodyAfterName? x t = some body := by
  induction x with
  | nil => exact absurd rfl hne
  | cons c x ih =>
      cases x with
      | nil => exact ht c
      | cons e x =>
          exact Option.or_eq_some_iff.2 (.inl (ih (List.cons_ne_nil e x)))

/-- Whether a body is read where AS stands, at the start of a text or further on. -/
def ReadsBody (t body : List Char) : Prop :=
  ∃ w, w <:+ t ∧ routineBodyAt? w = some body

theorem ReadsBody.mono (h : ReadsBody x body) (hx : x <:+ y) : ReadsBody y body := by
  obtain ⟨w, hw, hbody⟩ := h
  exact ⟨w, hw.trans hx, hbody⟩

theorem readsBody_of_routineBodyFrom? (h : routineBodyFrom? c t = some body) :
    ReadsBody t body := by
  induction t generalizing c with
  | nil => cases h
  | cons e t ih =>
      rw [routineBodyFrom?] at h
      rcases Option.or_eq_some_iff.1 h with h | ⟨-, h⟩
      · split at h
        · cases h
        · exact ⟨_, List.suffix_refl _, h⟩
      · exact (ih h).mono (List.suffix_cons e t)

theorem readsBody_of_routineBodyAfterName? (h : routineBodyAfterName? x t = some body) :
    ReadsBody (x ++ t) body := by
  induction x with
  | nil => cases h
  | cons c x ih =>
      rcases Option.or_eq_some_iff.1 h with h | ⟨-, h⟩
      · exact (ih h).mono (List.suffix_cons c _)
      · cases x with
        | nil => exact (readsBody_of_routineBodyFrom? h).mono (List.suffix_cons c t)
        | cons e x =>
            dsimp only at h
            split at h
            · cases h
            · exact ⟨_, List.suffix_cons c _, h⟩

theorem suffix_of_spaced? (h : spaced? keyword t = some r) : r <:+ t := by
  obtain ⟨u, rfl, -⟩ := spaced?_eq_some_iff.1 h
  exact List.suffix_append u r

theorem suffix_spacedOr (keyword : String) (t : List Char) : spacedOr keyword t <:+ t := by
  rw [spacedOr]
  cases h : spaced? keyword t with
  | none => exact List.suffix_refl t
  | some r => exact suffix_of_spaced? h

theorem readsBody_of_routineBody? (h : routineBody? keyword t = some body) : ReadsBody t body := by
  simp only [routineBody?, createOrReplace?, Option.bind_eq_bind, Option.bind_eq_some_iff,
    Prod.exists] at h
  obtain ⟨t₃, ⟨t₁, h₁, t₂, h₂, h₃⟩, t₄, h₄, name, t₅, h₅, h₆⟩ := h
  obtain ⟨rfl, -⟩ := run?_eq_some_iff.1 h₅
  have hsuffix : name ++ t₅ <:+ t :=
    (suffix_of_spaced? h₄).trans ((suffix_spacedOr "SECURE" t₃).trans
      ((suffix_of_spaced? h₃).trans ((suffix_of_spaced? h₂).trans (suffix_of_spaced? h₁))))
  exact (readsBody_of_routineBodyAfterName? h₆).mono hsuffix

theorem readsBody_of_firstMatch (h : firstMatch (routineBody? keyword) t = some body) :
    ReadsBody t body := by
  induction t with
  | nil => exact readsBody_of_routineBody? h
  | cons c t ih =>
      rcases Option.or_eq_some_iff.1 h with h | ⟨-, h⟩
      · exact readsBody_of_routineBody? h
      · exact (ih h).mono (List.suffix_cons c t)

end Search

section Headers

def routineKeyword? : ObjectType → Option String
  | .function => some "FUNCTION"
  | .procedure => some "PROCEDURE"
  | _ => none

theorem find?_eq_firstMatch (h : routineKeyword? type = some keyword) (t : List Char) :
    find? type t = firstMatch (routineBody? keyword) t := by
  cases type <;> cases h <;> rfl

/-- Everything before AS in a definition of the usual form. -/
inductive IsRoutineHead (keyword : String) : List Char → Prop
  | intro {lead create or replace secure kind name signature : List Char}
      (hlead : allBlank lead = true) (hcreate : IsSpaced "CREATE" create) (hor : IsSpaced "OR" or)
      (hreplace : IsSpaced "REPLACE" replace) (hsecure : secure = [] ∨ IsSpaced "SECURE" secure)
      (hkind : IsSpaced keyword kind) (hne : name ≠ []) (hname : ∀ c ∈ name, isNameChar c = true)
      (hfirst : signature.head?.any (!isNameChar ·) = true)
      (hlast : signature.getLast?.any (!isWord ·) = true) :
      IsRoutineHead keyword
        (lead ++ (create ++ (or ++ (replace ++ (secure ++ (kind ++ (name ++ signature)))))))

theorem isRoutineHead_name (keyword : String) (name signature : List Char) (hne : name ≠ [])
    (hname : ∀ c ∈ name, isNameChar c = true)
    (hfirst : signature.head?.any (!isNameChar ·) = true)
    (hlast : signature.getLast?.any (!isWord ·) = true) :
    IsRoutineHead keyword
      ("CREATE OR REPLACE ".toList ++ (keyword.toList ++ (' ' :: (name ++ signature)))) := by
  have hhead : IsRoutineHead keyword
      ([] ++ ("CREATE ".toList ++ ("OR ".toList ++ ("REPLACE ".toList ++ ([] ++
        ((keyword.toList ++ [' ']) ++ (name ++ signature))))))) :=
    .intro rfl (isSpaced_self "CREATE") (isSpaced_self "OR") (isSpaced_self "REPLACE") (.inl rfl)
      (isSpaced_self keyword) hne hname hfirst hlast
  rwa [List.append_assoc] at hhead

/-- Everything before the delimiter, up to the first AS that a delimiter follows. -/
inductive IsRoutineHeader (type : ObjectType) : List Char → Prop
  | intro {keyword : String} {head as : List Char} (hkeyword : routineKeyword? type = some keyword)
      (hhead : IsRoutineHead keyword head) (hbodiless : IsBodiless head) (has : IsSpaced "AS" as) :
      IsRoutineHeader type (head ++ as)

theorem routineBody?_blank_cons (hc : isBlank c = true) (t : List Char) :
    routineBody? keyword (c :: t) = none := by
  rw [routineBody?, createOrReplace?_blank_cons hc]
  rfl

theorem spaced?_kind_append {secure kind : List Char} (h : routineKeyword? type = some keyword)
    (hsecure : secure = [] ∨ IsSpaced "SECURE" secure) (hkind : IsSpaced keyword kind)
    (ht : t.head?.all (!isBlank ·) = true) :
    (secure ++ (kind ++ t)).head?.all (!isBlank ·) = true ∧
      spaced? keyword (spacedOr "SECURE" (secure ++ (kind ++ t))) = some t := by
  obtain ⟨k, ks, hkeyword, hk, hother⟩ :
      ∃ k ks, keyword.toList = k :: ks ∧ k.isAlpha = true ∧ k.toLower ≠ 's' := by
    cases type <;> cases h
    · exact ⟨'F', "UNCTION".toList, rfl, by decide, by decide⟩
    · exact ⟨'P', "ROCEDURE".toList, rfl, by decide, by decide⟩
  have hstart : Starts k (kind ++ t) := hkind.starts hkeyword t
  have hblank := hstart.not_blank hk
  have hnone : spaced? "SECURE" (kind ++ t) = none :=
    hstart.spaced?_eq_none rfl hk (by decide) hother
  rw [spacedOr_append hsecure hblank hnone, spaced?_append hkind ht]
  refine ⟨?_, rfl⟩
  rcases hsecure with rfl | hsecure
  · exact hblank
  · exact (hsecure.starts rfl _).not_blank (by decide)

theorem IsBodiless.routineBodyAt?_append (h : IsBodiless x) (ht : Starts 'A' t) (hv : v <:+ x)
    (hne : v ≠ []) : routineBodyAt? (v ++ t) = none := by
  have hnone := bind_delimiter?_append (h v ((List.mem_tails v x).2 hv)) hne ht
  rw [routineBodyAt?, Option.bind_eq_bind, ← Option.bind_assoc]
  exact congrArg (Option.bind · delimitedBody?) hnone

theorem routineBodyAt?_append (has : IsSpaced "AS" u) (hd : d ∈ delimiters) (t : List Char) :
    routineBodyAt? (u ++ (d ++ t)) = delimitedBody? t := by
  rw [routineBodyAt?, spaced?_append has (not_blank_delimiter hd t)]
  simp only [Option.bind_eq_bind, Option.bind_some, delimiter?_eq_some_iff.2 ⟨d, hd, rfl⟩]

theorem exists_of_routineBodyAt? (h : routineBodyAt? w = some body) :
    Starts 'A' w ∧ ∃ y, y <:+ w ∧ delimitedBody? y = some body := by
  simp only [routineBodyAt?, Option.bind_eq_bind, Option.bind_eq_some_iff] at h
  obtain ⟨r, hr, y, hy, hread⟩ := h
  obtain ⟨u, rfl, hu, -⟩ := spaced?_eq_some_iff.1 hr
  obtain ⟨d, -, rfl⟩ := delimiter?_eq_some_iff.1 hy
  exact ⟨hu.starts rfl _, y, ⟨u ++ d, List.append_assoc u d y⟩, hread⟩

theorem IsRoutineHeader.find?_append (h : IsRoutineHeader type t) (hd : d ∈ delimiters)
    (hbody : delimitedBody? x = some body) : find? type (t ++ (d ++ x)) = some body := by
  obtain @⟨keyword, head, as, hkeyword, hhead, hbodiless, has⟩ := h
  obtain @⟨lead, create, or, replace, secure, kind, name, signature, hlead, hcreate, hor, hreplace,
    hsecure, hkind, hne, hname, hfirst, hlast⟩ := hhead
  let rest := as ++ (d ++ x)
  have hrest : Starts 'A' rest := has.starts rfl _
  have hread : routineBodyAt? rest = some body := by rw [routineBodyAt?_append has hd, hbody]
  have hstop : (signature ++ rest).head?.all (!isNameChar ·) = true := by
    cases signature with
    | nil => cases hfirst
    | cons e signature => simpa using hfirst
  have hstart := MigrationFile.head?_append_not_blank (fun _ => isNameChar_eq_false_of_isBlank) hne
    hname (signature ++ rest)
  obtain ⟨hwords, hkind'⟩ := spaced?_kind_append hkeyword hsecure hkind hstart
  have hsuffix : signature <:+
      lead ++ (create ++ (or ++ (replace ++ (secure ++ (kind ++ (name ++ signature)))))) := by
    simp only [← List.append_assoc]
    exact List.suffix_append _ signature
  have hafter (c : Char) : routineBodyFrom? c (signature ++ rest) = some body := by
    refine routineBodyFrom?_append (fun v hv hvne => ?_) hread ?_
    · exact hbodiless.routineBodyAt?_append hrest (hv.trans hsuffix) hvne
    · cases signature with
      | nil => cases hlast
      | cons e signature => rwa [List.getLast?_cons_cons]
  simp only [List.append_assoc]
  rw [find?_eq_firstMatch hkeyword, firstMatch_lead routineBody?_blank_cons hlead]
  apply firstMatch_of_some
  rw [routineBody?, createOrReplace?_append hcreate hor hreplace hwords]
  simp only [Option.bind_eq_bind, Option.bind_some]
  rw [hkind', Option.bind_some, run?_append hne hname hstop]
  exact routineBodyAfterName?_of_some hne hafter

theorem IsRoutineHeader.exists_of_find?_append (h : IsRoutineHeader type t) (hd : d ∈ delimiters)
    (hbody : find? type (t ++ (d ++ x)) = some body) :
    ∃ y, y <:+ x ∧ delimitedBody? y = some body := by
  obtain @⟨keyword, head, as, hkeyword, hhead, hbodiless, has⟩ := h
  rw [find?_eq_firstMatch hkeyword, List.append_assoc] at hbody
  obtain ⟨w, hw, hread⟩ := readsBody_of_firstMatch hbody
  rcases suffix_append_cases hw with hw | ⟨v, hne, hv, rfl⟩
  · obtain ⟨a, as, rfl⟩ := List.exists_cons_of_ne_nil has.ne_nil
    rw [List.cons_append, List.suffix_cons_iff, ← List.cons_append] at hw
    rcases hw with rfl | hw
    · rw [routineBodyAt?_append has hd] at hread
      exact ⟨x, List.suffix_refl x, hread⟩
    · -- No later AS starts before the text behind the delimiter.
      obtain ⟨hstart, y, hy, hread⟩ := exists_of_routineBodyAt? hread
      rw [← List.append_assoc] at hw
      refine ⟨y, hy.trans (hstart.suffix_of_append hw fun c hc => ?_), hread⟩
      rcases List.mem_append.1 hc with hc | hc
      · exact has.foldsTo_tail c hc
      · exact foldsTo_of_mem_delimiter hd c hc
  · rw [hbodiless.routineBodyAt?_append (has.starts rfl _) hv hne] at hread
    cases hread

end Headers

end SchemaDeploy.Body
