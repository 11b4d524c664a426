import SchemaDeploy.Proofs.RespacedText
import SchemaDeploy.Proofs.RoutineHeaders
import SchemaDeploy.Proofs.SolidText

namespace SchemaDeploy.Body

open Text Sql

variable {type : ObjectType} {keyword : String} {b b' t t' x : List Char} {c d : Char}

section Views

theorem eq_bind_after? {u : List Char} {o : Option (List Char)} {f : List Char → Option (List Char)}
    (hsome : ∀ r, u = d :: r → o = f r) (hnone : (∀ r, u ≠ d :: r) → o = none) :
    o = (after? d u).bind f := by
  cases u with
  | nil => exact hnone fun r h => by cases h
  | cons c r =>
      by_cases hc : c = d
      · subst hc
        rw [hsome r rfl, after?, if_pos rfl, Option.bind_some]
      · rw [after?, if_neg hc, Option.bind_none]
        exact hnone fun r h => hc (List.cons.inj h).1

theorem columns?_eq (t : List Char) : columns? t = (after? '(' (trimStart t)).bind fun t =>
    if t.takeWhile (· ≠ ')') = [] then none else after? ')' (t.dropWhile (· ≠ ')')) := by
  refine eq_bind_after? (fun t ht => ?_) fun hnone => ?_
  · simp only [columns?, ht]
    cases t.takeWhile (· ≠ ')') with
    | nil => rfl
    | cons c w =>
        rw [if_neg (List.cons_ne_nil c w), ← Option.bind_fun_some (after? ')' _)]
        refine eq_bind_after? (fun r hr => ?_) fun hnone => ?_
        · simp only [hr]
        · split
          · next hr => exact absurd hr (hnone _)
          · rfl
  · rw [columns?]
    split
    · next ht => exact absurd ht (hnone _)
    · rfl

theorem commentClause?_eq (t : List Char) : commentClause? t = (blanksThen? "COMMENT" t).bind fun t =>
    (after? '=' (trimStart t)).bind fun t => (after? '\'' (trimStart t)).bind fun t =>
      after? '\'' (t.dropWhile (· ≠ '\'')) := by
  rw [commentClause?]
  refine congrArg (Option.bind _) (funext fun t => ?_)
  refine eq_bind_after? (fun t ht => ?_) fun hnone => ?_
  · simp only [ht]
    refine eq_bind_after? (fun t ht => ?_) fun hnone => ?_
    · simp only [ht]
      rw [← Option.bind_fun_some (after? '\'' _)]
      refine eq_bind_after? (fun r hr => ?_) fun hnone => ?_
      · simp only [hr]
      · split
        · next hr => exact absurd hr (hnone _)
        · rfl
    · split
      · next ht => exact absurd ht (hnone _)
      · rfl
  · split
    · next ht => exact absurd ht (hnone _)
    · rfl

theorem delimiter?_eq (t : List Char) :
    delimiter? t = (after? '\'' t).or ((after? '$' t).bind (after? '$')) := by
  rw [delimiter?.eq_def]
  split
  · simp [after?]
  · simp [after?]
  · next hquote hdollars =>
    have hnone {d : Char} {t : List Char} (h : ∀ r, t ≠ d :: r) : after? d t = none := by
      cases t with
      | nil => rfl
      | cons c t =>
          refine if_neg ?_
          rintro rfl
          exact h t rfl
    rw [hnone hquote, Option.none_or]
    refine eq_bind_after? (fun t ht => (hnone ?_).symm) fun _ => rfl
    rintro r rfl
    exact hdollars r ht

theorem respaced_blanksThen? (hk : keyword.toList.all Char.isAlpha = true)
    (h : Respaced t t') : Option.Rel Respaced (blanksThen? keyword t) (blanksThen? keyword t') :=
  rel_bind h.blanks? fun _ _ h => h.keyword? hk

theorem respaced_columns? (h : Respaced t t') :
    Option.Rel Respaced (columns? t) (columns? t') := by
  have hparen : isBlank ')' = false := by decide
  rw [columns?_eq, columns?_eq]
  refine rel_bind (h.trimStart.after? (by decide)) fun t t' h => ?_
  obtain ⟨hempty, hrest⟩ := h.dropWhile_ne hparen
  by_cases hw : t.takeWhile (· ≠ ')') = []
  · rw [if_pos hw, if_pos (hempty.1 hw)]
    exact .none
  · rw [if_neg hw, if_neg fun hw' => hw (hempty.2 hw')]
    exact hrest.after? hparen

theorem respaced_commentClause? (h : Respaced t t') :
    Option.Rel Respaced (commentClause? t) (commentClause? t') := by
  have hquote : isBlank '\'' = false := by decide
  rw [commentClause?_eq, commentClause?_eq]
  refine rel_bind (respaced_blanksThen? (by decide) h) fun _ _ h => ?_
  refine rel_bind (h.trimStart.after? (by decide)) fun _ _ h => ?_
  refine rel_bind (h.trimStart.after? hquote) fun _ _ h => ?_
  exact (h.dropWhile_ne hquote).2.after? hquote

theorem respaced_bodyAfterAs? (h : Respaced t t') :
    Option.Rel Respaced (bodyAfterAs? t) (bodyAfterAs? t') := by
  rw [bodyAfterAs?, bodyAfterAs?]
  refine rel_bind (respaced_blanksThen? (by decide) h) fun t t' h => ?_
  cases h with
  | nil => exact .none
  | @solid c t t' hc h =>
      have hnone (t : List Char) : blanks? (c :: t) = none := if_neg (by simp [hc])
      rw [hnone, hnone]
      exact .none
  | gap hb hb' hc h =>
      rw [blanks?_append hb.1 hb.2, blanks?_append hb'.1 hb'.2, trimStart_cons hc,
        trimStart_cons hc]
      exact .some (.solid hc h)

theorem respaced_viewBody? (h : Respaced t t') :
    Option.Rel Respaced (viewBody? t) (viewBody? t') := by
  rw [viewBody?, viewBody?]
  refine rel_bind h.createOrReplace? fun _ _ h => ?_
  refine rel_bind (((h.spacedOr (by decide)).spacedOr (by decide)).spaced? (by decide)) fun _ _ h => ?_
  refine rel_bind (h.run? isNameChar_eq_false_of_isBlank) ?_
  rintro ⟨name, t⟩ ⟨name', t'⟩ ⟨-, -, h⟩
  have hcolumns := rel_getD (respaced_columns? h) h
  exact respaced_bodyAfterAs? (rel_getD (respaced_commentClause? hcolumns) hcolumns)

end Views

section Routines

theorem respaced_delimiter? (h : Respaced t t') :
    Option.Rel Respaced (delimiter? t) (delimiter? t') := by
  rw [delimiter?_eq, delimiter?_eq]
  exact rel_or (h.after? (by decide))
    (rel_bind (h.after? (by decide)) fun _ _ h => h.after? (by decide))

theorem isTail_eq (t : List Char) :
    isTail t = ((trimStart t).isEmpty || (after? ';' (trimStart t)).any allBlank) := by
  rw [isTail]
  cases trimStart t with
  | nil => rfl
  | cons c t =>
      by_cases hc : c = ';'
      · simp [hc, after?]
      · rw [after?, if_neg hc]
        split
        · next h => cases h
        · next h => exact absurd (List.cons.inj h).1 hc
        · rfl

theorem isTail_respaced (h : Respaced t t') : isTail t = isTail t' := by
  have hterminator := h.trimStart.after? (d := ';') (by decide)
  rw [isTail_eq, isTail_eq, h.trimStart.isEmpty_eq, rel_any hterminator fun _ _ => Respaced.allBlank_eq]

theorem closes_respaced (h : Respaced t t') : closes t = closes t' :=
  rel_any (respaced_delimiter? h) fun _ _ => isTail_respaced

theorem upToClosing?_cons (c : Char) (t : List Char) : upToClosing? (c :: t) =
    ((upToClosing? t).map (c :: ·)).or (if closes (c :: t) then some [] else none) := by
  rw [upToClosing?]
  cases upToClosing? t <;> rfl

theorem closes_blank_cons (hc : isBlank c = true) (t : List Char) : closes (c :: t) = false := by
  have hother {d : Char} (hd : isBlank d = false) : c ≠ d := by
    rintro rfl
    rw [hc] at hd
    cases hd
  rw [closes, delimiter?_eq, after?, if_neg (hother (by decide)), after?, if_neg (hother (by decide))]
  rfl

theorem upToClosing?_blank_append (hb : allBlank b = true) (t : List Char) :
    upToClosing? (b ++ t) = (upToClosing? t).map (b ++ ·) := by
  induction b with
  | nil => simp
  | cons c b ih =>
      obtain ⟨hc, hb⟩ := List.forall_mem_cons.1 (List.all_eq_true.1 hb)
      rw [List.cons_append, upToClosing?_cons, ih (List.all_eq_true.2 hb), closes_blank_cons hc,
        if_neg Bool.false_ne_true, Option.or_none, Option.map_map]
      rfl

theorem foldAlike_upToClosing? (h : Respaced t t') :
    Option.Rel FoldAlike (upToClosing? t) (upToClosing? t') := by
  have hsolid {c : Char} {t t' : List Char} (hc : isBlank c = false) (h : Respaced t t')
      (ih : Option.Rel FoldAlike (upToClosing? t) (upToClosing? t')) :
      Option.Rel FoldAlike (upToClosing? (c :: t)) (upToClosing? (c :: t')) := by
    rw [upToClosing?_cons, upToClosing?_cons]
    refine rel_or (rel_map ih fun _ _ h => h.cons hc) ?_
    exact rel_ite (closes_respaced (.solid hc h)) (.some fun _ => rfl) .none
  induction h with
  | nil => exact .none
  | solid hc h ih => exact hsolid hc h ih
  | gap hb hb' hc h ih =>
      rw [upToClosing?_blank_append hb.2, upToClosing?_blank_append hb'.2]
      exact rel_map (hsolid hc h ih) fun _ _ h => h.gap hb hb'

theorem delimitedBody?_solid_cons (hc : isBlank c = false) (t : List Char) :
    delimitedBody? (c :: t) = (upToClosing? t).map (c :: ·) := by
  rw [delimitedBody?, trimStart_cons hc, List.takeWhile_cons_of_neg (by simp [hc]), someUpToClosing?]
  cases upToClosing? t <;> rfl

theorem delimitedBody?_gap (hb : IsGap b) (hc : isBlank c = false) (t : List Char) :
    ∃ d, isBlank d = true ∧ delimitedBody? (b ++ c :: t) =
      ((upToClosing? t).map (c :: ·)).or (if closes (c :: t) then some [d] else none) := by
  obtain ⟨u, d, hu⟩ := (List.eq_nil_or_concat' b).resolve_left hb.1
  have hd : isBlank d = true := List.all_eq_true.1 hb.2 d (by simp [hu])
  have hrun : (b ++ c :: t).takeWhile isBlank = b := by
    rw [List.takeWhile_append_of_pos (List.all_eq_true.1 hb.2),
      List.takeWhile_cons_of_neg (by simp [hc]), List.append_nil]
  have hlast : b.getLast? = some d := by rw [hu, List.getLast?_concat]
  refine ⟨d, hd, ?_⟩
  rw [delimitedBody?, trimStart_gap hb hc, hrun, hlast, someUpToClosing?]
  cases upToClosing? t <;> rfl

theorem foldAlike_delimitedBody? (h : Respaced t t') :
    Option.Rel FoldAlike (delimitedBody? t) (delimitedBody? t') := by
  cases h with
  | nil => exact .none
  | solid hc h =>
      rw [delimitedBody?_solid_cons hc, delimitedBody?_solid_cons hc]
      exact rel_map (foldAlike_upToClosing? h) fun _ _ h => h.cons hc
  | @gap b b' c t t' hb hb' hc h =>
      obtain ⟨d, hd, hbody⟩ := delimitedBody?_gap hb hc t
      obtain ⟨d', hd', hbody'⟩ := delimitedBody?_gap hb' hc t'
      rw [hbody, hbody']
      refine rel_or (rel_map (foldAlike_upToClosing? h) fun _ _ h => h.cons hc) ?_
      refine rel_ite (closes_respaced (.solid hc h)) (.some fun gap => ?_) .none
      rw [squeeze_blank hd, squeeze_blank hd']

theorem foldAlike_routineBodyAt? (h : Respaced t t') :
    Option.Rel FoldAlike (routineBodyAt? t) (routineBodyAt? t') :=
  rel_bind (h.spaced? (by decide)) fun _ _ h =>
    rel_bind (respaced_delimiter? h) fun _ _ => foldAlike_delimitedBody?

theorem routineBodyAt?_blank_cons (hc : isBlank c = true) (t : List Char) :
    routineBodyAt? (c :: t) = none := by
  have hnone : keyword? "AS".toList (c :: t) = none := keyword?_blank_cons (by decide) hc t
  rw [routineBodyAt?, spaced?, hnone]
  rfl

theorem routineBodyFrom?_congr (h : isWord c = isWord d) (t : List Char) :
    routineBodyFrom? c t = routineBodyFrom? d t := by
  cases t with
  | nil => rfl
  | cons e t => rw [routineBodyFrom?, routineBodyFrom?, h]

theorem routineBodyFrom?_gap (hb : IsGap b) (c : Char) (t : List Char) :
    routineBodyFrom? c (b ++ t) = routineBodyFrom? ' ' t := by
  obtain ⟨e, u, rfl, he, hu⟩ := hb.exists_cons
  clear hb
  induction u generalizing c e with
  | nil =>
      have hspace : isWord e = isWord ' ' := by
        rw [isWord_eq_false_of_isBlank he, isWord_eq_false_of_isBlank (by decide)]
      rw [List.singleton_append, routineBodyFrom?, routineBodyAt?_blank_cons he, ite_self,
        Option.none_or, routineBodyFrom?_congr hspace]
  | cons f u ih =>
      obtain ⟨hf, hu⟩ := List.forall_mem_cons.1 (List.all_eq_true.1 hu)
      rw [List.cons_append, routineBodyFrom?, routineBodyAt?_blank_cons he, ite_self, Option.none_or]
      exact ih e f hf (List.all_eq_true.2 hu)

theorem foldAlike_routineBodyFrom? (h : Respaced t t') (c : Char) :
    Option.Rel FoldAlike (routineBodyFrom? c t) (routineBodyFrom? c t') := by
  have hsolid {c d : Char} {t t' : List Char} (hd : isBlank d = false) (h : Respaced t t')
      (ih : ∀ c, Option.Rel FoldAlike (routineBodyFrom? c t) (routineBodyFrom? c t')) :
      Option.Rel FoldAlike (routineBodyFrom? c (d :: t)) (routineBodyFrom? c (d :: t')) := by
    rw [routineBodyFrom?, routineBodyFrom?]
    exact rel_or (rel_ite rfl .none (foldAlike_routineBodyAt? (.solid hd h))) (ih d)
  induction h generalizing c with
  | nil => exact .none
  | solid hc h ih => exact hsolid hc h ih
  | gap hb hb' hc h ih =>
      rw [routineBodyFrom?_gap hb, routineBodyFrom?_gap hb']
      exact hsolid hc h ih

theorem foldAlike_routineBodyAfterName? {name : List Char} (hname : ∀ c ∈ name, isBlank c = false)
    (h : Respaced t t') :
    Option.Rel FoldAlike (routineBodyAfterName? name t) (routineBodyAfterName? name t') := by
  induction name with
  | nil => exact .none
  | cons c name ih =>
      obtain ⟨-, hname⟩ := List.forall_mem_cons.1 hname
      refine rel_or (ih hname) ?_
      cases name with
      | nil => exact foldAlike_routineBodyFrom? h c
      | cons d name => exact rel_ite rfl .none (foldAlike_routineBodyAt? (h.append_solid hname))

theorem isBlank_eq_false_of_isNameChar (hc : isNameChar c = true) : isBlank c = false := by
  refine Bool.eq_false_iff.2 fun hb => ?_
  rw [isNameChar_eq_false_of_isBlank hb] at hc
  cases hc

theorem foldAlike_routineBody? (hk : keyword.toList.all Char.isAlpha = true) (h : Respaced t t') :
    Option.Rel FoldAlike (routineBody? keyword t) (routineBody? keyword t') := by
  rw [routineBody?, routineBody?]
  refine rel_bind h.createOrReplace? fun _ _ h => ?_
  refine rel_bind ((h.spacedOr (by decide)).spaced? hk) fun _ _ h => ?_
  refine rel_bind (h.run? isNameChar_eq_false_of_isBlank) ?_
  rintro ⟨name, t⟩ ⟨name', t'⟩ ⟨rfl, hname, h⟩
  exact foldAlike_routineBodyAfterName? (fun c hc => isBlank_eq_false_of_isNameChar (hname c hc)) h

theorem respaced_fileFormatBody? (h : Respaced t t') :
    Option.Rel Respaced (fileFormatBody? t) (fileFormatBody? t') := by
  rw [fileFormatBody?, fileFormatBody?]
  refine rel_bind h.createOrReplace? fun _ _ h => ?_
  refine rel_bind (h.spaced? (by decide)) fun _ _ h => ?_
  refine rel_bind (h.spaced? (by decide)) fun _ _ h => ?_
  refine rel_bind (h.run? isNameChar_eq_false_of_isBlank) ?_
  rintro ⟨name, t⟩ ⟨name', t'⟩ ⟨-, -, h⟩
  exact .some h

end Routines

section Search

theorem foldAlike_firstMatch {read : List Char → Option (List Char)}
    (hread : ∀ {t t'}, Respaced t t' → Option.Rel FoldAlike (read t) (read t'))
    (hblank : ∀ {c}, isBlank c = true → ∀ t, read (c :: t) = none) (h : Respaced t t') :
    Option.Rel FoldAlike (firstMatch read t) (firstMatch read t') := by
  have hsolid {c : Char} {t t' : List Char} (hc : isBlank c = false) (h : Respaced t t')
      (ih : Option.Rel FoldAlike (firstMatch read t) (firstMatch read t')) :
      Option.Rel FoldAlike (firstMatch read (c :: t)) (firstMatch read (c :: t')) :=
    rel_or (hread (.solid hc h)) ih
  induction h with
  | nil => exact hread .nil
  | solid hc h ih => exact hsolid hc h ih
  | gap hb hb' hc h ih =>
      rw [firstMatch_lead hblank hb.2, firstMatch_lead hblank hb'.2]
      exact hsolid hc h ih

theorem fileFormatBody?_blank_cons (hc : isBlank c = true) (t : List Char) :
    fileFormatBody? (c :: t) = none := by
  rw [fileFormatBody?, createOrReplace?_blank_cons hc]
  rfl

theorem rel_foldAlike {o o' : Option (List Char)} (h : Option.Rel Respaced o o') :
    Option.Rel FoldAlike o o' := by
  cases h with
  | none => exact .none
  | some h => exact .some h.foldAlike

theorem foldAlike_find? (type : ObjectType) (h : Respaced t t') :
    Option.Rel FoldAlike (find? type t) (find? type t') := by
  cases type
  case view =>
    exact foldAlike_firstMatch (fun h => rel_foldAlike (respaced_viewBody? h)) viewBody?_blank_cons h
  case function =>
    exact foldAlike_firstMatch (foldAlike_routineBody? (by decide)) routineBody?_blank_cons h
  case procedure =>
    exact foldAlike_firstMatch (foldAlike_routineBody? (by decide)) routineBody?_blank_cons h
  case fileFormat =>
    exact foldAlike_firstMatch (fun h => rel_foldAlike (respaced_fileFormatBody? h))
      fileFormatBody?_blank_cons h
  all_goals exact .none

theorem respaced_comparable (h : Respaced t t') (ht : ¬ EntersComment .plain t)
    (ht' : ¬ EntersComment .plain t') : Respaced (comparable t) (comparable t') := by
  rw [comparable, comparable, stripComments_eq_self_iff.2 ht, stripComments_eq_self_iff.2 ht',
    replacePair_quotes, replacePair_quotes]
  exact h.halve false

/-- Of two texts without comments that differ in their runs of blanks only, a body is found in both or
in neither, and both have the same normal form. -/
theorem normalize_of_respaced (type : ObjectType) (h : Respaced t t')
    (ht : ¬ EntersComment .plain t) (ht' : ¬ EntersComment .plain t') :
    normalize type t = normalize type t' ∧
      (find? type (comparable t)).isSome = (find? type (comparable t')).isSome := by
  have hcomparable := respaced_comparable h ht ht'
  have hfound := foldAlike_find? type hcomparable
  have hbody := rel_getD hfound hcomparable.foldAlike
  refine ⟨?_, rel_isSome hfound⟩
  rw [normalize, normalize, hbody.collapse_eq]

theorem normalize_of_respaced_function :
    let t := "create or replace function F() as\n $$\n  select 'a  b'\n$$ ;".toList
    let t' := "create or\treplace  function F() as $$ select\n'a b' $$\n;".toList
    Respaced t t' ∧ ¬ EntersComment .plain t ∧ ¬ EntersComment .plain t' ∧
      normalize .function t = normalize .function t' ∧ normalize .function t = "select 'a b'".toList := by
  intro t t'
  have hwords := respaced_flatMap (l := [([' '], [' '], "or".toList), ([' '], ['\t'], "replace".toList),
    ([' '], "  ".toList, "function".toList), ([' '], [' '], "F()".toList), ([' '], [' '], "as".toList),
    ("\n ".toList, [' '], "$$".toList), ("\n  ".toList, [' '], "select".toList),
    ([' '], ['\n'], "'a".toList), ("  ".toList, [' '], "b'".toList), (['\n'], [' '], "$$".toList),
    ([' '], ['\n'], [';'])]) (by decide)
  have h : Respaced t t' := by
    refine (congrArg₂ Respaced ?_ ?_).mp (hwords.append_solid (x := "create".toList) (by simp [isBlank]))
    · decide +kernel
    · decide +kernel
  have ht : ¬ EntersComment .plain t := by decide +kernel
  have ht' : ¬ EntersComment .plain t' := by decide +kernel
  obtain ⟨hsame, -⟩ := normalize_of_respaced .function h ht ht'
  exact ⟨h, ht, ht', hsame, by decide +kernel⟩

end Search

end SchemaDeploy.Body
