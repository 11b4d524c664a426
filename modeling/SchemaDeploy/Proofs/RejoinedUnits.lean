import SchemaDeploy.Proofs.UnitTexts

namespace SchemaDeploy.MigrationFile

open Text

variable {us : List RawUnit} {t : List Char} {cs : List (List Char)}

/-- The text from the first header on. -/
def fromFirstHeader (t : List Char) : List Char :=
  ((rawLines t).dropWhile (¬ OpensUnit ·)).flatten

/-- A text is made of these trimmed stretches, in this order, and of blanks around them. -/
inductive CutsInto : List Char → List (List Char) → Prop
  | nil {b : List Char} (hb : allBlank b = true) : CutsInto b []
  | cons {b c t : List Char} {cs : List (List Char)} (hb : allBlank b = true) (hc : trim c = c)
      (h : CutsInto t cs) : CutsInto (b ++ (c ++ t)) (c :: cs)

theorem CutsInto.blank_append (h : CutsInto t cs) {b : List Char} (hb : allBlank b = true) :
    CutsInto (b ++ t) cs := by
  cases h with
  | nil hb' => exact .nil (allBlank_append.2 ⟨hb, hb'⟩)
  | cons hb' hc h =>
      rw [← List.append_assoc]
      exact .cons (allBlank_append.2 ⟨hb, hb'⟩) hc h

theorem cutsInto_flatMap (us : List RawUnit) :
    CutsInto (us.flatMap (·.text)) (us.map (trim ·.text)) := by
  induction us with
  | nil => exact .nil rfl
  | cons u us ih =>
      obtain ⟨b, b', htext, hb, hb'⟩ := exists_trim u.text
      have hsplit : u.text ++ us.flatMap (·.text) =
          b ++ (trim u.text ++ (b' ++ us.flatMap (·.text))) := by
        conv_lhs => rw [htext]
        simp
      rw [List.flatMap_cons, List.map_cons, hsplit]
      exact .cons hb (trim_trim u.text) (ih.blank_append hb')

theorem fromFirstHeader_eq {before : List (List Char)}
    (ht : rawLines t = before ++ us.flatMap (rawLines ·.text))
    (hbefore : ∀ l ∈ before, ¬ OpensUnit l) (hus : ∀ u ∈ us, IsUnit u) :
    fromFirstHeader t = us.flatMap (·.text) := by
  have hdrop : (us.flatMap (rawLines ·.text)).dropWhile (¬ OpensUnit ·) =
      us.flatMap (rawLines ·.text) := by
    cases us with
    | nil => rfl
    | cons u us =>
        obtain ⟨l, ls, hlines, hl, -⟩ := hus u List.mem_cons_self
        rw [List.flatMap_cons, hlines, List.cons_append,
          List.dropWhile_cons_of_neg (by simpa using hl.opensUnit)]
  have hpos : ∀ l ∈ before, decide (¬ OpensUnit l) = true := fun l hl => decide_eq_true (hbefore l hl)
  rw [fromFirstHeader, ht, List.dropWhile_append_of_pos hpos, hdrop]
  simp only [List.flatMap, List.flatten_flatten, List.map_map]
  congr 1
  exact List.map_congr_left fun u _ => flatten_rawLines u.text

theorem finish_trim_append (u : RawUnit) {b : List Char} (hb : allBlank b = true) :
    RawUnit.finish ⟨u.header, trim u.text ++ b⟩ = u.finish := by
  simp only [RawUnit.finish, trim_append_blank hb, trim_trim]

theorem exists_rewritten (hus : ∀ u ∈ us, IsUnit u) : ∃ vs : List RawUnit, (∀ v ∈ vs, IsUnit v) ∧
    vs.map (·.header) = us.map (·.header) ∧ vs.map RawUnit.finish = us.map RawUnit.finish ∧
    rawLines (['\n'].intercalate (us.map (trim ·.text))) = vs.flatMap (rawLines ·.text) := by
  induction us with
  | nil => exact ⟨[], by simp, rfl, rfl, rfl⟩
  | cons u us ih =>
      obtain ⟨hu, hus⟩ := List.forall_mem_cons.1 hus
      cases us with
      | nil =>
          refine ⟨[⟨u.header, trim u.text ++ []⟩], ?_, rfl, ?_, by simp⟩
          · rw [List.forall_mem_singleton]
            exact hu.trim_append rfl
          · rw [List.map_singleton, List.map_singleton, finish_trim_append u rfl]
      | cons v us =>
          obtain ⟨vs, hvs, hheaders, hfinish, hlines⟩ := ih hus
          have hnewline : allBlank ['\n'] = true := by decide
          refine ⟨⟨u.header, trim u.text ++ ['\n']⟩ :: vs,
            List.forall_mem_cons.2 ⟨hu.trim_append hnewline, hvs⟩, ?_, ?_, ?_⟩
          · rw [List.map_cons, List.map_cons, hheaders]
          · rw [List.map_cons, List.map_cons, hfinish, finish_trim_append u hnewline]
          · rw [List.flatMap_cons, ← hlines, ← rawLines_append_newline, List.map_cons,
              List.map_cons, List.intercalate_cons_cons]
            simp

/-- The contents of the units of a file are trimmed stretches of it, in its order, and nothing but
blanks is left of the file from its first header on. Joined by newlines they are read as the same
units. -/
theorem units_joinWith_content {content : String} {vs : List MigrationUnit}
    (h : units content = .ok vs) :
    CutsInto (fromFirstHeader content.toList) (vs.map (·.content.toList)) ∧
      units (joinWith "\n" (vs.map (·.content))) = .ok vs := by
  obtain ⟨us, hread, rfl⟩ := units_eq_ok_iff.1 h
  obtain ⟨before, hlines, hbefore, hus, hversions⟩ := exists_units_of_readUnits hread
  have hcontents : (us.map RawUnit.finish).map (·.content.toList) = us.map (trim ·.text) := by
    simp [RawUnit.finish]
  constructor
  · rw [fromFirstHeader_eq hlines hbefore hus, hcontents]
    exact cutsInto_flatMap us
  · obtain ⟨ws, hws, hheaders, hfinish, hjoined⟩ := exists_rewritten hus
    have htext : (joinWith "\n" ((us.map RawUnit.finish).map (·.content))).toList =
        ['\n'].intercalate (us.map (trim ·.text)) := by
      rw [joinWith, String.toList_intercalate, List.map_map, ← hcontents]
      rfl
    have hnodup : ((([] : List RawUnit).reverse ++ ws).map (·.header.version)).Nodup := by
      have hmap := congrArg (List.map Header.version) hheaders
      rw [List.map_map, List.map_map] at hmap
      exact hmap ▸ hversions
    rw [units_eq_ok_iff, htext, hjoined]
    exact ⟨ws, readUnits_flatMap hws hnodup 1, hfinish⟩

theorem units_joinWith_content_tableT :
    let content := "-- orders\n ---VERSION :3 , author: ops \r\nCREATE TABLE T (A INT);\r\n---verify: \n\n" ++
      "--- version: 1\nALTER TABLE T ADD B INT;\n---rollback: ALTER TABLE T DROP B;\n \t\n"
    let vs : List MigrationUnit :=
      [⟨3, some "ops", "---VERSION :3 , author: ops \r\nCREATE TABLE T (A INT);\r\n---verify:", none, none⟩,
        ⟨1, none, "--- version: 1\nALTER TABLE T ADD B INT;\n---rollback: ALTER TABLE T DROP B;",
          some "ALTER TABLE T DROP B;", none⟩]
    units content = .ok vs ∧ CutsInto (fromFirstHeader content.toList) (vs.map (·.content.toList)) ∧
      units (joinWith "\n" (vs.map (·.content))) = .ok vs := by
  intro content vs
  have h : units content = .ok vs := by decide +kernel
  exact ⟨h, units_joinWith_content h⟩

end SchemaDeploy.MigrationFile
