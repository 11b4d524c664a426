import SchemaDeploy.Proofs.WrittenUnits
import SchemaDeploy.Store.Repository

namespace SchemaDeploy

namespace Text

variable {b l t x : List Char}

/-- Three dashes after blanks. -/
def IsDashed (l : List Char) : Prop :=
  ['-', '-', '-'] <+: trimStart l

instance (l : List Char) : Decidable (IsDashed l) :=
  inferInstanceAs (Decidable (_ <+: _))

theorem isDashed_append_blank (hb : allBlank b = true) : IsDashed (l ++ b) ↔ IsDashed l := by
  have hdash : isBlank '-' = false := by decide
  have hrest : trimStart b = [] := List.dropWhile_eq_nil_iff.2 (List.all_eq_true.1 hb)
  rw [IsDashed, IsDashed, trimStart, trimStart, List.dropWhile_append]
  split
  · next hnil => rw [List.isEmpty_iff.1 hnil]; exact Iff.of_eq (congrArg _ hrest)
  · constructor
    · intro h
      obtain ⟨u, hu⟩ := h
      obtain ⟨y, hy, -⟩ := exists_append_of_blank hu hb (by simp [hdash])
      exact ⟨y, hy.symm⟩
    · exact fun h => h.trans (List.prefix_append _ b)

theorem isDashed_blank_append (hb : allBlank b = true) : IsDashed (b ++ l) ↔ IsDashed l := by
  rw [IsDashed, IsDashed, trimStart, List.dropWhile_append_of_pos (List.all_eq_true.1 hb)]
  rfl

theorem ignoresBlanks_isDashed : IgnoresBlanks IsDashed where
  append := isDashed_append_blank
  before := isDashed_blank_append
  blank hb := by
    rw [IsDashed, trimStart, List.dropWhile_eq_nil_iff.2 (List.all_eq_true.1 hb)]
    simp

theorem exists_chomp (l : List Char) : ∃ e, l = chomp l ++ e ∧ allBlank e = true := by
  have hsplit {e u : List Char} (h : l.reverse = e ++ u) : l = u.reverse ++ e.reverse := by
    rw [← List.reverse_append, ← h, List.reverse_reverse]
  rw [chomp]
  split
  · next u h => exact ⟨['\r', '\n'], hsplit (e := ['\n', '\r']) h, by decide⟩
  · next u _ h => exact ⟨['\n'], hsplit (e := ['\n']) h, by decide⟩
  · exact ⟨[], by simp, rfl⟩

theorem isDashed_chomp : IsDashed (chomp l) ↔ IsDashed l := by
  obtain ⟨e, hl, he⟩ := exists_chomp l
  conv_rhs => rw [hl]
  exact (isDashed_append_blank he).symm

theorem hasLine_isDashed : HasLine IsDashed t ↔ ∃ l ∈ lines t, IsDashed l := by
  simp [HasLine, lines, isDashed_chomp]

theorem chomp_append_of_not_mem (hx : '\r' ∉ x) : chomp (x ++ ['\n']) = x := by
  have hrev : (x ++ ['\n']).reverse = '\n' :: x.reverse := by simp
  rw [chomp, hrev]
  split
  · next u h =>
    have hmem : '\r' ∈ x.reverse := by
      rw [(List.cons.inj h).2]
      exact List.mem_cons_self
    exact absurd (List.mem_reverse.1 hmem) hx
  · next u _ h => rw [← (List.cons.inj h).2, List.reverse_reverse]
  · next h => exact absurd rfl (h _)

theorem intercalate_lines (ht : '\r' ∉ t) : ['\n'].intercalate (lines (t ++ ['\n'])) = t := by
  induction hn : t.length using Nat.strongRecOn generalizing t with
  | ind n ih =>
  subst hn
  by_cases hnewline : '\n' ∈ t
  · obtain ⟨x, y, rfl, hx⟩ := List.eq_append_cons_of_mem hnewline
    simp only [List.mem_append, List.mem_cons, not_or] at ht
    have hy : y.length < (x ++ '\n' :: y).length := by
      rw [List.length_append, List.length_cons]
      omega
    have hrest := ih y.length hy ht.2.2 rfl
    obtain ⟨m, ms, hms⟩ : ∃ m ms, lines (y ++ ['\n']) = m :: ms := by
      refine List.exists_cons_of_ne_nil fun hnil => ?_
      have hflat := flatten_rawLines (y ++ ['\n'])
      rw [List.map_eq_nil_iff.1 hnil] at hflat
      simp at hflat
    have hcut : lines (x ++ '\n' :: y ++ ['\n']) = x :: lines (y ++ ['\n']) := by
      rw [lines, List.append_assoc, List.cons_append, rawLines_append hx, List.map_cons,
        chomp_append_of_not_mem ht.1, lines]
    rw [hcut, hms, List.intercalate_cons_cons, ← hms, hrest]
    simp
  · rw [lines, rawLines_append hnewline, List.map_cons, chomp_append_of_not_mem ht]
    simp [rawLines]

end Text

open Text

namespace MigrationFile

variable {w : WrittenUnit} {content : String}

theorem units_single (hcontent : content.toList = w.text) (hw : ¬ HasHeader w.body) :
    units content = .ok [w.unit] := by
  have hlines : rawLines content.toList = [w.raw []].flatMap (rawLines ·.text) := by
    rw [hcontent]
    simp [WrittenUnit.raw]
  have hheaded : ∀ u ∈ [w.raw []], IsHeaded u := List.forall_mem_singleton.2 (w.isHeaded_raw [])
  have hinner : ∀ u ∈ [w.raw []], ¬ HasInnerHeader u.text :=
    List.forall_mem_singleton.2 ((w.hasInnerHeader_raw rfl).not.2 hw)
  refine units_eq_ok_iff.2 ⟨_, readUnits_of_headed hlines hheaded hinner (List.nodup_singleton _), ?_⟩
  rw [List.map_singleton, w.finish_raw rfl]

theorem OpensUnit.isDashed {l : List Char} (h : OpensUnit l) : IsDashed l := by
  obtain ⟨digits, rest, b, ⟨b', t, rfl, hb', -⟩, -⟩ := h
  rw [isDashed_blank_append hb']
  exact ⟨t, rfl⟩

theorem isDashed_directiveLine (keyword : String) (t : List Char) :
    IsDashed (directiveLine keyword t) :=
  ⟨keyword.toList ++ ':' :: ' ' :: t, rfl⟩

theorem migrationBody_written (hcontent : content.toList = w.text) (hline : IsDashed w.line)
    (hreturn : '\r' ∉ w.body) (hbody : ¬ HasLine IsDashed w.body) :
    (Repository.migrationBody content).toList = trim w.body := by
  have hnewline : allBlank ['\n'] = true := by decide
  have hbody' : ∀ l ∈ lines (w.body ++ ['\n']), ¬ IsDashed l := by
    have hnone := (ignoresBlanks_isDashed.hasLine_append_blank hnewline).not.2 hbody
    rw [hasLine_isDashed] at hnone
    exact fun l hl hdashed => hnone ⟨l, hl, hdashed⟩
  have hdashed {l : List Char} : (['-', '-', '-'].isPrefixOf (trimStart l)) = decide (IsDashed l) := by
    rw [Bool.eq_iff_iff, List.isPrefixOf_iff_prefix, decide_eq_true_iff, IsDashed]
  have hlines : lines w.text = chomp (w.line ++ ['\n']) :: (lines (w.body ++ ['\n']) ++
      [chomp (directiveLine "rollback" w.rollback ++ ['\n']),
        chomp (directiveLine "verify" w.verify)]) := by
    rw [lines, w.rawLines_text, List.map_cons, List.map_append, lines]
    rfl
  have hkept : (lines w.text).filter (fun l => !(['-', '-', '-'].isPrefixOf (trimStart l))) =
      lines (w.body ++ ['\n']) := by
    have hfirst : IsDashed (chomp (w.line ++ ['\n'])) :=
      isDashed_chomp.2 ((isDashed_append_blank hnewline).2 hline)
    have hrollback : IsDashed (chomp (directiveLine "rollback" w.rollback ++ ['\n'])) :=
      isDashed_chomp.2 ((isDashed_append_blank hnewline).2 (isDashed_directiveLine _ _))
    have hverify : IsDashed (chomp (directiveLine "verify" w.verify)) :=
      isDashed_chomp.2 (isDashed_directiveLine _ _)
    have hall : (lines (w.body ++ ['\n'])).filter (fun l => !decide (IsDashed l)) =
        lines (w.body ++ ['\n']) :=
      List.filter_eq_self.2 fun l hl => by simpa using hbody' l hl
    simp [hdashed, hlines, hfirst, hrollback, hverify, hall]
  rw [Repository.migrationBody, String.toList_ofList, hcontent, hkept, intercalate_lines hreturn]

end MigrationFile

namespace Script

open MigrationFile

variable {database schema name ddl : String}

/-- A definition is read back from the migration that it is written as. The file has the one unit of
the script, with its statements, and its lines without dashes are the definition. -/
theorem units_initial (objectType : ObjectType) (hdatabase : '\n' ∉ database.toList)
    (hschema : '\n' ∉ schema.toList) (hname : '\n' ∉ name.toList) (hreturn : '\r' ∉ ddl.toList)
    (hdashed : ∀ l ∈ lines ddl.toList, ¬ IsDashed l) :
    let s := initial database schema objectType name ddl
    ∃ rollback verify, s.migration = some ⟨0, some "schemasync", some rollback, some verify⟩ ∧
      units s.content = .ok [⟨0, some "schemasync", s.content, some rollback, some verify⟩] ∧
      Repository.migrationBody s.content = trimText ddl := by
  intro s
  let w := initialUnit objectType ddl hdatabase hschema hname
  have hcontent : s.content.toList = w.text :=
    toList_content_initial objectType ddl hdatabase hschema hname
  have hbody : w.body = trim ddl.toList := String.toList_ofList
  have hplain : ¬ HasLine IsDashed w.body := by
    rw [hbody, ignoresBlanks_isDashed.hasLine_trim, hasLine_isDashed]
    rintro ⟨l, hl, h⟩
    exact hdashed l hl h
  have hheader : ¬ HasHeader w.body := by
    rintro ⟨l, hl, h⟩
    exact hplain ⟨l, hl, h.isDashed⟩
  have hreturn' : '\r' ∉ w.body := by
    obtain ⟨b, b', hddl, -, -⟩ := exists_trim ddl.toList
    rw [hddl] at hreturn
    rw [hbody]
    exact fun h => hreturn (List.mem_append_right _ (List.mem_append_left _ h))
  have hline : IsDashed ("---version: 0, author: " ++ generatedAuthor).toList := by decide
  refine ⟨String.ofList w.rollback, String.ofList w.verify, ?_, ?_, ?_⟩
  · simp only [s, w, initial, ofUnit, ofContent, initialUnit, String.ofList_toList, generatedAuthor]
  · have hunit : w.unit = ⟨0, some "schemasync", s.content, some (String.ofList w.rollback),
        some (String.ofList w.verify)⟩ := by
      rw [WrittenUnit.unit, ← hcontent, String.ofList_toList]
      rfl
    rw [units_single hcontent hheader, hunit]
  · rw [← String.toList_inj, migrationBody_written hcontent hline hreturn' hplain, hbody, trim_trim,
      trimText, String.toList_ofList]

theorem units_initial_tableT :
    let ddl := "\n create table t (\n\n  -- --- note\n  a int --- not null\n);\n-- -rollback: x\n"
    let s := initial "db" "s" .table "t 'x'" ddl
    ('\n' ∉ "db".toList ∧ '\n' ∉ "s".toList ∧ '\n' ∉ "t 'x'".toList ∧ '\r' ∉ ddl.toList ∧
      ∀ l ∈ lines ddl.toList, ¬ IsDashed l) ∧
    ∃ rollback verify, s.migration = some ⟨0, some "schemasync", some rollback, some verify⟩ ∧
      units s.content = .ok [⟨0, some "schemasync", s.content, some rollback, some verify⟩] ∧
      Repository.migrationBody s.content = trimText ddl := by
  intro ddl s
  have hdatabase : '\n' ∉ "db".toList := by decide
  have hschema : '\n' ∉ "s".toList := by decide
  have hname : '\n' ∉ "t 'x'".toList := by decide
  have hreturn : '\r' ∉ ddl.toList := by decide
  have hdashed : ∀ l ∈ lines ddl.toList, ¬ IsDashed l := by decide
  exact ⟨⟨hdatabase, hschema, hname, hreturn, hdashed⟩,
    units_initial .table hdatabase hschema hname hreturn hdashed⟩

end Script

end SchemaDeploy
