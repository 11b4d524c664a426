import SchemaDeploy.Proofs.UnitTexts
import SchemaDeploy.Proofs.UpperText

namespace SchemaDeploy

namespace MigrationFile

open Text

section Headers

variable {a b s t x : List Char}

def HasHeader (t : List Char) : Prop :=
  ∃ l ∈ rawLines t, OpensUnit l

def HasInnerHeader (t : List Char) : Prop :=
  ∃ l ∈ (rawLines t).tail, OpensUnit l

theorem hasHeader_append_blank (hb : allBlank b = true) : HasHeader (s ++ b) ↔ HasHeader s :=
  ignoresBlanks_opensUnit.hasLine_append_blank hb

theorem hasHeader_append_newline : HasHeader (a ++ '\n' :: b) ↔ HasHeader a ∨ HasHeader b :=
  ignoresBlanks_opensUnit.hasLine_append_newline

theorem hasHeader_trim (t : List Char) : HasHeader (trim t) ↔ HasHeader t :=
  ignoresBlanks_opensUnit.hasLine_trim t

theorem hasHeader_of_not_mem (hx : '\n' ∉ x) : HasHeader x ↔ OpensUnit x := by
  by_cases hne : x = []
  · subst hne
    simpa [HasHeader, rawLines] using not_opensUnit_of_allBlank rfl
  · simp [HasHeader, rawLines_of_not_mem hx hne]

theorem hasInnerHeader_append_newline (hx : '\n' ∉ x) :
    HasInnerHeader (x ++ '\n' :: t) ↔ HasHeader t := by
  rw [HasInnerHeader, rawLines_append hx, List.tail_cons, HasHeader]

theorem not_hasInnerHeader (hx : '\n' ∉ x) : ¬ HasInnerHeader x := by
  by_cases hne : x = []
  · subst hne
    simp [HasInnerHeader, rawLines]
  · simp [HasInnerHeader, rawLines_of_not_mem hx hne]

theorem hasInnerHeader_append_left (hx : '\n' ∉ x) :
    HasInnerHeader (x ++ t) ↔ HasInnerHeader t := by
  cases ht : rawLines t with
  | nil =>
      have hnil : t = [] := by rw [← flatten_rawLines t, ht, List.flatten_nil]
      rw [hnil, List.append_nil]
      exact iff_of_false (not_hasInnerHeader hx) (not_hasInnerHeader List.not_mem_nil)
  | cons l ls => rw [HasInnerHeader, HasInnerHeader, rawLines_append_left hx ht, ht]; rfl

theorem hasHeader_iff_hasInnerHeader (h : t.head?.any (fun c => !isBlank c && c != '-') = true) :
    HasHeader t ↔ HasInnerHeader t := by
  cases t with
  | nil => cases h
  | cons c t =>
      simp only [List.head?_cons, Option.any_some, Bool.and_eq_true, Bool.not_eq_true',
        bne_iff_ne] at h
      obtain ⟨hblank, hdash⟩ := h
      have hnewline : c ≠ '\n' := by
        rintro rfl
        cases hblank
      obtain ⟨l, ls, hlines⟩ := exists_rawLines_cons hnewline t
      have hfirst : ¬ OpensUnit (c :: l) := by
        rw [opensUnit_iff, headerDigits?, directive?, trimStart_cons hblank]
        simp [hdash]
      rw [HasHeader, HasInnerHeader, hlines, List.exists_mem_cons_iff, or_iff_right hfirst,
        List.tail_cons]

end Headers

section Units

variable {u : RawUnit} {us vs : List RawUnit} {t : List Char}

/-- The text of the unit starts with its header. -/
def IsHeaded (u : RawUnit) : Prop :=
  ∃ l ls, rawLines u.text = l :: ls ∧ IsHeader l u.header.version u.header.author

theorem isUnit_iff : IsUnit u ↔ IsHeaded u ∧ ¬ HasInnerHeader u.text := by
  constructor
  · rintro ⟨l, ls, hlines, hl, hls⟩
    refine ⟨⟨l, ls, hlines, hl⟩, ?_⟩
    rw [HasInnerHeader, hlines]
    rintro ⟨m, hm, hopens⟩
    exact hls m hm hopens
  · rintro ⟨⟨l, ls, hlines, hl⟩, hinner⟩
    rw [HasInnerHeader, hlines] at hinner
    exact ⟨l, ls, hlines, hl, fun m hm hopens => hinner ⟨m, hm, hopens⟩⟩

theorem IsHeaded.countP (h : IsHeaded u) : ∃ n, (rawLines u.text).countP (OpensUnit ·) = n + 1 ∧
    (n = 0 ↔ ¬ HasInnerHeader u.text) := by
  obtain ⟨l, ls, hlines, hl⟩ := h
  refine ⟨ls.countP (OpensUnit ·), ?_, ?_⟩
  · rw [hlines, List.countP_cons_of_pos (by simpa using hl.opensUnit)]
  · rw [HasInnerHeader, hlines, List.countP_eq_zero]
    simp

theorem countP_flatMap (hus : ∀ u ∈ us, IsHeaded u) :
    ∃ n, (us.flatMap (rawLines ·.text)).countP (OpensUnit ·) = us.length + n ∧
      (n = 0 ↔ ∀ u ∈ us, ¬ HasInnerHeader u.text) := by
  induction us with
  | nil => exact ⟨0, rfl, by simp⟩
  | cons u us ih =>
      obtain ⟨hu, hus⟩ := List.forall_mem_cons.1 hus
      obtain ⟨n, hn, hzero⟩ := ih hus
      obtain ⟨m, hm, hzero'⟩ := hu.countP
      refine ⟨n + m, ?_, ?_⟩
      · rw [List.flatMap_cons, List.countP_append, hn, hm, List.length_cons]
        omega
      · rw [List.forall_mem_cons, ← hzero, ← hzero']
        omega

theorem countP_of_readUnits (h : readUnits 1 [] (rawLines t) = .ok vs) :
    (rawLines t).countP (OpensUnit ·) = vs.length := by
  obtain ⟨before, hlines, hbefore, hvs, -⟩ := exists_units_of_readUnits h
  obtain ⟨n, hn, hzero⟩ := countP_flatMap fun v hv => (isUnit_iff.1 (hvs v hv)).1
  have hnone : before.countP (OpensUnit ·) = 0 := by simpa [List.countP_eq_zero] using hbefore
  rw [hlines, List.countP_append, hnone, hn, hzero.2 fun v hv => (isUnit_iff.1 (hvs v hv)).2,
    Nat.zero_add, Nat.add_zero]

theorem readUnits_of_headed (ht : rawLines t = us.flatMap (rawLines ·.text))
    (hus : ∀ u ∈ us, IsHeaded u) (hinner : ∀ u ∈ us, ¬ HasInnerHeader u.text)
    (hnodup : (us.map (·.header.version)).Nodup) : readUnits 1 [] (rawLines t) = .ok us := by
  rw [ht]
  have hunits : ∀ u ∈ us, IsUnit u := fun u hu => isUnit_iff.2 ⟨hus u hu, hinner u hu⟩
  have hversions : ((([] : List RawUnit).reverse ++ us).map (·.header.version)).Nodup := hnodup
  exact readUnits_flatMap hunits hversions 1

theorem not_hasInnerHeader_of_readUnits (ht : rawLines t = us.flatMap (rawLines ·.text))
    (hus : ∀ u ∈ us, IsHeaded u) (h : readUnits 1 [] (rawLines t) = .ok vs)
    (hlength : vs.length = us.length) : ∀ u ∈ us, ¬ HasInnerHeader u.text := by
  obtain ⟨n, hn, hzero⟩ := countP_flatMap hus
  have hcount := countP_of_readUnits h
  rw [ht, hn] at hcount
  exact hzero.1 (by omega)

end Units

section Statements

variable {b p q t u x body rollback verify l : List Char} {version : Nat} {author : Option String}

/-- A text on one line that neither starts nor ends with a blank. -/
structure IsStatement (t : List Char) : Prop where
  line : '\n' ∉ t
  head : t.head?.any (!isBlank ·) = true
  last : t.getLast?.any (!isBlank ·) = true

theorem head?_append_any {f : Char → Bool} (h : p.head?.any f = true) :
    (p ++ t).head?.any f = true := by
  cases p with
  | nil => cases h
  | cons c p => exact h

theorem getLast?_append_any {f : Char → Bool} (h : q.getLast?.any f = true) :
    (t ++ q).getLast?.any f = true := by
  obtain ⟨c, hc, hf⟩ := (Option.any_eq_true _ _).1 h
  rw [List.getLast?_append, hc]
  exact hf

theorem isStatement_append (hp : '\n' ∉ p) (hhead : p.head?.any (!isBlank ·) = true)
    (hx : '\n' ∉ x) (hq : '\n' ∉ q) (hlast : q.getLast?.any (!isBlank ·) = true) :
    IsStatement (p ++ x ++ q) :=
  ⟨by simp [hp, hx, hq], head?_append_any (head?_append_any hhead), getLast?_append_any hlast⟩

theorem trim_eq_self (hhead : t.head?.any (!isBlank ·) = true)
    (hlast : t.getLast?.any (!isBlank ·) = true) : trim t = t := by
  have hstart : trimStart t = t := by
    cases t with
    | nil => rfl
    | cons c t => exact trimStart_cons (by simpa using hhead) t
  obtain ⟨c, hc, hblank⟩ := (Option.any_eq_true _ _).1 hlast
  obtain ⟨u, rfl⟩ := List.getLast?_eq_some_iff.1 hc
  rw [trim, hstart]
  exact dropEndWhile_append (by simpa using hblank) u []

theorem IsStatement.trim (h : IsStatement t) : trim t = t :=
  trim_eq_self h.head h.last

theorem IsStatement.directiveValue (h : IsStatement t) :
    directiveValue (' ' :: t) = some (String.ofList t) := by
  have htrim : Text.trim (' ' :: t) = t := h.trim
  have hne : t ≠ [] := by
    rintro rfl
    cases h.head
  rw [MigrationFile.directiveValue, htrim, if_neg hne]

theorem chomp_of_not_mem (ht : '\n' ∉ t) : chomp t = t := by
  have hrev : '\n' ∉ t.reverse := mt List.mem_reverse.1 ht
  rw [chomp]
  split
  · next h => exact absurd (h ▸ List.mem_cons_self) hrev
  · next h => exact absurd (h ▸ List.mem_cons_self) hrev
  · rfl

theorem chomp_append_newline (h : t.getLast?.any (!isBlank ·) = true) : chomp (t ++ ['\n']) = t := by
  obtain ⟨c, hc, hblank⟩ := (Option.any_eq_true _ _).1 h
  obtain ⟨u, rfl⟩ := List.getLast?_eq_some_iff.1 hc
  have hne : c ≠ '\r' := by
    rintro rfl
    exact absurd hblank (by decide)
  simp [chomp, hne]

def directiveLine (keyword : String) (t : List Char) : List Char :=
  '-' :: '-' :: '-' :: (keyword.toList ++ ':' :: ' ' :: t)

theorem newline_not_mem_directiveLine {keyword : String} (hkeyword : '\n' ∉ keyword.toList)
    (ht : '\n' ∉ t) : '\n' ∉ directiveLine keyword t := by
  simp [directiveLine, hkeyword, ht]

theorem getLast?_directiveLine (keyword : String) (h : t.getLast?.any (!isBlank ·) = true) :
    (directiveLine keyword t).getLast?.any (!isBlank ·) = true := by
  have htext : directiveLine keyword t =
      '-' :: '-' :: '-' :: (keyword.toList ++ [':', ' ']) ++ t := by
    simp [directiveLine]
  rw [htext]
  exact getLast?_append_any h

end Statements

structure WrittenUnit where
  header : Header
  line : List Char
  body : List Char
  rollback : List Char
  verify : List Char
  isLine : '\n' ∉ line
  isHeader : IsHeader line header.version header.author
  starts : line.head?.any (!isBlank ·) = true
  isRollback : IsStatement rollback
  isVerify : IsStatement verify

namespace WrittenUnit

variable {b : List Char} (w : WrittenUnit)

def text : List Char :=
  w.line ++ '\n' :: (w.body ++ '\n' :: (directiveLine "rollback" w.rollback ++
    '\n' :: directiveLine "verify" w.verify))

def unit : MigrationUnit :=
  ⟨w.header.version, w.header.author, String.ofList w.text, some (String.ofList w.rollback),
    some (String.ofList w.verify)⟩

theorem newline_not_mem_rollback : '\n' ∉ directiveLine "rollback" w.rollback :=
  newline_not_mem_directiveLine (by decide) w.isRollback.line

theorem newline_not_mem_verify : '\n' ∉ directiveLine "verify" w.verify :=
  newline_not_mem_directiveLine (by decide) w.isVerify.line

theorem not_opensUnit_rollback : ¬ OpensUnit (directiveLine "rollback" w.rollback) := by
  have hdigits : headerDigits? (directiveLine "rollback" w.rollback) = none := rfl
  simp [opensUnit_iff, hdigits]

theorem not_opensUnit_verify : ¬ OpensUnit (directiveLine "verify" w.verify) := by
  have hdigits : headerDigits? (directiveLine "verify" w.verify) = none := rfl
  simp [opensUnit_iff, hdigits]

theorem rawLines_text : rawLines w.text = (w.line ++ ['\n']) :: (rawLines (w.body ++ ['\n']) ++
    [directiveLine "rollback" w.rollback ++ ['\n'], directiveLine "verify" w.verify]) := by
  rw [text, rawLines_append w.isLine, rawLines_append_newline,
    rawLines_append w.newline_not_mem_rollback,
    rawLines_of_not_mem w.newline_not_mem_verify (by simp [directiveLine])]

theorem directives_text :
    directives w.text = ⟨some (String.ofList w.rollback), some (String.ofList w.verify)⟩ := by
  have hrollbackLine := chomp_append_newline
    (getLast?_directiveLine "rollback" w.isRollback.last)
  have hverifyLine := chomp_of_not_mem w.newline_not_mem_verify
  have hrollback : directiveOf? "rollback" (directiveLine "rollback" w.rollback) =
      some (directiveValue (' ' :: w.rollback)) := rfl
  have hverify : directiveOf? "verify" (directiveLine "verify" w.verify) =
      some (directiveValue (' ' :: w.verify)) := rfl
  have hlines : ((lines w.text).drop 1).reverse.filter (fun l => !allBlank l) =
      directiveLine "verify" w.verify :: directiveLine "rollback" w.rollback ::
        ((rawLines (w.body ++ ['\n'])).map chomp).reverse.filter (fun l => !allBlank l) := by
    rw [lines, rawLines_text, List.map_cons, List.drop_one, List.tail_cons, List.map_append,
      List.map_cons, List.map_singleton, hrollbackLine, hverifyLine, List.reverse_append]
    rfl
  simp only [directives, hlines, hverify, List.head?_cons, Option.bind_some, hrollback,
    w.isRollback.directiveValue, w.isVerify.directiveValue, Option.join_some]

theorem head?_text : w.text.head?.any (!isBlank ·) = true :=
  head?_append_any w.starts

theorem getLast?_text : w.text.getLast?.any (!isBlank ·) = true := by
  have htext : w.text = w.line ++ '\n' :: (w.body ++
      '\n' :: (directiveLine "rollback" w.rollback ++ ['\n'])) ++ directiveLine "verify" w.verify := by
    simp [text]
  rw [htext]
  exact getLast?_append_any (getLast?_directiveLine "verify" w.isVerify.last)

theorem trim_text : trim w.text = w.text :=
  trim_eq_self w.head?_text w.getLast?_text

def raw (b : List Char) : RawUnit :=
  ⟨w.header, w.text ++ b⟩

theorem finish_raw (hb : allBlank b = true) : (w.raw b).finish = w.unit := by
  simp only [RawUnit.finish, raw, trim_append_blank hb, trim_text, directives_text, unit]

theorem isHeaded_raw (b : List Char) : IsHeaded (w.raw b) := by
  have hnewline : allBlank ['\n'] = true := by decide
  refine ⟨w.line ++ ['\n'], rawLines (w.body ++ '\n' :: (directiveLine "rollback" w.rollback ++
    '\n' :: directiveLine "verify" w.verify) ++ b), ?_, ?_⟩
  · rw [← rawLines_append w.isLine, raw, text, List.append_assoc, List.cons_append]
  · exact (isHeader_append_blank hnewline).2 w.isHeader

theorem hasInnerHeader_raw (hb : allBlank b = true) :
    HasInnerHeader (w.raw b).text ↔ HasHeader w.body := by
  rw [raw, text, List.append_assoc, List.cons_append, hasInnerHeader_append_newline w.isLine,
    hasHeader_append_blank hb, hasHeader_append_newline, hasHeader_append_newline,
    hasHeader_of_not_mem w.newline_not_mem_rollback,
    hasHeader_of_not_mem w.newline_not_mem_verify, iff_false_intro w.not_opensUnit_rollback,
    iff_false_intro w.not_opensUnit_verify, or_false, or_false]

end WrittenUnit

section Pairs

variable {w w' : WrittenUnit} {content : String}

theorem rawLines_pair (hcontent : content.toList = w.text ++ '\n' :: '\n' :: w'.text) :
    rawLines content.toList = [w.raw ['\n', '\n'], w'.raw []].flatMap (rawLines ·.text) := by
  have hcut := rawLines_append_newline (w.text ++ ['\n']) w'.text
  rw [List.append_assoc, List.append_assoc] at hcut
  rw [hcontent]
  simpa [WrittenUnit.raw] using hcut

theorem isHeaded_pair : ∀ u ∈ [w.raw ['\n', '\n'], w'.raw []], IsHeaded u := by
  simp only [List.forall_mem_cons]
  exact ⟨w.isHeaded_raw _, w'.isHeaded_raw _, List.forall_mem_nil _⟩

theorem not_hasInnerHeader_pair : (∀ u ∈ [w.raw ['\n', '\n'], w'.raw []], ¬ HasInnerHeader u.text) ↔
    ¬ HasHeader w.body ∧ ¬ HasHeader w'.body := by
  have hinner : HasInnerHeader (w.raw ['\n', '\n']).text ↔ HasHeader w.body :=
    w.hasInnerHeader_raw (by decide)
  have hinner' : HasInnerHeader (w'.raw []).text ↔ HasHeader w'.body := w'.hasInnerHeader_raw rfl
  simp [hinner, hinner']

theorem units_pair (hcontent : content.toList = w.text ++ '\n' :: '\n' :: w'.text)
    (hne : w.header.version ≠ w'.header.version) (hw : ¬ HasHeader w.body)
    (hw' : ¬ HasHeader w'.body) : units content = .ok [w.unit, w'.unit] := by
  have hversions : ([w.raw ['\n', '\n'], w'.raw []].map (·.header.version)).Nodup := by
    simpa [WrittenUnit.raw] using hne
  refine units_eq_ok_iff.2 ⟨_, readUnits_of_headed (rawLines_pair hcontent) isHeaded_pair
    (not_hasInnerHeader_pair.2 ⟨hw, hw'⟩) hversions, ?_⟩
  rw [List.map_cons, List.map_singleton, w.finish_raw (by decide), w'.finish_raw rfl]

theorem not_hasHeader_of_units_pair {u v : MigrationUnit}
    (hcontent : content.toList = w.text ++ '\n' :: '\n' :: w'.text)
    (h : units content = .ok [u, v]) : ¬ HasHeader w.body ∧ ¬ HasHeader w'.body := by
  obtain ⟨vs, hread, hvs⟩ := units_eq_ok_iff.1 h
  have hlength : vs.length = 2 := by
    rw [← List.length_map (f := RawUnit.finish), hvs]
    rfl
  exact not_hasInnerHeader_pair.1
    (not_hasInnerHeader_of_readUnits (rawLines_pair hcontent) isHeaded_pair hread hlength)

end Pairs

theorem toList_written (line body rollback verify : String) :
    (line ++ "\n" ++ body ++ "\n---rollback: " ++ rollback ++ "\n---verify: " ++ verify).toList =
      line.toList ++ '\n' :: (body.toList ++ '\n' :: (directiveLine "rollback" rollback.toList ++
        '\n' :: directiveLine "verify" verify.toList)) := by
  have hrollback (t : List Char) : "\n---rollback: ".toList ++ (rollback.toList ++ t) =
      '\n' :: (directiveLine "rollback" rollback.toList ++ t) := rfl
  have hverify : "\n---verify: ".toList ++ verify.toList =
      '\n' :: directiveLine "verify" verify.toList := rfl
  simp only [String.toList_append, List.append_assoc]
  rw [hverify, hrollback]
  rfl

end MigrationFile

namespace Script

open MigrationFile

variable {database schema name : String}

theorem not_mem_fullName (hdatabase : '\n' ∉ database.toList) (hschema : '\n' ∉ schema.toList)
    (hname : '\n' ∉ name.toList) : '\n' ∉ (database ++ "." ++ schema ++ "." ++ name).toList := by
  simp [hdatabase, hschema, hname]

def initialUnit (objectType : ObjectType) (ddl : String) (hdatabase : '\n' ∉ database.toList)
    (hschema : '\n' ∉ schema.toList) (hname : '\n' ∉ name.toList) : WrittenUnit where
  header := ⟨0, some generatedAuthor⟩
  line := ("---version: 0, author: " ++ generatedAuthor).toList
  body := (trimText ddl).toList
  rollback := ("DROP " ++ objectType.singular ++ " IF EXISTS " ++
    upperText (database ++ "." ++ schema ++ "." ++ name) ++ ";").toList
  verify := ("SHOW " ++ objectType.plural ++ " LIKE '" ++
    upperText (database ++ "." ++ schema ++ "." ++ name) ++ "';").toList
  isLine := by decide
  isHeader := (isHeader_iff 0).2 ⟨_, _, rfl, rfl⟩
  starts := by decide
  isRollback := by
    have hfull := not_mem_upperText (not_mem_fullName hdatabase hschema hname)
    rw [String.toList_append, String.toList_append]
    refine isStatement_append ?_ ?_ hfull (by decide) (by decide) <;> cases objectType <;> decide
  isVerify := by
    have hfull := not_mem_upperText (not_mem_fullName hdatabase hschema hname)
    rw [String.toList_append, String.toList_append]
    refine isStatement_append ?_ ?_ hfull (by decide) (by decide) <;> cases objectType <;> decide

theorem toList_content_initial (objectType : ObjectType) (ddl : String)
    (hdatabase : '\n' ∉ database.toList) (hschema : '\n' ∉ schema.toList)
    (hname : '\n' ∉ name.toList) :
    (initial database schema objectType name ddl).content.toList =
      (initialUnit objectType ddl hdatabase hschema hname).text := by
  rw [← WrittenUnit.trim_text]
  simp only [initial, ofUnit, ofContent, trimText, String.toList_ofList]
  rw [toList_written]
  simp only [initialUnit, WrittenUnit.text, trimText]

theorem exists_written_initial (objectType : ObjectType) (ddl : String)
    (hdatabase : '\n' ∉ database.toList) (hschema : '\n' ∉ schema.toList)
    (hname : '\n' ∉ name.toList) : ∃ w : WrittenUnit,
      (initial database schema objectType name ddl).content.toList = w.text ∧
        w.header.version = 0 ∧ w.body = (trimText ddl).toList := by
  refine ⟨initialUnit objectType ddl hdatabase hschema hname, ?_, ?_, ?_⟩
  · exact toList_content_initial objectType ddl hdatabase hschema hname
  · rfl
  · rw [initialUnit]

end Script

end SchemaDeploy
