import SchemaDeploy.Change.Export
import SchemaDeploy.Proofs.DefinitionHeads

namespace SchemaDeploy

open Text Sql

section Heads

def ObjectType.keywords : ObjectType → List String
  | .fileFormat => ["FILE", "FORMAT"]
  | .dynamicTable => ["DYNAMIC", "TABLE"]
  | t => [t.singular]

def createWords (objectType : ObjectType) : List String :=
  ["CREATE", "OR", "REPLACE"] ++ objectType.keywords

def createHead (objectType : ObjectType) (database schema name : String) : String :=
  "CREATE OR REPLACE " ++ objectType.singular ++ " " ++ database ++ "." ++ schema ++ "." ++ name

def headWords (objectType : ObjectType) (database schema : String) : List (List Char × Char) :=
  (createWords objectType).map (fun w => (w.toList, ' ')) ++
    [(database.toList, '.'), (schema.toList, '.')]

theorem toList_createHead (objectType : ObjectType) (database schema name : String) :
    (createHead objectType database schema name).toList =
      joined (headWords objectType database schema) ++ name.toList := by
  have hfront : ("CREATE OR REPLACE " ++ objectType.singular ++ " ").toList =
      joined ((createWords objectType).map fun w => (w.toList, ' ')) := by
    cases objectType <;> decide +kernel
  have hdot : ".".toList = ['.'] := rfl
  unfold createHead headWords
  generalize "CREATE OR REPLACE " ++ objectType.singular ++ " " = front at hfront ⊢
  simp only [String.toList_append, hfront, hdot]
  simp [joined]

theorem isIdentifier_createWords {objectType : ObjectType} :
    ∀ w ∈ createWords objectType, IsIdentifier w.toList := by
  cases objectType <;> decide

theorem areWords_headWords (objectType : ObjectType) {database schema : String}
    (hd : IsIdentifier database.toList) (hs : IsIdentifier schema.toList) :
    AreWords (headWords objectType database schema) := by
  intro w hw
  rcases List.mem_append.1 hw with hw | hw
  · obtain ⟨v, hv, rfl⟩ := List.mem_map.1 hw
    exact ⟨(isIdentifier_createWords v hv).isQualifier, .inl rfl⟩
  · rcases List.mem_cons.1 hw with rfl | hw
    · exact ⟨hd.isQualifier, .inr rfl⟩
    · rw [List.mem_singleton.1 hw]
      exact ⟨hs.isQualifier, .inr rfl⟩

def OpensWith (head t : String) : Prop :=
  ∃ rest, dropSame? head.toList t.toList = some rest ∧ rest.head?.all endsName = true

/-- Whether a live object is defined under its own name, made of identifiers. -/
structure LiveObject.IsHeaded (o : LiveObject) (db : String) : Prop where
  database : IsIdentifier db.toList
  schema : IsIdentifier o.schema.toList
  name : IsIdentifier o.name.toList
  ddl : OpensWith (createHead o.objectType db o.schema o.name) o.ddl

/-- Whether the text of a script begins with the statement that makes its object. -/
structure Script.IsHeaded (s : Script) : Prop where
  isUpper : s.IsUpper
  database : IsIdentifier s.database.toList
  schema : IsIdentifier s.schema.toList
  name : IsIdentifier s.name.toList
  content : ∃ lead ws n, IsLead lead ∧
    SameWords ws (headWords s.objectType s.database s.schema) ∧ same n s.name.toList = true ∧
      Begins lead ws n s.content.toList

theorem same_upperText {s : String} (hs : IsQualifier s.toList) :
    same (upperText s).toList s.toList = true := by
  refine sameText_upperText fun c hc => ?_
  have hn := toNat_of_isSegmentChar (hs.2 c hc)
  omega

theorem Text.IsIdentifier.same_upper {s : String} (h : IsIdentifier s.toList) :
    same (upperText s).toList s.toList = true :=
  same_upperText h.isQualifier

theorem same_createHead (objectType : ObjectType) {database schema name : String}
    (hd : IsIdentifier database.toList) (hs : IsIdentifier schema.toList)
    (hn : IsIdentifier name.toList) :
    same (createHead objectType database schema name).toList
      (createHead objectType (upperText database) (upperText schema) (upperText name)).toList =
        true := by
  unfold createHead
  generalize "CREATE OR REPLACE " ++ objectType.singular ++ " " = front
  simp only [String.toList_append]
  refine same_append (same_append (same_append (same_append (same_append (same_refl _) ?_)
    (same_refl _)) ?_) (same_refl _)) ?_
  · exact same_symm hd.same_upper
  · exact same_symm hs.same_upper
  · exact same_symm hn.same_upper

theorem LiveObject.IsHeaded.begins {o : LiveObject} {database : String}
    (h : o.IsHeaded database) : ∃ ws n,
      SameWords ws (headWords o.objectType (upperText database) (upperText o.schema)) ∧
        same n (upperText o.name).toList = true ∧ Begins [] ws n o.ddl.toList := by
  obtain ⟨rest, hdrop, hend⟩ := h.ddl
  obtain ⟨m, hm, hms⟩ := exists_of_dropSame? hdrop
  have hupper := same_trans hms (same_createHead o.objectType h.database h.schema h.name)
  rw [toList_createHead] at hupper
  have hwords := areWords_headWords o.objectType (h.database.of_same h.database.same_upper)
    (h.schema.of_same h.schema.same_upper)
  obtain ⟨ws, n, rfl, hws, hn⟩ := exists_words_of_same hwords hupper
  exact ⟨ws, n, hws, hn, rest, by rw [hm]; simp, hend⟩

end Heads

section Contents

variable {lead n : List Char} {ws : List (List Char × Char)}

theorem begins_trimText {t : String} (hlead : IsLead lead) (hws : AreWords ws) (hn : IsQualifier n)
    (h : Begins lead ws n t.toList) : Begins lead ws n (trimText t).toList := by
  rw [trimText, String.toList_ofList]
  exact h.trim hlead hws hn

theorem begins_append {t : String} (h : Begins lead ws n t.toList) (u v : String)
    (hu : ∃ r, u.toList = '\n' :: r) : Begins lead ws n (t ++ (u ++ v)).toList := by
  obtain ⟨r, hr⟩ := hu
  have hend : endsName '\n' = true := by decide
  rw [String.toList_append, String.toList_append, hr]
  exact h.append hend

def generatedHeader : String :=
  "---version: 0, author: " ++ Script.generatedAuthor ++ "\n"

theorem exists_content_initial (database schema : String) (objectType : ObjectType)
    (name ddl : String) : ∃ u, (Script.initial database schema objectType name ddl).content =
      trimText (generatedHeader ++ trimText ddl ++ ("\n---rollback: " ++ u)) := by
  unfold Script.initial Script.ofUnit Script.ofContent generatedHeader
  simp only [String.append_assoc, -String.reduceAppend]
  exact ⟨_, rfl⟩

theorem begins_ofDefinition (database schema : String) (objectType : ObjectType) (name : String)
    {ddl : String} (hws : AreWords ws) (hn : IsQualifier n) (h : Begins [] ws n ddl.toList) :
    ∃ lead, IsLead lead ∧
      Begins lead ws n (Script.ofDefinition database schema objectType name ddl).content.toList := by
  have htrim := begins_trimText (.inl rfl) hws hn h
  rw [Script.ofDefinition]
  split
  · have hlead : IsLead generatedHeader.toList :=
      .inr ⟨"-version: 0, author: schemasync".toList, by decide, by decide⟩
    obtain ⟨rest, hrest, hend⟩ := htrim
    have hheader : Begins generatedHeader.toList ws n (generatedHeader ++ trimText ddl).toList := by
      refine ⟨rest, ?_, hend⟩
      rw [String.toList_append, hrest, List.nil_append]
    obtain ⟨u, hu⟩ := exists_content_initial database schema objectType name ddl
    rw [hu]
    exact ⟨_, hlead, begins_trimText hlead hws hn (begins_append hheader _ u ⟨_, rfl⟩)⟩
  · exact ⟨[], .inl rfl, htrim⟩

theorem begins_withRows {s : Script} (hlead : IsLead lead) (hws : AreWords ws)
    (hn : IsQualifier n) (h : Begins lead ws n s.content.toList) (rows : List Row) :
    Begins lead ws n (s.withRows rows).content.toList := by
  rw [Script.withRows]
  split
  · refine begins_trimText hlead hws hn ?_
    simp only [String.append_assoc]
    exact begins_append h _ _ ⟨_, rfl⟩
  · exact h

variable {l : Release} {r : Repository} {live : Script}

theorem Release.exportedScript_eq (l : Release) (r : Repository) (live : Script) :
    ∃ rows, l.exportedScript r live = l.parameters.parametrizeScript (live.withRows rows) := by
  rw [Release.exportedScript]
  split
  · exact ⟨_, rfl⟩
  · refine ⟨[], ?_⟩
    rw [Script.withRows, if_neg (fun h => h.2 rfl)]

theorem Script.withRows_eq (s : Script) (rows : List Row) :
    ∃ content, s.withRows rows = { s with content := content } := by
  rw [Script.withRows]
  split
  · exact ⟨_, rfl⟩
  · exact ⟨s.content, rfl⟩

theorem Release.exportedScript_fields (l : Release) (r : Repository) (live : Script) :
    (l.exportedScript r live).objectType = live.objectType ∧
    (l.exportedScript r live).database = upperText (l.parameters.parametrizePart live.database) ∧
    (l.exportedScript r live).schema = upperText (l.parameters.parametrizePart live.schema) ∧
    (l.exportedScript r live).name = live.name := by
  obtain ⟨rows, he⟩ := l.exportedScript_eq r live
  obtain ⟨content, hc⟩ := live.withRows_eq rows
  rw [he, hc]
  simp only [Parameters.parametrizeScript, Parameters.parametrizeIdentity,
    Parameters.parametrizeContent, Script.setContent, Script.setDatabase, Script.setSchema,
    and_self]

theorem begins_exportedScript (hps : l.parameters.IsPlain) (hlead : IsLead lead)
    (hws : AreWords ws) (hn : IsQualifier n) (h : Begins lead ws n live.content.toList) :
    ∃ lead', IsLead lead' ∧ Begins lead' (templates l.parameters ws) (l.parameters.wordTemplate n)
      (l.exportedScript r live).content.toList := by
  obtain ⟨rows, he⟩ := l.exportedScript_eq r live
  obtain ⟨lead', hlead', ht⟩ := (begins_withRows hlead hws hn h rows).template hps hlead hws hn
  have hcontent : (l.exportedScript r live).content =
      trimText (l.parameters.parametrize (live.withRows rows).content) := by
    rw [he]
    rfl
  refine ⟨lead', hlead', ?_⟩
  rw [hcontent]
  refine begins_trimText hlead' (hws.templates hps) (Parameters.isQualifier_wordTemplate hps hn) ?_
  rw [Parameters.parametrize, String.toList_ofList]
  exact ht

end Contents

namespace MigrationFile

theorem ne_nil_of_readUnits {number : Nat} {found us : List RawUnit} {ls : List (List Char)}
    (hfound : found ≠ []) (h : readUnits number found ls = .ok us) : us ≠ [] := by
  induction ls generalizing number found with
  | nil =>
      cases h
      simpa using hfound
  | cons raw rest ih =>
      simp only [readUnits] at h
      split at h
      · split at h
        · cases h
        · split at h
          · cases h
          · exact ih (List.cons_ne_nil _ _) h
      · split at h
        · exact absurd rfl hfound
        · exact ih (List.cons_ne_nil _ _) h

theorem isPreamble_of_readUnits {number : Nat} {ls : List (List Char)}
    (h : readUnits number [] ls = .ok []) : ∀ line ∈ ls, isPreamble (withoutLineEnd line) = true := by
  induction ls generalizing number with
  | nil => simp
  | cons raw rest ih =>
      simp only [readUnits] at h
      split at h
      · split at h
        · cases h
        · split at h
          · cases h
          · exact absurd rfl (ne_nil_of_readUnits (List.cons_ne_nil _ _) h)
      · split at h
        · next hline => exact List.forall_mem_cons.2 ⟨hline, ih h⟩
        · cases h

theorem isPreamble_eq_false {c : Char} (hc : isSegmentChar c = true) (t : List Char) :
    isPreamble (withoutLineEnd (c :: t)) = false := by
  have hblank := not_isBlank_of_isSegmentChar hc
  have hkeep : (c == '\n' || c == '\r') = false := by
    rw [Bool.eq_false_iff]
    intro h
    rcases Bool.or_eq_true_iff.1 h with h | h <;> rw [eq_of_beq h] at hc <;> exact absurd hc (by decide)
  have hdash : c ≠ '-' := by
    rintro rfl
    exact absurd hc (by decide)
  have hline : withoutLineEnd (c :: t) =
      c :: dropEndWhile (fun c => c == '\n' || c == '\r') t :=
    dropEndWhile_append hkeep [] t
  have htrim (u : List Char) : trim (c :: u) = c :: trimEnd u := by
    rw [trim, trimStart_cons hblank]
    exact dropEndWhile_append hblank [] u
  rw [isPreamble, hline, htrim]
  split
  · next h => cases h
  · next h => exact absurd (List.cons.inj h).1 hdash
  · rfl

theorem ne_nil_of_units {lead n : List Char} {ws : List (List Char × Char)} {content : String}
    {us : List MigrationUnit} (hlead : IsLead lead) (hws : AreWords ws) (hn : IsQualifier n)
    (h : Begins lead ws n content.toList) (hu : units content = .ok us) : us ≠ [] := by
  obtain ⟨rest, hcontent, -⟩ := h
  obtain ⟨c, u, hhead, hc⟩ := exists_head hws hn rest
  have hnewline : c ≠ '\n' := by
    rintro rfl
    exact absurd hc (by decide)
  obtain ⟨l, ls, hl⟩ := exists_rawLines_cons hnewline u
  have hline : c :: l ∈ rawLines content.toList := by
    rw [hcontent, hhead]
    rcases hlead with rfl | ⟨x, hx, rfl⟩
    · rw [List.nil_append, hl]
      exact List.mem_cons_self
    · have hx' : '\n' ∉ '-' :: '-' :: x := by simpa using hx
      have hsplit : '-' :: '-' :: (x ++ ['\n']) ++ c :: u = ('-' :: '-' :: x) ++ '\n' :: c :: u := by
        simp
      rw [hsplit, rawLines_append hx', hl]
      simp
  rintro rfl
  rw [units] at hu
  split at hu
  · next raws hraws =>
    obtain rfl : raws = [] := List.map_eq_nil_iff.1 (Except.ok.inj hu)
    have hpreamble := isPreamble_of_readUnits hraws _ hline
    rw [isPreamble_eq_false hc] at hpreamble
    cases hpreamble
  · cases hu

end MigrationFile

section Names

theorem Script.isHeaded_ofDefinition {o : LiveObject} {database : String}
    (h : o.IsHeaded database) :
    (Script.ofDefinition database o.schema o.objectType o.name o.ddl).IsHeaded := by
  obtain ⟨ws, n, hws, hn, hbegins⟩ := h.begins
  have hd := h.database.of_same h.database.same_upper
  have hs := h.schema.of_same h.schema.same_upper
  have hname := h.name.of_same h.name.same_upper
  have hwords := hws.areWords (areWords_headWords o.objectType hd hs)
  obtain ⟨lead, hlead, hcontent⟩ := begins_ofDefinition database o.schema o.objectType o.name hwords
    (hname.of_same hn).isQualifier hbegins
  have hfields : ∃ content hash migration,
      Script.ofDefinition database o.schema o.objectType o.name o.ddl =
        ⟨upperText database, upperText o.schema, upperText o.name, o.objectType, content, hash, none,
          migration⟩ := by
    rw [Script.ofDefinition]
    split
    · exact ⟨_, _, _, rfl⟩
    · exact ⟨_, _, _, rfl⟩
  obtain ⟨content, hash, migration, hfields⟩ := hfields
  rw [hfields] at hcontent ⊢
  exact ⟨⟨upperText_upperText _, upperText_upperText _, upperText_upperText _⟩, hd, hs, hname,
    lead, ws, n, hlead, hws, hn, hcontent⟩

end Names

end SchemaDeploy
