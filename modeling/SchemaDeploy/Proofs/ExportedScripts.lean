import SchemaDeploy.Proofs.ExportedHeads
import SchemaDeploy.Proofs.RepeatedDeploy
import SchemaDeploy.Proofs.SharedKeys
import SchemaDeploy.Proofs.WrittenScripts

namespace SchemaDeploy

open Text Sql

section Reading

variable {l : Release} {r : Repository} {live : Script}

theorem toList_parametrize {ps : Parameters} (hps : ps.IsPlain) {s : String}
    (hs : IsIdentifier s.toList) : (ps.parametrize s).toList = ps.wordTemplate s.toList := by
  rw [Parameters.parametrize, String.toList_ofList]
  exact Parameters.parametrizeWith_word hps hs.isQualifier.2

theorem isIdentifier_headWord {w : String} (hlive : live.IsHeaded)
    (hw : w ∈ createWords live.objectType ++ [live.database, live.schema]) :
    IsIdentifier w.toList := by
  rcases List.mem_append.1 hw with hw | hw
  · exact isIdentifier_createWords w hw
  · rcases List.mem_cons.1 hw with rfl | hw
    · exact hlive.database
    · rw [List.mem_singleton.1 hw]
      exact hlive.schema

def Release.IsFresh (l : Release) (live : Script) : Prop :=
  ∀ w ∈ createWords live.objectType ++ [live.database, live.schema],
    sameText (l.parameters.parametrize w) live.name = false

/-- What an exported text begins with, once comments and literals are removed. -/
structure Release.Heads (l : Release) (live : Script) (ws : List (List Char × Char))
    (d s n t : List Char) : Prop where
  words : SameWords (ws ++ [(d, '.'), (s, '.')])
    (templates l.parameters (headWords live.objectType live.database live.schema))
  areWords : AreWords (ws ++ [(d, '.'), (s, '.')])
  spaces : ∀ w ∈ ws, w.2 = ' '
  database : same d (l.parameters.wordTemplate live.database.toList) = true
  schema : same s (l.parameters.wordTemplate live.schema.toList) = true
  name : same n live.name.toList = true
  begins : ∃ lead, (lead = [] ∨ lead = ['\n']) ∧ Begins lead (ws ++ [(d, '.'), (s, '.')]) n t

theorem begins_exported (hps : l.parameters.IsPlain) (hlive : live.IsHeaded)
    (hvalue : ∀ p ∈ l.parameters.entries, sameText p.2 live.name = false) :
    ∃ lead ws n, IsLead lead ∧ SameWords ws (templates l.parameters
      (headWords live.objectType live.database live.schema)) ∧ same n live.name.toList = true ∧
        Begins lead ws n (l.exportedScript r live).content.toList := by
  obtain ⟨lead, ws, n, hlead, hws, hn, hbegins⟩ := hlive.content
  have hwords := hws.areWords (areWords_headWords live.objectType hlive.database hlive.schema)
  obtain ⟨lead', hlead', hexported⟩ := begins_exportedScript (r := r) hps hlead hwords
    (hlive.name.of_same hn).isQualifier hbegins
  have hstay : l.parameters.wordTemplate n = n := by
    refine Parameters.wordTemplate_of_ne fun p hp => ?_
    rw [same_congr hn]
    exact hvalue p hp
  rw [hstay] at hexported
  exact ⟨lead', _, n, hlead', hws.templates l.parameters, hn, hexported⟩

theorem areWords_templates (hps : l.parameters.IsPlain) (hlive : live.IsHeaded) :
    AreWords (templates l.parameters (headWords live.objectType live.database live.schema)) :=
  (areWords_headWords live.objectType hlive.database hlive.schema).templates hps

theorem exists_heads (hps : l.parameters.IsPlain) (hlive : live.IsHeaded)
    (hvalue : ∀ p ∈ l.parameters.entries, sameText p.2 live.name = false) :
    ∃ ws d s n, l.Heads live ws d s n (clean (l.exportedScript r live).content.toList) := by
  obtain ⟨lead, ws, n, hlead, hws, hn, hbegins⟩ := begins_exported (r := r) hps hlive hvalue
  have hwords := hws.areWords (areWords_templates hps hlive)
  obtain ⟨lead', hlead', hclean⟩ := hbegins.clean hlead hwords (hlive.name.of_same hn).isQualifier
  have hsplit : templates l.parameters (headWords live.objectType live.database live.schema) =
      templates l.parameters ((createWords live.objectType).map fun w => (w.toList, ' ')) ++
        [(l.parameters.wordTemplate live.database.toList, '.'),
          (l.parameters.wordTemplate live.schema.toList, '.')] := by
    simp [templates, headWords]
  obtain ⟨us, d, s, rfl, hfront, hd, hs⟩ := SameWords.exists_qualifiers (hsplit ▸ hws)
  refine ⟨us, d, s, n, hws, hwords, fun w hw => ?_, hd, hs, hn, lead', hlead', hclean⟩
  obtain ⟨v, hv, -, hsep⟩ := hfront.exists_mem hw
  simp only [templates, List.map_map, List.mem_map, Function.comp_apply] at hv
  obtain ⟨x, -, rfl⟩ := hv
  exact hsep

theorem mem_templates_headWords {ps : Parameters} {objectType : ObjectType}
    {database schema : String} (w : List Char) :
    (∃ v ∈ templates ps (headWords objectType database schema), v.1 = w) ↔
      ∃ x ∈ createWords objectType ++ [database, schema], ps.wordTemplate x.toList = w := by
  simp [templates, headWords, or_and_right, exists_or]

theorem Release.Heads.isFresh_iff {ws : List (List Char × Char)} {d s n t : List Char}
    (h : l.Heads live ws d s n t) (hps : l.parameters.IsPlain) (hlive : live.IsHeaded) :
    l.IsFresh live ↔ ∀ w ∈ ws ++ [(d, '.'), (s, '.')], same live.name.toList w.1 = false := by
  have htemplate {x : String}
      (hx : x ∈ createWords live.objectType ++ [live.database, live.schema]) :
      sameText (l.parameters.parametrize x) live.name =
        same (l.parameters.wordTemplate x.toList) live.name.toList := by
    rw [sameText, toList_parametrize hps (isIdentifier_headWord hlive hx)]
  simp only [Release.IsFresh, Bool.eq_false_iff]
  constructor
  · intro hfresh w hw hname
    obtain ⟨v, hv, hwv, -⟩ := h.words.exists_mem hw
    obtain ⟨x, hx, hxv⟩ := (mem_templates_headWords v.1).1 ⟨v, hv, rfl⟩
    refine hfresh x hx ?_
    rw [htemplate hx, hxv]
    exact same_symm (same_trans hname hwv)
  · intro hne x hx hname
    obtain ⟨v, hv, hvx⟩ := (mem_templates_headWords (l.parameters.wordTemplate x.toList)).2
      ⟨x, hx, rfl⟩
    obtain ⟨w, hw, hwv, -⟩ := h.words.symm.exists_mem hv
    refine hne w hw ?_
    rw [htemplate hx, ← hvx] at hname
    exact same_trans (same_symm hname) hwv

theorem upperText_parametrize {ps : Parameters} (hps : ps.IsPlain) {s : String}
    (hs : IsIdentifier s.toList) {q : List Char} (hq : same q (ps.wordTemplate s.toList) = true) :
    String.ofList (upper q) = upperText (ps.parametrize s) := by
  rw [upperText, toList_parametrize hps hs, upper_eq_of_same hq]

theorem firstReference?_of_isFresh (hps : l.parameters.IsPlain) (hlive : live.IsHeaded)
    (hvalue : ∀ p ∈ l.parameters.entries, sameText p.2 live.name = false)
    (hfresh : l.IsFresh live) : ∃ q,
      firstReference? live.name.toList (clean (l.exportedScript r live).content.toList) = some q ∧
        q.database = some (upperText (l.parameters.parametrize live.database)) ∧
        q.schema = some (upperText (l.parameters.parametrize live.schema)) := by
  obtain ⟨ws, d, s, n, h⟩ := exists_heads (r := r) hps hlive hvalue
  obtain ⟨lead, hlead, hbegins⟩ := h.begins
  refine ⟨_, firstReference?_of_begins hlive.name hlead h.areWords h.spaces
    ((h.isFresh_iff hps hlive).1 hfresh) (same_symm h.name) hbegins, ?_, ?_⟩
  · exact congrArg some (upperText_parametrize hps hlive.database h.database)
  · exact congrArg some (upperText_parametrize hps hlive.schema h.schema)

theorem firstReference?_of_not_isFresh (hps : l.parameters.IsPlain) (hlive : live.IsHeaded)
    (hvalue : ∀ p ∈ l.parameters.entries, sameText p.2 live.name = false)
    (hfresh : ¬ l.IsFresh live) : ∃ q,
      firstReference? live.name.toList (clean (l.exportedScript r live).content.toList) = some q ∧
        q.database = none := by
  obtain ⟨ws, d, s, n, h⟩ := exists_heads (r := r) hps hlive hvalue
  obtain ⟨lead, hlead, hbegins⟩ := h.begins
  refine firstReference?_of_word hlive.name hlead h.areWords h.spaces ?_ hbegins
  by_contra hnone
  refine hfresh ((h.isFresh_iff hps hlive).2 fun w hw => ?_)
  rw [Bool.eq_false_iff]
  exact fun hname => hnone ⟨w, hw, hname⟩

variable {source : ScriptSource}

/-- What the file of an exported script reads back as: nothing is read unless its head is fresh and
its migrations are well formed. -/
theorem readBack_exported_iff (hps : l.parameters.IsPlain) (hlive : live.IsHeaded)
    (hvalue : ∀ p ∈ l.parameters.entries, sameText p.2 live.name = false) :
    (∃ ss, source.readBack (l.exportedScript r live) = .ok ss) ↔
      l.IsFresh live ∧ (live.objectType.isVersioned = true →
        ∃ us, MigrationFile.units (l.exportedScript r live).content = .ok us) := by
  obtain ⟨htype, -, -, hname⟩ := l.exportedScript_fields r live
  rw [ScriptSource.readBack, htype, hname, ScriptSource.scriptsOfText]
  by_cases hfresh : l.IsFresh live
  · obtain ⟨q, hq, hd, hs⟩ := firstReference?_of_isFresh (r := r) hps hlive hvalue hfresh
    simp only [hq, hd, hs, hfresh, true_and]
    cases live.objectType.isVersioned with
    | false => simp
    | true =>
        rw [if_pos rfl]
        cases MigrationFile.units (l.exportedScript r live).content with
        | error x => simp
        | ok us => simp
  · obtain ⟨q, hq, hd⟩ := firstReference?_of_not_isFresh (r := r) hps hlive hvalue hfresh
    simp [hq, hd, hfresh]

theorem fields_of_scriptsOfText {path name d s content : String} {objectType : ObjectType}
    {ss : List Script} {q : QualifiedName}
    (hq : firstReference? name.toList (clean content.toList) = some q)
    (hd : q.database = some d) (hs : q.schema = some s)
    (h : ScriptSource.scriptsOfText path name objectType content = .ok ss) :
    (ss = [] → MigrationFile.units content = .ok []) ∧
      ∀ x ∈ ss, x.objectType = objectType ∧ x.name = upperText name ∧ x.database = upperText d ∧
        x.schema = upperText s := by
  simp only [ScriptSource.scriptsOfText, hq, hd, hs] at h
  split at h
  · split at h
    · cases h
    · next us hus =>
      cases h
      refine ⟨fun hnil => ?_, fun x hx => ?_⟩
      · rw [hus, List.map_eq_nil_iff.1 hnil]
      · obtain ⟨u, -, rfl⟩ := List.mem_map.1 hx
        exact ⟨rfl, rfl, rfl, rfl⟩
  · cases h
    refine ⟨fun hnil => absurd hnil (List.cons_ne_nil _ _), fun x hx => ?_⟩
    rw [List.mem_singleton.1 hx]
    exact ⟨rfl, rfl, rfl, rfl⟩

theorem of_readBack_exported {ss : List Script} (hps : l.parameters.IsPlain)
    (hlive : live.IsHeaded)
    (hvalue : ∀ p ∈ l.parameters.entries, sameText p.2 live.name = false)
    (h : source.readBack (l.exportedScript r live) = .ok ss) :
    ss ≠ [] ∧ ∀ x ∈ ss, x.objectType = live.objectType ∧ x.name = live.name ∧
      x.database = upperText (l.parameters.parametrize live.database) ∧
      x.schema = upperText (l.parameters.parametrize live.schema) := by
  have hfresh := ((readBack_exported_iff hps hlive hvalue).1 ⟨ss, h⟩).1
  obtain ⟨htype, -, -, hname⟩ := l.exportedScript_fields r live
  obtain ⟨q, hq, hd, hs⟩ := firstReference?_of_isFresh (r := r) hps hlive hvalue hfresh
  rw [ScriptSource.readBack, htype, hname] at h
  obtain ⟨hnil, hfields⟩ := fields_of_scriptsOfText hq hd hs h
  rw [hlive.isUpper.name, upperText_upperText, upperText_upperText] at hfields
  refine ⟨fun hss => ?_, hfields⟩
  obtain ⟨lead, ws, n, hlead, hws, hn, hbegins⟩ := begins_exported (r := r) hps hlive hvalue
  exact MigrationFile.ne_nil_of_units hlead (hws.areWords (areWords_templates hps hlive))
    (hlive.name.of_same hn).isQualifier hbegins (hnil hss) rfl

end Reading

section Listing

open ScriptSource

variable {l : Release} {r : Repository} {source : ScriptSource} {live : Script}

theorem isFileName_of_isQualifier {p : String} (h : IsQualifier p.toList) : IsFileName p := by
  refine ⟨?_, fun hc => ?_, fun hc => ?_⟩
  · rintro rfl
    exact h.1 rfl
  · exact absurd (h.2 _ hc) (by decide)
  · exact absurd (h.2 _ hc) (by decide)

theorem isQualifier_parametrizePart {ps : Parameters} (hps : ps.IsPlain) {s : String}
    (hs : IsIdentifier s.toList) : IsQualifier (ps.parametrizePart s).toList := by
  rw [Parameters.parametrizePart, String.toList_ofList]
  exact Parameters.isQualifier_parametrizeWith_anywhere hps hs.isQualifier

theorem isFiled_exportedScript (hps : l.parameters.IsPlain) (hlive : live.IsHeaded) :
    (l.exportedScript r live).IsFiled := by
  obtain ⟨-, hd, hs, hn⟩ := l.exportedScript_fields r live
  have hpart {s : String} (h : IsIdentifier s.toList) :
      IsFileName (upperText (l.parameters.parametrizePart s)) := by
    have hq := isQualifier_parametrizePart hps h
    exact isFileName_of_isQualifier (hq.of_same (same_upperText hq))
  refine ⟨hd ▸ hpart hlive.database, hs ▸ hpart hlive.schema, ?_, ?_, ?_, ?_⟩
  · rw [hn]
    exact isFileName_of_isQualifier hlive.name.isQualifier
  · rw [hd, upperText_upperText]
  · rw [hs, upperText_upperText]
  · rw [hn, hlive.isUpper.name]

/-- Placeholders anywhere in a part and placeholders for whole words can only give the same name if
they do so for one part. -/
theorem upperText_parametrizePart {ps : Parameters} (hps : ps.IsPlain) {x y : String}
    (hx : IsIdentifier x.toList) (hy : IsIdentifier y.toList)
    (h : upperText (ps.parametrizePart x) = upperText (ps.parametrize y)) :
    upperText (ps.parametrizePart x) = upperText (ps.parametrize x) := by
  have hqx := isQualifier_parametrizePart hps hx
  have hqy : IsQualifier (ps.parametrize y).toList := by
    rw [toList_parametrize hps hy]
    exact Parameters.isQualifier_wordTemplate hps hy.isQualifier
  have hsame : same (ps.parametrizePart x).toList (ps.parametrize y).toList = true :=
    same_trans (same_symm (same_upperText hqx)) (h ▸ same_upperText hqy)
  rw [Parameters.parametrizePart, String.toList_ofList, toList_parametrize hps hy] at hsame
  rw [Parameters.parametrizePart, Parameters.parametrizeWith_anywhere_of_same hps hx hy hsame,
    ← toList_parametrize hps hx, String.ofList_toList]

/-- Whether the names of a live script get the placeholders that its text gets, and the text can be
read. -/
structure Release.ReadsBack (l : Release) (r : Repository) (live : Script) : Prop where
  database : upperText (l.parameters.parametrizePart live.database) =
    upperText (l.parameters.parametrize live.database)
  schema : upperText (l.parameters.parametrizePart live.schema) =
    upperText (l.parameters.parametrize live.schema)
  fresh : l.IsFresh live
  units : live.objectType.isVersioned = true →
    ∃ us, MigrationFile.units (l.exportedScript r live).content = .ok us

theorem Release.write_of_createScripts {targets : Option (List String)} {tree : FileTree} {n : Nat}
    (h : (l.createScripts source targets tree r).2.2 = .ok n) :
    source.write tree (l.exported targets r) =
      ((l.createScripts source targets tree r).1, .ok ()) := by
  rw [createScripts] at h ⊢
  generalize l.exported targets r = es at h ⊢
  generalize source.write tree es = written at h ⊢
  rcases written with ⟨tree', x | u⟩
  · have hk : KeepsLog fun r => (r, (Except.error x).map fun () => es.length) := fun r => ⟨rfl, rfl⟩
    obtain ⟨syncs, hb⟩ := bracketed_eq hk .createScript id r
    dsimp only at h hb
    rw [hb] at h
    cases h
  · rfl

theorem isHeaded_of_mem_lives (hlive : ∀ o ∈ r.state.objects.values, o.IsHeaded r.database)
    (h : live ∈ r.userSchemas.flatMap r.liveScripts) : live.IsHeaded := by
  obtain ⟨schema, -, hmem⟩ := List.mem_flatMap.1 h
  obtain ⟨key, o, hget, -, rfl⟩ := Repository.mem_liveScripts.1 hmem
  exact Script.isHeaded_ofDefinition (hlive o ((Keyed.mem_values_iff _).2 ⟨key, hget⟩))

theorem sameText_value_eq_false (hlive : ∀ o ∈ r.state.objects.values, o.IsHeaded r.database)
    {value : String} (hvalue : ∀ o ∈ r.state.objects.values, sameText value o.name = false)
    (h : live ∈ r.userSchemas.flatMap r.liveScripts) : sameText value live.name = false := by
  obtain ⟨schema, -, hmem⟩ := List.mem_flatMap.1 h
  obtain ⟨key, o, hget, -, rfl⟩ := Repository.mem_liveScripts.1 hmem
  have ho := (Keyed.mem_values_iff _).2 ⟨key, hget⟩
  rw [Script.ofDefinition_name, sameText, same_congr (hlive o ho).name.same_upper]
  exact hvalue o ho

/-- Exporting into an empty directory and listing again gives every exported script back exactly if
the file that is left at each place reads back. -/
theorem Release.listed_createScripts_iff {root : String} {opened tree : FileTree} {n : Nat}
    (hsource : source = .ofRoot root opened) (hempty : source.IsEmpty tree)
    (hmain : tree.isDirectory source.mainDir = true) (hps : l.parameters.IsPlain)
    (hlive : ∀ o ∈ r.state.objects.values, o.IsHeaded r.database)
    (hvalue : ∀ p ∈ l.parameters.entries, ∀ o ∈ r.state.objects.values,
      sameText p.2 o.name = false)
    (hcreate : (l.createScripts source none tree r).2.2 = .ok n) :
    (∃ ss, source.scripts (l.createScripts source none tree r).1 = .ok ss ∧
      ∀ e ∈ l.exported none r, ∃ s ∈ ss, s.objectType = e.objectType ∧ s.database = e.database ∧
        s.schema = e.schema ∧ s.name = e.name) ↔
    ∀ live ∈ r.userSchemas.flatMap r.liveScripts,
      lastAt (l.exported none r) (l.exportedScript r live).place = some (l.exportedScript r live) →
        l.ReadsBack r live := by
  have hheaded {live : Script} (h : live ∈ r.userSchemas.flatMap r.liveScripts) : live.IsHeaded :=
    isHeaded_of_mem_lives hlive h
  have hvalues {live : Script} (h : live ∈ r.userSchemas.flatMap r.liveScripts) :
      ∀ p ∈ l.parameters.entries, sameText p.2 live.name = false :=
    fun p hp => sameText_value_eq_false hlive (hvalue p hp) h
  have hmem {e : Script} (he : e ∈ l.exported none r) :
      ∃ live ∈ r.userSchemas.flatMap r.liveScripts, l.exportedScript r live = e :=
    List.mem_map.1 he
  have hfiled : ∀ e ∈ l.exported none r, e.IsFiled := by
    intro e he
    obtain ⟨live, h, rfl⟩ := hmem he
    exact isFiled_exportedScript hps (hheaded h)
  have hreads : Reads _ _ _ := (holds_write hfiled hempty hmain
    (write_of_createScripts hcreate)).reads_scripts (hsource ▸ avoidsTests_ofRoot hfiled)
  constructor
  · rintro ⟨ss, hss, hall⟩ live hl hlast
    obtain ⟨read, hread⟩ := hreads.ok_iff.1 ⟨ss, hss⟩ _ hlast List.nil_prefix
    obtain ⟨hfresh, hunits⟩ := (readBack_exported_iff hps (hheaded hl) (hvalues hl)).1 ⟨read, hread⟩
    obtain ⟨s, hs, -, hd, hschema, -⟩ := hall _ (mem_of_lastAt hlast).1
    obtain ⟨e, he, -, read', hread', hs'⟩ := (hreads.mem_iff ss hss s).1 hs
    obtain ⟨live', hl', rfl⟩ := hmem (mem_of_lastAt he).1
    obtain ⟨-, -, hd', hschema'⟩ :=
      (of_readBack_exported hps (hheaded hl') (hvalues hl') hread').2 s hs'
    obtain ⟨-, hd'', hschema'', -⟩ := l.exportedScript_fields r live
    rw [hd', hd''] at hd
    rw [hschema', hschema''] at hschema
    exact ⟨upperText_parametrizePart hps (hheaded hl).database (hheaded hl').database hd.symm,
      upperText_parametrizePart hps (hheaded hl).schema (hheaded hl').schema hschema.symm, hfresh,
      hunits⟩
  · intro hreadsBack
    have hlast {e : Script} (he : lastAt (l.exported none r) e.place = some e) :
        ∃ live ∈ r.userSchemas.flatMap r.liveScripts, l.exportedScript r live = e ∧
          l.ReadsBack r live := by
      obtain ⟨live, hl, rfl⟩ := hmem (mem_of_lastAt he).1
      exact ⟨live, hl, rfl, hreadsBack live hl he⟩
    have hok {live : Script} (hl : live ∈ r.userSchemas.flatMap r.liveScripts)
        (h : l.ReadsBack r live) : ∃ ss, source.readBack (l.exportedScript r live) = .ok ss :=
      (readBack_exported_iff hps (hheaded hl) (hvalues hl)).2 ⟨h.fresh, h.units⟩
    obtain ⟨ss, hss⟩ := hreads.ok_iff.2 fun e he _ => by
      obtain ⟨live, hl, rfl, h⟩ := hlast he
      exact hok hl h
    refine ⟨ss, hss, fun e he => ?_⟩
    obtain ⟨e', he'⟩ := exists_lastAt he
    obtain ⟨he'mem, hplace⟩ := mem_of_lastAt he'
    rw [← hplace] at he'
    obtain ⟨live, hl, rfl, h⟩ := hlast he'
    obtain ⟨read, hread⟩ := hok hl h
    obtain ⟨hne, hfields⟩ := of_readBack_exported hps (hheaded hl) (hvalues hl) hread
    obtain ⟨s, hs⟩ := List.exists_mem_of_ne_nil _ hne
    obtain ⟨htype, hname, hd, hschema⟩ := hfields s hs
    obtain ⟨htype', hd', hschema', hname'⟩ := l.exportedScript_fields r live
    obtain ⟨htype'', hd'', hschema'', hname''⟩ := Script.place_inj hplace
    refine ⟨s, (hreads.mem_iff ss hss s).2 ⟨_, he', List.nil_prefix, read, hread, hs⟩, ?_, ?_, ?_,
      ?_⟩
    · rw [htype, ← htype'', htype']
    · rw [hd, ← hd'', hd', h.database]
    · rw [hschema, ← hschema'', hschema', h.schema]
    · rw [hname, ← hname'', hname']

theorem listed_createScripts_view :
    let opened : FileTree := ⟨[(["main"], .directory)]⟩
    let source := ScriptSource.ofRoot "" opened
    let l : Release := ⟨.default, .ofList [("db", "DB")], .ok []⟩
    let r := (Repository.new "" "DB").withSchemaDump "S" "create or replace view DB.S.V as select 1;"
    ∃ ss, source.scripts (l.createScripts source none opened r).1 = .ok ss ∧
      ∀ e ∈ l.exported none r, ∃ s ∈ ss, s.objectType = e.objectType ∧ s.database = e.database ∧
        s.schema = e.schema ∧ s.name = e.name := by
  intro opened source l r
  have hmain : source.mainDir = "main" := by decide +kernel
  have hempty : source.IsEmpty opened := by
    intro e he _
    rw [List.mem_singleton.1 he, hmain, pathParts_self isPlainPart_main]
  have hps : l.parameters.IsPlain := by
    have hentries : l.parameters.entries = [("db", "DB")] := by decide +kernel
    rw [Parameters.IsPlain, hentries]
    decide
  have hobjects : r.state.objects.values =
      [⟨"S", "V", .view, "create or replace view DB.S.V as select 1;"⟩] := by
    decide +kernel
  have hlive : ∀ o ∈ r.state.objects.values, o.IsHeaded r.database := by
    have hddl : dropSame? (createHead .view "DB" "S" "V").toList
        "create or replace view DB.S.V as select 1;".toList = some " as select 1;".toList := by
      decide +kernel
    have hdatabase : r.database = "DB" := by decide +kernel
    rw [hobjects, hdatabase, List.forall_mem_singleton]
    exact ⟨by decide, by decide, by decide, _, hddl, by decide⟩
  have hvalue : ∀ p ∈ l.parameters.entries, ∀ o ∈ r.state.objects.values,
      sameText p.2 o.name = false := by
    rw [hobjects]
    decide +kernel
  have hcreate : (l.createScripts source none opened r).2.2 = .ok 1 := by
    have hok : (l.createScripts source none opened r).2.2.toOption = some 1 := by decide +kernel
    exact eq_ok_of_toOption hok
  refine (Release.listed_createScripts_iff rfl hempty (by decide +kernel) hps hlive hvalue
    hcreate).2 ?_
  intro live hl _
  have hreads : ∀ live ∈ r.userSchemas.flatMap r.liveScripts,
      upperText (l.parameters.parametrizePart live.database) =
          upperText (l.parameters.parametrize live.database) ∧
        upperText (l.parameters.parametrizePart live.schema) =
          upperText (l.parameters.parametrize live.schema) ∧
        (∀ w ∈ createWords live.objectType ++ [live.database, live.schema],
          sameText (l.parameters.parametrize w) live.name = false) ∧
        live.objectType.isVersioned = false := by
    decide +kernel
  obtain ⟨hdatabase, hschema, hfresh, htype⟩ := hreads live hl
  refine ⟨hdatabase, hschema, hfresh, fun hversioned => ?_⟩
  rw [htype] at hversioned
  cases hversioned

/-- A value that is only a part of a database gets a placeholder in the directory and none in the
file, so the script that is listed is another one. -/
theorem not_listed_createScripts : ¬ ∀ (l : Release) (r : Repository) (root : String)
    (opened tree : FileTree) (n : Nat), l.parameters.IsPlain →
    (∀ o ∈ r.state.objects.values, o.IsHeaded r.database) →
    (ScriptSource.ofRoot root opened).IsEmpty tree →
    tree.isDirectory (ScriptSource.ofRoot root opened).mainDir = true →
    (l.createScripts (.ofRoot root opened) none tree r).2.2 = .ok n →
    ∃ ss, (ScriptSource.ofRoot root opened).scripts
        (l.createScripts (.ofRoot root opened) none tree r).1 = .ok ss ∧
      ∀ e ∈ l.exported none r, ∃ s ∈ ss, s.objectType = e.objectType ∧ s.database = e.database ∧
        s.schema = e.schema ∧ s.name = e.name := by
  intro h
  let opened : FileTree := ⟨[(["main"], .directory)]⟩
  let source := ScriptSource.ofRoot "" opened
  let l : Release := ⟨.default, .ofList [("env", "dev")], .ok []⟩
  let r := (Repository.new "" "DEV_DB").withSchemaDump "S"
    "create or replace view DEV_DB.S.V as select 1;"
  have hmain : source.mainDir = "main" := by decide +kernel
  have hempty : source.IsEmpty opened := by
    intro e he _
    rw [List.mem_singleton.1 he, hmain, pathParts_self isPlainPart_main]
  have hps : l.parameters.IsPlain := by
    have hentries : l.parameters.entries = [("env", "dev")] := by decide +kernel
    rw [Parameters.IsPlain, hentries]
    decide
  have hobjects : r.state.objects.values =
      [⟨"S", "V", .view, "create or replace view DEV_DB.S.V as select 1;"⟩] := by
    decide +kernel
  have hlive : ∀ o ∈ r.state.objects.values, o.IsHeaded r.database := by
    have hddl : dropSame? (createHead .view "DEV_DB" "S" "V").toList
        "create or replace view DEV_DB.S.V as select 1;".toList = some " as select 1;".toList := by
      decide +kernel
    have hdatabase : r.database = "DEV_DB" := by decide +kernel
    rw [hobjects, hdatabase, List.forall_mem_singleton]
    exact ⟨by decide, by decide, by decide, _, hddl, by decide⟩
  obtain ⟨hcreate, hlisted, hexported⟩ :
      (l.createScripts source none opened r).2.2.toOption = some 1 ∧
        (source.scripts (l.createScripts source none opened r).1).toOption.map
          (fun ss => ss.map Script.database) = some ["DEV_DB"] ∧
        (l.exported none r).map Script.database = ["$\x7bENV\x7d_DB"] := by
    decide +kernel
  obtain ⟨ss, hss, hall⟩ := h l r "" opened opened 1 hps hlive hempty (by decide +kernel)
    (eq_ok_of_toOption hcreate)
  obtain ⟨e, he, hdatabase⟩ : ∃ e ∈ l.exported none r, e.database = "$\x7bENV\x7d_DB" :=
    List.mem_map.1 (hexported ▸ List.mem_cons_self)
  obtain ⟨s, hs, -, hd, -⟩ := hall e he
  rw [hss] at hlisted
  have hdatabases : ss.map Script.database = ["DEV_DB"] := Option.some.inj hlisted
  have hs' := List.mem_map_of_mem (f := Script.database) hs
  rw [hdatabases, hd, hdatabase] at hs'
  exact absurd hs' (by decide)

end Listing

end SchemaDeploy
