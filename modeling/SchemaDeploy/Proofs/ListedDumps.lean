import SchemaDeploy.Proofs.LatestMigrations
import SchemaDeploy.Proofs.OverrideNames
import SchemaDeploy.Proofs.PlacedObjects

namespace SchemaDeploy

namespace Keyed

variable {α : Type} {es : List (String × α)}

theorem entries_foldl_insert_perm (hn : (es.map (·.1)).Nodup) (m : Keyed α) :
    (es.foldl (fun m e => m.insert e.1 e.2) m).entries.Perm
      (es ++ m.entries.filter fun e => e.1 ∉ es.map (·.1)) := by
  have hleft := (es.foldl (fun m e => m.insert e.1 e.2) m).nodup_keys
  have hright : ((es ++ m.entries.filter fun e => e.1 ∉ es.map (·.1)).map (·.1)).Nodup := by
    rw [List.map_append]
    refine hn.append (m.nodup_keys.sublist (List.filter_sublist.map _)) ?_
    intro k hk hkept
    obtain ⟨e, he, rfl⟩ := List.mem_map.1 hkept
    exact of_decide_eq_true (List.mem_filter.1 he).2 hk
  refine (List.perm_ext_iff_of_nodup hleft.of_map hright.of_map).2 ?_
  rintro ⟨k, a⟩
  rw [← get?_eq_some_iff, List.mem_append, List.mem_filter, ← get?_eq_some_iff, decide_eq_true_iff]
  by_cases hk : k ∈ es.map (·.1)
  · have hreverse : (es.reverse.map (·.1)).Nodup := by
      rwa [List.map_reverse, List.nodup_reverse]
    obtain ⟨e, he, rfl⟩ := List.mem_map.1 hk
    have hlast : es.reverse.lookup e.1 = some e.2 :=
      (lookup_eq_some_iff_mem hreverse).2 (List.mem_reverse.2 he)
    rw [get?_foldl_insert, hlast, Option.some_or, ← hlast, lookup_eq_some_iff_mem hreverse,
      List.mem_reverse, or_iff_left fun h => h.2 hk]
  · rw [get?_foldl_insert_of_not_mem hk, and_iff_left hk]
    exact (or_iff_right fun h => hk (List.mem_map_of_mem h)).symm

end Keyed

namespace Script

/-- Whether a script is listed before another one, by type and name. -/
def typeThenName (s t : Script) : Bool :=
  s.objectType.rank < t.objectType.rank || (s.objectType == t.objectType && s.name ≤ t.name)

def listed (s : Script) : ℕ ×ₗ String :=
  toLex (s.objectType.rank, s.name)

theorem typeThenName_iff {s t : Script} : s.typeThenName t = true ↔ s.listed ≤ t.listed := by
  simp only [typeThenName, listed, Bool.or_eq_true, Bool.and_eq_true, beq_iff_eq,
    decide_eq_true_eq, Prod.Lex.toLex_le_toLex, Release.rank_injective.eq_iff]

theorem pairwise_mergeSort_typeThenName (ss : List Script) :
    (ss.mergeSort typeThenName).Pairwise fun s t => s.listed ≤ t.listed := by
  refine (List.pairwise_mergeSort ?_ ?_ ss).imp typeThenName_iff.1
  · intro s t u hst htu
    exact typeThenName_iff.2 ((typeThenName_iff.1 hst).trans (typeThenName_iff.1 htu))
  · intro s t
    rw [Bool.or_eq_true, typeThenName_iff, typeThenName_iff]
    exact le_total ..

theorem mergeSort_typeThenName_eq_of_perm {ss ts : List Script} (h : ss.Perm ts)
    (hn : (ts.map (·.name)).Nodup) : ss.mergeSort typeThenName = ts.mergeSort typeThenName := by
  have hperm := (List.mergeSort_perm ss typeThenName).trans
    (h.trans (List.mergeSort_perm ts typeThenName).symm)
  refine List.Perm.eq_of_pairwise ?_ (pairwise_mergeSort_typeThenName ss)
    (pairwise_mergeSort_typeThenName ts) hperm
  intro s t hs ht hst hts
  have hlisted : s.listed = t.listed := le_antisymm hst hts
  have hname : s.name = t.name := congrArg (fun place => (ofLex place).2) hlisted
  exact List.inj_on_of_nodup_map hn (h.subset (List.mem_mergeSort.1 hs)) (List.mem_mergeSort.1 ht)
    hname

theorem ofDefinition_upperText (database schema : String) (objectType : ObjectType)
    (name ddl : String) :
    ofDefinition (upperText database) (upperText schema) objectType (upperText name) ddl =
      ofDefinition database schema objectType name ddl := by
  have hqualified : upperText (upperText database ++ "." ++ upperText schema ++ "." ++
      upperText name) = upperText (database ++ "." ++ schema ++ "." ++ name) := by
    simp only [upperText_append, upperText_upperText]
  have hcontent (content : String) (m : Option Migration) :
      ofContent (upperText database) (upperText schema) objectType (upperText name) content m =
        ofContent database schema objectType name content m := by
    simp only [ofContent, upperText_upperText]
  simp only [ofDefinition, initial, state, ofUnit, hqualified, hcontent]

end Script

namespace Repository

variable {r : Repository} {database schema ddl asked : String}

def dumped (schema : String) (d : Sql.Definition) : String × LiveObject :=
  (objectKey schema (upperText d.name), ⟨schema, upperText d.name, d.objectType, d.ddl⟩)

theorem withSchemaDump_objects (r : Repository) (schema ddl : String) :
    (r.withSchemaDump schema ddl).state.objects =
      ((Sql.definitions ddl).map (dumped (upperText schema))).foldl
        (fun m e => m.insert e.1 e.2) r.state.objects := by
  rw [List.foldl_map]
  rfl

theorem objectKey_injective (schema : String) : Function.Injective (objectKey schema) :=
  fun _ _ => String.append_right_inj _ |>.1

theorem nodup_dumped {ds : List Sql.Definition} (hn : (ds.map fun d => upperText d.name).Nodup)
    (schema : String) : ((ds.map (dumped schema)).map (·.1)).Nodup := by
  have hkeys : (ds.map (dumped schema)).map (·.1) =
      (ds.map fun d => upperText d.name).map (objectKey schema) := by
    simp only [List.map_map]
    rfl
  rw [hkeys]
  exact hn.map (objectKey_injective schema)

theorem map_liveScript_dumped (hd : r.database = upperText database) :
    (((Sql.definitions ddl).map (dumped (upperText schema))).map (·.2)).map r.liveScript =
      Sql.scriptsOfDump ddl database schema := by
  rw [List.map_map, List.map_map, Sql.scriptsOfDump]
  refine List.map_congr_left fun d _ => ?_
  have hscript := Script.ofDefinition_upperText database schema d.objectType d.name d.ddl
  rwa [← hd] at hscript

theorem filter_values_withSchemaDump (schema : String) (hempty : r.liveScripts asked = [])
    (hn : ((Sql.definitions ddl).map fun d => upperText d.name).Nodup) :
    ((r.withSchemaDump schema ddl).state.objects.values.filter fun o =>
        sameText o.schema asked).Perm
      (if sameText (upperText schema) asked then
        ((Sql.definitions ddl).map (dumped (upperText schema))).map (·.2) else []) := by
  have hnone (o : LiveObject) (ho : o ∈ r.state.objects.values) : ¬ sameText o.schema asked := by
    intro hsame
    obtain ⟨key, hget⟩ := (Keyed.mem_values_iff _).1 ho
    have hlisted := mem_liveScripts.2 ⟨key, o, hget, hsame, rfl⟩
    rw [hempty] at hlisted
    cases hlisted
  have hentries := Keyed.entries_foldl_insert_perm (nodup_dumped hn (upperText schema))
    r.state.objects
  have hvalues := (hentries.map (·.2)).filter fun o => sameText o.schema asked
  rw [← withSchemaDump_objects, List.map_append, List.filter_append] at hvalues
  refine hvalues.trans (.of_eq ?_)
  have hold : (((r.state.objects.entries.filter fun e => e.1 ∉
      ((Sql.definitions ddl).map (dumped (upperText schema))).map (·.1)).map (·.2)).filter
        fun o => sameText o.schema asked) = [] := by
    refine List.filter_eq_nil_iff.2 fun o ho => hnone o ?_
    obtain ⟨e, he, rfl⟩ := List.mem_map.1 ho
    exact List.mem_map_of_mem (List.mem_of_mem_filter he)
  rw [hold, List.append_nil]
  have hschema (o : LiveObject)
      (ho : o ∈ ((Sql.definitions ddl).map (dumped (upperText schema))).map (·.2)) :
      o.schema = upperText schema := by
    rw [List.map_map] at ho
    obtain ⟨d, -, rfl⟩ := List.mem_map.1 ho
    rfl
  cases hsame : sameText (upperText schema) asked with
  | true =>
      rw [if_pos rfl]
      exact List.filter_eq_self.2 fun o ho => by rw [hschema o ho, hsame]
  | false =>
      rw [if_neg Bool.false_ne_true]
      exact List.filter_eq_nil_iff.2 fun o ho => by rw [hschema o ho, hsame]; exact Bool.false_ne_true

theorem map_liveScript_mergeSort {os : List LiveObject}
    (hupper : ∀ o ∈ os, upperText o.name = o.name) :
    (os.mergeSort typeThenName).map r.liveScript =
      (os.map r.liveScript).mergeSort Script.typeThenName := by
  refine List.map_mergeSort fun o ho p hp => ?_
  simp only [typeThenName, Script.typeThenName, liveScript, Script.ofDefinition_objectType,
    Script.ofDefinition_name, hupper o ho, hupper p hp]

/-- Where no object was listed, the scripts of a dump are listed after it was loaded, if the upper
case of its schema is found under the name that is asked for. -/
theorem liveScripts_withSchemaDump (hd : r.database = upperText database)
    (hempty : r.liveScripts asked = [])
    (hn : ((Sql.definitions ddl).map fun d => upperText d.name).Nodup) :
    (r.withSchemaDump schema ddl).liveScripts asked =
      if sameText (upperText schema) asked then
        (Sql.scriptsOfDump ddl database schema).mergeSort Script.typeThenName
      else [] := by
  have hperm := filter_values_withSchemaDump schema hempty hn
  have hsort : (r.withSchemaDump schema ddl).liveScripts asked =
      (((r.withSchemaDump schema ddl).state.objects.values.filter fun o =>
        sameText o.schema asked).mergeSort typeThenName).map r.liveScript := rfl
  rw [hsort]
  cases hsame : sameText (upperText schema) asked with
  | true =>
      rw [hsame, if_pos rfl] at hperm
      have hupper (o : LiveObject) (ho : o ∈ (r.withSchemaDump schema ddl).state.objects.values.filter
          fun o => sameText o.schema asked) : upperText o.name = o.name := by
        have hdump := hperm.subset ho
        rw [List.map_map] at hdump
        obtain ⟨d, -, rfl⟩ := List.mem_map.1 hdump
        exact upperText_upperText d.name
      have hscripts := hperm.map r.liveScript
      rw [map_liveScript_dumped hd] at hscripts
      have hnames : ((Sql.scriptsOfDump ddl database schema).map (·.name)).Nodup := by
        rw [Sql.scriptsOfDump, List.map_map]
        simpa only [Function.comp_def, Script.ofDefinition_name] using hn
      rw [map_liveScript_mergeSort hupper, if_pos rfl]
      exact Script.mergeSort_typeThenName_eq_of_perm hscripts hnames
  | false =>
      rw [hsame, if_neg Bool.false_ne_true] at hperm
      rw [List.perm_nil.1 hperm, if_neg Bool.false_ne_true, List.mergeSort_nil, List.map_nil]

/-- A repository without an object in a schema lists the scripts of a dump that is loaded into it, if
and only if upper case changes ASCII letters only in the name of the schema. The upper case of the
name always finds them. -/
theorem liveScripts_withSchemaDump_iff (r : Repository) (database schema ddl : String)
    (hd : r.database = upperText database)
    (hn : ((Sql.definitions ddl).map fun d => upperText d.name).Nodup) :
    (r.liveScripts schema = [] →
      ((r.withSchemaDump schema ddl).liveScripts schema =
          (Sql.scriptsOfDump ddl database schema).mergeSort Script.typeThenName ↔
        IsPlainName schema ∨ Sql.definitions ddl = [])) ∧
    (r.liveScripts (upperText schema) = [] →
      (r.withSchemaDump schema ddl).liveScripts (upperText schema) =
        (Sql.scriptsOfDump ddl database schema).mergeSort Script.typeThenName) := by
  refine ⟨fun hempty => ?_, fun hempty => ?_⟩
  · rw [liveScripts_withSchemaDump hd hempty hn, ← sameText_upperText_iff]
    cases hsame : sameText (upperText schema) schema with
    | true => exact iff_of_true rfl (.inl rfl)
    | false =>
        rw [if_neg Bool.false_ne_true, or_iff_right Bool.false_ne_true, eq_comm]
        constructor
        · intro hnone
          have hperm := List.mergeSort_perm (Sql.scriptsOfDump ddl database schema)
            Script.typeThenName
          rw [hnone] at hperm
          exact List.map_eq_nil_iff.1 (List.nil_perm.1 hperm)
        · intro hnone
          rw [Sql.scriptsOfDump, hnone, List.map_nil, List.mergeSort_nil]
  · have hsame : sameText (upperText schema) (upperText schema) = true := by
      simp [sameText, Text.same]
    rw [liveScripts_withSchemaDump hd hempty hn, if_pos hsame]

theorem liveScripts_new (clock database asked : String) :
    (new clock database).liveScripts asked = [] := by
  have hvalues : (new clock database).state.objects.values = [] := rfl
  rw [liveScripts, hvalues, List.filter_nil, List.mergeSort_nil, List.map_nil]

def tableAndView : String :=
  "create or replace view v as select 1;\ncreate or replace table t (a int);"

theorem liveScripts_withSchemaDump_iff_tableAndView :
    ((Sql.definitions tableAndView).map fun d => upperText d.name) = ["V", "T"] ∧
      ((new "" "db").withSchemaDump "sc" tableAndView).liveScripts "sc" =
        (Sql.scriptsOfDump tableAndView "db" "sc").mergeSort Script.typeThenName ∧
      ((new "" "db").withSchemaDump "ä" tableAndView).liveScripts "ä" ≠
        (Sql.scriptsOfDump tableAndView "db" "ä").mergeSort Script.typeThenName ∧
      ((new "" "db").withSchemaDump "ä" tableAndView).liveScripts "Ä" =
        (Sql.scriptsOfDump tableAndView "db" "ä").mergeSort Script.typeThenName := by
  have hnames : ((Sql.definitions tableAndView).map fun d => upperText d.name) = ["V", "T"] := by
    decide +kernel
  have hn : ((Sql.definitions tableAndView).map fun d => upperText d.name).Nodup := by
    rw [hnames]
    decide
  have hsome : Sql.definitions tableAndView ≠ [] := by
    intro hnone
    rw [hnone] at hnames
    cases hnames
  have hplain : IsPlainName "sc" := by decide +kernel
  have hnot : ¬ IsPlainName "ä" := by decide +kernel
  have hupper : upperText "ä" = "Ä" := by decide +kernel
  obtain ⟨hlower, -⟩ := liveScripts_withSchemaDump_iff (new "" "db") "db" "sc" tableAndView rfl hn
  obtain ⟨haccented, hcapital⟩ :=
    liveScripts_withSchemaDump_iff (new "" "db") "db" "ä" tableAndView rfl hn
  rw [hupper] at hcapital
  refine ⟨hnames, (hlower (liveScripts_new ..)).2 (.inl hplain), fun heq => ?_,
    hcapital (liveScripts_new ..)⟩
  exact ((haccented (liveScripts_new ..)).1 heq).elim hnot hsome

/-- The objects of a schema are not found under the name that they were loaded with. -/
theorem not_liveScripts_withSchemaDump :
    ¬ ∀ (r : Repository) (database schema ddl : String), r.database = upperText database →
      (∀ o ∈ r.state.objects.values, upperText o.schema ≠ upperText schema) →
      ((Sql.definitions ddl).map fun d => upperText d.name).Nodup →
      (r.withSchemaDump schema ddl).liveScripts schema =
        (Sql.scriptsOfDump ddl database schema).mergeSort Script.typeThenName := by
  intro h
  let ddl := "create or replace view v as select 1;"
  have heq := h (new "" "DB") "DB" "ä" ddl rfl nofun (by decide +kernel)
  have hlost : (((new "" "DB").withSchemaDump "ä" ddl).state.objects.values.filter
      fun o => sameText o.schema "ä") = [] := by
    decide +kernel
  have hone : (Sql.definitions ddl).length = 1 := by decide +kernel
  have hlength := congrArg List.length heq
  rw [liveScripts, hlost, List.mergeSort_nil, List.length_mergeSort, Sql.scriptsOfDump,
    List.length_map, List.length_map, hone] at hlength
  cases hlength

end Repository

end SchemaDeploy
