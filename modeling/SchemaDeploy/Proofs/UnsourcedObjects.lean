import SchemaDeploy.Proofs.LiveRecords
import SchemaDeploy.Proofs.OverrideNames
import SchemaDeploy.Proofs.PlacedObjects
import SchemaDeploy.Proofs.Restarts
import SchemaDeploy.Proofs.TemplatedNames
import SchemaDeploy.Proofs.VerifiedDeploy

namespace SchemaDeploy

theorem isPlainName_of_upper {name : String} (h : upperText name = name) : IsPlainName name := by
  have hself : sameText (upperText name) name = true := by
    rw [h]
    exact Text.same_refl _
  exact sameText_upperText_iff.1 hself

theorem exists_not_mem_upperText {name : String} (h : ¬ IsPlainName name) :
    ∃ c ∈ name.toList, c.isAlpha = false ∧ ∀ s, c ∉ (upperText s).toList := by
  simp only [IsPlainName, not_forall] at h
  obtain ⟨c, hc, hascii, hchanged⟩ := h
  refine ⟨c, hc, Text.isAlpha_of_not_ascii hascii, fun s hmem => hchanged ?_⟩
  rw [upperText, String.toList_ofList] at hmem
  exact Text.upperChar_of_upper_eq (Text.upper_upper s.toList) c hmem

theorem Text.mem_of_append_cons_eq {a b x y : List Char} {c : Char} (h : a ++ c :: x = b ++ y)
    (hlength : a.length < b.length) : c ∈ b := by
  have hget : (a ++ c :: x)[a.length]? = some c := by simp
  rw [h, List.getElem?_append_left hlength] at hget
  exact List.mem_of_getElem? hget

namespace Parameters

open Text

theorem sameText_parametrizePart (ps : Parameters) {s t : String} (h : sameText s t = true) :
    sameText (ps.parametrizePart s) (ps.parametrizePart t) = true := by
  have hnamed (es : List (String × String)) (s t : List Char) (h : same s t = true) :
      same (named es s) (named es t) = true := by
    induction es generalizing s t with
    | nil => exact h
    | cons p es ih => exact ih _ _ (same_replaceFrom h 0 none none)
  rw [sameText, parametrizePart, parametrizePart, String.toList_ofList, String.toList_ofList]
  exact hnamed ps.entries _ _ h

theorem upperText_parametrizePart_upperText (ps : Parameters) {name : String}
    (h : IsPlainName name) :
    upperText (ps.parametrizePart (upperText name)) = upperText (ps.parametrizePart name) :=
  upperText_eq_of_sameText (ps.sameText_parametrizePart (sameText_upperText_iff.2 h))

theorem parametrizePart_insert_self (name : String) {value : String} (hv : value ≠ "") :
    parametrizePart (Keyed.empty.insert name value) value = String.ofList (placeholder name) := by
  have hne : value.toList ≠ [] := mt String.toList_eq_nil_iff.1 hv
  have hput : replaceFrom anywhere value.toList (placeholder name) 0 none (value.toList ++ []) =
      placeholder name ++ [] :=
    replaceFrom_of_match hne (same_refl _) rfl
  rw [List.append_nil, List.append_nil] at hput
  exact congrArg String.ofList hput

theorem parametrizePart_insert_of_not_mem (name : String) {value s : String} {c : Char}
    (halpha : c.isAlpha = false) (hc : c ∈ value.toList) (hs : c ∉ s.toList) :
    parametrizePart (Keyed.empty.insert name value) s = s := by
  have hstay : replaceSame anywhere value.toList (placeholder name) s.toList = s.toList := by
    rcases replaceSame_anywhere (placeholder name) (List.ne_nil_of_mem hc) s.toList with
      ⟨hstay, -⟩ | ⟨a, m, b, ht, hm, -⟩
    · exact hstay
    · have hmem := mem_of_same (same_symm hm) halpha hc
      rw [ht] at hs
      exact absurd (List.mem_append_right a (List.mem_append_left b hmem)) hs
  exact (congrArg String.ofList hstay).trans String.ofList_toList

theorem exists_long_placeholder (n : Nat) : ∃ name : String,
    '.' ∉ upper (placeholder name) ∧ n < (upper (placeholder name)).length := by
  have hupper : upper (placeholder (String.ofList (List.replicate n 'A'))) =
      '$' :: '{' :: (List.replicate n 'A' ++ ['}']) := by
    rw [placeholder, String.toList_ofList, upper_eq_map_of_ascii]
    · simp only [List.map_append, List.map_cons, List.map_replicate]
      rfl
    · intro c hc
      simp only [List.mem_append, List.mem_cons, List.mem_replicate, List.not_mem_nil] at hc
      rcases hc with (rfl | rfl | ⟨-, rfl⟩) | rfl | hc <;> trivial
  refine ⟨String.ofList (List.replicate n 'A'), ?_⟩
  rw [hupper]
  refine ⟨by simp [List.mem_replicate], ?_⟩
  rw [List.length_cons, List.length_cons, List.length_append, List.length_replicate]
  omega

end Parameters

namespace Repository

variable {r : Repository} {o : LiveObject}

theorem exists_mem_liveScripts {s : Script} : (∃ schema, s ∈ r.liveScripts schema) ↔
    ∃ o ∈ r.state.objects.values, r.liveScript o = s := by
  constructor
  · rintro ⟨schema, hs⟩
    obtain ⟨key, o, hget, -, rfl⟩ := mem_liveScripts.1 hs
    exact ⟨o, r.state.objects.mem_values_iff.2 ⟨key, hget⟩, rfl⟩
  · rintro ⟨o, ho, rfl⟩
    obtain ⟨key, hget⟩ := r.state.objects.mem_values_iff.1 ho
    exact ⟨o.schema, mem_liveScripts.2 ⟨key, o, hget, Text.same_refl _, rfl⟩⟩

theorem Placed.isPlainName_schema (h : r.Placed) (ho : o ∈ r.state.objects.values) :
    IsPlainName o.schema := by
  obtain ⟨key, hget⟩ := r.state.objects.mem_values_iff.1 ho
  exact isPlainName_of_upper (h.upper _ (h.schema key o hget))

theorem database_loaded (clock database : String) (dumps : List (String × String)) :
    (loaded clock database dumps).database = upperText database := by
  have hfold (q : Repository) :
      (dumps.foldl (fun q d => q.withSchemaDump d.1 d.2) q).database = q.database := by
    induction dumps generalizing q with
    | nil => rfl
    | cons d ds ih => exact ih (q.withSchemaDump d.1 d.2)
  exact hfold (new clock database)

end Repository

namespace Release

open Repository

variable {l : Release} {r : Repository} {all : List Script} {o : LiveObject}

def cleanedName (l : Release) (r : Repository) (o : LiveObject) : String :=
  upperText (l.parameters.parametrizeName (r.database ++ "." ++ o.schema ++ "." ++ o.name))

theorem cleanedName_eq (l : Release) (hd : '.' ∉ r.database.toList) (hs : '.' ∉ o.schema.toList) :
    l.cleanedName r o =
      upperText (l.parameters.parametrizePart r.database) ++ "." ++
        upperText (l.parameters.parametrizePart o.schema) ++ "." ++ upperText o.name := by
  let raw : Script := ⟨r.database, o.schema, o.name, o.objectType, o.ddl, "", none, none⟩
  have hparts : Script.nameParts? (r.database ++ "." ++ o.schema ++ "." ++ o.name) =
      some (r.database, o.schema, o.name) :=
    Script.nameParts?_fullName (s := raw) hd hs
  have hdot : upperText "." = "." := by decide
  rw [cleanedName, Parameters.parametrizeName, hparts]
  simp only [upperText_append, hdot]

theorem fullName_parametrizeIdentity_liveScript (l : Release) (r : Repository) (o : LiveObject) :
    (l.parameters.parametrizeIdentity (r.liveScript o)).fullName =
      upperText (l.parameters.parametrizePart (upperText r.database)) ++ "." ++
        upperText (l.parameters.parametrizePart (upperText o.schema)) ++ "." ++
          upperText o.name := by
  have hdatabase : (r.liveScript o).database = upperText r.database := by
    rw [liveScript, Script.ofDefinition]
    split <;> rfl
  rw [parametrizeIdentity_fullName, hdatabase, liveScript, Script.ofDefinition_schema,
    Script.ofDefinition_name]

theorem cleanup_snd (hl : l.listing = .ok all) : (l.cleanup r).2 = .ok (l.unsourced r all) := by
  have hk : KeepsLog l.findUnsourced := by
    intro r
    rw [findUnsourced, hl]
    exact ⟨rfl, rfl⟩
  obtain ⟨syncs, hb⟩ := bracketed_eq hk .cleanup (fun _ => r.liveNames.length) r
  rw [cleanup, hb]
  dsimp only
  rw [findUnsourced, hl]
  rfl

theorem mem_unsourced {n : String} : n ∈ l.unsourced r all ↔
    (∃ o ∈ r.state.objects.values, l.cleanedName r o = n) ∧ ∀ t ∈ all, t.fullName ≠ n := by
  simp [unsourced, liveNames, cleanedName, Keyed.mem_keys_ofNames]

/-- Whether a cleanup returns, each once and in order, the names of exactly those live objects of
all schemas that no listed script is named as, once the scripts of the objects have placeholders. -/
def ReturnsUnsourced (l : Release) (r : Repository) (all : List Script) : Prop :=
  ∃ names, (l.cleanup r).2 = .ok names ∧ names.Pairwise (· < ·) ∧
    ∀ n, n ∈ names ↔
      (∃ schema, ∃ s ∈ r.liveScripts schema, (l.parameters.parametrizeIdentity s).fullName = n) ∧
        ∀ t ∈ all, t.fullName ≠ n

theorem returnsUnsourced_iff (hl : l.listing = .ok all) : l.ReturnsUnsourced r all ↔
    ∀ n, (∀ t ∈ all, t.fullName ≠ n) → ((∃ o ∈ r.state.objects.values, l.cleanedName r o = n) ↔
      ∃ o ∈ r.state.objects.values,
        (l.parameters.parametrizeIdentity (r.liveScript o)).fullName = n) := by
  have hscripts (n : String) :
      (∃ schema, ∃ s ∈ r.liveScripts schema,
          (l.parameters.parametrizeIdentity s).fullName = n) ↔
        ∃ o ∈ r.state.objects.values,
          (l.parameters.parametrizeIdentity (r.liveScript o)).fullName = n := by
    constructor
    · rintro ⟨schema, s, hs, hn⟩
      obtain ⟨o, ho, rfl⟩ := exists_mem_liveScripts.1 ⟨schema, hs⟩
      exact ⟨o, ho, hn⟩
    · rintro ⟨o, ho, hn⟩
      obtain ⟨schema, hs⟩ := exists_mem_liveScripts.2 ⟨o, ho, rfl⟩
      exact ⟨schema, _, hs, hn⟩
  have hsorted : (l.unsourced r all).Pairwise (· < ·) := List.pairwise_map.2 (Keyed.sorted _)
  simp only [ReturnsUnsourced, cleanup_snd hl, Except.ok.injEq, exists_eq_left', hsorted, true_and,
    mem_unsourced, hscripts, and_congr_left_iff]

theorem exists_not_returnsUnsourced (hupper : upperText r.database = r.database)
    (hd : '.' ∉ r.database.toList) (ho : o ∈ r.state.objects.values)
    (hdot : '.' ∉ o.schema.toList) (h : ¬ IsPlainName o.schema) :
    ∃ l : Release, l.listing = .ok [] ∧ ¬ l.ReturnsUnsourced r [] := by
  obtain ⟨c, hc, halpha, hnone⟩ := exists_not_mem_upperText h
  have hne : o.schema ≠ "" := by
    rintro he
    rw [he] at hc
    cases hc
  let lengths := r.state.objects.values.map fun p => (Text.upper p.schema.toList).length
  obtain ⟨name, hname, hlong⟩ := Parameters.exists_long_placeholder lengths.sum
  let l : Release := ⟨.default, Keyed.empty.insert name o.schema, .ok []⟩
  have hstays (s : String) : l.parameters.parametrizePart (upperText s) = upperText s :=
    Parameters.parametrizePart_insert_of_not_mem name halpha hc (hnone s)
  have hdatabase : l.parameters.parametrizePart r.database = r.database := by
    rw [← hupper, hstays]
  have hput : l.parameters.parametrizePart o.schema = String.ofList (Parameters.placeholder name) :=
    Parameters.parametrizePart_insert_self name hne
  refine ⟨l, rfl, fun hreturns => ?_⟩
  obtain ⟨p, hp, heq⟩ := ((returnsUnsourced_iff rfl).1 hreturns _ nofun).1 ⟨o, ho, rfl⟩
  rw [fullName_parametrizeIdentity_liveScript, cleanedName_eq l hd hdot, hput, hupper, hdatabase,
    hstays, hupper, upperText_upperText] at heq
  have hlists := congrArg String.toList heq
  simp only [String.append_assoc, String.toList_append, upperText, String.toList_ofList] at hlists
  have hrest := List.append_cancel_left (List.append_cancel_left hlists)
  have hle : (Text.upper p.schema.toList).length ≤ lengths.sum :=
    List.le_sum_of_mem (List.mem_map_of_mem hp)
  exact hname (Text.mem_of_append_cons_eq hrest (Nat.lt_of_le_of_lt hle hlong))

theorem returnsUnsourced_of_plain (hl : l.listing = .ok all)
    (hupper : upperText r.database = r.database) (hd : '.' ∉ r.database.toList)
    (hdots : ∀ o ∈ r.state.objects.values, '.' ∉ o.schema.toList)
    (hplain : ∀ o ∈ r.state.objects.values, IsPlainName o.schema) : l.ReturnsUnsourced r all := by
  have hname (o : LiveObject) (ho : o ∈ r.state.objects.values) : l.cleanedName r o =
      (l.parameters.parametrizeIdentity (r.liveScript o)).fullName := by
    rw [cleanedName_eq l hd (hdots o ho), fullName_parametrizeIdentity_liveScript, hupper,
      l.parameters.upperText_parametrizePart_upperText (hplain o ho)]
  rw [returnsUnsourced_iff hl]
  intro n _
  constructor
  · rintro ⟨o, ho, rfl⟩
    exact ⟨o, ho, (hname o ho).symm⟩
  · rintro ⟨o, ho, rfl⟩
    exact ⟨o, ho, hname o ho⟩

/-- For all parameters and all listings a cleanup agrees with the templates of scripts, if and only
if upper case changes ASCII letters only in the schemas of the live objects. -/
theorem cleanup_returns_unsourced_iff (r : Repository) (hupper : upperText r.database = r.database)
    (hd : '.' ∉ r.database.toList)
    (hdots : ∀ o ∈ r.state.objects.values, '.' ∉ o.schema.toList) :
    (∀ (l : Release) (all : List Script), l.listing = .ok all → l.ReturnsUnsourced r all) ↔
      ∀ o ∈ r.state.objects.values, IsPlainName o.schema := by
  constructor
  · intro h o ho
    by_contra hplain
    obtain ⟨l, hl, hnot⟩ := exists_not_returnsUnsourced hupper hd ho (hdots o ho) hplain
    exact hnot (h l [] hl)
  · intro hplain l all hl
    exact returnsUnsourced_of_plain hl hupper hd hdots hplain

def revenue : Script :=
  .state "${db}" "SALES" .view "REVENUE" "CREATE OR REPLACE VIEW ${db}.SALES.REVENUE AS SELECT 1;"

def revenueListed : Release :=
  ⟨.default, Keyed.empty.insert "db" "TEST_DB", .ok [revenue]⟩

def revenueDumped : Repository :=
  .loaded "2024-01-01T00:00:00Z" "test_db"
    [("sales", "create or replace view REVENUE as select 1;\n" ++
      "create or replace view OLD as select 0;")]

theorem cleanup_returns_unsourced_of_revenue :
    upperText revenueDumped.database = revenueDumped.database ∧
      '.' ∉ revenueDumped.database.toList ∧
      (∀ o ∈ revenueDumped.state.objects.values, '.' ∉ o.schema.toList) ∧
      ∃ names, (revenueListed.cleanup revenueDumped).2 = .ok names ∧
        "${DB}.SALES.OLD" ∈ names ∧ "${DB}.SALES.REVENUE" ∉ names := by
  obtain ⟨hupper, hd, hdots, o, ho, hold⟩ :
      upperText revenueDumped.database = revenueDumped.database ∧
        '.' ∉ revenueDumped.database.toList ∧
        (∀ o ∈ revenueDumped.state.objects.values, '.' ∉ o.schema.toList) ∧
        ∃ o ∈ revenueDumped.state.objects.values,
          (revenueListed.parameters.parametrizeIdentity (revenueDumped.liveScript o)).fullName =
            "${DB}.SALES.OLD" := by
    decide +kernel
  obtain ⟨names, hnames, -, hmem⟩ :=
    (cleanup_returns_unsourced_iff revenueDumped hupper hd hdots).2
      (fun _ ho => (placed_loaded ..).isPlainName_schema ho) revenueListed [revenue] rfl
  obtain ⟨schema, hs⟩ := exists_mem_liveScripts.2 ⟨o, ho, rfl⟩
  refine ⟨hupper, hd, hdots, names, hnames, (hmem _).2 ⟨⟨schema, _, hs, hold⟩, ?_⟩, ?_⟩
  · decide +kernel
  · exact fun h => ((hmem _).1 h).2 revenue List.mem_cons_self (by decide +kernel)

/-- A live object whose schema is not in upper case, as an edited state may hold it. -/
def accented : Repository :=
  { Repository.new "2024-01-01T00:00:00Z" "DB" with
    state := { RepositoryState.empty with
      schemas := Names.ofNames ["ä"]
      objects := Keyed.empty.insert "ä.V"
        ⟨"ä", "V", .view, "CREATE VIEW DB.\"Ä\".V AS SELECT 1;"⟩ } }

/-- The object has its script, but its name gets a placeholder that the script does not get. -/
theorem not_cleanup_returns_unsourced :
    ¬ ∀ (l : Release) (r : Repository) (all : List Script), l.listing = .ok all →
      '.' ∉ r.database.toList → (∀ o ∈ r.state.objects.values, '.' ∉ o.schema.toList) →
      l.ReturnsUnsourced r all := by
  intro h
  let exported : Script := .state "DB" "Ä" .view "V" "CREATE VIEW DB.\"Ä\".V AS SELECT 1;"
  let l : Release := ⟨.default, Keyed.empty.insert "x" "ä", .ok [exported]⟩
  obtain ⟨names, hnames, -, hmem⟩ :=
    h l accented [exported] rfl (by decide +kernel) (by decide +kernel)
  have hone : l.unsourced accented [exported] = ["DB.${X}.V"] := by decide +kernel
  rw [cleanup_snd rfl, hone] at hnames
  cases hnames
  obtain ⟨⟨schema, s, hs, hname⟩, -⟩ := (hmem "DB.${X}.V").1 List.mem_cons_self
  obtain ⟨o, ho, rfl⟩ := exists_mem_liveScripts.1 ⟨schema, hs⟩
  cases List.mem_singleton.1 ho
  revert hname
  decide +kernel

end Release

namespace Turn

theorem database_runAll (ts : List Turn) (r : Repository) : (runAll ts r).database = r.database := by
  induction ts generalizing r with
  | nil => rfl
  | cons t ts ih => exact (ih (t.run r)).trans (setUp_run t r).1

theorem returnsUnsourced_runAll (clock database : String) (dumps : List (String × String))
    {past : List Turn} (hpast : ∀ t ∈ past, t.ListsUpper) {l : Release} {all : List Script}
    (hl : l.listing = .ok all) (hd : '.' ∉ (upperText database).toList) :
    let r := runAll past (.loaded clock database dumps)
    (∀ o ∈ r.state.objects.values, '.' ∉ o.schema.toList) → l.ReturnsUnsourced r all := by
  intro r hdots
  have hdatabase : r.database = upperText database :=
    (database_runAll past _).trans (Repository.database_loaded clock database dumps)
  have hplaced : r.Placed := placed_runAll hpast (Repository.placed_loaded clock database dumps)
  refine Release.returnsUnsourced_of_plain hl ?_ (hdatabase ▸ hd) hdots
    fun o ho => hplaced.isPlainName_schema ho
  rw [hdatabase, upperText_upperText]

end Turn

end SchemaDeploy
