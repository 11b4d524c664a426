import SchemaDeploy.Proofs.RepositorySteps
import SchemaDeploy.Proofs.UpperText

namespace SchemaDeploy

namespace Script

def liveKey (s : Script) : String :=
  Repository.objectKey s.schema s.name

variable (database schema : String) (objectType : ObjectType) (name ddl : String)

theorem ofDefinition_objectType :
    (ofDefinition database schema objectType name ddl).objectType = objectType := by
  rw [ofDefinition]
  split <;> rfl

theorem ofDefinition_schema :
    (ofDefinition database schema objectType name ddl).schema = upperText schema := by
  rw [ofDefinition]
  split <;> rfl

theorem ofDefinition_name :
    (ofDefinition database schema objectType name ddl).name = upperText name := by
  rw [ofDefinition]
  split <;> rfl

end Script

/-- Whether a live object is the one that a script defines, as far as names and type go. -/
def LiveObject.IsOf (o : LiveObject) (t : Script) : Prop :=
  o.objectType = t.objectType ∧ upperText o.schema = t.schema ∧ upperText o.name = t.name

namespace Repository

variable {r : Repository} {s t : Script} {b : Bool}

/-- Whether the objects of a schema are listed with `u` for the object of `t`. -/
def Reports (r : Repository) (schema : String) (t u : Script) : Prop :=
  u ∈ r.liveScripts schema ∧ u.objectType = t.objectType ∧ u.schema = t.schema ∧ u.name = t.name

/-- No live object of the script stands under another key. -/
def ShowsUnder (r : Repository) (t : Script) : Prop :=
  ∀ key o, r.state.objects.get? key = some o → o.IsOf t → key = t.liveKey

theorem mem_liveScripts {schema : String} {u : Script} : u ∈ r.liveScripts schema ↔
    ∃ key o, r.state.objects.get? key = some o ∧ sameText o.schema schema = true ∧
      Script.ofDefinition r.database o.schema o.objectType o.name o.ddl = u := by
  simp only [liveScripts, List.mem_map, List.mem_mergeSort, List.mem_filter,
    Keyed.mem_values_iff]
  constructor
  · rintro ⟨o, ⟨⟨key, hget⟩, hs⟩, hu⟩
    exact ⟨key, o, hget, hs, hu⟩
  · rintro ⟨key, o, hget, hs, hu⟩
    exact ⟨o, ⟨⟨key, hget⟩, hs⟩, hu⟩

theorem reports_iff {schema : String} {u : Script} : r.Reports schema t u ↔
    ∃ key o, r.state.objects.get? key = some o ∧ o.IsOf t ∧ sameText o.schema schema = true ∧
      Script.ofDefinition r.database o.schema o.objectType o.name o.ddl = u := by
  rw [Reports, mem_liveScripts]
  constructor
  · rintro ⟨⟨key, o, hget, hs, rfl⟩, ht, hschema, hname⟩
    rw [Script.ofDefinition_objectType] at ht
    rw [Script.ofDefinition_schema] at hschema
    rw [Script.ofDefinition_name] at hname
    exact ⟨key, o, hget, ⟨ht, hschema, hname⟩, hs, rfl⟩
  · rintro ⟨key, o, hget, ⟨ht, hschema, hname⟩, hs, rfl⟩
    refine ⟨⟨key, o, hget, hs, rfl⟩, ?_, ?_, ?_⟩
    · rwa [Script.ofDefinition_objectType]
    · rwa [Script.ofDefinition_schema]
    · rwa [Script.ofDefinition_name]

theorem reports_congr {r' : Repository} (hd : r'.database = r.database)
    (h : ∀ key o, o.IsOf t →
      (r'.state.objects.get? key = some o ↔ r.state.objects.get? key = some o))
    (schema : String) (u : Script) : r'.Reports schema t u ↔ r.Reports schema t u := by
  rw [reports_iff, reports_iff, hd]
  constructor
  · rintro ⟨key, o, hget, ho, hu⟩
    exact ⟨key, o, (h key o ho).1 hget, ho, hu⟩
  · rintro ⟨key, o, hget, ho, hu⟩
    exact ⟨key, o, (h key o ho).2 hget, ho, hu⟩

theorem get?_applied (objects : Keyed LiveObject) (s : Script) (key : String) :
    (applied objects s).get? key =
      if key = s.liveKey ∧ (s.isMigration = true → objects.get? key = none) then
        some ⟨s.schema, s.name, s.objectType,
          if s.isMigration then migrationBody s.content else s.content⟩
      else objects.get? key := by
  have hkey : objectKey s.schema s.name = s.liveKey := rfl
  simp only [applied, hkey, Keyed.contains_eq_isSome]
  cases hm : s.isMigration with
  | false =>
      simp only [Bool.false_eq_true, if_false, false_implies, and_true]
      exact Keyed.get?_insert ..
  | true =>
      simp only [if_true, true_implies]
      cases ho : objects.get? s.liveKey with
      | none =>
          simp only [Option.isSome_none, Bool.false_eq_true, if_false]
          rw [Keyed.get?_insert]
          by_cases hk : key = s.liveKey
          · rw [if_pos hk, if_pos ⟨hk, hk ▸ ho⟩]
          · rw [if_neg hk, if_neg fun h => hk h.1]
      | some o =>
          simp only [Option.isSome_some, if_true]
          rw [if_neg]
          rintro ⟨rfl, hnone⟩
          rw [ho] at hnone
          cases hnone

theorem eq_completed_of_deploy_ok (hd : (r.deploy s b).2 = .ok ()) :
    (r.deploy s b).1 = r.completed s b := by
  cases hr : r.rejects s b with
  | true =>
      rw [deploy_of_rejects hr] at hd
      cases hd
  | false => rw [deploy_of_not_rejects hr]

theorem records_completed (r : Repository) (s : Script) (b : Bool) :
    r.Records (r.completed s b) [s] := by
  constructor
  · intro u hu
    cases List.mem_singleton.1 hu
    refine ⟨r.record s, ?_, rfl, rfl⟩
    rw [completed_history, Keyed.get?_insert, if_pos rfl]
  · intro id hid
    rw [completed_history, Keyed.get?_insert, if_neg (by simpa using hid)]

theorem isChanged_completed_of_ne (hf : r.FilesUnder t.id) (hid : s.id ≠ t.id) :
    (r.completed s b).loadHashes.isChanged t = r.loadHashes.isChanged t := by
  refine (records_completed r s b).isChanged_of_not_mem hf ?_
  simpa using hid.symm

theorem isChanged_completed_of_eq (hf : r.FilesUnder t.id) (hid : s.id = t.id) :
    (r.completed s b).loadHashes.isChanged t = (s.hash != t.hash) := by
  have hrecorded := (records_completed r s b).of_mem s List.mem_cons_self
  rw [hid] at hrecorded
  have hf' := hf.of_records (records_completed r s b)
  rw [isChanged, hf'.get?_hashes_eq_some_iff.2 hrecorded]
  rfl

theorem showsUnder_new (clock database : String) (t : Script) :
    (new clock database).ShowsUnder t := by
  intro key o hget
  rw [new, RepositoryState.empty, Keyed.get?_empty] at hget
  cases hget

theorem ShowsUnder.completed (h : r.ShowsUnder t) (hs : s.IsUpper) (b : Bool) :
    (r.completed s b).ShowsUnder t := by
  intro key o hget ho
  cases b with
  | true => exact h key o hget ho
  | false =>
      rw [completed_objects, get?_applied] at hget
      split at hget
      · next hkey =>
        cases hget
        obtain ⟨-, hschema, hname⟩ := ho
        rw [hs.schema] at hschema
        rw [hs.name] at hname
        rw [hkey.1, Script.liveKey, Script.liveKey, hschema, hname]
      · exact h key o hget ho

theorem reports_completed_iff (htype : s.objectType ≠ t.objectType) (hl : r.ShowsUnder t)
    (hkeep : b = true ∨ s.isMigration = true ∨ s.liveKey ≠ t.liveKey) (schema : String)
    (u : Script) : (r.completed s b).Reports schema t u ↔ r.Reports schema t u := by
  refine reports_congr (completed_database r s b) (fun key o ho => ?_) schema u
  cases b with
  | true => exact Iff.rfl
  | false =>
      rw [completed_objects, get?_applied]
      split
      · next hkey =>
        obtain ⟨rfl, hfree⟩ := hkey
        have hnew (d : String) : some (LiveObject.mk s.schema s.name s.objectType d) ≠ some o := by
          intro h
          cases h
          exact htype ho.1
        -- The key now holds an object of the other type; each reason excludes that it held `o`.
        refine iff_of_false (hnew _) fun hget => ?_
        rcases hkeep with hb | hm | hne
        · cases hb
        · rw [hfree hm] at hget
          cases hget
        · exact hne (hl _ _ hget ho)
      · exact Iff.rfl

theorem not_reports_completed (htype : s.objectType ≠ t.objectType) (hl : r.ShowsUnder t)
    (hm : s.isMigration = false) (hkey : s.liveKey = t.liveKey) (schema : String) (u : Script) :
    ¬ (r.completed s false).Reports schema t u := by
  rw [reports_iff]
  rintro ⟨key, o, hget, ho, -⟩
  rw [completed_objects, get?_applied] at hget
  split at hget
  · cases hget
    exact htype ho.1
  · next hne => exact hne ⟨(hl key o hget ho).trans hkey.symm, fun h => by rw [hm] at h; cases h⟩

/-- What a deployment does to what is kept of a script of another type. Its record and its change
state stay if the ids differ, and its live object stays if the deployed script replaces none under
the same name. Otherwise the record is that of the deployed script, and the object is lost. -/
theorem deploy_beside_other_type (hd : (r.deploy s b).2 = .ok ())
    (htype : s.objectType ≠ t.objectType) (hf : r.FilesUnder t.id) (hl : r.ShowsUnder t) :
    (s.id ≠ t.id →
      (r.deploy s b).1.state.history.get? t.id = r.state.history.get? t.id ∧
        (r.deploy s b).1.loadHashes.isChanged t = r.loadHashes.isChanged t) ∧
    (s.id = t.id →
      (∃ h, (r.deploy s b).1.state.history.get? t.id = some h ∧ h.objectType = s.objectType) ∧
        (r.deploy s b).1.loadHashes.isChanged t = (s.hash != t.hash)) ∧
    (b = true ∨ s.isMigration = true ∨ s.liveKey ≠ t.liveKey →
      ∀ schema u, (r.deploy s b).1.Reports schema t u ↔ r.Reports schema t u) ∧
    (b = false → s.isMigration = false → s.liveKey = t.liveKey →
      ∀ schema u, ¬ (r.deploy s b).1.Reports schema t u) := by
  rw [eq_completed_of_deploy_ok hd]
  refine ⟨fun hid => ⟨?_, isChanged_completed_of_ne hf hid⟩,
    fun hid => ⟨⟨r.record s, ?_, rfl⟩, isChanged_completed_of_eq hf hid⟩,
    reports_completed_iff htype hl, ?_⟩
  · rw [completed_history, Keyed.get?_insert, if_neg hid.symm]
  · rw [completed_history, Keyed.get?_insert, if_pos hid.symm]
  · rintro rfl hm hkey
    exact not_reports_completed htype hl hm hkey

def functionF : Script :=
  .state "DB" "S" .function "F" "CREATE FUNCTION DB.S.F() RETURNS INT AS '1'"

def procedureF : Script :=
  .state "DB" "S" .procedure "F" "CREATE PROCEDURE DB.S.F() RETURNS INT AS '2'"

def withFunctionF : Repository :=
  ((new "2024-01-01T00:00:00Z" "DB").deploy functionF false).1

theorem deploy_procedureF_beside_functionF :
    (withFunctionF.deploy procedureF false).2 = .ok () ∧
      procedureF.objectType ≠ functionF.objectType ∧ withFunctionF.FilesUnder functionF.id ∧
      withFunctionF.ShowsUnder functionF ∧
      (withFunctionF.deploy procedureF false).1.loadHashes.isChanged functionF =
        (procedureF.hash != functionF.hash) ∧
      ∀ schema u, ¬ (withFunctionF.deploy procedureF false).1.Reports schema functionF u := by
  have hd : (withFunctionF.deploy procedureF false).2 = .ok () := rfl
  have htype : procedureF.objectType ≠ functionF.objectType := by decide
  have hf : withFunctionF.FilesUnder functionF.id := (filesUnder_new _ _ _).deploy _ _
  have hl : withFunctionF.ShowsUnder functionF :=
    (showsUnder_new _ _ _).completed (Script.isUpper_ofContent ..) false
  obtain ⟨-, hsame, -, hlost⟩ := deploy_beside_other_type hd htype hf hl
  exact ⟨hd, htype, hf, hl, (hsame rfl).2, hlost rfl rfl rfl⟩

theorem not_deploy_beside_other_type :
    ¬ ∀ (r : Repository) (s t : Script) (b : Bool), s.objectType ≠ t.objectType →
      (r.deploy s b).2 = .ok () →
      (r.deploy s b).1.state.history.get? t.id = r.state.history.get? t.id ∧
        (r.deploy s b).1.loadHashes.isChanged t = r.loadHashes.isChanged t ∧
        ∀ schema u, (r.deploy s b).1.Reports schema t u ↔ r.Reports schema t u := by
  intro h
  obtain ⟨hbefore, hafter⟩ : withFunctionF.loadHashes.isChanged functionF = false ∧
      (withFunctionF.deploy procedureF false).1.loadHashes.isChanged functionF = true := by
    decide +kernel
  obtain ⟨-, hsame, -⟩ := h withFunctionF procedureF functionF false (by decide) rfl
  rw [hbefore, hafter] at hsame
  cases hsame

end Repository

end SchemaDeploy
