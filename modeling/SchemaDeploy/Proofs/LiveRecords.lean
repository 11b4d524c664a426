import SchemaDeploy.Proofs.LiveObjects
import SchemaDeploy.Proofs.RollbackEffect

namespace SchemaDeploy

theorem Text.span_append {c : Char} {s : List Char} (hs : c ∉ s) (t : List Char) :
    (s ++ c :: t).span (· ≠ c) = (s, c :: t) := by
  have hkeep : ∀ d ∈ s, decide (d ≠ c) = true := by
    intro d hd
    simpa using fun he : d = c => hs (he ▸ hd)
  rw [List.span_eq_takeWhile_dropWhile, List.takeWhile_append_of_pos hkeep,
    List.dropWhile_append_of_pos hkeep]
  simp

namespace Script

theorem nameParts?_fullName {s : Script} (hd : '.' ∉ s.database.toList)
    (hs : '.' ∉ s.schema.toList) :
    nameParts? s.fullName = some (s.database, s.schema, s.name) := by
  have hname : s.fullName.toList =
      s.database.toList ++ '.' :: (s.schema.toList ++ '.' :: s.name.toList) := by
    simp [fullName]
  simp only [nameParts?, hname, Text.span_append hd, Text.span_append hs, String.ofList_toList]

/-- A script of one database `d`; the keys of migrations are those in `V`. -/
structure Fits (d : String) (V : String → Prop) (s : Script) : Prop where
  regular : s.Regular
  database : s.database = d
  dotless_database : '.' ∉ s.database.toList
  dotless_schema : '.' ∉ s.schema.toList
  isMigration_iff : s.isMigration = true ↔ V s.liveKey

variable {d : String} {V : String → Prop} {s t : Script}

theorem Fits.injected (h : s.Fits d V) (l : Release) : (l.injected s).Fits d V := by
  constructor
  case regular => exact h.regular.injected l
  case database => rw [Release.injected_database, h.database]
  case dotless_database => rw [Release.injected_database]; exact h.dotless_database
  case dotless_schema => rw [Release.injected_schema]; exact h.dotless_schema
  case isMigration_iff =>
    rw [Release.injected_isMigration, Release.injected_liveKey, h.isMigration_iff]

theorem fullName_eq_append_liveKey (s : Script) : s.fullName = s.database ++ "." ++ s.liveKey := by
  simp only [fullName, liveKey, Repository.objectKey, String.append_assoc]

theorem Fits.id_eq_of_liveKey_eq (hs : s.Fits d V) (ht : t.Fits d V) (hm : s.isMigration = false)
    (hm' : t.isMigration = false) (h : s.liveKey = t.liveKey) : s.id = t.id := by
  rw [id_of_not_isMigration hm, id_of_not_isMigration hm', fullName_eq_append_liveKey,
    fullName_eq_append_liveKey, hs.database, ht.database, h]

theorem Fits.of_toMigration? {h : HistoryRecord} {m : Script} (hs : s.Fits d V)
    (hf : h.IsFor s) (hto : h.toMigration? = some m) : m.Fits d V ∧ m.isMigration = true := by
  have hm : s.isMigration = true := by
    by_contra hm
    rw [hf.toMigration?_eq_none hs.regular (Bool.not_eq_true _ ▸ hm)] at hto
    cases hto
  obtain ⟨u, hu⟩ := Option.isSome_iff_exists.1 hm
  obtain ⟨m', hto', -, hregular, hmigration⟩ := hf.exists_toMigration? hs.regular hm
  cases hto.symm.trans hto'
  have hparts := nameParts?_fullName hs.dotless_database hs.dotless_schema
  have heq := Option.some.inj (hto.symm.trans (hf.toMigration?_eq hs.regular hu hparts))
  have hdatabase : m.database = s.database := heq ▸ hs.regular.upper.database
  have hschema : m.schema = s.schema := heq ▸ hs.regular.upper.schema
  have hname : m.name = s.name := heq ▸ hs.regular.upper.name
  refine ⟨⟨hregular, ?_, ?_, ?_, ?_⟩, hmigration⟩
  · rw [hdatabase, hs.database]
  · rw [hdatabase]
    exact hs.dotless_database
  · rw [hschema]
    exact hs.dotless_schema
  · rw [liveKey, hschema, hname, ← liveKey, ← hs.isMigration_iff, hmigration, hm]

end Script

structure Call.Fits (d : String) (V : String → Prop) (c : Call) : Prop where
  script : c.script.Fits d V
  executes : ∀ s b, c = deploy s b → b = false
  undoes : ∀ s, c = rollback s → s.isMigration = true

namespace Repository

variable {d : String} {V : String → Prop} {r r' : Repository} {s : Script}

def Shows (r : Repository) (s : Script) (x : String) : Prop :=
  ∃ ddl, r.state.objects.get? s.liveKey = some ⟨s.schema, s.name, s.objectType, ddl⟩ ∧
    contentHash ddl = x

/-- Every record is of a script that fits, and that of a script without versions tells of its live
object. -/
def Agrees (d : String) (V : String → Prop) (r : Repository) : Prop :=
  ∀ key h, r.state.history.get? key = some h → ∃ s : Script, s.Fits d V ∧ s.id = key ∧
    h.IsFor s ∧ (s.isMigration = false → r.Shows s h.deployedHash)

theorem agrees_new (clock database : String) : Agrees d V (new clock database) := by
  intro key h hget
  rw [new, RepositoryState.empty, Keyed.get?_empty] at hget
  cases hget

theorem Agrees.congr (h : r.Agrees d V) (hh : r'.state.history = r.state.history)
    (ho : r'.state.objects = r.state.objects) : r'.Agrees d V := by
  simp only [Agrees, Shows, hh, ho]
  exact h

theorem Agrees.completed (h : r.Agrees d V) (hs : s.Fits d V) :
    (r.completed s false).Agrees d V := by
  intro key record hget
  rw [completed_history, Keyed.get?_insert] at hget
  split at hget
  · next hkey =>
    cases hget
    refine ⟨s, hs, hkey.symm, r.record_isFor s, fun hm => ⟨s.content, ?_, rfl⟩⟩
    rw [completed_objects, get?_applied, if_pos ⟨rfl, fun hm' => by rw [hm] at hm'; cases hm'⟩]
    simp [hm]
  · next hkey =>
    obtain ⟨t, ht, htkey, hf, hshows⟩ := h key record hget
    refine ⟨t, ht, htkey, hf, fun hm => ?_⟩
    obtain ⟨ddl, hobject, hhash⟩ := hshows hm
    refine ⟨ddl, ?_, hhash⟩
    -- The object of `t` is written over neither by a migration, since it is there, nor by a script
    -- without versions, since that would have the id of `t`.
    rw [completed_objects, get?_applied, if_neg, hobject]
    rintro ⟨hlive, hnone⟩
    cases hm' : s.isMigration with
    | true =>
        rw [hnone hm'] at hobject
        cases hobject
    | false => exact hkey (htkey.symm.trans (ht.id_eq_of_liveKey_eq hs hm hm' hlive))

theorem Agrees.run (h : r.Agrees d V) {c : Call} (hc : c.Fits d V) : (c.run r).Agrees d V := by
  rcases c.run_cases r with ⟨hh, ho⟩ | ⟨s, b, rfl, hr⟩ | ⟨s, rfl, hh, ho⟩
  · exact h.congr hh ho
  · rw [hr, hc.executes s b rfl]
    exact h.completed hc.script
  · intro key record hget
    rw [hh, Keyed.get?_erase] at hget
    split at hget
    · cases hget
    · obtain ⟨t, ht, htkey, hf, hshows⟩ := h key record hget
      refine ⟨t, ht, htkey, hf, fun hm => ?_⟩
      obtain ⟨ddl, hobject, hhash⟩ := hshows hm
      have hlive : t.liveKey ≠ s.liveKey := by
        intro hlive
        have hV := hc.script.isMigration_iff.1 (hc.undoes s rfl)
        have hm' := ht.isMigration_iff.2 (hlive ▸ hV)
        rw [hm] at hm'
        cases hm'
      refine ⟨ddl, ?_, hhash⟩
      rcases ho with ho | ho
      · rw [ho, hobject]
      · rw [ho, Keyed.get?_erase, if_neg hlive, hobject]

theorem Agrees.exists_liveObject? (ha : r.Agrees d V) {key : String} {h : HistoryRecord}
    (hget : r.state.history.get? key = some h) (htype : h.objectType.isVersioned = false) :
    ∃ schema name o, Script.nameParts? h.objectName = some (d, schema, name) ∧
      r.liveObject? schema name = some o ∧ o.schema = schema ∧ o.name = name ∧
      o.objectType = h.objectType ∧ contentHash o.ddl = h.deployedHash := by
  obtain ⟨s, hs, -, hf, hshows⟩ := ha key h hget
  have hm : s.isMigration = false := by
    rw [hs.regular.kind, ← hf.objectType, htype]
  obtain ⟨ddl, hobject, hhash⟩ := hshows hm
  have hparts := Script.nameParts?_fullName hs.dotless_database hs.dotless_schema
  rw [hs.database, ← hf.objectName] at hparts
  refine ⟨s.schema, s.name, ⟨s.schema, s.name, s.objectType, ddl⟩, hparts, ?_, rfl, rfl,
    hf.objectType.symm, hhash⟩
  rw [liveObject?, hs.regular.upper.schema, hs.regular.upper.name]
  exact hobject

end Repository

theorem Release.fits_rollbackCall {d : String} {V : String → Prop} {s : Script} (l : Release)
    (hs : s.Fits d V) : (l.rollbackCall s).Fits d V := by
  rw [rollbackCall]
  split
  · next hm =>
    refine ⟨hs.injected l, ?_, ?_⟩
    · intro _ _ h
      cases h
    · intro _ h
      cases h
      exact hm
  · refine ⟨hs.injected l, ?_, ?_⟩
    · intro _ _ h
      cases h
      rfl
    · intro _ h
      cases h

structure Turn.Fits (d : String) (V : String → Prop) (t : Turn) : Prop where
  listed : ∀ all, t.release.listing = .ok all → ∀ s ∈ all, s.Fits d V
  executes : t.action ≠ .deploy true

namespace Turn

open Repository Release

variable {d : String} {V : String → Prop} {t : Turn} {ts : List Turn} {r : Repository}

theorem fits_of_mem_calls (ht : t.Fits d V) (h : r.Agrees d V) {c : Call}
    (hc : c ∈ t.calls r) : c.Fits d V := by
  rw [calls] at hc
  split at hc
  · next b ha =>
    rcases callsOfDeploy_spec t.release b (t.ready r) with hnil | ⟨all, ss, hl, hperm, -, hsub⟩
    · rw [hnil] at hc
      cases hc
    · obtain ⟨s, hs, rfl⟩ := List.mem_map.1 (hsub.subset hc)
      have hlisted := ht.listed all hl s (changed_subset _ _ all (hperm.mem_iff.1 hs))
      refine ⟨hlisted.injected _, ?_, ?_⟩
      · intro _ _ he
        cases he
        exact Bool.eq_false_iff.2 fun hb => ht.executes (hb ▸ ha)
      · intro _ he
        cases he
  · rcases callsOfRollback_spec t.release (t.ready r) with hnil | ⟨all, ss, hl, hperm, hsub⟩
    · rw [hnil] at hc
      cases hc
    · obtain ⟨s, hs, rfl⟩ := List.mem_map.1 (hsub.subset hc)
      apply fits_rollbackCall
      rcases List.mem_append.1 (hperm.mem_iff.1 hs) with hs | hs
      · obtain ⟨id, -, record, hget, hto⟩ := mem_recordedMigrations.1 hs
        obtain ⟨u, hu, -, hf, -⟩ := h id record hget
        exact (hu.of_toMigration? hf hto).1
      · exact ht.listed all hl s (undone_snd_subset _ _ all hs)
  · cases hc

theorem agrees_run (ht : t.Fits d V) (h : r.Agrees d V) : (t.run r).Agrees d V := by
  have hready : (t.ready r).Agrees d V := h.congr rfl rfl
  have hsame := sameStore_run t r
  refine Agrees.congr ?_ hsame.history hsame.objects
  exact Call.runAll_preserves (fun c hc q hq => hq.run (fits_of_mem_calls ht h hc)) hready

theorem agrees_runAll (hts : ∀ t ∈ ts, t.Fits d V) (h : r.Agrees d V) :
    (runAll ts r).Agrees d V := by
  induction ts generalizing r with
  | nil => exact h
  | cons t ts ih =>
      obtain ⟨ht, hts⟩ := List.forall_mem_cons.1 hts
      exact ih hts (agrees_run ht h)

def Lists (t : Turn) (s : Script) : Prop :=
  ∃ all, t.release.listing = .ok all ∧ s ∈ all

/-- Whether some operation lists a migration with this schema and name. -/
def Migrates (ts : List Turn) (key : String) : Prop :=
  ∃ t ∈ ts, ∃ s, t.Lists s ∧ s.isMigration = true ∧ s.liveKey = key

/-- Whatever is done to an empty repository, as long as deployments run their scripts: every record
of a script without versions has a live object under the recorded schema and name, of the recorded
type and with the recorded hash. The scripts of all listings are of one database `d`, and no schema
and name is that of both a migration and a script without versions. -/
theorem liveObject?_of_recorded (clock database : String) {ts : List Turn} {d : String}
    (hlisted : ∀ t ∈ ts, ∀ s, t.Lists s →
      s.Regular ∧ s.database = d ∧ '.' ∉ s.database.toList ∧ '.' ∉ s.schema.toList)
    (hapart : ∀ t ∈ ts, ∀ s, t.Lists s → s.isMigration = false → ¬ Migrates ts s.liveKey)
    (hruns : ∀ t ∈ ts, t.action ≠ .deploy true) {key : String} {h : HistoryRecord}
    (hget : (runAll ts (.new clock database)).state.history.get? key = some h)
    (htype : h.objectType.isVersioned = false) :
    ∃ schema name o, Script.nameParts? h.objectName = some (d, schema, name) ∧
      (runAll ts (.new clock database)).liveObject? schema name = some o ∧
      o.schema = schema ∧ o.name = name ∧ o.objectType = h.objectType ∧
      contentHash o.ddl = h.deployedHash := by
  have hts : ∀ t ∈ ts, t.Fits d (Migrates ts) := by
    refine fun t ht => ⟨fun all hl s hs => ?_, hruns t ht⟩
    have hlists : t.Lists s := ⟨all, hl, hs⟩
    obtain ⟨hregular, hd, hdotless, hdotless'⟩ := hlisted t ht s hlists
    refine ⟨hregular, hd, hdotless, hdotless', ?_⟩
    constructor
    · intro hm
      exact ⟨t, ht, s, hlists, hm, rfl⟩
    · intro hmigrates
      cases hm : s.isMigration with
      | true => rfl
      | false => exact absurd hmigrates (hapart t ht s hlists hm)
  exact (agrees_runAll hts (agrees_new clock database)).exists_liveObject? hget htype

def rollbackToOneVersion : Turn :=
  ⟨oneVersion, .empty, "2024-01-02T00:00:00Z", .rollback⟩

def deployAndRollback : List Turn :=
  [deployTwoVersions, rollbackToOneVersion]

theorem liveKey_tableVersion (v : Nat) : (tableVersion v).liveKey = "S.T" := by
  change objectKey (upperText "S") (upperText "T") = "S.T"
  decide

theorem liveKey_viewOf (query : String) : (viewOf query).liveKey = "S.V" := by
  change objectKey (upperText "S") (upperText "V") = "S.V"
  decide

theorem lists_deployAndRollback {s : Script} (ht : t ∈ deployAndRollback) (hs : t.Lists s) :
    (∃ v ≤ 1, s = tableVersion v) ∨ ∃ query, s = viewOf query := by
  obtain ⟨all, hl, hs⟩ := hs
  simp only [deployAndRollback, List.mem_cons, List.not_mem_nil, or_false] at ht
  rcases ht with rfl | rfl
  · cases hl
    simp only [List.mem_cons, List.not_mem_nil, or_false] at hs
    rcases hs with rfl | rfl | rfl
    · exact .inl ⟨0, by decide, rfl⟩
    · exact .inl ⟨1, by decide, rfl⟩
    · exact .inr ⟨_, rfl⟩
  · cases hl
    simp only [List.mem_cons, List.not_mem_nil, or_false] at hs
    rcases hs with rfl | rfl
    · exact .inl ⟨0, by decide, rfl⟩
    · exact .inr ⟨_, rfl⟩

theorem migrates_deployAndRollback {key : String} (h : Migrates deployAndRollback key) :
    key = "S.T" := by
  obtain ⟨t, ht, s, hs, hm, rfl⟩ := h
  rcases lists_deployAndRollback ht hs with ⟨v, -, rfl⟩ | ⟨query, rfl⟩
  · exact liveKey_tableVersion v
  · cases hm

def rolledBackOnce : Repository :=
  runAll deployAndRollback (.new "2024-01-01T00:00:00Z" "DB")

theorem liveObject?_of_recorded_view :
    ∃ h schema name o, rolledBackOnce.state.history.get? "DB.S.V" = some h ∧
      rolledBackOnce.liveObject? schema name = some o ∧ o.objectType = h.objectType ∧
      contentHash o.ddl = h.deployedHash := by
  have hrecorded : (rolledBackOnce.state.history.get? "DB.S.V").any
      (!·.objectType.isVersioned) = true := by
    rw [rolledBackOnce, deployAndRollback, deployTwoVersions, twoVersions, rollbackToOneVersion,
      oneVersion, tableVersion_zero, tableVersion_one, viewOf_one, viewOf_two]
    decide +kernel
  obtain ⟨h, hget, htype⟩ := (Option.any_eq_true ..).1 hrecorded
  have hdatabase : '.' ∉ (upperText "DB").toList := by decide
  have hschema : '.' ∉ (upperText "S").toList := by decide
  have hlisted : ∀ t ∈ deployAndRollback, ∀ s, t.Lists s →
      s.Regular ∧ s.database = "DB" ∧ '.' ∉ s.database.toList ∧ '.' ∉ s.schema.toList := by
    intro t ht s hs
    rcases lists_deployAndRollback ht hs with ⟨v, hv, rfl⟩ | ⟨query, rfl⟩
    · exact ⟨regular_tableVersion (Nat.le_trans hv (by decide)), rfl, hdatabase, hschema⟩
    · exact ⟨regular_viewOf query, rfl, hdatabase, hschema⟩
  have hapart : ∀ t ∈ deployAndRollback, ∀ s, t.Lists s → s.isMigration = false →
      ¬ Migrates deployAndRollback s.liveKey := by
    intro t ht s hs hm hmigrates
    have hkey := migrates_deployAndRollback hmigrates
    rcases lists_deployAndRollback ht hs with ⟨v, -, rfl⟩ | ⟨query, rfl⟩
    · cases hm
    · rw [liveKey_viewOf] at hkey
      exact absurd hkey (by decide)
  have hruns : ∀ t ∈ deployAndRollback, t.action ≠ .deploy true := by
    simp [deployAndRollback, deployTwoVersions, rollbackToOneVersion]
  rw [rolledBackOnce] at hget ⊢
  obtain ⟨schema, name, o, -, hobject, -, -, ho, hhash⟩ := liveObject?_of_recorded
    "2024-01-01T00:00:00Z" "DB" hlisted hapart hruns hget (by simpa using htype)
  exact ⟨h, schema, name, o, hget, hobject, ho, hhash⟩

end Turn

end SchemaDeploy
