import SchemaDeploy.Proofs.RepositoryCalls
import SchemaDeploy.Proofs.UpperText

namespace SchemaDeploy

namespace Text

theorem le_ofDigitChars (n : Nat) (ds : List Char) : n ≤ Nat.ofDigitChars 10 ds n := by
  induction ds generalizing n with
  | nil => exact Nat.le_refl n
  | cons d ds ih =>
      rw [Nat.ofDigitChars_cons]
      refine Nat.le_trans ?_ (ih _)
      omega

theorem readDigits_eq_ok {n : Nat} {ds : List Char} (hd : ∀ c ∈ ds, c.isDigit = true)
    (hle : Nat.ofDigitChars 10 ds n ≤ maxVersion) :
    readDigits n ds = .ok (Nat.ofDigitChars 10 ds n) := by
  induction ds generalizing n with
  | nil => rfl
  | cons d ds ih =>
      obtain ⟨hdigit, hds⟩ := List.forall_mem_cons.1 hd
      rw [Nat.ofDigitChars_cons, Nat.mul_comm] at hle ⊢
      rw [readDigits, if_pos hdigit, if_pos (Nat.le_trans (le_ofDigitChars _ _) hle), ih hds hle]

theorem readDigits_le {n m : Nat} {ds : List Char} (hn : n ≤ maxVersion)
    (h : readDigits n ds = .ok m) : m ≤ maxVersion := by
  induction ds generalizing n with
  | nil =>
      cases h
      exact hn
  | cons d ds ih =>
      simp only [readDigits] at h
      split at h
      · split at h
        · next hle => exact ih hle h
        · cases h
      · cases h

theorem readNumber?_toDigits {n : Nat} (h : n ≤ maxVersion) :
    readNumber? (Nat.toDigits 10 n) = some n := by
  have hdigit : ∀ c ∈ Nat.toDigits 10 n, c.isDigit = true := fun c hc =>
    Nat.isDigit_of_mem_toDigits (by decide) (by decide) hc
  have hread : readDigits 0 (Nat.toDigits 10 n) = .ok n := by
    have hle : Nat.ofDigitChars 10 (Nat.toDigits 10 n) 0 ≤ maxVersion := by
      rwa [Nat.ofDigitChars_ten_toDigits]
    rw [readDigits_eq_ok hdigit hle, Nat.ofDigitChars_ten_toDigits]
  have hplus : '+' ∉ Nat.toDigits 10 n := fun hmem => by
    have hd := hdigit _ hmem
    cases hd
  cases hds : Nat.toDigits 10 n with
  | nil => exact absurd hds Nat.toDigits_ne_nil
  | cons d ds =>
      have hd : d ≠ '+' := by
        rintro rfl
        exact hplus (hds ▸ List.mem_cons_self)
      rw [hds] at hread
      rw [readNumber?]
      · rw [hread]
        rfl
      all_goals simp_all

theorem exists_span_of_mem {c : Char} {t : List Char} (h : c ∈ t) :
    ∃ s r, t.span (· ≠ c) = (s, c :: r) ∧ t = s ++ c :: r ∧ c ∉ s := by
  induction t with
  | nil => cases h
  | cons d t ih =>
      by_cases hd : d = c
      · subst hd
        exact ⟨[], t, by simp [List.span_eq_takeWhile_dropWhile], rfl, by simp⟩
      · obtain ⟨s, r, hspan, rfl, hs⟩ := ih ((List.mem_cons.1 h).resolve_left (Ne.symm hd))
        rw [List.span_eq_takeWhile_dropWhile, Prod.mk.injEq] at hspan
        refine ⟨d :: s, r, ?_, rfl, by simp [hs, Ne.symm hd]⟩
        simp only [List.span_eq_takeWhile_dropWhile]
        rw [List.takeWhile_cons_of_pos (by simpa using hd), hspan.1,
          List.dropWhile_cons_of_pos (by simpa using hd), hspan.2]

end Text

theorem afterLastColon?_append (s : List Char) {t : List Char} (ht : ':' ∉ t) :
    afterLastColon? (s ++ ':' :: t) = some t := by
  have hkeep : ∀ c ∈ t.reverse, decide (c ≠ ':') = true := fun c hc => by
    have hc' : c ∈ t := List.mem_reverse.1 hc
    simpa using fun he : c = ':' => ht (he ▸ hc')
  have hrev : (s ++ ':' :: t).reverse = t.reverse ++ ':' :: s.reverse := by simp
  rw [afterLastColon?, hrev, List.dropWhile_append_of_pos hkeep,
    List.takeWhile_append_of_pos hkeep]
  simp

namespace Script

theorem exists_nameParts? {t : String} (h : 2 ≤ t.toList.count '.') : ∃ a b c,
    nameParts? t = some (a, b, c) ∧ a ++ "." ++ b ++ "." ++ c = t := by
  obtain ⟨a, rest, hspan, ht, ha⟩ :=
    Text.exists_span_of_mem (List.count_pos_iff.1 (Nat.lt_of_lt_of_le Nat.two_pos h))
  rw [ht, List.count_append, List.count_eq_zero_of_not_mem ha, List.count_cons_self] at h
  obtain ⟨b, c, hspan', hrest, -⟩ := Text.exists_span_of_mem (t := rest) (c := '.')
    (List.count_pos_iff.1 (by omega))
  refine ⟨String.ofList a, String.ofList b, String.ofList c, ?_, ?_⟩
  · rw [nameParts?, hspan]
    dsimp only
    rw [hspan']
  · apply String.toList_injective
    simp [ht, hrest]

theorem two_le_count_fullName (s : Script) : 2 ≤ s.fullName.toList.count '.' := by
  simp only [fullName, String.toList_append, List.count_append]
  have hdot : ".".toList.count '.' = 1 := by decide
  omega

theorem fullName_ofContent (database schema : String) (objectType : ObjectType)
    (name content : String) (migration : Option Migration) :
    (ofContent database schema objectType name content migration).fullName =
      upperText (database ++ "." ++ schema ++ "." ++ name) := by
  have hdot : upperText "." = "." := by decide
  simp only [upperText_append, hdot]
  rfl

/-- A script as a project lists it: its names are in upper case, it is a migration exactly if its
type changes by migrations, and its version is a 64-bit number. -/
structure Regular (s : Script) : Prop where
  upper : s.IsUpper
  kind : s.isMigration = s.objectType.isVersioned
  version_le : ∀ m, s.migration = some m → m.version ≤ Text.maxVersion

theorem IsUpper.injected {s : Script} (h : s.IsUpper) (l : Release) : (l.injected s).IsUpper := by
  refine ⟨?_, ?_, ?_⟩
  · rw [Release.injected_database, h.database]
  · rw [Release.injected_schema, h.schema]
  · rw [Release.injected_name, h.name]

theorem version_le_injected {s : Script} {n : Nat}
    (h : ∀ m, s.migration = some m → m.version ≤ n) (l : Release) :
    ∀ m, (l.injected s).migration = some m → m.version ≤ n := by
  intro m hm
  rw [Release.injected_migration, Option.map_eq_some_iff] at hm
  obtain ⟨m', hm', rfl⟩ := hm
  exact h m' hm'

theorem Regular.injected {s : Script} (h : s.Regular) (l : Release) :
    (l.injected s).Regular := by
  constructor
  case upper => exact h.upper.injected l
  case kind => rw [Release.injected_isMigration, Release.injected_objectType, h.kind]
  case version_le => exact version_le_injected h.version_le l

/-- A script of which a record tells by its type whether it can be undone: one whose type changes by
migrations is a migration. -/
structure Recordable (s : Script) : Prop where
  upper : s.IsUpper
  kind : s.objectType.isVersioned = true → s.isMigration = true
  version_le : ∀ m, s.migration = some m → m.version ≤ Text.maxVersion

theorem Regular.recordable {s : Script} (h : s.Regular) : s.Recordable :=
  ⟨h.upper, fun hv => h.kind.trans hv, h.version_le⟩

theorem Recordable.regular {s : Script} (h : s.Recordable)
    (hv : s.objectType.isVersioned = true) : s.Regular :=
  ⟨h.upper, (h.kind hv).trans hv.symm, h.version_le⟩

theorem Recordable.injected {s : Script} (h : s.Recordable) (l : Release) :
    (l.injected s).Recordable := by
  constructor
  case upper => exact h.upper.injected l
  case kind =>
    rw [Release.injected_isMigration, Release.injected_objectType]
    exact h.kind
  case version_le => exact version_le_injected h.version_le l

theorem id_of_migration {s : Script} {m : Migration} (h : s.migration = some m) :
    s.id.toList = s.fullName.toList ++ ':' :: Nat.toDigits 10 m.version := by
  rw [id, h]
  simp

theorem id_of_not_isMigration {s : Script} (h : s.isMigration = false) : s.id = s.fullName := by
  rw [isMigration, Option.isSome_eq_false_iff, Option.isNone_iff_eq_none] at h
  rw [id, h]

theorem colon_not_mem_toDigits (n : Nat) : ':' ∉ Nat.toDigits 10 n := by
  intro hmem
  have hd := Nat.isDigit_of_mem_toDigits (by decide) (by decide) hmem
  cases hd

theorem fullName_and_version_eq_of_id_eq {s t : Script} {m m' : Migration}
    (hs : s.migration = some m) (ht : t.migration = some m') (h : s.id = t.id) :
    s.fullName = t.fullName ∧ m.version = m'.version := by
  have hid := congrArg String.toList h
  rw [id_of_migration hs, id_of_migration ht] at hid
  have hdigits := congrArg afterLastColon? hid
  rw [afterLastColon?_append _ (colon_not_mem_toDigits _),
    afterLastColon?_append _ (colon_not_mem_toDigits _), Option.some.injEq] at hdigits
  rw [hdigits] at hid
  have hnumber := congrArg (Nat.ofDigitChars 10 · 0) hdigits
  simp only [Nat.ofDigitChars_ten_toDigits] at hnumber
  exact ⟨String.toList_injective (List.append_cancel_right hid), hnumber⟩

end Script

theorem HistoryRecord.isVersioned_of_toMigration? {h : HistoryRecord} {m : Script}
    (hm : h.toMigration? = some m) : h.objectType.isVersioned = true := by
  by_contra hv
  simp [toMigration?, hv] at hm

theorem HistoryRecord.toMigration?_eq_none {h : HistoryRecord}
    (hv : h.objectType.isVersioned = false) : h.toMigration? = none := by
  simp [toMigration?, hv]

structure HistoryRecord.IsFor (h : HistoryRecord) (s : Script) : Prop where
  scriptId : h.scriptId = s.id
  objectName : h.objectName = s.fullName
  objectType : h.objectType = s.objectType

namespace HistoryRecord.IsFor

variable {h : HistoryRecord} {s : Script}

/-- What is rebuilt from the record of a migration keeps the type, the version and the rollback
statement; the parts of its name are read off the full name. -/
theorem toMigration?_eq (hf : h.IsFor s) (hs : s.Regular) {m : Migration}
    (hm : s.migration = some m) {a b c : String}
    (hparts : Script.nameParts? s.fullName = some (a, b, c)) : h.toMigration? =
      some (Script.ofUnit a b s.objectType c ⟨m.version, none, "", h.rollback, none⟩) := by
  have hversion : (afterLastColon? h.scriptId.toList).bind Text.readNumber? = some m.version := by
    rw [hf.scriptId, Script.id_of_migration hm,
      afterLastColon?_append _ (Script.colon_not_mem_toDigits _)]
    exact Text.readNumber?_toDigits (hs.version_le m hm)
  obtain ⟨t, ht, hv⟩ := Option.bind_eq_some_iff.1 hversion
  have htype : s.objectType.isVersioned = true := by
    rw [← hs.kind, Script.isMigration, hm]
    rfl
  simp [toMigration?, hf.objectName, hf.objectType, htype, ht, hv, hparts]

theorem exists_toMigration? (hf : h.IsFor s) (hs : s.Regular) (hm : s.isMigration = true) :
    ∃ m, h.toMigration? = some m ∧ m.id = s.id ∧ m.Regular ∧ m.isMigration = true := by
  obtain ⟨m, hsm⟩ := Option.isSome_iff_exists.1 hm
  obtain ⟨a, b, c, hparts, hname⟩ := Script.exists_nameParts? s.two_le_count_fullName
  refine ⟨_, hf.toMigration?_eq hs hsm hparts, ?_, ?_, rfl⟩
  · have hfull := Script.fullName_ofContent a b s.objectType c ""
      (some ⟨m.version, none, h.rollback, none⟩)
    rw [hname, hs.upper.fullName] at hfull
    rw [Script.id, Script.id, hsm]
    exact congrArg (· ++ ":" ++ toString m.version) hfull
  · refine ⟨Script.isUpper_ofContent .., hm.symm.trans hs.kind, ?_⟩
    intro m' hm'
    cases hm'
    exact hs.version_le m hsm

theorem toMigration?_eq_none (hf : h.IsFor s) (hs : s.Regular) (hm : s.isMigration = false) :
    h.toMigration? = none := by
  apply HistoryRecord.toMigration?_eq_none
  rw [hf.objectType, ← hs.kind, hm]

end HistoryRecord.IsFor

namespace Repository

def WellKept (r : Repository) : Prop :=
  ∀ key h, r.state.history.get? key = some h →
    ∃ s : Script, s.Recordable ∧ s.id = key ∧ h.IsFor s

def holdsMigration (r : Repository) (id : String) : Bool :=
  (r.state.history.get? id).any (·.objectType.isVersioned)

variable {r r' : Repository}

theorem mem_recordedMigrations {ids : Names} {m : Script} : m ∈ r.recordedMigrations ids ↔
    ∃ id ∈ ids.keys, ∃ h, r.state.history.get? id = some h ∧ h.toMigration? = some m := by
  rw [recordedMigrations, List.filterMap_filterMap, List.mem_filterMap]
  simp only [Option.bind_eq_some_iff]

theorem record_isFor (r : Repository) (s : Script) : (r.record s).IsFor s :=
  ⟨rfl, rfl, rfl⟩

theorem wellKept_new (clock database : String) : (new clock database).WellKept := by
  intro key h hget
  rw [new, RepositoryState.empty, Keyed.get?_empty] at hget
  cases hget

theorem WellKept.congr (hw : r.WellKept) (h : r'.state.history = r.state.history) :
    r'.WellKept := by
  rw [WellKept, h]
  exact hw

theorem WellKept.run (hw : r.WellKept) {c : Call} (hc : c.script.Recordable) :
    (c.run r).WellKept := by
  intro key h hget
  rcases c.run_history r with hr | ⟨s, b, rfl, hr⟩ | ⟨s, rfl, hr⟩
  · exact hw key h (hr ▸ hget)
  · rw [hr, Keyed.get?_insert] at hget
    split at hget
    · next hkey =>
      cases hget
      exact ⟨s, hc, hkey.symm, r.record_isFor s⟩
    · exact hw key h hget
  · rw [hr, Keyed.get?_erase] at hget
    split at hget
    · cases hget
    · exact hw key h hget

theorem WellKept.runAll (hw : r.WellKept) {cs : List Call} (hcs : ∀ c ∈ cs, c.script.Recordable) :
    (Call.runAll cs r).WellKept :=
  Call.runAll_preserves (fun c hc _ h => h.run (hcs c hc)) hw

theorem WellKept.filesUnder (hw : r.WellKept) (id : String) : r.FilesUnder id := by
  intro key h hget hid
  obtain ⟨s, -, hs, hf⟩ := hw key h hget
  rw [← hs, ← hf.scriptId, hid]

theorem WellKept.get?_hashes (hw : r.WellKept) {id : String} {h : HistoryRecord}
    (hget : r.state.history.get? id = some h) :
    r.loadHashes.hashes.get? id = some h.scriptHash := by
  obtain ⟨s, -, hs, hf⟩ := hw id h hget
  exact (hw.filesUnder id).get?_hashes_eq_some_iff.2 ⟨h, hget, hf.scriptId.trans hs, rfl⟩

theorem WellKept.isDeployed (hw : r.WellKept) {s : Script} {h : HistoryRecord}
    (hget : r.state.history.get? s.id = some h) : r.loadHashes.isDeployed s = true := by
  rw [Repository.isDeployed, Keyed.contains_eq_isSome, hw.get?_hashes hget]
  rfl

theorem WellKept.mem_keys_hashes (hw : r.WellKept) {id : String} :
    id ∈ r.loadHashes.hashes.keys ↔ ∃ h, r.state.history.get? id = some h := by
  rw [Repository.mem_keys_hashes]
  constructor
  · rintro ⟨key, h, hget, hid⟩
    exact ⟨h, hw.filesUnder id key h hget hid ▸ hget⟩
  · rintro ⟨h, hget⟩
    obtain ⟨s, -, hs, hf⟩ := hw id h hget
    exact ⟨id, h, hget, hf.scriptId.trans hs⟩

theorem WellKept.toMigration?_map_id (hw : r.WellKept) (id : String) :
    ((r.state.history.get? id).bind HistoryRecord.toMigration?).map Script.id =
      if r.holdsMigration id then some id else none := by
  rw [holdsMigration]
  cases hget : r.state.history.get? id with
  | none => rfl
  | some h =>
      obtain ⟨s, hs, rfl, hf⟩ := hw id h hget
      rw [Option.bind_some, Option.any_some]
      cases hv : h.objectType.isVersioned with
      | true =>
          have hregular := hs.regular (hf.objectType ▸ hv)
          obtain ⟨m, hto, hid, -⟩ :=
            hf.exists_toMigration? hregular (hs.kind (hf.objectType ▸ hv))
          rw [hto, Option.map_some, hid]
          rfl
      | false =>
          rw [HistoryRecord.toMigration?_eq_none hv]
          rfl

theorem WellKept.map_id_recordedMigrations (hw : r.WellKept) (ids : Names) :
    (r.recordedMigrations ids).map Script.id = ids.keys.filter r.holdsMigration := by
  rw [recordedMigrations, List.filterMap_filterMap, List.map_filterMap, ← List.filterMap_eq_filter]
  apply List.filterMap_congr
  intro id _
  rw [hw.toMigration?_map_id]
  rfl

theorem WellKept.regular_of_mem_recordedMigrations (hw : r.WellKept) {ids : Names} {m : Script}
    (hm : m ∈ r.recordedMigrations ids) : m.Regular ∧ m.isMigration = true := by
  obtain ⟨id, -, h, hget, hto⟩ := mem_recordedMigrations.1 hm
  obtain ⟨s, hs, -, hf⟩ := hw id h hget
  have hv := HistoryRecord.isVersioned_of_toMigration? hto
  rw [hf.objectType] at hv
  obtain ⟨m', hto', -, hm'⟩ := hf.exists_toMigration? (hs.regular hv) (hs.kind hv)
  cases hto.symm.trans hto'
  exact hm'

theorem holdsMigration_iff {id : String} : r.holdsMigration id = true ↔
    ∃ h, r.state.history.get? id = some h ∧ h.objectType.isVersioned = true :=
  Option.any_eq_true ..

end Repository

namespace Release

variable {l : Release} {r : Repository} {all : List Script}

theorem mem_keys_removedIds_iff {id : String} :
    id ∈ (removedIds r all).keys ↔ id ∈ r.hashes.keys ∧ id ∉ all.map Script.id := by
  rw [removedIds, Keyed.mem_keys_iff, ← Keyed.mem_keys_ofNames, Keyed.mem_keys_iff]
  simp only [Keyed.get?_foldl_erase]
  split <;> simp_all

theorem mem_keys_removedIds (hw : r.WellKept) {id : String} :
    id ∈ (removedIds r.loadHashes all).keys ↔
      (∃ h, r.state.history.get? id = some h) ∧ id ∉ all.map Script.id := by
  rw [mem_keys_removedIds_iff, hw.mem_keys_hashes]

theorem mem_map_id_undone (hw : r.WellKept) {id : String} :
    id ∈ (l.undone r.loadHashes all).1.map Script.id ↔
      r.holdsMigration id = true ∧ id ∉ all.map Script.id := by
  have hw' : r.loadHashes.WellKept := hw.congr rfl
  rw [undone, hw'.map_id_recordedMigrations, List.mem_filter, mem_keys_removedIds hw]
  constructor
  · rintro ⟨⟨-, hid⟩, hm⟩
    exact ⟨hm, hid⟩
  · rintro ⟨hm, hid⟩
    obtain ⟨h, hget, -⟩ := Repository.holdsMigration_iff.1 hm
    exact ⟨⟨⟨h, hget⟩, hid⟩, hm⟩

theorem nodup_map_id_undone (hw : r.WellKept) :
    ((l.undone r.loadHashes all).1.map Script.id).Nodup := by
  have hw' : r.loadHashes.WellKept := hw.congr rfl
  rw [undone, hw'.map_id_recordedMigrations]
  exact (Keyed.nodup_keys _).filter _

theorem regular_of_mem_undone (hw : r.WellKept) {m : Script}
    (hm : m ∈ (l.undone r.loadHashes all).1) : m.Regular ∧ m.isMigration = true :=
  Repository.WellKept.regular_of_mem_recordedMigrations (hw.congr rfl) hm

end Release

end SchemaDeploy
