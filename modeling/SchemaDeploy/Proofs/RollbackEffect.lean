import SchemaDeploy.Proofs.RepeatedDeploy
import SchemaDeploy.Proofs.Turns

namespace SchemaDeploy

namespace Repository

def missing (r : Repository) (all : List Script) : List String :=
  r.state.history.keys.filter fun id =>
    r.holdsMigration id && !(all.map Script.id).contains id

end Repository

namespace Release

variable {l : Release} {r : Repository} {all ss : List Script} {s : Script}

theorem history_rollbackStep_of_ok (h : (l.rollbackStep s r).2 = .ok ()) :
    (s.isMigration = true → (l.rollbackStep s r).1.state.history = r.state.history.erase s.id) ∧
      (s.isMigration = false → (l.rollbackStep s r).1.state.history =
        r.state.history.insert s.id (r.record (l.injected s))) := by
  have hid : (l.injected s).id = s.id := injected_id l s
  have hkind : (l.injected s).isMigration = s.isMigration := injected_isMigration l s
  cases hm : s.isMigration with
  | true =>
      rw [hm] at hkind
      have hstep : l.rollbackStep s r = r.rollback (l.injected s) := if_pos hkind
      refine ⟨fun _ => ?_, fun hf => (by cases hf)⟩
      rw [hstep] at h ⊢
      rcases r.rollback_cases (l.injected s) with ⟨sql, hr⟩ | ⟨-, hr, -⟩
      · rw [hr] at h
        cases h
      · rw [hr, hid]
  | false =>
      rw [hm] at hkind
      have hstep : l.rollbackStep s r = r.deploy (l.injected s) false :=
        if_neg (Bool.eq_false_iff.1 hkind)
      refine ⟨fun hf => (by cases hf), fun _ => ?_⟩
      rw [hstep] at h ⊢
      cases hr : r.rejects (l.injected s) false with
      | true =>
          rw [Repository.deploy_of_rejects hr] at h
          cases h
      | false => rw [Repository.deploy_of_not_rejects hr, Repository.completed_history, hid]

theorem get?_history_rollbackSteps_of_not_mem {id : String} (h : id ∉ ss.map Script.id)
    (r : Repository) :
    (l.rollbackSteps ss r).1.state.history.get? id = r.state.history.get? id := by
  rw [rollbackSteps_eq_runAll]
  refine Call.get?_history_runAll_of_ne fun c hc he => h ?_
  obtain ⟨s, hs, rfl⟩ := List.mem_map.1 ((rollbackCalls_prefix_map ss r).subset hc)
  rw [he, rollbackCall_script, injected_id]
  exact List.mem_map_of_mem hs

theorem history_rollbackSteps_of_ok (hn : (ss.map Script.id).Nodup)
    (h : (l.rollbackSteps ss r).2 = .ok ()) : ∀ s ∈ ss,
      (s.isMigration = true → (l.rollbackSteps ss r).1.state.history.get? s.id = none) ∧
        (s.isMigration = false → ∃ record,
          (l.rollbackSteps ss r).1.state.history.get? s.id = some record ∧
            record.scriptHash = s.hash) := by
  induction ss generalizing r with
  | nil => simp
  | cons t ss ih =>
      rw [List.map_cons, List.nodup_cons] at hn
      rw [rollbackSteps] at h ⊢
      rcases hstep : l.rollbackStep t r with ⟨r', e | u⟩
      · rw [hstep] at h
        cases h
      · rw [hstep] at h
        dsimp only at h ⊢
        have heffect := history_rollbackStep_of_ok (congrArg Prod.snd hstep)
        rw [hstep] at heffect
        rintro s (_ | ⟨_, hs⟩)
        · rw [get?_history_rollbackSteps_of_not_mem hn.1]
          refine ⟨fun hm => ?_, fun hm => ?_⟩
          · rw [heffect.1 hm, Keyed.get?_erase, if_pos rfl]
          · rw [heffect.2 hm, Keyed.get?_insert, if_pos rfl]
            refine ⟨_, rfl, ?_⟩
            rw [Repository.record, injected_hash]
        · exact ih hn.2 h s hs

theorem rollback_of_ok {n : Nat} (h : (l.rollback r).2 = .ok n) : ∃ ss all syncs,
    l.listing = .ok all ∧ l.config.validateOverrides all = .ok () ∧
      ss.Perm ((l.undone (rollbackBegun r) all).1 ++ (l.undone (rollbackBegun r) all).2) ∧
      (l.rollbackSteps ss (rollbackBegun r)).2 = .ok () ∧ n = ss.length ∧
      (l.rollback r).1 = (l.rollbackSteps ss (rollbackBegun r)).1.withSyncs syncs := by
  obtain ⟨syncs, hb⟩ := rollback_eq l r
  rw [hb] at h ⊢
  obtain ⟨p, ho, hsteps, hn, hran⟩ := rollbackChanged_of_ok h
  obtain ⟨all, hl, hv, hperm⟩ := rollbackOrder_spec ho
  refine ⟨p.reverse, all, syncs, hl, hv, (List.reverse_perm p).trans hperm, hsteps, ?_, ?_⟩
  · rw [hn, List.length_reverse]
  · rw [hran]
    rfl

theorem rollback_of_undone_nil (hl : l.listing = .ok all)
    (hv : l.config.validateOverrides all = .ok ())
    (hu : l.undone (rollbackBegun r) all = ([], [])) :
    (l.rollback r).2 = .ok 0 ∧ ∃ syncs, (l.rollback r).1 = (rollbackBegun r).withSyncs syncs := by
  obtain ⟨syncs, hb⟩ := rollback_eq l r
  have hbegun : (r.startSync .rollback (ChangeType.rollback.word ++ " started.")).loadHashes =
      rollbackBegun r := rfl
  have horder : l.rollbackOrder (rollbackBegun r) = .ok [] := by
    simp only [rollbackOrder, checkedListing, hl, hv, hu, List.append_nil,
      Config.overridesWithin_nil]
    rfl
  have hrun : l.rollbackChanged (r.startSync .rollback (ChangeType.rollback.word ++ " started.")) =
      (rollbackBegun r, .ok 0) := by
    simp only [rollbackChanged, hbegun, horder]
    rfl
  rw [hb, hrun]
  exact ⟨rfl, syncs, rfl⟩

theorem mem_undone_snd : s ∈ (l.undone r all).2 ↔
    s ∈ l.included all ∧ r.isChanged s = true ∧ s.objectType.isVersioned = false := by
  simp only [undone, changed, List.mem_filter, Bool.not_eq_true', and_assoc]

theorem undone_snd_subset (l : Release) (r : Repository) (all : List Script) :
    (l.undone r all).2 ⊆ all :=
  fun _ hs => List.mem_of_mem_filter (mem_undone_snd.1 hs).1

theorem mem_undone_of_listed (hw : r.WellKept) (hn : (all.map Script.id).Nodup) {t : Script}
    (hs : s ∈ all) (hid : t.id = s.id)
    (ht : t ∈ (l.undone r.loadHashes all).1 ++ (l.undone r.loadHashes all).2) :
    s ∈ (l.undone r.loadHashes all).2 := by
  rcases List.mem_append.1 ht with ht | ht
  · have hnot := ((mem_map_id_undone hw).1 (List.mem_map_of_mem (f := Script.id) ht)).2
    exact absurd (hid ▸ List.mem_map_of_mem hs) hnot
  · cases List.inj_on_of_nodup_map hn (undone_snd_subset l _ all ht) hs hid
    exact ht

theorem nodup_ids_of_perm_undone (hw : r.WellKept) (hn : (all.map Script.id).Nodup)
    (hperm : ss.Perm ((l.undone r.loadHashes all).1 ++ (l.undone r.loadHashes all).2)) :
    (ss.map Script.id).Nodup := by
  rw [(hperm.map Script.id).nodup_iff, List.map_append, List.nodup_append]
  have hsub : (l.undone r.loadHashes all).2.Sublist all :=
    List.filter_sublist.trans (List.filter_sublist.trans List.filter_sublist)
  refine ⟨nodup_map_id_undone hw, hn.sublist (hsub.map _), ?_⟩
  rintro id hid _ hid' rfl
  exact ((mem_map_id_undone hw).1 hid).2 (hsub.map Script.id |>.subset hid')

theorem map_id_undone_perm (hw : r.WellKept) :
    ((l.undone r.loadHashes all).1.map Script.id).Perm (r.missing all) := by
  have hmissing : (r.missing all).Nodup := (Keyed.nodup_keys _).filter _
  rw [List.perm_ext_iff_of_nodup (nodup_map_id_undone hw) hmissing]
  intro id
  rw [mem_map_id_undone hw, Repository.missing, List.mem_filter, Keyed.mem_keys_iff]
  constructor
  · rintro ⟨hm, hid⟩
    obtain ⟨h, hget, -⟩ := Repository.holdsMigration_iff.1 hm
    exact ⟨⟨h, hget⟩, by simpa [hm] using hid⟩
  · rintro ⟨-, h⟩
    simpa using h

theorem length_undone_fst (hw : r.WellKept) :
    (l.undone r.loadHashes all).1.length = (r.missing all).length := by
  rw [← (map_id_undone_perm (l := l) hw).length_eq, List.length_map]

theorem undone_snd_eq (hreg : ∀ s ∈ all, s.Regular) : (l.undone r all).2 =
    (l.included all).filter fun s => !s.isMigration && r.isChanged s := by
  rw [undone, changed, List.filter_filter]
  apply List.filter_congr
  intro s hs
  rw [(hreg s (List.mem_of_mem_filter hs)).kind]

/-- The effect of a successful rollback: what is recorded is what is listed, and the records of
listed migrations are as they were. -/
structure Restored (l : Release) (r r' : Repository) (all : List Script) : Prop where
  listed : ∀ id, r'.holdsMigration id = true → id ∈ all.map Script.id
  kept : ∀ s ∈ all, s.isMigration = true →
    r'.state.history.get? s.id = r.state.history.get? s.id
  current : ∀ s ∈ l.included all, s.isMigration = false →
    ∃ h, r'.state.history.get? s.id = some h ∧ h.scriptHash = s.hash

theorem Restored.congr {r' q q' : Repository} (hr : Restored l r r' all)
    (hq : q.state.history = r.state.history) (hq' : q'.state.history = r'.state.history) :
    Restored l q q' all := by
  constructor
  case listed =>
    intro id hm
    rw [Repository.holdsMigration, hq'] at hm
    exact hr.listed id hm
  case kept =>
    rw [hq, hq']
    exact hr.kept
  case current =>
    rw [hq']
    exact hr.current

theorem restored_of_rollbackSteps (hw : r.WellKept) (hreg : ∀ s ∈ all, s.Regular)
    (hn : (all.map Script.id).Nodup)
    (hperm : ss.Perm ((l.undone r.loadHashes all).1 ++ (l.undone r.loadHashes all).2))
    (h : (l.rollbackSteps ss r.loadHashes).2 = .ok ()) :
    Restored l r (l.rollbackSteps ss r.loadHashes).1 all := by
  have heffect := history_rollbackSteps_of_ok (nodup_ids_of_perm_undone hw hn hperm) h
  have hsame {id : String} (hid : id ∉ ss.map Script.id) :
      (l.rollbackSteps ss r.loadHashes).1.state.history.get? id = r.state.history.get? id :=
    get?_history_rollbackSteps_of_not_mem hid r.loadHashes
  constructor
  case listed =>
    intro id hm
    -- A recorded migration that is not listed was recorded before, so it was undone.
    by_contra hlisted
    obtain ⟨record, hget, htype⟩ := Repository.holdsMigration_iff.1 hm
    have hmem : id ∈ ss.map Script.id := by
      by_contra hid
      rw [hsame hid] at hget
      have hm' := Repository.holdsMigration_iff.2 ⟨record, hget, htype⟩
      have hundone := (mem_map_id_undone (l := l) hw).2 ⟨hm', hlisted⟩
      rw [(hperm.map Script.id).mem_iff, List.map_append] at hid
      exact hid (List.mem_append_left _ hundone)
    obtain ⟨s, hs, rfl⟩ := List.mem_map.1 hmem
    rcases List.mem_append.1 (hperm.mem_iff.1 hs) with hundone | hback
    · rw [(heffect s hs).1 (regular_of_mem_undone hw hundone).2] at hget
      cases hget
    · exact hlisted (List.mem_map_of_mem (undone_snd_subset l _ all hback))
  case kept =>
    intro s hs hm
    apply hsame
    intro hid
    obtain ⟨t, ht, hts⟩ := List.mem_map.1 hid
    have hback := mem_undone_of_listed hw hn hs hts (hperm.mem_iff.1 ht)
    have htype := (mem_undone_snd.1 hback).2.2
    rw [← (hreg s hs).kind, hm] at htype
    cases htype
  case current =>
    intro s hs hm
    have hall := List.mem_of_mem_filter hs
    by_cases hid : s.id ∈ ss.map Script.id
    · obtain ⟨t, ht, hts⟩ := List.mem_map.1 hid
      have hback := mem_undone_of_listed hw hn hall hts (hperm.mem_iff.1 ht)
      exact (heffect s (hperm.mem_iff.2 (List.mem_append_right _ hback))).2 hm
    · rw [hsame hid]
      have hunchanged : r.loadHashes.isChanged s = false := by
        by_contra hchanged
        rw [Bool.not_eq_false] at hchanged
        have hback : s ∈ (l.undone r.loadHashes all).2 :=
          mem_undone_snd.2 ⟨hs, hchanged, (hreg s hall).kind ▸ hm⟩
        exact hid (List.mem_map_of_mem (hperm.mem_iff.2 (List.mem_append_right _ hback)))
      rw [Repository.isChanged, bne_eq_false_iff_eq] at hunchanged
      obtain ⟨record, hget, -, hhash⟩ :=
        (hw.filesUnder s.id).get?_hashes_eq_some_iff.1 hunchanged
      exact ⟨record, hget, hhash⟩

theorem Restored.isChanged {r' : Repository} (hr : Restored l r r' all) (hw : r'.WellKept)
    (hs : s ∈ l.included all) (hm : s.isMigration = false) :
    r'.loadHashes.isChanged s = false := by
  obtain ⟨h, hget, hhash⟩ := hr.current s hs hm
  rw [Repository.isChanged, hw.get?_hashes hget, hhash]
  exact bne_self_eq_false _

theorem Restored.undone_eq_nil {r' : Repository} (hr : Restored l r r' all) (hw : r'.WellKept)
    (hreg : ∀ s ∈ all, s.Regular) : l.undone r'.loadHashes all = ([], []) := by
  have hfst : (l.undone r'.loadHashes all).1 = [] := by
    rw [List.eq_nil_iff_forall_not_mem]
    intro m hm
    obtain ⟨hholds, hnot⟩ := (mem_map_id_undone hw).1 (List.mem_map_of_mem (f := Script.id) hm)
    exact hnot (hr.listed _ hholds)
  have hsnd : (l.undone r'.loadHashes all).2 = [] := by
    rw [undone_snd_eq hreg, List.filter_eq_nil_iff]
    intro s hs
    cases hm : s.isMigration with
    | true => simp
    | false => simp [hr.isChanged hw hs hm]
  exact Prod.ext hfst hsnd

theorem restored_of_rollback {n : Nat} (hw : r.WellKept) (hl : l.listing = .ok all)
    (hreg : ∀ s ∈ all, s.Regular) (hn : (all.map Script.id).Nodup)
    (h : (l.rollback r).2 = .ok n) : l.config.validateOverrides all = .ok () ∧
      Restored l r (l.rollback r).1 all ∧ n = (r.missing all).length +
        ((l.included all).filter fun s => !s.isMigration && r.loadHashes.isChanged s).length := by
  obtain ⟨ss, all', syncs, hl', hv, hperm, hsteps, hlength, hran⟩ := rollback_of_ok h
  cases hl.symm.trans hl'
  have hw' : (r.startSync .rollback (ChangeType.rollback.word ++ " started.")).WellKept :=
    hw.congr rfl
  refine ⟨hv, ?_, ?_⟩
  · refine (restored_of_rollbackSteps hw' hreg hn hperm hsteps).congr rfl ?_
    rw [hran]
    rfl
  · rw [hlength, hperm.length_eq, List.length_append, undone_snd_eq hreg]
    exact congrArg (· + _) (length_undone_fst hw')

theorem wellKept_rollback (hw : r.WellKept)
    (hreg : ∀ all, l.listing = .ok all → ∀ s ∈ all, s.Regular) : (l.rollback r).1.WellKept :=
  Turn.wellKept_run (t := ⟨l, r.failing, r.clock, .rollback⟩)
    (fun all hl s hs => (hreg all hl s hs).recordable) hw

/-- Whatever was done to an empty repository, with every script that can change by migrations listed
as a migration: after a successful rollback only listed migrations are recorded, their records are
as before, every other listed script that is not excluded is recorded as it is listed, and a second
rollback does nothing. The result counts the migrations that were recorded but not listed, and the
changed scripts without a version. -/
theorem rollback_restores_listing (clock database : String) {past : List Turn}
    (hpast : ∀ t ∈ past, t.ListsRecordable)
    (hr : r.state = (Turn.runAll past (.new clock database)).state) (hl : l.listing = .ok all)
    (hreg : ∀ s ∈ all, s.Regular) (hn : (all.map Script.id).Nodup) {n : Nat}
    (h : (l.rollback r).2 = .ok n) :
    let r' := (l.rollback r).1
    (∀ key record, r'.state.history.get? key = some record →
        record.objectType.isVersioned = true →
        record.scriptId = key ∧ key ∈ all.map Script.id) ∧
      (∀ s ∈ all, s.isMigration = true →
        r'.state.history.get? s.id = r.state.history.get? s.id) ∧
      (∀ s ∈ l.included all, s.isMigration = false →
        (∃ record, r'.state.history.get? s.id = some record ∧ record.scriptHash = s.hash) ∧
          r'.loadHashes.isChanged s = false) ∧
      n = (r.missing all).length +
        ((l.included all).filter fun s => !s.isMigration && r.loadHashes.isChanged s).length ∧
      (l.rollback r').2 = .ok 0 ∧ (l.rollback r').1.executions = r'.executions ∧
      (l.rollback r').1.state.history = r'.state.history := by
  intro r'
  have hw : r.WellKept := by
    have hstart := Repository.wellKept_new clock database
    exact (Turn.wellKept_runAll hpast hstart).congr (congrArg RepositoryState.history hr)
  have hw' : r'.WellKept := by
    refine wellKept_rollback hw fun all' hl' => ?_
    cases hl.symm.trans hl'
    exact hreg
  obtain ⟨hv, hrestored, hcount⟩ := restored_of_rollback hw hl hreg hn h
  refine ⟨?_, hrestored.kept, ?_, hcount, ?_⟩
  · intro key record hget htype
    obtain ⟨s, -, hs, hf⟩ := hw' key record hget
    exact ⟨hf.scriptId.trans hs,
      hrestored.listed key (Repository.holdsMigration_iff.2 ⟨record, hget, htype⟩)⟩
  · intro s hs hm
    exact ⟨hrestored.current s hs hm, hrestored.isChanged hw' hs hm⟩
  · have hnothing : l.undone (rollbackBegun r') all = ([], []) :=
      (hrestored.congr rfl rfl).undone_eq_nil (hw'.congr rfl) hreg
    obtain ⟨hzero, syncs, hagain⟩ := rollback_of_undone_nil hl hv hnothing
    rw [hzero, hagain]
    exact ⟨rfl, rfl, rfl⟩

def tableVersion (v : Nat) : Script :=
  .ofUnit "DB" "S" .table "T"
    ⟨v, none, "---version: " ++ toString v, some "ALTER TABLE DB.S.T DROP COLUMN B;", none⟩

def viewOf (query : String) : Script :=
  .state "DB" "S" .view "V" ("CREATE VIEW DB.S.V AS " ++ query)

theorem tableVersion_zero : tableVersion 0 = { tableVersion 0 with
    hash := "f16c7b35b4fdb2055e812545fee2f37d7a3a4c1905f22d7540ad2d0c9886eaa3" } := by
  decide +kernel

theorem tableVersion_one : tableVersion 1 = { tableVersion 1 with
    hash := "f45c2530ef04df16215efcab6366c8fb0fc8c296b9eae9ad0014b28d90dbf83e" } := by
  decide +kernel

theorem viewOf_one : viewOf "SELECT 1" = { viewOf "SELECT 1" with
    hash := "504537470960c799a3c8092be926d670ec0a1842331c8881a97637f3b6dfb9bd" } := by
  decide +kernel

theorem viewOf_two : viewOf "SELECT 2" = { viewOf "SELECT 2" with
    hash := "e94bab4c954849e5e6bc1a4989b2b19699c895a7becfe9492048fca655dcc34a" } := by
  decide +kernel

def twoVersions : Release :=
  ⟨.default, .empty, .ok [tableVersion 0, tableVersion 1, viewOf "SELECT 1"]⟩

def oneVersion : Release :=
  ⟨.default, .empty, .ok [tableVersion 0, viewOf "SELECT 2"]⟩

theorem regular_tableVersion {v : Nat} (hv : v ≤ Text.maxVersion) : (tableVersion v).Regular := by
  refine ⟨Script.isUpper_ofContent .., rfl, ?_⟩
  intro m hm
  cases hm
  exact hv

theorem regular_viewOf (query : String) : (viewOf query).Regular := by
  refine ⟨Script.isUpper_ofContent .., rfl, ?_⟩
  intro m hm
  cases hm

theorem fullName_tableVersion (v : Nat) : (tableVersion v).fullName = "DB.S.T" := by
  rw [tableVersion, Script.ofUnit, Script.fullName_ofContent]
  decide

theorem fullName_viewOf (query : String) : (viewOf query).fullName = "DB.S.V" := by
  rw [viewOf, Script.state, Script.fullName_ofContent]
  decide

theorem id_tableVersion_ne_viewOf (v : Nat) (query : String) :
    (tableVersion v).id ≠ (viewOf query).id := by
  intro h
  have hcolon : ':' ∈ (viewOf query).id.toList := by
    rw [← h, Script.id_of_migration rfl]
    simp
  have hid : (viewOf query).id = (viewOf query).fullName := rfl
  rw [hid, fullName_viewOf] at hcolon
  exact absurd hcolon (by decide)

def deployTwoVersions : Turn :=
  ⟨twoVersions, .empty, "2024-01-01T00:00:00Z", .deploy false⟩

def withTwoVersions : Repository :=
  Turn.runAll [deployTwoVersions] (.new "2024-01-01T00:00:00Z" "DB")

theorem listsRegular_deployTwoVersions : deployTwoVersions.ListsRegular := by
  intro all hl s hs
  cases hl
  rcases hs with _ | ⟨_, _ | ⟨_, hs⟩⟩
  · exact regular_tableVersion (by decide)
  · exact regular_tableVersion (by decide)
  · cases List.mem_singleton.1 hs
    exact regular_viewOf _

def rolledBack : Repository :=
  (oneVersion.rollback withTwoVersions).1

theorem regular_oneVersion : ∀ s ∈ [tableVersion 0, viewOf "SELECT 2"], s.Regular := by
  rintro s (_ | ⟨_, hs⟩)
  · exact regular_tableVersion (by decide)
  · cases List.mem_singleton.1 hs
    exact regular_viewOf _

theorem rollback_oneVersion_restores :
    (oneVersion.rollback withTwoVersions).2 = .ok 2 ∧
      (∀ s ∈ [tableVersion 0, viewOf "SELECT 2"], s.Regular) ∧
      ([tableVersion 0, viewOf "SELECT 2"].map Script.id).Nodup ∧
      (∀ key record, rolledBack.state.history.get? key = some record →
        record.objectType.isVersioned = true →
        record.scriptId = key ∧ key ∈ [tableVersion 0, viewOf "SELECT 2"].map Script.id) ∧
      (oneVersion.rollback rolledBack).2 = .ok 0 := by
  have hpast : ∀ t ∈ [deployTwoVersions], t.ListsRecordable := by
    intro t ht
    cases List.mem_singleton.1 ht
    exact listsRegular_deployTwoVersions.listsRecordable
  have hn : ([tableVersion 0, viewOf "SELECT 2"].map Script.id).Nodup := by
    have hne := id_tableVersion_ne_viewOf 0 "SELECT 2"
    simpa using hne
  have hok : (oneVersion.rollback withTwoVersions).2.toOption = some 2 := by
    rw [withTwoVersions, deployTwoVersions, twoVersions, oneVersion, tableVersion_zero,
      tableVersion_one, viewOf_one, viewOf_two]
    decide +kernel
  have hresult := eq_ok_of_toOption hok
  have hrun : Turn.runAll [deployTwoVersions] (.new "2024-01-01T00:00:00Z" "DB") =
      withTwoVersions := rfl
  have hrolled : (oneVersion.rollback withTwoVersions).1 = rolledBack := by
    rw [rolledBack]
  have hall := rollback_restores_listing "2024-01-01T00:00:00Z" "DB" hpast (by rw [hrun]) rfl
    regular_oneVersion hn hresult
  rw [hrolled] at hall
  obtain ⟨hlisted, -, -, -, hagain, -⟩ := hall
  exact ⟨hresult, regular_oneVersion, hn, hlisted, hagain⟩

def plainTable : Script :=
  .state "DB" "S" .table "T" "CREATE TABLE DB.S.T (A INT);"

theorem plainTable_eq : plainTable = { plainTable with
    hash := "19d646a6171facdb9038b555743b6221c922de5e0a92844f936c91e128679d56" } := by
  decide +kernel

def deployPlainTable : Turn :=
  ⟨⟨.default, .empty, .ok [plainTable]⟩, .empty, "2024-01-01T00:00:00Z", .deploy false⟩

/-- The record of a table that was deployed without a version is of no migration that can be undone,
so it stays. -/
theorem not_rollback_restores_listing :
    ¬ ∀ (clock database : String) (past : List Turn) (l : Release) (r : Repository)
      (all : List Script) (n : Nat),
      r.state = (Turn.runAll past (.new clock database)).state → l.listing = .ok all →
      (∀ s ∈ all, s.Regular) → (all.map Script.id).Nodup → (l.rollback r).2 = .ok n →
      ∀ key record, (l.rollback r).1.state.history.get? key = some record →
        record.objectType.isVersioned = true → key ∈ all.map Script.id := by
  intro h
  let l : Release := ⟨.default, .empty, .ok []⟩
  let r := Turn.runAll [deployPlainTable] (.new "2024-01-01T00:00:00Z" "DB")
  obtain ⟨hok, hkept⟩ : (l.rollback r).2.toOption = some 0 ∧
      ((l.rollback r).1.state.history.get? "DB.S.T").any (·.objectType.isVersioned) = true := by
    simp only [r, deployPlainTable]
    rw [plainTable_eq]
    decide +kernel
  obtain ⟨record, hget, htype⟩ := Option.any_eq_true .. |>.1 hkept
  have hmem := h "2024-01-01T00:00:00Z" "DB" [deployPlainTable] l r [] 0 rfl rfl (by simp) (by simp)
    (eq_ok_of_toOption hok) "DB.S.T" record hget htype
  cases hmem

end Release

end SchemaDeploy
