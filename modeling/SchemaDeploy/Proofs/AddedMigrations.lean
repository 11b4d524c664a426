import SchemaDeploy.Proofs.LiveObjects
import SchemaDeploy.Proofs.RollbackEffect

namespace SchemaDeploy

/-- The key of the object that is dropped for a migration. The migration is rebuilt from its record,
so schema and name are read off the full name. -/
def Script.droppedKey? (s : Script) : Option String :=
  (nameParts? s.fullName).map fun (_, schema, name) =>
    Repository.objectKey (upperText schema) (upperText name)

namespace Repository

variable {r r' : Repository} {l : Release} {done : List Script}

/-- The history of `r'` is that of `r` with a record of every script that a release has run. -/
structure Extends (l : Release) (r r' : Repository) (done : List Script) : Prop where
  of_mem : ∀ s ∈ done, ∃ t ∈ done, t.id = s.id ∧ ∃ h, r'.state.history.get? s.id = some h ∧
    h.IsFor (l.injected t) ∧ h.rollback = (l.injected t).migration.bind (·.rollback)
  of_not_mem : ∀ id, id ∉ done.map Script.id →
    r'.state.history.get? id = r.state.history.get? id

theorem extends_of_completedAll {b : Bool}
    (h : r'.state.history = (r.completedAll (done.map l.injected) b).state.history) :
    Extends l r r' done := by
  have hids : (done.map l.injected).map Script.id = done.map Script.id := by
    rw [List.map_map]
    exact List.map_congr_left fun s _ => Release.injected_id l s
  constructor
  case of_mem =>
    intro s hs
    have hid : s.id ∈ (done.map l.injected).map Script.id := hids ▸ List.mem_map_of_mem hs
    obtain ⟨u, hu, hus, hget⟩ := exists_get?_history_of_mem hid r b
    obtain ⟨t, ht, rfl⟩ := List.mem_map.1 hu
    rw [Release.injected_id] at hus
    exact ⟨t, ht, hus, _, h ▸ hget, r.record_isFor _, rfl⟩
  case of_not_mem =>
    intro id hid
    rw [h]
    exact get?_history_of_not_mem (hids ▸ hid) r b

theorem Extends.isChanged (he : Extends l r r' done)
    (hnew : ∀ s ∈ done, r.state.history.get? s.id = none) {s : Script}
    (hs : s.id ∉ done.map Script.id) : r'.loadHashes.isChanged s = r.loadHashes.isChanged s := by
  rw [Repository.isChanged, Repository.isChanged]
  apply congrArg (· != some s.hash)
  apply get?_hashes_congr
  intro key record hid
  by_cases hkey : key ∈ done.map Script.id
  · -- A new record stands where there was none, and it is not of `s`.
    obtain ⟨t, ht, rfl⟩ := List.mem_map.1 hkey
    obtain ⟨u, hu, -, h, hget, hf, -⟩ := he.of_mem t ht
    rw [hget, hnew t ht]
    constructor
    · intro hr
      cases hr
      rw [hf.scriptId, Release.injected_id] at hid
      exact absurd (hid ▸ List.mem_map_of_mem hu) hs
    · intro hr
      cases hr
  · rw [he.of_not_mem key hkey]

end Repository

namespace Release

open Repository

variable {l : Release} {r r' : Repository} {all all' added done ss : List Script}

def withListing (l : Release) (all : List Script) : Release :=
  { l with listing := .ok all }

/-- A listing that is recorded: it has no changed script, and no recorded migration is missing. -/
structure UpToDate (l : Release) (r : Repository) (all : List Script) : Prop where
  unchanged : ∀ s ∈ l.included all, r.loadHashes.isChanged s = false
  listed : ∀ id, r.holdsMigration id = true → id ∈ all.map Script.id

/-- Migrations whose ids are neither listed nor recorded. -/
structure AreNew (r : Repository) (all added : List Script) : Prop where
  regular : ∀ s ∈ added, s.Regular
  isMigration : ∀ s ∈ added, s.isMigration = true
  not_listed : ∀ s ∈ added, s.id ∉ all.map Script.id
  not_recorded : ∀ s ∈ added, r.state.history.get? s.id = none

theorem AreNew.subset (h : AreNew r all added) (hsub : done ⊆ added) : AreNew r all done :=
  ⟨fun s hs => h.regular s (hsub hs), fun s hs => h.isMigration s (hsub hs),
    fun s hs => h.not_listed s (hsub hs), fun s hs => h.not_recorded s (hsub hs)⟩

theorem UpToDate.changed_perm (hu : l.UpToDate r all) (hall : all'.Perm (all ++ added)) :
    (l.changed r.loadHashes all').Perm (l.changed r.loadHashes added) := by
  have hnone : l.changed r.loadHashes all = [] := by
    rw [changed, List.filter_eq_nil_iff]
    intro s hs
    simp [hu.unchanged s hs]
  have hperm : (l.changed r.loadHashes all').Perm (l.changed r.loadHashes (all ++ added)) :=
    (hall.filter _).filter _
  have hsplit : l.changed r.loadHashes (all ++ added) =
      l.changed r.loadHashes all ++ l.changed r.loadHashes added := by
    simp only [changed, included, List.filter_append]
  rwa [hsplit, hnone, List.nil_append] at hperm

theorem upToDate_of_deploy {b : Bool} {n : Nat} (hl : l.listing = .ok all)
    (hids : (all.map Script.id).Nodup) (hf : ∀ s ∈ all, r.FilesUnder s.id)
    (hlisted : ∀ id, r.holdsMigration id = true → id ∈ all.map Script.id)
    (h : (l.deploy b r).2 = .ok n) : l.UpToDate (l.deploy b r).1 all := by
  obtain ⟨-, done, hperm, hr⟩ := records_of_deploy_ok hl hids h
  have hsub : done ⊆ all := fun s hs => changed_subset l _ all (hperm.mem_iff.1 hs)
  constructor
  case unchanged =>
    intro s hs
    by_contra hchanged
    rw [Bool.not_eq_false] at hchanged
    have hmem := List.mem_filter.2 ⟨hs, hchanged⟩
    rw [← changed, changed_of_records hf hr hids hsub, List.mem_filter] at hmem
    have hdone := List.mem_map_of_mem (f := Script.id) (hperm.mem_iff.2 hmem.1)
    simp [hdone] at hmem
  case listed =>
    intro id hm
    by_cases hid : id ∈ done.map Script.id
    · exact List.map_subset Script.id hsub hid
    · rw [holdsMigration, hr.of_not_mem id hid] at hm
      exact hlisted id hm

/-- The statement that undoes a migration. Parameters are put in when it is recorded, and once more
when it is rolled back. -/
def undoStatement? (l : Release) (s : Script) : Option String :=
  statement? ((s.migration.bind (·.rollback)).map fun t =>
    l.parameters.inject (l.parameters.inject t))

/-- Whether `m` is the migration `s` as its record gives it back. -/
structure Rebuilds (l : Release) (s m : Script) : Prop where
  isMigration : m.isMigration = true
  id : m.id = s.id
  version : m.version = s.version
  liveKey : s.droppedKey? = some m.liveKey
  statement : statement? ((l.injected m).migration.bind (·.rollback)) = l.undoStatement? s

theorem rebuilds_of_isFor {s m : Script} {h : HistoryRecord} (hs : s.Regular)
    (hm : s.isMigration = true) (hf : h.IsFor (l.injected s))
    (hrollback : h.rollback = (l.injected s).migration.bind (·.rollback))
    (hto : h.toMigration? = some m) : l.Rebuilds s m := by
  have hm' : (l.injected s).isMigration = true := (injected_isMigration l s).trans hm
  obtain ⟨u, hu⟩ := Option.isSome_iff_exists.1 hm'
  obtain ⟨a, b, c, hparts, -⟩ := Script.exists_nameParts? (l.injected s).two_le_count_fullName
  obtain ⟨m', hto', hid, -, hmigration⟩ := hf.exists_toMigration? (hs.injected l) hm'
  cases hto.symm.trans hto'
  have heq := hf.toMigration?_eq (hs.injected l) hu hparts
  obtain rfl := Option.some.inj (hto.symm.trans heq)
  constructor
  case isMigration => exact hmigration
  case id => exact hid.trans (injected_id l s)
  case version =>
    have hv : (l.injected s).version = some u.version := by
      rw [Script.version, hu]
      rfl
    rw [← injected_version l s, hv]
    rfl
  case liveKey =>
    rw [Script.droppedKey?, ← injected_fullName l s, hparts]
    rfl
  case statement =>
    -- The recorded statement has its parameters put in already; `l.injected m` does it again.
    rw [injected_rollback] at hrollback
    rw [undoStatement?, injected_rollback]
    change statement? (h.rollback.map l.parameters.inject) = _
    rw [hrollback, Option.map_map]
    rfl

section Undone

variable (hu : l.UpToDate r all) (hn : AreNew r all done) (he : Extends l r r' done)
include hu hn he

theorem exists_rebuilds_of_mem_undone {m : Script} (hm : m ∈ (l.undone r'.loadHashes all).1) :
    ∃ s ∈ done, l.Rebuilds s m := by
  obtain ⟨id, hid, h, hget, hto⟩ := mem_recordedMigrations.1 hm
  have hget' : r'.state.history.get? id = some h := hget
  by_cases hmem : id ∈ done.map Script.id
  · obtain ⟨s, hs, rfl⟩ := List.mem_map.1 hmem
    obtain ⟨t, ht, -, h', hrecord, hf, hrollback⟩ := he.of_mem s hs
    cases hget'.symm.trans hrecord
    exact ⟨t, ht, rebuilds_of_isFor (hn.regular t ht) (hn.isMigration t ht) hf hrollback hto⟩
  · -- A migration that was recorded before is listed, so it is not undone.
    rw [he.of_not_mem id hmem] at hget'
    have hholds := holdsMigration_iff.2 ⟨h, hget', h.isVersioned_of_toMigration? hto⟩
    exact absurd (hu.listed id hholds) (mem_keys_removedIds_iff.1 hid).2

omit hu in
theorem exists_mem_undone {s : Script} (hs : s ∈ done) :
    ∃ m ∈ (l.undone r'.loadHashes all).1, m.id = s.id := by
  obtain ⟨t, ht, hts, h, hget, hf, -⟩ := he.of_mem s hs
  have hm : (l.injected t).isMigration = true := by
    rw [injected_isMigration, hn.isMigration t ht]
  obtain ⟨m, hto, hid, -⟩ := hf.exists_toMigration? ((hn.regular t ht).injected l) hm
  have hscript : h.scriptId = s.id := by rw [hf.scriptId, injected_id, hts]
  refine ⟨m, mem_recordedMigrations.2 ⟨s.id, ?_, h, hget, hto⟩, ?_⟩
  · exact mem_keys_removedIds_iff.2
      ⟨Repository.mem_keys_hashes.2 ⟨s.id, h, hget, hscript⟩, hn.not_listed s hs⟩
  · rw [hid, injected_id, hts]

theorem undone_snd_eq_nil : (l.undone r'.loadHashes all).2 = [] := by
  rw [List.eq_nil_iff_forall_not_mem]
  intro s hs
  obtain ⟨hincluded, hchanged, -⟩ := mem_undone_snd.1 hs
  have hid : s.id ∉ done.map Script.id := by
    intro hmem
    obtain ⟨t, ht, hts⟩ := List.mem_map.1 hmem
    exact hn.not_listed t ht (hts ▸ List.mem_map_of_mem (List.mem_of_mem_filter hincluded))
  -- The new records are of other scripts, so `s` is as unchanged as it was before.
  rw [he.isChanged hn.not_recorded hid, hu.unchanged s hincluded] at hchanged
  cases hchanged

end Undone

theorem rollbackSteps_eq_foldl {β : Type} {f : Repository → β} {g : β → Script → β}
    (hstep : ∀ s ∈ ss, ∀ r, (l.rollbackStep s r).2 = .ok () →
      f (l.rollbackStep s r).1 = g (f r) s)
    (h : (l.rollbackSteps ss r).2 = .ok ()) : f (l.rollbackSteps ss r).1 = ss.foldl g (f r) := by
  induction ss generalizing r with
  | nil => rfl
  | cons s ss ih =>
      obtain ⟨hs, hss⟩ := List.forall_mem_cons.1 hstep
      rw [rollbackSteps] at h ⊢
      rcases hr : l.rollbackStep s r with ⟨r', e | u⟩
      · rw [hr] at h
        cases h
      · have hone := hs r (congrArg Prod.snd hr)
        rw [hr] at h hone
        rw [List.foldl_cons, ← hone]
        exact ih hss h

theorem get?_history_rollbackSteps_of_migrations (hm : ∀ m ∈ ss, m.isMigration = true)
    (h : (l.rollbackSteps ss r).2 = .ok ()) (id : String) :
    (l.rollbackSteps ss r).1.state.history.get? id =
      if id ∈ ss.map Script.id then none else r.state.history.get? id := by
  have hfold := rollbackSteps_eq_foldl (f := fun q => q.state.history)
    (g := fun m s => m.erase s.id)
    (fun s hs r hok => (history_rollbackStep_of_ok hok).1 (hm s hs)) h
  rw [hfold, ← List.foldl_map, Keyed.get?_foldl_erase]

/-- A rollback after a deployment that added migrations to a recorded listing has undone all that
were run, and nothing else. -/
theorem rollback_of_extends {n : Nat} (hl : l.listing = .ok all) (hu : l.UpToDate r all)
    (hn : AreNew r all done) (he : Extends l r r' done) (h : (l.rollback r').2 = .ok n) :
    ∃ (ss : List Script) (syncs : List ChangeSync),
      ss.Perm (l.undone r'.loadHashes all).1 ∧ (l.rollbackSteps ss (rollbackBegun r')).2 = .ok () ∧
        (l.rollback r').1 = (l.rollbackSteps ss (rollbackBegun r')).1.withSyncs syncs := by
  obtain ⟨ss, all', syncs, hl', -, hperm, hsteps, -, hran⟩ := rollback_of_ok h
  cases hl.symm.trans hl'
  have hundone : l.undone (rollbackBegun r') all = l.undone r'.loadHashes all := rfl
  rw [hundone, undone_snd_eq_nil hu hn he, List.append_nil] at hperm
  exact ⟨ss, syncs, hperm, hsteps, hran⟩

theorem history_eq_of_extends {n : Nat} (hl : l.listing = .ok all) (hu : l.UpToDate r all)
    (hn : AreNew r all done) (he : Extends l r r' done) (h : (l.rollback r').2 = .ok n) :
    (l.rollback r').1.state.history = r.state.history := by
  obtain ⟨ss, syncs, hperm, hsteps, hran⟩ := rollback_of_extends hl hu hn he h
  have hrebuilds : ∀ m ∈ ss, ∃ s ∈ done, l.Rebuilds s m := fun m hm =>
    exists_rebuilds_of_mem_undone hu hn he (hperm.mem_iff.1 hm)
  have hm : ∀ m ∈ ss, m.isMigration = true := by
    intro m hm
    obtain ⟨s, -, hr⟩ := hrebuilds m hm
    exact hr.isMigration
  have hids (id : String) : id ∈ ss.map Script.id ↔ id ∈ done.map Script.id := by
    constructor
    · intro hid
      obtain ⟨m, hm, rfl⟩ := List.mem_map.1 hid
      obtain ⟨s, hs, hr⟩ := hrebuilds m hm
      exact hr.id ▸ List.mem_map_of_mem hs
    · intro hid
      obtain ⟨s, hs, rfl⟩ := List.mem_map.1 hid
      obtain ⟨m, hm, hms⟩ := exists_mem_undone hn he hs
      exact hms ▸ List.mem_map_of_mem (hperm.mem_iff.2 hm)
  apply Keyed.ext_get?
  intro id
  rw [hran, withSyncs_history, get?_history_rollbackSteps_of_migrations hm hsteps]
  by_cases hid : id ∈ done.map Script.id
  · obtain ⟨s, hs, rfl⟩ := List.mem_map.1 hid
    rw [if_pos ((hids s.id).2 hid), hn.not_recorded s hs]
  · rw [if_neg (hid ∘ (hids id).1)]
    exact he.of_not_mem id hid

theorem exists_extends_of_deploy {b : Bool} {n : Nat} (hu : l.UpToDate r all)
    (hall : all'.Perm (all ++ added)) (h : ((l.withListing all').deploy b r).2 = .ok n)
    (hr' : r'.state.history = ((l.withListing all').deploy b r).1.state.history) :
    ∃ (done : List Script) (syncs : List ChangeSync),
      done.Perm (l.changed r.loadHashes added) ∧ Extends l r r' done ∧
        ((l.withListing all').deploy b r).1 =
          ((begun r).completedAll (done.map l.injected) b).withSyncs syncs := by
  obtain ⟨listed, done, syncs, hl, -, hperm, -, hd⟩ := completed_of_deploy_ok h
  cases hl
  rw [hd, withSyncs_history] at hr'
  have he := extends_of_completedAll (r := begun r) hr'
  exact ⟨done, syncs, hperm.trans (hu.changed_perm hall), ⟨he.of_mem, he.of_not_mem⟩, hd⟩

/-- Where a listing is recorded, a deployment of it with new migrations and a rollback to it give
back the whole history. -/
theorem history_rollback_deploy {b : Bool} {n k : Nat} (hl : l.listing = .ok all)
    (hu : l.UpToDate r all) (hn : AreNew r all added) (hall : all'.Perm (all ++ added))
    (hd : ((l.withListing all').deploy b r).2 = .ok n)
    (hr' : r'.state.history = ((l.withListing all').deploy b r).1.state.history)
    (h : (l.rollback r').2 = .ok k) : (l.rollback r').1.state.history = r.state.history := by
  obtain ⟨done, -, hperm, he, -⟩ := exists_extends_of_deploy hu hall hd hr'
  have hsub : done ⊆ added := fun s hs => changed_subset l _ added (hperm.mem_iff.1 hs)
  exact history_eq_of_extends hl hu (hn.subset hsub) he h

def listedOnce : List Script :=
  [tableVersion 0, viewOf "SELECT 2"]

def withOneVersion : Repository :=
  (oneVersion.deploy false (.new "2024-01-01T00:00:00Z" "DB")).1

theorem upToDate_withOneVersion : oneVersion.UpToDate withOneVersion listedOnce := by
  have hids : (listedOnce.map Script.id).Nodup := by
    simpa [listedOnce] using id_tableVersion_ne_viewOf 0 "SELECT 2"
  have hok : (oneVersion.deploy false (.new "2024-01-01T00:00:00Z" "DB")).2.toOption = some 2 := by
    decide +kernel
  refine upToDate_of_deploy rfl hids (fun s _ => filesUnder_new _ _ s.id) ?_ (eq_ok_of_toOption hok)
  intro id hm
  obtain ⟨h, hget, -⟩ := holdsMigration_iff.1 hm
  rw [new, RepositoryState.empty, Keyed.get?_empty] at hget
  cases hget

theorem areNew_secondVersion : AreNew withOneVersion listedOnce [tableVersion 1] := by
  constructor
  case regular =>
    intro s hs
    cases List.mem_singleton.1 hs
    exact regular_tableVersion (by decide)
  case isMigration =>
    intro s hs
    cases List.mem_singleton.1 hs
    rfl
  case not_listed => decide +kernel
  case not_recorded => decide +kernel

def secondVersion : Release :=
  oneVersion.withListing (listedOnce ++ [tableVersion 1])

def withSecondVersion : Repository :=
  (secondVersion.deploy false withOneVersion).1

theorem history_rollback_secondVersion :
    (secondVersion.deploy false withOneVersion).2 = .ok 1 ∧
      (oneVersion.rollback withSecondVersion).2 = .ok 1 ∧
      (oneVersion.rollback withSecondVersion).1.state.history = withOneVersion.state.history := by
  obtain ⟨hd, hr⟩ : (secondVersion.deploy false withOneVersion).2.toOption = some 1 ∧
      (oneVersion.rollback withSecondVersion).2.toOption = some 1 := by
    rw [withSecondVersion, secondVersion, withOneVersion, listedOnce, oneVersion, tableVersion_zero,
      tableVersion_one, viewOf_two]
    decide +kernel
  have hdeployed : withSecondVersion.state.history =
      (secondVersion.deploy false withOneVersion).1.state.history := by
    rw [withSecondVersion]
  have hd' := eq_ok_of_toOption hd
  have hr' := eq_ok_of_toOption hr
  have hl : oneVersion.listing = .ok listedOnce := rfl
  refine ⟨hd', hr', ?_⟩
  rw [secondVersion] at hd' hdeployed
  exact history_rollback_deploy hl upToDate_withOneVersion areNew_secondVersion (.refl _) hd'
    hdeployed hr'

end Release

end SchemaDeploy
