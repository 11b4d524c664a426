import SchemaDeploy.Proofs.AddedMigrations
import SchemaDeploy.Proofs.LiveObjects

namespace SchemaDeploy

namespace Release

open Repository

variable {l : Release} {r r' : Repository} {all all' added done : List Script}

/-- Whether undoing some migrations drops the object under a key. -/
def Drops (ss : List Script) (key : String) : Prop :=
  ∃ s ∈ ss, s.version = some 0 ∧ s.droppedKey? = some key

instance (ss : List Script) (key : String) : Decidable (Drops ss key) :=
  inferInstanceAs (Decidable (∃ s ∈ ss, s.version = some 0 ∧ s.droppedKey? = some key))

section Undone

variable (hu : l.UpToDate r all) (hn : AreNew r all done) (he : Extends l r r' done)
include hu hn he

theorem exists_mem_undone_drops_iff {key : String} :
    (∃ m ∈ (l.undone r'.loadHashes all).1, m.version = some 0 ∧ m.liveKey = key) ↔
      Drops done key := by
  constructor
  · rintro ⟨m, hm, hv, rfl⟩
    obtain ⟨s, hs, hr⟩ := exists_rebuilds_of_mem_undone hu hn he hm
    exact ⟨s, hs, hr.version ▸ hv, hr.liveKey⟩
  · rintro ⟨s, hs, hv, hkey⟩
    obtain ⟨m, hm, hid⟩ := exists_mem_undone hn he hs
    obtain ⟨t, ht, hr⟩ := exists_rebuilds_of_mem_undone hu hn he hm
    obtain ⟨u, hsu⟩ := Option.isSome_iff_exists.1 (hn.isMigration s hs)
    obtain ⟨w, htw⟩ := Option.isSome_iff_exists.1 (hn.isMigration t ht)
    have hst := Script.fullName_and_version_eq_of_id_eq hsu htw (hid.symm.trans hr.id)
    refine ⟨m, hm, ?_, ?_⟩
    · rw [hr.version, ← hv, Script.version, Script.version, hsu, htw, Option.map_some,
        Option.map_some, hst.2]
    · have hdropped := hr.liveKey
      rw [Script.droppedKey?, ← hst.1, ← Script.droppedKey?, hkey, Option.some.injEq] at hdropped
      exact hdropped.symm

end Undone

theorem get?_objects_rollbackSteps {ss : List Script}
    (hm : ∀ m ∈ ss, m.isMigration = true ∧
      (statement? ((l.injected m).migration.bind (·.rollback))).isSome = true)
    (h : (l.rollbackSteps ss r).2 = .ok ()) (key : String) :
    (l.rollbackSteps ss r).1.state.objects.get? key =
      if ∃ m ∈ ss, m.version = some 0 ∧ m.liveKey = key then none
      else r.state.objects.get? key := by
  have hstep : ∀ m ∈ ss, ∀ r, (l.rollbackStep m r).2 = .ok () →
      (l.rollbackStep m r).1.state.objects =
        if decide (m.version = some 0) then r.state.objects.erase m.liveKey
        else r.state.objects := by
    intro m hmem r hok
    have hkind : (l.injected m).isMigration = true := by
      rw [injected_isMigration, (hm m hmem).1]
    have hrollback : l.rollbackStep m r = r.rollback (l.injected m) := if_pos hkind
    rw [hrollback] at hok ⊢
    simp only [objects_rollback_of_ok hok, (hm m hmem).2, true_and, injected_version,
      injected_liveKey, decide_eq_true_eq]
  rw [rollbackSteps_eq_foldl (f := fun q => q.state.objects)
    (g := fun o m => if decide (m.version = some 0) then o.erase m.liveKey else o) hstep h,
    ← List.foldl_filter, ← List.foldl_map, Keyed.get?_foldl_erase]
  simp only [List.mem_map, List.mem_filter, decide_eq_true_eq, and_assoc]

theorem get?_objects_rollback_of_extends {n : Nat} (hl : l.listing = .ok all)
    (hu : l.UpToDate r all) (hn : AreNew r all done) (he : Extends l r r' done)
    (hundo : ∀ s ∈ done, (l.undoStatement? s).isSome = true) (h : (l.rollback r').2 = .ok n)
    (key : String) : (l.rollback r').1.state.objects.get? key =
      if Drops done key then none else r'.state.objects.get? key := by
  obtain ⟨ss, syncs, hperm, hsteps, hran⟩ := rollback_of_extends hl hu hn he h
  have hm : ∀ m ∈ ss, m.isMigration = true ∧
      (statement? ((l.injected m).migration.bind (·.rollback))).isSome = true := by
    intro m hm
    obtain ⟨s, hs, hr⟩ := exists_rebuilds_of_mem_undone hu hn he (hperm.mem_iff.1 hm)
    exact ⟨hr.isMigration, hr.statement ▸ hundo s hs⟩
  rw [hran, withSyncs_objects, get?_objects_rollbackSteps hm hsteps]
  simp only [hperm.mem_iff, exists_mem_undone_drops_iff hu hn he]
  rfl

theorem objects_rollback_iff_of_extends {n : Nat} (hl : l.listing = .ok all)
    (hu : l.UpToDate r all) (hn : AreNew r all done) (he : Extends l r r' done)
    (hlive : ∀ s ∈ done, r.state.objects.get? s.liveKey = none)
    (hundo : ∀ s ∈ done, (l.undoStatement? s).isSome = true)
    (hobjects : r'.state.objects = (done.map l.injected).foldl applied r.state.objects)
    (h : (l.rollback r').2 = .ok n) :
    (l.rollback r').1.state.objects = r.state.objects ↔
      (∀ s ∈ done, Drops done s.liveKey) ∧
        ∀ key, Drops done key → r.state.objects.get? key = none := by
  have hkeys : (done.map l.injected).map Script.liveKey = done.map Script.liveKey := by
    rw [List.map_map]
    exact List.map_congr_left fun s _ => injected_liveKey l s
  have hget := get?_objects_rollback_of_extends hl hu hn he hundo h
  constructor
  · intro hsame
    rw [hsame] at hget
    refine ⟨fun s hs => ?_, fun key hdrop => (hget key).trans (if_pos hdrop)⟩
    by_contra hdrop
    have hmade : (((done.map l.injected).foldl applied r.state.objects).get?
        s.liveKey).isSome = true :=
      isSome_get?_foldl_applied.2 (Or.inl (hkeys ▸ List.mem_map_of_mem hs))
    rw [← hobjects, ← (hget s.liveKey).trans (if_neg hdrop), hlive s hs] at hmade
    cases hmade
  · rintro ⟨hmade, hkept⟩
    apply Keyed.ext_get?
    intro key
    rw [hget]
    split
    · next hdrop => exact (hkept key hdrop).symm
    · next hdrop =>
      rw [hobjects]
      apply get?_foldl_applied_of_not_mem
      intro hkey
      rw [hkeys] at hkey
      obtain ⟨s, hs, rfl⟩ := List.mem_map.1 hkey
      exact hdrop (hmade s hs)

/-- Where a listing is recorded, a deployment of it with migrations of new objects and a rollback to
it give back the live objects exactly if every object that was made is dropped, and nothing that was
live before. -/
theorem objects_rollback_deploy_iff {n k : Nat} (hl : l.listing = .ok all)
    (hu : l.UpToDate r all) (hn : AreNew r all added) (hall : all'.Perm (all ++ added))
    (hlive : ∀ s ∈ added, r.state.objects.get? s.liveKey = none)
    (hundo : ∀ s ∈ added, (l.undoStatement? s).isSome = true)
    (hd : ((l.withListing all').deploy false r).2 = .ok n)
    (hr' : r'.state = ((l.withListing all').deploy false r).1.state)
    (h : (l.rollback r').2 = .ok k) :
    (l.rollback r').1.state.objects = r.state.objects ↔
      (∀ s ∈ l.changed r.loadHashes added, Drops (l.changed r.loadHashes added) s.liveKey) ∧
        ∀ key, Drops (l.changed r.loadHashes added) key → r.state.objects.get? key = none := by
  obtain ⟨done, syncs, hperm, he, hdeployed⟩ :=
    exists_extends_of_deploy hu hall hd (congrArg RepositoryState.history hr')
  have hsub : done ⊆ added := fun s hs => changed_subset l _ added (hperm.mem_iff.1 hs)
  have hobjects : r'.state.objects = (done.map l.injected).foldl applied r.state.objects := by
    rw [hr', hdeployed, withSyncs_objects, completedAll_objects]
    rfl
  have hdrops (key : String) :
      Drops (l.changed r.loadHashes added) key ↔ Drops done key := by
    simp only [Drops, hperm.mem_iff]
  simp only [hdrops, ← hperm.mem_iff]
  exact objects_rollback_iff_of_extends hl hu (hn.subset hsub) he (fun s hs => hlive s (hsub hs))
    (fun s hs => hundo s (hsub hs)) hobjects h

def nothingListed : Release :=
  ⟨.default, .empty, .ok []⟩

def emptyRepository : Repository :=
  .new "2024-01-01T00:00:00Z" "DB"

theorem upToDate_emptyRepository : nothingListed.UpToDate emptyRepository [] := by
  constructor
  case unchanged => simp [included]
  case listed =>
    intro id hm
    obtain ⟨h, hget, -⟩ := holdsMigration_iff.1 hm
    rw [emptyRepository, new, RepositoryState.empty, Keyed.get?_empty] at hget
    cases hget

theorem areNew_emptyRepository {vs : List Nat} (hvs : ∀ v ∈ vs, v ≤ Text.maxVersion) :
    AreNew emptyRepository [] (vs.map tableVersion) := by
  constructor
  case regular =>
    intro s hs
    obtain ⟨v, hv, rfl⟩ := List.mem_map.1 hs
    exact regular_tableVersion (hvs v hv)
  case isMigration =>
    intro s hs
    obtain ⟨v, -, rfl⟩ := List.mem_map.1 hs
    rfl
  case not_listed => simp
  case not_recorded =>
    intro s _
    rw [emptyRepository, new, RepositoryState.empty, Keyed.get?_empty]

theorem undoStatement?_tableVersion (v : Nat) :
    (nothingListed.undoStatement? (tableVersion v)).isSome = true := by
  change (statement? (some (nothingListed.parameters.inject
    (nothingListed.parameters.inject "ALTER TABLE DB.S.T DROP COLUMN B;")))).isSome = true
  decide +kernel

def withVersions (vs : List Nat) : Repository :=
  ((nothingListed.withListing (vs.map tableVersion)).deploy false emptyRepository).1

theorem objects_rollback_twoVersions :
    ((nothingListed.withListing ([0, 1].map tableVersion)).deploy false emptyRepository).2 =
        .ok 2 ∧
      (nothingListed.rollback (withVersions [0, 1])).2 = .ok 2 ∧
      (nothingListed.rollback (withVersions [0, 1])).1.state.objects =
        emptyRepository.state.objects := by
  obtain ⟨hd, hr⟩ : ((nothingListed.withListing ([0, 1].map tableVersion)).deploy false
      emptyRepository).2.toOption = some 2 ∧
        (nothingListed.rollback (withVersions [0, 1])).2.toOption = some 2 := by
    decide +kernel
  have hdrops : ∀ s ∈ nothingListed.changed emptyRepository.loadHashes ([0, 1].map tableVersion),
      Drops (nothingListed.changed emptyRepository.loadHashes ([0, 1].map tableVersion))
        s.liveKey := by
    decide +kernel
  have hd' := eq_ok_of_toOption hd
  have hr' := eq_ok_of_toOption hr
  have hundo : ∀ s ∈ [0, 1].map tableVersion, (nothingListed.undoStatement? s).isSome = true := by
    intro s hs
    obtain ⟨v, -, rfl⟩ := List.mem_map.1 hs
    exact undoStatement?_tableVersion v
  have hall : ([0, 1].map tableVersion).Perm ([] ++ [0, 1].map tableVersion) := .refl _
  have hdeployed : (withVersions [0, 1]).state =
      ((nothingListed.withListing ([0, 1].map tableVersion)).deploy false
        emptyRepository).1.state := by
    rw [withVersions]
  have hiff := objects_rollback_deploy_iff rfl upToDate_emptyRepository
    (areNew_emptyRepository (by decide)) hall (fun _ _ => rfl) hundo hd' hdeployed hr'
  exact ⟨hd', hr', hiff.2 ⟨hdrops, fun _ _ => rfl⟩⟩

/-- A file that starts at version 1 leaves its object behind. -/
theorem not_objects_rollback_deploy :
    ¬ ∀ (l : Release) (r : Repository) (all added : List Script) (n k : Nat),
      l.listing = .ok all → l.UpToDate r all → AreNew r all added →
      (∀ s ∈ added, r.state.objects.get? s.liveKey = none) →
      (∀ s ∈ added, (l.undoStatement? s).isSome = true) →
      ((l.withListing (all ++ added)).deploy false r).2 = .ok n →
      (l.rollback ((l.withListing (all ++ added)).deploy false r).1).2 = .ok k →
      (l.rollback ((l.withListing (all ++ added)).deploy false r).1).1.state.objects =
        r.state.objects := by
  intro h
  obtain ⟨hd, hr, hleft⟩ : ((nothingListed.withListing ([] ++ [1].map tableVersion)).deploy false
      emptyRepository).2.toOption = some 1 ∧
        (nothingListed.rollback ((nothingListed.withListing
          ([] ++ [1].map tableVersion)).deploy false emptyRepository).1).2.toOption = some 1 ∧
        (nothingListed.rollback ((nothingListed.withListing
          ([] ++ [1].map tableVersion)).deploy false emptyRepository).1).1.state.objects.keys =
            ["S.T"] := by
    decide +kernel
  have hundo : ∀ s ∈ [1].map tableVersion, (nothingListed.undoStatement? s).isSome = true := by
    intro s hs
    obtain ⟨v, -, rfl⟩ := List.mem_map.1 hs
    exact undoStatement?_tableVersion v
  have hsame := h nothingListed emptyRepository [] ([1].map tableVersion) 1 1 rfl
    upToDate_emptyRepository (areNew_emptyRepository (by decide)) (fun _ _ => rfl) hundo
    (eq_ok_of_toOption hd) (eq_ok_of_toOption hr)
  rw [hsame] at hleft
  cases hleft

end Release

end SchemaDeploy
