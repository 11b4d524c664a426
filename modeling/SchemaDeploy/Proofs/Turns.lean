import SchemaDeploy.Change.Export
import SchemaDeploy.Change.Inventory
import SchemaDeploy.Change.Test
import SchemaDeploy.Change.Verify
import SchemaDeploy.Proofs.RecordedMigrations

namespace SchemaDeploy

namespace Repository

theorem endSync_fst (r : Repository) (change : ChangeType) (status : SyncStatus) (message : String)
    (count : Option Nat) :
    ∃ syncs, (r.endSync change status message count).1 = r.withSyncs syncs := by
  rw [endSync]
  split
  · exact ⟨r.state.syncs, rfl⟩
  · split
    · exact ⟨_, rfl⟩
    · exact ⟨r.state.syncs, rfl⟩

end Repository

theorem bracketed_fst {α : Type} (change : ChangeType) (count : α → Nat) (run : Operation α)
    (r : Repository) : ∃ syncs, (bracketed change count run r).1 =
      (run (r.startSync change (change.word ++ " started."))).1.withSyncs syncs := by
  rw [bracketed]
  rcases run (r.startSync change (change.word ++ " started.")) with ⟨r', e | a⟩
  · obtain ⟨syncs, hend⟩ := r'.endSync_fst change .error e.message none
    refine ⟨syncs, ?_⟩
    rw [← hend]
    dsimp only
    rcases r'.endSync change .error e.message none with ⟨r'', f | u⟩ <;> rfl
  · obtain ⟨syncs, hend⟩ := r'.endSync_fst change .success
      ("Successfully completed " ++ change.word) (some (count a))
    refine ⟨syncs, ?_⟩
    rw [← hend]
    dsimp only
    rcases r'.endSync change .success ("Successfully completed " ++ change.word)
      (some (count a)) with ⟨r'', f | u⟩ <;> rfl

/-- Two repositories differ in their logs and their lineage at most. -/
structure Repository.SameStore (r r' : Repository) : Prop where
  history : r'.state.history = r.state.history
  objects : r'.state.objects = r.state.objects
  schemas : r'.state.schemas = r.state.schemas
  configTables : r'.state.configTables = r.state.configTables

theorem Repository.SameStore.refl (r : Repository) : r.SameStore r :=
  ⟨rfl, rfl, rfl, rfl⟩

theorem Repository.SameStore.trans {r r' r'' : Repository} (h : r.SameStore r')
    (h' : r'.SameStore r'') : r.SameStore r'' :=
  ⟨h'.history.trans h.history, h'.objects.trans h.objects, h'.schemas.trans h.schemas,
    h'.configTables.trans h.configTables⟩

theorem Repository.sameStore_verify (r : Repository) (s : Script) :
    r.SameStore (r.verify s).1 := by
  rw [Repository.verify]
  cases statement? (s.migration.bind (·.verify)) with
  | none => exact ⟨rfl, rfl, rfl, rfl⟩
  | some sql =>
      dsimp only
      split <;> exact ⟨rfl, rfl, rfl, rfl⟩

theorem Repository.sameStore_runTest (r : Repository) (t : TestScript) (query : String) :
    r.SameStore (r.runTest t query).1 := by
  rw [runTest]
  split <;> exact ⟨rfl, rfl, rfl, rfl⟩

theorem sameStore_bracketed {α : Type} {run : Operation α}
    (h : ∀ r : Repository, r.SameStore (run r).1)
    (change : ChangeType) (count : α → Nat) (r : Repository) :
    r.SameStore (bracketed change count run r).1 := by
  obtain ⟨syncs, hb⟩ := bracketed_fst change count run r
  have hrun := h (r.startSync change (change.word ++ " started."))
  rw [hb]
  exact ⟨hrun.history, hrun.objects, hrun.schemas, hrun.configTables⟩

namespace Release

variable (l : Release)

theorem verifyAll_preserves {P : Repository → Prop} (hP : ∀ r s, P r → P (r.verify s).1)
    {r : Repository} (h : P r.loadHashes) : P (l.verifyAll r).1 := by
  have hsteps (ss : List Script) (report : VerifyReport) (r : Repository) (h : P r) :
      P (l.verifySteps ss report r).1 := by
    induction ss generalizing report r with
    | nil => exact h
    | cons s ss ih =>
        have hstep := hP r (l.injected s) h
        rw [verifySteps]
        rcases hr : r.verify (l.injected s) with ⟨r', ok⟩
        rw [hr] at hstep
        exact ih _ r' hstep
  rw [verifyAll]
  cases l.listing with
  | error e => exact h
  | ok all =>
      dsimp only
      have hall := hsteps (latestMigrations (l.included all))
        (l.compareLive (l.included all) r.loadHashes) r.loadHashes h
      rcases hr : l.verifySteps (latestMigrations (l.included all))
        (l.compareLive (l.included all) r.loadHashes) r.loadHashes with ⟨r', report⟩
      rwa [hr] at hall

theorem runTests_preserves {P : Repository → Prop} (hP : ∀ r t query, P r → P (r.runTest t query).1)
    (companions : List Script → Except SyncError (List TestScript)) {r : Repository} (h : P r) :
    P (l.runTests companions r).1 := by
  have hsteps (ts : List TestScript) (r : Repository) (h : P r) : P (l.testSteps ts r).1 := by
    induction ts generalizing r with
    | nil => exact h
    | cons t ts ih =>
        have hstep : P (l.testStep t r).1 := by
          simp only [testStep]
          split
          · exact h
          · exact hP r _ _ h
        rw [testSteps]
        rcases hr : l.testStep t r with ⟨r', outcome⟩
        rw [hr] at hstep
        have hrest := ih r' hstep
        dsimp only
        rcases hr' : l.testSteps ts r' with ⟨r'', report⟩
        rwa [hr'] at hrest
  rw [runTests]
  cases l.listing with
  | error e => exact h
  | ok all =>
      dsimp only
      cases companions (l.testable all) with
      | error e => exact h
      | ok tests =>
          have hall := hsteps tests r h
          dsimp only
          rcases hr : l.testSteps tests r with ⟨r', report⟩
          rwa [hr] at hall

theorem sameStore_verify (r : Repository) : r.SameStore (l.verify r).1 := by
  refine sameStore_bracketed (fun r => ?_) _ _ r
  exact l.verifyAll_preserves (P := r.SameStore) (fun q s hq => hq.trans (q.sameStore_verify s))
    ⟨rfl, rfl, rfl, rfl⟩

theorem sameStore_test (companions : List Script → Except SyncError (List TestScript))
    (r : Repository) : r.SameStore (l.test companions r).1 := by
  refine sameStore_bracketed (fun r => ?_) _ _ r
  exact l.runTests_preserves (P := r.SameStore)
    (fun q t query hq => hq.trans (q.sameStore_runTest t query)) companions (.refl r)

theorem sameStore_createLineage (r : Repository) : r.SameStore (l.createLineage r).1 := by
  refine sameStore_bracketed (fun r => ?_) _ _ r
  rw [recordEdges]
  cases l.edges <;> exact ⟨rfl, rfl, rfl, rfl⟩

theorem sameStore_createScripts (source : ScriptSource) (targets : Option (List String))
    (tree : FileTree) (r : Repository) :
    r.SameStore (l.createScripts source targets tree r).2.1 :=
  sameStore_bracketed .refl _ _ r

theorem sameStore_cleanup (r : Repository) : r.SameStore (l.cleanup r).1 := by
  refine sameStore_bracketed (fun r => ?_) _ _ r
  rw [findUnsourced]
  cases l.listing <;> exact .refl r

variable {l : Release}

theorem recordable_of_mem_callsOfDeploy {b : Bool} {r : Repository} {c : Call}
    (hall : ∀ all, l.listing = .ok all → ∀ s ∈ all, s.Recordable) (hc : c ∈ l.callsOfDeploy b r) :
    c.script.Recordable := by
  rcases callsOfDeploy_spec l b r with hnil | ⟨all, ss, hl, hperm, -, hsub⟩
  · rw [hnil] at hc
    cases hc
  · obtain ⟨s, hs, rfl⟩ := List.mem_map.1 (hsub.subset hc)
    exact (hall all hl s (changed_subset l r all (hperm.mem_iff.1 hs))).injected l

theorem recordable_of_mem_callsOfRollback {r : Repository} {c : Call} (hw : r.WellKept)
    (hall : ∀ all, l.listing = .ok all → ∀ s ∈ all, s.Recordable)
    (hc : c ∈ l.callsOfRollback r.loadHashes) : c.script.Recordable := by
  rcases callsOfRollback_spec l r.loadHashes with hnil | ⟨all, ss, hl, hperm, hsub⟩
  · rw [hnil] at hc
    cases hc
  · obtain ⟨s, hs, rfl⟩ := List.mem_map.1 (hsub.subset hc)
    rw [rollbackCall_script]
    rcases List.mem_append.1 (hperm.mem_iff.1 hs) with hs | hs
    · exact (regular_of_mem_undone hw hs).1.recordable.injected l
    · exact (hall all hl s (changed_subset l _ all (List.mem_of_mem_filter hs))).injected l

end Release

inductive Action where
  | plan
  | deploy (onlyHashes : Bool)
  | rollback
  | verify
  | test (companions : List Script → Except SyncError (List TestScript))
  | createLineage
  | createScripts (source : ScriptSource) (targets : Option (List String)) (tree : FileTree)
  | cleanup

/-- One operation, with the names whose statements are rejected meanwhile and the time. -/
structure Turn where
  release : Release
  failing : Names
  clock : String
  action : Action

namespace Turn

def start (t : Turn) (r : Repository) : Repository :=
  { r with failing := t.failing, clock := t.clock }

def run (t : Turn) (r : Repository) : Repository :=
  match t.action with
  | .plan => (t.release.plan (t.start r)).1
  | .deploy onlyHashes => (t.release.deploy onlyHashes (t.start r)).1
  | .rollback => (t.release.rollback (t.start r)).1
  | .verify => (t.release.verify (t.start r)).1
  | .test companions => (t.release.test companions (t.start r)).1
  | .createLineage => (t.release.createLineage (t.start r)).1
  | .createScripts source targets tree =>
    (t.release.createScripts source targets tree (t.start r)).2.1
  | .cleanup => (t.release.cleanup (t.start r)).1

def runAll (ts : List Turn) (r : Repository) : Repository :=
  ts.foldl (fun r t => t.run r) r

/-- The repository in which an operation that has calls is recorded to have started. -/
def started (t : Turn) (r : Repository) : Repository :=
  let change : ChangeType :=
    match t.action with
    | .rollback => .rollback
    | _ => .deploy
  (t.start r).startSync change (change.word ++ " started.")

def ready (t : Turn) (r : Repository) : Repository :=
  (t.started r).loadHashes

def calls (t : Turn) (r : Repository) : List Call :=
  match t.action with
  | .deploy onlyHashes => t.release.callsOfDeploy onlyHashes (t.ready r)
  | .rollback => t.release.callsOfRollback (t.ready r)
  | _ => []

variable {t : Turn} {ts : List Turn} {r : Repository}

theorem history_ready (t : Turn) (r : Repository) :
    (t.ready r).state.history = r.state.history :=
  rfl

theorem sameStore_run (t : Turn) (r : Repository) :
    (Call.runAll (t.calls r) (t.ready r)).SameStore (t.run r) := by
  have hready : (t.ready r).SameStore (t.start r) := ⟨rfl, rfl, rfl, rfl⟩
  rw [run, calls]
  cases ha : t.action with
  | plan => exact ⟨rfl, rfl, rfl, rfl⟩
  | deploy b =>
      obtain ⟨syncs, hb⟩ := bracketed_fst .deploy id (t.release.deployChanged b) (t.start r)
      have hbegun : t.ready r = Release.begun (t.start r) := by
        rw [ready, started, ha]
        rfl
      dsimp only
      rw [Release.deploy, hb, Release.deployChanged_eq_runAll, hbegun]
      exact ⟨rfl, rfl, rfl, rfl⟩
  | rollback =>
      obtain ⟨syncs, hb⟩ := bracketed_fst .rollback id t.release.rollbackChanged (t.start r)
      have hbegun : t.ready r = ((t.start r).startSync .rollback
          (ChangeType.rollback.word ++ " started.")).loadHashes := by
        rw [ready, started, ha]
      dsimp only
      rw [Release.rollback, hb, Release.rollbackChanged_eq_runAll, hbegun]
      exact ⟨rfl, rfl, rfl, rfl⟩
  | verify => exact hready.trans (Release.sameStore_verify ..)
  | test companions => exact hready.trans (Release.sameStore_test ..)
  | createLineage => exact hready.trans (Release.sameStore_createLineage ..)
  | createScripts source targets tree => exact hready.trans (Release.sameStore_createScripts ..)
  | cleanup => exact hready.trans (Release.sameStore_cleanup ..)

theorem history_run (t : Turn) (r : Repository) :
    (t.run r).state.history = (Call.runAll (t.calls r) (t.ready r)).state.history :=
  (sameStore_run t r).history

def ListsRegular (t : Turn) : Prop :=
  ∀ all, t.release.listing = .ok all → ∀ s ∈ all, s.Regular

/-- No script of a type that changes by migrations is listed without a version. -/
def ListsRecordable (t : Turn) : Prop :=
  ∀ all, t.release.listing = .ok all → ∀ s ∈ all, s.Recordable

theorem ListsRegular.listsRecordable (ht : t.ListsRegular) : t.ListsRecordable :=
  fun all hl s hs => (ht all hl s hs).recordable

theorem recordable_of_mem_calls (ht : t.ListsRecordable) (hw : r.WellKept) {c : Call}
    (hc : c ∈ t.calls r) : c.script.Recordable := by
  rw [calls] at hc
  split at hc
  · exact Release.recordable_of_mem_callsOfDeploy ht hc
  · exact Release.recordable_of_mem_callsOfRollback (r := t.started r) (hw.congr rfl) ht hc
  · cases hc

theorem wellKept_run (ht : t.ListsRecordable) (hw : r.WellKept) : (t.run r).WellKept := by
  have hready : (t.ready r).WellKept := hw.congr (t.history_ready r)
  exact (hready.runAll fun c hc => recordable_of_mem_calls ht hw hc).congr (t.history_run r)

theorem wellKept_runAll (hts : ∀ t ∈ ts, t.ListsRecordable) (hw : r.WellKept) :
    (runAll ts r).WellKept := by
  induction ts generalizing r with
  | nil => exact hw
  | cons t ts ih =>
      obtain ⟨ht, hts⟩ := List.forall_mem_cons.1 hts
      exact ih hts (wellKept_run ht hw)

end Turn

end SchemaDeploy
