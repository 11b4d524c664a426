import SchemaDeploy.Proofs.OperationFrames

namespace SchemaDeploy

namespace Keyed

variable {α β : Type} (f : α → β) (m : Keyed α)

theorem get?_map (k : String) : (m.map fun _ => f).get? k = (m.get? k).map f := by
  simp only [map, get?]
  induction m.entries with
  | nil => rfl
  | cons e es ih =>
      rw [List.map_cons, lookup_cons_eq_ite, lookup_cons_eq_ite, ih]
      split <;> rfl

theorem values_map : (m.map fun _ => f).values = m.values.map f := by
  simp only [map, values, List.map_map]
  rfl

theorem insert_map (key : String) (a : α) :
    (m.map fun _ => f).insert key (f a) = (m.insert key a).map fun _ => f := by
  refine ext_get? fun k => ?_
  rw [get?_insert, get?_map, get?_map, get?_insert]
  split <;> rfl

theorem erase_map (key : String) :
    (m.map fun _ => f).erase key = (m.erase key).map fun _ => f := by
  refine ext_get? fun k => ?_
  rw [get?_erase, get?_map, get?_map, get?_erase]
  split <;> rfl

theorem map_id : (m.map fun _ a => a) = m := by
  refine ext_get? fun k => ?_
  rw [get?_map, Option.map_id_fun']
  rfl

end Keyed

def HistoryRecord.retimed (f : String → String) (h : HistoryRecord) : HistoryRecord :=
  { h with updatedAt := f h.updatedAt }

def ChangeSync.retimed (f : String → String) (s : ChangeSync) : ChangeSync :=
  { s with startTime := f s.startTime, endTime := s.endTime.map f }

def ScriptEvent.retimed (f : String → String) (e : ScriptEvent) : ScriptEvent :=
  { e with createdAt := f e.createdAt }

def RepositoryState.retimed (f : String → String) (s : RepositoryState) : RepositoryState :=
  { s with
    history := s.history.map fun _ => HistoryRecord.retimed f
    syncs := s.syncs.map (ChangeSync.retimed f)
    events := s.events.map (ScriptEvent.retimed f) }

theorem RepositoryState.retimed_id (s : RepositoryState) : s.retimed id = s := by
  have hrecord : HistoryRecord.retimed id = fun h => h := rfl
  have hsync : ChangeSync.retimed id = id := by
    funext s
    simp [ChangeSync.retimed]
  have hevent : ScriptEvent.retimed id = id := rfl
  simp only [retimed, hrecord, hsync, hevent, Keyed.map_id, List.map_id]

/-- Other times, further statements that were run before, and a place of the state file. -/
structure Shift where
  time : String → String
  earlier : List Execution
  statePath : Option String

/-- An operation that does the same on the image of a repository, and gives the same result. -/
def Commutes {α : Type} (f : Repository → Repository) (op : Repository → Repository × α) : Prop :=
  ∀ r, op (f r) = (f (op r).1, (op r).2)

namespace Repository

def shifted (v : Shift) (r : Repository) : Repository :=
  { r with
    state := r.state.retimed v.time
    executions := v.earlier ++ r.executions
    statePath := v.statePath
    clock := v.time r.clock }

variable (v : Shift) (r : Repository) (s : Script)

theorem recordEvent_shifted (status : SyncStatus) (message : String) :
    (r.shifted v).recordEvent s status message = (r.recordEvent s status message).shifted v := by
  simp only [recordEvent, shifted, RepositoryState.retimed, List.map_append, List.length_map,
    List.map_cons, List.map_nil]
  rfl

theorem updateHistory_shifted :
    (r.shifted v).updateHistory s = (r.updateHistory s).shifted v := by
  have hrecord : (r.shifted v).record s = (r.record s).retimed v.time := rfl
  simp only [updateHistory, hrecord]
  simp only [shifted, RepositoryState.retimed, Keyed.insert_map]

theorem forget_shifted : (r.shifted v).forget s = (r.forget s).shifted v := by
  simp only [forget, shifted, RepositoryState.retimed, Keyed.erase_map]

theorem execute_shifted (id sql : String) :
    (r.shifted v).execute id sql = (r.execute id sql).shifted v := by
  simp only [execute, shifted, List.append_assoc]

theorem loadHashes_shifted : (r.shifted v).loadHashes = r.loadHashes.shifted v := by
  simp only [loadHashes, shifted, RepositoryState.retimed, Keyed.values_map, List.map_map]
  rfl

theorem startSync_shifted (change : ChangeType) (message : String) :
    (r.shifted v).startSync change message = (r.startSync change message).shifted v := by
  simp only [startSync, shifted, RepositoryState.retimed, List.map_append, List.length_map,
    List.map_cons, List.map_nil]
  rfl

theorem updateSync_map {g k k' : ChangeSync → ChangeSync} (hid : ∀ e, (g e).id = e.id)
    (h : ∀ e, k' (g e) = g (k e)) (id : Nat) (es : List ChangeSync) :
    updateSync id k' (es.map g) = (updateSync id k es).map g := by
  induction es with
  | nil => rfl
  | cons e es ih =>
      simp only [List.map_cons, updateSync, hid, h, ih]
      split <;> rfl

theorem endSync_shifted (change : ChangeType) (status : SyncStatus) (message : String)
    (count : Option Nat) : (r.shifted v).endSync change status message count =
      ((r.endSync change status message count).1.shifted v,
        (r.endSync change status message count).2) := by
  have hcurrent : (r.shifted v).currentSync = r.currentSync := rfl
  have hany (id : Nat) : ((r.shifted v).state.syncs.any (·.id == id)) =
      r.state.syncs.any (·.id == id) := by
    simp only [shifted, RepositoryState.retimed, List.any_map]
    rfl
  simp only [endSync, hcurrent, hany]
  cases r.currentSync with
  | none => rfl
  | some id =>
      dsimp only
      split
      · simp only [shifted, RepositoryState.retimed]
        congr 3
        apply updateSync_map <;> exact fun _ => rfl
      · rfl

theorem deploy_shifted (b : Bool) :
    (r.shifted v).deploy s b = ((r.deploy s b).1.shifted v, (r.deploy s b).2) := by
  cases hr : r.rejects s b with
  | true =>
      have hr' : (r.shifted v).rejects s b = true := hr
      rw [deploy_of_rejects hr, deploy_of_rejects hr', reject, reject, recordEvent_shifted]
  | false =>
      have hr' : (r.shifted v).rejects s b = false := hr
      have hran : (if b then r.shifted v else ((r.shifted v).execute s.id s.content).applyToLive s) =
          (if b then r else (r.execute s.id s.content).applyToLive s).shifted v := by
        cases b with
        | true => rfl
        | false => exact congrArg (applyToLive · s) (execute_shifted v r s.id s.content)
      rw [deploy_of_not_rejects hr, deploy_of_not_rejects hr', completed, completed, hran,
        updateHistory_shifted, recordEvent_shifted]

theorem rollback_shifted :
    (r.shifted v).rollback s = ((r.rollback s).1.shifted v, (r.rollback s).2) := by
  have hfails : (r.shifted v).fails s = r.fails s := rfl
  have hdrop (q : Repository) : (q.shifted v).dropLive s = (q.dropLive s).shifted v := rfl
  simp only [rollback, hfails]
  cases statement? (s.migration.bind (·.rollback)) with
  | none => rw [forget_shifted, recordEvent_shifted]
  | some sql =>
      dsimp only
      split
      · rw [reject, reject, recordEvent_shifted]
      · rw [execute_shifted]
        split
        · rw [hdrop, forget_shifted, recordEvent_shifted]
        · rw [forget_shifted, recordEvent_shifted]

theorem verify_shifted :
    (r.shifted v).verify s = ((r.verify s).1.shifted v, (r.verify s).2) := by
  have hfails : (r.shifted v).fails s = r.fails s := rfl
  simp only [verify, hfails]
  cases statement? (s.migration.bind (·.verify)) with
  | none => rw [recordEvent_shifted]
  | some sql =>
      dsimp only
      split
      · rw [reject, reject, recordEvent_shifted]
      · rw [execute_shifted, recordEvent_shifted]

theorem runTest_shifted (t : TestScript) (query : String) :
    (r.shifted v).runTest t query = ((r.runTest t query).1.shifted v, (r.runTest t query).2) := by
  have hfails (q : Repository) : (q.shifted v).fails t.subject = q.fails t.subject := rfl
  have hresults (q : Repository) : (q.shifted v).testResults = q.testResults := rfl
  simp only [runTest, hfails, hresults, execute_shifted]
  split <;> rfl

theorem recordedMigrations_shifted (ids : Names) :
    (r.shifted v).recordedMigrations ids = r.recordedMigrations ids := by
  have hget : (r.shifted v).state.history.get? =
      fun k => (r.state.history.get? k).map (HistoryRecord.retimed v.time) :=
    funext (Keyed.get?_map _ _)
  have hread : HistoryRecord.toMigration? ∘ HistoryRecord.retimed v.time =
      HistoryRecord.toMigration? := rfl
  rw [recordedMigrations, recordedMigrations, hget, ← List.map_filterMap, List.filterMap_map, hread]

end Repository

theorem Commutes.bracketed {α : Type} {f : Repository → Repository} {run : Operation α}
    (hstart : ∀ r change message,
      (f r).startSync change message = f (r.startSync change message))
    (hend : ∀ r change status message count, (f r).endSync change status message count =
      (f (Repository.endSync r change status message count).1,
        (Repository.endSync r change status message count).2))
    (hrun : Commutes f run) (change : ChangeType) (count : α → Nat) :
    Commutes f (bracketed change count run) := by
  intro r
  rw [SchemaDeploy.bracketed, SchemaDeploy.bracketed, hstart, hrun]
  rcases run (r.startSync change (change.word ++ " started.")) with ⟨r', e | a⟩
  · dsimp only
    rw [hend]
    rcases r'.endSync change .error e.message none with ⟨r'', e' | u⟩ <;> rfl
  · dsimp only
    rw [hend]
    rcases r'.endSync change .success ("Successfully completed " ++ change.word)
      (some (count a)) with ⟨r'', e' | u⟩ <;> rfl

namespace Release

open Repository

variable (l : Release)

theorem commutes_runTests {f : Repository → Repository}
    (hf : ∀ r t query, (f r).runTest t query = (f (r.runTest t query).1, (r.runTest t query).2))
    (companions : List Script → Except SyncError (List TestScript)) :
    Commutes f (l.runTests companions) := by
  have hstep (t : TestScript) : Commutes f (l.testStep t) := by
    intro r
    simp only [testStep]
    split
    · rfl
    · rw [hf]
  have hsteps (ts : List TestScript) : Commutes f (l.testSteps ts) := by
    induction ts with
    | nil => exact fun r => rfl
    | cons t ts ih =>
        intro r
        rw [testSteps, testSteps, hstep]
        rcases l.testStep t r with ⟨r', outcome⟩
        dsimp only
        rw [ih]
  intro r
  simp only [runTests]
  cases l.listing with
  | error e => rfl
  | ok all =>
      dsimp only
      cases companions (l.testable all) with
      | error e => rfl
      | ok tests =>
          dsimp only
          rw [hsteps]

theorem commutes_recordEdges {f : Repository → Repository}
    (hf : ∀ r edges, (f r).setLineage edges = f (r.setLineage edges)) :
    Commutes f l.recordEdges := by
  intro r
  rw [recordEdges, recordEdges]
  cases l.edges with
  | error e => rfl
  | ok edges =>
      dsimp only
      rw [hf]

theorem commutes_findUnsourced {f : Repository → Repository}
    (hf : ∀ r, (f r).liveNames = r.liveNames) : Commutes f l.findUnsourced := by
  intro r
  simp only [findUnsourced, unsourced, hf]
  cases l.listing <;> rfl

variable (v : Shift)

theorem commutes_plan : Commutes (shifted v) l.plan := by
  intro r
  have hplanned : l.planned (r.loadHashes.shifted v) = l.planned r.loadHashes := rfl
  rw [plan, loadHashes_shifted, hplanned]
  rfl

theorem commutes_deploySteps (b : Bool) (g : DependencyGraph) (is : List Nat) (p : Progress) :
    Commutes (shifted v) (l.deploySteps b g is p) := by
  have hstep (p : Progress) (i : Nat) (s : Script) :
      Commutes (shifted v) (l.deployStep b g p i s) := by
    intro r
    simp only [deployStep]
    split
    · rfl
    · rw [deploy_shifted]
      rcases r.deploy (l.injected s) b with ⟨r', e | u⟩
      · dsimp only
        split <;> rfl
      · rfl
  induction is generalizing p with
  | nil => exact fun r => rfl
  | cons i is ih =>
      intro r
      rw [deploySteps, deploySteps]
      cases g.nodes[i]? with
      | none => exact ih p r
      | some s =>
          dsimp only
          rw [hstep p i s r]
          rcases l.deployStep b g p i s r with ⟨r', e | p'⟩
          · rfl
          · exact ih p' r'

theorem commutes_deployChanged (b : Bool) : Commutes (shifted v) (l.deployChanged b) := by
  intro r
  have hgraph : l.changedGraph (r.loadHashes.shifted v) = l.changedGraph r.loadHashes := rfl
  have horder (g : DependencyGraph) :
      deployOrder (r.loadHashes.shifted v) g = deployOrder r.loadHashes g := rfl
  simp only [deployChanged, loadHashes_shifted, hgraph, horder]
  cases l.changedGraph r.loadHashes with
  | error e => rfl
  | ok g =>
      dsimp only
      cases deployOrder r.loadHashes g with
      | error e => rfl
      | ok order =>
          dsimp only
          rw [commutes_deploySteps]
          rcases l.deploySteps b g order .start r.loadHashes with ⟨r', e | p⟩ <;> rfl

theorem commutes_rollbackSteps (ss : List Script) : Commutes (shifted v) (l.rollbackSteps ss) := by
  have hstep (s : Script) : Commutes (shifted v) (l.rollbackStep s) := by
    intro r
    simp only [rollbackStep]
    split
    · exact rollback_shifted v r _
    · exact deploy_shifted v r _ false
  induction ss with
  | nil => exact fun r => rfl
  | cons s ss ih =>
      intro r
      rw [rollbackSteps, rollbackSteps, hstep]
      rcases l.rollbackStep s r with ⟨r', e | u⟩
      · rfl
      · exact ih r'

theorem rollbackOrder_shifted (r : Repository) :
    l.rollbackOrder (r.shifted v) = l.rollbackOrder r := by
  have hundone (all : List Script) : l.undone (r.shifted v) all = l.undone r all := by
    rw [undone, recordedMigrations_shifted]
    rfl
  simp only [rollbackOrder, hundone]

theorem commutes_rollbackChanged : Commutes (shifted v) l.rollbackChanged := by
  intro r
  simp only [rollbackChanged, loadHashes_shifted, rollbackOrder_shifted]
  cases l.rollbackOrder r.loadHashes with
  | error e => rfl
  | ok scripts =>
      dsimp only
      rw [commutes_rollbackSteps]
      rcases l.rollbackSteps scripts.reverse r.loadHashes with ⟨r', e | u⟩ <;> rfl

theorem commutes_verifyAll : Commutes (shifted v) l.verifyAll := by
  have hsteps (ss : List Script) (report : VerifyReport) :
      Commutes (shifted v) (l.verifySteps ss report) := by
    induction ss generalizing report with
    | nil => exact fun r => rfl
    | cons s ss ih =>
        intro r
        rw [verifySteps, verifySteps, verify_shifted]
        exact ih _ _
  intro r
  have hlive (sources : List Script) : l.compareLive sources (r.loadHashes.shifted v) =
      l.compareLive sources r.loadHashes := rfl
  simp only [verifyAll, loadHashes_shifted, hlive]
  cases l.listing with
  | error e => rfl
  | ok all =>
      dsimp only
      rw [hsteps]

end Release

namespace Turn

def retimed (f : String → String) (t : Turn) : Turn :=
  { t with clock := f t.clock }

theorem run_shifted (v : Shift) (t : Turn) (r : Repository) :
    (t.retimed v.time).run (r.shifted v) = (t.run r).shifted v ∧
      (t.retimed v.time).answer (r.shifted v) = t.answer r := by
  have hstart : (t.retimed v.time).start (r.shifted v) = (t.start r).shifted v := rfl
  have hbracket {α : Type} {run : Operation α} (hrun : Commutes (Repository.shifted v) run)
      (change : ChangeType) (count : α → Nat) :=
    hrun.bracketed (Repository.startSync_shifted v) (Repository.endSync_shifted v) change count
      (t.start r)
  have haction : (t.retimed v.time).action = t.action := rfl
  have hrelease : (t.retimed v.time).release = t.release := rfl
  simp only [run, answer, hstart, haction, hrelease]
  cases t.action with
  | plan =>
      dsimp only
      rw [t.release.commutes_plan v]
      exact ⟨rfl, rfl⟩
  | deploy b =>
      dsimp only [Release.deploy]
      rw [hbracket (t.release.commutes_deployChanged v b)]
      exact ⟨rfl, rfl⟩
  | rollback =>
      dsimp only [Release.rollback]
      rw [hbracket (t.release.commutes_rollbackChanged v)]
      exact ⟨rfl, rfl⟩
  | verify =>
      dsimp only [Release.verify]
      rw [hbracket (t.release.commutes_verifyAll v)]
      exact ⟨rfl, rfl⟩
  | test companions =>
      dsimp only [Release.test]
      rw [hbracket (t.release.commutes_runTests (Repository.runTest_shifted v) companions)]
      exact ⟨rfl, rfl⟩
  | createLineage =>
      dsimp only [Release.createLineage]
      rw [hbracket (t.release.commutes_recordEdges fun _ _ => rfl)]
      exact ⟨rfl, rfl⟩
  | createScripts source targets tree =>
      have hexported : t.release.exported targets ((t.start r).shifted v) =
          t.release.exported targets (t.start r) := rfl
      dsimp only [Release.createScripts]
      rw [hexported, hbracket (fun _ => rfl)]
      exact ⟨rfl, rfl⟩
  | cleanup =>
      have hnames : ((t.start r).shifted v).liveNames = (t.start r).liveNames := rfl
      dsimp only [Release.cleanup]
      rw [hnames, hbracket (t.release.commutes_findUnsourced fun _ => rfl)]
      exact ⟨rfl, rfl⟩

end Turn

end SchemaDeploy
