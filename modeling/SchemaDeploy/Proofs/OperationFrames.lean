import SchemaDeploy.Proofs.OperationLog

namespace SchemaDeploy

namespace Turn

variable {R : Repository → Repository → Prop}

/-- What every change keeps, the records around an operation and a new lineage included, holds
between the repositories before and after the operation. -/
theorem steady_run (h : Repository.Steady R) {t : Turn}
    (hstart : ∀ r change message, R r (r.startSync change message))
    (hsyncs : ∀ r syncs, R r (r.withSyncs syncs))
    (hlineage : t.action = .createLineage → ∀ r edges, R r (r.setLineage edges)) (r : Repository) :
    R (t.start r) (t.run r) := by
  have hbracket {α : Type} (change : ChangeType) (count : α → Nat) (run : Operation α)
      (hrun : ∀ q : Repository, R q (run q).1) :
      R (t.start r) (bracketed change count run (t.start r)).1 := by
    obtain ⟨syncs, hb⟩ := bracketed_fst change count run (t.start r)
    rw [hb]
    exact h.trans (hstart ..) (h.trans (hrun _) (hsyncs ..))
  rw [run]
  cases ha : t.action with
  | plan => exact h.loadHashes _
  | deploy b => exact hbracket _ _ _ fun q => t.release.steady_deployChanged h q b
  | rollback => exact hbracket _ _ _ (t.release.steady_rollbackChanged h)
  | verify => exact hbracket _ _ _ (t.release.steady_verifyAll h)
  | test companions => exact hbracket _ _ _ fun q => t.release.steady_runTests h q companions
  | createLineage =>
      refine hbracket _ _ _ fun q => ?_
      rw [Release.recordEdges]
      cases t.release.edges with
      | error e => exact h.refl q
      | ok edges => exact hlineage ha q edges
  | createScripts source targets tree => exact hbracket _ _ _ h.refl
  | cleanup => exact hbracket _ _ _ (t.release.steady_findUnsourced h)

end Turn

/-- Two repositories with the same live objects, on which the same statements were run. -/
structure Repository.SameObjects (r r' : Repository) : Prop where
  objects : r'.state.objects = r.state.objects
  schemas : r'.state.schemas = r.state.schemas
  executions : r'.executions = r.executions

theorem Repository.SameObjects.recorded {r r' : Repository} (h : r.SameObjects r') (s : Script) :
    r.SameObjects (r'.deploy s true).1 := by
  rw [deploy_of_not_rejects rfl]
  exact ⟨h.objects, h.schemas, h.executions⟩

theorem Release.sameObjects_deploy (l : Release) (r : Repository) :
    r.SameObjects (l.deploy true r).1 := by
  obtain ⟨syncs, hb⟩ := bracketed_fst .deploy id (l.deployChanged true) r
  have hrun : r.SameObjects (l.deployChanged true
      (r.startSync .deploy (ChangeType.deploy.word ++ " started."))).1 :=
    deployChanged_preserves (P := r.SameObjects) (fun _ s h => h.recorded (l.injected s))
      ⟨rfl, rfl, rfl⟩
  rw [deploy, hb]
  exact ⟨hrun.objects, hrun.schemas, hrun.executions⟩

/-- Whether an operation is meant to change the deployed objects. -/
def Action.isDeploying : Action → Bool
  | .deploy _ => true
  | .rollback => true
  | _ => false

namespace Turn

variable {t : Turn}

theorem sameStore_run_of_not_isDeploying (h : t.action.isDeploying = false) (r : Repository) :
    r.SameStore (t.run r) := by
  have hcalls : t.calls r = [] := by
    rw [calls]
    split
    · next ha => simp [ha, Action.isDeploying] at h
    · next ha => simp [ha, Action.isDeploying] at h
    · rfl
  have hready : r.SameStore (Call.runAll [] (t.ready r)) := ⟨rfl, rfl, rfl, rfl⟩
  have hrun := sameStore_run t r
  rw [hcalls] at hrun
  exact hready.trans hrun

theorem lineage_run (h : t.action ≠ .createLineage) (r : Repository) :
    (t.run r).state.lineage = r.state.lineage := by
  have hsteady : Repository.Steady fun q q' => q'.state.lineage = q.state.lineage :=
    ⟨fun _ => rfl, fun h h' => h'.trans h, fun _ _ _ _ => rfl, fun _ _ => rfl, fun _ _ => rfl,
      fun _ _ _ => rfl, fun _ _ => rfl, fun _ _ => rfl, fun _ => rfl⟩
  exact steady_run hsteady (fun _ _ _ => rfl) (fun _ _ => rfl) (fun ha => absurd ha h) r

/-- Whatever the repository, the listing, the configuration and the parameters, and whether an
operation succeeds or fails: unless it deploys or rolls back, it leaves the history, the live objects,
the schemas and the row tables as they were; unless it records the lineage, it leaves the lineage as
it was; and a deployment of hashes alone leaves the live objects and the schemas as they were and
runs no statement. -/
theorem frame_of_run (t : Turn) (r : Repository) :
    (t.action.isDeploying = false → r.SameStore (t.run r)) ∧
      (t.action ≠ .createLineage → (t.run r).state.lineage = r.state.lineage) ∧
      (t.action = .deploy true → r.SameObjects (t.run r)) := by
  refine ⟨fun h => sameStore_run_of_not_isDeploying h r, fun h => lineage_run h r, fun h => ?_⟩
  obtain ⟨hobjects, hschemas, hexecutions⟩ := t.release.sameObjects_deploy (t.start r)
  rw [run, h]
  exact ⟨hobjects, hschemas, hexecutions⟩

def verifiedT : Script :=
  Script.ofUnit "DB" "S" .table "T"
    ⟨0, none, "CREATE TABLE DB.S.T (A INT)", none, some "SELECT A FROM DB.S.T"⟩

def rejectedVerify : Turn :=
  { deployOf verifiedT with failing := Names.ofNames ["DB.S.T"], action := .verify }

def recordB : Turn :=
  { deployOf tableB with action := .deploy true }

theorem frame_of_run_withTableA :
    (rejectedVerify.outcome withTableA = .error (.verificationFailed 1) ∧
      rejectedVerify.action.isDeploying = false ∧ withTableA.SameStore (rejectedVerify.run withTableA) ∧
      rejectedVerify.action ≠ .createLineage ∧
      (rejectedVerify.run withTableA).state.lineage = withTableA.state.lineage) ∧
    (recordB.outcome withTableA = .error (.immutableMigration "DB.S.T:0") ∧
      recordB.action = .deploy true ∧ withTableA.SameObjects (recordB.run withTableA)) := by
  have hfailed : rejectedVerify.outcome withTableA = .error (.verificationFailed 1) := by
    decide +kernel
  have hrefused : recordB.outcome withTableA = .error (.immutableMigration "DB.S.T:0") := by
    rw [recordB, withTableA, tableA_eq, tableB_eq]
    decide +kernel
  have hne : rejectedVerify.action ≠ .createLineage := by
    intro h
    cases h
  obtain ⟨hstore, hlineage, -⟩ := frame_of_run rejectedVerify withTableA
  obtain ⟨-, -, hobjects⟩ := frame_of_run recordB withTableA
  exact ⟨⟨hfailed, rfl, hstore rfl, hne, hlineage hne⟩, hrefused, rfl, hobjects rfl⟩

end Turn

end SchemaDeploy
