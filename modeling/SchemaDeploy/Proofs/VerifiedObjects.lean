import SchemaDeploy.Proofs.LatestMigrations
import SchemaDeploy.Proofs.OperationFrames
import SchemaDeploy.Proofs.PlacedObjects
import SchemaDeploy.Proofs.VerifiedDeploy

namespace SchemaDeploy

namespace Release

open Repository (isUserSchema statement?)

variable {l : Release} {r : Repository} {all : List Script}

/-- Whether a live object has drifted: it stands in a schema of users, has no versions, is not
excluded under its live name or with placeholders, and no source is the same script with the same
body. -/
def drifts (l : Release) (r : Repository) (all : List Script) (o : LiveObject) : Bool :=
  let live := r.liveScript o
  let shown := l.parameters.parametrizeScript live
  isUserSchema o.schema && !o.objectType.isVersioned && !l.config.isExcluded live &&
    !l.config.isExcluded shown &&
    !(l.included all).any fun s => s.sameIdentity shown && shown.equivalent s

def verification? (l : Release) (s : Script) : Option String :=
  statement? ((l.injected s).migration.bind (·.verify))

def failsVerification (l : Release) (r : Repository) (s : Script) : Bool :=
  r.fails s && (l.verification? s).isSome

def verifyExecution? (l : Release) (r : Repository) (s : Script) : Option Execution :=
  if r.fails s then none else (l.verification? s).map fun sql => ⟨s.id, sql⟩

theorem not_passes_injected (l : Release) (r : Repository) (s : Script) :
    (!r.passes (l.injected s)) = l.failsVerification r s := by
  rw [Repository.passes, failsVerification, fails_injected, verification?]
  cases statement? ((l.injected s).migration.bind (·.verify)) <;> simp

theorem executions_verifySteps (ss : List Script) (report : VerifyReport) (r : Repository) :
    (l.verifySteps ss report r).1.executions =
      r.executions ++ ss.filterMap (l.verifyExecution? r) := by
  induction ss generalizing report r with
  | nil => exact (List.append_nil _).symm
  | cons s ss ih =>
      have hfailing := (r.verify_keeps (l.injected s)).1
      have hstep : (r.verify (l.injected s)).1.executions =
          r.executions ++ (l.verifyExecution? r s).toList := by
        rw [Repository.verify, verifyExecution?, verification?, fails_injected]
        cases statement? ((l.injected s).migration.bind (·.verify)) with
        | none =>
            rw [Option.map_none, ite_self]
            exact (List.append_nil _).symm
        | some sql =>
            cases r.fails s with
            | true => exact (List.append_nil _).symm
            | false =>
                rw [← injected_id l s]
                rfl
      rw [verifySteps]
      rcases hr : r.verify (l.injected s) with ⟨r', ok⟩
      rw [hr] at hfailing hstep
      dsimp only at hfailing hstep ⊢
      have hfails (t : Script) : r'.fails t = r.fails t := by
        rw [Repository.fails, Repository.fails, hfailing]
      have hsame : l.verifyExecution? r' = l.verifyExecution? r := by
        funext t
        rw [verifyExecution?, verifyExecution?, hfails]
      rw [ih, hstep, hsame, List.append_assoc]
      cases hs : l.verifyExecution? r s with
      | none => rw [List.filterMap_cons_none hs]; rfl
      | some e => rw [List.filterMap_cons_some hs]; rfl

theorem executions_verify (hl : l.listing = .ok all) : (l.verify r).1.executions =
    r.executions ++ (latestMigrations (l.included all)).filterMap (l.verifyExecution? r) := by
  obtain ⟨syncs, hb⟩ := bracketed_fst .verify VerifyReport.checked l.verifyAll r
  rw [verify, hb]
  dsimp only [Repository.withSyncs]
  rw [verifyAll, hl]
  exact executions_verifySteps _ _ _

theorem matchesSource_eq_any {sources : List Script}
    (hids : (sources.map fun s => (s.objectType, s.id)).Nodup) (p : Script) :
    matchesSource sources p = sources.any fun s => s.sameIdentity p && p.equivalent s := by
  rw [matchesSource]
  cases hf : sources.find? fun s => s.sameIdentity p with
  | none =>
      refine (List.any_eq_false.2 fun s hs => ?_).symm
      rw [Bool.eq_false_of_not_eq_true (List.find?_eq_none.1 hf s hs)]
      simp
  | some s =>
      have hs := List.mem_of_find?_eq_some hf
      have hsame := List.find?_some hf
      refine Bool.eq_iff_iff.2 ⟨fun h => List.any_eq_true.2 ⟨s, hs, by simp [hsame, h]⟩, ?_⟩
      intro h
      obtain ⟨t, ht, hmatch⟩ := List.any_eq_true.1 h
      obtain ⟨hidentity, hbody⟩ := Bool.and_eq_true_iff.1 hmatch
      simp only [Script.sameIdentity, Bool.and_eq_true, beq_iff_eq] at hidentity hsame
      have heq := List.inj_on_of_nodup_map hids ht hs
        (Prod.ext (hidentity.1.trans hsame.1.symm) (hidentity.2.trans hsame.2.symm))
      exact heq ▸ hbody

theorem length_unmatched (h : r.Placed) (hids : (all.map fun s => (s.objectType, s.id)).Nodup) :
    ((l.comparedObjects r).filter fun p => !matchesSource (l.included all) p).length =
      r.state.objects.values.countP (l.drifts r all) := by
  have hsources : ((l.included all).map fun s => (s.objectType, s.id)).Nodup :=
    hids.sublist (List.filter_sublist.map _)
  rw [← List.countP_eq_length_filter, comparedObjects, List.countP_filterMap,
    h.liveScripts_perm.countP_eq, List.countP_map, List.countP_filter]
  refine List.countP_congr fun o _ => ?_
  have hversioned : (r.liveScript o).isMigration = o.objectType.isVersioned :=
    Script.isMigration_ofDefinition ..
  simp only [Function.comp_apply, comparedLive?, drifts, hversioned, ← matchesSource_eq_any hsources]
  cases o.objectType.isVersioned with
  | true => simp
  | false =>
      cases l.config.isExcluded (r.liveScript o) with
      | true => simp
      | false =>
          cases l.config.isExcluded (l.parameters.parametrizeScript (r.liveScript o)) with
          | true => simp
          | false => simp [and_comm]

/-- What a verification finds wrong: the drifted live objects, and the migrations whose highest
version fails its verification. -/
def failureCount (l : Release) (r : Repository) (all : List Script) : Nat :=
  r.state.objects.values.countP (l.drifts r all) +
    (latestMigrations (l.included all)).countP (l.failsVerification r)

theorem verify_snd_of_placed (h : r.Placed) (hl : l.listing = .ok all)
    (hids : (all.map fun s => (s.objectType, s.id)).Nodup) : ∃ checked,
    (l.verify r).2 = if l.failureCount r all = 0 then .ok ⟨checked, []⟩
      else .error (.verificationFailed (l.failureCount r all)) := by
  have hlength : (l.verifyReport r (l.included all)).failures.length = l.failureCount r all := by
    rw [verifyReport, List.length_append, List.length_map, List.length_map, length_unmatched h hids,
      failureCount, List.countP_eq_length_filter (p := l.failsVerification r)]
    simp only [not_passes_injected]
  rw [verify_snd hl, ← hlength]
  rcases l.verifyReport r (l.included all) with ⟨checked, failures⟩
  refine ⟨checked, ?_⟩
  cases failures <;> rfl

end Release

namespace Turn

open Release Repository

variable {past : List Turn} {t : Turn} {all : List Script}

/-- Whatever was done to a repository that was loaded from dumps, and whatever is configured: a
verification keeps the listed migrations that no higher version of their object is listed with, one
for every object; it runs the verify statements of those that do not fail, and no others; and its
result counts all failures, each of them once. -/
theorem verify_counts_failures (clock database : String) (dumps : List (String × String))
    (hpast : ∀ t ∈ past, t.ListsUpper) (t : Turn) (hl : t.release.listing = .ok all)
    (hids : (all.map fun s => (s.objectType, s.id)).Nodup) :
    let l := t.release
    let r := t.start (runAll past (.loaded clock database dumps))
    let newest := latestMigrations (l.included all)
    (newest.Pairwise fun s s' => objectBefore s s' = true) ∧
      (∀ s, s ∈ newest ↔ IsNewest (l.included all) s) ∧
      (∀ s ∈ l.included all, s.isMigration = true → ∃ m ∈ newest, sameObject m s = true) ∧
      (l.verify r).1.executions = r.executions ++ newest.filterMap (l.verifyExecution? r) ∧
      ∃ checked, (l.verify r).2 =
        if l.failureCount r all = 0 then .ok ⟨checked, []⟩
        else .error (.verificationFailed (l.failureCount r all)) := by
  intro l r newest
  have hplaced : r.Placed :=
    (placed_runAll hpast (placed_loaded clock database dumps)).lose rfl fun _ _ => id
  have hsources : ((l.included all).map fun s => (s.objectType, s.id)).Nodup :=
    hids.sublist (List.filter_sublist.map _)
  have hkeeps := keeps_latestMigrations (l.included all)
  refine ⟨hkeeps.ordered.imp objectBefore_iff.2, fun s => mem_latestMigrations_iff hsources, ?_,
    executions_verify hl, verify_snd_of_placed hplaced hl hids⟩
  intro s hs hm
  obtain ⟨m, hmem, hcovers⟩ := hkeeps.covers s (List.mem_filter.2 ⟨hs, hm⟩)
  exact ⟨m, hmem, sameObject_iff.2 hcovers.1⟩

def verifiedScripts : List Script :=
  [.state "DB" "S" .view "V" "CREATE OR REPLACE VIEW DB.S.V AS SELECT '${env}' AS E;",
    .state "DB" "S" .view "W" "CREATE OR REPLACE VIEW DB.S.W AS SELECT '${env}' AS E;", verifiedT]

def verifyBoth : Turn :=
  { rejectedVerify with
    release := ⟨.default, Keyed.empty.insert "env" "dev", .ok verifiedScripts⟩ }

/-- What two views are in a database: one as it is listed, and one with another body. -/
def dumpedViews : String :=
  "CREATE OR REPLACE VIEW DB.S.V AS SELECT 'dev' AS E;" ++
    "CREATE OR REPLACE VIEW DB.S.W AS SELECT 'prod' AS E;"

theorem verify_counts_failures_of_verifyBoth :
    let r := verifyBoth.start (runAll [deployOf tableA] (.loaded "2024-01-01T00:00:00Z" "DB"
      [("s", dumpedViews)]))
    (∀ t ∈ [deployOf tableA], t.ListsUpper) ∧
      verifyBoth.release.listing = .ok verifiedScripts ∧
      (verifiedScripts.map fun s => (s.objectType, s.id)).Nodup ∧
      (verifyBoth.release.verify r).2 = .error (.verificationFailed 2) := by
  intro r
  have hupper : ∀ t ∈ [deployOf tableA], t.ListsUpper := by
    intro t ht all hl s hs
    cases List.mem_singleton.1 ht
    cases hl
    cases List.mem_singleton.1 hs
    exact Script.isUpper_ofContent ..
  have hids : (verifiedScripts.map fun s => (s.objectType, s.id)).Nodup := by decide +kernel
  have hcount : verifyBoth.release.failureCount r verifiedScripts = 2 := by decide +kernel
  obtain ⟨-, -, -, -, checked, hresult⟩ := verify_counts_failures "2024-01-01T00:00:00Z" "DB"
    [("s", dumpedViews)] hupper verifyBoth rfl hids
  exact ⟨hupper, rfl, hids, hresult.trans (by rw [hcount]; rfl)⟩

end Turn

end SchemaDeploy
