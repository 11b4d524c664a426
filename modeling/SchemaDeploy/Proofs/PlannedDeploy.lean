import SchemaDeploy.Project.Workspace
import SchemaDeploy.Proofs.RepeatedDeploy
import SchemaDeploy.Proofs.ResumedDeploy

namespace SchemaDeploy

/-- Whether an error says that scripts cannot be put in order. -/
def SyncError.isSequencing : SyncError → Bool
  | .cyclicDependency _ => true
  | .unresolvedOverride _ _ => true
  | _ => false

namespace Release

variable {l : Release} {g : DependencyGraph} {b : Bool} {r r' : Repository}

theorem plan_state (l : Release) (r : Repository) :
    (l.plan r).1.state = r.state ∧ (l.plan r).1.executions = r.executions :=
  ⟨rfl, rfl⟩

theorem deployChanged_of_planned_error {e : SyncError} (h : l.planned r.loadHashes = .error e) :
    ∃ e', l.deployChanged b r = (r.loadHashes, .error e') := by
  cases hg : l.changedGraph r.loadHashes with
  | error e' =>
      refine ⟨e', ?_⟩
      simp only [deployChanged, hg]
  | ok g =>
      cases ho : deployOrder r.loadHashes g with
      | error e' =>
          refine ⟨e', ?_⟩
          simp only [deployChanged, hg, ho]
      | ok order =>
          have hp := planned_eq_ok_iff.2 ⟨g, order, hg, ho, rfl⟩
          rw [h] at hp
          cases hp

theorem deploy_of_plan_error {e : SyncError} (h : (l.plan r).2 = .error e) :
    (∃ e', (l.deploy b r).2 = .error e') ∧ (l.deploy b r).1.executions = r.executions ∧
      ∃ syncs, (l.deploy b r).1.state = { r.state with syncs := syncs } := by
  obtain ⟨e', he⟩ := deployChanged_of_planned_error (b := b)
    (r := r.startSync .deploy (ChangeType.deploy.word ++ " started.")) h
  obtain ⟨syncs, hd⟩ := bracketed_eq (keepsLog_deployChanged l b) .deploy id r
  rw [deploy, hd, he]
  exact ⟨⟨e', rfl⟩, rfl, syncs, rfl⟩

theorem execution_eq (l : Release) (s : Script) :
    l.execution s = ⟨s.id, trimText (l.parameters.inject s.content)⟩ := by
  simp only [execution, injected, Parameters.injectScript, Script.setContent]

/-- A deployment goes by the plan: it runs the scripts of the plan in order, or fails where there is
no plan. -/
theorem deploy_follows_plan (l : Release) (r : Repository) :
    ((l.plan r).1.state = r.state ∧ (l.plan r).1.executions = r.executions) ∧
      (∀ p, (l.plan r).2 = .ok p → (∀ s ∈ p, r.fails s = false) →
        (l.deploy false r).2 = .ok p.length ∧
          (l.deploy false r).1.executions =
            r.executions ++ p.map fun s => ⟨s.id, trimText (l.parameters.inject s.content)⟩) ∧
      ∀ e, (l.plan r).2 = .error e →
        (∃ e', (l.deploy false r).2 = .error e') ∧
          (l.deploy false r).1.executions = r.executions ∧
          ∃ syncs, (l.deploy false r).1.state = { r.state with syncs := syncs } := by
  refine ⟨plan_state l r, ?_, fun e he => deploy_of_plan_error he⟩
  intro p hp ha
  obtain ⟨g, order, hg, ho, rfl⟩ := planned_eq_ok_iff.1 hp
  obtain ⟨hok, hexecutions⟩ := deploy_of_accepts hg ho ha
  refine ⟨hok, hexecutions.trans ?_⟩
  exact congrArg _ (List.map_congr_left fun s _ => execution_eq l s)

def templatedViews : Release :=
  ⟨.default, Keyed.empty.insert "env" "dev",
    .ok [.state "DB" "S" .view "TOP" "CREATE VIEW TOP AS SELECT * FROM BASE",
      .state "DB" "S" .view "BASE" "CREATE VIEW BASE AS SELECT '${ENV}' AS E"]⟩

theorem deploy_follows_plan_twoViews :
    let r := Repository.new "2024-01-01T00:00:00Z" "DB"
    ∃ p, (templatedViews.plan r).2 = .ok p ∧ p.map Script.id = ["DB.S.BASE", "DB.S.TOP"] ∧
      (templatedViews.deploy false r).2 = .ok 2 ∧
      (templatedViews.deploy false r).1.executions =
        [⟨"DB.S.BASE", "CREATE VIEW BASE AS SELECT 'dev' AS E"⟩,
          ⟨"DB.S.TOP", "CREATE VIEW TOP AS SELECT * FROM BASE"⟩] := by
  intro r
  obtain ⟨hplan, hexecuted⟩ :
      (templatedViews.plan r).2.toOption.map (List.map fun t => (t.id, r.fails t)) =
          some [("DB.S.BASE", false), ("DB.S.TOP", false)] ∧
        (templatedViews.plan r).2.toOption.map (List.map fun t =>
            (⟨t.id, trimText (templatedViews.parameters.inject t.content)⟩ : Execution)) =
          some [⟨"DB.S.BASE", "CREATE VIEW BASE AS SELECT 'dev' AS E"⟩,
            ⟨"DB.S.TOP", "CREATE VIEW TOP AS SELECT * FROM BASE"⟩] := by
    decide +kernel
  obtain ⟨base, top, hp, hbase, htop⟩ := plan_of_two hplan
  rw [Prod.mk.injEq] at hbase htop
  have hfails : ∀ s ∈ [base, top], r.fails s = false :=
    List.forall_mem_cons.2 ⟨hbase.2, List.forall_mem_singleton.2 htop.2⟩
  obtain ⟨hok, hexecutions⟩ := (deploy_follows_plan templatedViews r).2.1 _ hp hfails
  refine ⟨_, hp, ?_, hok, hexecutions.trans ?_⟩
  · rw [List.map_cons, List.map_singleton, hbase.1, htop.1]
  · rw [hp] at hexecuted
    exact Option.some.inj hexecuted

theorem error_of_deployStep {p : Progress} {i : Nat} {s : Script} {e : SyncError}
    (h : l.deployStep b g p i s r = (r', .error e)) :
    ∃ id message, e = .executionFailed id message := by
  cases hb : (g.dependenciesOf i).any p.blocked.contains with
  | true =>
      simp only [deployStep, hb, if_true] at h
      cases h
  | false =>
      cases hr : r.rejects (l.injected s) b with
      | true =>
          rw [deployStep_of_rejects hb hr] at h
          split at h
          · cases h
          · cases h
            exact ⟨_, _, rfl⟩
      | false =>
          rw [deployStep_of_accepts hb hr] at h
          cases h

theorem error_of_deploySteps {is : List Nat} {p : Progress} {e : SyncError}
    (h : l.deploySteps b g is p r = (r', .error e)) :
    ∃ id message, e = .executionFailed id message := by
  induction is generalizing p r with
  | nil => cases h
  | cons i is ih =>
      simp only [deploySteps] at h
      split at h
      · exact ih h
      · split at h
        · next hstep =>
          cases h
          exact error_of_deployStep hstep
        · exact ih h

theorem not_isSequencing_of_planned {order : List Nat} (hg : l.changedGraph r = .ok g)
    (ho : g.order = .ok order) {e : SyncError} (h : l.planned r = .error e) :
    e.isSequencing = false := by
  simp only [planned, hg] at h
  split at h
  · cases h
    rfl
  · rw [DependencyGraph.sorted_eq_ok_iff.2 ⟨order, ho, rfl⟩] at h
    cases h

theorem not_isSequencing_of_deployChanged {order : List Nat}
    (hg : l.changedGraph r.loadHashes = .ok g) (ho : g.order = .ok order) {e : SyncError}
    (h : (l.deployChanged b r).2 = .error e) : e.isSequencing = false := by
  simp only [deployChanged, hg, deployOrder, ho] at h
  cases hm : deployedMigration? r.loadHashes g with
  | some s =>
      rw [hm] at h
      cases h
      rfl
  | none =>
      rw [hm] at h
      dsimp only at h
      rcases hrun : l.deploySteps b g order .start r.loadHashes with ⟨r', f | p⟩
      · rw [hrun] at h
        cases h
        obtain ⟨id, message, rfl⟩ := error_of_deploySteps hrun
        rfl
      · rw [hrun] at h
        simp only [Progress.outcome] at h
        split at h
        · cases h
        · cases h
          rfl

end Release

theorem checkProject_spec {tree : FileTree} {root : String} {config : Config}
    {ordered : List Script} (h : checkProject tree root config = .ok ordered) :
    ∃ all, (ScriptSource.ofRoot root tree).scripts tree = .ok all ∧
      config.validateOverrides all = .ok () ∧
      ∃ g, DependencyGraph.ofScripts
          (config.overridesWithin (all.filter fun s => !config.isExcluded s))
          (all.filter fun s => !config.isExcluded s) = .ok g ∧ g.Acyclic := by
  unfold checkProject at h
  split at h
  · cases h
  · next all hall =>
    simp only [checkScripts] at h
    split at h
    · cases h
    · next hv =>
      split at h
      · cases h
      · next g hg =>
        obtain ⟨order, ho, -⟩ := DependencyGraph.sorted_eq_ok_iff.1 h
        have hw := (DependencyGraph.ofScripts_spec hg).1
        exact ⟨all, hall, hv, g, hg, (DependencyGraph.exists_order_iff hw).1 ⟨order, ho⟩⟩

namespace Workspace

variable {w : Workspace} {tree : FileTree}

theorem run_snd {α : Type} (w : Workspace) (op : Operation α) :
    (w.run op).2 = (op w.repository).2 :=
  rfl

theorem exists_order_of_checkProject {root : String} {ordered : List Script}
    (hs : w.source = ScriptSource.ofRoot root tree)
    (hc : checkProject tree root w.config = .ok ordered) :
    ∃ g order, (w.release tree).changedGraph w.repository.loadHashes = .ok g ∧
      g.order = .ok order := by
  obtain ⟨all, hall, hv, g, hg, ha⟩ := checkProject_spec hc
  have hlisting : (w.release tree).listing = .ok all := by
    rw [release, hs, hall]
  rw [Release.changedGraph_of_listing hlisting hv]
  refine DependencyGraph.exists_order_of_sublist (fun s h => ?_) List.filter_sublist hg ha
  exact ScriptSource.isUpper_of_scripts hall s (List.mem_of_mem_filter h)

/-- If all scripts of a project can be sequenced, then so can those that are changed, whatever its
repository has recorded; a plan or a deployment never fails over a cycle or an override. -/
theorem sequenced_of_checkProject {root : String} {ordered : List Script}
    (hs : w.source = ScriptSource.ofRoot root tree)
    (hc : checkProject tree root w.config = .ok ordered) :
    (∃ g order, (w.release tree).changedGraph w.repository.loadHashes = .ok g ∧
      g.order = .ok order) ∧
      (∀ e, (w.plan tree).2 = .error e → e.isSequencing = false) ∧
      ∀ onlyHashes e, (w.deploy tree onlyHashes).2 = .error e → e.isSequencing = false := by
  have hex := exists_order_of_checkProject hs hc
  refine ⟨hex, ?_, ?_⟩
  · obtain ⟨g, order, hg, ho⟩ := hex
    intro e he
    exact Release.not_isSequencing_of_planned hg ho he
  · obtain ⟨g, order, hg, ho⟩ := hex
    intro onlyHashes e he
    obtain ⟨syncs, hd⟩ := bracketed_eq
      (Release.keepsLog_deployChanged (w.release tree) onlyHashes) .deploy id w.repository
    rw [deploy, run_snd, Release.deploy, hd] at he
    exact Release.not_isSequencing_of_deployChanged
      (r := w.repository.startSync .deploy (ChangeType.deploy.word ++ " started.")) hg ho he

def tableTree (migrations : String) : FileTree :=
  ⟨[(["main"], .directory), (["main", "DB"], .directory), (["main", "DB", "S"], .directory),
    (["main", "DB", "S", "TABLES"], .directory),
    (["main", "DB", "S", "TABLES", "T.sql"], .file migrations.toUTF8)]⟩

def tableCreated : String :=
  "---version: 0\nCREATE TABLE DB.S.T (A INT);\n"

def tableAltered : String :=
  tableCreated ++ "---version: 1\nALTER TABLE DB.S.T ADD COLUMN B INT;\n"

theorem sequenced_tableAltered :
    let created := tableTree tableCreated
    let w := (Workspace.deploy ⟨.default, .empty, .ofRoot "" created, .new "" "DB"⟩ created false).1
    let altered := tableTree tableAltered
    w.repository.state.history.keys = ["DB.S.T:0"] ∧
      ∃ ordered, checkProject altered "" w.config = .ok ordered ∧
        ordered.map Script.id = ["DB.S.T:0", "DB.S.T:1"] ∧
        ∃ g order, (w.release altered).changedGraph w.repository.loadHashes = .ok g ∧
          g.order = .ok order := by
  intro created w altered
  obtain ⟨hkeys, hsource, hids⟩ : w.repository.state.history.keys = ["DB.S.T:0"] ∧
      w.source = .ofRoot "" altered ∧
      (checkProject altered "" w.config).toOption.map (List.map Script.id) =
        some ["DB.S.T:0", "DB.S.T:1"] := by
    decide +kernel
  obtain ⟨ordered, hc, hordered⟩ := exists_ok_of_map hids
  refine ⟨hkeys, ordered, hc, hordered, ?_⟩
  exact (sequenced_of_checkProject hsource hc).1

end Workspace

end SchemaDeploy
