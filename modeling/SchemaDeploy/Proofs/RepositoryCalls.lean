import SchemaDeploy.Change.Rollback
import SchemaDeploy.Proofs.DeployRun

namespace SchemaDeploy

namespace Repository

theorem rollback_cases (r : Repository) (s : Script) :
    (∃ sql, r.rollback s = (r.reject s sql, .error (.executionFailed s.id (rejection sql)))) ∨
      ((r.rollback s).2 = .ok () ∧
        (r.rollback s).1.state.history = r.state.history.erase s.id ∧
        (r.rollback s).1.currentSync = r.currentSync ∧
        (r.rollback s).1.state.syncs = r.state.syncs) := by
  rw [rollback]
  cases statement? (s.migration.bind (·.rollback)) with
  | none => exact .inr ⟨rfl, rfl, rfl, rfl⟩
  | some sql =>
      dsimp only
      split
      · exact .inl ⟨sql, rfl⟩
      · split <;> exact .inr ⟨rfl, rfl, rfl, rfl⟩

end Repository

/-- A call of a repository for one script. -/
inductive Call where
  | deploy (s : Script) (onlyHashes : Bool)
  | rollback (s : Script)
  deriving DecidableEq, Repr

namespace Call

def script : Call → Script
  | deploy s _ => s
  | rollback s => s

def run : Call → Repository → Repository
  | deploy s b, r => (r.deploy s b).1
  | rollback s, r => (r.rollback s).1

def runAll (cs : List Call) (r : Repository) : Repository :=
  cs.foldl (fun r c => c.run r) r

variable {r : Repository} {c : Call} {cs : List Call}

theorem runAll_cons (c : Call) (cs : List Call) (r : Repository) :
    runAll (c :: cs) r = runAll cs (c.run r) :=
  rfl

theorem runAll_append (cs ds : List Call) (r : Repository) :
    runAll (cs ++ ds) r = runAll ds (runAll cs r) :=
  List.foldl_append

theorem runAll_preserves {P : Repository → Prop} (hP : ∀ c ∈ cs, ∀ r, P r → P (c.run r))
    (h : P r) : P (runAll cs r) := by
  induction cs generalizing r with
  | nil => exact h
  | cons c cs ih =>
      obtain ⟨hc, hcs⟩ := List.forall_mem_cons.1 hP
      exact ih hcs (hc r h)

theorem run_history (c : Call) (r : Repository) :
    (c.run r).state.history = r.state.history ∨
      (∃ s b, c = deploy s b ∧
        (c.run r).state.history = r.state.history.insert s.id (r.record s)) ∨
      (∃ s, c = rollback s ∧ (c.run r).state.history = r.state.history.erase s.id) := by
  cases c with
  | deploy s b =>
      rw [run]
      cases hr : r.rejects s b with
      | true =>
          rw [Repository.deploy_of_rejects hr]
          exact .inl rfl
      | false =>
          rw [Repository.deploy_of_not_rejects hr]
          exact .inr (.inl ⟨s, b, rfl, Repository.completed_history r s b⟩)
  | rollback s =>
      rw [run]
      rcases r.rollback_cases s with ⟨sql, h⟩ | ⟨-, h, -⟩
      · rw [h]
        exact .inl rfl
      · exact .inr (.inr ⟨s, rfl, h⟩)

theorem get?_history_run_of_ne {id : String} (h : id ≠ c.script.id) :
    (c.run r).state.history.get? id = r.state.history.get? id := by
  rcases c.run_history r with hr | ⟨s, b, rfl, hr⟩ | ⟨s, rfl, hr⟩
  · rw [hr]
  · rw [hr, Keyed.get?_insert]
    exact if_neg h
  · rw [hr, Keyed.get?_erase]
    exact if_neg h

theorem get?_history_runAll_of_ne {id : String} (h : ∀ c ∈ cs, id ≠ c.script.id) :
    (runAll cs r).state.history.get? id = r.state.history.get? id := by
  refine runAll_preserves (P := fun q => q.state.history.get? id = r.state.history.get? id) ?_ rfl
  intro c hc q hq
  rw [get?_history_run_of_ne (h c hc), hq]

theorem run_log (c : Call) (r : Repository) :
    (c.run r).currentSync = r.currentSync ∧ (c.run r).state.syncs = r.state.syncs := by
  cases c with
  | deploy s b =>
      rw [run]
      cases hr : r.rejects s b with
      | true =>
          rw [Repository.deploy_of_rejects hr]
          exact ⟨rfl, rfl⟩
      | false =>
          rw [Repository.deploy_of_not_rejects hr]
          exact ⟨Repository.completed_currentSync r s b, Repository.completed_syncs r s b⟩
  | rollback s =>
      rw [run]
      rcases r.rollback_cases s with ⟨sql, h⟩ | ⟨-, -, h⟩
      · rw [h]
        exact ⟨rfl, rfl⟩
      · exact h

theorem runAll_log (cs : List Call) (r : Repository) :
    (runAll cs r).currentSync = r.currentSync ∧ (runAll cs r).state.syncs = r.state.syncs := by
  refine runAll_preserves (P := fun q => q.currentSync = r.currentSync ∧
    q.state.syncs = r.state.syncs) (fun c _ q hq => ?_) ⟨rfl, rfl⟩
  rw [(c.run_log q).1, (c.run_log q).2]
  exact hq

end Call

namespace Release

variable {l : Release} {g : DependencyGraph} {b : Bool} {r : Repository}

section Deployment

/-- The call for the script at a position, if none of its dependencies is blocked. -/
def deployStepCalls (l : Release) (onlyHashes : Bool) (g : DependencyGraph) (p : Progress) (i : Nat)
    (s : Script) : List Call :=
  if (g.dependenciesOf i).any p.blocked.contains then [] else [.deploy (l.injected s) onlyHashes]

def deployCalls (l : Release) (onlyHashes : Bool) (g : DependencyGraph) :
    List Nat → Progress → Repository → List Call
  | [], _, _ => []
  | i :: is, p, r =>
    match g.nodes[i]? with
    | none => l.deployCalls onlyHashes g is p r
    | some s =>
      l.deployStepCalls onlyHashes g p i s ++
        match l.deployStep onlyHashes g p i s r with
        | (_, .error _) => []
        | (r, .ok p) => l.deployCalls onlyHashes g is p r

theorem deployStep_eq_runAll (p : Progress) (i : Nat) (s : Script) (r : Repository) :
    (l.deployStep b g p i s r).1 = Call.runAll (l.deployStepCalls b g p i s) r := by
  rw [deployStep, deployStepCalls]
  split
  · rfl
  · change _ = (r.deploy (l.injected s) b).1
    rcases r.deploy (l.injected s) b with ⟨r', e | u⟩
    · dsimp only
      split <;> rfl
    · rfl

theorem deploySteps_eq_runAll (is : List Nat) (p : Progress) (r : Repository) :
    (l.deploySteps b g is p r).1 = Call.runAll (l.deployCalls b g is p r) r := by
  induction is generalizing p r with
  | nil => rfl
  | cons i is ih =>
      rw [deploySteps, deployCalls]
      cases g.nodes[i]? with
      | none => exact ih p r
      | some s =>
          have hstep := deployStep_eq_runAll (l := l) (g := g) (b := b) p i s r
          dsimp only
          rw [Call.runAll_append, ← hstep]
          rcases l.deployStep b g p i s r with ⟨r', e | p'⟩
          · rfl
          · exact ih p' r'

theorem deployCalls_sublist (is : List Nat) (p : Progress) (r : Repository) :
    (l.deployCalls b g is p r).Sublist
      ((g.scriptsAt is).map fun s => .deploy (l.injected s) b) := by
  induction is generalizing p r with
  | nil => exact .slnil
  | cons i is ih =>
      rw [deployCalls]
      cases hi : g.nodes[i]? with
      | none =>
          have hs : g.scriptsAt (i :: is) = g.scriptsAt is := List.filterMap_cons_none hi
          rw [hs]
          exact ih p r
      | some s =>
          rw [DependencyGraph.scriptsAt_cons hi, List.map_cons, ← List.singleton_append]
          apply List.Sublist.append
          · rw [deployStepCalls]
            split
            · exact List.nil_sublist _
            · exact .refl _
          · rcases l.deployStep b g p i s r with ⟨r', e | p'⟩
            · exact List.nil_sublist _
            · exact ih p' r'

def callsOfDeploy (l : Release) (onlyHashes : Bool) (r : Repository) : List Call :=
  match l.changedGraph r with
  | .error _ => []
  | .ok g =>
    match deployOrder r g with
    | .error _ => []
    | .ok order => l.deployCalls onlyHashes g order .start r

theorem deployChanged_eq_runAll (l : Release) (b : Bool) (r : Repository) :
    (l.deployChanged b r).1 = Call.runAll (l.callsOfDeploy b r.loadHashes) r.loadHashes := by
  simp only [deployChanged, callsOfDeploy]
  cases l.changedGraph r.loadHashes with
  | error e => rfl
  | ok g =>
      dsimp only
      cases deployOrder r.loadHashes g with
      | error e => rfl
      | ok order =>
          dsimp only
          rw [← deploySteps_eq_runAll]
          rcases l.deploySteps b g order .start r.loadHashes with ⟨r', e | p⟩ <;> rfl

theorem callsOfDeploy_spec (l : Release) (b : Bool) (r : Repository) :
    l.callsOfDeploy b r = [] ∨ ∃ all ss : List Script, l.listing = .ok all ∧
      ss.Perm (l.changed r all) ∧
      (∀ s ∈ ss, s.isMigration = true → r.isDeployed s = false) ∧
      (l.callsOfDeploy b r).Sublist (ss.map fun s => .deploy (l.injected s) b) := by
  rw [callsOfDeploy]
  cases hg : l.changedGraph r with
  | error e => exact .inl rfl
  | ok g =>
      dsimp only
      cases ho : deployOrder r g with
      | error e => exact .inl rfl
      | ok order =>
          obtain ⟨all, hl, -⟩ := changedGraph_spec hg
          have hprep := prepared_of_deployOrder hl hg ho
          refine .inr ⟨all, _, hl, hprep.perm, fun s hs hm => ?_,
            deployCalls_sublist order .start r⟩
          have hnone := hprep.undeployed
          rw [deployedMigration?, List.find?_eq_none] at hnone
          have hs' := hnone s (hprep.sorts.scriptsAt_perm.mem_iff.1 hs)
          simpa [hm] using hs'

end Deployment

section Rollback

def rollbackCall (l : Release) (s : Script) : Call :=
  if (l.injected s).isMigration then .rollback (l.injected s) else .deploy (l.injected s) false

def rollbackCalls (l : Release) : List Script → Repository → List Call
  | [], _ => []
  | s :: ss, r =>
    l.rollbackCall s ::
      match l.rollbackStep s r with
      | (_, .error _) => []
      | (r, .ok ()) => l.rollbackCalls ss r

theorem rollbackStep_eq_run (s : Script) (r : Repository) :
    (l.rollbackStep s r).1 = (l.rollbackCall s).run r := by
  rw [rollbackStep, rollbackCall]
  split <;> rfl

theorem rollbackCall_script (l : Release) (s : Script) :
    (l.rollbackCall s).script = l.injected s := by
  rw [rollbackCall]
  split <;> rfl

theorem rollbackSteps_eq_runAll (ss : List Script) (r : Repository) :
    (l.rollbackSteps ss r).1 = Call.runAll (l.rollbackCalls ss r) r := by
  induction ss generalizing r with
  | nil => rfl
  | cons s ss ih =>
      rw [rollbackSteps, rollbackCalls, Call.runAll_cons, ← rollbackStep_eq_run]
      rcases l.rollbackStep s r with ⟨r', e | u⟩
      · rfl
      · exact ih r'

theorem rollbackCalls_prefix_map (ss : List Script) (r : Repository) :
    l.rollbackCalls ss r <+: ss.map l.rollbackCall := by
  induction ss generalizing r with
  | nil => exact List.prefix_refl _
  | cons s ss ih =>
      rw [rollbackCalls, List.map_cons, List.prefix_cons_inj]
      rcases l.rollbackStep s r with ⟨r', e | u⟩
      · exact List.nil_prefix
      · exact ih r'

theorem rollbackStep_error {s : Script} {e : SyncError} (h : (l.rollbackStep s r).2 = .error e) :
    ∃ id message, e = .executionFailed id message := by
  simp only [rollbackStep] at h
  split at h
  · rcases r.rollback_cases (l.injected s) with ⟨sql, hr⟩ | ⟨hr, -⟩
    · rw [hr] at h
      cases h
      exact ⟨_, _, rfl⟩
    · rw [hr] at h
      cases h
  · cases hr : r.rejects (l.injected s) false with
    | true =>
        rw [Repository.deploy_of_rejects hr] at h
        cases h
        exact ⟨_, _, rfl⟩
    | false =>
        rw [Repository.deploy_of_not_rejects hr] at h
        cases h

theorem rollbackSteps_error {ss : List Script} {e : SyncError}
    (h : (l.rollbackSteps ss r).2 = .error e) : ∃ id message, e = .executionFailed id message := by
  induction ss generalizing r with
  | nil => cases h
  | cons s ss ih =>
      rw [rollbackSteps] at h
      rcases hs : l.rollbackStep s r with ⟨r', e' | u⟩
      · rw [hs] at h
        cases h
        exact rollbackStep_error (congrArg Prod.snd hs)
      · rw [hs] at h
        exact ih h

def callsOfRollback (l : Release) (r : Repository) : List Call :=
  match l.rollbackOrder r with
  | .error _ => []
  | .ok scripts => l.rollbackCalls scripts.reverse r

theorem rollbackChanged_eq_runAll (l : Release) (r : Repository) :
    (l.rollbackChanged r).1 = Call.runAll (l.callsOfRollback r.loadHashes) r.loadHashes := by
  simp only [rollbackChanged, callsOfRollback]
  cases l.rollbackOrder r.loadHashes with
  | error e => rfl
  | ok scripts =>
      dsimp only
      rw [← rollbackSteps_eq_runAll]
      rcases l.rollbackSteps scripts.reverse r.loadHashes with ⟨r', e | u⟩ <;> rfl

theorem keepsLog_rollbackChanged (l : Release) : KeepsLog l.rollbackChanged := by
  intro r
  rw [rollbackChanged_eq_runAll]
  exact Call.runAll_log _ r.loadHashes

def rollbackBegun (r : Repository) : Repository :=
  (r.startSync .rollback (ChangeType.rollback.word ++ " started.")).loadHashes

theorem rollback_eq (l : Release) (r : Repository) : ∃ syncs,
    l.rollback r =
      ((l.rollbackChanged
          (r.startSync .rollback (ChangeType.rollback.word ++ " started."))).1.withSyncs syncs,
        (l.rollbackChanged
          (r.startSync .rollback (ChangeType.rollback.word ++ " started."))).2) :=
  bracketed_eq (keepsLog_rollbackChanged l) .rollback id r

theorem rollbackChanged_of_ok {n : Nat} (h : (l.rollbackChanged r).2 = .ok n) : ∃ p,
    l.rollbackOrder r.loadHashes = .ok p ∧ (l.rollbackSteps p.reverse r.loadHashes).2 = .ok () ∧
      n = p.length ∧ (l.rollbackChanged r).1 = (l.rollbackSteps p.reverse r.loadHashes).1 := by
  simp only [rollbackChanged] at h ⊢
  cases ho : l.rollbackOrder r.loadHashes with
  | error e =>
      rw [ho] at h
      cases h
  | ok p =>
      rw [ho] at h
      dsimp only at h ⊢
      rcases hrun : l.rollbackSteps p.reverse r.loadHashes with ⟨r', e | u⟩
      · rw [hrun] at h
        cases h
      · rw [hrun] at h
        cases h
        exact ⟨p, rfl, by rw [hrun], rfl, by rw [hrun]⟩

/-- The graph of a rollback: what is undone and then what is put back, with the overrides between
them. -/
structure Unwinding (l : Release) (r : Repository) (all : List Script) (g : DependencyGraph) :
    Prop where
  listed : l.listing = .ok all
  valid : l.config.validateOverrides all = .ok ()
  built : (DependencyGraph.empty (l.config.overridesWithin
      ((l.undone r all).1 ++ (l.undone r all).2))).addAll
    [(l.undone r all).1, (l.undone r all).2] = .ok g

theorem Unwinding.spec {all : List Script} (h : l.Unwinding r all g) :
    g.Wired ∧ g.nodes = (l.undone r all).1 ++ (l.undone r all).2 := by
  obtain ⟨hw, hn, -⟩ := DependencyGraph.addAll_spec (DependencyGraph.wired_empty _) h.built
  refine ⟨hw, hn.trans ?_⟩
  simp [DependencyGraph.empty]

theorem Unwinding.built_iff {overrides : List Override} {ms ss : List Script} :
    (DependencyGraph.empty overrides).addAll [ms, ss] = .ok g ↔
      ∃ first, DependencyGraph.ofScripts overrides ms = .ok first ∧ first.add ss = .ok g := by
  rw [DependencyGraph.addAll_cons_ok_iff]
  apply exists_congr
  intro first
  rw [DependencyGraph.addAll_cons_ok_iff, DependencyGraph.ofScripts]
  simp [DependencyGraph.addAll]

theorem rollbackOrder_eq_ok_iff {p : List Script} : l.rollbackOrder r = .ok p ↔
    ∃ all g order, l.Unwinding r all g ∧ g.order = .ok order ∧ p = g.scriptsAt order := by
  simp only [rollbackOrder, checkedListing]
  constructor
  · intro h
    cases hl : l.listing with
    | error e =>
        rw [hl] at h
        cases h
    | ok all =>
        rw [hl] at h
        dsimp only at h
        cases hv : l.config.validateOverrides all with
        | error e =>
            rw [hv] at h
            cases h
        | ok _ =>
            rw [hv] at h
            dsimp only at h
            split at h
            · cases h
            · next first hfirst =>
              split at h
              · cases h
              · next both hboth =>
                obtain ⟨order, ho, hp⟩ := DependencyGraph.sorted_eq_ok_iff.1 h
                have hbuilt := Unwinding.built_iff.2 ⟨first, hfirst, hboth⟩
                exact ⟨all, both, order, ⟨hl, hv, hbuilt⟩, ho, hp⟩
  · rintro ⟨all, g, order, h, ho, rfl⟩
    obtain ⟨first, hfirst, hboth⟩ := Unwinding.built_iff.1 h.built
    simp only [h.listed, h.valid, hfirst, hboth]
    exact DependencyGraph.sorted_eq_ok_iff.2 ⟨order, ho, rfl⟩

theorem rollbackOrder_spec {p : List Script} (h : l.rollbackOrder r = .ok p) :
    ∃ all, l.listing = .ok all ∧ l.config.validateOverrides all = .ok () ∧
      p.Perm ((l.undone r all).1 ++ (l.undone r all).2) := by
  obtain ⟨all, g, order, hu, ho, rfl⟩ := rollbackOrder_eq_ok_iff.1 h
  obtain ⟨hw, hn⟩ := hu.spec
  exact ⟨all, hu.listed, hu.valid, hn ▸ (DependencyGraph.sorts_of_order hw ho).scriptsAt_perm⟩

theorem callsOfRollback_spec (l : Release) (r : Repository) :
    l.callsOfRollback r = [] ∨ ∃ all ss : List Script, l.listing = .ok all ∧
      ss.Perm ((l.undone r all).1 ++ (l.undone r all).2) ∧
      l.callsOfRollback r <+: ss.map l.rollbackCall := by
  rw [callsOfRollback]
  cases ho : l.rollbackOrder r with
  | error e => exact .inl rfl
  | ok p =>
      obtain ⟨all, hl, -, hperm⟩ := rollbackOrder_spec ho
      exact .inr ⟨all, p.reverse, hl, (List.reverse_perm p).trans hperm,
        rollbackCalls_prefix_map _ _⟩

end Rollback

end Release

end SchemaDeploy
