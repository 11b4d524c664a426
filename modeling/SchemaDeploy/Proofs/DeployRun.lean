import SchemaDeploy.Change.Deploy
import SchemaDeploy.Proofs.Sequencing
import SchemaDeploy.Proofs.RepositorySteps

namespace SchemaDeploy

namespace DependencyGraph

variable {g : DependencyGraph}

def scriptsAt (g : DependencyGraph) (is : List Nat) : List Script :=
  is.filterMap (g.nodes[·]?)

theorem sorted_eq_ok_iff {p : List Script} :
    g.sorted = .ok p ↔ ∃ order, g.order = .ok order ∧ p = g.scriptsAt order := by
  rw [sorted]
  cases g.order <;> simp [scriptsAt, eq_comm]

theorem scriptsAt_cons {i : Nat} {s : Script} (h : g.nodes[i]? = some s) (is : List Nat) :
    g.scriptsAt (i :: is) = s :: g.scriptsAt is :=
  List.filterMap_cons_some h

theorem scriptsAt_append (is js : List Nat) :
    g.scriptsAt (is ++ js) = g.scriptsAt is ++ g.scriptsAt js :=
  List.filterMap_append

theorem filterMap_getElem?_range {α : Type} (l : List α) :
    (List.range l.length).filterMap (l[·]?) = l := by
  induction l with
  | nil => rfl
  | cons a l ih =>
      rw [List.length_cons, List.range_succ_eq_map, List.filterMap_cons, List.filterMap_map]
      exact congrArg (a :: ·) ih

theorem Sorts.scriptsAt_perm {order : List Nat} (h : g.Sorts order) :
    (g.scriptsAt order).Perm g.nodes := by
  have hp := h.perm.filterMap (g.nodes[·]?)
  rwa [filterMap_getElem?_range] at hp

end DependencyGraph

namespace Release

section Injected

variable (l : Release) (s : Script)

@[simp]
theorem injected_database : (l.injected s).database = s.database := by
  simp only [injected, Parameters.injectScript, Script.setContent]

@[simp]
theorem injected_schema : (l.injected s).schema = s.schema := by
  simp only [injected, Parameters.injectScript, Script.setContent]

@[simp]
theorem injected_name : (l.injected s).name = s.name := by
  simp only [injected, Parameters.injectScript, Script.setContent]

@[simp]
theorem injected_objectType : (l.injected s).objectType = s.objectType := by
  simp only [injected, Parameters.injectScript, Script.setContent]

@[simp]
theorem injected_fullName : (l.injected s).fullName = s.fullName := by
  simp only [Script.fullName, injected_database, injected_schema, injected_name]

theorem injected_migration : (l.injected s).migration = s.migration.map fun m =>
    { m with rollback := m.rollback.map l.parameters.inject
             verify := m.verify.map l.parameters.inject } := by
  simp only [injected, Parameters.injectScript]

theorem injected_version : (l.injected s).version = s.version := by
  rw [Script.version, injected_migration, Option.map_map]
  rfl

theorem injected_rollback : (l.injected s).migration.bind (·.rollback) =
    (s.migration.bind (·.rollback)).map l.parameters.inject := by
  rw [injected_migration]
  cases s.migration <;> rfl

@[simp]
theorem injected_isMigration : (l.injected s).isMigration = s.isMigration := by
  rw [Script.isMigration, injected_migration, Option.isSome_map]
  rfl

@[simp]
theorem injected_id : (l.injected s).id = s.id := by
  have hname := injected_fullName l s
  rw [Script.id, Script.id, injected_migration, hname]
  cases s.migration <;> rfl

@[simp]
theorem injected_hash : (l.injected s).hash = s.hash := by
  simp only [injected, Parameters.injectScript, Script.setContent]

/-- The statement that is run for a script, with parameters put in. -/
def execution : Execution :=
  ⟨s.id, (l.injected s).content⟩

end Injected

theorem fails_injected (l : Release) (r : Repository) (s : Script) :
    r.fails (l.injected s) = r.fails s := by
  rw [Repository.fails, Repository.fails, injected_id, injected_fullName]

theorem rejects_injected (l : Release) (r : Repository) (s : Script) :
    r.rejects (l.injected s) false = r.fails s := by
  rw [Repository.rejects, fails_injected]
  exact Bool.true_and _

theorem executions_of_completedAll (l : Release) (r : Repository) (ss : List Script) :
    (r.completedAll (ss.map l.injected) false).executions =
      r.executions ++ ss.map l.execution := by
  rw [Repository.completedAll_executions, List.map_map]
  apply congrArg
  apply List.map_congr_left
  intro s _
  rw [Function.comp_apply, execution, injected_id]

variable {l : Release} {g : DependencyGraph} {b : Bool}

theorem changedGraph_spec {r : Repository} (h : l.changedGraph r = .ok g) :
    ∃ all, l.listing = .ok all ∧ l.config.validateOverrides all = .ok () ∧
      g.nodes = l.changed r all ∧ g.Wired ∧
      DependencyGraph.ofScripts (l.config.overridesWithin g.nodes) g.nodes = .ok g := by
  simp only [changedGraph, checkedListing] at h
  cases hl : l.listing with
  | error e =>
      rw [hl] at h
      cases h
  | ok all =>
      rw [hl] at h
      dsimp only at h
      cases hv : l.config.validateOverrides all with
      | error e =>
          rw [hv] at h
          cases h
      | ok _ =>
          rw [hv] at h
          dsimp only at h
          obtain ⟨hw, hn, -⟩ := DependencyGraph.ofScripts_spec h
          exact ⟨all, rfl, hv, hn, hw, hn ▸ h⟩

theorem changedGraph_of_listing {r : Repository} {all : List Script} (hl : l.listing = .ok all)
    (hv : l.config.validateOverrides all = .ok ()) : l.changedGraph r =
      DependencyGraph.ofScripts (l.config.overridesWithin (l.changed r all)) (l.changed r all) := by
  simp only [changedGraph, checkedListing, hl, hv]

theorem deployOrder_eq_ok_iff {r : Repository} {order : List Nat} :
    deployOrder r g = .ok order ↔ g.order = .ok order ∧ deployedMigration? r g = none := by
  rw [deployOrder]
  cases g.order <;> cases deployedMigration? r g <;> simp

theorem planned_eq_ok_iff {r : Repository} {p : List Script} : l.planned r = .ok p ↔
    ∃ g order, l.changedGraph r = .ok g ∧ deployOrder r g = .ok order ∧ p = g.scriptsAt order := by
  rw [planned]
  cases hg : l.changedGraph r with
  | error e => simp
  | ok g =>
      dsimp only
      cases hm : deployedMigration? r g with
      | some s => simp [deployOrder_eq_ok_iff, hm]
      | none => simp [deployOrder_eq_ok_iff, hm, DependencyGraph.sorted_eq_ok_iff]

theorem nodup_ids_of_changed {r : Repository} {all : List Script} (hn : (all.map Script.id).Nodup)
    (hnodes : g.nodes = l.changed r all) : (g.nodes.map Script.id).Nodup := by
  rw [hnodes, changed, included]
  exact hn.sublist ((List.filter_sublist.trans List.filter_sublist).map _)

theorem changed_subset (l : Release) (r : Repository) (all : List Script) :
    l.changed r all ⊆ all := by
  intro s hs
  exact List.mem_of_mem_filter (List.mem_of_mem_filter hs)

/-- The changed scripts of a listing, arranged and sequenced. -/
structure Prepared (l : Release) (r : Repository) (all : List Script) (g : DependencyGraph)
    (order : List Nat) : Prop where
  valid : l.config.validateOverrides all = .ok ()
  nodes_eq : g.nodes = l.changed r all
  wired : g.Wired
  built : DependencyGraph.ofScripts (l.config.overridesWithin g.nodes) g.nodes = .ok g
  sorts : g.Sorts order
  undeployed : deployedMigration? r g = none

theorem prepared_of_deployOrder {r : Repository} {all : List Script} {order : List Nat}
    (hl : l.listing = .ok all) (hg : l.changedGraph r = .ok g)
    (ho : deployOrder r g = .ok order) : Prepared l r all g order := by
  obtain ⟨all', hl', hv, hnodes, hw, hb⟩ := changedGraph_spec hg
  cases hl.symm.trans hl'
  obtain ⟨hs, hm⟩ := deployOrder_eq_ok_iff.1 ho
  exact ⟨hv, hnodes, hw, hb, DependencyGraph.sorts_of_order hw hs, hm⟩

theorem Prepared.perm {r : Repository} {all : List Script} {order : List Nat}
    (h : Prepared l r all g order) : (g.scriptsAt order).Perm (l.changed r all) :=
  h.nodes_eq ▸ h.sorts.scriptsAt_perm

theorem Prepared.nodup_ids {r : Repository} {all : List Script} {order : List Nat}
    (h : Prepared l r all g order) (hn : (all.map Script.id).Nodup) :
    ((g.scriptsAt order).map Script.id).Nodup :=
  (h.sorts.scriptsAt_perm.map _).nodup_iff.2 (nodup_ids_of_changed hn h.nodes_eq)

theorem records_of_history_eq {r r' : Repository} {done : List Script}
    (hn : (done.map Script.id).Nodup)
    (h : r'.state.history = (r.completedAll (done.map l.injected) b).state.history) :
    r.Records r' done := by
  have hids : (done.map l.injected).map Script.id = done.map Script.id := by
    rw [List.map_map]
    exact List.map_congr_left fun s _ => injected_id l s
  constructor
  · intro s hs
    have hget := Repository.get?_history_of_mem (hids ▸ hn)
      (List.mem_map_of_mem (f := l.injected) hs) r b
    rw [injected_id, ← h] at hget
    refine ⟨_, hget, ?_, ?_⟩
    · rw [Repository.record, injected_id]
    · rw [Repository.record, injected_hash]
  · intro id hid
    rw [h]
    exact Repository.get?_history_of_not_mem (hids ▸ hid) r b

theorem changed_of_records {r r' : Repository} {all done : List Script}
    (hf : ∀ s ∈ all, r.FilesUnder s.id) (hr : r.Records r' done)
    (hn : (all.map Script.id).Nodup) (hsub : done ⊆ all) :
    l.changed r'.loadHashes all =
      (l.changed r.loadHashes all).filter fun s => !(done.map Script.id).contains s.id := by
  rw [changed, changed, List.filter_filter]
  apply List.filter_congr
  intro s hs
  have hall : s ∈ all := List.mem_of_mem_filter hs
  by_cases hid : s.id ∈ done.map Script.id
  · obtain ⟨t, ht, hts⟩ := List.mem_map.1 hid
    cases List.inj_on_of_nodup_map hn (hsub ht) hall hts
    rw [hr.isChanged_of_mem (hf s hall) ht]
    simp [hid]
  · rw [hr.isChanged_of_not_mem (hf s hall) hid]
    simp [hid]

theorem deploySteps_append (is js : List Nat) (p : Progress) (r : Repository) :
    l.deploySteps b g (is ++ js) p r =
      match l.deploySteps b g is p r with
      | (r, .error e) => (r, .error e)
      | (r, .ok p) => l.deploySteps b g js p r := by
  induction is generalizing p r with
  | nil => rfl
  | cons i is ih =>
      simp only [List.cons_append, deploySteps]
      cases g.nodes[i]? with
      | none => exact ih p r
      | some s =>
          dsimp only
          rcases l.deployStep b g p i s r with ⟨r', e | p'⟩
          · rfl
          · exact ih p' r'

theorem deploySteps_preserves {P : Repository → Prop}
    (hP : ∀ r s, P r → P (r.deploy (l.injected s) b).1) (is : List Nat) (p : Progress)
    (r : Repository) (h : P r) : P (l.deploySteps b g is p r).1 := by
  induction is generalizing p r with
  | nil => exact h
  | cons i is ih =>
      have hstep (s : Script) : P (l.deployStep b g p i s r).1 := by
        have hd := hP r s h
        rw [deployStep]
        split
        · exact h
        · split
          · next he => rwa [he] at hd
          · next he =>
            rw [he] at hd
            split <;> exact hd
      rw [deploySteps]
      cases g.nodes[i]? with
      | none => exact ih p r h
      | some s =>
          have hs := hstep s
          dsimp only
          rcases hr : l.deployStep b g p i s r with ⟨r', e | p'⟩
          · rwa [hr] at hs
          · rw [hr] at hs
            exact ih p' r' hs

theorem deployStep_of_rejects {p : Progress} {i : Nat} {s : Script} {r : Repository}
    (hb : (g.dependenciesOf i).any p.blocked.contains = false)
    (hr : r.rejects (l.injected s) b = true) :
    l.deployStep b g p i s r =
      (r.reject (l.injected s) (l.injected s).content,
        if l.config.continueOnFailure then
          .ok { p with blocked := i :: p.blocked, failed := p.failed ++ [s.id] }
        else .error (.executionFailed s.id (Repository.rejection (l.injected s).content))) := by
  simp only [deployStep, hb, Bool.false_eq_true, if_false, Repository.deploy_of_rejects hr,
    injected_id]
  split <;> rfl

theorem deployStep_of_accepts {p : Progress} {i : Nat} {s : Script} {r : Repository}
    (hb : (g.dependenciesOf i).any p.blocked.contains = false)
    (hr : r.rejects (l.injected s) b = false) :
    l.deployStep b g p i s r =
      (r.completed (l.injected s) b, .ok { p with deployed := p.deployed + 1 }) := by
  simp only [deployStep, hb, Bool.false_eq_true, if_false, Repository.deploy_of_not_rejects hr]

theorem any_contains_nil (is : List Nat) : is.any ([] : List Nat).contains = false := by
  simp

theorem deploySteps_of_accepts {is : List Nat} {p : Progress} {r : Repository}
    (hp : p.blocked = []) (ha : ∀ s ∈ g.scriptsAt is, r.rejects (l.injected s) b = false) :
    l.deploySteps b g is p r =
      (r.completedAll ((g.scriptsAt is).map l.injected) b,
        .ok { p with deployed := p.deployed + (g.scriptsAt is).length }) := by
  induction is generalizing p r with
  | nil => rfl
  | cons i is ih =>
      rw [deploySteps]
      cases hi : g.nodes[i]? with
      | none =>
          have hs : g.scriptsAt (i :: is) = g.scriptsAt is := List.filterMap_cons_none hi
          rw [hs] at ha ⊢
          exact ih hp ha
      | some s =>
          rw [DependencyGraph.scriptsAt_cons hi] at ha ⊢
          obtain ⟨hs, hrest⟩ := List.forall_mem_cons.1 ha
          dsimp only
          rw [deployStep_of_accepts (hp ▸ any_contains_nil _) hs]
          have hrest' : ∀ t ∈ g.scriptsAt is,
              (r.completed (l.injected s) b).rejects (l.injected t) b = false := fun t ht => by
            rw [Repository.completed_rejects]
            exact hrest t ht
          dsimp only
          rw [ih (p := { p with deployed := p.deployed + 1 }) hp hrest', List.length_cons,
            Nat.add_right_comm, Nat.add_assoc]
          rfl

/-- What a run that stops at failures leaves behind: the scripts before the first rejected one are
completed, and the rejection is recorded. -/
theorem deploySteps_of_rejects {is js : List Nat} {i : Nat} {s : Script} {p : Progress}
    {r : Repository} (hc : l.config.continueOnFailure = false) (hp : p.blocked = [])
    (ha : ∀ t ∈ g.scriptsAt is, r.rejects (l.injected t) b = false) (hi : g.nodes[i]? = some s)
    (hr : r.rejects (l.injected s) b = true) :
    l.deploySteps b g (is ++ i :: js) p r =
      ((r.completedAll ((g.scriptsAt is).map l.injected) b).reject (l.injected s)
          (l.injected s).content,
        .error (.executionFailed s.id (Repository.rejection (l.injected s).content))) := by
  have hr' : (r.completedAll ((g.scriptsAt is).map l.injected) b).rejects (l.injected s) b =
      true := by
    rw [Repository.completedAll_rejects]
    exact hr
  rw [deploySteps_append, deploySteps_of_accepts hp ha]
  dsimp only
  rw [deploySteps, hi]
  dsimp only
  rw [deployStep_of_rejects (by rw [hp]; exact any_contains_nil _) hr', hc]
  rfl

def begun (r : Repository) : Repository :=
  (r.startSync .deploy (ChangeType.deploy.word ++ " started.")).loadHashes

theorem deployChanged_of_order {r : Repository} {order : List Nat}
    (hg : l.changedGraph r.loadHashes = .ok g) (ho : deployOrder r.loadHashes g = .ok order) :
    l.deployChanged b r =
      ((l.deploySteps b g order .start r.loadHashes).1,
        (l.deploySteps b g order .start r.loadHashes).2.bind Progress.outcome) := by
  simp only [deployChanged, hg, ho]
  rcases l.deploySteps b g order .start r.loadHashes with ⟨r', e | p⟩ <;> rfl

theorem deployChanged_preserves {P : Repository → Prop}
    (hP : ∀ r s, P r → P (r.deploy (l.injected s) b).1) {r : Repository} (h : P r.loadHashes) :
    P (l.deployChanged b r).1 := by
  simp only [deployChanged]
  cases l.changedGraph r.loadHashes with
  | error e => exact h
  | ok g =>
      dsimp only
      cases deployOrder r.loadHashes g with
      | error e => exact h
      | ok order =>
          have hsteps := deploySteps_preserves (g := g) hP order .start r.loadHashes h
          dsimp only
          rcases hr : l.deploySteps b g order .start r.loadHashes with ⟨r', e | p⟩ <;>
            rwa [hr] at hsteps

theorem keepsLog_deployChanged (l : Release) (b : Bool) : KeepsLog (l.deployChanged b) := by
  intro r
  apply deployChanged_preserves (P := fun r' => r'.currentSync = r.currentSync ∧
    r'.state.syncs = r.state.syncs) _ ⟨rfl, rfl⟩
  intro r' s h
  cases hr : r'.rejects (l.injected s) b with
  | true =>
      rw [Repository.deploy_of_rejects hr]
      exact h
  | false =>
      rw [Repository.deploy_of_not_rejects hr]
      simpa using h

theorem deploy_of_order {r : Repository} {order : List Nat}
    (hg : l.changedGraph r.loadHashes = .ok g) (ho : deployOrder r.loadHashes g = .ok order) :
    ∃ syncs, l.deploy b r =
      ({ (l.deploySteps b g order .start (begun r)).1 with
          state := { (l.deploySteps b g order .start (begun r)).1.state with syncs := syncs } },
        (l.deploySteps b g order .start (begun r)).2.bind Progress.outcome) := by
  obtain ⟨syncs, hs⟩ := bracketed_eq (keepsLog_deployChanged l b) .deploy id r
  have hrun := deployChanged_of_order (l := l) (b := b) (g := g)
    (r := r.startSync .deploy (ChangeType.deploy.word ++ " started.")) hg ho
  rw [hrun] at hs
  exact ⟨syncs, hs⟩

theorem exists_order_of_deploy_ok {r : Repository} {n : Nat} (h : (l.deploy b r).2 = .ok n) :
    ∃ g order, l.changedGraph r.loadHashes = .ok g ∧ deployOrder r.loadHashes g = .ok order := by
  obtain ⟨syncs, hs⟩ := bracketed_eq (keepsLog_deployChanged l b) .deploy id r
  rw [deploy, hs] at h
  simp only [deployChanged] at h
  split at h
  · cases h
  · next g hg =>
    split at h
    · cases h
    · next order ho => exact ⟨g, order, hg, ho⟩

end Release

end SchemaDeploy
