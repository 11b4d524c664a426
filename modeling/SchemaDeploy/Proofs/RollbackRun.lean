import SchemaDeploy.Proofs.RollbackEffect

namespace SchemaDeploy

namespace DependencyGraph

variable {g : DependencyGraph} {order : List Nat} {i j : Nat}

/-- Every position once, before those of its dependencies. -/
structure Unwinds (g : DependencyGraph) (order : List Nat) : Prop where
  perm : order.Perm (List.range g.nodes.length)
  before : ∀ i j, g.DependsOn i j → [i, j].Sublist order

theorem Sorts.pair_sublist (hg : g.Wired) (hs : g.Sorts order) (hd : g.DependsOn i j) :
    [j, i].Sublist order := by
  obtain ⟨p, q, rfl⟩ := List.append_of_mem (hs.mem_iff.2 (hg.lt hd).1)
  have hj : [j].Sublist p := List.singleton_sublist.2 (hs.after p i q rfl j hd)
  exact hj.append (List.singleton_sublist.2 List.mem_cons_self)

theorem Sorts.unwinds (hg : g.Wired) (hs : g.Sorts order) : g.Unwinds order.reverse where
  perm := (List.reverse_perm order).trans hs.perm
  before _ _ hd := (hs.pair_sublist hg hd).reverse

theorem mem_of_pair_sublist {p q : List Nat} (hn : (p ++ i :: q).Nodup)
    (h : [j, i].Sublist (p ++ i :: q)) : j ∈ p := by
  have hi : i ∉ q := (List.nodup_cons.1 (List.nodup_append.1 hn).2.1).1
  obtain ⟨l, m, hlm, hl, hm⟩ := List.sublist_append_iff.1 h
  cases l with
  | nil =>
      rw [List.nil_append] at hlm
      exact absurd (List.singleton_sublist.1 (hlm ▸ hm).tail) hi
  | cons k l =>
      cases (List.cons.inj hlm).1
      exact hl.subset List.mem_cons_self

theorem Unwinds.sorts (h : g.Unwinds order) : g.Sorts order.reverse := by
  have hperm := (List.reverse_perm order).trans h.perm
  refine ⟨hperm, fun p i q hp j hd => mem_of_pair_sublist ?_ (hp ▸ (h.before i j hd).reverse)⟩
  exact hp ▸ hperm.nodup_iff.2 List.nodup_range

theorem scriptsAt_reverse (order : List Nat) :
    g.scriptsAt order.reverse = (g.scriptsAt order).reverse :=
  List.filterMap_reverse

theorem Unwinds.scriptsAt_perm (h : g.Unwinds order) : (g.scriptsAt order).Perm g.nodes := by
  have hp := h.sorts.scriptsAt_perm
  rw [scriptsAt_reverse] at hp
  exact (List.reverse_perm _).symm.trans hp

theorem dependsOn_of_version (hg : g.Wired) {s t : Script} {v w : Nat} (hs : g.nodes[i]? = some s)
    (ht : g.nodes[j]? = some t) (htype : t.objectType = s.objectType)
    (hname : t.fullName = s.fullName) (hv : s.version = some v) (hw : t.version = some w)
    (hlt : w < v) : g.DependsOn i j := by
  refine (hg.dependsOn_iff i j).2 ⟨s, t, hs, ht, .inl ?_⟩
  simp [Dependency.Infers, Dependency.dependsOn, Dependency.isEarlierVersion, hv, hw, htype, hname,
    hlt]

end DependencyGraph

def ScriptEvent.outcome (e : ScriptEvent) : String × SyncStatus :=
  (e.scriptId, e.status)

namespace Repository

variable {r r' : Repository} {s : Script}

/-- What a call that succeeds, and the statement it may run, leave in the logs. -/
structure Logs (r r' : Repository) (id : String) (sql? : Option String) : Prop where
  failing : r'.failing = r.failing
  executions : r'.executions = r.executions ++ sql?.toList.map (⟨id, ·⟩)
  events : r'.state.events.map ScriptEvent.outcome =
    r.state.events.map ScriptEvent.outcome ++ [(id, .success)]

theorem logs_deploy (h : r.rejects s false = false) :
    Logs r (r.deploy s false).1 s.id (some s.content) := by
  obtain ⟨e, hevents, houtcome⟩ := completed_events r s false
  rw [deploy_of_not_rejects h]
  refine ⟨completed_failing r s false, completed_executions r s, ?_⟩
  rw [hevents, List.map_append]
  exact congrArg (_ ++ [·]) houtcome

theorem rollback_of_rejects {sql : String}
    (hsql : statement? (s.migration.bind (·.rollback)) = some sql) (h : r.fails s = true) :
    r.rollback s = (r.reject s sql, .error (.executionFailed s.id (rejection sql))) := by
  rw [rollback, hsql]
  exact if_pos h

theorem rollback_of_accepts {sql? : Option String}
    (hsql : statement? (s.migration.bind (·.rollback)) = sql?)
    (h : (sql?.isSome && r.fails s) = false) :
    (r.rollback s).2 = .ok () ∧ Logs r (r.rollback s).1 s.id sql? := by
  rw [rollback, hsql]
  cases sql? with
  | none => exact ⟨rfl, rfl, (List.append_nil _).symm, List.map_append⟩
  | some sql =>
      have hfails : r.fails s = false := h
      dsimp only
      rw [hfails]
      by_cases hv : s.version = some 0
      · rw [if_pos hv]
        exact ⟨rfl, rfl, rfl, List.map_append⟩
      · rw [if_neg hv]
        exact ⟨rfl, rfl, rfl, List.map_append⟩

end Repository

namespace Release

open Repository

variable {l : Release} {r : Repository} {s : Script} {all ss done : List Script}

/-- The statement that a step runs. A migration without one is only forgotten. -/
def stepStatement? (l : Release) (s : Script) : Option String :=
  if (l.injected s).isMigration then statement? ((l.injected s).migration.bind (·.rollback))
  else some (l.injected s).content

def stepExecutions (l : Release) (s : Script) : List Execution :=
  (l.stepStatement? s).toList.map (⟨s.id, ·⟩)

def stepFails (l : Release) (r : Repository) (s : Script) : Bool :=
  (l.stepStatement? s).isSome && r.fails s

/-- The logs after some steps that succeeded. -/
structure Took (l : Release) (r r' : Repository) (done : List Script) : Prop where
  failing : r'.failing = r.failing
  executions : r'.executions = r.executions ++ done.flatMap l.stepExecutions
  events : r'.state.events.map ScriptEvent.outcome =
    r.state.events.map ScriptEvent.outcome ++ done.map fun s => (s.id, .success)

theorem Took.refl (l : Release) (r : Repository) : l.Took r r [] where
  failing := rfl
  executions := (List.append_nil _).symm
  events := (List.append_nil _).symm

theorem Took.of_logs {r' : Repository} (h : Logs r r' s.id (l.stepStatement? s)) :
    l.Took r r' [s] where
  failing := h.failing
  executions := by
    rw [h.executions, List.flatMap_singleton, stepExecutions]
  events := h.events

theorem Took.cons {r' r'' : Repository} (h : l.Took r r' [s]) (h' : l.Took r' r'' ss) :
    l.Took r r'' (s :: ss) where
  failing := h'.failing.trans h.failing
  executions := by
    rw [h'.executions, h.executions, List.append_assoc, ← List.flatMap_append, List.singleton_append]
  events := by
    rw [h'.events, h.events, List.append_assoc, ← List.map_append, List.singleton_append]

theorem rollbackStep_of_fails (h : l.stepFails r s = true) : ∃ sql, l.stepStatement? s = some sql ∧
    l.rollbackStep s r =
      (r.reject (l.injected s) sql, .error (.executionFailed s.id (rejection sql))) := by
  obtain ⟨hsome, hfails⟩ := Bool.and_eq_true_iff.1 h
  obtain ⟨sql, hsql⟩ := Option.isSome_iff_exists.1 hsome
  refine ⟨sql, hsql, ?_⟩
  rw [← fails_injected l] at hfails
  rw [stepStatement?] at hsql
  rw [rollbackStep, ← injected_id l s]
  by_cases hm : (l.injected s).isMigration = true
  · rw [if_pos hm] at hsql ⊢
    exact rollback_of_rejects hsql hfails
  · rw [if_neg hm] at hsql ⊢
    cases hsql
    exact deploy_of_rejects hfails

theorem rollbackStep_of_not_fails (h : l.stepFails r s = false) :
    l.rollbackStep s r = ((l.rollbackCall s).run r, .ok ()) ∧
      l.Took r ((l.rollbackCall s).run r) [s] := by
  rw [stepFails, ← fails_injected l] at h
  rw [rollbackStep, rollbackCall]
  by_cases hm : (l.injected s).isMigration = true
  · rw [if_pos hm, if_pos hm]
    have hsql : l.stepStatement? s = statement? ((l.injected s).migration.bind (·.rollback)) :=
      if_pos hm
    obtain ⟨hok, hlogs⟩ := rollback_of_accepts hsql.symm h
    rw [injected_id] at hlogs
    exact ⟨Prod.ext rfl hok, .of_logs hlogs⟩
  · rw [if_neg hm, if_neg hm]
    have hsql : l.stepStatement? s = some (l.injected s).content := if_neg hm
    rw [hsql] at h
    have hrejects : r.rejects (l.injected s) false = false := h
    have hlogs := logs_deploy hrejects
    rw [injected_id, ← hsql] at hlogs
    have hok : (r.deploy (l.injected s) false).2 = .ok () := by
      rw [deploy_of_not_rejects hrejects]
    exact ⟨Prod.ext rfl hok, .of_logs hlogs⟩

theorem stepFails_congr {r' : Repository} (h : r'.failing = r.failing) (s : Script) :
    l.stepFails r' s = l.stepFails r s := by
  rw [stepFails, stepFails, fails, fails, h]

theorem rollbackSteps_split (l : Release) (ss : List Script) (r : Repository) : ∃ done rest,
    ss = done ++ rest ∧ (∀ s ∈ done, l.stepFails r s = false) ∧
      l.Took r (Call.runAll (done.map l.rollbackCall) r) done ∧
      ((rest = [] ∧ l.rollbackSteps ss r = (Call.runAll (done.map l.rollbackCall) r, .ok ())) ∨
        ∃ s later sql, rest = s :: later ∧ l.stepFails r s = true ∧ l.stepStatement? s = some sql ∧
          l.rollbackSteps ss r =
            ((Call.runAll (done.map l.rollbackCall) r).reject (l.injected s) sql,
              .error (.executionFailed s.id (rejection sql)))) := by
  induction ss generalizing r with
  | nil => exact ⟨[], [], rfl, by simp, .refl l r, .inl ⟨rfl, rfl⟩⟩
  | cons s ss ih =>
      rw [rollbackSteps]
      cases hfails : l.stepFails r s with
      | true =>
          obtain ⟨sql, hsql, hstep⟩ := rollbackStep_of_fails hfails
          rw [hstep]
          exact ⟨[], s :: ss, rfl, by simp, .refl l r, .inr ⟨s, ss, sql, rfl, hfails, hsql, rfl⟩⟩
      | false =>
          obtain ⟨hstep, htook⟩ := rollbackStep_of_not_fails hfails
          obtain ⟨done, rest, rfl, hdone, htook', hend⟩ := ih ((l.rollbackCall s).run r)
          simp only [stepFails_congr htook.failing] at hdone hend
          rw [hstep]
          refine ⟨s :: done, rest, rfl, ?_, htook.cons htook', hend⟩
          exact List.forall_mem_cons.2 ⟨hfails, hdone⟩

example :
    let r := (oneVersion.rollbackSteps [viewOf "SELECT 2", tableVersion 1, tableVersion 0]
      ((new "2024-01-01T00:00:00Z" "DB").failOn "DB.S.T:1")).1
    r.state.events.map ScriptEvent.outcome = [("DB.S.V", .success), ("DB.S.T:1", .error)] := by
  decide +kernel

/-- The migrations that are recorded, each under its id, and not listed. In a repository that only
operations have changed, these are all recorded migrations that are not listed. -/
structure Removed (r : Repository) (all migrations : List Script) : Prop where
  once : ∃ ids : List String, ids.Nodup ∧
    (∀ id, id ∈ ids ↔ (∃ key h, r.state.history.get? key = some h ∧ h.scriptId = id) ∧
      id ∉ all.map Script.id) ∧
    migrations =
      ids.filterMap fun id => (r.state.history.get? id).bind HistoryRecord.toMigration?
  missing : r.WellKept → (migrations.map Script.id).Perm (r.missing all)

theorem removed_undone_fst (l : Release) (r : Repository) (all : List Script) :
    Removed r all (l.undone r.loadHashes all).1 := by
  refine ⟨⟨(removedIds r.loadHashes all).keys, Keyed.nodup_keys _, fun id => ?_, ?_⟩,
    map_id_undone_perm⟩
  · rw [mem_keys_removedIds_iff, Repository.mem_keys_hashes]
  · rw [undone, recordedMigrations, List.filterMap_filterMap]
    rfl

theorem undone_snd_eq_filter (l : Release) (r : Repository) (all : List Script) :
    (l.undone r all).2 =
      (l.included all).filter fun s => !s.objectType.isVersioned && r.isChanged s := by
  rw [undone, changed, List.filter_filter]

/-- What a rollback is to do: the removed migrations and the changed scripts without a version, each
once and before all that it depends on, and of two versions of one object the higher one first. -/
structure UndoPlan (l : Release) (r : Repository) (all : List Script) (g : DependencyGraph)
    (order : List Nat) : Prop where
  unwinding : l.Unwinding r.loadHashes all g
  built : DependencyGraph.ofScripts (l.config.overridesWithin g.nodes) g.nodes = .ok g
  nodes : ∃ migrations, Removed r all migrations ∧
    g.nodes = migrations ++ (l.included all).filter fun s =>
      !s.objectType.isVersioned && r.loadHashes.isChanged s
  perm : (g.scriptsAt order).Perm g.nodes
  unwinds : g.Unwinds order
  higher_first : ∀ i j s t v w, g.nodes[i]? = some s → g.nodes[j]? = some t →
    t.objectType = s.objectType → t.fullName = s.fullName → s.version = some v →
    t.version = some w → w < v → [i, j].Sublist order

theorem Unwinding.undoPlan {g : DependencyGraph} {order : List Nat}
    (h : l.Unwinding r.loadHashes all g) (ho : g.order = .ok order) :
    l.UndoPlan r all g order.reverse := by
  obtain ⟨hw, hn⟩ := h.spec
  have hunwinds := (DependencyGraph.sorts_of_order hw ho).unwinds hw
  have hbuilt := DependencyGraph.ofScripts_of_addAll h.built
  rw [List.flatten_cons, List.flatten_cons, List.flatten_nil, List.append_nil, ← hn] at hbuilt
  constructor
  case unwinding => exact h
  case built => exact hbuilt
  case nodes =>
    rw [undone_snd_eq_filter] at hn
    exact ⟨_, removed_undone_fst l r all, hn⟩
  case perm => exact hunwinds.scriptsAt_perm
  case unwinds => exact hunwinds
  case higher_first =>
    intro i j s t v w hs ht htype hname hv hw' hlt
    exact hunwinds.before i j
      (DependencyGraph.dependsOn_of_version hw hs ht htype hname hv hw' hlt)

/-- Every rollback takes the steps of such a plan up to the first one that fails; of that step an
event is left and nothing else, and later ones are not taken. Without a plan no step is taken. -/
theorem rollback_unwinds (l : Release) (r : Repository) :
    (∃ e syncs, l.rollback r = ((rollbackBegun r).withSyncs syncs, .error e) ∧
      ¬ ∃ all g order, l.UndoPlan r all g order) ∨
    ∃ all g order done rest q syncs, l.UndoPlan r all g order ∧
      g.scriptsAt order = done ++ rest ∧ (∀ s ∈ done, l.stepFails r s = false) ∧
      q = Call.runAll (done.map l.rollbackCall) (rollbackBegun r) ∧
      l.Took (rollbackBegun r) q done ∧
      (l.rollback r).1.state.history = q.state.history ∧
      (l.rollback r).1.state.objects = q.state.objects ∧
      (l.rollback r).1.executions = q.executions ∧
      ((rest = [] ∧ l.rollback r = (q.withSyncs syncs, .ok g.nodes.length)) ∨
        ∃ s later sql, rest = s :: later ∧ l.stepFails r s = true ∧
          l.stepStatement? s = some sql ∧
          l.rollback r = ((q.reject (l.injected s) sql).withSyncs syncs,
            .error (.executionFailed s.id (rejection sql)))) := by
  obtain ⟨syncs, hrun⟩ := rollback_eq l r
  have hbegun : (r.startSync .rollback (ChangeType.rollback.word ++ " started.")).loadHashes =
      rollbackBegun r := rfl
  rw [hrun]
  simp only [rollbackChanged, hbegun]
  cases horder : l.rollbackOrder (rollbackBegun r) with
  | error e =>
      refine .inl ⟨e, syncs, rfl, ?_⟩
      rintro ⟨all, g, order, hplan⟩
      have hu : l.Unwinding (rollbackBegun r) all g :=
        ⟨hplan.unwinding.listed, hplan.unwinding.valid, hplan.unwinding.built⟩
      obtain ⟨order', ho⟩ := (DependencyGraph.exists_order_iff hu.spec.1).2
        (hplan.unwinds.sorts.acyclic hu.spec.1)
      have hok := rollbackOrder_eq_ok_iff.2 ⟨all, g, order', hu, ho, rfl⟩
      rw [horder] at hok
      cases hok
  | ok p =>
      obtain ⟨all, g, order, hu, ho, rfl⟩ := rollbackOrder_eq_ok_iff.1 horder
      have hplan : l.UndoPlan r all g order.reverse :=
        Unwinding.undoPlan ⟨hu.listed, hu.valid, hu.built⟩ ho
      have hlength : (g.scriptsAt order).length = g.nodes.length := by
        rw [← List.length_reverse, ← DependencyGraph.scriptsAt_reverse, hplan.perm.length_eq]
      obtain ⟨done, rest, hsplit, hdone, htook, hend⟩ :=
        rollbackSteps_split l (g.scriptsAt order.reverse) (rollbackBegun r)
      refine .inr ⟨all, g, order.reverse, done, rest, _, syncs, hplan, hsplit, hdone, rfl, htook, ?_⟩
      dsimp only
      rw [← DependencyGraph.scriptsAt_reverse]
      rcases hend with ⟨hrest, hsteps⟩ | ⟨s, later, sql, hrest, hfails, hsql, hsteps⟩
      · rw [hsteps]
        exact ⟨rfl, rfl, rfl, .inl ⟨hrest, by rw [hlength]⟩⟩
      · rw [hsteps]
        exact ⟨rfl, rfl, rfl, .inr ⟨s, later, sql, hrest, hfails, hsql, rfl⟩⟩

end Release

end SchemaDeploy
