import SchemaDeploy.Proofs.DeployRun

namespace SchemaDeploy

namespace DependencyGraph

variable {g : DependencyGraph} {fails : Nat → Prop}

def Tainted (g : DependencyGraph) (fails : Nat → Prop) (i : Nat) : Prop :=
  ∃ j, Relation.ReflTransGen g.DependsOn i j ∧ fails j

def Culprit (g : DependencyGraph) (fails : Nat → Prop) (i : Nat) : Prop :=
  fails i ∧ ∀ j, Relation.TransGen g.DependsOn i j → ¬ fails j

def FailsAt (g : DependencyGraph) (r : Repository) (i : Nat) : Prop :=
  ∃ s, g.nodes[i]? = some s ∧ r.fails s = true

theorem tainted_iff {i : Nat} :
    g.Tainted fails i ↔ fails i ∨ ∃ j, g.DependsOn i j ∧ g.Tainted fails j := by
  constructor
  · rintro ⟨k, hik, hk⟩
    rcases hik.cases_head with rfl | ⟨j, hij, hjk⟩
    · exact .inl hk
    · exact .inr ⟨j, hij, k, hjk, hk⟩
  · rintro (hi | ⟨j, hij, k, hjk, hk⟩)
    · exact ⟨i, .refl, hi⟩
    · exact ⟨k, .head hij hjk, hk⟩

theorem culprit_iff {i : Nat} :
    g.Culprit fails i ↔ fails i ∧ ∀ j, g.DependsOn i j → ¬ g.Tainted fails j := by
  apply and_congr_right
  intro _
  constructor
  · rintro h j hij ⟨k, hjk, hk⟩
    exact h k (.head' hij hjk) hk
  · intro h k hik hk
    obtain ⟨j, hij, hjk⟩ := Relation.TransGen.head'_iff.1 hik
    exact h j hij ⟨k, hjk, hk⟩

theorem Tainted.exists_culprit (hg : g.Wired) (ha : g.Acyclic) {i : Nat}
    (h : g.Tainted fails i) : ∃ j, g.Culprit fails j := by
  induction ha.acc hg i with
  | intro i _ ih =>
      by_cases hd : ∃ j, g.DependsOn i j ∧ g.Tainted fails j
      · obtain ⟨j, hij, hj⟩ := hd
        exact ih j hij hj
      · have hi := (tainted_iff.1 h).resolve_right hd
        exact ⟨i, culprit_iff.2 ⟨hi, fun j hij hj => hd ⟨j, hij, hj⟩⟩⟩

end DependencyGraph

section Selected

variable {P : Nat → Prop} {xs done : List Nat} {k : Nat}

theorem mem_concat_of_holds (h : ∀ i, i ∈ xs ↔ i ∈ done ∧ P i) (hk : P k) (i : Nat) :
    i ∈ xs ++ [k] ↔ i ∈ done ++ [k] ∧ P i := by
  rw [List.mem_append, List.mem_append, h, List.mem_singleton, or_and_right]
  refine or_congr_right (and_iff_left_of_imp ?_).symm
  rintro rfl
  exact hk

theorem mem_concat_of_fails (h : ∀ i, i ∈ xs ↔ i ∈ done ∧ P i) (hk : ¬ P k) (i : Nat) :
    i ∈ xs ↔ i ∈ done ++ [k] ∧ P i := by
  rw [List.mem_append, h, List.mem_singleton, or_and_right]
  refine (or_iff_left ?_).symm
  rintro ⟨rfl, hi⟩
  exact hk hi

end Selected

namespace Release

open DependencyGraph

variable {l : Release} {g : DependencyGraph} {r r' : Repository} {done ran broken : List Nat}
  {p : Progress}

/-- What a run that goes on after failures has done once it has passed some positions: those in
`ran` were run, and those in `broken` failed. -/
structure Passed (l : Release) (g : DependencyGraph) (r : Repository) (done ran broken : List Nat)
    (p : Progress) (r' : Repository) : Prop where
  ran_sublist : ran.Sublist done
  mem_ran : ∀ i, i ∈ ran ↔ i ∈ done ∧ ¬ g.Tainted (g.FailsAt r) i
  ran_after : ∀ before i after, ran = before ++ i :: after → ∀ j, g.DependsOn i j → j ∈ before
  broken_sublist : broken.Sublist done
  mem_broken : ∀ i, i ∈ broken ↔ i ∈ done ∧ g.Culprit (g.FailsAt r) i
  mem_blocked : ∀ i, i ∈ p.blocked ↔ i ∈ done ∧ g.Tainted (g.FailsAt r) i
  failed_eq : p.failed = (g.scriptsAt broken).map Script.id
  deployed_eq : p.deployed = ran.length
  failing_eq : r'.failing = r.failing
  record_eq : r'.record = r.record
  executions_eq : r'.executions = r.executions ++ (g.scriptsAt ran).map l.execution
  history_eq : r'.state.history =
    (r.completedAll ((g.scriptsAt ran).map l.injected) false).state.history

theorem passed_start (l : Release) (g : DependencyGraph) (r : Repository) :
    Passed l g r [] [] [] .start r where
  ran_sublist := .slnil
  mem_ran := by simp
  ran_after := by simp
  broken_sublist := .slnil
  mem_broken := by simp
  mem_blocked := by simp [Progress.start]
  failed_eq := rfl
  deployed_eq := rfl
  failing_eq := rfl
  record_eq := rfl
  executions_eq := (List.append_nil _).symm
  history_eq := rfl

theorem Passed.tainted_of_blocked (h : Passed l g r done ran broken p r') {i : Nat}
    (hb : (g.dependenciesOf i).any p.blocked.contains = true) :
    ∃ j, g.DependsOn i j ∧ g.Tainted (g.FailsAt r) j := by
  obtain ⟨j, hj, hb⟩ := List.any_eq_true.1 hb
  exact ⟨j, hj, ((h.mem_blocked j).1 (List.contains_iff_mem.1 hb)).2⟩

theorem Passed.clean_of_not_blocked (h : Passed l g r done ran broken p r') {i : Nat}
    (hdone : ∀ j, g.DependsOn i j → j ∈ done)
    (hb : (g.dependenciesOf i).any p.blocked.contains = false) :
    ∀ j, g.DependsOn i j → ¬ g.Tainted (g.FailsAt r) j := by
  intro j hj ht
  have hm := (h.mem_blocked j).2 ⟨hdone j hj, ht⟩
  exact List.any_eq_false.1 hb j hj (List.contains_iff_mem.2 hm)

theorem Passed.skip (h : Passed l g r done ran broken p r') {i : Nat}
    (hd : ∃ j, g.DependsOn i j ∧ g.Tainted (g.FailsAt r) j) :
    Passed l g r (done ++ [i]) ran broken { p with blocked := i :: p.blocked } r' := by
  have ht : g.Tainted (g.FailsAt r) i := tainted_iff.2 (.inr hd)
  have hc : ¬ g.Culprit (g.FailsAt r) i := by
    obtain ⟨j, hij, hj⟩ := hd
    exact fun hc => (culprit_iff.1 hc).2 j hij hj
  exact {
    ran_sublist := h.ran_sublist.trans (List.sublist_append_left _ _)
    mem_ran := mem_concat_of_fails h.mem_ran (not_not.2 ht)
    ran_after := h.ran_after
    broken_sublist := h.broken_sublist.trans (List.sublist_append_left _ _)
    mem_broken := mem_concat_of_fails h.mem_broken hc
    mem_blocked := fun k => (List.perm_append_singleton i _).mem_iff.symm.trans
      (mem_concat_of_holds h.mem_blocked ht k)
    failed_eq := h.failed_eq
    deployed_eq := h.deployed_eq
    failing_eq := h.failing_eq
    record_eq := h.record_eq
    executions_eq := h.executions_eq
    history_eq := h.history_eq }

theorem Passed.fail (h : Passed l g r done ran broken p r') {i : Nat} {s : Script} (sql : String)
    (hi : g.nodes[i]? = some s) (hf : r.fails s = true)
    (hd : ∀ j, g.DependsOn i j → ¬ g.Tainted (g.FailsAt r) j) :
    Passed l g r (done ++ [i]) ran (broken ++ [i])
      { p with blocked := i :: p.blocked, failed := p.failed ++ [s.id] }
      (r'.reject (l.injected s) sql) := by
  have hfails : g.FailsAt r i := ⟨s, hi, hf⟩
  have ht : g.Tainted (g.FailsAt r) i := tainted_iff.2 (.inl hfails)
  exact {
    ran_sublist := h.ran_sublist.trans (List.sublist_append_left _ _)
    mem_ran := mem_concat_of_fails h.mem_ran (not_not.2 ht)
    ran_after := h.ran_after
    broken_sublist := h.broken_sublist.append (.refl _)
    mem_broken := mem_concat_of_holds h.mem_broken (culprit_iff.2 ⟨hfails, hd⟩)
    mem_blocked := fun k => (List.perm_append_singleton i _).mem_iff.symm.trans
      (mem_concat_of_holds h.mem_blocked ht k)
    failed_eq := by
      rw [scriptsAt_append, List.map_append, ← h.failed_eq, scriptsAt_cons hi]
      rfl
    deployed_eq := h.deployed_eq
    failing_eq := h.failing_eq
    record_eq := h.record_eq
    executions_eq := h.executions_eq
    history_eq := h.history_eq }

theorem Passed.run (h : Passed l g r done ran broken p r') {i : Nat} {s : Script}
    (hi : g.nodes[i]? = some s) (hf : r.fails s = false) (hdone : ∀ j, g.DependsOn i j → j ∈ done)
    (hd : ∀ j, g.DependsOn i j → ¬ g.Tainted (g.FailsAt r) j) :
    Passed l g r (done ++ [i]) (ran ++ [i]) broken { p with deployed := p.deployed + 1 }
      (r'.completed (l.injected s) false) := by
  have hfails : ¬ g.FailsAt r i := by
    rintro ⟨t, ht, hft⟩
    rw [hi] at ht
    cases ht
    rw [hf] at hft
    cases hft
  have ht : ¬ g.Tainted (g.FailsAt r) i := by
    intro ht
    rcases tainted_iff.1 ht with hi | ⟨j, hij, hj⟩
    · exact hfails hi
    · exact hd j hij hj
  have hscripts : g.scriptsAt (ran ++ [i]) = g.scriptsAt ran ++ [s] := by
    rw [scriptsAt_append, scriptsAt_cons hi]
    rfl
  exact {
    ran_sublist := h.ran_sublist.append (.refl _)
    mem_ran := mem_concat_of_holds h.mem_ran ht
    ran_after := after_concat h.ran_after fun j hij => (h.mem_ran j).2 ⟨hdone j hij, hd j hij⟩
    broken_sublist := h.broken_sublist.trans (List.sublist_append_left _ _)
    mem_broken := mem_concat_of_fails h.mem_broken fun hc => hfails hc.1
    mem_blocked := mem_concat_of_fails h.mem_blocked ht
    failed_eq := h.failed_eq
    deployed_eq := by
      rw [List.length_append, ← h.deployed_eq]
      rfl
    failing_eq := by rw [Repository.completed_failing, h.failing_eq]
    record_eq := by rw [Repository.completed_record, h.record_eq]
    executions_eq := by
      rw [Repository.completed_executions, h.executions_eq, hscripts, List.map_append,
        List.append_assoc, injected_id]
      rfl
    history_eq := by
      rw [Repository.completed_history, h.history_eq, h.record_eq, hscripts, List.map_append,
        List.map_singleton, Repository.completedAll_concat, Repository.completed_history,
        Repository.completedAll_record] }

theorem Passed.step (hc : l.config.continueOnFailure = true)
    (h : Passed l g r done ran broken p r') {i : Nat} {s : Script} (hi : g.nodes[i]? = some s)
    (hdone : ∀ j, g.DependsOn i j → j ∈ done) :
    ∃ ran' broken' p' r'', l.deployStep false g p i s r' = (r'', .ok p') ∧
      Passed l g r (done ++ [i]) ran' broken' p' r'' := by
  cases hb : (g.dependenciesOf i).any p.blocked.contains with
  | true =>
      refine ⟨ran, broken, _, _, ?_, h.skip (h.tainted_of_blocked hb)⟩
      rw [deployStep, if_pos hb]
  | false =>
      have hd := h.clean_of_not_blocked hdone hb
      have hrejects : r'.rejects (l.injected s) false = r.fails s := by
        simp [Repository.rejects, Repository.fails, h.failing_eq]
      cases hf : r.fails s with
      | true =>
          refine ⟨ran, broken ++ [i], _, _, ?_, h.fail (l.injected s).content hi hf hd⟩
          rw [deployStep_of_rejects hb (hrejects.trans hf), if_pos hc]
      | false =>
          refine ⟨ran ++ [i], broken, _, _, ?_, h.run hi hf hdone hd⟩
          exact deployStep_of_accepts hb (hrejects.trans hf)

theorem deploySteps_passed (hc : l.config.continueOnFailure = true) (r : Repository)
    {order : List Nat} (hlt : ∀ i ∈ order, i < g.nodes.length)
    (hafter : ∀ before i after, order = before ++ i :: after →
      ∀ j, g.DependsOn i j → j ∈ before) :
    ∃ ran broken p r', l.deploySteps false g order .start r = (r', .ok p) ∧
      Passed l g r order ran broken p r' := by
  -- From the end, since the invariant is about the positions that are done.
  induction order using List.reverseRecOn with
  | nil => exact ⟨[], [], .start, r, rfl, passed_start l g r⟩
  | append_singleton done i ih =>
      have hearlier (before : List Nat) (k : Nat) (after : List Nat)
          (he : done = before ++ k :: after) : ∀ j, g.DependsOn k j → j ∈ before :=
        hafter before k (after ++ [i]) (by rw [he, List.append_assoc, List.cons_append])
      obtain ⟨ran, broken, p, r', hrun, h⟩ :=
        ih (fun k hk => hlt k (List.mem_append_left _ hk)) hearlier
      obtain ⟨s, hi⟩ : ∃ s, g.nodes[i]? = some s :=
        ⟨_, List.getElem?_eq_getElem (hlt i (by simp))⟩
      obtain ⟨ran', broken', p', r'', hstep, h'⟩ := h.step hc hi (hafter done i [] rfl)
      refine ⟨ran', broken', p', r'', ?_, h'⟩
      rw [deploySteps_append, hrun]
      dsimp only
      rw [deploySteps, hi]
      dsimp only
      rw [hstep]
      rfl

/-- The result of a deployment that ran the positions `ran`, found the failing ones `broken`, and
left out whatever depends on these. -/
structure WentOn (l : Release) (g : DependencyGraph) (r : Repository) (order ran broken : List Nat)
    (result : Repository × Except SyncError Nat) : Prop where
  ran_sublist : ran.Sublist order
  mem_ran : ∀ i, i ∈ ran ↔ i < g.nodes.length ∧ ¬ g.Tainted (g.FailsAt r) i
  ran_after : ∀ before i after, ran = before ++ i :: after → ∀ j, g.DependsOn i j → j ∈ before
  ran_distinct : ((g.scriptsAt ran).map Script.id).Nodup
  executions_eq : result.1.executions = r.executions ++ (g.scriptsAt ran).map l.execution
  records : r.Records result.1 (g.scriptsAt ran)
  broken_sublist : broken.Sublist order
  mem_broken : ∀ i, i ∈ broken ↔ i < g.nodes.length ∧ g.Culprit (g.FailsAt r) i
  result_of_none : (∀ i, ¬ g.FailsAt r i) → result.2 = .ok ran.length
  result_of_some : (∃ i, g.FailsAt r i) →
    result.2 = .error (.deployIncomplete ((g.scriptsAt broken).map Script.id))

theorem Passed.wentOn (hg : g.Wired) (ha : g.Acyclic) (hn : (g.nodes.map Script.id).Nodup)
    {order : List Nat} (hs : g.Sorts order) (h : Passed l g r order ran broken p r') :
    WentOn l g r order ran broken (r', p.outcome) := by
  have hdistinct : ((g.scriptsAt ran).map Script.id).Nodup :=
    ((hs.scriptsAt_perm.map _).nodup_iff.2 hn).sublist ((h.ran_sublist.filterMap _).map _)
  have hbroken (i : Nat) : i ∈ broken ↔ i < g.nodes.length ∧ g.Culprit (g.FailsAt r) i := by
    rw [h.mem_broken, hs.mem_iff]
  refine ⟨h.ran_sublist, fun i => by rw [h.mem_ran, hs.mem_iff], h.ran_after, hdistinct,
    h.executions_eq, records_of_history_eq hdistinct h.history_eq, h.broken_sublist, hbroken,
    ?_, ?_⟩
  · intro hnone
    have hb : broken = [] := List.eq_nil_iff_forall_not_mem.2 fun i hi =>
      hnone i ((hbroken i).1 hi).2.1
    have hfailed : p.failed = [] := by
      rw [h.failed_eq, hb]
      rfl
    change p.outcome = _
    rw [Progress.outcome, if_pos hfailed, h.deployed_eq]
  · rintro ⟨i, hi⟩
    have ht : g.Tainted (g.FailsAt r) i := tainted_iff.2 (.inl hi)
    obtain ⟨j, hj⟩ := ht.exists_culprit hg ha
    obtain ⟨s, hjs, -⟩ := hj.1
    have hlt : j < g.nodes.length := (List.getElem?_eq_some_iff.1 hjs).1
    have hmem : s.id ∈ p.failed := by
      rw [h.failed_eq]
      exact List.mem_map_of_mem (List.mem_filterMap.2 ⟨j, (hbroken j).2 ⟨hlt, hj⟩, hjs⟩)
    have hfailed : p.failed ≠ [] := List.ne_nil_of_mem hmem
    change p.outcome = _
    rw [Progress.outcome, if_neg hfailed, h.failed_eq]

/-- With `continueOnFailure` exactly the changed scripts from which no failing one is reached are
run, and the failing ones among whose dependencies none fails are reported. -/
theorem deploy_goes_on {all : List Script} (hl : l.listing = .ok all)
    (hn : (all.map Script.id).Nodup) (hc : l.config.continueOnFailure = true)
    (hg : l.changedGraph r.loadHashes = .ok g) (ha : g.Acyclic)
    (hm : deployedMigration? r.loadHashes g = none) :
    g.nodes = l.changed r.loadHashes all ∧
      ∃ order ran broken, g.order = .ok order ∧ g.Sorts order ∧
        WentOn l g r order ran broken (l.deploy false r) := by
  obtain ⟨-, -, -, -, hw, -⟩ := changedGraph_spec hg
  obtain ⟨order, ho⟩ := (exists_order_iff hw).2 ha
  have horder : deployOrder r.loadHashes g = .ok order := deployOrder_eq_ok_iff.2 ⟨ho, hm⟩
  obtain ⟨-, hnodes, -, -, hs, -⟩ := prepared_of_deployOrder hl hg horder
  obtain ⟨ran, broken, p, r', hrun, h⟩ :=
    deploySteps_passed hc (begun r) (fun i => hs.mem_iff.1) hs.after
  have hwent := h.wentOn hw ha (nodup_ids_of_changed hn hnodes) hs
  obtain ⟨syncs, hd⟩ := deploy_of_order (b := false) hg horder
  rw [hrun] at hd
  rw [hd]
  exact ⟨hnodes, order, ran, broken, ho, hs, { hwent with records := hwent.records.congr rfl rfl }⟩

def threeViews : Release :=
  ⟨{ Config.default with continueOnFailure := true }, .empty,
    .ok [.state "DB" "S" .view "TOP" "CREATE VIEW TOP AS SELECT * FROM BASE",
      .state "DB" "S" .view "BASE" "CREATE VIEW BASE AS SELECT 1",
      .state "DB" "S" .view "ALONE" "CREATE VIEW ALONE AS SELECT 1"]⟩

def withoutBase : Repository :=
  (Repository.new "2024-01-01T00:00:00Z" "DB").failOn "DB.S.BASE"

theorem deploy_threeViews_goes_on :
    ∃ g all, threeViews.listing = .ok all ∧ (all.map Script.id).Nodup ∧
      threeViews.changedGraph withoutBase.loadHashes = .ok g ∧ g.dependencies = [[1], [], []] ∧
      g.nodes = threeViews.changed withoutBase.loadHashes all ∧
      ∃ order ran broken, g.order = .ok order ∧ g.Sorts order ∧
        WentOn threeViews g withoutBase order ran broken (threeViews.deploy false withoutBase) := by
  have hchecked : (threeViews.changedGraph withoutBase.loadHashes).toOption.map (fun g =>
      (g.dependencies, g.sequenced, g.nodes.length,
        (deployedMigration? withoutBase.loadHashes g).isSome)) =
        some ([[1], [], []], [1, 0, 2], 3, false) := by
    decide +kernel
  obtain ⟨g, hg, hread⟩ := exists_ok_of_map hchecked
  simp only [Prod.mk.injEq] at hread
  obtain ⟨hd, hs, hlen, hm⟩ := hread
  obtain ⟨-, -, -, -, hw, -⟩ := changedGraph_spec hg
  have ho : g.order = .ok [1, 0, 2] := order_eq_ok_iff.2 ⟨hs, hlen.symm⟩
  have hn : (((threeViews.listing.toOption).getD []).map Script.id).Nodup := by
    decide +kernel
  have ha := (exists_order_iff hw).1 ⟨_, ho⟩
  have hnone : deployedMigration? withoutBase.loadHashes g = none := by simpa using hm
  exact ⟨g, _, rfl, hn, hg, hd, deploy_goes_on rfl hn rfl hg ha hnone⟩

example : (threeViews.deploy false withoutBase).1.executions.map (·.scriptId) = ["DB.S.ALONE"] := by
  decide +kernel

end Release

end SchemaDeploy
