import SchemaDeploy.Proofs.DeployRun
import SchemaDeploy.Proofs.PartialGraph

namespace SchemaDeploy

namespace Repository

def lifted (r : Repository) : Repository :=
  { r with failing := .empty }

theorem lifted_state (r : Repository) : r.lifted.state = r.state :=
  rfl

theorem lifted_executions (r : Repository) : r.lifted.executions = r.executions :=
  rfl

theorem lifted_fails (r : Repository) (s : Script) : r.lifted.fails s = false :=
  rfl

end Repository

namespace DependencyGraph

theorem exists_split_of_scriptsAt {g : DependencyGraph} {order : List Nat} {k : Nat} {s : Script}
    (h : (g.scriptsAt order)[k]? = some s) :
    ∃ is i js, order = is ++ i :: js ∧ g.nodes[i]? = some s ∧
      g.scriptsAt is = (g.scriptsAt order).take k := by
  obtain ⟨hk, hs⟩ := List.getElem?_eq_some_iff.1 h
  have hsplit : g.scriptsAt order =
      (g.scriptsAt order).take k ++ s :: (g.scriptsAt order).drop (k + 1) := by
    rw [← hs, List.getElem_cons_drop, List.take_append_drop]
  obtain ⟨is, rest, ho, his, hrest⟩ := List.filterMap_eq_append_iff.1 hsplit
  obtain ⟨gap, i, js, hr, hgap, hi, -⟩ := List.filterMap_eq_cons_iff.1 hrest
  refine ⟨is ++ gap, i, js, ?_, hi, ?_⟩
  · rw [ho, hr, List.append_assoc]
  · have hnil : g.scriptsAt gap = [] := List.filterMap_eq_nil_iff.2 hgap
    rw [scriptsAt_append, hnil, List.append_nil]
    exact his

end DependencyGraph

namespace Release

variable {l : Release} {g : DependencyGraph} {r r' : Repository} {all p : List Script}

/-- The result of a deployment that stopped at position `k` of the plan, at script `s`. -/
structure StoppedAt (l : Release) (r : Repository) (p : List Script) (k : Nat) (s : Script)
    (result : Repository × Except SyncError Nat) : Prop where
  result_eq : result.2 =
    .error (.executionFailed s.id (Repository.rejection (l.injected s).content))
  executions_eq : result.1.executions = r.executions ++ (p.take k).map l.execution
  objects_eq : result.1.state.objects =
    ((p.take k).map l.injected).foldl Repository.applied r.state.objects
  records : r.Records result.1 (p.take k)
  events_eq : ∃ es, result.1.state.events = r.state.events ++ es ∧
    es.map (fun e => (e.scriptId, e.status)) =
      (p.take k).map (fun t => (t.id, .success)) ++ [(s.id, .error)]

theorem stoppedAt_reject (hn : (p.map Script.id).Nodup) (k : Nat) (s : Script) :
    StoppedAt l r p k s
      ((r.completedAll ((p.take k).map l.injected) false).reject (l.injected s)
          (l.injected s).content,
        .error (.executionFailed s.id (Repository.rejection (l.injected s).content))) where
  result_eq := rfl
  executions_eq := executions_of_completedAll l r _
  objects_eq := r.completedAll_objects _
  records := records_of_history_eq (hn.sublist ((List.take_sublist k p).map _)) rfl
  events_eq := by
    obtain ⟨es, he, hm⟩ := r.completedAll_events ((p.take k).map l.injected) false
    let e : ScriptEvent :=
      ⟨toString ((r.completedAll ((p.take k).map l.injected) false).state.events.length + 1),
        (l.injected s).id, (l.injected s).fullName, (l.injected s).hash, .error,
        Repository.rejection (l.injected s).content,
        (r.completedAll ((p.take k).map l.injected) false).syncId,
        (r.completedAll ((p.take k).map l.injected) false).clock⟩
    refine ⟨es ++ [e], ?_, ?_⟩
    · rw [← List.append_assoc, ← he]
      rfl
    · have hids : ((p.take k).map l.injected).map (fun t => (t.id, SyncStatus.success)) =
          (p.take k).map fun t => (t.id, .success) := by
        rw [List.map_map]
        exact List.map_congr_left fun t _ => Prod.ext (injected_id l t) rfl
      rw [List.map_append, hm, hids, List.map_singleton]
      simp only [e, injected_id]

theorem filter_append_right {done rest : List Script} (hn : ((done ++ rest).map Script.id).Nodup) :
    ((done ++ rest).filter fun s => !(done.map Script.id).contains s.id) = rest := by
  rw [List.map_append] at hn
  have hdisjoint := List.disjoint_of_nodup_append hn
  have hdone : (done.filter fun s => !(done.map Script.id).contains s.id) = [] := by
    apply List.filter_eq_nil_iff.2
    intro s hs
    have hid : s.id ∈ done.map Script.id := List.mem_map_of_mem hs
    simp [hid]
  have hrest : (rest.filter fun s => !(done.map Script.id).contains s.id) = rest := by
    apply List.filter_eq_self.2
    intro s hs
    have hid : s.id ∉ done.map Script.id := fun h => hdisjoint h (List.mem_map_of_mem hs)
    simp [hid]
  rw [List.filter_append, hdone, hrest, List.nil_append]

theorem exists_order_of_records (hl : l.listing = .ok all) (hn : (all.map Script.id).Nodup)
    (hup : ∀ s ∈ all, s.IsUpper) (hf : ∀ s ∈ all, r.FilesUnder s.id) {order : List Nat}
    (hg : l.changedGraph r.loadHashes = .ok g) (ho : deployOrder r.loadHashes g = .ok order)
    {done rest : List Script} (hp : g.scriptsAt order = done ++ rest) (hr : r.Records r' done) :
    ∃ g' order', l.changedGraph r'.loadHashes = .ok g' ∧
      deployOrder r'.loadHashes g' = .ok order' ∧ (g'.scriptsAt order').Perm rest := by
  have hprep := prepared_of_deployOrder hl hg ho
  have hperm : (done ++ rest).Perm g.nodes := hp ▸ hprep.sorts.scriptsAt_perm
  have hids : ((done ++ rest).map Script.id).Nodup := hp ▸ hprep.nodup_ids hn
  have hall : g.nodes ⊆ all := hprep.nodes_eq ▸ changed_subset l _ all
  have hdone : done ⊆ all := fun t ht => hall (hperm.mem_iff.1 (List.mem_append_left _ ht))
  have hchanged := changed_of_records (l := l) hf hr hn hdone
  rw [← hprep.nodes_eq] at hchanged
  -- What is left keeps its order among the nodes, so its graph embeds into the first one.
  have hsub : (l.changed r'.loadHashes all).Sublist g.nodes := hchanged ▸ List.filter_sublist
  obtain ⟨g', order', hg', ho'⟩ := DependencyGraph.exists_order_of_sublist
    (fun t ht => hup t (hall ht)) hsub hprep.built (hprep.sorts.acyclic hprep.wired)
  obtain ⟨hw', hnodes', -⟩ := DependencyGraph.ofScripts_spec hg'
  have hrest : g'.nodes.Perm rest := by
    rw [hnodes', hchanged, ← filter_append_right hids]
    exact (hperm.filter _).symm
  have hm := hprep.undeployed
  have hm' : deployedMigration? r'.loadHashes g' = none := by
    rw [deployedMigration?, List.find?_eq_none] at hm ⊢
    intro t ht
    have hid : t.id ∉ done.map Script.id := by
      rw [List.map_append] at hids
      have hdisjoint := List.disjoint_of_nodup_append hids
      exact fun h => hdisjoint h (List.mem_map_of_mem (hrest.mem_iff.1 ht))
    rw [hr.isDeployed_of_not_mem (hf t (hall (hsub.subset (hnodes' ▸ ht)))) hid]
    exact hm t (hsub.subset (hnodes' ▸ ht))
  refine ⟨g', order', ?_, deployOrder_eq_ok_iff.2 ⟨ho', hm'⟩, ?_⟩
  · rw [changedGraph_of_listing hl hprep.valid, hg']
  · exact (DependencyGraph.sorts_of_order hw' ho').scriptsAt_perm.trans hrest

theorem deploy_of_accepts {order : List Nat} (hg : l.changedGraph r.loadHashes = .ok g)
    (ho : deployOrder r.loadHashes g = .ok order)
    (ha : ∀ s ∈ g.scriptsAt order, r.fails s = false) :
    (l.deploy false r).2 = .ok (g.scriptsAt order).length ∧
      (l.deploy false r).1.executions = r.executions ++ (g.scriptsAt order).map l.execution := by
  have haccepts : ∀ s ∈ g.scriptsAt order, (begun r).rejects (l.injected s) false = false :=
    fun s hs => (rejects_injected l (begun r) s).trans (ha s hs)
  obtain ⟨syncs, hd⟩ := deploy_of_order (b := false) hg ho
  rw [deploySteps_of_accepts rfl haccepts] at hd
  rw [hd]
  refine ⟨congrArg Except.ok (Nat.zero_add _), ?_⟩
  exact executions_of_completedAll l (begun r) _

/-- Without `continueOnFailure` a deployment runs the plan up to the first failing script. If no
script has a record under another key, the next one without failures runs the rest of the plan. -/
theorem deploy_stops_and_resumes {k : Nat} {s : Script} (hl : l.listing = .ok all)
    (hn : (all.map Script.id).Nodup) (hc : l.config.continueOnFailure = false)
    (hp : (l.plan r).2 = .ok p) (hk : p[k]? = some s) (hs : r.fails s = true)
    (hbefore : ∀ t ∈ p.take k, r.fails t = false) :
    StoppedAt l r p k s (l.deploy false r) ∧
      ((∀ t ∈ all, t.IsUpper ∧ r.FilesUnder t.id) → ∀ r',
        r'.state = (l.deploy false r).1.state → (∀ t, r'.fails t = false) → ∃ rest,
          rest.Perm (p.drop k) ∧ (l.deploy false r').2 = .ok rest.length ∧
          (l.deploy false r').1.executions = r'.executions ++ rest.map l.execution ∧
          (p.take k ++ rest).Perm p ∧ ((p.take k ++ rest).map Script.id).Nodup) := by
  obtain ⟨g, order, hg, ho, rfl⟩ := planned_eq_ok_iff.1 hp
  have hids := (prepared_of_deployOrder hl hg ho).nodup_ids hn
  obtain ⟨is, i, js, horder, hi, his⟩ := DependencyGraph.exists_split_of_scriptsAt hk
  have hstopped : StoppedAt l r (g.scriptsAt order) k s (l.deploy false r) := by
    have haccepts : ∀ t ∈ g.scriptsAt is, (begun r).rejects (l.injected t) false = false := by
      rw [his]
      exact fun t ht => (rejects_injected l (begun r) t).trans (hbefore t ht)
    have hrejects : (begun r).rejects (l.injected s) false = true :=
      (rejects_injected l (begun r) s).trans hs
    have hrun : l.deploySteps false g (is ++ i :: js) .start (begun r) = _ :=
      deploySteps_of_rejects hc rfl haccepts hi hrejects
    rw [← horder, his] at hrun
    obtain ⟨syncs, hd⟩ := deploy_of_order (b := false) hg ho
    rw [hrun] at hd
    rw [hd]
    have h := stoppedAt_reject (l := l) (r := begun r) hids k s
    exact ⟨rfl, h.executions_eq, h.objects_eq, h.records.congr rfl rfl, h.events_eq⟩
  refine ⟨hstopped, ?_⟩
  intro hall r' hstate hfails
  have hrecords : r.Records r' ((g.scriptsAt order).take k) :=
    hstopped.records.congr rfl (by rw [hstate])
  obtain ⟨g', order', hg', ho', hperm⟩ := exists_order_of_records hl hn (fun t ht => (hall t ht).1)
    (fun t ht => (hall t ht).2) hg ho
    (List.take_append_drop k _).symm hrecords
  have htwice : ((g.scriptsAt order).take k ++ g'.scriptsAt order').Perm (g.scriptsAt order) := by
    apply (hperm.append_left _).trans
    rw [List.take_append_drop]
  obtain ⟨hok, hexecutions⟩ := deploy_of_accepts hg' ho' fun t _ => hfails t
  exact ⟨_, hperm, hok, hexecutions, htwice, (htwice.map _).nodup_iff.2 hids⟩

def twoViews : Release :=
  ⟨.default, .empty,
    .ok [.state "DB" "S" .view "TOP" "CREATE VIEW TOP AS SELECT * FROM BASE",
      .state "DB" "S" .view "BASE" "CREATE VIEW BASE AS SELECT 1"]⟩

theorem isUpper_twoViews : ∀ t ∈ (twoViews.listing.toOption).getD [], t.IsUpper := by
  intro t ht
  rcases List.mem_cons.1 ht with rfl | ht
  · exact Script.isUpper_ofContent ..
  · rcases List.mem_singleton.1 ht with rfl
    exact Script.isUpper_ofContent ..

theorem plan_of_two {a b : String × Bool}
    (h : (l.plan r).2.toOption.map (List.map fun t => (t.id, r.fails t)) = some [a, b]) :
    ∃ s t, (l.plan r).2 = .ok [s, t] ∧ (s.id, r.fails s) = a ∧ (t.id, r.fails t) = b := by
  obtain ⟨p, hp, hread⟩ := exists_ok_of_map h
  obtain ⟨s, rest, rfl, hs, hrest⟩ := List.map_eq_cons_iff.1 hread
  obtain ⟨t, rest, rfl, ht, hnil⟩ := List.map_eq_cons_iff.1 hrest
  cases List.map_eq_nil_iff.1 hnil
  exact ⟨s, t, hp, hs, ht⟩

theorem deploy_twoViews_resumes :
    let r := (Repository.new "2024-01-01T00:00:00Z" "DB").failOn "DB.S.TOP"
    ∃ p s, (twoViews.plan r).2 = .ok p ∧ p.map Script.id = ["DB.S.BASE", "DB.S.TOP"] ∧
      StoppedAt twoViews r p 1 s (twoViews.deploy false r) ∧
      (twoViews.deploy false (twoViews.deploy false r).1.lifted).2 = .ok 1 := by
  intro r
  have hplan : (twoViews.plan r).2.toOption.map (List.map fun t => (t.id, r.fails t)) =
      some [("DB.S.BASE", false), ("DB.S.TOP", true)] := by
    decide +kernel
  have hn : (((twoViews.listing.toOption).getD []).map Script.id).Nodup := by
    decide +kernel
  obtain ⟨base, top, hp, hbase, htop⟩ := plan_of_two hplan
  rw [Prod.mk.injEq] at hbase htop
  obtain ⟨hstopped, hresumes⟩ := deploy_stops_and_resumes (k := 1) (s := top) rfl hn rfl hp rfl
    htop.2 (by simpa using hbase.2)
  have hf : ∀ id, r.FilesUnder id := Repository.filesUnder_new "2024-01-01T00:00:00Z" "DB"
  obtain ⟨rest, hperm, hok, -⟩ := hresumes
    (fun t ht => ⟨isUpper_twoViews t ht, hf t.id⟩)
    (twoViews.deploy false r).1.lifted (Repository.lifted_state _) (Repository.lifted_fails _)
  refine ⟨_, top, hp, ?_, hstopped, ?_⟩
  · rw [List.map_cons, List.map_singleton, hbase.1, htop.1]
  · rw [hok, hperm.length_eq]
    rfl

/-- Where records do not stand under their ids, a script that was run can be run again. -/
theorem not_deploy_resumes_of_misfiled :
    ¬ ∀ (l : Release) (r r' : Repository) (all p : List Script) (k : Nat) (s : Script),
      l.listing = .ok all → (all.map Script.id).Nodup → (∀ t ∈ all, t.IsUpper) →
      l.config.continueOnFailure = false → (l.plan r).2 = .ok p → p[k]? = some s →
      r.fails s = true → (∀ t ∈ p.take k, r.fails t = false) →
      r'.state = (l.deploy false r).1.state → (∀ t, r'.fails t = false) →
      ∃ rest : List Script, rest.Perm (p.drop k) ∧
        (l.deploy false r').1.executions = r'.executions ++ rest.map l.execution := by
  intro h
  let r := (Repository.misfiled "DB.S.BASE").failOn "DB.S.TOP"
  obtain ⟨hplan, hran, hagain⟩ :
      (twoViews.plan r).2.toOption.map (List.map fun t => (t.id, r.fails t)) =
          some [("DB.S.BASE", false), ("DB.S.TOP", true)] ∧
        (twoViews.deploy false r).1.executions.length = 1 ∧
        (twoViews.deploy false (twoViews.deploy false r).1.lifted).1.executions.length = 3 := by
    decide +kernel
  have hn : (((twoViews.listing.toOption).getD []).map Script.id).Nodup := by
    decide +kernel
  obtain ⟨base, top, hp, hbase, htop⟩ := plan_of_two hplan
  rw [Prod.mk.injEq] at hbase htop
  obtain ⟨rest, hperm, he⟩ := h twoViews r (twoViews.deploy false r).1.lifted _ _ 1 top rfl hn
    isUpper_twoViews rfl hp rfl htop.2 (by simpa using hbase.2) (Repository.lifted_state _)
    (Repository.lifted_fails _)
  have hlength := congrArg List.length he
  rw [hagain, List.length_append, List.length_map, Repository.lifted_executions, hran,
    hperm.length_eq] at hlength
  cases hlength

end Release

end SchemaDeploy
