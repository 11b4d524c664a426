import SchemaDeploy.Proofs.DeployRun
import SchemaDeploy.Proofs.PartialGraph

namespace SchemaDeploy.Release

variable {l : Release} {g : DependencyGraph} {b : Bool} {r r' : Repository} {p p' : Progress}

theorem deployStep_failed {i : Nat} {s : Script}
    (h : l.deployStep b g p i s r = (r', .ok p')) : p.failed <+: p'.failed := by
  simp only [deployStep] at h
  split at h
  · cases h
    exact List.prefix_refl _
  · split at h
    · cases h
      exact List.prefix_refl _
    · split at h
      · cases h
        exact List.prefix_append _ _
      · cases h

theorem deploySteps_failed {is : List Nat} (h : l.deploySteps b g is p r = (r', .ok p')) :
    p.failed <+: p'.failed := by
  induction is generalizing p r with
  | nil =>
      cases h
      exact List.prefix_refl _
  | cons i is ih =>
      simp only [deploySteps] at h
      split at h
      · exact ih h
      · split at h
        · cases h
        · next hstep => exact (deployStep_failed hstep).trans (ih h)

theorem accepts_of_deploySteps {is : List Nat} (hp : p.blocked = [])
    (h : l.deploySteps b g is p r = (r', .ok p')) (hf : p'.failed = []) :
    ∀ s ∈ g.scriptsAt is, r.rejects (l.injected s) b = false := by
  induction is generalizing p r with
  | nil => simp [DependencyGraph.scriptsAt]
  | cons i is ih =>
      rw [deploySteps] at h
      cases hi : g.nodes[i]? with
      | none =>
          rw [hi] at h
          have hs : g.scriptsAt (i :: is) = g.scriptsAt is := List.filterMap_cons_none hi
          rw [hs]
          exact ih hp h
      | some s =>
          rw [hi] at h
          dsimp only at h
          have hb : (g.dependenciesOf i).any p.blocked.contains = false :=
            hp ▸ any_contains_nil _
          rw [DependencyGraph.scriptsAt_cons hi, List.forall_mem_cons]
          cases hr : r.rejects (l.injected s) b with
          | true =>
              rw [deployStep_of_rejects hb hr] at h
              split at h
              · next he =>
                split at he <;> cases he
                cases h
              · next he =>
                split at he <;> cases he
                have hinit := deploySteps_failed h
                rw [hf] at hinit
                simp at hinit
          | false =>
              rw [deployStep_of_accepts hb hr] at h
              dsimp only at h
              have hrest := ih (p := { p with deployed := p.deployed + 1 }) hp h
              simp only [Repository.completed_rejects] at hrest
              exact ⟨rfl, hrest⟩

theorem completed_of_deploy_ok {n : Nat} (h : (l.deploy b r).2 = .ok n) :
    ∃ (all done : List Script) (syncs : List ChangeSync), l.listing = .ok all ∧
      l.config.validateOverrides all = .ok () ∧
      done.Perm (l.changed r.loadHashes all) ∧ n = done.length ∧
      (l.deploy b r).1 = ((begun r).completedAll (done.map l.injected) b).withSyncs syncs := by
  obtain ⟨g, order, hg, ho⟩ := exists_order_of_deploy_ok h
  obtain ⟨all, hl, -⟩ := changedGraph_spec hg
  have hprep := prepared_of_deployOrder hl hg ho
  obtain ⟨syncs, hd⟩ := deploy_of_order (b := b) hg ho
  rw [hd] at h ⊢
  rcases hrun : l.deploySteps b g order .start (begun r) with ⟨r', e | p⟩
  · rw [hrun] at h
    cases h
  · rw [hrun] at h
    have hout : p.outcome = .ok n := h
    rw [Progress.outcome] at hout
    split at hout
    · next hfailed =>
      have haccepts := accepts_of_deploySteps rfl hrun hfailed
      rw [deploySteps_of_accepts rfl haccepts] at hrun
      cases hrun
      cases hout
      exact ⟨all, _, syncs, hl, hprep.valid, hprep.perm, Nat.zero_add _, rfl⟩
    · cases hout

theorem records_of_deploy_ok {all : List Script} {n : Nat} (hl : l.listing = .ok all)
    (hn : (all.map Script.id).Nodup) (h : (l.deploy b r).2 = .ok n) :
    l.config.validateOverrides all = .ok () ∧
      ∃ done, done.Perm (l.changed r.loadHashes all) ∧ r.Records (l.deploy b r).1 done := by
  obtain ⟨all', done, syncs, hl', hv, hperm, -, hd⟩ := completed_of_deploy_ok h
  cases hl.symm.trans hl'
  have hsub : (l.changed r.loadHashes all).Sublist all :=
    List.filter_sublist.trans List.filter_sublist
  have hids : (done.map Script.id).Nodup :=
    (hperm.map _).nodup_iff.2 (hn.sublist (hsub.map _))
  refine ⟨hv, done, hperm, ?_⟩
  rw [hd]
  exact (records_of_history_eq (r := begun r) hids rfl).congr rfl rfl

theorem deploy_of_unchanged {all : List Script} (hl : l.listing = .ok all)
    (hv : l.config.validateOverrides all = .ok ()) (hc : l.changed r.loadHashes all = []) :
    (l.deploy b r).2 = .ok 0 ∧ (l.deploy b r).1.executions = r.executions ∧
      ∃ syncs, (l.deploy b r).1.state = { r.state with syncs := syncs } := by
  have hg : l.changedGraph r.loadHashes = .ok (DependencyGraph.empty []) := by
    rw [changedGraph_of_listing hl hv, hc, Config.overridesWithin_nil]
    rfl
  have ho : deployOrder r.loadHashes (DependencyGraph.empty []) = .ok [] := rfl
  obtain ⟨syncs, hd⟩ := deploy_of_order (b := b) hg ho
  rw [hd]
  exact ⟨rfl, rfl, syncs, rfl⟩

/-- If no script has a record under another key, a deployment right after a successful one does
nothing. -/
theorem deploy_again {all : List Script} {n : Nat} (hl : l.listing = .ok all)
    (hn : (all.map Script.id).Nodup) (hf : ∀ s ∈ all, r.FilesUnder s.id)
    (h : (l.deploy b r).2 = .ok n) (again : Bool) :
    (l.deploy again (l.deploy b r).1).2 = .ok 0 ∧
      (l.deploy again (l.deploy b r).1).1.executions = (l.deploy b r).1.executions ∧
      ∃ syncs, (l.deploy again (l.deploy b r).1).1.state =
        { (l.deploy b r).1.state with syncs := syncs } := by
  obtain ⟨hv, done, hperm, hr⟩ := records_of_deploy_ok hl hn h
  refine deploy_of_unchanged hl hv ?_
  have hsub : done ⊆ all := fun s hs => changed_subset l _ all (hperm.mem_iff.1 hs)
  rw [changed_of_records hf hr hn hsub, List.filter_eq_nil_iff]
  intro s hs
  have hid : s.id ∈ done.map Script.id := List.mem_map_of_mem (hperm.mem_iff.2 hs)
  simp [hid]

def oneView : Release :=
  ⟨.default, .empty, .ok [.state "DB" "S" .view "V" "CREATE VIEW V AS SELECT 1"]⟩

theorem deploy_again_oneView :
    let r := Repository.new "2024-01-01T00:00:00Z" "DB"
    (∀ id, r.FilesUnder id) ∧ (oneView.deploy true r).2 = .ok 1 ∧
      (oneView.deploy false (oneView.deploy true r).1).2 = .ok 0 := by
  intro r
  have hf : ∀ id, r.FilesUnder id := Repository.filesUnder_new _ _
  have hok : (oneView.deploy true r).2.toOption = some 1 := by
    decide +kernel
  have h := eq_ok_of_toOption hok
  exact ⟨hf, h, (deploy_again rfl (by simp) (fun s _ => hf s.id) h false).1⟩

/-- Where records do not stand under their ids, the older one of two can be the one that counts. -/
theorem not_deploy_again_of_misfiled :
    ¬ ∀ (l : Release) (r : Repository) (all : List Script) (n : Nat) (b again : Bool),
      l.listing = .ok all → (all.map Script.id).Nodup → (l.deploy b r).2 = .ok n →
        (l.deploy again (l.deploy b r).1).2 = .ok 0 := by
  intro h
  let r := Repository.misfiled "DB.S.V"
  obtain ⟨hfirst, hsecond⟩ : (oneView.deploy false r).2.toOption = some 1 ∧
      (oneView.deploy false (oneView.deploy false r).1).2.toOption = some 1 := by
    decide +kernel
  have hzero := h oneView r _ 1 false false rfl (by simp) (eq_ok_of_toOption hfirst)
  rw [hzero] at hsecond
  cases hsecond

end SchemaDeploy.Release
