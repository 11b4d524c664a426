import SchemaDeploy.Proofs.Turns

namespace SchemaDeploy

theorem Script.colon_mem_id {m : Script} (hm : m.isMigration = true) : ':' ∈ m.id.toList := by
  obtain ⟨u, hu⟩ := Option.isSome_iff_exists.1 hm
  rw [id_of_migration hu]
  simp

/-- Regular scripts with different ids, of which only those of migrations hold a colon. -/
structure Orderly (all : List Script) : Prop where
  regular : ∀ s ∈ all, s.Regular
  nodup : (all.map Script.id).Nodup
  not_colon : ∀ s ∈ all, s.isMigration = false → ':' ∉ s.id.toList

theorem Orderly.isMigration {all : List Script} (h : Orderly all) {s : Script} (hs : s ∈ all)
    (hid : ':' ∈ s.id.toList) : s.isMigration = true := by
  by_contra hm
  exact h.not_colon s hs (Bool.eq_false_iff.2 hm) hid

namespace Release

variable {l : Release} {b : Bool} {r : Repository} {id : String}

theorem nodup_ids_callsOfDeploy (hall : ∀ all, l.listing = .ok all → Orderly all) :
    ((l.callsOfDeploy b r).map fun c => c.script.id).Nodup := by
  rcases callsOfDeploy_spec l b r with hnil | ⟨all, ss, hl, hperm, -, hsub⟩
  · rw [hnil]
    exact List.nodup_nil
  · have hids : (ss.map fun s => Call.deploy (l.injected s) b).map (fun c => c.script.id) =
        ss.map Script.id := by
      rw [List.map_map]
      exact List.map_congr_left fun s _ => injected_id l s
    refine (hids ▸ ?_ : List.Nodup _).sublist (hsub.map _)
    have hchanged : (l.changed r all).Sublist all := List.filter_sublist.trans List.filter_sublist
    exact (hperm.map _).nodup_iff.2 ((hall all hl).nodup.sublist (hchanged.map _))

theorem not_called_of_recorded (hw : r.WellKept) (hall : ∀ all, l.listing = .ok all → Orderly all)
    (hid : ':' ∈ id.toList) {cs ds : List Call} {c : Call}
    (hc : l.callsOfDeploy b r.loadHashes = cs ++ c :: ds) {h : HistoryRecord}
    (hget : (Call.runAll cs r.loadHashes).state.history.get? id = some h) :
    c.script.id ≠ id := by
  rintro rfl
  -- The calls before have other ids, so the record was there when the hashes were loaded.
  have hids := nodup_ids_callsOfDeploy (b := b) (r := r.loadHashes) hall
  rw [hc, List.map_append, List.map_cons, List.nodup_append] at hids
  have hne : ∀ c' ∈ cs, c.script.id ≠ c'.script.id := fun c' hc' =>
    (hids.2.2 _ (List.mem_map_of_mem hc') _ List.mem_cons_self).symm
  rw [Call.get?_history_runAll_of_ne hne] at hget
  rcases callsOfDeploy_spec l b r.loadHashes with hnil | ⟨all, ss, hl, hperm, hnew, hsub⟩
  · rw [hnil] at hc
    simp at hc
  · have hmem : c ∈ l.callsOfDeploy b r.loadHashes := by simp [hc]
    obtain ⟨s, hs, rfl⟩ := List.mem_map.1 (hsub.subset hmem)
    have hsid : (l.injected s).id = s.id := injected_id l s
    rw [Call.script, hsid] at hget hid
    have hsm := (hall all hl).isMigration (changed_subset l _ all (hperm.mem_iff.1 hs)) hid
    have hnot := hnew s hs hsm
    rw [hw.isDeployed hget] at hnot
    cases hnot

theorem eq_rollback_of_mem_calls (hw : r.WellKept)
    (hall : ∀ all, l.listing = .ok all → Orderly all) {c : Call} (hid : ':' ∈ c.script.id.toList)
    (hc : c ∈ l.callsOfRollback r.loadHashes) :
    (∃ s, c = .rollback s) ∧
      ∃ all, l.listing = .ok all ∧ c.script.id ∉ all.map Script.id := by
  rcases callsOfRollback_spec l r.loadHashes with hnil | ⟨all, ss, hl, hperm, hsub⟩
  · rw [hnil] at hc
    cases hc
  · obtain ⟨s, hs, rfl⟩ := List.mem_map.1 (hsub.subset hc)
    rw [rollbackCall_script, injected_id] at hid ⊢
    rcases List.mem_append.1 (hperm.mem_iff.1 hs) with hs | hs
    · obtain ⟨-, hm⟩ := regular_of_mem_undone hw hs
      have hnot := (mem_map_id_undone hw).1 (List.mem_map_of_mem (f := Script.id) hs)
      refine ⟨⟨l.injected s, ?_⟩, all, hl, hnot.2⟩
      rw [rollbackCall, injected_isMigration, if_pos hm]
    · obtain ⟨hchanged, htype⟩ := List.mem_filter.1 hs
      have hs' := changed_subset l _ all hchanged
      have hm := (hall all hl).isMigration hs' hid
      rw [(hall all hl).regular s hs' |>.kind] at hm
      rw [hm] at htype
      cases htype

theorem deployChanged_of_changed_migration (hw : r.WellKept) {all : List Script}
    (hl : l.listing = .ok all) {s : Script} (hs : s ∈ l.included all)
    (hm : s.isMigration = true) {h : HistoryRecord}
    (hget : r.state.history.get? s.id = some h) (hne : s.hash ≠ h.scriptHash) :
    ∃ e, l.deployChanged b r = (r.loadHashes, .error e) := by
  have hchanged : r.loadHashes.isChanged s = true := by
    rw [Repository.isChanged, hw.get?_hashes hget]
    simpa using Ne.symm hne
  simp only [deployChanged]
  cases hg : l.changedGraph r.loadHashes with
  | error e => exact ⟨e, rfl⟩
  | ok g =>
      dsimp only
      cases ho : deployOrder r.loadHashes g with
      | error e => exact ⟨e, rfl⟩
      | ok order =>
          obtain ⟨all', hl', -, hnodes, -⟩ := changedGraph_spec hg
          cases hl.symm.trans hl'
          have hnone := (deployOrder_eq_ok_iff.1 ho).2
          rw [deployedMigration?, List.find?_eq_none, hnodes] at hnone
          have hdeployed := hnone s (List.mem_filter.2 ⟨hs, hchanged⟩)
          rw [hm, hw.isDeployed hget] at hdeployed
          exact absurd rfl hdeployed

theorem deploy_of_changed_migration (hw : r.WellKept) {all : List Script}
    (hl : l.listing = .ok all) {s : Script} (hs : s ∈ l.included all)
    (hm : s.isMigration = true) {h : HistoryRecord}
    (hget : r.state.history.get? s.id = some h) (hne : s.hash ≠ h.scriptHash) :
    ∃ e syncs, l.deploy b r = ((begun r).withSyncs syncs, .error e) := by
  obtain ⟨e, he⟩ := deployChanged_of_changed_migration (b := b)
    (r := r.startSync .deploy (ChangeType.deploy.word ++ " started.")) (hw.congr rfl) hl hs hm hget
    hne
  obtain ⟨syncs, hb⟩ := bracketed_eq (keepsLog_deployChanged l b) .deploy id r
  rw [he] at hb
  exact ⟨e, syncs, hb⟩

end Release

namespace Turn

def ListsOrderly (t : Turn) : Prop :=
  ∀ all, t.release.listing = .ok all → Orderly all

/-- A rollback without the id in its listing. -/
def Drops (t : Turn) (id : String) : Prop :=
  t.action = .rollback ∧ ∃ all, t.release.listing = .ok all ∧ id ∉ all.map Script.id

/-- At every call of the operation that finds a record under the id: it is no deployment of the id,
and it leaves the record, unless it removes it in a rollback without the id in its listing. -/
def Keeps (t : Turn) (r : Repository) (id : String) : Prop :=
  ∀ cs c ds h, t.calls r = cs ++ c :: ds →
    (Call.runAll cs (t.ready r)).state.history.get? id = some h →
    (∀ s b, c = .deploy s b → s.id ≠ id) ∧
      ((Call.runAll (cs ++ [c]) (t.ready r)).state.history.get? id = some h ∨
        (Call.runAll (cs ++ [c]) (t.ready r)).state.history.get? id = none ∧ t.Drops id)

variable {t : Turn} {ts : List Turn} {r : Repository} {id : String} {h : HistoryRecord}

theorem ListsOrderly.listsRecordable (ht : t.ListsOrderly) : t.ListsRecordable :=
  fun all hl s hs => ((ht all hl).regular s hs).recordable

theorem keeps_of_orderly (hw : r.WellKept) (ht : t.ListsOrderly) (hid : ':' ∈ id.toList) :
    t.Keeps r id := by
  intro cs c ds h hc hget
  have hlast : Call.runAll (cs ++ [c]) (t.ready r) = c.run (Call.runAll cs (t.ready r)) := by
    rw [Call.runAll_append]
    rfl
  rw [hlast]
  by_cases hne : c.script.id = id
  · subst hne
    have hmem : c ∈ t.calls r := by simp [hc]
    rw [calls] at hc hmem
    split at hc
    · exact absurd rfl (Release.not_called_of_recorded (r := t.started r) (hw.congr rfl) ht hid hc
        hget)
    · next ha =>
      rw [ha] at hmem
      obtain ⟨⟨s, rfl⟩, hlisted⟩ :=
        Release.eq_rollback_of_mem_calls (r := t.started r) (hw.congr rfl) ht hid hmem
      refine ⟨fun _ _ he => (by cases he), ?_⟩
      rcases Call.run_history (.rollback s) (Call.runAll cs (t.ready r)) with
        hr | ⟨_, _, he, -⟩ | ⟨_, he, hr⟩
      · rw [hr]
        exact .inl hget
      · cases he
      · cases he
        rw [hr, Keyed.get?_erase]
        exact .inr ⟨if_pos rfl, ha, hlisted⟩
    · simp at hc
  · refine ⟨?_, .inl ?_⟩
    · rintro s b rfl
      exact hne
    · rw [Call.get?_history_run_of_ne (Ne.symm hne), hget]

theorem Keeps.get?_history_after (hk : t.Keeps r id) (hd : ¬ t.Drops id)
    (hget : r.state.history.get? id = some h) {cs : List Call} (hcs : cs <+: t.calls r) :
    (Call.runAll cs (t.ready r)).state.history.get? id = some h := by
  induction cs using List.reverseRecOn with
  | nil => exact hget
  | append_singleton cs c ih =>
      obtain ⟨ds, hds⟩ := hcs
      have hc : t.calls r = cs ++ c :: ds := by rw [← hds, List.append_assoc, List.singleton_append]
      rcases (hk cs c ds h hc (ih ⟨c :: ds, hc.symm⟩)).2 with hleft | ⟨-, hdrops⟩
      · exact hleft
      · exact absurd hdrops hd

theorem Keeps.get?_history_run (hk : t.Keeps r id) (hd : ¬ t.Drops id)
    (hget : r.state.history.get? id = some h) : (t.run r).state.history.get? id = some h := by
  rw [history_run]
  exact hk.get?_history_after hd hget (List.prefix_refl _)

theorem Keeps.ne_of_mem_calls (hk : t.Keeps r id) (hd : ¬ t.Drops id)
    (hget : r.state.history.get? id = some h) {s : Script} {b : Bool}
    (hs : .deploy s b ∈ t.calls r) : s.id ≠ id := by
  obtain ⟨cs, ds, hc⟩ := List.append_of_mem hs
  have hfound := hk.get?_history_after hd hget ⟨_, hc.symm⟩
  exact (hk cs _ ds h hc hfound).1 s b rfl

theorem get?_history_runAll (hw : r.WellKept) (hid : ':' ∈ id.toList)
    (hts : ∀ t ∈ ts, t.ListsOrderly ∧ ¬ t.Drops id) (hget : r.state.history.get? id = some h) :
    (runAll ts r).state.history.get? id = some h := by
  induction ts generalizing r with
  | nil => exact hget
  | cons t ts ih =>
      obtain ⟨⟨ht, hd⟩, hts⟩ := List.forall_mem_cons.1 hts
      refine ih (wellKept_run ht.listsRecordable hw) hts ?_
      exact (keeps_of_orderly hw ht hid).get?_history_run hd hget

/-- Whatever was done to an empty repository, a migration that is recorded stays so and is not
deployed again up to the call that removes its record, in a rollback without it in its listing. A
deployment that lists it with another text fails before its first call. -/
theorem deployed_migration_is_immutable (clock database : String) {past : List Turn}
    (hpast : ∀ t ∈ past, t.ListsOrderly) {m : Script} (hm : m.isMigration = true) :
    let r := runAll past (.new clock database)
    (∀ t : Turn, t.ListsOrderly → t.Keeps r m.id) ∧
      ∀ h, r.state.history.get? m.id = some h →
        (∀ future : List Turn, (∀ t ∈ future, t.ListsOrderly ∧ ¬ t.Drops m.id) →
          (runAll future r).state.history.get? m.id = some h ∧
            ∀ mid t rest, future = mid ++ t :: rest →
              ∀ s b, .deploy s b ∈ t.calls (runAll mid r) → s.id ≠ m.id) ∧
        ∀ t : Turn, t.ListsOrderly → ∀ b all s, t.action = .deploy b →
          t.release.listing = .ok all → s ∈ t.release.included all → s.id = m.id →
          s.hash ≠ h.scriptHash →
          (∃ e, (t.release.deploy b (t.start r)).2 = .error e) ∧
            (t.run r).executions = r.executions ∧
            (t.run r).state.history = r.state.history := by
  intro r
  have hid := Script.colon_mem_id hm
  have hw : r.WellKept := wellKept_runAll (fun t ht => (hpast t ht).listsRecordable)
    (Repository.wellKept_new clock database)
  refine ⟨fun t ht => keeps_of_orderly hw ht hid, fun h hget => ⟨?_, ?_⟩⟩
  · intro future hfuture
    refine ⟨get?_history_runAll hw hid hfuture hget, ?_⟩
    rintro mid t rest rfl s b hs
    obtain ⟨hmid, htrest⟩ := List.forall_mem_append.1 hfuture
    obtain ⟨⟨ht, hd⟩, -⟩ := List.forall_mem_cons.1 htrest
    have hw' : (runAll mid r).WellKept :=
      wellKept_runAll (fun t ht => (hmid t ht).1.listsRecordable) hw
    have hget' := get?_history_runAll hw hid hmid hget
    exact (keeps_of_orderly hw' ht hid).ne_of_mem_calls hd hget' hs
  · intro t ht b all s ha hl hs hsid hne
    have hsm := (ht all hl).isMigration (List.mem_of_mem_filter hs) (hsid ▸ hid)
    have hw' : (t.start r).WellKept := hw.congr rfl
    obtain ⟨e, syncs, he⟩ := Release.deploy_of_changed_migration (b := b) hw' hl hs hsm
      (hsid ▸ hget) hne
    have hrun : t.run r = (Release.begun (t.start r)).withSyncs syncs := by
      rw [run, ha]
      exact congrArg Prod.fst he
    refine ⟨⟨e, congrArg Prod.snd he⟩, ?_, ?_⟩
    · rw [hrun]
      rfl
    · rw [hrun]
      rfl

def tableT (ddl : String) : Script :=
  .ofUnit "DB" "S" .table "T" ⟨0, none, "---version: 0\n" ++ ddl, none, none⟩

def deployOf (s : Script) : Turn :=
  ⟨⟨.default, .empty, .ok [s]⟩, .empty, "2024-01-01T00:00:00Z", .deploy false⟩

theorem listsOrderly_deployOf (ddl : String) : (deployOf (tableT ddl)).ListsOrderly := by
  intro all hl
  cases hl
  constructor
  case regular =>
    intro s hs
    cases List.mem_singleton.1 hs
    refine ⟨Script.isUpper_ofContent .., rfl, ?_⟩
    intro u hu
    cases hu
    exact Nat.zero_le _
  case nodup => exact List.nodup_singleton _
  case not_colon =>
    intro s hs hm
    cases List.mem_singleton.1 hs
    cases hm

def tableA : Script :=
  tableT "CREATE TABLE DB.S.T (A INT)"

def tableB : Script :=
  tableT "CREATE TABLE DB.S.T (B INT)"

theorem tableA_eq : tableA = { tableA with
    hash := "5f2e1248118b017e7cf06f415ed82471292525d87afc249e29a5160406310780" } := by
  decide +kernel

theorem tableB_eq : tableB = { tableB with
    hash := "8e57dcea4ade4dbfded7f07a36a27a3d3c84164aa49c71c9f59ac9f105f3cf0e" } := by
  decide +kernel

def withTableA : Repository :=
  runAll [deployOf tableA] (.new "2024-01-01T00:00:00Z" "DB")

theorem deployed_tableA_is_immutable :
    (deployOf tableA).ListsOrderly ∧ tableA.isMigration = true ∧
      (deployOf tableB).ListsOrderly ∧ (deployOf tableB).Keeps withTableA tableA.id ∧
      (∃ e, ((deployOf tableB).release.deploy false ((deployOf tableB).start withTableA)).2 =
        .error e) ∧
      ((deployOf tableB).run withTableA).executions = withTableA.executions ∧
      ((deployOf tableB).run withTableA).state.history = withTableA.state.history := by
  have hpast : ∀ t ∈ [deployOf tableA], t.ListsOrderly := by
    intro t ht
    cases List.mem_singleton.1 ht
    exact listsOrderly_deployOf _
  have hrun : runAll [deployOf tableA] (.new "2024-01-01T00:00:00Z" "DB") = withTableA := rfl
  have himmutable :=
    deployed_migration_is_immutable "2024-01-01T00:00:00Z" "DB" hpast (m := tableA) rfl
  rw [hrun] at himmutable
  obtain ⟨hkeeps, himmutable⟩ := himmutable
  obtain ⟨hrecorded, hother⟩ : (withTableA.state.history.get? tableA.id).map (·.scriptHash) =
      some tableA.hash ∧ tableB.hash ≠ tableA.hash := by
    rw [withTableA, tableA_eq, tableB_eq]
    decide +kernel
  obtain ⟨h, hget, hhash⟩ := Option.map_eq_some_iff.1 hrecorded
  have hne : tableB.hash ≠ h.scriptHash := by rwa [hhash]
  have hid : tableB.id = tableA.id := by
    simp only [tableA, tableB, tableT, Script.ofUnit, Script.ofContent, Script.id, Script.fullName]
  have hlisted : tableB ∈ (deployOf tableB).release.included [tableB] := by
    simp [Release.included, Config.isExcluded, deployOf, Config.default]
  have hfails := (himmutable h hget).2 (deployOf tableB) (listsOrderly_deployOf _) false _ _ rfl rfl
    hlisted hid hne
  exact ⟨listsOrderly_deployOf _, rfl, listsOrderly_deployOf _,
    hkeeps _ (listsOrderly_deployOf _), hfails⟩

end Turn

end SchemaDeploy
