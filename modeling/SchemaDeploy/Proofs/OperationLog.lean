import SchemaDeploy.Proofs.ImmutableMigrations
import SchemaDeploy.Proofs.Verification

namespace SchemaDeploy

def ChangeSync.ended (id : Nat) (change : ChangeType) (time : String) :
    Except SyncError Nat → ChangeSync
  | .ok count =>
    ⟨id, change, .success, "Successfully completed " ++ change.word, some count, time, some time⟩
  | .error e => ⟨id, change, .error, e.message, none, time, some time⟩

namespace Repository

/-- A relation between a repository and a later one that every single change keeps. -/
structure Steady (R : Repository → Repository → Prop) : Prop where
  refl : ∀ r, R r r
  trans : ∀ {r r' r''}, R r r' → R r' r'' → R r r''
  recordEvent : ∀ r s status message, R r (r.recordEvent s status message)
  updateHistory : ∀ r s, R r (r.updateHistory s)
  forget : ∀ r s, R r (r.forget s)
  execute : ∀ r id sql, R r (r.execute id sql)
  applyToLive : ∀ r s, R r (r.applyToLive s)
  dropLive : ∀ r s, R r (r.dropLive s)
  loadHashes : ∀ r, R r r.loadHashes

namespace Steady

variable {R : Repository → Repository → Prop}

theorem deploy (h : Steady R) (r : Repository) (s : Script) (b : Bool) : R r (r.deploy s b).1 := by
  cases hr : r.rejects s b with
  | true =>
      rw [deploy_of_rejects hr]
      exact h.recordEvent ..
  | false =>
      rw [deploy_of_not_rejects hr, completed]
      refine h.trans ?_ (h.recordEvent ..)
      refine h.trans ?_ (h.updateHistory ..)
      cases b with
      | true => exact h.refl r
      | false => exact h.trans (h.execute ..) (h.applyToLive ..)

theorem rollback (h : Steady R) (r : Repository) (s : Script) : R r (r.rollback s).1 := by
  have hdone (q : Repository) (hq : R r q) :
      R r ((q.forget s).recordEvent s .success "Successfully rolled back object") :=
    h.trans (h.trans hq (h.forget ..)) (h.recordEvent ..)
  rw [Repository.rollback]
  cases statement? (s.migration.bind (·.rollback)) with
  | none => exact hdone r (h.refl r)
  | some sql =>
      dsimp only
      split
      · exact h.recordEvent ..
      · apply hdone
        split
        · exact h.trans (h.execute ..) (h.dropLive ..)
        · exact h.execute ..

theorem verify (h : Steady R) (r : Repository) (s : Script) : R r (r.verify s).1 := by
  rw [Repository.verify]
  cases statement? (s.migration.bind (·.verify)) with
  | none => exact h.recordEvent ..
  | some sql =>
      dsimp only
      split
      · exact h.recordEvent ..
      · exact h.trans (h.execute ..) (h.recordEvent ..)

theorem runTest (h : Steady R) (r : Repository) (t : TestScript) (query : String) :
    R r (r.runTest t query).1 := by
  rw [Repository.runTest]
  split <;> exact h.execute ..

theorem runAll (h : Steady R) (cs : List Call) (r : Repository) : R r (Call.runAll cs r) := by
  refine Call.runAll_preserves (P := R r) (fun c _ q hq => h.trans hq ?_) (h.refl r)
  cases c with
  | deploy s b => exact h.deploy q s b
  | rollback s => exact h.rollback q s

end Steady

variable {r r' r'' : Repository} {s : Script}

/-- What may happen between the two records of an operation: the log stays, events are added under
the current entry, and a record is one from before or is written under the current entry. -/
structure Continues (r r' : Repository) : Prop where
  clock : r'.clock = r.clock
  currentSync : r'.currentSync = r.currentSync
  syncs : r'.state.syncs = r.state.syncs
  events : ∃ es, r'.state.events = r.state.events ++ es ∧ ∀ e ∈ es, e.syncId = r.syncId
  records : ∀ key h, r'.state.history.get? key = some h →
    r.state.history.get? key = some h ∨ h.syncId = r.syncId

theorem Continues.refl (r : Repository) : r.Continues r :=
  ⟨rfl, rfl, rfl, ⟨[], by simp⟩, fun _ _ => .inl⟩

theorem Continues.trans (h : r.Continues r') (h' : r'.Continues r'') : r.Continues r'' := by
  have hid : r'.syncId = r.syncId := by rw [syncId, h.currentSync, syncId]
  refine ⟨h'.clock.trans h.clock, h'.currentSync.trans h.currentSync, h'.syncs.trans h.syncs, ?_, ?_⟩
  · obtain ⟨es, hes, hes'⟩ := h.events
    obtain ⟨fs, hfs, hfs'⟩ := h'.events
    refine ⟨es ++ fs, by rw [hfs, hes, List.append_assoc], ?_⟩
    exact List.forall_mem_append.2 ⟨hes', fun e he => hid ▸ hfs' e he⟩
  · intro key record hget
    rcases h'.records key record hget with hget | hsync
    · exact h.records key record hget
    · exact .inr (hid ▸ hsync)

theorem continues_recordEvent (r : Repository) (s : Script) (status : SyncStatus)
    (message : String) : r.Continues (r.recordEvent s status message) := by
  refine ⟨rfl, rfl, rfl, ⟨[_], rfl, ?_⟩, fun _ _ => .inl⟩
  intro e he
  cases List.mem_singleton.1 he
  rfl

theorem continues_updateHistory (r : Repository) (s : Script) : r.Continues (r.updateHistory s) := by
  refine ⟨rfl, rfl, rfl, ⟨[], by simp [updateHistory]⟩, ?_⟩
  intro key record hget
  rw [updateHistory, Keyed.get?_insert] at hget
  split at hget
  · cases hget
    exact .inr rfl
  · exact .inl hget

theorem continues_forget (r : Repository) (s : Script) : r.Continues (r.forget s) := by
  refine ⟨rfl, rfl, rfl, ⟨[], by simp [forget]⟩, ?_⟩
  intro key record hget
  rw [forget, Keyed.get?_erase] at hget
  split at hget
  · cases hget
  · exact .inl hget

theorem continues_of_eq (hclock : r'.clock = r.clock) (hcurrent : r'.currentSync = r.currentSync)
    (hsyncs : r'.state.syncs = r.state.syncs) (hevents : r'.state.events = r.state.events)
    (hhistory : r'.state.history = r.state.history) : r.Continues r' := by
  refine ⟨hclock, hcurrent, hsyncs, ⟨[], by simp [hevents]⟩, ?_⟩
  intro key record hget
  exact .inl (hhistory ▸ hget)

theorem steady_continues : Steady Continues where
  refl := Continues.refl
  trans := Continues.trans
  recordEvent := continues_recordEvent
  updateHistory := continues_updateHistory
  forget := continues_forget
  execute _ _ _ := continues_of_eq rfl rfl rfl rfl rfl
  applyToLive _ _ := continues_of_eq rfl rfl rfl rfl rfl
  dropLive _ _ := continues_of_eq rfl rfl rfl rfl rfl
  loadHashes _ := continues_of_eq rfl rfl rfl rfl rfl

def Numbered (r : Repository) : Prop :=
  ∀ i entry, r.state.syncs[i]? = some entry → entry.id = i + 1

theorem numbered_of_nil (h : r.state.syncs = []) : r.Numbered := by
  intro i entry hi
  rw [h] at hi
  cases hi

theorem Numbered.congr (hn : r.Numbered) (h : r'.state.syncs = r.state.syncs) : r'.Numbered := by
  rw [Numbered, h]
  exact hn

theorem Numbered.concat (hn : r.Numbered) {entry : ChangeSync}
    (hid : entry.id = r.state.syncs.length + 1) (h : r'.state.syncs = r.state.syncs ++ [entry]) :
    r'.Numbered := by
  intro i e hi
  rw [h, List.getElem?_append] at hi
  split at hi
  · exact hn i e hi
  · next hle =>
    have hlast : i = r.state.syncs.length := by
      have hlt := (List.getElem?_eq_some_iff.1 hi).1
      simp only [List.length_singleton] at hlt
      omega
    subst hlast
    simp only [Nat.sub_self, List.getElem?_cons_zero, Option.some.injEq] at hi
    rw [← hi, hid]

theorem Numbered.id_ne (hn : r.Numbered) :
    ∀ entry ∈ r.state.syncs, entry.id ≠ r.state.syncs.length + 1 := by
  intro entry hentry
  obtain ⟨i, hi⟩ := List.mem_iff_getElem?.1 hentry
  have hlt := (List.getElem?_eq_some_iff.1 hi).1
  rw [hn i entry hi]
  omega

theorem updateSync_concat {id : Nat} {f : ChangeSync → ChangeSync} {entries : List ChangeSync}
    {entry : ChangeSync} (h : ∀ e ∈ entries, e.id ≠ id) (hid : entry.id = id) :
    updateSync id f (entries ++ [entry]) = entries ++ [f entry] := by
  induction entries with
  | nil => simp [updateSync, hid]
  | cons e es ih =>
      obtain ⟨he, hes⟩ := List.forall_mem_cons.1 h
      rw [List.cons_append, updateSync, if_neg he, ih hes, List.cons_append]

theorem endSync_of_continues (hn : r.Numbered) {change : ChangeType} {started : String}
    (h : (r.startSync change started).Continues r') (status : SyncStatus) (message : String)
    (count : Option Nat) : r'.endSync change status message count =
      (r'.withSyncs (r.state.syncs ++
        [⟨r.state.syncs.length + 1, change, status, message, count, r.clock, some r.clock⟩]),
        .ok ()) := by
  have hcurrent : r'.currentSync = some (r.state.syncs.length + 1) := h.currentSync
  have hsyncs : r'.state.syncs = r.state.syncs ++
      [⟨r.state.syncs.length + 1, change, .inProgress, started, none, r.clock, none⟩] := h.syncs
  have hclock : r'.clock = r.clock := h.clock
  have hany : r'.state.syncs.any (·.id == r.state.syncs.length + 1) = true := by
    rw [hsyncs]
    simp
  rw [endSync]
  split
  · next hnone =>
    rw [hcurrent] at hnone
    cases hnone
  · next id hid =>
    cases hcurrent.symm.trans hid
    rw [if_pos hany]
    dsimp only
    rw [hsyncs, updateSync_concat hn.id_ne rfl, withSyncs]
    simp only [hclock]

end Repository

theorem bracketed_eq_ended {α : Type} {run : Operation α} {r : Repository} (hn : r.Numbered)
    (change : ChangeType) (count : α → Nat)
    (h : ∀ q : Repository, q.Continues (run q).1) :
    let ran := run (r.startSync change (change.word ++ " started."))
    bracketed change count run r =
      (ran.1.withSyncs (r.state.syncs ++
        [.ended (r.state.syncs.length + 1) change r.clock (ran.2.map count)]), ran.2) := by
  intro ran
  have hend := Repository.endSync_of_continues hn (h (r.startSync change (change.word ++ " started.")))
  have hran : run (r.startSync change (change.word ++ " started.")) = ran := rfl
  rw [hran] at hend
  rw [bracketed, hran]
  rcases hres : ran with ⟨r', e | a⟩
  · rw [hres] at hend
    simp only [hend]
    rfl
  · rw [hres] at hend
    simp only [hend]
    rfl

namespace Release

variable (l : Release)

section Steady

variable {R : Repository → Repository → Prop} (h : Repository.Steady R) (r : Repository)
include h

theorem steady_deployChanged (b : Bool) : R r (l.deployChanged b r).1 := by
  rw [deployChanged_eq_runAll]
  exact h.trans (h.loadHashes r) (h.runAll _ _)

theorem steady_rollbackChanged : R r (l.rollbackChanged r).1 := by
  rw [rollbackChanged_eq_runAll]
  exact h.trans (h.loadHashes r) (h.runAll _ _)

theorem steady_verifyAll : R r (l.verifyAll r).1 :=
  l.verifyAll_preserves (P := R r) (fun q s hq => h.trans hq (h.verify q s)) (h.loadHashes r)

theorem steady_runTests (companions : List Script → Except SyncError (List TestScript)) :
    R r (l.runTests companions r).1 :=
  l.runTests_preserves (P := R r) (fun q t query hq => h.trans hq (h.runTest q t query)) companions
    (h.refl r)

theorem steady_findUnsourced : R r (l.findUnsourced r).1 := by
  rw [findUnsourced]
  cases l.listing <;> exact h.refl r

end Steady

variable (r : Repository)

theorem continues_recordEdges : r.Continues (l.recordEdges r).1 := by
  rw [recordEdges]
  cases l.edges with
  | error e => exact .refl r
  | ok edges => exact Repository.continues_of_eq rfl rfl rfl rfl rfl

end Release

/-- What an operation gives back; an export also leaves a tree. -/
inductive Answer where
  | planned (result : Except SyncError (List Script))
  | counted (result : Except SyncError Nat)
  | verified (result : Except SyncError VerifyReport)
  | tested (result : Except SyncError TestReport)
  | written (tree : FileTree) (result : Except SyncError Nat)
  | unsourced (result : Except SyncError (List String))

def Action.change? : Action → Option ChangeType
  | .plan => none
  | .deploy _ => some .deploy
  | .rollback => some .rollback
  | .verify => some .verify
  | .test _ => some .test
  | .createLineage => some .createLineage
  | .createScripts .. => some .createScript
  | .cleanup => some .cleanup

namespace Turn

def answer (t : Turn) (r : Repository) : Answer :=
  match t.action with
  | .plan => .planned (t.release.plan (t.start r)).2
  | .deploy onlyHashes => .counted (t.release.deploy onlyHashes (t.start r)).2
  | .rollback => .counted (t.release.rollback (t.start r)).2
  | .verify => .verified (t.release.verify (t.start r)).2
  | .test companions => .tested (t.release.test companions (t.start r)).2
  | .createLineage => .counted (t.release.createLineage (t.start r)).2
  | .createScripts source targets tree =>
    let made := t.release.createScripts source targets tree (t.start r)
    .written made.1 made.2.2
  | .cleanup => .unsourced (t.release.cleanup (t.start r)).2

/-- What an operation counts, or the error that ended it. A cleanup counts all live objects. -/
def outcome (t : Turn) (r : Repository) : Except SyncError Nat :=
  match t.answer r with
  | .planned result => result.map List.length
  | .counted result => result
  | .verified result => result.map VerifyReport.checked
  | .tested result => result.map List.length
  | .written _ result => result
  | .unsourced result => result.map fun _ => r.liveNames.length

variable {t : Turn} {ts : List Turn} {r : Repository} {change : ChangeType}

theorem exists_bracketed (h : t.action.change? = some change) (r : Repository) :
    ∃ (α : Type) (count : α → Nat) (run : Operation α),
      t.run r = (bracketed change count run (t.start r)).1 ∧
      t.outcome r = (bracketed change count run (t.start r)).2.map count ∧
      ∀ q : Repository, q.Continues (run q).1 := by
  have hid (x : Except SyncError Nat) : x = x.map id := by cases x <;> rfl
  have hsteady := Repository.steady_continues
  rw [run, outcome, answer]
  cases ha : t.action <;> rw [ha] at h <;> cases h
  case deploy b => exact ⟨_, _, _, rfl, hid _, fun q => t.release.steady_deployChanged hsteady q b⟩
  case rollback => exact ⟨_, _, _, rfl, hid _, t.release.steady_rollbackChanged hsteady⟩
  case verify => exact ⟨_, _, _, rfl, rfl, t.release.steady_verifyAll hsteady⟩
  case test companions =>
    exact ⟨_, _, _, rfl, rfl, fun q => t.release.steady_runTests hsteady q companions⟩
  case createLineage => exact ⟨_, _, _, rfl, hid _, t.release.continues_recordEdges⟩
  case createScripts source targets tree => exact ⟨_, _, _, rfl, hid _, .refl⟩
  case cleanup => exact ⟨_, _, _, rfl, rfl, t.release.steady_findUnsourced hsteady⟩

def entry (t : Turn) (r : Repository) (change : ChangeType) : ChangeSync :=
  .ended (r.state.syncs.length + 1) change t.clock (t.outcome r)

theorem syncs_run (hn : r.Numbered) (h : t.action.change? = some change) :
    (t.run r).state.syncs = r.state.syncs ++ [t.entry r change] := by
  obtain ⟨α, count, run, hrun, hout, hcontinues⟩ := exists_bracketed h r
  have hb := bracketed_eq_ended (r := t.start r) hn change count hcontinues
  rw [hb] at hrun hout
  rw [hrun, entry, hout]
  rfl

theorem run_of_change?_eq_none (h : t.action.change? = none) (r : Repository) :
    (t.run r).state = r.state ∧ t.calls r = [] := by
  cases ha : t.action <;> rw [ha] at h <;> cases h
  rw [run, calls, ha]
  exact ⟨rfl, rfl⟩

theorem numbered_run (hn : r.Numbered) (t : Turn) : (t.run r).Numbered := by
  cases h : t.action.change? with
  | none => exact hn.congr (congrArg _ (run_of_change?_eq_none h r).1)
  | some change =>
      refine hn.concat ?_ (syncs_run hn h)
      rw [entry]
      cases t.outcome r <;> rfl

theorem numbered_runAll (hn : r.Numbered) (ts : List Turn) : (runAll ts r).Numbered := by
  induction ts generalizing r with
  | nil => exact hn
  | cons t ts ih => exact ih (numbered_run hn t)

theorem events_run (t : Turn) (r : Repository) :
    ∃ es, (t.run r).state.events = r.state.events ++ es ∧
      ∀ e ∈ es, e.syncId = r.state.syncs.length + 1 := by
  cases h : t.action.change? with
  | none =>
      rw [(run_of_change?_eq_none h r).1]
      exact ⟨[], by simp⟩
  | some change =>
      obtain ⟨α, count, run, hrun, -, hcontinues⟩ := exists_bracketed h r
      obtain ⟨syncs, hb⟩ := bracketed_fst change count run (t.start r)
      rw [hrun, hb]
      exact (hcontinues _).events

/-- At every call, what is in the history afterwards was there before or is written under the number. -/
def WritesUnder (t : Turn) (r : Repository) (id : Nat) : Prop :=
  ∀ cs c ds, t.calls r = cs ++ c :: ds → ∀ key h,
    (Call.runAll (cs ++ [c]) (t.ready r)).state.history.get? key = some h →
      (Call.runAll cs (t.ready r)).state.history.get? key = some h ∨ h.syncId = id

theorem writesUnder (t : Turn) (r : Repository) : t.WritesUnder r (r.state.syncs.length + 1) := by
  intro cs c ds _ key h hget
  have hid : (Call.runAll cs (t.ready r)).syncId = r.state.syncs.length + 1 := by
    rw [Repository.syncId, (Repository.steady_continues.runAll cs (t.ready r)).currentSync]
    rfl
  rw [Call.runAll_append] at hget
  exact hid ▸ (Repository.steady_continues.runAll [c] _).records key h hget

/-- Whatever was done to a repository with an empty log: its entries are numbered by their places. A
plan changes nothing that is kept. Every other operation adds one entry, which tells how it ended;
the events that it adds carry the number of that entry, and so does every record that its calls
write to the history. -/
theorem log_of_run (hempty : r.state.syncs = []) (past : List Turn) (t : Turn) :
    let before := runAll past r
    let number := before.state.syncs.length + 1
    (t.run before).Numbered ∧
      (t.action = .plan → (t.run before).state = before.state) ∧
      (∀ change, t.action.change? = some change →
        (t.run before).state.syncs =
          before.state.syncs ++ [.ended number change t.clock (t.outcome before)]) ∧
      (∃ es, (t.run before).state.events = before.state.events ++ es ∧
        ∀ e ∈ es, e.syncId = number) ∧
      (t.run before).state.history = (Call.runAll (t.calls before) (t.ready before)).state.history ∧
      t.WritesUnder before number := by
  intro before number
  have hn : before.Numbered := numbered_runAll (Repository.numbered_of_nil hempty) past
  refine ⟨numbered_run hn t, ?_, fun change h => syncs_run hn h, events_run t before,
    history_run t before, writesUnder t before⟩
  intro ha
  exact (run_of_change?_eq_none (by rw [ha]; rfl) before).1

theorem log_of_refused_tableB :
    (Repository.new "2024-01-01T00:00:00Z" "DB").state.syncs = [] ∧
      withTableA.state.syncs.length = 1 ∧
      ((deployOf tableB).run withTableA).state.syncs = withTableA.state.syncs ++
        [⟨2, .deploy, .error, "Migration DB.S.T:0 was already deployed and its content has changed",
          none, "2024-01-01T00:00:00Z", some "2024-01-01T00:00:00Z"⟩] := by
  have hempty : (Repository.new "2024-01-01T00:00:00Z" "DB").state.syncs = [] := rfl
  have hone : withTableA.state.syncs.length = 1 := by decide +kernel
  have hrefused : (deployOf tableB).outcome withTableA = .error (.immutableMigration "DB.S.T:0") := by
    rw [withTableA, tableA_eq, tableB_eq]
    decide +kernel
  have hrun : runAll [deployOf tableA] (.new "2024-01-01T00:00:00Z" "DB") = withTableA := rfl
  have hlog := log_of_run hempty [deployOf tableA] (deployOf tableB)
  rw [hrun] at hlog
  obtain ⟨-, -, hsyncs, -⟩ := hlog
  refine ⟨hempty, hone, ?_⟩
  rw [hsyncs .deploy rfl, hone, hrefused]
  rfl

end Turn

end SchemaDeploy
