import SchemaDeploy.Change.Verify
import SchemaDeploy.Proofs.DeployRun

namespace SchemaDeploy

theorem VerifyReport.foldl_add {α : Type} (f : α → String) (p : α → Bool) (xs : List α)
    (report : VerifyReport) :
    xs.foldl (fun report x => report.add (f x) (p x)) report =
      ⟨report.checked + xs.length, report.failures ++ (xs.filter fun x => !p x).map f⟩ := by
  induction xs generalizing report with
  | nil => simp
  | cons x xs ih =>
      rw [List.foldl_cons, ih, VerifyReport.add, List.length_cons, List.filter_cons]
      cases p x <;> simp [Nat.add_assoc, Nat.add_comm 1]

theorem VerifyReport.outcome_eq_ok_iff {report report' : VerifyReport} :
    report.outcome = .ok report' ↔ report.failures = [] ∧ report = report' := by
  rw [outcome]
  split <;> simp_all

namespace Repository

/-- Whether a migration has no statement to verify it with, or one that is not rejected. -/
def passes (r : Repository) (s : Script) : Bool :=
  (statement? (s.migration.bind (·.verify))).isNone || !r.fails s

theorem verify_snd (r : Repository) (s : Script) : (r.verify s).2 = r.passes s := by
  rw [verify, passes]
  cases statement? (s.migration.bind (·.verify)) with
  | none => rfl
  | some sql => cases r.fails s <;> rfl

theorem verify_keeps (r : Repository) (s : Script) :
    (r.verify s).1.failing = r.failing ∧ (r.verify s).1.currentSync = r.currentSync ∧
      (r.verify s).1.state.syncs = r.state.syncs := by
  rw [verify]
  cases statement? (s.migration.bind (·.verify)) with
  | none => exact ⟨rfl, rfl, rfl⟩
  | some sql =>
      dsimp only
      split <;> exact ⟨rfl, rfl, rfl⟩

end Repository

namespace Release

variable {l : Release} {r : Repository}

theorem verifySteps_snd (ss : List Script) (report : VerifyReport) (r : Repository) :
    (l.verifySteps ss report r).2 = ss.foldl
      (fun report s => report.add (l.injected s).id (r.passes (l.injected s))) report := by
  induction ss generalizing report r with
  | nil => rfl
  | cons s ss ih =>
      have hfailing := (r.verify_keeps (l.injected s)).1
      have hpasses := r.verify_snd (l.injected s)
      rw [verifySteps]
      rcases hr : r.verify (l.injected s) with ⟨r', ok⟩
      rw [hr] at hfailing hpasses
      dsimp only at hfailing hpasses ⊢
      have hsame (t : Script) : r'.passes t = r.passes t := by
        simp only [Repository.passes, Repository.fails, hfailing]
      rw [ih, List.foldl_cons, hpasses]
      simp only [hsame]

theorem verifySteps_keepsLog (ss : List Script) (report : VerifyReport) (r : Repository) :
    (l.verifySteps ss report r).1.currentSync = r.currentSync ∧
      (l.verifySteps ss report r).1.state.syncs = r.state.syncs := by
  induction ss generalizing report r with
  | nil => exact ⟨rfl, rfl⟩
  | cons s ss ih =>
      have hone := (r.verify_keeps (l.injected s)).2
      rw [verifySteps]
      rcases hr : r.verify (l.injected s) with ⟨r', ok⟩
      rw [hr] at hone
      dsimp only at hone ⊢
      rw [(ih _ r').1, (ih _ r').2]
      exact hone

theorem keepsLog_verifyAll (l : Release) : KeepsLog l.verifyAll := by
  intro r
  rw [verifyAll]
  cases l.listing with
  | error e => exact ⟨rfl, rfl⟩
  | ok all => exact verifySteps_keepsLog _ _ r.loadHashes

def comparedObjects (l : Release) (r : Repository) : List Script :=
  (liveScripts r).filterMap l.comparedLive?

def verifyReport (l : Release) (r : Repository) (sources : List Script) : VerifyReport where
  checked := (l.comparedObjects r).length + (latestMigrations sources).length
  failures :=
    ((l.comparedObjects r).filter fun live => !matchesSource sources live).map Script.id ++
      ((latestMigrations sources).filter fun s => !r.passes (l.injected s)).map Script.id

theorem verify_snd {all : List Script} (hl : l.listing = .ok all) :
    (l.verify r).2 = (l.verifyReport r (l.included all)).outcome := by
  obtain ⟨syncs, hb⟩ := bracketed_eq (keepsLog_verifyAll l) .verify VerifyReport.checked r
  rw [verify, hb]
  dsimp only
  rw [verifyAll, hl]
  dsimp only
  rw [verifySteps_snd, VerifyReport.foldl_add, compareLive, VerifyReport.foldl_add]
  simp only [injected_id, Nat.zero_add, List.nil_append]
  rfl

theorem failures_verifyReport_eq_nil_iff {sources : List Script} :
    (l.verifyReport r sources).failures = [] ↔
      (∀ p ∈ l.comparedObjects r, matchesSource sources p = true) ∧
        ∀ s ∈ latestMigrations sources, r.passes (l.injected s) = true := by
  simp [verifyReport, List.filter_eq_nil_iff]

theorem exists_verify_ok_iff {all : List Script} (hl : l.listing = .ok all) :
    (∃ report, (l.verify r).2 = .ok report ∧ report.failures = []) ↔
      (∀ p ∈ l.comparedObjects r, matchesSource (l.included all) p = true) ∧
        ∀ s ∈ latestMigrations (l.included all), r.passes (l.injected s) = true := by
  rw [← failures_verifyReport_eq_nil_iff, verify_snd hl]
  simp only [VerifyReport.outcome_eq_ok_iff]
  constructor
  · rintro ⟨report, ⟨hnil, -⟩, -⟩
    exact hnil
  · intro hnil
    exact ⟨_, ⟨hnil, rfl⟩, hnil⟩

end Release

end SchemaDeploy
