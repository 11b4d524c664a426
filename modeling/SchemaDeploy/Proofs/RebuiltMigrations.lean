import SchemaDeploy.Proofs.RollbackRun

namespace SchemaDeploy

/-- The same version of the same object, undone by the same statement. -/
structure Script.IsRebuilt (s m : Script) : Prop where
  objectType : m.objectType = s.objectType
  version : m.version = s.version
  fullName : m.fullName = s.fullName
  id : m.id = s.id
  rollback : m.migration.bind (·.rollback) = s.migration.bind (·.rollback)

variable {s m : Script} {r : Repository} {u : Migration} {b : Bool}

theorem HistoryRecord.IsFor.exists_isRebuilt {h : HistoryRecord} (hf : h.IsFor s) (hs : s.Regular)
    (hu : s.migration = some u) (hrollback : h.rollback = u.rollback) :
    ∃ m, h.toMigration? = some m ∧ s.IsRebuilt m := by
  obtain ⟨a, b, c, hparts, hname⟩ := Script.exists_nameParts? s.two_le_count_fullName
  have hm : s.isMigration = true := by rw [Script.isMigration, hu, Option.isSome_some]
  obtain ⟨m, hto, hid, -, -⟩ := hf.exists_toMigration? hs hm
  obtain rfl := Option.some.inj (hto.symm.trans (hf.toMigration?_eq hs hu hparts))
  refine ⟨_, hto, ?_⟩
  constructor
  case objectType => rfl
  case version => rw [Script.version, Script.version, hu]; rfl
  case fullName => rw [Script.ofUnit, Script.fullName_ofContent, hname, hs.upper.fullName]
  case id => exact hid
  case rollback => rw [hu]; exact hrollback

namespace Repository

/-- Whether undoing a script runs a statement that is rejected. -/
def rejectsRollback (r : Repository) (s : Script) : Bool :=
  (statement? (s.migration.bind (·.rollback))).isSome && r.fails s

theorem rejectsRollback_of_isRebuilt (h : s.IsRebuilt m) (r : Repository) :
    r.rejectsRollback m = r.rejectsRollback s := by
  rw [rejectsRollback, rejectsRollback, fails, fails, h.rollback, h.id, h.fullName]

theorem history_deploy_of_ok (h : (r.deploy s b).2 = .ok ()) :
    (r.deploy s b).1.state.history = r.state.history.insert s.id (r.record s) := by
  cases hr : r.rejects s b with
  | true =>
      rw [deploy_of_rejects hr] at h
      cases h
  | false => rw [deploy_of_not_rejects hr, completed_history]

theorem rollback_forgets (r : Repository) (s : Script) :
    if r.rejectsRollback s then
      (r.rollback s).2 ≠ .ok () ∧ (r.rollback s).1.state.history = r.state.history
    else (r.rollback s).2 = .ok () ∧
      (r.rollback s).1.state.history = r.state.history.erase s.id := by
  split
  · next hr =>
    rw [rejectsRollback, Bool.and_eq_true, Option.isSome_iff_exists] at hr
    obtain ⟨⟨sql, hsql⟩, hfails⟩ := hr
    rw [rollback_of_rejects hsql hfails]
    exact ⟨by simp, rfl⟩
  · next hr =>
    have hok : (r.rollback s).2 = .ok () :=
      (rollback_of_accepts rfl (Bool.eq_false_iff.2 hr)).1
    refine ⟨hok, ?_⟩
    rcases r.rollback_cases s with ⟨sql, h⟩ | ⟨-, h, -⟩
    · rw [h] at hok
      cases hok
    · exact h

/-- A deployed migration, whatever characters its names have and whatever its version is, can be
rebuilt from its record. It is the same migration under another cut of its name, and undoing it, in
any repository, forgets what is recorded under the id of the deployed one and nothing else. -/
theorem toMigration?_of_deploy (hs : s.IsUpper) (ht : s.objectType.isVersioned = true)
    (hu : s.migration = some u) (hv : u.version ≤ Text.maxVersion)
    (hok : (r.deploy s b).2 = .ok ()) :
    ∃ h m, (r.deploy s b).1.state.history.get? s.id = some h ∧ h.toMigration? = some m ∧
      s.IsRebuilt m ∧ ∀ q : Repository,
        if q.rejectsRollback s then
          (q.rollback m).2 ≠ .ok () ∧ (q.rollback m).1.state.history = q.state.history
        else (q.rollback m).2 = .ok () ∧
          (q.rollback m).1.state.history = q.state.history.erase s.id := by
  have hregular : s.Regular := by
    constructor
    case upper => exact hs
    case kind => rw [ht, Script.isMigration, hu, Option.isSome_some]
    case version_le =>
      rintro m hm
      cases hu.symm.trans hm
      exact hv
  have hrollback : (r.record s).rollback = u.rollback := by
    rw [record, hu, Option.bind_some]
  obtain ⟨m, hto, hm⟩ := (r.record_isFor s).exists_isRebuilt hregular hu hrollback
  refine ⟨r.record s, m, ?_, hto, hm, fun q => ?_⟩
  · rw [history_deploy_of_ok hok, Keyed.get?_insert, if_pos rfl]
  · rw [← rejectsRollback_of_isRebuilt hm, ← hm.id]
    exact q.rollback_forgets m

theorem toMigration?_of_deploy_dotted :
    let s := Script.ofUnit "d.b:1" "s.:2" .table "straße.:3"
      ⟨Text.maxVersion, some "me", "ALTER TABLE T;", some "DROP TABLE T;", none⟩
    let r := new "2024-01-01T00:00:00Z" "D.B:1"
    (s.IsUpper ∧ s.objectType.isVersioned = true ∧ (∃ u, s.migration = some u ∧
      u.version ≤ Text.maxVersion) ∧ (r.deploy s true).2 = .ok ()) ∧
    s.id = "D.B:1.S.:2.STRASSE.:3:18446744073709551615" ∧
    ∃ h m, (r.deploy s true).1.state.history.get? s.id = some h ∧ h.toMigration? = some m ∧
      s.IsRebuilt m ∧ ∀ q : Repository,
        if q.rejectsRollback s then
          (q.rollback m).2 ≠ .ok () ∧ (q.rollback m).1.state.history = q.state.history
        else (q.rollback m).2 = .ok () ∧
          (q.rollback m).1.state.history = q.state.history.erase s.id := by
  intro s r
  have hs : s.IsUpper := Script.isUpper_ofContent ..
  have hv : Text.maxVersion ≤ Text.maxVersion := Nat.le_refl _
  exact ⟨⟨hs, rfl, ⟨_, rfl, hv⟩, rfl⟩, by decide +kernel, toMigration?_of_deploy hs rfl rfl hv rfl⟩

end Repository

end SchemaDeploy
