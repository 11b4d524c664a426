import SchemaDeploy.Proofs.RepositoryCalls
import SchemaDeploy.Proofs.SharedKeys

namespace SchemaDeploy

def Script.liveObject (s : Script) : LiveObject :=
  ⟨s.schema, s.name, s.objectType,
    if s.isMigration then Repository.migrationBody s.content else s.content⟩

theorem Release.injected_liveKey (l : Release) (s : Script) : (l.injected s).liveKey = s.liveKey := by
  rw [Script.liveKey, Script.liveKey, injected_schema, injected_name]

namespace Repository

variable {r : Repository} {s : Script} {ss : List Script} {objects : Keyed LiveObject}
  {key : String}

theorem isSome_get?_applied :
    ((applied objects s).get? key).isSome = true ↔
      key = s.liveKey ∨ (objects.get? key).isSome = true := by
  rw [get?_applied]
  split
  · next h => simp [h.1]
  · next h =>
    refine (or_iff_right_of_imp fun hk => ?_).symm
    rw [Option.isSome_iff_ne_none]
    exact fun hnone => h ⟨hk, fun _ => hnone⟩

theorem get?_foldl_applied_of_not_mem (h : key ∉ ss.map Script.liveKey) :
    (ss.foldl applied objects).get? key = objects.get? key := by
  induction ss generalizing objects with
  | nil => rfl
  | cons s ss ih =>
      rw [List.map_cons, List.mem_cons, not_or] at h
      rw [List.foldl_cons, ih h.2, get?_applied, if_neg fun hk => h.1 hk.1]

theorem isSome_get?_foldl_applied : ((ss.foldl applied objects).get? key).isSome = true ↔
    key ∈ ss.map Script.liveKey ∨ (objects.get? key).isSome = true := by
  induction ss generalizing objects with
  | nil => simp
  | cons s ss ih =>
      rw [List.foldl_cons, ih, isSome_get?_applied, List.map_cons, List.mem_cons, or_assoc,
        or_left_comm]

theorem exists_of_get?_foldl_applied {o : LiveObject}
    (h : (ss.foldl applied objects).get? key = some o) :
    objects.get? key = some o ∨ ∃ s ∈ ss, s.liveKey = key ∧ s.liveObject = o := by
  induction ss generalizing objects with
  | nil => exact .inl h
  | cons s ss ih =>
      rcases ih h with h | ⟨t, ht, hkey, ho⟩
      · rw [get?_applied] at h
        split at h
        · next hkey => exact .inr ⟨s, List.mem_cons_self, hkey.1.symm, Option.some.inj h⟩
        · exact .inl h
      · exact .inr ⟨t, List.mem_cons_of_mem _ ht, hkey, ho⟩

theorem objects_rollback_of_ok (h : (r.rollback s).2 = .ok ()) :
    (r.rollback s).1.state.objects =
      if (statement? (s.migration.bind (·.rollback))).isSome = true ∧ s.version = some 0 then
        r.state.objects.erase s.liveKey
      else r.state.objects := by
  rw [rollback] at h ⊢
  cases hs : statement? (s.migration.bind (·.rollback)) with
  | none => simp [recordEvent, forget]
  | some sql =>
      simp only [hs] at h ⊢
      cases hf : r.fails s with
      | true => simp [hf] at h
      | false =>
          by_cases hv : s.version = some 0
          · simp [hv, recordEvent, forget, dropLive, execute, Script.liveKey]
          · simp [hv, recordEvent, forget, execute]

end Repository

/-- A call leaves history and live objects as they are, completes a deployment, or forgets a
migration and at most its object with it. -/
theorem Call.run_cases (c : Call) (r : Repository) :
    ((c.run r).state.history = r.state.history ∧ (c.run r).state.objects = r.state.objects) ∨
      (∃ s b, c = deploy s b ∧ c.run r = r.completed s b) ∨
      (∃ s, c = rollback s ∧ (c.run r).state.history = r.state.history.erase s.id ∧
        ((c.run r).state.objects = r.state.objects ∨
          (c.run r).state.objects = r.state.objects.erase s.liveKey)) := by
  cases c with
  | deploy s b =>
      rw [run]
      cases hr : r.rejects s b with
      | true =>
          rw [Repository.deploy_of_rejects hr]
          exact .inl ⟨rfl, rfl⟩
      | false =>
          rw [Repository.deploy_of_not_rejects hr]
          exact .inr (.inl ⟨s, b, rfl, rfl⟩)
  | rollback s =>
      rw [run]
      rcases r.rollback_cases s with ⟨sql, h⟩ | ⟨hok, hhistory, -⟩
      · rw [h]
        exact .inl ⟨rfl, rfl⟩
      · refine .inr (.inr ⟨s, rfl, hhistory, ?_⟩)
        rw [Repository.objects_rollback_of_ok hok]
        split
        · exact .inr rfl
        · exact .inl rfl

end SchemaDeploy
