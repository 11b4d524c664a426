import SchemaDeploy.Change.Verify
import SchemaDeploy.Proofs.RollbackOverrides
import SchemaDeploy.Proofs.SharedKeys
import SchemaDeploy.Proofs.Turns

namespace SchemaDeploy

theorem Keyed.mem_keys_add {names : Names} {name k : String} :
    k ∈ (names.add name).keys ↔ k = name ∨ k ∈ names.keys := by
  simp only [mem_keys_iff, Names.add, get?_insert]
  by_cases hk : k = name <;> simp [hk]

theorem flatMap_filter_perm {α κ : Type} [DecidableEq κ] {keys : List κ} (hn : keys.Nodup)
    (key : α → κ) (xs : List α) :
    (keys.flatMap fun k => xs.filter fun x => key x = k).Perm (xs.filter fun x => key x ∈ keys) := by
  induction keys with
  | nil => simp
  | cons k ks ih =>
      obtain ⟨hk, hks⟩ := List.nodup_cons.1 hn
      let both := xs.filter fun x => key x ∈ k :: ks
      have hfirst : xs.filter (fun x => key x = k) = both.filter fun x => key x = k := by
        rw [List.filter_filter]
        refine List.filter_congr fun x _ => ?_
        by_cases hx : key x = k <;> simp [hx]
      have hrest : xs.filter (fun x => key x ∈ ks) = both.filter fun x => !decide (key x = k) := by
        rw [List.filter_filter]
        refine List.filter_congr fun x _ => ?_
        by_cases hx : key x = k <;> simp [hx, hk]
      rw [List.flatMap_cons]
      refine (List.Perm.append_left _ (ih hks)).trans ?_
      rw [hfirst, hrest]
      exact List.filter_append_perm _ both

namespace Repository

variable {r r' : Repository}

def isUserSchema (schema : String) : Bool :=
  !sameText schema "INFORMATION_SCHEMA" && !sameText schema "PUBLIC"

def liveScript (r : Repository) (o : LiveObject) : Script :=
  .ofDefinition r.database o.schema o.objectType o.name o.ddl

/-- The schemas are in upper case, and every live object stands in one of them. -/
structure Placed (r : Repository) : Prop where
  upper : ∀ schema ∈ r.state.schemas.keys, upperText schema = schema
  schema : ∀ key o, r.state.objects.get? key = some o → o.schema ∈ r.state.schemas.keys

theorem placed_new (clock database : String) : (new clock database).Placed :=
  ⟨nofun, fun _ _ h => nomatch h⟩

theorem Placed.add (h : r.Placed) {schema : String} (hupper : upperText schema = schema)
    (hschemas : r'.state.schemas = r.state.schemas.add schema)
    (hobjects : ∀ key o, r'.state.objects.get? key = some o →
      r.state.objects.get? key = some o ∨ o.schema = schema) : r'.Placed := by
  constructor
  case upper =>
    intro s hs
    rw [hschemas, Keyed.mem_keys_add] at hs
    rcases hs with rfl | hs
    · exact hupper
    · exact h.upper s hs
  case schema =>
    intro key o hget
    rw [hschemas, Keyed.mem_keys_add]
    exact (hobjects key o hget).symm.imp_right (h.schema key o)

theorem Placed.lose (h : r.Placed) (hschemas : r'.state.schemas = r.state.schemas)
    (hobjects : ∀ key o, r'.state.objects.get? key = some o →
      r.state.objects.get? key = some o) : r'.Placed := by
  refine ⟨hschemas ▸ h.upper, fun key o hget => ?_⟩
  rw [hschemas]
  exact h.schema key o (hobjects key o hget)

theorem Placed.withSchemaDump (h : r.Placed) (schema ddl : String) :
    (r.withSchemaDump schema ddl).Placed := by
  have hobjects (ds : List Sql.Definition) (objects : Keyed LiveObject) (key : String)
      (o : LiveObject)
      (hget : (ds.foldl (withDefinition (upperText schema)) objects).get? key = some o) :
      objects.get? key = some o ∨ o.schema = upperText schema := by
    induction ds generalizing objects with
    | nil => exact .inl hget
    | cons d ds ih =>
        rcases ih _ hget with hget | hschema
        · rw [withDefinition, Keyed.get?_insert] at hget
          split at hget
          · cases hget
            exact .inr rfl
          · exact .inl hget
        · exact .inr hschema
  exact h.add (upperText_upperText schema) rfl (hobjects _ _)

theorem Placed.run (h : r.Placed) {c : Call} (hc : upperText c.script.schema = c.script.schema) :
    (c.run r).Placed := by
  cases c with
  | deploy s b =>
      rw [Call.run]
      cases hr : r.rejects s b with
      | true =>
          rw [deploy_of_rejects hr]
          exact h.lose rfl fun _ _ => id
      | false =>
          rw [deploy_of_not_rejects hr]
          cases b with
          | true => exact h.lose rfl fun _ _ => id
          | false =>
              refine h.add hc rfl fun key o hget => ?_
              rw [completed_objects, get?_applied] at hget
              split at hget
              · cases hget
                exact .inr rfl
              · exact .inl hget
  | rollback s =>
      have herase (key : String) (o : LiveObject)
          (hget : (r.state.objects.erase (objectKey s.schema s.name)).get? key = some o) :
          r.state.objects.get? key = some o := by
        rw [Keyed.get?_erase] at hget
        split at hget
        · cases hget
        · exact hget
      rw [Call.run, rollback]
      cases statement? (s.migration.bind (·.rollback)) with
      | none => exact h.lose rfl fun _ _ => id
      | some sql =>
          dsimp only
          split
          · exact h.lose rfl fun _ _ => id
          · split
            · exact h.lose rfl herase
            · exact h.lose rfl fun _ _ => id

def loaded (clock database : String) (dumps : List (String × String)) : Repository :=
  dumps.foldl (fun r d => r.withSchemaDump d.1 d.2) (new clock database)

theorem placed_loaded (clock database : String) (dumps : List (String × String)) :
    (loaded clock database dumps).Placed := by
  have hfold (r : Repository) (h : r.Placed) :
      (dumps.foldl (fun r d => r.withSchemaDump d.1 d.2) r).Placed := by
    induction dumps generalizing r with
    | nil => exact h
    | cons d ds ih => exact ih _ (h.withSchemaDump d.1 d.2)
  exact hfold _ (placed_new clock database)

theorem Placed.liveScripts_perm (h : r.Placed) : (Release.liveScripts r).Perm
    ((r.state.objects.values.filter fun o => isUserSchema o.schema).map r.liveScript) := by
  have hplaced (o : LiveObject) (ho : o ∈ r.state.objects.values) :
      o.schema ∈ r.state.schemas.keys := by
    obtain ⟨key, hget⟩ := r.state.objects.mem_values_iff.1 ho
    exact h.schema key o hget
  have hsame (schema : String) (hschema : schema ∈ r.userSchemas) :
      (r.liveScripts schema).Perm
        ((r.state.objects.values.filter fun o => o.schema = schema).map r.liveScript) := by
    have heq : r.state.objects.values.filter (fun o => sameText o.schema schema) =
        r.state.objects.values.filter fun o => o.schema = schema := by
      refine List.filter_congr fun o ho => Bool.eq_iff_iff.2 ?_
      rw [decide_eq_true_iff]
      constructor
      · intro hcase
        rw [← h.upper _ (hplaced o ho), upperText_eq_of_sameText hcase,
          h.upper _ (List.mem_of_mem_filter hschema)]
      · rintro rfl
        simp [sameText, Text.same]
    rw [Repository.liveScripts, heq]
    exact (List.mergeSort_perm _ _).map _
  have husers : r.state.objects.values.filter (fun o => o.schema ∈ r.userSchemas) =
      r.state.objects.values.filter fun o => isUserSchema o.schema := by
    refine List.filter_congr fun o ho => ?_
    simp only [userSchemas, List.mem_filter, hplaced o ho, true_and, isUserSchema,
      Bool.decide_eq_true]
  have hnodup : r.userSchemas.Nodup := r.state.schemas.nodup_keys.filter _
  have hgroups := flatMap_filter_perm hnodup LiveObject.schema r.state.objects.values
  refine (List.Perm.flatMap_left _ hsame).trans ?_
  rw [← List.map_flatMap, ← husers]
  exact hgroups.map _

end Repository

namespace Turn

variable {t : Turn} {ts : List Turn} {r : Repository}

/-- The names of the listed scripts are in upper case, as those of every script that is made. -/
def ListsUpper (t : Turn) : Prop :=
  ∀ all, t.release.listing = .ok all → ∀ s ∈ all, s.IsUpper

theorem isUpper_of_mem_calls (ht : t.ListsUpper) {c : Call} (hc : c ∈ t.calls r) :
    upperText c.script.schema = c.script.schema := by
  rw [calls] at hc
  split at hc
  · rcases Release.callsOfDeploy_spec t.release _ (t.ready r) with hnil | ⟨all, ss, hl, hperm, -, hsub⟩
    · rw [hnil] at hc
      cases hc
    · obtain ⟨s, hs, rfl⟩ := List.mem_map.1 (hsub.subset hc)
      have hlisted := Release.changed_subset t.release _ all (hperm.mem_iff.1 hs)
      rw [Call.script, Release.injected_schema]
      exact (ht all hl s hlisted).schema
  · rcases Release.callsOfRollback_spec t.release (t.ready r) with hnil | ⟨all, ss, hl, hperm, hsub⟩
    · rw [hnil] at hc
      cases hc
    · obtain ⟨s, hs, rfl⟩ := List.mem_map.1 (hsub.subset hc)
      obtain ⟨hundone, hrestored⟩ := Release.isUpper_of_mem_undone (r := t.ready r) (ht all hl)
      rw [Release.rollbackCall_script, Release.injected_schema]
      rcases List.mem_append.1 (hperm.mem_iff.1 hs) with hs | hs
      · exact (hundone s hs).schema
      · exact (hrestored s hs).schema
  · cases hc

theorem placed_run (ht : t.ListsUpper) (h : r.Placed) : (t.run r).Placed := by
  have hready : (t.ready r).Placed := h.lose rfl fun _ _ => id
  have hcalls : (Call.runAll (t.calls r) (t.ready r)).Placed :=
    Call.runAll_preserves (fun c hc q hq => hq.run (isUpper_of_mem_calls ht hc)) hready
  have hsame := sameStore_run t r
  exact hcalls.lose hsame.schemas fun key o hget => hsame.objects ▸ hget

theorem placed_runAll (hts : ∀ t ∈ ts, t.ListsUpper) (h : r.Placed) : (runAll ts r).Placed := by
  induction ts generalizing r with
  | nil => exact h
  | cons t ts ih =>
      obtain ⟨ht, hts⟩ := List.forall_mem_cons.1 hts
      exact ih hts (placed_run ht h)

end Turn

end SchemaDeploy
