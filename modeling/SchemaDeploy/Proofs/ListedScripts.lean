import SchemaDeploy.Proofs.RecordedMigrations

namespace SchemaDeploy

namespace MigrationFile

theorem version_le_of_header {number : Nat} {line digits rest : List Char} {h : Header}
    (hh : header number line digits rest = .ok h) : h.version ≤ Text.maxVersion := by
  simp only [header] at hh
  split at hh
  · cases hh
  · split at hh
    · next hread =>
      cases hh
      exact Text.readDigits_le (Nat.zero_le _) hread
    · cases hh

theorem version_le_of_readUnits {number : Nat} {found us : List RawUnit} {ls : List (List Char)}
    (hfound : ∀ u ∈ found, u.header.version ≤ Text.maxVersion)
    (h : readUnits number found ls = .ok us) : ∀ u ∈ us, u.header.version ≤ Text.maxVersion := by
  induction ls generalizing number found with
  | nil =>
      cases h
      intro u hu
      exact hfound u (List.mem_reverse.1 hu)
  | cons raw rest ih =>
      simp only [readUnits] at h
      split at h
      · split at h
        · cases h
        · next hd hheader =>
          split at h
          · cases h
          · exact ih (List.forall_mem_cons.2 ⟨version_le_of_header hheader, hfound⟩) h
      · split at h
        · split at h
          · exact ih (by simp) h
          · cases h
        · -- A line that is added to the open unit leaves its header as it is.
          obtain ⟨hu, hus⟩ := List.forall_mem_cons.1 hfound
          refine ih ?_ h
          exact List.forall_mem_cons.2 ⟨hu, hus⟩

theorem version_le_of_units {content : String} {us : List MigrationUnit}
    (h : units content = .ok us) : ∀ u ∈ us, u.version ≤ Text.maxVersion := by
  simp only [units] at h
  split at h
  · next raws hraws =>
    cases h
    intro u hu
    obtain ⟨raw, hraw, rfl⟩ := List.mem_map.1 hu
    exact version_le_of_readUnits (by simp) hraws raw hraw
  · cases h

end MigrationFile

namespace ScriptSource

theorem regular_of_scriptsOfText {path name : String} {objectType : ObjectType} {content : String}
    {ss : List Script} (h : scriptsOfText path name objectType content = .ok ss) :
    ∀ s ∈ ss, s.Regular := by
  intro s hs
  have hupper := isUpper_of_scriptsOfText h s hs
  simp only [scriptsOfText] at h
  split at h
  · cases h
  · split at h
    · split at h
      · next htype =>
        split at h
        · cases h
        · next us hus =>
          cases h
          obtain ⟨u, hu, rfl⟩ := List.mem_map.1 hs
          refine ⟨hupper, htype.symm, ?_⟩
          intro m hm
          cases hm
          exact MigrationFile.version_le_of_units hus u hu
      · next htype =>
        cases h
        cases List.mem_singleton.1 hs
        refine ⟨hupper, (Bool.eq_false_iff.2 htype).symm, ?_⟩
        intro m hm
        cases hm
    · cases h

theorem regular_of_scripts {src : ScriptSource} {tree : FileTree} {ss : List Script}
    (h : src.scripts tree = .ok ss) : ∀ s ∈ ss, s.Regular :=
  forall_mem_of_scripts (fun _ _ _ _ _ h => regular_of_scriptsOfText h) h

end ScriptSource

end SchemaDeploy
