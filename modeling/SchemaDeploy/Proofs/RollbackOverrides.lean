import SchemaDeploy.Proofs.PartialGraph
import SchemaDeploy.Proofs.RollbackEffect

namespace SchemaDeploy

theorem Script.IsUpper.sameText_iff {s : Script} (hs : s.IsUpper) {name : String}
    (h : ∀ c ∈ name.toList, c.toNat < 128) :
    sameText s.fullName name = true ↔ s.fullName = upperText name := by
  constructor
  · intro hsame
    rw [← upperText_eq_of_sameText hsame, hs.fullName]
  · intro hname
    rw [hname]
    exact sameText_upperText h

namespace DependencyGraph

theorem error_of_resolveAll {nodes : List Script} {o : Override} {ds : List String}
    {e : SyncError} (h : resolveAll nodes o ds = .error e) :
    ∃ d ∈ ds, e = .unresolvedOverride o.script d ∧ ∀ t ∈ nodes, sameText t.fullName d = false := by
  induction ds with
  | nil => cases h
  | cons d ds ih =>
      simp only [resolveAll] at h
      split at h
      · next hnone =>
        cases h
        refine ⟨d, List.mem_cons_self, rfl, fun t ht => Bool.eq_false_iff.2 fun hsame => ?_⟩
        exact named_eq_nil_iff.1 hnone ⟨t, ht, hsame⟩
      · split at h
        · cases h
        · next hrest =>
          cases h
          obtain ⟨d', hd', hd⟩ := ih hrest
          exact ⟨d', List.mem_cons_of_mem d hd', hd⟩

theorem error_of_overrideTargets {nodes : List Script} {fullName : String} {os : List Override}
    {e : SyncError} (h : overrideTargets nodes fullName os = .error e) :
    ∃ o ∈ os, sameText o.script fullName = true ∧ ∃ d ∈ o.dependencies,
      e = .unresolvedOverride o.script d ∧ ∀ t ∈ nodes, sameText t.fullName d = false := by
  induction os with
  | nil => cases h
  | cons o os ih =>
      have hlater (hos : overrideTargets nodes fullName os = .error e) :
          ∃ o' ∈ o :: os, sameText o'.script fullName = true ∧ ∃ d ∈ o'.dependencies,
            e = .unresolvedOverride o'.script d ∧ ∀ t ∈ nodes, sameText t.fullName d = false := by
        obtain ⟨o', ho', hd⟩ := ih hos
        exact ⟨o', List.mem_cons_of_mem o ho', hd⟩
      simp only [overrideTargets] at h
      split at h
      · next hsame =>
        split at h
        · next hfirst =>
          cases h
          exact ⟨o, List.mem_cons_self, hsame, error_of_resolveAll hfirst⟩
        · split at h
          · cases h
          · next hrest =>
            cases h
            exact hlater hrest
      · exact hlater h

theorem error_of_wireAll {overrides : List Override} {nodes : List Script}
    {found : List (List Nat)} {ps : List (Script × Nat)} {e : SyncError}
    (h : wireAll overrides nodes found ps = .error e) :
    ∃ p ∈ ps, ∃ o ∈ overrides, sameText o.script p.1.fullName = true ∧ ∃ d ∈ o.dependencies,
      e = .unresolvedOverride o.script d ∧ ∀ t ∈ nodes, sameText t.fullName d = false := by
  induction ps with
  | nil => cases h
  | cons p ps ih =>
      simp only [wireAll, wire] at h
      split at h
      · next hfirst =>
        cases h
        split at hfirst
        · next htargets =>
          cases hfirst
          exact ⟨p, List.mem_cons_self, error_of_overrideTargets htargets⟩
        · cases hfirst
      · split at h
        · cases h
        · next hrest =>
          cases h
          obtain ⟨p', hp', ho⟩ := ih hrest
          exact ⟨p', List.mem_cons_of_mem p hp', ho⟩

theorem error_of_add {g : DependencyGraph} {scripts : List Script} {e : SyncError}
    (h : g.add scripts = .error e) :
    ∃ s ∈ g.nodes ++ scripts, ∃ o ∈ g.overrides, sameText o.script s.fullName = true ∧
      ∃ d ∈ o.dependencies, e = .unresolvedOverride o.script d ∧
        ∀ t ∈ g.nodes ++ scripts, sameText t.fullName d = false := by
  simp only [add] at h
  split at h
  · cases h
  · next hw =>
    cases h
    obtain ⟨p, hp, ho⟩ := error_of_wireAll hw
    exact ⟨p.1, List.mem_of_getElem? (List.mem_zipIdx_iff_getElem?.1 hp), ho⟩

theorem error_of_sorted {g : DependencyGraph} {e : SyncError} (h : g.sorted = .error e) :
    ∃ stuck, e = .cyclicDependency stuck := by
  simp only [sorted, order] at h
  split at h
  · cases h
  · next ho =>
    cases h
    split at ho
    · cases ho
    · cases ho
      exact ⟨_, rfl⟩

end DependencyGraph

namespace Config

def AsciiNamed (c : Config) : Prop :=
  ∀ o ∈ c.overrides, ∀ name ∈ o.script :: o.dependencies, ∀ ch ∈ name.toList, ch.toNat < 128

/-- Whether an override leads from an undone migration to a script that is put back and that no
undone migration shares its name with. -/
def LeadsAcross (c : Config) (migrations restored : List Script) : Prop :=
  ∃ o ∈ c.overrides, knows (fullNames migrations) o.script = true ∧
    ∃ d ∈ o.dependencies, knows (fullNames restored) d = true ∧
      knows (fullNames migrations) d = false

instance (c : Config) (migrations restored : List Script) :
    Decidable (c.LeadsAcross migrations restored) :=
  inferInstanceAs (Decidable (∃ o ∈ c.overrides, _))

variable {c : Config} {ss ts : List Script}

theorem resolved_overridesWithin (hc : c.AsciiNamed) (hup : ∀ s ∈ ss, s.IsUpper) :
    Override.Resolved (c.overridesWithin ss) ss := by
  intro s _ o ho _ d hd
  obtain ⟨o', ho', -, rfl⟩ := mem_overridesWithin.1 ho
  obtain ⟨hd, hk⟩ := List.mem_filter.1 hd
  obtain ⟨t, ht, hname⟩ := knows_iff.1 hk
  exact ⟨t, ht, ((hup t ht).sameText_iff (hc o' ho' d (List.mem_cons_of_mem _ hd))).2 hname⟩

theorem knows_append {name : String} : knows (fullNames (ss ++ ts)) name = true ↔
    knows (fullNames ss) name = true ∨ knows (fullNames ts) name = true := by
  simp only [knows_iff, List.mem_append, or_and_right, exists_or]

theorem resolved_fst_iff (hc : c.AsciiNamed) (hss : ∀ s ∈ ss, s.IsUpper) :
    Override.Resolved (c.overridesWithin (ss ++ ts)) ss ↔ ¬ c.LeadsAcross ss ts := by
  constructor
  · -- The override that leads across stays within both batches, but has no target in the first.
    rintro hr ⟨o, ho, hscript, d, hd, hts, hnot⟩
    obtain ⟨s, hs, hname⟩ := knows_iff.1 hscript
    have hsame : sameText o.script s.fullName = true := by
      have h := ((hss s hs).sameText_iff (hc o ho o.script List.mem_cons_self)).2 hname
      rw [sameText, Text.same, beq_iff_eq] at h ⊢
      exact h.symm
    have hwithin : ⟨o.script, o.dependencies.filter (knows (fullNames (ss ++ ts)))⟩ ∈
        c.overridesWithin (ss ++ ts) :=
      mem_overridesWithin.2 ⟨o, ho, knows_append.2 (.inl hscript), rfl⟩
    obtain ⟨t, ht, htd⟩ := hr s hs _ hwithin hsame d
      (List.mem_filter.2 ⟨hd, knows_append.2 (.inr hts)⟩)
    have hknows := knows_iff.2
      ⟨t, ht, ((hss t ht).sameText_iff (hc o ho d (List.mem_cons_of_mem _ hd))).1 htd⟩
    rw [hnot] at hknows
    cases hknows
  · intro hno s hs o ho hscript d hd
    obtain ⟨o', ho', -, rfl⟩ := mem_overridesWithin.1 ho
    obtain ⟨hd, hk⟩ := List.mem_filter.1 hd
    have hknows : knows (fullNames ss) d = true := by
      by_contra hnot
      refine hno ⟨o', ho', ?_, d, hd, (knows_append.1 hk).resolve_left hnot,
        Bool.eq_false_iff.2 hnot⟩
      refine knows_iff.2 ⟨s, hs, ?_⟩
      rw [← (hss s hs).fullName, upperText_eq_of_sameText hscript]
    obtain ⟨t, ht, hname⟩ := knows_iff.1 hknows
    exact ⟨t, ht, ((hss t ht).sameText_iff (hc o' ho' d (List.mem_cons_of_mem _ hd))).2 hname⟩

end Config

theorem isUpper_of_toMigration? {h : HistoryRecord} {m : Script} (hm : h.toMigration? = some m) :
    m.IsUpper := by
  simp only [HistoryRecord.toMigration?, Option.bind_eq_bind, Option.bind_eq_some_iff] at hm
  obtain ⟨_, -, _, -, version, -, ⟨database, schema, name⟩, -, hm⟩ := hm
  cases hm
  exact Script.isUpper_ofContent ..

namespace Release

variable {l : Release} {r : Repository} {all : List Script}

theorem isUpper_of_mem_undone (hup : ∀ s ∈ all, s.IsUpper) :
    (∀ m ∈ (l.undone r all).1, m.IsUpper) ∧ ∀ s ∈ (l.undone r all).2, s.IsUpper := by
  constructor
  · intro m hm
    obtain ⟨h, -, hto⟩ := List.mem_filterMap.1 hm
    exact isUpper_of_toMigration? hto
  · exact fun s hs => hup s (undone_snd_subset l r all hs)

theorem rollbackOrder_unresolved_iff (hl : l.listing = .ok all)
    (hv : l.config.validateOverrides all = .ok ()) (hc : l.config.AsciiNamed)
    (hup : ∀ s ∈ all, s.IsUpper) :
    (∃ s d, l.rollbackOrder r = .error (.unresolvedOverride s d)) ↔
      l.config.LeadsAcross (l.undone r all).1 (l.undone r all).2 := by
  obtain ⟨hfst, hsnd⟩ := isUpper_of_mem_undone (l := l) (r := r) hup
  have hfirst : (∃ g, DependencyGraph.ofScripts (l.config.overridesWithin
      ((l.undone r all).1 ++ (l.undone r all).2)) (l.undone r all).1 = .ok g) ↔
      ¬ l.config.LeadsAcross (l.undone r all).1 (l.undone r all).2 :=
    DependencyGraph.ofScripts_ok_iff.trans (Config.resolved_fst_iff hc hfst)
  simp only [rollbackOrder, checkedListing, hl, hv]
  cases hg : DependencyGraph.ofScripts (l.config.overridesWithin
      ((l.undone r all).1 ++ (l.undone r all).2)) (l.undone r all).1 with
  | error e =>
      obtain ⟨-, -, o, -, -, d, -, rfl, -⟩ := DependencyGraph.error_of_add hg
      rw [hg] at hfirst
      have hleads : l.config.LeadsAcross (l.undone r all).1 (l.undone r all).2 := by
        by_contra hno
        obtain ⟨g, hg'⟩ := hfirst.2 hno
        cases hg'
      exact iff_of_true ⟨o.script, d, rfl⟩ hleads
  | ok g =>
      have hno := hfirst.1 ⟨g, hg⟩
      obtain ⟨-, hnodes, hoverrides⟩ := DependencyGraph.ofScripts_spec hg
      have hboth : ∃ g', g.add (l.undone r all).2 = .ok g' := by
        rw [DependencyGraph.add_ok_iff, hnodes, hoverrides]
        refine Config.resolved_overridesWithin hc fun s hs => ?_
        rcases List.mem_append.1 hs with hs | hs
        · exact hfst s hs
        · exact hsnd s hs
      obtain ⟨g', hg'⟩ := hboth
      refine iff_of_false ?_ hno
      rintro ⟨s, d, he⟩
      dsimp only at he
      rw [hg'] at he
      obtain ⟨stuck, hstuck⟩ := DependencyGraph.error_of_sorted he
      cases hstuck

theorem rollback_unresolved_iff_order :
    (∃ s d, (l.rollback r).2 = .error (.unresolvedOverride s d)) ↔
      ∃ s d, l.rollbackOrder (rollbackBegun r) = .error (.unresolvedOverride s d) := by
  obtain ⟨syncs, hb⟩ := rollback_eq l r
  have hbegun : (r.startSync .rollback (ChangeType.rollback.word ++ " started.")).loadHashes =
      rollbackBegun r := rfl
  rw [hb]
  simp only [rollbackChanged, hbegun]
  cases l.rollbackOrder (rollbackBegun r) with
  | error e => simp only [Except.error.injEq]
  | ok p =>
      refine iff_of_false ?_ ?_
      · rintro ⟨s, d, he⟩
        dsimp only at he
        rcases hrun : l.rollbackSteps p.reverse (rollbackBegun r) with ⟨r', e | u⟩
        · rw [hrun] at he
          cases he
          obtain ⟨id, message, hfailed⟩ := rollbackSteps_error (congrArg Prod.snd hrun)
          cases hfailed
        · rw [hrun] at he
          cases he
      · rintro ⟨s, d, he⟩
        cases he

/-- With accepted overrides, a rollback fails over one of them exactly when it leads from an undone
migration to a script that is put back. -/
theorem rollback_unresolved_iff (hl : l.listing = .ok all)
    (hv : l.config.validateOverrides all = .ok ()) (hc : l.config.AsciiNamed)
    (hup : ∀ s ∈ all, s.IsUpper) :
    (∃ s d, (l.rollback r).2 = .error (.unresolvedOverride s d)) ↔
      l.config.LeadsAcross (l.undone r.loadHashes all).1 (l.undone r.loadHashes all).2 :=
  rollback_unresolved_iff_order.trans
    (rollbackOrder_unresolved_iff (r := rollbackBegun r) hl hv hc hup)

def withOverride (l : Release) : Release :=
  { l with config := { l.config with overrides := [⟨"DB.S.T", ["DB.S.V"]⟩] } }

def deployWithOverride : Turn :=
  { deployTwoVersions with release := twoVersions.withOverride }

def withOverriddenVersions : Repository :=
  Turn.runAll [deployWithOverride] (.new "2024-01-01T00:00:00Z" "DB")

theorem asciiNamed_withOverride : oneVersion.withOverride.config.AsciiNamed := by
  intro o ho name hname ch hch
  cases List.mem_singleton.1 ho
  have hall : ∀ name ∈ ["DB.S.T", "DB.S.V"], ∀ ch ∈ name.toList, ch.toNat < 128 := by
    simp
  exact hall name hname ch hch

theorem validateOverrides_withOverride : oneVersion.withOverride.config.validateOverrides
    [tableVersion 0, viewOf "SELECT 2"] = .ok () := by
  decide +kernel

theorem leadsAcross_withOverride :
    let undone := oneVersion.withOverride.undone withOverriddenVersions.loadHashes
      [tableVersion 0, viewOf "SELECT 2"]
    oneVersion.withOverride.config.LeadsAcross undone.1 undone.2 := by
  rw [withOverriddenVersions, deployWithOverride, deployTwoVersions, twoVersions, oneVersion,
    tableVersion_zero, tableVersion_one, viewOf_one, viewOf_two]
  decide +kernel

theorem rollback_oneVersion_withOverride_fails :
    oneVersion.withOverride.config.validateOverrides [tableVersion 0, viewOf "SELECT 2"] = .ok () ∧
      oneVersion.withOverride.config.AsciiNamed ∧
      (∀ s ∈ [tableVersion 0, viewOf "SELECT 2"], s.IsUpper) ∧
      ∃ s d, (oneVersion.withOverride.rollback withOverriddenVersions).2 =
        .error (.unresolvedOverride s d) := by
  have hup : ∀ s ∈ [tableVersion 0, viewOf "SELECT 2"], s.IsUpper :=
    fun s hs => (regular_oneVersion s hs).upper
  exact ⟨validateOverrides_withOverride, asciiNamed_withOverride, hup,
    (rollback_unresolved_iff rfl validateOverrides_withOverride asciiNamed_withOverride hup).2
      leadsAcross_withOverride⟩

theorem not_rollback_resolves :
    ¬ ∀ (clock database : String) (past : List Turn) (l : Release) (all : List Script),
      (∀ t ∈ past, t.ListsRegular) → l.listing = .ok all → (∀ s ∈ all, s.Regular) →
      (∀ s ∈ all, ∀ ch ∈ s.fullName.toList, ch.toNat < 128) → l.config.AsciiNamed →
      l.config.validateOverrides all = .ok () →
      ∀ s d, (l.rollback (Turn.runAll past (.new clock database))).2 ≠
        .error (.unresolvedOverride s d) := by
  intro h
  have hpast : ∀ t ∈ [deployWithOverride], t.ListsRegular := by
    intro t ht
    cases List.mem_singleton.1 ht
    exact listsRegular_deployTwoVersions
  have hascii : ∀ s ∈ [tableVersion 0, viewOf "SELECT 2"],
      ∀ ch ∈ s.fullName.toList, ch.toNat < 128 := by
    rintro s (_ | ⟨_, hs⟩)
    · simp [fullName_tableVersion]
    · cases List.mem_singleton.1 hs
      simp [fullName_viewOf]
  have horder := (rollbackOrder_unresolved_iff (r := rollbackBegun withOverriddenVersions) rfl
    validateOverrides_withOverride asciiNamed_withOverride
    fun s hs => (regular_oneVersion s hs).upper).2 leadsAcross_withOverride
  obtain ⟨s, d, hfails⟩ := rollback_unresolved_iff_order.2 horder
  exact h "2024-01-01T00:00:00Z" "DB" [deployWithOverride] oneVersion.withOverride _ hpast rfl
    regular_oneVersion hascii asciiNamed_withOverride validateOverrides_withOverride s d hfails

end Release

end SchemaDeploy
