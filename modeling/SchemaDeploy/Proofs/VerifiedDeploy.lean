import SchemaDeploy.Proofs.LiveObjects
import SchemaDeploy.Proofs.ReadBackTexts
import SchemaDeploy.Proofs.RecordedMigrations
import SchemaDeploy.Proofs.RepeatedDeploy
import SchemaDeploy.Proofs.TrimmedText
import SchemaDeploy.Proofs.Verification

namespace SchemaDeploy

theorem trimText_trimText (s : String) : trimText (trimText s) = trimText s := by
  simp only [trimText, String.toList_ofList, Text.trim_trim]

theorem Script.isMigration_ofDefinition (database schema : String) (objectType : ObjectType)
    (name ddl : String) : (ofDefinition database schema objectType name ddl).isMigration =
      objectType.isVersioned := by
  cases hv : objectType.isVersioned with
  | true => rw [ofDefinition, if_pos hv]; rfl
  | false => rw [ofDefinition, if_neg (by simp [hv])]; rfl

namespace Release

open Repository

variable {l : Release} {r : Repository} {all : List Script} {s : Script}

/-- The live object of a script, as a repository lists it after the script was deployed. -/
def deployedForm (l : Release) (r : Repository) (s : Script) : Script :=
  .ofDefinition r.database s.schema s.objectType s.name (l.injected s).content

/-- Whether the live name of a script, with placeholders put in, is the name of the script. -/
def KeepsName (l : Release) (r : Repository) (s : Script) : Prop :=
  (l.parameters.parametrizeIdentity (l.deployedForm r s)).fullName = s.fullName

/-- Whether a script has the same body after parameters and then placeholders were put in. -/
def Survives (l : Release) (s : Script) : Prop :=
  (l.parameters.parametrizeContent (l.injected s)).equivalent s = true

/-- Whether the object of a script is compared with the source: it is live in a schema of users with
the text of the script, and it is not excluded under its live name. -/
structure Compares (l : Release) (r : Repository) (s : Script) : Prop where
  live : l.deployedForm r s ∈ liveScripts r
  unversioned : s.objectType.isVersioned = false
  included : l.config.isExcluded (l.deployedForm r s) = false

theorem comparedLive?_eq_some_iff {live p : Script} : l.comparedLive? live = some p ↔
    live.isMigration = false ∧ l.config.isExcluded live = false ∧
      l.config.isExcluded (l.parameters.parametrizeScript live) = false ∧
      l.parameters.parametrizeScript live = p := by
  rw [comparedLive?]
  split
  · next h =>
    refine iff_of_false (by simp) ?_
    rintro ⟨hm, he, -⟩
    simp [hm, he] at h
  · next h =>
    simp only [Bool.or_eq_true, not_or, Bool.not_eq_true] at h
    dsimp only
    split
    · next he => simp [he]
    · next he => simp [h, he]

theorem isExcluded_congr {c : Config} {s t : Script} (h : s.fullName = t.fullName) :
    c.isExcluded s = c.isExcluded t := by
  rw [Config.isExcluded, Config.isExcluded, h]

section Templated

variable (l : Release) (r : Repository) (s : Script)

theorem deployedForm_isMigration :
    (l.deployedForm r s).isMigration = s.objectType.isVersioned :=
  Script.isMigration_ofDefinition ..

theorem deployedForm_of_unversioned (h : s.objectType.isVersioned = false) : l.deployedForm r s =
    .state r.database s.schema s.objectType s.name (l.injected s).content := by
  rw [deployedForm, Script.ofDefinition, if_neg (by simp [h])]

theorem parametrizeIdentity_fullName (live : Script) :
    (l.parameters.parametrizeIdentity live).fullName =
      upperText (l.parameters.parametrizePart live.database) ++ "." ++
        upperText (l.parameters.parametrizePart live.schema) ++ "." ++ live.name := by
  simp only [Parameters.parametrizeIdentity, Script.fullName, Script.setDatabase, Script.setSchema]

theorem parametrizeScript_fullName (live : Script) :
    (l.parameters.parametrizeScript live).fullName =
      (l.parameters.parametrizeIdentity live).fullName := by
  simp only [Parameters.parametrizeScript, parametrizeIdentity_fullName,
    Parameters.parametrizeContent, Script.setContent]

theorem injected_content : (l.injected s).content = trimText (l.parameters.inject s.content) := by
  simp only [injected, Parameters.injectScript, Script.setContent]

theorem parametrizeScript_equivalent (h : s.objectType.isVersioned = false) :
    (l.parameters.parametrizeScript (l.deployedForm r s)).equivalent s =
      (l.parameters.parametrizeContent (l.injected s)).equivalent s := by
  have htrim : trimText (l.injected s).content = (l.injected s).content := by
    rw [injected_content, trimText_trimText]
  rw [deployedForm_of_unversioned l r s h]
  simp only [Script.equivalent, Script.normalized, Parameters.parametrizeScript,
    Parameters.parametrizeIdentity, Parameters.parametrizeContent, Script.setContent,
    Script.setDatabase, Script.setSchema, Script.state, Script.ofContent, htrim,
    injected_objectType]

end Templated

theorem matchesSource_iff (hids : (all.map fun s => (s.objectType, s.id)).Nodup)
    (hs : s ∈ l.included all) (hm : s.isMigration = false)
    (htype : s.objectType.isVersioned = false) (hname : l.KeepsName r s) :
    matchesSource (l.included all) (l.parameters.parametrizeScript (l.deployedForm r s)) = true ↔
      l.Survives s := by
  let p := l.parameters.parametrizeScript (l.deployedForm r s)
  have hform := deployedForm_of_unversioned l r s htype
  have hptype : p.objectType = s.objectType := by
    simp only [p, hform]
    rfl
  have hpid : p.id = s.id := by
    have hpm : p.isMigration = false := by
      simp only [p, hform]
      rfl
    rw [Script.id_of_not_isMigration hpm, Script.id_of_not_isMigration hm, ← hname]
    exact parametrizeScript_fullName l _
  have hfind : (l.included all).find? (fun t => t.sameIdentity p) = some s := by
    cases hf : (l.included all).find? fun t => t.sameIdentity p with
    | none =>
        have hnone := List.find?_eq_none.1 hf s hs
        simp [Script.sameIdentity, hptype, hpid] at hnone
    | some t =>
        have ht := List.find?_some hf
        simp only [Script.sameIdentity, hptype, hpid, Bool.and_eq_true, beq_iff_eq] at ht
        have hall := List.mem_of_mem_filter (List.mem_of_find?_eq_some hf)
        have hts := List.inj_on_of_nodup_map hids hall (List.mem_of_mem_filter hs)
          (Prod.ext ht.1 ht.2)
        rw [hts]
  rw [matchesSource, hfind, Survives, ← parametrizeScript_equivalent l r s htype]

theorem exists_of_mem_comparedObjects {done : List Script} {p : Script}
    (hobjects : r.state.objects = (done.map l.injected).foldl applied .empty)
    (hkinds : ∀ s ∈ done, s.isMigration = true → s.objectType.isVersioned = true)
    (hp : p ∈ l.comparedObjects r) : ∃ s ∈ done, s.isMigration = false ∧ l.Compares r s ∧
      l.parameters.parametrizeScript (l.deployedForm r s) = p := by
  obtain ⟨live, hlive, hcompared⟩ := List.mem_filterMap.1 hp
  obtain ⟨hm, hincluded, -, rfl⟩ := comparedLive?_eq_some_iff.1 hcompared
  obtain ⟨schema, -, hlisted⟩ := List.mem_flatMap.1 hlive
  obtain ⟨key, o, hget, -, rfl⟩ := mem_liveScripts.1 hlisted
  rw [hobjects] at hget
  rcases exists_of_get?_foldl_applied hget with hnone | ⟨t, ht, -, rfl⟩
  · cases hnone
  · obtain ⟨s, hs, rfl⟩ := List.mem_map.1 ht
    have htype : s.objectType.isVersioned = false := by
      rw [Script.isMigration_ofDefinition, Script.liveObject] at hm
      dsimp only at hm
      rwa [injected_objectType] at hm
    have hsm : s.isMigration = false := by
      by_contra hsm
      rw [hkinds s hs (Bool.not_eq_false _ ▸ hsm)] at htype
      cases htype
    have hform : Script.ofDefinition r.database (l.injected s).liveObject.schema
        (l.injected s).liveObject.objectType (l.injected s).liveObject.name
        (l.injected s).liveObject.ddl = l.deployedForm r s := by
      simp only [deployedForm, Script.liveObject, injected_schema, injected_objectType,
        injected_name, injected_isMigration, hsm, Bool.false_eq_true, if_false]
    rw [hform] at hlive hincluded ⊢
    exact ⟨s, hs, hsm, ⟨hlive, htype, hincluded⟩, rfl⟩

theorem mem_comparedObjects_of_compares (hc : l.Compares r s) (hname : l.KeepsName r s)
    (hs : s ∈ l.included all) :
    l.parameters.parametrizeScript (l.deployedForm r s) ∈ l.comparedObjects r := by
  refine List.mem_filterMap.2 ⟨_, hc.live, comparedLive?_eq_some_iff.2 ⟨?_, hc.included, ?_, rfl⟩⟩
  · rw [deployedForm_isMigration, hc.unversioned]
  · rw [isExcluded_congr ((parametrizeScript_fullName l _).trans hname)]
    simpa using (List.mem_filter.1 hs).2

theorem exists_done_of_empty {n : Nat} (hl : l.listing = .ok all) (hempty : r.state = .empty)
    (hd : (l.deploy false r).2 = .ok n) : ∃ done : List Script,
      done.Perm (l.included all) ∧
        (l.deploy false r).1.state.objects = (done.map l.injected).foldl applied .empty ∧
        (l.deploy false r).1.database = r.database ∧
        (l.deploy false r).1.failing = r.failing := by
  obtain ⟨all', done, syncs, hl', -, hperm, -, hran⟩ := completed_of_deploy_ok hd
  cases hl.symm.trans hl'
  have hchanged : l.changed r.loadHashes all = l.included all := by
    rw [changed, List.filter_eq_self]
    intro s _
    have hnone : r.loadHashes.hashes = .empty := by
      rw [loadHashes, hempty]
      rfl
    rw [Repository.isChanged, hnone]
    rfl
  have hstart : (begun r).state.objects = .empty := congrArg RepositoryState.objects hempty
  rw [hran]
  refine ⟨done, hchanged ▸ hperm, ?_, ?_, ?_⟩
  · rw [withSyncs_objects, completedAll_objects, hstart]
  · exact completedAll_database (begun r) _ false
  · exact completedAll_failing (begun r) _ false

/-- A deployment to an empty repository, where no name is set to fail, of scripts with different types
and ids that keep their names. -/
structure FreshDeploy (l : Release) (r : Repository) (all : List Script) : Prop where
  listing : l.listing = .ok all
  ids : (all.map fun s => (s.objectType, s.id)).Nodup
  empty : r.state = .empty
  failing : r.failing = .empty
  names : ∀ s ∈ l.included all, s.isMigration = false → l.KeepsName r s
  deployed : ∃ n, (l.deploy false r).2 = .ok n

/-- Whether verification right after the deployment succeeds without failures. -/
def Verifies (l : Release) (r : Repository) : Prop :=
  ∃ report, (l.verify (l.deploy false r).1).2 = .ok report ∧ report.failures = []

/-- Verification succeeds exactly if every compared script has the same body after parameters and then
placeholders were put in. -/
theorem FreshDeploy.verifies_iff (h : l.FreshDeploy r all)
    (hkinds : ∀ s ∈ l.included all, s.isMigration = true → s.objectType.isVersioned = true) :
    l.Verifies r ↔ ∀ s ∈ l.included all, s.isMigration = false →
      l.Compares (l.deploy false r).1 s → l.Survives s := by
  obtain ⟨n, hd⟩ := h.deployed
  obtain ⟨done, hperm, hobjects, hdatabase, hsame⟩ := exists_done_of_empty h.listing h.empty hd
  have hpasses (s : Script) : (l.deploy false r).1.passes s = true := by
    rw [passes, fails, hsame, h.failing]
    exact Bool.or_true _
  have hkeeps : ∀ s ∈ l.included all, s.isMigration = false →
      l.KeepsName (l.deploy false r).1 s := by
    intro s hs hm
    rw [KeepsName, deployedForm, hdatabase]
    exact h.names s hs hm
  rw [Verifies, exists_verify_ok_iff h.listing, and_iff_left fun s _ => hpasses (l.injected s)]
  constructor
  · intro hmatches s hs hm hc
    have hmem := mem_comparedObjects_of_compares hc (hkeeps s hs hm) hs
    exact (matchesSource_iff h.ids hs hm hc.unversioned (hkeeps s hs hm)).1 (hmatches _ hmem)
  · intro hsurvives p hp
    have hkinds' : ∀ s ∈ done, s.isMigration = true → s.objectType.isVersioned = true :=
      fun s hs => hkinds s (hperm.mem_iff.1 hs)
    obtain ⟨s, hdone, hm, hc, rfl⟩ := exists_of_mem_comparedObjects hobjects hkinds' hp
    have hs := hperm.mem_iff.1 hdone
    exact (matchesSource_iff h.ids hs hm hc.unversioned (hkeeps s hs hm)).2 (hsurvives s hs hm hc)

theorem survives_of_readsBack {T : Template} (hs : s.content = String.ofList T.text)
    (hT : T.ReadsBack l.parameters) : l.Survives s := by
  have hcontent : (l.parameters.parametrizeContent (l.injected s)).content = s.content := by
    rw [Parameters.parametrizeContent, Script.setContent, injected_content, hs]
    exact Parameters.trimText_parametrize_inject hT
  have htype : (l.parameters.parametrizeContent (l.injected s)).objectType = s.objectType :=
    injected_objectType l s
  rw [Survives, Script.equivalent, Script.normalized, Script.normalized, hcontent, htype]
  exact beq_self_eq_true _

/-- Right after a deployment to an empty repository verification finds no drift, if the text of every
compared script reads back. It finds drift exactly where parameters and then placeholders change the
body of a compared script. -/
theorem verify_deploy_templates (h : l.FreshDeploy r all)
    (hkinds : ∀ s ∈ l.included all, s.isMigration = true → s.objectType.isVersioned = true) :
    ((∀ s ∈ l.included all, s.isMigration = false → l.Compares (l.deploy false r).1 s →
        ∃ T : Template, s.content = String.ofList T.text ∧ T.ReadsBack l.parameters) →
      l.Verifies r) ∧
    (l.Verifies r ↔ ∀ s ∈ l.included all, s.isMigration = false →
      l.Compares (l.deploy false r).1 s → l.Survives s) := by
  refine ⟨fun htexts => (h.verifies_iff hkinds).2 fun s hs hm hc => ?_, h.verifies_iff hkinds⟩
  obtain ⟨T, htext, hT⟩ := htexts s hs hm hc
  exact survives_of_readsBack htext hT

def environmentView (query : String) : Script :=
  .state "DB" "S" .view "V" ("CREATE OR REPLACE VIEW DB.S.V AS " ++ query)

def inEnvironment (query : String) : Release :=
  ⟨.default, Keyed.empty.insert "env" "dev", .ok [environmentView query]⟩

theorem keepsName_environmentView (query : String) :
    (inEnvironment query).KeepsName (.new "2024-01-01T00:00:00Z" "DB") (environmentView query) := by
  have hname : (environmentView query).fullName = "DB.S.V" := by
    change upperText "DB" ++ "." ++ upperText "S" ++ "." ++ upperText "V" = "DB.S.V"
    decide
  have hlive : upperText (Parameters.parametrizePart (Keyed.empty.insert "env" "dev")
      (upperText (upperText "DB"))) ++ "." ++
        upperText (Parameters.parametrizePart (Keyed.empty.insert "env" "dev")
          (upperText (upperText "S"))) ++ "." ++ upperText (upperText "V") = "DB.S.V" := by
    decide +kernel
  rw [KeepsName, parametrizeIdentity_fullName, hname, deployedForm_of_unversioned _ _ _ rfl]
  exact hlive

theorem freshDeploy_environmentView (query : String)
    (hok : ((inEnvironment query).deploy false (.new "2024-01-01T00:00:00Z" "DB")).2.toOption =
      some 1) : (inEnvironment query).FreshDeploy (.new "2024-01-01T00:00:00Z" "DB")
        [environmentView query] where
  listing := rfl
  ids := by simp
  empty := rfl
  failing := rfl
  names s hs _ := by
    cases List.mem_singleton.1 (List.mem_of_mem_filter hs)
    exact keepsName_environmentView query
  deployed := ⟨1, eq_ok_of_toOption hok⟩

theorem readsBack_environmentView : Template.ReadsBack (Keyed.empty.insert "env" "dev")
    ⟨"CREATE OR REPLACE VIEW DB.S.V AS SELECT '".toList, [("env", "' AS E".toList)]⟩ where
  trimmed := by decide +kernel
  distinct _ := ⟨by decide, by decide, by decide, by decide⟩
  keys := by decide
  unopened := by decide
  bounded := by decide
  free := by decide

theorem verify_deploy_placeholder :
    let l := inEnvironment "SELECT '${env}' AS E"
    let r := Repository.new "2024-01-01T00:00:00Z" "DB"
    l.FreshDeploy r [environmentView "SELECT '${env}' AS E"] ∧ l.Verifies r := by
  intro l r
  have hfresh := freshDeploy_environmentView "SELECT '${env}' AS E" (by decide +kernel)
  refine ⟨hfresh, (verify_deploy_templates hfresh ?_).1 ?_⟩
  · intro s hs hm
    cases List.mem_singleton.1 (List.mem_of_mem_filter hs)
    cases hm
  · intro s hs _ _
    cases List.mem_singleton.1 (List.mem_of_mem_filter hs)
    exact ⟨_, by decide +kernel, readsBack_environmentView⟩

def viewVersion : Script :=
  .ofUnit "DB" "S" .view "V" ⟨0, none, "---version: 0\nCREATE VIEW DB.S.V AS SELECT 1;", none, none⟩

def withViewVersion : Release :=
  ⟨.default, .empty, .ok [viewVersion]⟩

theorem not_verifies_of_error {l : Release} {r : Repository}
    (h : (l.verify (l.deploy false r).1).2.toOption = none) : ¬ l.Verifies r := by
  rintro ⟨report, hreport, -⟩
  rw [hreport] at h
  cases h

/-- A text that happens to hold the value of a parameter comes back with a placeholder; a view that is
deployed as a migration is not found in the source. -/
theorem not_verify_deploy :
    (∃ l r all, FreshDeploy l r all ∧
      (∀ s ∈ l.included all, s.isMigration = true → s.objectType.isVersioned = true) ∧
      ¬ l.Verifies r) ∧
    ∃ l r all, FreshDeploy l r all ∧ l.parameters = .empty ∧ ¬ l.Verifies r := by
  let r := Repository.new "2024-01-01T00:00:00Z" "DB"
  constructor
  · let l := inEnvironment "SELECT 'dev' AS E"
    obtain ⟨hok, hdrift⟩ : (l.deploy false r).2.toOption = some 1 ∧
        (l.verify (l.deploy false r).1).2.toOption = none := by
      decide +kernel
    refine ⟨l, r, _, freshDeploy_environmentView _ hok, ?_, not_verifies_of_error hdrift⟩
    intro s hs hm
    cases List.mem_singleton.1 (List.mem_of_mem_filter hs)
    cases hm
  · obtain ⟨hok, hmissed⟩ : (withViewVersion.deploy false r).2.toOption = some 1 ∧
        (withViewVersion.verify (withViewVersion.deploy false r).1).2.toOption = none := by
      decide +kernel
    refine ⟨withViewVersion, r, [viewVersion], ⟨rfl, by simp, rfl, rfl, ?_, 1, eq_ok_of_toOption hok⟩,
      rfl, not_verifies_of_error hmissed⟩
    intro s hs hm
    cases List.mem_singleton.1 (List.mem_of_mem_filter hs)
    cases hm

end Release

end SchemaDeploy
