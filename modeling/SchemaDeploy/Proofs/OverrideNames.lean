import SchemaDeploy.Proofs.Replacements
import SchemaDeploy.Proofs.RollbackOverrides

namespace SchemaDeploy

namespace Text

theorem isAlpha_of_not_ascii {c : Char} (hc : ¬ c.toNat < 128) : c.isAlpha = false := by
  refine Bool.eq_false_iff.2 fun ha => ?_
  simp [Char.isAlpha, Char.isUpper, Char.isLower, UInt32.le_iff_toNat_le] at ha
  omega

theorem same_upper_iff {t : List Char} :
    same (upper t) t = true ↔ ∀ c ∈ t, ¬ c.toNat < 128 → upperChar c = [c] := by
  induction t with
  | nil => simp [same, upper]
  | cons c t ih =>
      rw [List.forall_mem_cons, ← ih, upper, List.flatMap_cons, ← upper, same, beq_iff_eq, same,
        beq_iff_eq]
      by_cases hc : c.toNat < 128
      · rw [upperChar, if_pos hc, List.singleton_append, List.map_cons, List.map_cons,
          Char.toLower_toUpper_eq_toLower, List.cons.injEq]
        exact and_congr_left fun _ => iff_of_true rfl fun hnot => absurd hc hnot
      · have hself : c.toLower = c := (toLower_eq_iff (isAlpha_of_not_ascii hc)).2 rfl
        cases hu : upperChar c with
        | nil => exact absurd hu (upperChar_ne_nil c)
        | cons u us =>
            cases us with
            | nil =>
                rw [List.singleton_append, List.map_cons, List.map_cons, List.cons.injEq, hself,
                  toLower_eq_iff (isAlpha_of_not_ascii hc), forall_prop_of_true hc,
                  List.cons.injEq, and_iff_left rfl]
            | cons v vs =>
                refine iff_of_false (fun h => ?_) fun h => ?_
                · have hlength := congrArg List.length h
                  have hle := length_le_upper t
                  simp only [List.cons_append, List.map_cons, List.length_cons, List.length_map,
                    List.length_append] at hlength
                  omega
                · have hone := h.1 hc
                  cases hone

end Text

/-- Whether upper case changes ASCII letters only. -/
def IsPlainName (name : String) : Prop :=
  ∀ c ∈ name.toList, ¬ c.toNat < 128 → Text.upperChar c = [c]

instance (name : String) : Decidable (IsPlainName name) :=
  List.decidableBAll (fun c : Char => ¬ c.toNat < 128 → Text.upperChar c = [c]) name.toList

theorem sameText_upperText_iff {name : String} :
    sameText (upperText name) name = true ↔ IsPlainName name := by
  rw [sameText, upperText, String.toList_ofList, Text.same_upper_iff, IsPlainName]

theorem sameText_comm (s t : String) : sameText s t = sameText t s := by
  rw [Bool.eq_iff_iff]
  exact ⟨Text.same_symm, Text.same_symm⟩

theorem Script.IsUpper.sameText_fullName_iff {s : Script} (hs : s.IsUpper) {name : String} :
    sameText s.fullName name = true ↔ upperText name = s.fullName ∧ IsPlainName name := by
  constructor
  · intro hsame
    have hname : upperText name = s.fullName := by
      rw [← upperText_eq_of_sameText hsame, hs.fullName]
    exact ⟨hname, sameText_upperText_iff.1 (hname ▸ hsame)⟩
  · rintro ⟨hname, hplain⟩
    rw [← hname]
    exact sameText_upperText_iff.2 hplain

theorem Script.IsUpper.sameText_iff_fullName {s : Script} (hs : s.IsUpper) {name : String} :
    sameText name s.fullName = true ↔ upperText name = s.fullName ∧ IsPlainName name := by
  rw [sameText_comm]
  exact hs.sameText_fullName_iff

/-- Whether an override makes one script depend on another one, by the upper case of its names. -/
def Override.Demands (o : Override) (d : String) (s t : Script) : Prop :=
  d ∈ o.dependencies ∧ upperText o.script = s.fullName ∧ upperText d = t.fullName

namespace Config

variable {c : Config} {ts : List Script}

theorem asks_overridesWithin_iff (hup : ∀ t ∈ ts, t.IsUpper) {s t : Script} (hs : s ∈ ts)
    (ht : t ∈ ts) : Override.Asks (c.overridesWithin ts) s t ↔
      ∃ o ∈ c.overrides, ∃ d, o.Demands d s t ∧ IsPlainName o.script ∧ IsPlainName d := by
  constructor
  · rintro ⟨o, ho, hscript, d, hd, hdependency⟩
    obtain ⟨o', ho', -, rfl⟩ := mem_overridesWithin.1 ho
    obtain ⟨hname, hplain⟩ := (hup s hs).sameText_iff_fullName.1 hscript
    obtain ⟨hname', hplain'⟩ := (hup t ht).sameText_fullName_iff.1 hdependency
    exact ⟨o', ho', d, ⟨(List.mem_filter.1 hd).1, hname, hname'⟩, hplain, hplain'⟩
  · rintro ⟨o, ho, d, ⟨hd, hname, hname'⟩, hplain, hplain'⟩
    exact ⟨_, mem_overridesWithin.2 ⟨o, ho, knows_iff.2 ⟨s, hs, hname.symm⟩, rfl⟩,
      (hup s hs).sameText_iff_fullName.2 ⟨hname, hplain⟩, d,
      List.mem_filter.2 ⟨hd, knows_iff.2 ⟨t, ht, hname'.symm⟩⟩,
      (hup t ht).sameText_fullName_iff.2 ⟨hname', hplain'⟩⟩

theorem resolved_overridesWithin_iff (hup : ∀ t ∈ ts, t.IsUpper) :
    Override.Resolved (c.overridesWithin ts) ts ↔
      ∀ o ∈ c.overrides, ∀ d, ∀ s ∈ ts, ∀ t ∈ ts, o.Demands d s t → IsPlainName o.script →
        IsPlainName d := by
  constructor
  · rintro hr o ho d s hs t ht ⟨hd, hname, hname'⟩ hplain
    obtain ⟨u, hu, hsame⟩ := hr s hs _
      (mem_overridesWithin.2 ⟨o, ho, knows_iff.2 ⟨s, hs, hname.symm⟩, rfl⟩)
      ((hup s hs).sameText_iff_fullName.2 ⟨hname, hplain⟩) d
      (List.mem_filter.2 ⟨hd, knows_iff.2 ⟨t, ht, hname'.symm⟩⟩)
    exact ((hup u hu).sameText_fullName_iff.1 hsame).2
  · intro h s hs o ho hscript d hd
    obtain ⟨o', ho', -, rfl⟩ := mem_overridesWithin.1 ho
    obtain ⟨hd, hk⟩ := List.mem_filter.1 hd
    obtain ⟨t, ht, hname'⟩ := knows_iff.1 hk
    obtain ⟨hname, hplain⟩ := (hup s hs).sameText_iff_fullName.1 hscript
    exact ⟨t, ht, (hup t ht).sameText_fullName_iff.2
      ⟨hname'.symm, h o' ho' d s hs t ht ⟨hd, hname, hname'.symm⟩ hplain⟩⟩

end Config

namespace DependencyGraph

/-- Overrides within scripts fail over a dependency that upper case finds and the graph does not, and
over nothing else. Those of a script that the graph does not find either have no effect. -/
theorem ofScripts_overridesWithin (c : Config) (ts : List Script) (hup : ∀ t ∈ ts, t.IsUpper) :
    (∀ e, ofScripts (c.overridesWithin ts) ts = .error e →
      ∃ o ∈ c.overrides, ∃ d, ∃ s ∈ ts, ∃ t ∈ ts, o.Demands d s t ∧ IsPlainName o.script ∧
        ¬ IsPlainName d ∧ e = .unresolvedOverride o.script d) ∧
      ((∃ o ∈ c.overrides, ∃ d, ∃ s ∈ ts, ∃ t ∈ ts, o.Demands d s t ∧ IsPlainName o.script ∧
        ¬ IsPlainName d) → ∃ e, ofScripts (c.overridesWithin ts) ts = .error e) ∧
      (∀ g, ofScripts (c.overridesWithin ts) ts = .ok g →
        ∀ i j s t, g.nodes[i]? = some s → g.nodes[j]? = some t → i ≠ j →
          (g.DependsOn i j ↔ Dependency.Infers s t ∨
            ∃ o ∈ c.overrides, ∃ d, o.Demands d s t ∧ IsPlainName o.script ∧ IsPlainName d)) ∧
      ((∀ o ∈ c.overrides, ∀ name ∈ o.script :: o.dependencies, IsPlainName name) →
        ∃ g, ofScripts (c.overridesWithin ts) ts = .ok g ∧
          ∀ i j s t, g.nodes[i]? = some s → g.nodes[j]? = some t → i ≠ j →
            ∀ o ∈ c.overrides, ∀ d, o.Demands d s t → g.DependsOn i j) := by
  have hresolved := Config.resolved_overridesWithin_iff (c := c) hup
  have hedges (g : DependencyGraph) (hg : ofScripts (c.overridesWithin ts) ts = .ok g) (i j : Nat)
      (s t : Script) (hs : g.nodes[i]? = some s) (ht : g.nodes[j]? = some t) (hne : i ≠ j) :
      g.DependsOn i j ↔ Dependency.Infers s t ∨
        ∃ o ∈ c.overrides, ∃ d, o.Demands d s t ∧ IsPlainName o.script ∧ IsPlainName d := by
    obtain ⟨hw, hn, ho⟩ := ofScripts_spec hg
    have hasks := Config.asks_overridesWithin_iff (c := c) hup (hn ▸ List.mem_of_getElem? hs)
      (hn ▸ List.mem_of_getElem? ht)
    rw [hw.dependsOn_iff, ← hasks, ho]
    simp only [hs, ht, Option.some.injEq, exists_and_left, exists_eq_left', ne_eq, hne.symm,
      not_false_eq_true, true_and]
  refine ⟨fun e he => ?_, ?_, hedges, fun hplain => ?_⟩
  · obtain ⟨s, hs, o, ho, hscript, d, hd, rfl, hnone⟩ := error_of_add he
    obtain ⟨o', ho', -, rfl⟩ := Config.mem_overridesWithin.1 ho
    obtain ⟨hd, hk⟩ := List.mem_filter.1 hd
    obtain ⟨t, ht, hname'⟩ := Config.knows_iff.1 hk
    obtain ⟨hname, hplain⟩ := (hup s hs).sameText_iff_fullName.1 hscript
    refine ⟨o', ho', d, s, hs, t, ht, ⟨hd, hname, hname'.symm⟩, hplain, fun hplain' => ?_, rfl⟩
    have hfound := (hup t ht).sameText_fullName_iff.2 ⟨hname'.symm, hplain'⟩
    rw [hnone t ht] at hfound
    cases hfound
  · rintro ⟨o, ho, d, s, hs, t, ht, hdemands, hplain, hnot⟩
    cases hg : ofScripts (c.overridesWithin ts) ts with
    | error e => exact ⟨e, rfl⟩
    | ok g =>
        have hall := hresolved.1 (ofScripts_ok_iff.1 ⟨g, hg⟩)
        exact absurd (hall o ho d s hs t ht hdemands hplain) hnot
  · obtain ⟨g, hg⟩ := ofScripts_ok_iff.2 (hresolved.2 fun o ho d _ _ _ _ hdemands _ =>
      hplain o ho d (List.mem_cons_of_mem _ hdemands.1))
    refine ⟨g, hg, fun i j s t hs ht hne o ho d hdemands => (hedges g hg i j s t hs ht hne).2 ?_⟩
    exact .inr ⟨o, ho, d, hdemands, hplain o ho _ List.mem_cons_self,
      hplain o ho d (List.mem_cons_of_mem _ hdemands.1)⟩

def accentedViews : List Script :=
  [.state "DB" "S" .view "V" "CREATE VIEW DB.S.V AS SELECT 1",
    .state "DB" "S" .view "ä" "CREATE VIEW DB.S.Ä AS SELECT 2"]

def accentedConfig (o : Override) : Config :=
  { Config.default with overrides := [o] }

theorem isUpper_accentedViews : ∀ s ∈ accentedViews, s.IsUpper := by
  rintro s (_ | ⟨_, hs⟩)
  · exact Script.isUpper_ofContent ..
  · cases List.mem_singleton.1 hs
    exact Script.isUpper_ofContent ..

theorem ofScripts_accentedViews :
    (accentedConfig ⟨"DB.S.V", ["db.s.ä"]⟩).validateOverrides accentedViews = .ok () ∧
      ofScripts ((accentedConfig ⟨"DB.S.V", ["db.s.ä"]⟩).overridesWithin accentedViews)
          accentedViews = .error (.unresolvedOverride "DB.S.V" "db.s.ä") ∧
      ∃ g, ofScripts ((accentedConfig ⟨"db.s.v", ["DB.S.Ä"]⟩).overridesWithin accentedViews)
          accentedViews = .ok g ∧ g.DependsOn 0 1 := by
  have hnames : accentedViews.map Script.fullName = ["DB.S.V", "DB.S.Ä"] := by
    decide +kernel
  have hdemands (script dependency : String) (hs : upperText script = "DB.S.V")
      (hd : upperText dependency = "DB.S.Ä") : ∃ s t, accentedViews = [s, t] ∧
        (⟨script, [dependency]⟩ : Override).Demands dependency s t := by
    injection hnames with hname hrest
    injection hrest with hname' _
    exact ⟨_, _, rfl, List.mem_singleton_self _, hs.trans hname.symm, hd.trans hname'.symm⟩
  refine ⟨by decide +kernel, ?_, ?_⟩
  · obtain ⟨honly, hfails, -⟩ := ofScripts_overridesWithin
      (accentedConfig ⟨"DB.S.V", ["db.s.ä"]⟩) accentedViews isUpper_accentedViews
    obtain ⟨s, t, hviews, hst⟩ := hdemands "DB.S.V" "db.s.ä" (by decide +kernel) (by decide +kernel)
    obtain ⟨e, he⟩ := hfails ⟨_, List.mem_singleton_self _, "db.s.ä", s, by simp [hviews], t,
      by simp [hviews], hst, by decide +kernel, by decide +kernel⟩
    obtain ⟨o, ho, d, _, -, _, -, hd, -, -, rfl⟩ := honly e he
    cases List.mem_singleton.1 ho
    cases List.mem_singleton.1 hd.1
    exact he
  · obtain ⟨-, -, -, hplain⟩ := ofScripts_overridesWithin
      (accentedConfig ⟨"db.s.v", ["DB.S.Ä"]⟩) accentedViews isUpper_accentedViews
    obtain ⟨s, t, hviews, hst⟩ := hdemands "db.s.v" "DB.S.Ä" (by decide +kernel) (by decide +kernel)
    obtain ⟨g, hg, hall⟩ := hplain (by decide +kernel)
    obtain ⟨-, hn, -⟩ := ofScripts_spec hg
    exact ⟨g, hg, hall 0 1 s t (by rw [hn, hviews]; rfl) (by rw [hn, hviews]; rfl) Nat.zero_ne_one _
      (List.mem_singleton_self _) "DB.S.Ä" hst⟩

/-- An accepted override can fail, and it can have no effect. -/
theorem not_ofScripts_overridesWithin :
    (¬ ∀ (c : Config) (ss ts : List Script), (∀ s ∈ ss, s.IsUpper) →
      c.validateOverrides ss = .ok () → ts.Sublist ss →
      ∀ s d, ofScripts (c.overridesWithin ts) ts ≠ .error (.unresolvedOverride s d)) ∧
    ¬ ∀ (c : Config) (ss ts : List Script) (g : DependencyGraph), (∀ s ∈ ss, s.IsUpper) →
      c.validateOverrides ss = .ok () → ts.Sublist ss →
      ofScripts (c.overridesWithin ts) ts = .ok g →
      ∀ i j s t, g.nodes[i]? = some s → g.nodes[j]? = some t → i ≠ j →
        ∀ o ∈ c.overrides, ∀ d, o.Demands d s t → g.DependsOn i j := by
  refine ⟨fun h => ?_, fun h => ?_⟩
  · exact h (accentedConfig ⟨"DB.S.V", ["db.s.ä"]⟩) accentedViews accentedViews
      isUpper_accentedViews (by decide +kernel) (.refl _) "DB.S.V" "db.s.ä" (by decide +kernel)
  · have hg : ofScripts ((accentedConfig ⟨"db.s.ä", ["DB.S.V"]⟩).overridesWithin accentedViews)
        accentedViews = .ok ⟨_, accentedViews, [[], []]⟩ :=
      ofScripts_eq_ok (by decide +kernel)
    have hdemands : (⟨"db.s.ä", ["DB.S.V"]⟩ : Override).Demands "DB.S.V"
        accentedViews[1] accentedViews[0] :=
      ⟨List.mem_singleton_self _, by decide +kernel, by decide +kernel⟩
    have hedge := h _ accentedViews accentedViews _ isUpper_accentedViews (by decide +kernel)
      (.refl _) hg 1 0 _ _ rfl rfl Nat.one_ne_zero _ (List.mem_singleton_self _) "DB.S.V" hdemands
    cases hedge

end DependencyGraph

end SchemaDeploy
