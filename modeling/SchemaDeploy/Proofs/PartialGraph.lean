import SchemaDeploy.Config.Basic
import SchemaDeploy.Proofs.Sequencing
import SchemaDeploy.Proofs.UpperText
import Mathlib.Data.List.NodupEquivFin

namespace SchemaDeploy

namespace Config

variable {c : Config} {ss ts : List Script}

theorem knows_iff {name : String} :
    knows (fullNames ss) name = true ↔ ∃ s ∈ ss, s.fullName = upperText name := by
  simp [knows, fullNames]

theorem knows_of_subset (hsub : ts ⊆ ss) {name : String} (h : knows (fullNames ts) name = true) :
    knows (fullNames ss) name = true := by
  obtain ⟨t, ht, hn⟩ := knows_iff.1 h
  exact knows_iff.2 ⟨t, hsub ht, hn⟩

theorem mem_overridesWithin {o : Override} : o ∈ c.overridesWithin ss ↔
    ∃ o' ∈ c.overrides, knows (fullNames ss) o'.script = true ∧
      o = ⟨o'.script, o'.dependencies.filter (knows (fullNames ss))⟩ := by
  simp only [overridesWithin, List.mem_map, List.mem_filter, and_assoc]
  apply exists_congr
  intro o'
  apply and_congr_right
  intro _
  apply and_congr_right
  intro _
  exact eq_comm

theorem overridesWithin_nil : c.overridesWithin [] = [] := by
  simp [overridesWithin, knows, fullNames]

theorem exists_overridesWithin_of_subset (hsub : ts ⊆ ss) {o : Override}
    (h : o ∈ c.overridesWithin ts) :
    ∃ o' ∈ c.overridesWithin ss, o'.script = o.script ∧ o.dependencies ⊆ o'.dependencies := by
  obtain ⟨o', ho, hk, rfl⟩ := mem_overridesWithin.1 h
  refine ⟨_, mem_overridesWithin.2 ⟨o', ho, knows_of_subset hsub hk, rfl⟩, rfl, fun d hd => ?_⟩
  obtain ⟨hd, hkd⟩ := List.mem_filter.1 hd
  exact List.mem_filter.2 ⟨hd, knows_of_subset hsub hkd⟩

theorem asks_of_subset (hsub : ts ⊆ ss) {s t : Script}
    (h : Override.Asks (c.overridesWithin ts) s t) : Override.Asks (c.overridesWithin ss) s t := by
  obtain ⟨o, ho, hs, d, hd, ht⟩ := h
  obtain ⟨o', ho', hscript, hdeps⟩ := exists_overridesWithin_of_subset hsub ho
  exact ⟨o', ho', hscript ▸ hs, d, hdeps hd, ht⟩

/-- A name that is kept for a part is the upper case of the name of one of its scripts. If some
script of the whole has the name up to ASCII case, it has that same upper case. -/
theorem resolved_of_subset (hup : ∀ s ∈ ss, s.IsUpper) (hsub : ts ⊆ ss)
    (h : Override.Resolved (c.overridesWithin ss) ss) :
    Override.Resolved (c.overridesWithin ts) ts := by
  intro s hs o ho hscript d hd
  obtain ⟨o', ho', hsame, hdeps⟩ := exists_overridesWithin_of_subset hsub ho
  obtain ⟨u, hu, hud⟩ := h s (hsub hs) o' ho' (hsame ▸ hscript) d (hdeps hd)
  obtain ⟨_, -, -, rfl⟩ := mem_overridesWithin.1 ho
  obtain ⟨t, ht, htd⟩ := knows_iff.1 (List.mem_filter.1 hd).2
  have hname : t.fullName = u.fullName := by
    rw [htd, ← upperText_eq_of_sameText hud, (hup u hu).fullName]
  exact ⟨t, ht, hname ▸ hud⟩

end Config

namespace DependencyGraph

variable {c : Config} {ss ts : List Script} {g g' : DependencyGraph}

theorem exists_embedding_of_sublist (hsub : ts.Sublist ss)
    (hg : ofScripts (c.overridesWithin ss) ss = .ok g)
    (hg' : ofScripts (c.overridesWithin ts) ts = .ok g') :
    ∃ f : Nat → Nat, (∀ i, ts[i]? = ss[f i]?) ∧
      ∀ i j, g'.DependsOn i j → g.DependsOn (f i) (f j) := by
  obtain ⟨f, hf⟩ := List.sublist_iff_exists_orderEmbedding_getElem?_eq.1 hsub
  obtain ⟨hw, hn, ho⟩ := ofScripts_spec hg
  obtain ⟨hw', hn', ho'⟩ := ofScripts_spec hg'
  refine ⟨f, hf, fun i j hd => ?_⟩
  obtain ⟨s, t, hi, hj, h⟩ := (hw'.dependsOn_iff i j).1 hd
  rw [hn', hf] at hi hj
  refine (hw.dependsOn_iff (f i) (f j)).2 ⟨s, t, hn ▸ hi, hn ▸ hj, ?_⟩
  rcases h with h | ⟨hne, h⟩
  · exact .inl h
  · refine .inr ⟨fun he => hne (f.injective he), ?_⟩
    rw [ho'] at h
    rw [ho]
    exact Config.asks_of_subset hsub.subset h

theorem acyclic_of_sublist (hsub : ts.Sublist ss)
    (hg : ofScripts (c.overridesWithin ss) ss = .ok g)
    (hg' : ofScripts (c.overridesWithin ts) ts = .ok g') (ha : g.Acyclic) : g'.Acyclic := by
  obtain ⟨f, -, hf⟩ := exists_embedding_of_sublist hsub hg hg'
  exact fun i hc => ha (f i) (hc.lift f hf)

theorem exists_order_of_sublist (hup : ∀ s ∈ ss, s.IsUpper) (hsub : ts.Sublist ss)
    (hg : ofScripts (c.overridesWithin ss) ss = .ok g) (ha : g.Acyclic) :
    ∃ g' order, ofScripts (c.overridesWithin ts) ts = .ok g' ∧ g'.order = .ok order := by
  have hr := Config.resolved_of_subset hup hsub.subset (ofScripts_ok_iff.1 ⟨g, hg⟩)
  obtain ⟨g', hg'⟩ := ofScripts_ok_iff.2 hr
  have ha' := acyclic_of_sublist hsub hg hg' ha
  obtain ⟨order, ho⟩ := (exists_order_iff (ofScripts_spec hg').1).2 ha'
  exact ⟨g', order, hg', ho⟩

end DependencyGraph

end SchemaDeploy
