import SchemaDeploy.Change.Inventory
import SchemaDeploy.Proofs.AddedMigrations
import SchemaDeploy.Proofs.Sequencing
import SchemaDeploy.Proofs.Turns
import Mathlib.Data.Prod.Lex
import Mathlib.Data.String.Basic

namespace SchemaDeploy

def Edge.names (e : Edge) : String × String :=
  (e.object, e.dependency)

theorem Edge.before_iff {e f : Edge} :
    e.before f = true ↔ Prod.Lex (· < ·) (· < ·) e.names f.names := by
  simp [before, names, Prod.lex_def]

theorem Edge.sameNames_iff {e f : Edge} : e.sameNames f = true ↔ e.names = f.names := by
  simp [sameNames, names]

/-- Whether edges stand in the order of their names, each pair of names once. -/
def Increasing (es : List Edge) : Prop :=
  (es.map Edge.names).Pairwise (Prod.Lex (· < ·) (· < ·))

section

variable {e : Edge} {es fs : List Edge} {p : String × String}

theorem mem_names_insertEdge :
    p ∈ (insertEdge e es).map Edge.names ↔ p = e.names ∨ p ∈ es.map Edge.names := by
  induction es with
  | nil => simp [insertEdge]
  | cons f es ih =>
      rw [insertEdge]
      split
      · rw [List.map_cons, List.mem_cons]
      · split
        · next hsame =>
          rw [Edge.sameNames_iff.1 hsame, List.map_cons, List.mem_cons]
          tauto
        · rw [List.map_cons, List.mem_cons, ih, List.map_cons, List.mem_cons]
          tauto

theorem Increasing.insertEdge (h : Increasing es) (e : Edge) : Increasing (insertEdge e es) := by
  induction es with
  | nil => exact List.pairwise_singleton _ _
  | cons f es ih =>
      obtain ⟨hf, hes⟩ := List.pairwise_cons.1 h
      rw [SchemaDeploy.insertEdge]
      split
      · next hlt =>
        have hlt := Edge.before_iff.1 hlt
        refine List.pairwise_cons.2 ⟨fun p hp => ?_, h⟩
        rcases List.mem_cons.1 hp with rfl | hp
        · exact hlt
        · exact Trans.trans hlt (hf p hp)
      · next hnlt =>
        split
        · exact h
        · next hne =>
          have hlt : Prod.Lex (· < ·) (· < ·) f.names e.names := by
            rcases Std.Trichotomous.rel_or_eq_or_rel_swap (r := Prod.Lex (· < ·) (· < ·))
              (a := e.names) (b := f.names) with hlt | heq | hgt
            · exact absurd (Edge.before_iff.2 hlt) hnlt
            · exact absurd (Edge.sameNames_iff.2 heq) hne
            · exact hgt
          refine List.pairwise_cons.2 ⟨fun p hp => ?_, ih hes⟩
          rcases mem_names_insertEdge.1 hp with rfl | hp
          · exact hlt
          · exact hf p hp

theorem mem_names_foldl_insertEdge :
    p ∈ (es.foldl (fun fs e => insertEdge e fs) fs).map Edge.names ↔
      p ∈ es.map Edge.names ∨ p ∈ fs.map Edge.names := by
  induction es generalizing fs with
  | nil => simp
  | cons e es ih =>
      rw [List.foldl_cons, ih, mem_names_insertEdge, List.map_cons, List.mem_cons]
      tauto

theorem Increasing.foldl_insertEdge (h : Increasing fs) :
    Increasing (es.foldl (fun fs e => SchemaDeploy.insertEdge e fs) fs) := by
  induction es generalizing fs with
  | nil => exact h
  | cons e es ih => exact ih (h.insertEdge e)

theorem Increasing.eq_of_mem_iff (hes : Increasing es) (hfs : Increasing fs)
    (h : ∀ p, p ∈ es.map Edge.names ↔ p ∈ fs.map Edge.names) :
    es.map Edge.names = fs.map Edge.names :=
  List.Pairwise.eq_of_mem_iff hes hfs h

end

namespace DependencyGraph

variable {g : DependencyGraph} {a b : String}

theorem increasing_edges (g : DependencyGraph) : Increasing g.edges :=
  Increasing.foldl_insertEdge .nil

theorem mem_edgesOf {s : Script} {i : Nat} {e : Edge} : e ∈ g.edgesOf s i ↔
    ∃ j t, g.DependsOn i j ∧ g.nodes[j]? = some t ∧ t.fullName ≠ s.fullName ∧
      e = ⟨s.fullName, s.objectType, t.fullName, t.objectType⟩ := by
  simp only [edgesOf, List.mem_filterMap, Option.bind_eq_some_iff, DependsOn]
  constructor
  · rintro ⟨j, hj, t, ht, he⟩
    split at he
    · cases he
    · next hne =>
      cases he
      exact ⟨j, t, hj, ht, by simpa using hne, rfl⟩
  · rintro ⟨j, t, hj, ht, hne, rfl⟩
    exact ⟨j, hj, t, ht, by simp [hne]⟩

theorem mem_names_edges : (a, b) ∈ g.edges.map Edge.names ↔
    a ≠ b ∧ ∃ i j s t, g.nodes[i]? = some s ∧ g.nodes[j]? = some t ∧ g.DependsOn i j ∧
      s.fullName = a ∧ t.fullName = b := by
  rw [edges, mem_names_foldl_insertEdge]
  simp only [List.map_nil, List.not_mem_nil, or_false, List.mem_map, List.mem_flatMap, mem_edgesOf]
  constructor
  · rintro ⟨_, ⟨⟨s, i⟩, hs, j, t, hd, ht, hne, rfl⟩, hnames⟩
    cases hnames
    exact ⟨hne.symm, i, j, s, t, List.mem_zipIdx_iff_getElem?.1 hs, ht, hd, rfl, rfl⟩
  · rintro ⟨hne, i, j, s, t, hs, ht, hd, rfl, rfl⟩
    exact ⟨_, ⟨(s, i), List.mem_zipIdx_iff_getElem?.2 hs, j, t, hd, ht, hne.symm, rfl⟩, rfl⟩

theorem Wired.mem_names_edges (hg : g.Wired) : (a, b) ∈ g.edges.map Edge.names ↔
    a ≠ b ∧ ∃ s ∈ g.nodes, ∃ t ∈ g.nodes, s.fullName = a ∧ t.fullName = b ∧
      (Dependency.Infers s t ∨ Override.Asks g.overrides s t) := by
  rw [DependencyGraph.mem_names_edges]
  apply and_congr_right
  intro hne
  constructor
  · rintro ⟨i, j, s, t, hs, ht, hd, ha, hb⟩
    obtain ⟨s', t', hs', ht', hd⟩ := (hg.dependsOn_iff i j).1 hd
    cases hs.symm.trans hs'
    cases ht.symm.trans ht'
    exact ⟨s, List.mem_of_getElem? hs, t, List.mem_of_getElem? ht, ha, hb,
      hd.imp_right And.right⟩
  · rintro ⟨s, hs, t, ht, rfl, rfl, hd⟩
    obtain ⟨i, hi⟩ := List.mem_iff_getElem?.1 hs
    obtain ⟨j, hj⟩ := List.mem_iff_getElem?.1 ht
    have hji : j ≠ i := by
      rintro rfl
      cases hi.symm.trans hj
      exact hne rfl
    exact ⟨i, j, s, t, hi, hj, (hg.dependsOn_iff i j).2 ⟨s, t, hi, hj, hd.imp_right fun h => ⟨hji, h⟩⟩,
      rfl, rfl⟩

theorem names_edges_of_perm {overrides : List Override} {ss ss' : List Script}
    {g' : DependencyGraph} (hp : ss.Perm ss') (hg : ofScripts overrides ss = .ok g)
    (hg' : ofScripts overrides ss' = .ok g') :
    g.edges.map Edge.names = g'.edges.map Edge.names := by
  obtain ⟨hw, hn, ho⟩ := ofScripts_spec hg
  obtain ⟨hw', hn', ho'⟩ := ofScripts_spec hg'
  refine (increasing_edges g).eq_of_mem_iff (increasing_edges g') fun ⟨a, b⟩ => ?_
  rw [hw.mem_names_edges, hw'.mem_names_edges, hn, hn', ho, ho']
  simp only [hp.mem_iff]

theorem exists_ofScripts_iff_of_perm (overrides : List Override) {ss ss' : List Script}
    (hp : ss.Perm ss') :
    (∃ g, ofScripts overrides ss = .ok g) ↔ ∃ g, ofScripts overrides ss' = .ok g := by
  rw [ofScripts_ok_iff, ofScripts_ok_iff]
  simp only [Override.Resolved, hp.mem_iff]

end DependencyGraph

namespace Config

variable {c : Config} {ss ss' : List Script}

theorem knows_of_perm (hp : ss.Perm ss') (name : String) :
    knows (fullNames ss) name = knows (fullNames ss') name :=
  (hp.map Script.fullName).contains_eq

theorem validateOverrides_of_perm (hp : ss.Perm ss') :
    c.validateOverrides ss = c.validateOverrides ss' := by
  simp only [validateOverrides, knows_of_perm hp]

theorem overridesWithin_of_perm (hp : ss.Perm ss') :
    c.overridesWithin ss = c.overridesWithin ss' := by
  have hknows : knows (fullNames ss) = knows (fullNames ss') := funext (knows_of_perm hp)
  simp only [overridesWithin, hknows]

end Config

namespace Release

variable {l : Release} {all all' : List Script}

theorem edges_withListing (hl : l.listing = .ok all) (hp : all.Perm all') :
    (l.withListing all').edges.toOption.map (List.map Edge.names) =
      l.edges.toOption.map (List.map Edge.names) := by
  have hv : (l.withListing all').config.validateOverrides all' = l.config.validateOverrides all :=
    (Config.validateOverrides_of_perm hp).symm
  have ho : (l.withListing all').config.overridesWithin all' = l.config.overridesWithin all :=
    (Config.overridesWithin_of_perm hp).symm
  have hl' : (l.withListing all').listing = .ok all' := rfl
  simp only [edges, checkedListing, hl, hl', hv]
  cases l.config.validateOverrides all with
  | error e => rfl
  | ok _ =>
      simp only [ho]
      have hiff :=
        DependencyGraph.exists_ofScripts_iff_of_perm (l.config.overridesWithin all) hp
      cases hg : DependencyGraph.ofScripts (l.config.overridesWithin all) all with
      | error e =>
          cases hg' : DependencyGraph.ofScripts (l.config.overridesWithin all) all' with
          | error e' => rfl
          | ok g' =>
              obtain ⟨g, hg''⟩ := hiff.2 ⟨g', hg'⟩
              cases hg.symm.trans hg''
      | ok g =>
          obtain ⟨g', hg'⟩ := hiff.1 ⟨g, hg⟩
          rw [hg']
          exact congrArg some (DependencyGraph.names_edges_of_perm hp hg hg').symm

theorem keepsLog_recordEdges (l : Release) : KeepsLog l.recordEdges := by
  intro r
  rw [recordEdges]
  cases l.edges <;> exact ⟨rfl, rfl⟩

theorem createLineage_spec (l : Release) (r : Repository) :
    (l.createLineage r).1.state.lineage = l.edges.toOption.getD r.state.lineage ∧
      (l.createLineage r).2.toOption = l.edges.toOption.map List.length := by
  obtain ⟨syncs, hrun⟩ := bracketed_eq (keepsLog_recordEdges l) .createLineage id r
  rw [createLineage, hrun, recordEdges]
  cases l.edges <;> exact ⟨rfl, rfl⟩

theorem createLineage_withListing (hl : l.listing = .ok all) (hp : all.Perm all')
    (r : Repository) :
    ((l.withListing all').createLineage r).1.state.lineage.map Edge.names =
        (l.createLineage r).1.state.lineage.map Edge.names ∧
      ((l.withListing all').createLineage r).2.toOption = (l.createLineage r).2.toOption := by
  obtain ⟨hlineage, hresult⟩ := createLineage_spec l r
  obtain ⟨hlineage', hresult'⟩ := createLineage_spec (l.withListing all') r
  have hnames := edges_withListing hl hp
  have hlength (es : Option (List Edge)) :
      es.map List.length = (es.map (List.map Edge.names)).map List.length := by
    cases es <;> simp
  refine ⟨?_, ?_⟩
  · rw [hlineage, hlineage', ← Option.getD_map (List.map Edge.names), ← Option.getD_map (List.map _),
      hnames]
  · rw [hresult, hresult', hlength, hnames, ← hlength]

theorem lineage_of_createLineage (hl : l.listing = .ok all) {r : Repository} {n : Nat}
    (h : (l.createLineage r).2 = .ok n) : ∃ g,
      DependencyGraph.ofScripts (l.config.overridesWithin all) all = .ok g ∧
        (l.createLineage r).1.state.lineage = g.edges ∧ n = g.edges.length := by
  obtain ⟨hlineage, hresult⟩ := createLineage_spec l r
  rw [h] at hresult
  obtain ⟨es, hes, hn⟩ := Option.map_eq_some_iff.1 hresult.symm
  rw [hlineage, hes]
  have hedges := eq_ok_of_toOption hes
  simp only [edges, checkedListing, hl] at hedges
  cases hv : l.config.validateOverrides all with
  | error e =>
      rw [hv] at hedges
      cases hedges
  | ok u =>
      simp only [hv] at hedges
      cases hg : DependencyGraph.ofScripts (l.config.overridesWithin all) all with
      | error e =>
          rw [hg] at hedges
          cases hedges
      | ok g =>
          rw [hg] at hedges
          cases hedges
          exact ⟨g, rfl, rfl, hn.symm⟩

end Release

namespace DependencyGraph

/-- The edges of a graph stand in the order of their names, none leads from a name to itself, and
there is one between two different names exactly if some node with the one depends on a node with
the other: as texts, versions and overrides say, wherever the scripts stand. The edges of the graph
of a listing are what is recorded of it, the same, up to types, in whatever order the scripts are
listed. -/
theorem edges_of_batches (overrides : List Override) (batches : List (List Script))
    (g : DependencyGraph) (h : (empty overrides).addAll batches = .ok g) :
    Increasing g.edges ∧ (∀ e ∈ g.edges, e.object ≠ e.dependency) ∧
      (∀ a b, (a, b) ∈ g.edges.map Edge.names ↔
        a ≠ b ∧ ∃ i j s t, g.nodes[i]? = some s ∧ g.nodes[j]? = some t ∧ g.DependsOn i j ∧
          s.fullName = a ∧ t.fullName = b) ∧
      (∀ a b, (a, b) ∈ g.edges.map Edge.names ↔
        a ≠ b ∧ ∃ s ∈ batches.flatten, ∃ t ∈ batches.flatten, s.fullName = a ∧ t.fullName = b ∧
          (Dependency.Infers s t ∨ Override.Asks overrides s t)) ∧
      ∀ (l : Release) (all all' : List Script) (r : Repository), l.listing = .ok all →
        all.Perm all' →
        ((l.withListing all').createLineage r).1.state.lineage.map Edge.names =
            (l.createLineage r).1.state.lineage.map Edge.names ∧
          ((l.withListing all').createLineage r).2.toOption = (l.createLineage r).2.toOption ∧
          ∀ n, (l.createLineage r).2 = .ok n → ∃ g,
            ofScripts (l.config.overridesWithin all) all = .ok g ∧
              (l.createLineage r).1.state.lineage = g.edges ∧ n = g.edges.length := by
  obtain ⟨hw, hn, ho⟩ := addAll_spec (wired_empty overrides) h
  refine ⟨increasing_edges g, fun e he => ?_, fun a b => mem_names_edges, fun a b => ?_,
    fun l all all' r hl hp => ?_⟩
  · have hnames : (e.object, e.dependency) ∈ g.edges.map Edge.names := List.mem_map_of_mem he
    exact (mem_names_edges.1 hnames).1
  · have hb := hw.mem_names_edges (a := a) (b := b)
    rwa [hn, ho] at hb
  · obtain ⟨hsame, hresult⟩ := Release.createLineage_withListing hl hp r
    exact ⟨hsame, hresult, fun n => Release.lineage_of_createLineage hl⟩

def mixedRelease : Release :=
  ⟨{ Config.default with overrides := [⟨"DB.S.BASE", ["db.s.t"]⟩] }, .empty, .ok mixedBatches.flatten⟩

theorem edges_of_mixedBatches : ∃ g,
    (empty [⟨"DB.S.BASE", ["db.s.t"]⟩]).addAll mixedBatches = .ok g ∧
      g.edges.map Edge.names = [("DB.S.BASE", "DB.S.T"), ("DB.S.TOP", "DB.S.BASE")] ∧
      Increasing g.edges ∧ (∀ e ∈ g.edges, e.object ≠ e.dependency) ∧
      ∀ r, (mixedRelease.createLineage r).2.toOption = some 2 ∧
        ((mixedRelease.withListing mixedBatches.flatten.reverse).createLineage r).2.toOption =
          some 2 ∧
        ((mixedRelease.withListing mixedBatches.flatten.reverse).createLineage r).1.state.lineage.map
            Edge.names = (mixedRelease.createLineage r).1.state.lineage.map Edge.names := by
  obtain ⟨hincreasing, hself, -, -, hlisted⟩ := edges_of_batches _ _ _ addAll_mixedBatches
  have hnames : mixedGraph.edges.map Edge.names =
      [("DB.S.BASE", "DB.S.T"), ("DB.S.TOP", "DB.S.BASE")] := by
    decide +kernel
  refine ⟨_, addAll_mixedBatches, hnames, hincreasing, hself, fun r => ?_⟩
  have hedges : mixedRelease.edges = .ok mixedGraph.edges := by
    have hv : mixedRelease.config.validateOverrides mixedBatches.flatten = .ok () := by
      decide +kernel
    have ho : mixedRelease.config.overridesWithin mixedBatches.flatten =
        [⟨"DB.S.BASE", ["db.s.t"]⟩] := by
      decide +kernel
    have hlisting : mixedRelease.checkedListing = .ok mixedBatches.flatten := by
      simp only [Release.checkedListing, mixedRelease] at hv ⊢
      rw [hv]
    simp only [Release.edges, hlisting, ho, ofScripts_of_addAll addAll_mixedBatches]
  have hrecorded : (mixedRelease.createLineage r).2.toOption = some 2 := by
    rw [(Release.createLineage_spec _ _).2, hedges]
    have hlength := congrArg List.length hnames
    rw [List.length_map] at hlength
    exact congrArg some hlength
  obtain ⟨hsame, hresult, -⟩ := hlisted mixedRelease _ _ r rfl (List.reverse_perm _).symm
  exact ⟨hrecorded, hresult.trans hrecorded, hsame⟩

end DependencyGraph

end SchemaDeploy
