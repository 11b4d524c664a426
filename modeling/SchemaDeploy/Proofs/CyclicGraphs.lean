import SchemaDeploy.Proofs.Sequencing

namespace SchemaDeploy.DependencyGraph

variable {g : DependencyGraph} {order : List Nat} {i : Nat}

def leftover (g : DependencyGraph) (order : List Nat) : List Nat :=
  (List.range g.nodes.length).filter fun i => !order.contains i

/-- The dependencies of a node that a sequence leaves over. -/
def blocking (g : DependencyGraph) (order : List Nat) (i : Nat) : List Nat :=
  (g.dependenciesOf i).filter fun j => !order.contains j

theorem stuck_eq : g.stuck order =
    (g.leftover order).map fun i => ⟨g.idAt i, (g.blocking order i).map g.idAt⟩ :=
  rfl

theorem Midway.not_reachesCycle (h : Midway g order []) (hi : i ∈ order) : ¬ g.ReachesCycle i := by
  rintro ⟨k, hik, hk⟩
  have hkm : k ∈ order := by
    rcases Relation.reflTransGen_iff_eq_or_transGen.1 hik with rfl | ht
    · exact hi
    · exact (idxOf_lt_of_transGen h.after hi ht).1
  exact Nat.lt_irrefl _ (idxOf_lt_of_transGen h.after hkm hk).2

theorem Midway.not_mem_iff (hg : g.Wired) (h : Midway g order []) (hi : i < g.nodes.length) :
    i ∉ order ↔ g.ReachesCycle i := by
  constructor
  · intro hm
    by_contra hc
    exact hm (h.mem_of_acc hg (acc_of_not_reachesCycle hg hc) hi)
  · exact fun hc hm => h.not_reachesCycle hm hc

theorem Midway.mem_leftover (hg : g.Wired) (h : Midway g order []) :
    i ∈ g.leftover order ↔ i < g.nodes.length ∧ g.ReachesCycle i := by
  simp only [leftover, List.mem_filter, List.mem_range, Bool.not_eq_true', List.contains_eq_mem,
    decide_eq_false_iff_not]
  exact and_congr_right (h.not_mem_iff hg)

theorem Midway.mem_blocking (hg : g.Wired) (h : Midway g order []) {j : Nat} :
    j ∈ g.blocking order i ↔ g.DependsOn i j ∧ g.ReachesCycle j := by
  simp only [blocking, List.mem_filter, Bool.not_eq_true', List.contains_eq_mem,
    decide_eq_false_iff_not]
  exact and_congr_right fun hd => h.not_mem_iff hg (hg.lt hd).2

theorem ReachesCycle.exists_dependsOn (h : g.ReachesCycle i) :
    ∃ j, g.DependsOn i j ∧ g.ReachesCycle j := by
  obtain ⟨k, hik, hk⟩ := h
  have hnext : Relation.TransGen g.DependsOn i k := hk.trans_right hik
  obtain ⟨j, hd, hjk⟩ := Relation.TransGen.head'_iff.1 hnext
  exact ⟨j, hd, k, hjk, hk⟩

/-- A graph with a cycle cannot be sequenced. The error lists, in increasing order, the nodes from which
a cycle can be reached, each with those of its dependencies from which one can be reached too, in
increasing order; there is always such a dependency. -/
theorem order_of_cyclic (overrides : List Override) (batches : List (List Script))
    (g : DependencyGraph) (h : (empty overrides).addAll batches = .ok g) (hc : ¬ g.Acyclic) :
    ∃ (left : List Nat) (blocking : Nat → List Nat),
      g.order = .error (.cyclicDependency
        (left.map fun i => ⟨g.idAt i, (blocking i).map g.idAt⟩)) ∧
      left.Pairwise (· < ·) ∧ (∀ i, i ∈ left ↔ i < g.nodes.length ∧ g.ReachesCycle i) ∧
      ∀ i ∈ left, (blocking i).Pairwise (· < ·) ∧
        (∀ j, j ∈ blocking i ↔ g.DependsOn i j ∧ g.ReachesCycle j) ∧ blocking i ≠ [] := by
  obtain ⟨hg, -, -⟩ := addAll_spec (wired_empty overrides) h
  have hm := (sequenced_spec hg).2
  refine ⟨g.leftover g.sequenced, g.blocking g.sequenced, ?_, List.pairwise_lt_range.filter _,
    fun i => hm.mem_leftover hg, fun i hi => ⟨(hg.increasing i).filter _,
      fun j => hm.mem_blocking hg, ?_⟩⟩
  · have hlength : g.sequenced.length ≠ g.nodes.length := fun hl =>
      hc ((exists_order_iff hg).1 ⟨_, order_eq_ok_iff.2 ⟨rfl, hl⟩⟩)
    simp only [DependencyGraph.order, if_neg hlength, stuck_eq]
  · obtain ⟨j, hd, hj⟩ := ((hm.mem_leftover hg).1 hi).2.exists_dependsOn
    exact List.ne_nil_of_mem ((hm.mem_blocking hg).2 ⟨hd, hj⟩)

/-- Two views that need each other, one of which needs a third one, and a view on top. -/
def cyclicBatches : List (List Script) :=
  [[.state "DB" "S" .view "ROOT" "CREATE VIEW ROOT AS SELECT 1",
      .state "DB" "S" .view "A" "CREATE VIEW A AS SELECT * FROM B"],
    [.state "DB" "S" .view "B" "CREATE VIEW B AS SELECT * FROM A JOIN ROOT ON TRUE",
      .state "DB" "S" .view "TOP" "CREATE VIEW TOP AS SELECT * FROM A JOIN ROOT ON TRUE"]]

def cyclicGraph : DependencyGraph :=
  ⟨[], cyclicBatches.flatten, [[], [2], [0, 1], [0, 1]]⟩

theorem not_acyclic_cyclicGraph : ¬ cyclicGraph.Acyclic := by
  intro ha
  have hab : cyclicGraph.DependsOn 1 2 := List.mem_singleton_self 2
  have hba : cyclicGraph.DependsOn 2 1 := List.mem_cons_of_mem 0 (List.mem_singleton_self 1)
  exact ha 1 (.tail (.single hab) hba)

theorem order_of_cyclicBatches :
    ∃ g, (empty []).addAll cyclicBatches = .ok g ∧ g.nodes.length = 4 ∧ ¬ g.Acyclic ∧
      g.order = .error (.cyclicDependency
        [⟨"DB.S.A", ["DB.S.B"]⟩, ⟨"DB.S.B", ["DB.S.A"]⟩, ⟨"DB.S.TOP", ["DB.S.A"]⟩]) ∧
      ∃ (left : List Nat) (blocking : Nat → List Nat),
        g.order = .error (.cyclicDependency
          (left.map fun i => ⟨g.idAt i, (blocking i).map g.idAt⟩)) ∧
        ∀ i, i ∈ left ↔ i < g.nodes.length ∧ g.ReachesCycle i := by
  have h : (empty []).addAll cyclicBatches = .ok cyclicGraph := addAll_eq_ok (by decide +kernel)
  have hstuck : cyclicGraph.stuck cyclicGraph.sequenced =
      [⟨"DB.S.A", ["DB.S.B"]⟩, ⟨"DB.S.B", ["DB.S.A"]⟩, ⟨"DB.S.TOP", ["DB.S.A"]⟩] := by
    decide +kernel
  have hlength : cyclicGraph.sequenced.length ≠ cyclicGraph.nodes.length := by decide
  obtain ⟨left, blocking, horder, -, hleft, -⟩ := order_of_cyclic _ _ _ h not_acyclic_cyclicGraph
  refine ⟨_, h, rfl, not_acyclic_cyclicGraph, ?_, left, blocking, horder, hleft⟩
  simp only [DependencyGraph.order, if_neg hlength, hstuck]

end SchemaDeploy.DependencyGraph
