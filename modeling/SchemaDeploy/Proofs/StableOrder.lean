import SchemaDeploy.Proofs.Sequencing

namespace SchemaDeploy.DependencyGraph

variable {g : DependencyGraph} {done ready order : List Nat} {i j : Nat}

theorem drain_induction (hg : g.Wired) {P : List Nat → List Nat → Prop}
    (hstep : ∀ done i ready, Midway g done (i :: ready) → P done (i :: ready) →
      P (done ++ [i]) (g.freed done i ++ ready))
    {fuel : Nat} (h : Midway g done ready) (hP : P done ready)
    (hf : g.nodes.length ≤ done.length + fuel) :
    P (done ++ drain g.dependentsOf fuel ready (g.degrees done)) [] := by
  induction fuel generalizing done ready with
  | zero =>
      have hl := h.length_le
      have hr : ready = [] := List.length_eq_zero_iff.1 (by omega)
      subst hr
      simpa [drain] using hP
  | succ fuel ih =>
      cases ready with
      | nil => simpa [drain] using hP
      | cons i ready =>
          have hlen : (done ++ [i]).length = done.length + 1 := by simp
          have hrest := ih (h.step hg) (hstep done i ready h hP) (by omega)
          rw [drain_cons hg h.next_unseen]
          rwa [List.append_assoc] at hrest

def KeepsOrder (g : DependencyGraph) (l : List Nat) : Prop :=
  l.Pairwise fun i j => g.dependenciesOf i = g.dependenciesOf j → i < j

theorem keepsOrder_of_increasing {l : List Nat} (h : l.Pairwise (· < ·)) : g.KeepsOrder l := by
  refine List.Pairwise.imp ?_ h
  intro i j hlt _
  exact hlt

theorem KeepsOrder.step (hg : g.Wired) (h : Midway g done (i :: ready))
    (hk : g.KeepsOrder (done ++ i :: ready)) :
    g.KeepsOrder (done ++ [i] ++ (g.freed done i ++ ready)) := by
  have hfreed {j k : Nat} (hj : j ∈ g.freed done i) (hk : k ∈ done ++ i :: ready) :
      g.dependenciesOf j ≠ g.dependenciesOf k := by
    intro he
    have hki : g.DependsOn k i := by
      have hji := ((mem_freed hg).1 hj).1
      rwa [DependsOn, he] at hji
    exact h.next_unseen (((h.mem_iff k).1 hk).2 i hki)
  have hincreasing : g.KeepsOrder (g.freed done i) :=
    keepsOrder_of_increasing ((List.pairwise_lt_range.filter _).filter _)
  have hold : g.KeepsOrder (done ++ [i] ++ ready) := by
    rwa [List.append_assoc]
  rw [KeepsOrder, List.pairwise_append] at hold ⊢
  obtain ⟨hbefore, hready, hcross⟩ := hold
  refine ⟨hbefore, List.pairwise_append.2 ⟨hincreasing, hready, fun j hj k hk he => ?_⟩,
    fun j hj k hk he => ?_⟩
  · exact absurd he (hfreed hj (by simp [hk]))
  · rcases List.mem_append.1 hk with hk | hk
    · exact absurd he.symm (hfreed hk (by simp at hj ⊢; tauto))
    · exact hcross j hj k hk he

theorem keepsOrder_sequenced (hg : g.Wired) : g.KeepsOrder g.sequenced := by
  have hstart : g.KeepsOrder ([] ++ g.initial) :=
    keepsOrder_of_increasing (List.pairwise_lt_range.filter _)
  have hend := drain_induction (P := fun done ready => g.KeepsOrder (done ++ ready)) hg
    (fun _ _ _ h hk => hk.step hg h) midway_start hstart (Nat.le_add_left _ _)
  rw [sequenced_eq_drain hg]
  simpa using hend

theorem KeepsOrder.pair_sublist {l : List Nat} (hk : g.KeepsOrder l) (hi : i ∈ l) (hj : j ∈ l)
    (hij : i < j) (hd : g.dependenciesOf i = g.dependenciesOf j) : [i, j].Sublist l := by
  obtain ⟨p, q, rfl⟩ := List.append_of_mem hj
  obtain ⟨-, htail, -⟩ := List.pairwise_append.1 hk
  rcases List.mem_append.1 hi with hp | hq
  · have hfront : [i].Sublist p := List.singleton_sublist.2 hp
    exact hfront.append (List.singleton_sublist.2 List.mem_cons_self)
  · rcases List.mem_cons.1 hq with rfl | hq
    · exact absurd hij (Nat.lt_irrefl _)
    · have hlt := (List.pairwise_cons.1 htail).1 i hq hd.symm
      omega

/-- The deployment order is stable. Of two nodes with the same dependencies the one added first comes
first, and the nodes without dependencies stand in the order in which they were added. -/
theorem sublist_order_of_dependenciesOf_eq (overrides : List Override) (batches : List (List Script))
    (g : DependencyGraph) (order : List Nat) (h : (empty overrides).addAll batches = .ok g)
    (ho : g.order = .ok order) :
    (∀ i j, i < j → j < g.nodes.length → g.dependenciesOf i = g.dependenciesOf j →
      [i, j].Sublist order) ∧
    (order.filter fun i => (g.dependenciesOf i).isEmpty) =
      (List.range g.nodes.length).filter fun i => (g.dependenciesOf i).isEmpty := by
  obtain ⟨hg, -, -⟩ := addAll_spec (wired_empty overrides) h
  have hsorts := sorts_of_order hg ho
  have hkeeps : g.KeepsOrder order := by
    obtain ⟨rfl, -⟩ := order_eq_ok_iff.1 ho
    exact keepsOrder_sequenced hg
  constructor
  · intro i j hij hj hd
    exact hkeeps.pair_sublist (hsorts.mem_iff.2 (hij.trans hj)) (hsorts.mem_iff.2 hj) hij hd
  · have hperm := hsorts.perm.filter fun i => (g.dependenciesOf i).isEmpty
    have hincreasing : (order.filter fun i => (g.dependenciesOf i).isEmpty).Pairwise (· < ·) := by
      rw [List.pairwise_filter]
      refine hkeeps.imp fun hlt hi hj => hlt ?_
      rw [List.isEmpty_iff.1 hi, List.isEmpty_iff.1 hj]
    exact hincreasing.eq_of_mem_iff (List.pairwise_lt_range.filter _) fun _ => hperm.mem_iff

def siblingBatches : List (List Script) :=
  [[.state "DB" "S" .view "B" "CREATE VIEW B AS SELECT * FROM BASE",
      .state "DB" "S" .view "ALONE" "CREATE VIEW ALONE AS SELECT 1"],
    [.state "DB" "S" .view "A" "CREATE VIEW A AS SELECT * FROM BASE",
      .state "DB" "S" .view "BASE" "CREATE VIEW BASE AS SELECT 1"]]

def siblingGraph : DependencyGraph :=
  ⟨[], siblingBatches.flatten, [[3], [], [3], []]⟩

theorem sublist_order_of_siblingBatches :
    ∃ g, (empty []).addAll siblingBatches = .ok g ∧ g.order = .ok [1, 3, 0, 2] ∧
      g.dependenciesOf 0 = [3] ∧ g.dependenciesOf 2 = [3] ∧ [0, 2].Sublist [1, 3, 0, 2] ∧
      ([1, 3, 0, 2].filter fun i => (g.dependenciesOf i).isEmpty) = [1, 3] := by
  have h : (empty []).addAll siblingBatches = .ok siblingGraph := addAll_eq_ok (by decide +kernel)
  have ho : siblingGraph.order = .ok [1, 3, 0, 2] := order_eq_ok_iff.2 (by decide)
  obtain ⟨hpairs, halone⟩ := sublist_order_of_dependenciesOf_eq _ _ _ _ h ho
  exact ⟨_, h, ho, rfl, rfl, hpairs 0 2 (by decide) (by decide) rfl, halone⟩

end SchemaDeploy.DependencyGraph
