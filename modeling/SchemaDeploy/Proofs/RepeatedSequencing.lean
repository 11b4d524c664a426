import SchemaDeploy.Proofs.DeployRun

namespace SchemaDeploy.DependencyGraph

variable {g g' : DependencyGraph} {done ready order : List Nat} {i j : Nat}

theorem Midway.sublist_drain (hg : g.Wired) {fuel : Nat} (h : Midway g done ready)
    (hf : g.nodes.length ≤ done.length + fuel) :
    ready.Sublist (drain g.dependentsOf fuel ready (g.degrees done)) := by
  induction fuel generalizing done ready with
  | zero =>
      have hl := h.length_le
      have hr : ready = [] := List.length_eq_zero_iff.1 (by omega)
      subst hr
      exact List.nil_sublist _
  | succ fuel ih =>
      cases ready with
      | nil => exact List.nil_sublist _
      | cons i ready =>
          have hlen : (done ++ [i]).length = done.length + 1 := by simp
          rw [drain_cons hg h.next_unseen]
          exact ((List.sublist_append_right _ _).trans (ih (h.step hg) (by omega))).cons_cons i

theorem getElem?_scriptsAt (h : ∀ i ∈ order, i < g.nodes.length) (k : Nat) :
    (g.scriptsAt order)[k]? = order[k]?.bind (g.nodes[·]?) := by
  induction order generalizing k with
  | nil => rfl
  | cons i order ih =>
      obtain ⟨hi, horder⟩ := List.forall_mem_cons.1 h
      rw [scriptsAt_cons (List.getElem?_eq_getElem hi)]
      cases k with
      | zero => exact (List.getElem?_eq_getElem hi).symm
      | succ k => exact ih horder k

theorem map_idxOf_self (hn : order.Nodup) : order.map order.idxOf = List.range order.length := by
  apply List.ext_getElem (by simp)
  intro k hk _
  rw [List.length_map] at hk
  rw [List.getElem_map, List.getElem_range, hn.idxOf_getElem k hk]

theorem mem_map_idxOf {l : List Nat} (hl : l ⊆ order) : order.idxOf i ∈ l.map order.idxOf ↔ i ∈ l := by
  rw [List.mem_map]
  constructor
  · rintro ⟨j, hj, hji⟩
    rwa [← (List.idxOf_inj (hl hj)).1 hji]
  · exact fun h => ⟨i, h, rfl⟩

/-- Whether the places of an order, as the nodes of another graph, depend on each other as the nodes
in these places do. -/
structure Reorders (g : DependencyGraph) (order : List Nat) (g' : DependencyGraph) : Prop where
  sorts : g.Sorts order
  length_eq : g'.nodes.length = order.length
  dependsOn_iff : ∀ i ∈ order, ∀ j ∈ order,
    g'.DependsOn (order.idxOf i) (order.idxOf j) ↔ g.DependsOn i j

theorem Sorts.reorders (hg : g.Wired) (hg' : g'.Wired) (hs : g.Sorts order)
    (hn : g'.nodes = g.scriptsAt order) (ho : g'.overrides = g.overrides) :
    g.Reorders order g' := by
  have hnode {i : Nat} (hi : i ∈ order) : g'.nodes[order.idxOf i]? = g.nodes[i]? := by
    have hlt := List.idxOf_lt_length_of_mem hi
    rw [hn, getElem?_scriptsAt fun _ => hs.mem_iff.1, List.getElem?_eq_getElem hlt,
      List.getElem_idxOf hlt, Option.bind_some]
  refine ⟨hs, ?_, fun i hi j hj => ?_⟩
  · rw [hn, hs.scriptsAt_perm.length_eq, hs.perm.length_eq, List.length_range]
  · have hne : order.idxOf j ≠ order.idxOf i ↔ j ≠ i := not_congr (List.idxOf_inj hj)
    rw [hg'.dependsOn_iff, hg.dependsOn_iff, hnode hi, hnode hj, ho, hne]

namespace Reorders

variable (hr : g.Reorders order g')
include hr

theorem exists_place {k : Nat} (hk : k < g'.nodes.length) : ∃ i ∈ order, order.idxOf i = k := by
  rw [hr.length_eq] at hk
  exact ⟨order[k], List.getElem_mem hk, hr.sorts.nodup.idxOf_getElem k hk⟩

theorem eq_map_idxOf {places l : List Nat} (hplaces : places.Pairwise (· < ·))
    (hlt : ∀ k ∈ places, k < g'.nodes.length) (hl : l.Sublist order)
    (hm : ∀ i ∈ order, order.idxOf i ∈ places ↔ i ∈ l) : places = l.map order.idxOf := by
  have hincreasing : (l.map order.idxOf).Pairwise (· < ·) := by
    have hsub := hl.map order.idxOf
    rw [map_idxOf_self hr.sorts.nodup] at hsub
    exact List.pairwise_lt_range.sublist hsub
  refine hplaces.eq_of_mem_iff hincreasing fun k => ?_
  constructor
  · intro hk
    obtain ⟨i, hi, rfl⟩ := hr.exists_place (hlt k hk)
    exact List.mem_map_of_mem ((hm i hi).1 hk)
  · intro hk
    obtain ⟨i, hi, rfl⟩ := List.mem_map.1 hk
    exact (hm i (hl.subset hi)).2 hi

theorem forall_dependsOn_iff (hg : g.Wired) (hg' : g'.Wired) (hdone : done ⊆ order)
    (hi : i ∈ order) : (∀ k, g'.DependsOn (order.idxOf i) k → k ∈ done.map order.idxOf) ↔
      ∀ j, g.DependsOn i j → j ∈ done := by
  constructor
  · intro h j hj
    have hjo := hr.sorts.mem_iff.2 (hg.lt hj).2
    exact (mem_map_idxOf hdone).1 (h _ ((hr.dependsOn_iff i hi j hjo).2 hj))
  · intro h k hk
    obtain ⟨j, hj, rfl⟩ := hr.exists_place (hg'.lt hk).2
    exact (mem_map_idxOf hdone).2 (h j ((hr.dependsOn_iff i hi j hj).1 hk))

theorem freed_eq (hg : g.Wired) (hg' : g'.Wired) (hnext : done ++ [i] ⊆ order)
    (hfreed : (g.freed done i).Sublist order) :
    g'.freed (done.map order.idxOf) (order.idxOf i) = (g.freed done i).map order.idxOf := by
  have hi : i ∈ order := hnext (by simp)
  refine hr.eq_map_idxOf ((List.pairwise_lt_range.filter _).filter _)
    (fun k hk => (hg'.lt ((mem_freed hg').1 hk).1).1) hfreed fun j hj => ?_
  have hlast : done.map order.idxOf ++ [order.idxOf i] = (done ++ [i]).map order.idxOf := by simp
  rw [mem_freed hg', mem_freed hg, hr.dependsOn_iff j hj i hi, hlast,
    hr.forall_dependsOn_iff hg hg' hnext hj]

theorem drain_eq (hg : g.Wired) (hg' : g'.Wired) {fuel : Nat} (h : Midway g done ready)
    (horder : done ++ drain g.dependentsOf fuel ready (g.degrees done) = order)
    (hf : g.nodes.length ≤ done.length + fuel) :
    drain g'.dependentsOf fuel (ready.map order.idxOf) (g'.degrees (done.map order.idxOf)) =
      (drain g.dependentsOf fuel ready (g.degrees done)).map order.idxOf := by
  induction fuel generalizing done ready with
  | zero => rfl
  | succ fuel ih =>
      cases ready with
      | nil => rfl
      | cons i ready =>
          have hlen : (done ++ [i]).length = done.length + 1 := by simp
          rw [drain_cons hg h.next_unseen, List.append_cons] at horder
          have hnext : done ++ [i] ⊆ order := horder ▸ List.subset_append_left _ _
          have hunseen : order.idxOf i ∉ done.map order.idxOf := by
            rw [mem_map_idxOf (List.append_subset.1 hnext).1]
            exact h.next_unseen
          have hfreed : (g.freed done i).Sublist order := by
            have hwaits : (g.freed done i ++ ready).Sublist (drain g.dependentsOf fuel _ _) :=
              (h.step hg).sublist_drain hg (by omega)
            rw [← horder]
            exact (List.sublist_append_left _ _).trans
              (hwaits.trans (List.sublist_append_right _ _))
          have hrest := ih (h.step hg) horder (by omega)
          rw [List.map_append, List.map_append, List.map_singleton,
            ← hr.freed_eq hg hg' hnext hfreed] at hrest
          rw [List.map_cons, drain_cons hg' hunseen, hrest, drain_cons hg h.next_unseen,
            List.map_cons]

theorem sequenced_eq (hg : g.Wired) (hg' : g'.Wired) (horder : g.sequenced = order) :
    g'.sequenced = List.range order.length := by
  have hlength : g'.nodes.length = g.nodes.length := by
    rw [hr.length_eq, hr.sorts.perm.length_eq, List.length_range]
  have hrun : g.sequenced = drain g.dependentsOf g.nodes.length g.initial (g.degrees []) :=
    sequenced_eq_drain hg
  have hinitial : g.initial.Sublist order := by
    rw [← horder, hrun]
    exact midway_start.sublist_drain hg (Nat.le_add_left _ _)
  have hplaces : g'.initial = g.initial.map order.idxOf := by
    refine hr.eq_map_idxOf (List.pairwise_lt_range.filter _) (fun k hk => ?_) hinitial
      fun i hi => ?_
    · exact ((midway_start.mem_iff k).1 hk).1
    · have hi' : order.idxOf i < g'.nodes.length := by
        rw [hr.length_eq]
        exact List.idxOf_lt_length_of_mem hi
      have hwaits := hr.forall_dependsOn_iff hg hg' (List.nil_subset order) hi
      have hplace := midway_start.mem_iff (g := g') (order.idxOf i)
      have hnode := midway_start.mem_iff (g := g) i
      rw [List.nil_append] at hplace hnode
      exact (hplace.trans (and_iff_right hi')).trans
        (hwaits.trans (hnode.trans (and_iff_right (hr.sorts.mem_iff.1 hi))).symm)
  have hall := hr.drain_eq hg hg' midway_start ((List.nil_append _).trans (hrun.symm.trans horder))
    (Nat.le_add_left _ _)
  rw [List.map_nil, ← hrun, horder, map_idxOf_self hr.sorts.nodup] at hall
  rw [sequenced_eq_drain hg', hlength, hplaces, hall]

end Reorders

/-- Scripts in deployment order can be added again, with the same overrides, and sequencing them leaves
each of them in its place. -/
theorem sorted_of_sorted (overrides : List Override) (scripts p : List Script) (g : DependencyGraph)
    (h : ofScripts overrides scripts = .ok g) (hp : g.sorted = .ok p) :
    ∃ g', ofScripts overrides p = .ok g' ∧ g'.order = .ok (List.range p.length) ∧
      g'.sorted = .ok p := by
  obtain ⟨hg, hn, ho⟩ := ofScripts_spec h
  obtain ⟨order, horder, rfl⟩ := sorted_eq_ok_iff.1 hp
  obtain ⟨hsequenced, -⟩ := order_eq_ok_iff.1 horder
  have hs := sorts_of_order hg horder
  have hresolved : Override.Resolved overrides (g.scriptsAt order) := by
    have hbefore := ofScripts_ok_iff.1 ⟨g, h⟩
    have hmem (s : Script) : s ∈ g.scriptsAt order ↔ s ∈ scripts :=
      hs.scriptsAt_perm.mem_iff.trans (by rw [hn])
    simpa only [Override.Resolved, hmem] using hbefore
  obtain ⟨g', h'⟩ := ofScripts_ok_iff.2 hresolved
  obtain ⟨hg', hn', ho'⟩ := ofScripts_spec h'
  have hr := hs.reorders hg hg' hn' (ho'.trans ho.symm)
  have hlength : (g.scriptsAt order).length = order.length := by
    rw [← hn', hr.length_eq]
  have horder' : g'.order = .ok (List.range (g.scriptsAt order).length) := by
    rw [order_eq_ok_iff, hr.sequenced_eq hg hg' hsequenced, hlength, hr.length_eq]
    exact ⟨rfl, List.length_range⟩
  refine ⟨g', h', horder', sorted_eq_ok_iff.2 ⟨_, horder', ?_⟩⟩
  rw [← hn', scriptsAt, filterMap_getElem?_range]

theorem sorted_of_sorted_mixed :
    ∃ g p, ofScripts [⟨"DB.S.BASE", ["db.s.t"]⟩] mixedBatches.flatten = .ok g ∧
      g.sorted = .ok p ∧ p.map Script.id = ["DB.S.T:0", "DB.S.T:1", "DB.S.BASE", "DB.S.TOP"] ∧
      ∃ g', ofScripts [⟨"DB.S.BASE", ["db.s.t"]⟩] p = .ok g' ∧
        g'.order = .ok (List.range p.length) ∧ g'.sorted = .ok p := by
  have h : ofScripts [⟨"DB.S.BASE", ["db.s.t"]⟩] mixedBatches.flatten = .ok mixedGraph :=
    ofScripts_of_addAll addAll_mixedBatches
  have hp : mixedGraph.sorted = .ok (mixedGraph.scriptsAt [3, 1, 2, 0]) :=
    sorted_eq_ok_iff.2 ⟨_, order_mixedGraph, rfl⟩
  exact ⟨_, _, h, hp, by decide +kernel, sorted_of_sorted _ _ _ _ h hp⟩

end SchemaDeploy.DependencyGraph
