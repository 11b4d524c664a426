import SchemaDeploy.Proofs.Wiring
import Mathlib.Data.List.Perm.Subperm
import Mathlib.Order.WellFoundedSet

namespace SchemaDeploy.DependencyGraph

variable {g : DependencyGraph}

/-- No node depends on itself, be it through others. -/
def Acyclic (g : DependencyGraph) : Prop :=
  ∀ i, ¬ Relation.TransGen g.DependsOn i i

/-- Every position once, after those of its dependencies. -/
structure Sorts (g : DependencyGraph) (order : List Nat) : Prop where
  perm : order.Perm (List.range g.nodes.length)
  after : ∀ p i q, order = p ++ i :: q → ∀ j, g.DependsOn i j → j ∈ p

/-- Counts a dependency off at one dependent, which becomes ready with the last one. There is no
result if the dependent has none left to count off. -/
def countOff? : List Nat × List Nat → Nat → Option (List Nat × List Nat)
  | (ready, degree), j =>
    match degree[j]? with
    | some (d + 1) => some (if d = 0 then j :: ready else ready, degree.set j d)
    | _ => none

/-- `drain` by single steps that are checked, with the last dependent first. It has no result either
if the fuel is used up before the ready nodes are. -/
def drain? (dependents : Nat → List Nat) : Nat → List Nat → List Nat → Option (List Nat)
  | _, [], _ => some []
  | 0, _ :: _, _ => none
  | fuel + 1, i :: ready, degree => do
    let (ready, degree) ← (dependents i).reverse.foldlM countOff? (ready, degree)
    let rest ← drain? dependents fuel ready degree
    return i :: rest

def sequenced? (g : DependencyGraph) : Option (List Nat) :=
  let n := g.nodes.length
  let degree := g.dependencies.map List.length
  drain? g.dependentsOf n ((List.range n).filter fun i => degree[i]? == some 0) degree

def remaining (g : DependencyGraph) (done : List Nat) (i : Nat) : Nat :=
  (g.dependenciesOf i).countP fun j => !done.contains j

def degrees (g : DependencyGraph) (done : List Nat) : List Nat :=
  (List.range g.nodes.length).map (g.remaining done)

def initial (g : DependencyGraph) : List Nat :=
  (List.range g.nodes.length).filter fun i => (g.degrees [])[i]? == some 0

def freed (g : DependencyGraph) (done : List Nat) (i : Nat) : List Nat :=
  (g.dependentsOf i).filter fun j => (g.degrees (done ++ [i]))[j]? == some 0

theorem mem_dependentsOf (hg : g.Wired) {i j : Nat} : j ∈ g.dependentsOf i ↔ g.DependsOn j i := by
  simp only [dependentsOf, List.mem_filter, List.mem_range, List.contains_iff_mem]
  exact and_iff_right_of_imp fun h => (hg.lt h).1

theorem nodup_dependentsOf (i : Nat) : (g.dependentsOf i).Nodup :=
  List.nodup_range.filter _

theorem getElem?_degrees (done : List Nat) {i : Nat} (hi : i < g.nodes.length) :
    (g.degrees done)[i]? = some (g.remaining done i) := by
  simp [degrees, hi]

theorem remaining_eq_zero_iff {done : List Nat} {i : Nat} :
    g.remaining done i = 0 ↔ ∀ j, g.DependsOn i j → j ∈ done := by
  simp [remaining, DependsOn, List.countP_eq_zero]

theorem countP_concat {l done : List Nat} (hl : l.Nodup) {i : Nat} (hi : i ∉ done) :
    l.countP (fun j => !done.contains j) =
      l.countP (fun j => !(done ++ [i]).contains j) + if i ∈ l then 1 else 0 := by
  induction l with
  | nil => rfl
  | cons a l ih =>
      obtain ⟨ha, hl⟩ := List.nodup_cons.1 hl
      rw [List.countP_cons, List.countP_cons, ih hl]
      by_cases hai : a = i
      · subst a
        simp [hi, ha]
      · by_cases had : a ∈ done <;> simp [hai, had, Ne.symm hai]
        omega

theorem remaining_concat (hg : g.Wired) {done : List Nat} {i : Nat} (hi : i ∉ done) (j : Nat) :
    g.remaining (done ++ [i]) j =
      if j ∈ g.dependentsOf i then g.remaining done j - 1 else g.remaining done j := by
  have h := countP_concat (hg.nodup j) hi
  have hm : j ∈ g.dependentsOf i ↔ i ∈ g.dependenciesOf j := mem_dependentsOf hg
  rw [remaining, remaining, h]
  by_cases hj : i ∈ g.dependenciesOf j <;> simp [hm, hj]

theorem getElem?_foldl_modify {js : List Nat} (hn : js.Nodup) (degree : List Nat) (k : Nat) :
    (js.foldl (fun d j => d.modify j (· - 1)) degree)[k]? =
      if k ∈ js then degree[k]?.map (· - 1) else degree[k]? := by
  induction js generalizing degree with
  | nil => rfl
  | cons j js ih =>
      obtain ⟨hj, hjs⟩ := List.nodup_cons.1 hn
      rw [List.foldl_cons, ih hjs, List.getElem?_modify]
      by_cases hk : k = j
      · subst k
        simp [hj]
      · simp [hk, Ne.symm hk]

theorem foldl_modify_degrees (hg : g.Wired) {done : List Nat} {i : Nat} (hi : i ∉ done)
    {js : List Nat} (hn : js.Nodup) (hm : ∀ j, j ∈ js ↔ j ∈ g.dependentsOf i) :
    js.foldl (fun d j => d.modify j (· - 1)) (g.degrees done) = g.degrees (done ++ [i]) := by
  apply List.ext_getElem?
  intro k
  rw [getElem?_foldl_modify hn]
  simp only [hm]
  by_cases hk : k < g.nodes.length
  · rw [getElem?_degrees _ hk, getElem?_degrees _ hk, remaining_concat hg hi]
    split <;> rfl
  · have hnone (d : List Nat) : (g.degrees d)[k]? = none := by
      simp [degrees, Nat.not_lt.1 hk]
    rw [hnone, hnone]
    split <;> rfl

theorem foldlM_countOff? {js : List Nat} (hn : js.Nodup) (ready degree : List Nat)
    (hd : ∀ j ∈ js, ∃ d, degree[j]? = some (d + 1)) :
    js.foldlM countOff? (ready, degree) =
      some ((js.filter fun j => degree[j]? == some 1).reverse ++ ready,
        js.foldl (fun d j => d.modify j (· - 1)) degree) := by
  induction js generalizing ready degree with
  | nil => rfl
  | cons j js ih =>
      obtain ⟨hj, hjs⟩ := List.nodup_cons.1 hn
      obtain ⟨⟨d, hdj⟩, htail⟩ := List.forall_mem_cons.1 hd
      have hset : degree.set j d = degree.modify j (· - 1) := by
        simp [List.modify_eq_set_getElem?, hdj]
      have hother (k : Nat) (hk : k ∈ js) : (degree.modify j (· - 1))[k]? = degree[k]? := by
        have hne : j ≠ k := fun h => hj (h ▸ hk)
        simp [hne]
      have hstep : countOff? (ready, degree) j =
          some (if d = 0 then j :: ready else ready, degree.modify j (· - 1)) := by
        simp [countOff?, hdj, hset]
      rw [List.foldlM_cons, hstep]
      change js.foldlM countOff? _ = _
      rw [ih hjs _ _ fun k hk => by rw [hother k hk]; exact htail k hk]
      have hfilter : (js.filter fun k => (degree.modify j (· - 1))[k]? == some 1) =
          js.filter fun k => degree[k]? == some 1 :=
        List.filter_congr fun k hk => by rw [hother k hk]
      rw [hfilter, List.foldl_cons, List.filter_cons, hdj]
      by_cases h0 : d = 0 <;> simp [h0]

/-- Between two steps: `done` are the nodes counted off so far, in their order, and `ready` those
that can be next. -/
structure Midway (g : DependencyGraph) (done ready : List Nat) : Prop where
  nodup : (done ++ ready).Nodup
  mem_iff : ∀ i, i ∈ done ++ ready ↔ i < g.nodes.length ∧ ∀ j, g.DependsOn i j → j ∈ done
  after : ∀ p i q, done = p ++ i :: q → ∀ j, g.DependsOn i j → j ∈ p

theorem Midway.next_unseen {done ready : List Nat} {i : Nat} (h : Midway g done (i :: ready)) :
    i ∉ done := by
  intro hi
  have hd := List.disjoint_of_nodup_append h.nodup
  exact hd hi List.mem_cons_self

theorem mem_freed (hg : g.Wired) {done : List Nat} {i j : Nat} :
    j ∈ g.freed done i ↔ g.DependsOn j i ∧ ∀ k, g.DependsOn j k → k ∈ done ++ [i] := by
  rw [freed, List.mem_filter, mem_dependentsOf hg]
  apply and_congr_right
  intro hd
  rw [getElem?_degrees _ (hg.lt hd).1, beq_iff_eq, Option.some.injEq, remaining_eq_zero_iff]

theorem after_concat {done : List Nat} {i : Nat}
    (ha : ∀ p k q, done = p ++ k :: q → ∀ j, g.DependsOn k j → j ∈ p)
    (hi : ∀ j, g.DependsOn i j → j ∈ done) :
    ∀ p k q, done ++ [i] = p ++ k :: q → ∀ j, g.DependsOn k j → j ∈ p := by
  intro p k q he j hj
  rcases List.eq_nil_or_concat q with rfl | ⟨q, c, rfl⟩
  · obtain ⟨rfl, hk⟩ := List.append_inj' he rfl
    cases hk
    exact hi j hj
  · have hs : done ++ [i] = (p ++ k :: q) ++ [c] := by simpa using he
    exact ha p k q (List.append_inj' hs rfl).1 j hj

theorem Midway.step (hg : g.Wired) {done ready : List Nat} {i : Nat}
    (h : Midway g done (i :: ready)) : Midway g (done ++ [i]) (g.freed done i ++ ready) := by
  have hi := h.next_unseen
  have hready : ∀ j, g.DependsOn i j → j ∈ done :=
    ((h.mem_iff i).1 (List.mem_append_right _ List.mem_cons_self)).2
  have hfresh (j : Nat) (hj : g.DependsOn j i) : j ∉ done ++ i :: ready := fun hm =>
    hi (((h.mem_iff j).1 hm).2 i hj)
  refine ⟨?_, fun j => ?_, after_concat h.after hready⟩
  · have hperm : (done ++ [i] ++ (g.freed done i ++ ready)).Perm
        (g.freed done i ++ (done ++ i :: ready)) := by
      rw [List.append_assoc]
      apply (List.perm_append_comm_assoc done [i] _).trans
      apply ((List.perm_append_comm_assoc _ _ _).append_left [i]).trans
      apply (List.perm_append_comm_assoc [i] _ _).trans
      apply List.Perm.append_left
      exact List.perm_append_comm_assoc [i] done ready
    rw [hperm.nodup_iff, List.nodup_append]
    refine ⟨(nodup_dependentsOf i).filter _, h.nodup, fun a ha b hb hab => ?_⟩
    subst hab
    exact hfresh a ((mem_freed hg).1 ha).1 hb
  · have hold := h.mem_iff j
    constructor
    · intro hj
      have hcases : j ∈ done ++ i :: ready ∨ j ∈ g.freed done i := by
        simp only [List.mem_append, List.mem_cons, List.not_mem_nil, or_false] at hj ⊢
        tauto
      rcases hcases with hj | hj
      · obtain ⟨hlt, hd⟩ := hold.1 hj
        exact ⟨hlt, fun k hk => List.mem_append_left _ (hd k hk)⟩
      · obtain ⟨hji, hd⟩ := (mem_freed hg).1 hj
        exact ⟨(hg.lt hji).1, hd⟩
    · rintro ⟨hlt, hd⟩
      by_cases hji : g.DependsOn j i
      · have hf := (mem_freed hg).2 ⟨hji, hd⟩
        simp [hf]
      · have hj : j ∈ done ++ i :: ready := by
          refine hold.2 ⟨hlt, fun k hk => ?_⟩
          rcases List.mem_append.1 (hd k hk) with hk' | hk'
          · exact hk'
          · cases List.mem_singleton.1 hk'
            exact absurd hk hji
        simp only [List.mem_append, List.mem_cons, List.not_mem_nil, or_false] at hj ⊢
        tauto

theorem Midway.length_le {done ready : List Nat} (h : Midway g done ready) :
    done.length + ready.length ≤ g.nodes.length := by
  rw [← List.length_append, ← List.length_range (n := g.nodes.length)]
  refine (h.nodup.subperm fun i hi => ?_).length_le
  exact List.mem_range.2 ((h.mem_iff i).1 hi).1

theorem foldlM_dependentsOf (hg : g.Wired) {done ready : List Nat} {i : Nat} (hi : i ∉ done) :
    (g.dependentsOf i).reverse.foldlM countOff? (ready, g.degrees done) =
      some (g.freed done i ++ ready, g.degrees (done ++ [i])) := by
  have hn : (g.dependentsOf i).reverse.Nodup := List.nodup_reverse.2 (nodup_dependentsOf i)
  have hpos (j : Nat) (hj : j ∈ g.dependentsOf i) :
      (g.degrees done)[j]? = some (g.remaining (done ++ [i]) j + 1) := by
    have hd := (mem_dependentsOf hg).1 hj
    have hne : g.remaining done j ≠ 0 := fun h0 => hi (remaining_eq_zero_iff.1 h0 i hd)
    rw [getElem?_degrees _ (hg.lt hd).1, remaining_concat hg hi, if_pos hj,
      Nat.sub_add_cancel (Nat.pos_of_ne_zero hne)]
  rw [foldlM_countOff? hn ready _ fun j hj => ⟨_, hpos j (List.mem_reverse.1 hj)⟩,
    foldl_modify_degrees hg hi hn fun j => List.mem_reverse, List.filter_reverse,
    List.reverse_reverse, freed]
  congr 3
  apply List.filter_congr
  intro j hj
  rw [hpos j hj, getElem?_degrees _ (hg.lt ((mem_dependentsOf hg).1 hj)).1]
  simp

theorem drain_cons (hg : g.Wired) {done : List Nat} {i : Nat} (hi : i ∉ done) (fuel : Nat)
    (ready : List Nat) : drain g.dependentsOf (fuel + 1) (i :: ready) (g.degrees done) =
      i :: drain g.dependentsOf fuel (g.freed done i ++ ready) (g.degrees (done ++ [i])) := by
  simp only [drain, foldl_modify_degrees hg hi (nodup_dependentsOf i) fun _ => Iff.rfl]
  rfl

/-- With fuel for all nodes that are left, the loop ends without a check failing, and what it has
then sequenced leaves nothing ready. -/
theorem drain_spec (hg : g.Wired) {fuel : Nat} {done ready : List Nat} (h : Midway g done ready)
    (hf : g.nodes.length ≤ done.length + fuel) :
    drain? g.dependentsOf fuel ready (g.degrees done) =
        some (drain g.dependentsOf fuel ready (g.degrees done)) ∧
      Midway g (done ++ drain g.dependentsOf fuel ready (g.degrees done)) [] := by
  induction fuel generalizing done ready with
  | zero =>
      have hl := h.length_le
      have hr : ready = [] := List.length_eq_zero_iff.1 (by omega)
      subst hr
      exact ⟨rfl, by simpa [drain] using h⟩
  | succ fuel ih =>
      cases ready with
      | nil => exact ⟨rfl, by simpa [drain] using h⟩
      | cons i ready =>
          have hi := h.next_unseen
          have hlen : (done ++ [i]).length = done.length + 1 := by simp
          obtain ⟨hsome, hmid⟩ := ih (h.step hg) (by omega)
          rw [drain_cons hg hi]
          refine ⟨?_, by simpa using hmid⟩
          rw [drain?, foldlM_dependentsOf hg hi]
          change (drain? g.dependentsOf fuel (g.freed done i ++ ready)
            (g.degrees (done ++ [i]))).bind (fun rest => some (i :: rest)) = _
          rw [hsome]
          rfl

theorem degrees_nil (hg : g.Wired) : g.dependencies.map List.length = g.degrees [] := by
  apply List.ext_getElem?
  intro i
  rw [List.getElem?_map, degrees, List.getElem?_map]
  by_cases hi : i < g.nodes.length
  · have hd : i < g.dependencies.length := hg.length_eq ▸ hi
    simp [hi, hd, remaining, dependenciesOf]
  · have hd : ¬ i < g.dependencies.length := hg.length_eq ▸ hi
    simp [Nat.not_lt.1 hi, Nat.not_lt.1 hd]

theorem midway_start : Midway g [] g.initial where
  nodup := List.nodup_range.filter _
  mem_iff i := by
    rw [List.nil_append, initial, List.mem_filter, List.mem_range]
    apply and_congr_right
    intro hi
    rw [getElem?_degrees _ hi, beq_iff_eq, Option.some.injEq, remaining_eq_zero_iff]
  after p i q h := by simp at h

theorem sequenced_eq_drain (hg : g.Wired) :
    g.sequenced = drain g.dependentsOf g.nodes.length g.initial (g.degrees []) := by
  have hfun : (fun i => ((List.range g.nodes.length).map g.dependentsOf).getD i []) =
      g.dependentsOf := by
    funext i
    by_cases hi : i < g.nodes.length
    · simp [List.getD_eq_getElem?_getD, hi]
    · have hnone : g.dependentsOf i = [] :=
        List.eq_nil_iff_forall_not_mem.2 fun j hj => hi (hg.lt ((mem_dependentsOf hg).1 hj)).2
      simp [List.getD_eq_getElem?_getD, Nat.not_lt.1 hi, hnone]
  simp only [sequenced, initial, hfun, degrees_nil hg]

theorem sequenced_spec (hg : g.Wired) :
    g.sequenced? = some g.sequenced ∧ Midway g g.sequenced [] := by
  rw [sequenced_eq_drain hg]
  simp only [sequenced?, degrees_nil hg]
  simpa [initial] using drain_spec hg midway_start (Nat.le_add_left _ _)

theorem Midway.sorts {order : List Nat} (h : Midway g order [])
    (hl : order.length = g.nodes.length) : g.Sorts order := by
  have hn : order.Nodup := by simpa using h.nodup
  refine ⟨?_, h.after⟩
  refine (hn.subperm fun i hi => ?_).perm_of_length_le (by simp [hl])
  exact List.mem_range.2 ((h.mem_iff i).1 (by simpa using hi)).1

theorem Sorts.mem_iff {order : List Nat} (h : g.Sorts order) {i : Nat} :
    i ∈ order ↔ i < g.nodes.length :=
  h.perm.mem_iff.trans List.mem_range

theorem Sorts.nodup {order : List Nat} (h : g.Sorts order) : order.Nodup :=
  h.perm.nodup_iff.2 List.nodup_range

theorem idxOf_lt_of_after {order : List Nat}
    (ha : ∀ p i q, order = p ++ i :: q → ∀ j, g.DependsOn i j → j ∈ p) {i j : Nat}
    (hi : i ∈ order) (hd : g.DependsOn i j) : j ∈ order ∧ order.idxOf j < order.idxOf i := by
  obtain ⟨p, q, hp, hni⟩ := List.eq_append_cons_of_mem hi
  have hj := ha p i q hp j hd
  refine ⟨hp ▸ List.mem_append_left _ hj, ?_⟩
  rw [hp, List.idxOf_append_of_mem hj, List.idxOf_append_of_notMem hni]
  have hlt := List.idxOf_lt_length_of_mem hj
  omega

theorem idxOf_lt_of_transGen {order : List Nat}
    (ha : ∀ p i q, order = p ++ i :: q → ∀ j, g.DependsOn i j → j ∈ p) {i j : Nat}
    (hi : i ∈ order) (ht : Relation.TransGen g.DependsOn i j) :
    j ∈ order ∧ order.idxOf j < order.idxOf i := by
  induction ht with
  | single hd => exact idxOf_lt_of_after ha hi hd
  | tail _ hd ih =>
      obtain ⟨hj, hlt⟩ := idxOf_lt_of_after ha ih.1 hd
      exact ⟨hj, hlt.trans ih.2⟩

theorem Sorts.acyclic (hg : g.Wired) {order : List Nat} (h : g.Sorts order) : g.Acyclic := by
  intro i hc
  obtain ⟨j, hd, -⟩ := Relation.TransGen.head'_iff.1 hc
  have hi : i ∈ order := h.mem_iff.2 (hg.lt hd).1
  exact Nat.lt_irrefl _ (idxOf_lt_of_transGen h.after hi hc).2

/-- Whether a node is on a cycle, or depends on one that is, be it through others. -/
def ReachesCycle (g : DependencyGraph) (i : Nat) : Prop :=
  ∃ k, Relation.ReflTransGen g.DependsOn i k ∧ Relation.TransGen g.DependsOn k k

theorem ReachesCycle.of_dependsOn {i j : Nat} (hd : g.DependsOn i j) (h : g.ReachesCycle j) :
    g.ReachesCycle i := by
  obtain ⟨k, hjk, hk⟩ := h
  exact ⟨k, .head hd hjk, hk⟩

theorem acc_of_not_reachesCycle (hg : g.Wired) {i : Nat} (h : ¬ g.ReachesCycle i) :
    Acc (fun j i => g.DependsOn i j) i := by
  let below (j i : Nat) : Prop := Relation.TransGen g.DependsOn i j ∧ ¬ g.ReachesCycle i
  have : IsStrictOrder Nat below :=
    { irrefl := fun i hi => hi.2 ⟨i, .refl, hi.1⟩
      trans := fun _ _ _ hab hbc => ⟨hbc.1.trans hab.1, hbc.2⟩ }
  have hwf : {i | i < g.nodes.length}.WellFoundedOn below :=
    (Set.finite_lt_nat g.nodes.length).wellFoundedOn
  have hbelow (i : Nat) (hi : i < g.nodes.length) :
      ¬ g.ReachesCycle i → Acc (fun j i => g.DependsOn i j) i := by
    refine hwf.induction hi
      (P := fun i => ¬ g.ReachesCycle i → Acc (fun j i => g.DependsOn i j) i) fun i _ ih h => ?_
    exact ⟨_, fun j hj => ih j (hg.lt hj).2 ⟨.single hj, h⟩ fun hc => h (hc.of_dependsOn hj)⟩
  exact ⟨_, fun j hj => hbelow j (hg.lt hj).2 fun hc => h (hc.of_dependsOn hj)⟩

theorem Acyclic.acc (hg : g.Wired) (ha : g.Acyclic) (i : Nat) :
    Acc (fun j i => g.DependsOn i j) i := by
  apply acc_of_not_reachesCycle hg
  rintro ⟨k, -, hk⟩
  exact ha k hk

theorem Midway.mem_of_acc (hg : g.Wired) {order : List Nat} (h : Midway g order []) {i : Nat}
    (hacc : Acc (fun j i => g.DependsOn i j) i) (hi : i < g.nodes.length) : i ∈ order := by
  induction hacc with
  | intro i _ ih =>
      have hm := (h.mem_iff i).2 ⟨hi, fun j hj => ih j hj (hg.lt hj).2⟩
      rwa [List.append_nil] at hm

theorem order_eq_ok_iff {order : List Nat} :
    g.order = .ok order ↔ g.sequenced = order ∧ order.length = g.nodes.length := by
  simp only [DependencyGraph.order]
  constructor
  · intro h
    split at h
    · next hl =>
      cases h
      exact ⟨rfl, hl⟩
    · cases h
  · rintro ⟨rfl, hl⟩
    rw [if_pos hl]

theorem sorts_of_order (hg : g.Wired) {order : List Nat} (h : g.order = .ok order) :
    g.Sorts order := by
  obtain ⟨rfl, hl⟩ := order_eq_ok_iff.1 h
  exact (sequenced_spec hg).2.sorts hl

theorem exists_order_iff (hg : g.Wired) : (∃ order, g.order = .ok order) ↔ g.Acyclic := by
  constructor
  · rintro ⟨order, h⟩
    exact (sorts_of_order hg h).acyclic hg
  · intro ha
    have hm := (sequenced_spec hg).2
    have hsub : List.range g.nodes.length ⊆ g.sequenced := fun i hi =>
      hm.mem_of_acc hg (ha.acc hg i) (List.mem_range.1 hi)
    have hle := (List.nodup_range.subperm hsub).length_le
    have hge := hm.length_le
    simp only [List.length_range, List.length_nil, Nat.add_zero] at hle hge
    exact ⟨_, order_eq_ok_iff.2 ⟨rfl, Nat.le_antisymm hge hle⟩⟩

/-- In whatever batches a graph was built, it can be sequenced exactly if it has no cycle, each node
then comes after its dependencies, and the counts of the loop never run below zero. -/
theorem order_of_batches (overrides : List Override) (batches : List (List Script))
    (g : DependencyGraph) (h : (empty overrides).addAll batches = .ok g) :
    ((∃ order, g.order = .ok order) ↔ g.Acyclic) ∧
      (∀ order, g.order = .ok order → g.Sorts order) ∧
      g.sequenced? = some g.sequenced := by
  obtain ⟨hg, -, -⟩ := addAll_spec (wired_empty overrides) h
  exact ⟨exists_order_iff hg, fun order ho => sorts_of_order hg ho, (sequenced_spec hg).1⟩

theorem ofScripts_eq_ok {overrides : List Override} {scripts : List Script}
    {dependencies : List (List Nat)}
    (h : (ofScripts overrides scripts).toOption.map DependencyGraph.dependencies =
      some dependencies) :
    ofScripts overrides scripts = .ok ⟨overrides, scripts, dependencies⟩ := by
  obtain ⟨g, hg, rfl⟩ := exists_ok_of_map h
  obtain ⟨-, hn, ho⟩ := ofScripts_spec hg
  rw [hg, ← hn, ← ho]

theorem addAll_eq_ok {overrides : List Override} {batches : List (List Script)}
    {dependencies : List (List Nat)}
    (h : ((empty overrides).addAll batches).toOption.map DependencyGraph.dependencies =
      some dependencies) :
    (empty overrides).addAll batches = .ok ⟨overrides, batches.flatten, dependencies⟩ := by
  obtain ⟨g, hg, rfl⟩ := exists_ok_of_map h
  obtain ⟨-, hn, ho⟩ := addAll_spec (wired_empty overrides) hg
  have hn : g.nodes = batches.flatten := hn
  have ho : g.overrides = overrides := ho
  rw [hg, ← hn, ← ho]

/-- A view before its base, a version before the one it builds on, and an override. -/
def mixedBatches : List (List Script) :=
  [[.state "DB" "S" .view "TOP" "CREATE VIEW TOP AS SELECT * FROM BASE",
      .ofUnit "DB" "S" .table "T" ⟨1, none, "ALTER TABLE T ADD C INT", none, none⟩],
    [.state "DB" "S" .view "BASE" "CREATE VIEW BASE AS SELECT 1",
      .ofUnit "DB" "S" .table "T" ⟨0, none, "CREATE TABLE T (ID INT)", none, none⟩]]

def mixedGraph : DependencyGraph :=
  ⟨[⟨"DB.S.BASE", ["db.s.t"]⟩], mixedBatches.flatten, [[2], [3], [1, 3], []]⟩

theorem addAll_mixedBatches :
    (empty [⟨"DB.S.BASE", ["db.s.t"]⟩]).addAll mixedBatches = .ok mixedGraph :=
  addAll_eq_ok (by decide +kernel)

theorem order_mixedGraph : mixedGraph.order = .ok [3, 1, 2, 0] :=
  order_eq_ok_iff.2 (by decide)

theorem order_of_mixedBatches :
    ∃ g, (empty [⟨"DB.S.BASE", ["db.s.t"]⟩]).addAll mixedBatches = .ok g ∧
      g.dependencies = [[2], [3], [1, 3], []] ∧ g.Acyclic ∧ g.Sorts [3, 1, 2, 0] ∧
      g.sequenced? = some [3, 1, 2, 0] := by
  obtain ⟨hiff, hsorts, hchecked⟩ := order_of_batches _ _ _ addAll_mixedBatches
  have hs := (order_eq_ok_iff.1 order_mixedGraph).1
  exact ⟨_, addAll_mixedBatches, rfl, hiff.1 ⟨_, order_mixedGraph⟩, hsorts _ order_mixedGraph,
    hs ▸ hchecked⟩

section Batches

variable {g' : DependencyGraph}

theorem Wired.ext (hg : g.Wired) (hg' : g'.Wired) (hn : g.nodes = g'.nodes)
    (ho : g.overrides = g'.overrides) : g = g' := by
  have hmem (i j : Nat) : j ∈ g.dependenciesOf i ↔ j ∈ g'.dependenciesOf i := by
    rw [← DependsOn, ← DependsOn, hg.dependsOn_iff, hg'.dependsOn_iff, hn, ho]
  have hdeps (i : Nat) : g.dependenciesOf i = g'.dependenciesOf i :=
    (hg.increasing i).eq_of_mem_iff (hg'.increasing i) (hmem i)
  have hlength : g.dependencies.length = g'.dependencies.length := by
    rw [hg.length_eq, hg'.length_eq, hn]
  have hall : g.dependencies = g'.dependencies := by
    apply List.ext_getElem hlength
    intro i hi hi'
    simpa [dependenciesOf, List.getElem?_eq_getElem hi, List.getElem?_eq_getElem hi'] using hdeps i
  cases g
  cases g'
  simp_all

theorem resolved_of_addAll {batches : List (List Script)}
    (hg : Override.Resolved g.overrides g.nodes) (h : g.addAll batches = .ok g') :
    Override.Resolved g'.overrides g'.nodes := by
  induction batches generalizing g with
  | nil =>
      cases h
      exact hg
  | cons scripts batches ih =>
      obtain ⟨next, hn, h⟩ := addAll_cons_ok_iff.1 h
      refine ih ?_ h
      have hr := add_ok_iff.1 ⟨next, hn⟩
      simp only [add] at hn
      split at hn
      · cases hn
        exact hr
      · cases hn

theorem ofScripts_of_addAll {overrides : List Override} {batches : List (List Script)}
    (h : (empty overrides).addAll batches = .ok g) :
    ofScripts overrides batches.flatten = .ok g := by
  obtain ⟨hw, hn, ho⟩ := addAll_spec (wired_empty overrides) h
  have hn : g.nodes = batches.flatten := hn
  have ho : g.overrides = overrides := ho
  have hr := resolved_of_addAll (by simp [Override.Resolved, empty]) h
  rw [ho, hn] at hr
  obtain ⟨g', hg'⟩ := ofScripts_ok_iff.2 hr
  obtain ⟨hw', hn', ho'⟩ := ofScripts_spec hg'
  rw [hg', hw'.ext hw (hn'.trans hn.symm) (ho'.trans ho.symm)]

/-- Scripts that can be added batch by batch can be added at once, with the same dependencies, the
same edges and the same order or the same scripts in a cycle. -/
theorem ofScripts_of_batches (overrides : List Override) (batches : List (List Script))
    (g : DependencyGraph) (h : (empty overrides).addAll batches = .ok g) :
    ∃ g', ofScripts overrides batches.flatten = .ok g' ∧
      g'.nodes = g.nodes ∧ (∀ i, g'.dependenciesOf i = g.dependenciesOf i) ∧
      g'.edges = g.edges ∧ g'.order = g.order :=
  ⟨g, ofScripts_of_addAll h, rfl, fun _ => rfl, rfl, rfl⟩

theorem ofScripts_of_mixedBatches :
    ∃ g g', (empty [⟨"DB.S.BASE", ["db.s.t"]⟩]).addAll mixedBatches = .ok g ∧
      ofScripts [⟨"DB.S.BASE", ["db.s.t"]⟩] mixedBatches.flatten = .ok g' ∧
      (∀ i, g'.dependenciesOf i = g.dependenciesOf i) ∧ g'.edges = g.edges ∧
      g'.order = g.order ∧ g.dependencies = [[2], [3], [1, 3], []] := by
  obtain ⟨g', hg', -, hdeps, hedges, horder⟩ := ofScripts_of_batches _ _ _ addAll_mixedBatches
  exact ⟨_, g', addAll_mixedBatches, hg', hdeps, hedges, horder, rfl⟩

end Batches

end SchemaDeploy.DependencyGraph
