import SchemaDeploy.Dependency.Graph
import Mathlib.Data.List.Basic
import Mathlib.Logic.Relation

namespace SchemaDeploy

/-- Whether the text or the version of a script makes it depend on another one. -/
def Dependency.Infers (s t : Script) : Prop :=
  dependsOn s (isForeign s (Sql.clean s.content.toList)) (Sql.clean s.content.toList) t = true

/-- Whether some override of a script names another one. -/
def Override.Asks (overrides : List Override) (s t : Script) : Prop :=
  ∃ o ∈ overrides, sameText o.script s.fullName = true ∧
    ∃ d ∈ o.dependencies, sameText t.fullName d = true

def Override.Resolved (overrides : List Override) (scripts : List Script) : Prop :=
  ∀ s ∈ scripts, ∀ o ∈ overrides, sameText o.script s.fullName = true →
    ∀ d ∈ o.dependencies, ∃ t ∈ scripts, sameText t.fullName d = true

theorem Dependency.mem_inferred {s : Script} {pool : List Script} {j : Nat} :
    j ∈ inferred s pool ↔ ∃ t, pool[j]? = some t ∧ Infers s t := by
  simp [inferred, Infers, List.mem_zipIdx_iff_getElem?]

namespace DependencyGraph

def DependsOn (g : DependencyGraph) (i j : Nat) : Prop :=
  j ∈ g.dependenciesOf i

/-- Adds batches of scripts one after the other. -/
def addAll (g : DependencyGraph) : List (List Script) → Except SyncError DependencyGraph
  | [] => .ok g
  | scripts :: batches =>
    match g.add scripts with
    | .error e => .error e
    | .ok g => g.addAll batches

theorem mem_named {nodes : List Script} {name : String} {j : Nat} :
    j ∈ named nodes name ↔ ∃ t, nodes[j]? = some t ∧ sameText t.fullName name = true := by
  simp [named, List.mem_zipIdx_iff_getElem?]

theorem named_eq_nil_iff {nodes : List Script} {name : String} :
    named nodes name = [] ↔ ¬ ∃ t ∈ nodes, sameText t.fullName name = true := by
  rw [List.eq_nil_iff_forall_not_mem]
  simp only [mem_named]
  constructor
  · rintro h ⟨t, ht, hn⟩
    obtain ⟨j, hj⟩ := List.mem_iff_getElem?.1 ht
    exact h j ⟨t, hj, hn⟩
  · rintro h j ⟨t, ht, hn⟩
    exact h ⟨t, List.mem_of_getElem? ht, hn⟩

theorem mem_resolveAll {nodes : List Script} {o : Override} {ds : List String} {found : List Nat}
    (h : resolveAll nodes o ds = .ok found) (j : Nat) :
    j ∈ found ↔ ∃ t, nodes[j]? = some t ∧ ∃ d ∈ ds, sameText t.fullName d = true := by
  induction ds generalizing found with
  | nil =>
      cases h
      simp
  | cons d ds ih =>
      simp only [resolveAll] at h
      split at h
      · cases h
      · split at h
        · next rest hr =>
          cases h
          rw [List.mem_append, mem_named, ih hr, ← exists_or]
          apply exists_congr
          intro t
          rw [List.exists_mem_cons_iff, and_or_left]
        · cases h

theorem resolveAll_ok_iff {nodes : List Script} {o : Override} {ds : List String} :
    (∃ found, resolveAll nodes o ds = .ok found) ↔
      ∀ d ∈ ds, ∃ t ∈ nodes, sameText t.fullName d = true := by
  induction ds with
  | nil => simp [resolveAll]
  | cons d ds ih =>
      rw [List.forall_mem_cons, ← ih, resolveAll]
      have hn : named nodes d = [] ↔ _ := named_eq_nil_iff
      cases hd : named nodes d with
      | nil => simp [hn.1 hd]
      | cons k ks =>
          have ht : ∃ t ∈ nodes, sameText t.fullName d = true := by
            by_contra hc
            rw [hn.2 hc] at hd
            cases hd
          cases hr : resolveAll nodes o ds <;> simp [ht]

theorem mem_overrideTargets {nodes : List Script} {s : Script} {overrides : List Override}
    {found : List Nat} (h : overrideTargets nodes s.fullName overrides = .ok found) (j : Nat) :
    j ∈ found ↔ ∃ t, nodes[j]? = some t ∧ Override.Asks overrides s t := by
  induction overrides generalizing found with
  | nil =>
      cases h
      simp [Override.Asks]
  | cons o os ih =>
      simp only [overrideTargets] at h
      have hcons (t : Script) : Override.Asks (o :: os) s t ↔
          (sameText o.script s.fullName = true ∧
            ∃ d ∈ o.dependencies, sameText t.fullName d = true) ∨ Override.Asks os s t := by
        rw [Override.Asks, List.exists_mem_cons_iff, Override.Asks]
      split at h
      · next ho =>
        split at h
        · cases h
        · next here hh =>
          split at h
          · next rest hr =>
            cases h
            rw [List.mem_append, mem_resolveAll hh, ih hr, ← exists_or]
            apply exists_congr
            intro t
            rw [hcons, ← and_or_left, and_iff_right ho]
          · cases h
      · next ho =>
        rw [ih h]
        apply exists_congr
        intro t
        rw [hcons, or_iff_right fun hc => ho hc.1]

theorem overrideTargets_ok_iff {nodes : List Script} {fullName : String}
    {overrides : List Override} :
    (∃ found, overrideTargets nodes fullName overrides = .ok found) ↔
      ∀ o ∈ overrides, sameText o.script fullName = true →
        ∀ d ∈ o.dependencies, ∃ t ∈ nodes, sameText t.fullName d = true := by
  induction overrides with
  | nil => simp [overrideTargets]
  | cons o os ih =>
      rw [List.forall_mem_cons, ← ih, ← resolveAll_ok_iff (o := o), overrideTargets]
      by_cases ho : sameText o.script fullName = true
      · rw [if_pos ho]
        cases resolveAll nodes o o.dependencies <;>
          cases overrideTargets nodes fullName os <;> simp [ho]
      · simp [ho]

theorem mem_wire {overrides : List Override} {nodes : List Script} {found : List Nat} {s : Script}
    {i : Nat} {here : List Nat} (h : wire overrides nodes found s i = .ok here) (j : Nat) :
    j ∈ here ↔ ∃ t, nodes[j]? = some t ∧ (j ∈ found ∨ j ≠ i ∧ Override.Asks overrides s t) := by
  simp only [wire] at h
  split at h
  · cases h
  · next targets ht =>
    cases h
    simp only [List.mem_filter, List.mem_range, Bool.or_eq_true, Bool.and_eq_true, bne_iff_ne,
      List.contains_iff_mem, mem_overrideTargets ht]
    constructor
    · rintro ⟨hlt, hf | ⟨hne, t, hj, ha⟩⟩
      · exact ⟨nodes[j], List.getElem?_eq_getElem hlt, .inl hf⟩
      · exact ⟨t, hj, .inr ⟨hne, ha⟩⟩
    · rintro ⟨t, hj, hf | ⟨hne, ha⟩⟩
      · exact ⟨(List.getElem?_eq_some_iff.1 hj).1, .inl hf⟩
      · exact ⟨(List.getElem?_eq_some_iff.1 hj).1, .inr ⟨hne, t, hj, ha⟩⟩

theorem wire_increasing {overrides : List Override} {nodes : List Script} {found : List Nat}
    {s : Script} {i : Nat} {here : List Nat} (h : wire overrides nodes found s i = .ok here) :
    here.Pairwise (· < ·) := by
  simp only [wire] at h
  split at h
  · cases h
  · cases h
    exact List.pairwise_lt_range.filter _

theorem wire_ok_iff {overrides : List Override} {nodes : List Script} {found : List Nat}
    {s : Script} {i : Nat} : (∃ here, wire overrides nodes found s i = .ok here) ↔
      ∃ targets, overrideTargets nodes s.fullName overrides = .ok targets := by
  rw [wire]
  cases overrideTargets nodes s.fullName overrides <;> simp

theorem wireAll_getElem? {overrides : List Override} {nodes : List Script}
    {found : List (List Nat)} {ps : List (Script × Nat)} {all : List (List Nat)}
    (h : wireAll overrides nodes found ps = .ok all) :
    all.length = ps.length ∧ ∀ (k : Nat) (p : Script × Nat), ps[k]? = some p →
      ∃ here, all[k]? = some here ∧
        wire overrides nodes (found.getD p.2 []) p.1 p.2 = .ok here := by
  induction ps generalizing all with
  | nil =>
      cases h
      simp
  | cons q ps ih =>
      simp only [wireAll] at h
      split at h
      · cases h
      · next here hf =>
        split at h
        · next rest hr =>
          cases h
          obtain ⟨hl, hw⟩ := ih hr
          refine ⟨by rw [List.length_cons, List.length_cons, hl], fun k p hp => ?_⟩
          cases k with
          | zero =>
              cases hp
              exact ⟨here, rfl, hf⟩
          | succ k => exact hw k p hp
        · cases h

theorem wireAll_ok_iff {overrides : List Override} {nodes : List Script}
    {found : List (List Nat)} {ps : List (Script × Nat)} :
    (∃ all, wireAll overrides nodes found ps = .ok all) ↔
      ∀ p ∈ ps, ∃ here, wire overrides nodes (found.getD p.2 []) p.1 p.2 = .ok here := by
  induction ps with
  | nil => simp [wireAll]
  | cons q ps ih =>
      rw [List.forall_mem_cons, ← ih, wireAll]
      cases wire overrides nodes (found.getD q.2 []) q.1 q.2 <;>
        cases wireAll overrides nodes found ps <;> simp

/-- The dependencies of a graph are those that its scripts and overrides ask for. -/
structure Wired (g : DependencyGraph) : Prop where
  length_eq : g.dependencies.length = g.nodes.length
  dependsOn_iff : ∀ i j, g.DependsOn i j ↔ ∃ s t, g.nodes[i]? = some s ∧ g.nodes[j]? = some t ∧
    (Dependency.Infers s t ∨ j ≠ i ∧ Override.Asks g.overrides s t)
  increasing : ∀ i, (g.dependenciesOf i).Pairwise (· < ·)

theorem Wired.lt {g : DependencyGraph} (h : g.Wired) {i j : Nat} (hd : g.DependsOn i j) :
    i < g.nodes.length ∧ j < g.nodes.length := by
  obtain ⟨s, t, hi, hj, -⟩ := (h.dependsOn_iff i j).1 hd
  exact ⟨(List.getElem?_eq_some_iff.1 hi).1, (List.getElem?_eq_some_iff.1 hj).1⟩

theorem Wired.nodup {g : DependencyGraph} (h : g.Wired) (i : Nat) : (g.dependenciesOf i).Nodup :=
  (h.increasing i).imp Nat.ne_of_lt

theorem wired_empty (overrides : List Override) : (empty overrides).Wired where
  length_eq := rfl
  dependsOn_iff i j := by simp [DependsOn, dependenciesOf, empty]
  increasing i := by simp [dependenciesOf, empty]

theorem dependenciesOf_of_wireAll {overrides : List Override} {nodes : List Script}
    {found all : List (List Nat)} (h : wireAll overrides nodes found nodes.zipIdx = .ok all)
    (i : Nat) :
    match nodes[i]? with
    | none => dependenciesOf ⟨overrides, nodes, all⟩ i = []
    | some s => wire overrides nodes (found.getD i []) s i =
        .ok (dependenciesOf ⟨overrides, nodes, all⟩ i) := by
  obtain ⟨hl, hw⟩ := wireAll_getElem? h
  rw [List.length_zipIdx] at hl
  rw [dependenciesOf, List.getD_eq_getElem?_getD]
  cases hi : nodes[i]? with
  | none =>
      have hn : all[i]? = none := by
        rw [List.getElem?_eq_none_iff] at hi ⊢
        rw [hl]
        exact hi
      change all[i]?.getD [] = []
      rw [hn]
      rfl
  | some s =>
      obtain ⟨here, hf, hs⟩ := hw i (s, i) (by simp [List.getElem?_zipIdx, hi])
      change wire overrides nodes (found.getD i []) s i = .ok (all[i]?.getD [])
      rw [hf]
      exact hs

theorem foundWith_of_present {g : DependencyGraph} {i : Nat} {s : Script} (hi : g.nodes[i]? = some s)
    (scripts : List Script) : (g.foundWith scripts).getD i [] =
      g.dependenciesOf i ++ (Dependency.inferred s scripts).map (g.nodes.length + ·) := by
  have hlt := (List.getElem?_eq_some_iff.1 hi).1
  rw [foundWith, List.getD_eq_getElem?_getD, List.getElem?_append_left (by simpa using hlt)]
  simp [List.getElem?_zipIdx, hi]

theorem foundWith_of_new {g : DependencyGraph} {scripts : List Script} {i : Nat} {s : Script}
    (hi : (g.nodes ++ scripts)[i]? = some s) (hge : g.nodes.length ≤ i) :
    (g.foundWith scripts).getD i [] = Dependency.inferred s (g.nodes ++ scripts) := by
  rw [List.getElem?_append_right hge] at hi
  rw [foundWith, List.getD_eq_getElem?_getD, List.getElem?_append_right (by simpa using hge)]
  simp [hi]

/-- Comparing present nodes with new ones and new ones with all misses no pair, whatever the overrides
have added before. -/
theorem Wired.mem_foundWith {g : DependencyGraph} (hg : g.Wired) {scripts : List Script} {i j : Nat}
    {s t : Script} (hi : (g.nodes ++ scripts)[i]? = some s) (hj : (g.nodes ++ scripts)[j]? = some t) :
    (j ∈ (g.foundWith scripts).getD i [] ∨ j ≠ i ∧ Override.Asks g.overrides s t) ↔
      (Dependency.Infers s t ∨ j ≠ i ∧ Override.Asks g.overrides s t) := by
  rcases Nat.lt_or_ge i g.nodes.length with hlt | hge
  · rw [List.getElem?_append_left hlt] at hi
    rw [foundWith_of_present hi, List.mem_append, ← DependsOn, hg.dependsOn_iff]
    have hnew : j ∈ (Dependency.inferred s scripts).map (g.nodes.length + ·) ↔
        g.nodes.length ≤ j ∧ Dependency.Infers s t := by
      simp only [List.mem_map, Dependency.mem_inferred]
      constructor
      · rintro ⟨k, ⟨u, hk, hu⟩, rfl⟩
        rw [List.getElem?_append_right (Nat.le_add_right _ k), Nat.add_sub_cancel_left, hk] at hj
        cases hj
        exact ⟨Nat.le_add_right _ k, hu⟩
      · rintro ⟨hle, ht⟩
        rw [List.getElem?_append_right hle] at hj
        exact ⟨j - g.nodes.length, ⟨t, hj, ht⟩, by omega⟩
    rw [hnew]
    rcases Nat.lt_or_ge j g.nodes.length with hold | hold
    · rw [List.getElem?_append_left hold] at hj
      simp only [hi, hj, Option.some.injEq, exists_and_left, exists_eq_left', Nat.not_le.2 hold,
        false_and, or_false, or_assoc, or_self]
    · simp [hold]
  · rw [foundWith_of_new hi hge, Dependency.mem_inferred]
    simp [hj]

theorem add_spec {g g' : DependencyGraph} {scripts : List Script} (hg : g.Wired)
    (h : g.add scripts = .ok g') :
    g'.Wired ∧ g'.nodes = g.nodes ++ scripts ∧ g'.overrides = g.overrides := by
  simp only [add] at h
  split at h
  · next all ha =>
    cases h
    refine ⟨⟨?_, fun i j => ?_, fun i => ?_⟩, rfl, rfl⟩
    · have hl := (wireAll_getElem? ha).1
      rwa [List.length_zipIdx] at hl
    · have hi := dependenciesOf_of_wireAll ha i
      rw [DependsOn]
      cases hn : (g.nodes ++ scripts)[i]? with
      | none =>
          rw [hn] at hi
          simp [hi]
      | some s =>
          rw [hn] at hi
          rw [mem_wire hi]
          constructor
          · rintro ⟨t, hj, hd⟩
            exact ⟨s, t, rfl, hj, (hg.mem_foundWith hn hj).1 hd⟩
          · rintro ⟨s', t, hs, hj, hd⟩
            cases hs
            exact ⟨t, hj, (hg.mem_foundWith hn hj).2 hd⟩
    · have hi := dependenciesOf_of_wireAll ha i
      cases hn : (g.nodes ++ scripts)[i]? with
      | none =>
          rw [hn] at hi
          rw [hi]
          exact .nil
      | some s =>
          rw [hn] at hi
          exact wire_increasing hi
  · cases h

theorem add_ok_iff {g : DependencyGraph} {scripts : List Script} :
    (∃ g', g.add scripts = .ok g') ↔ Override.Resolved g.overrides (g.nodes ++ scripts) := by
  have hall : (∃ g', g.add scripts = .ok g') ↔
      ∃ all, wireAll g.overrides (g.nodes ++ scripts) (g.foundWith scripts)
        (g.nodes ++ scripts).zipIdx = .ok all := by
    rw [add]
    cases wireAll g.overrides (g.nodes ++ scripts) (g.foundWith scripts)
      (g.nodes ++ scripts).zipIdx <;> simp
  rw [hall, wireAll_ok_iff, Override.Resolved]
  simp only [wire_ok_iff, overrideTargets_ok_iff]
  constructor
  · intro h s hs
    obtain ⟨i, hi⟩ := List.mem_iff_getElem?.1 hs
    exact h (s, i) (List.mem_zipIdx_iff_getElem?.2 hi)
  · intro h p hp
    exact h p.1 (List.mem_of_getElem? (List.mem_zipIdx_iff_getElem?.1 hp))

theorem ofScripts_spec {overrides : List Override} {scripts : List Script} {g : DependencyGraph}
    (h : ofScripts overrides scripts = .ok g) :
    g.Wired ∧ g.nodes = scripts ∧ g.overrides = overrides :=
  add_spec (wired_empty overrides) h

theorem ofScripts_ok_iff {overrides : List Override} {scripts : List Script} :
    (∃ g, ofScripts overrides scripts = .ok g) ↔ Override.Resolved overrides scripts :=
  add_ok_iff

theorem addAll_cons_ok_iff {g g' : DependencyGraph} {scripts : List Script}
    {batches : List (List Script)} : g.addAll (scripts :: batches) = .ok g' ↔
      ∃ next, g.add scripts = .ok next ∧ next.addAll batches = .ok g' := by
  rw [addAll]
  cases g.add scripts <;> simp

theorem addAll_spec {g g' : DependencyGraph} {batches : List (List Script)} (hg : g.Wired)
    (h : g.addAll batches = .ok g') :
    g'.Wired ∧ g'.nodes = g.nodes ++ batches.flatten ∧ g'.overrides = g.overrides := by
  induction batches generalizing g with
  | nil =>
      cases h
      exact ⟨hg, by simp, rfl⟩
  | cons scripts batches ih =>
      obtain ⟨next, hn, h⟩ := addAll_cons_ok_iff.1 h
      obtain ⟨hw, hnodes, ho⟩ := add_spec hg hn
      obtain ⟨hw', hnodes', ho'⟩ := ih hw h
      refine ⟨hw', ?_, ho'.trans ho⟩
      rw [hnodes', hnodes, List.flatten_cons, List.append_assoc]

end DependencyGraph

end SchemaDeploy
