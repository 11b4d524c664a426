import SchemaDeploy.Keyed
import Mathlib.Data.List.Sort

namespace SchemaDeploy.Keyed

variable {α : Type}

@[simp]
theorem get?_empty (k : String) : (empty : Keyed α).get? k = none :=
  rfl

theorem lookup_cons_eq_ite (e : String × α) (es : List (String × α)) (k : String) :
    (e :: es).lookup k = if k = e.1 then some e.2 else es.lookup k := by
  rw [List.lookup_cons]
  by_cases hk : k = e.1
  · subst k
    rw [beq_self_eq_true, if_pos rfl]
  · rw [beq_false_of_ne hk, if_neg hk]

theorem lookup_insertEntry (key : String) (value : α) (l : List (String × α)) (k : String) :
    (insertEntry key value l).lookup k = if k = key then some value else l.lookup k := by
  induction l with
  | nil => exact lookup_cons_eq_ite _ _ _
  | cons e es ih =>
      simp only [insertEntry]
      split
      · exact lookup_cons_eq_ite _ _ _
      · split
        · next heq =>
          rw [lookup_cons_eq_ite, lookup_cons_eq_ite, ← heq]
          split <;> rfl
        · next hne =>
          rw [lookup_cons_eq_ite, lookup_cons_eq_ite, ih]
          by_cases hk : k = key
          · subst k
            rw [if_neg hne, if_pos rfl, if_pos rfl]
          · rw [if_neg hk, if_neg hk]

@[simp]
theorem get?_insert (m : Keyed α) (key : String) (value : α) (k : String) :
    (m.insert key value).get? k = if k = key then some value else m.get? k :=
  lookup_insertEntry key value m.entries k

@[simp]
theorem get?_erase (m : Keyed α) (key k : String) :
    (m.erase key).get? k = if k = key then none else m.get? k := by
  rw [erase, get?, get?]
  dsimp only
  induction m.entries with
  | nil => simp
  | cons e es ih =>
      rw [lookup_cons_eq_ite, List.filter_cons]
      by_cases he : e.1 = key
      · rw [if_neg (by simpa using he), ih, he]
        split <;> rfl
      · rw [if_pos (by simpa using he), lookup_cons_eq_ite, ih]
        by_cases hk : k = e.1
        · rw [if_pos hk, if_neg (hk ▸ he), if_pos hk]
        · rw [if_neg hk, if_neg hk]

theorem get?_foldl_erase (keys : List String) (m : Keyed α) (k : String) :
    (keys.foldl erase m).get? k = if k ∈ keys then none else m.get? k := by
  induction keys generalizing m with
  | nil => rfl
  | cons key keys ih =>
      rw [List.foldl_cons, ih, get?_erase]
      simp only [List.mem_cons]
      by_cases hk : k = key
      · simp only [hk, true_or, if_true, ite_self]
      · simp only [hk, false_or, if_false]

theorem contains_eq_isSome (m : Keyed α) (k : String) : m.contains k = (m.get? k).isSome := by
  rw [contains, get?]
  induction m.entries with
  | nil => rfl
  | cons e es ih =>
      rw [List.any_cons, lookup_cons_eq_ite, ih]
      by_cases hk : k = e.1
      · rw [if_pos hk, hk, beq_self_eq_true]
        rfl
      · rw [if_neg hk, beq_false_of_ne (Ne.symm hk), Bool.false_or]

theorem lookup_eq_none_of_not_mem {l : List (String × α)} {k : String} (h : k ∉ l.map (·.1)) :
    l.lookup k = none := by
  rw [List.lookup_eq_none_iff]
  intro e he
  have hne : k ≠ e.1 := fun hk => h (hk ▸ List.mem_map_of_mem he)
  simpa using hne

theorem lookup_eq_some_iff_mem {l : List (String × α)} (hn : (l.map (·.1)).Nodup) {k : String}
    {a : α} : l.lookup k = some a ↔ (k, a) ∈ l := by
  induction l with
  | nil => simp
  | cons e es ih =>
      rw [List.map_cons, List.nodup_cons] at hn
      rw [lookup_cons_eq_ite, List.mem_cons]
      by_cases hk : k = e.1
      · have hes : (k, a) ∉ es := fun hm => hn.1 (hk ▸ List.mem_map_of_mem hm)
        subst hk
        simp [hes, Prod.ext_iff, eq_comm]
      · have hne : (k, a) ≠ e := fun h => hk (congrArg Prod.fst h)
        rw [if_neg hk, ih hn.2, or_iff_right hne]

theorem nodup_keys (m : Keyed α) : m.keys.Nodup := by
  apply List.pairwise_map.2
  apply m.sorted.imp
  intro a b h he
  rw [he] at h
  exact String.lt_irrefl _ h

theorem get?_eq_some_iff (m : Keyed α) {k : String} {a : α} :
    m.get? k = some a ↔ (k, a) ∈ m.entries :=
  lookup_eq_some_iff_mem m.nodup_keys

theorem mem_keys_iff (m : Keyed α) {k : String} : k ∈ m.keys ↔ ∃ a, m.get? k = some a := by
  simp only [keys, List.mem_map, get?_eq_some_iff, Prod.exists, exists_and_right, exists_eq_right]

theorem mem_values_iff (m : Keyed α) {a : α} : a ∈ m.values ↔ ∃ k, m.get? k = some a := by
  simp only [values, List.mem_map, get?_eq_some_iff, Prod.exists, exists_eq_right]

theorem filter_entries_congr {m m' : Keyed α} {p : α → Bool}
    (h : ∀ k a, p a = true → (m.get? k = some a ↔ m'.get? k = some a)) :
    (m.entries.filter fun e => p e.2) = m'.entries.filter fun e => p e.2 := by
  have hirrefl : Std.Irrefl fun a b : String × α => a.1 < b.1 := ⟨fun a => String.lt_irrefl a.1⟩
  apply List.Pairwise.eq_of_mem_iff (m.sorted.filter _) (m'.sorted.filter _)
  rintro ⟨k, a⟩
  simp only [List.mem_filter, ← get?_eq_some_iff]
  exact and_congr_left (h k a)

theorem ext_get? {m m' : Keyed α} (h : ∀ k, m.get? k = m'.get? k) : m = m' := by
  have he : m.entries = m'.entries := by
    simpa using filter_entries_congr (p := fun _ => true) fun k a _ => by rw [h k]
  cases m
  cases m'
  cases he
  rfl

theorem get?_foldl_insert (es : List (String × α)) (m : Keyed α) (k : String) :
    (es.foldl (fun m e => m.insert e.1 e.2) m).get? k = (es.reverse.lookup k).or (m.get? k) := by
  induction es generalizing m with
  | nil => rfl
  | cons e es ih =>
      have hlast : List.lookup k [e] = if k = e.1 then some e.2 else none :=
        lookup_cons_eq_ite e [] k
      rw [List.foldl_cons, ih, get?_insert, List.reverse_cons, List.lookup_append, Option.or_assoc,
        hlast]
      split <;> rfl

theorem get?_foldl_insert_of_not_mem {es : List (String × α)} {k : String}
    (h : k ∉ es.map (·.1)) (m : Keyed α) :
    (es.foldl (fun m e => m.insert e.1 e.2) m).get? k = m.get? k := by
  have hr : k ∉ es.reverse.map (·.1) := by simpa using h
  rw [get?_foldl_insert, lookup_eq_none_of_not_mem hr, Option.none_or]

theorem get?_foldl_insert_of_mem {es : List (String × α)} {k : String} {a : α} (h : (k, a) ∈ es)
    (hsame : ∀ e ∈ es, e.1 = k → e.2 = a) (m : Keyed α) :
    (es.foldl (fun m e => m.insert e.1 e.2) m).get? k = some a := by
  induction es generalizing m with
  | nil => cases h
  | cons e es ih =>
      obtain ⟨he, hes⟩ := List.forall_mem_cons.1 hsame
      rw [List.foldl_cons]
      by_cases hk : k ∈ es.map (·.1)
      · obtain ⟨f, hf, rfl⟩ := List.mem_map.1 hk
        have hfa := hes f hf rfl
        subst hfa
        exact ih hf hes _
      · have hea : (k, a) = e := by
          rcases List.mem_cons.1 h with h | h
          · exact h
          · exact absurd (List.mem_map_of_mem h) hk
        subst hea
        rw [get?_foldl_insert_of_not_mem hk, get?_insert, if_pos rfl]

theorem mem_keys_ofNames {names : List String} {k : String} :
    k ∈ (Names.ofNames names).keys ↔ k ∈ names := by
  rw [mem_keys_iff, Names.ofNames, ofList]
  constructor
  · rintro ⟨a, ha⟩
    by_contra hk
    rw [get?_foldl_insert_of_not_mem (by simpa using hk), get?_empty] at ha
    cases ha
  · intro hk
    exact ⟨(), get?_foldl_insert_of_mem (List.mem_map_of_mem (f := (·, ())) hk) (fun _ _ _ => rfl) _⟩

end SchemaDeploy.Keyed
