import SchemaDeploy.Project.FileTree
import Mathlib.Data.List.Basic
import Mathlib.Data.List.TakeWhile

namespace SchemaDeploy

theorem fromUTF8?_toUTF8 (s : String) : String.fromUTF8? s.toUTF8 = some s := by
  have hvalid : s.toUTF8.IsValidUTF8 := s.isValidUTF8
  rw [String.fromUTF8?, dif_pos hvalid]
  rfl

/-- A part of a path that names one entry of a directory. -/
structure IsPlainPart (p : String) : Prop where
  ne_empty : p ≠ ""
  ne_dot : p ≠ "."
  ne_dots : p ≠ ".."
  no_slash : '/' ∉ p.toList

section Paths

variable {p : String}

theorem pathParts_append (hp : IsPlainPart p) (d : String) :
    pathParts (d ++ "/" ++ p) = pathParts d ++ [p] := by
  have hsplit : (d ++ "/" ++ p).toList.splitOn '/' = d.toList.splitOn '/' ++ [p.toList] := by
    have ht : (d ++ "/" ++ p).toList = d.toList ++ '/' :: p.toList := by simp
    rw [ht, List.splitOn_append_cons_self, List.splitOn_eq_singleton hp.no_slash]
  simp only [pathParts, hsplit, List.map_append, List.foldl_append, List.map_singleton,
    List.foldl_cons, List.foldl_nil, String.ofList_toList, hp.ne_empty, hp.ne_dot, hp.ne_dots,
    or_self, if_false]

theorem pathParts_self (hp : IsPlainPart p) : pathParts p = [p] := by
  simp only [pathParts, List.splitOn_eq_singleton hp.no_slash, List.map_singleton,
    List.foldl_cons, List.foldl_nil, String.ofList_toList, hp.ne_empty, hp.ne_dot, hp.ne_dots,
    or_self, if_false, List.nil_append]

theorem pathParts_slash (d : String) : pathParts (d ++ "/") = pathParts d := by
  have hsplit : (d ++ "/").toList.splitOn '/' = d.toList.splitOn '/' ++ [[]] := by
    have ht : (d ++ "/").toList = d.toList ++ '/' :: [] := by simp
    rw [ht, List.splitOn_append_cons_self]
    rfl
  simp only [pathParts, hsplit, List.map_append, List.foldl_append]
  simp

theorem pathParts_empty : pathParts "" = [] :=
  rfl

theorem joinPath_cases (hp : IsPlainPart p) (d : String) :
    (d = "" ∧ joinPath d p = p) ∨
      ∃ d', pathParts d' = pathParts d ∧ joinPath d p = d' ++ "/" ++ p := by
  have hslash : p.startsWith "/" = false := by
    rw [String.startsWith_string_eq_false_iff]
    rintro ⟨t, ht⟩
    exact hp.no_slash (ht ▸ by simp)
  by_cases hd : d = ""
  · exact .inl ⟨hd, by simp [joinPath, hd]⟩
  · right
    by_cases he : d.endsWith "/" = true
    · have hsuffix : "/".toList <:+ d.toList := by
        simpa [← String.endsWith_toSlice] using he
      obtain ⟨t, ht⟩ := hsuffix
      have hd' : d = String.ofList t ++ "/" := by
        rw [← String.toList_inj, ← ht]
        simp
      refine ⟨String.ofList t, ?_, ?_⟩
      · rw [hd', pathParts_slash]
      · simp only [joinPath, hslash, Bool.false_or, beq_iff_eq, hd, if_false, he, if_true]
        rw [← hd']
    · exact ⟨d, rfl, by simp [joinPath, hslash, hd, he]⟩

theorem pathParts_joinPath (hp : IsPlainPart p) (d : String) :
    pathParts (joinPath d p) = pathParts d ++ [p] := by
  rcases joinPath_cases hp d with ⟨rfl, h⟩ | ⟨d', hd, h⟩
  · rw [h, pathParts_self hp, pathParts_empty, List.nil_append]
  · rw [h, pathParts_append hp, hd]

theorem ne_slash_of_mem_reverse (hp : '/' ∉ p.toList) :
    ∀ c ∈ p.toList.reverse, decide (c ≠ '/') = true := by
  intro c hc
  rw [decide_eq_true_iff]
  rintro rfl
  exact hp (List.mem_reverse.1 hc)

theorem splitPath_append (hp : '/' ∉ p.toList) (d : String) :
    splitPath (d ++ "/" ++ p) = (d, p) := by
  have hall := ne_slash_of_mem_reverse hp
  have ht : (d ++ "/" ++ p).toList.reverse = p.toList.reverse ++ '/' :: d.toList.reverse := by simp
  simp only [splitPath, ht, List.takeWhile_append_of_pos hall, List.dropWhile_append_of_pos hall]
  simp

theorem splitPath_self (hp : '/' ∉ p.toList) : splitPath p = ("", p) := by
  have hall := ne_slash_of_mem_reverse hp
  have htake : p.toList.reverse.takeWhile (fun c => decide (c ≠ '/')) = p.toList.reverse :=
    List.takeWhile_eq_self_iff.2 hall
  have hdrop : p.toList.reverse.dropWhile (fun c => decide (c ≠ '/')) = [] :=
    List.dropWhile_eq_nil_iff.2 hall
  simp only [splitPath, htake, hdrop]
  simp

theorem splitPath_joinPath (hp : IsPlainPart p) (d : String) :
    pathParts (splitPath (joinPath d p)).1 = pathParts d ∧ (splitPath (joinPath d p)).2 = p := by
  rcases joinPath_cases hp d with ⟨rfl, h⟩ | ⟨d', hd, h⟩
  · rw [h, splitPath_self hp.no_slash]
    exact ⟨rfl, rfl⟩
  · rw [h, splitPath_append hp.no_slash]
    exact ⟨hd, rfl⟩

end Paths

namespace FileTree

variable {t t' : FileTree}

theorem lookup_put (t : FileTree) (parts : List String) (e : TreeEntry) (key : List String) :
    (t.put parts e).entries.lookup key = if key = parts then some e else t.entries.lookup key := by
  have hlast : List.lookup key [(parts, e)] = if key = parts then some e else none := by
    by_cases hk : key = parts
    · simp [hk]
    · have hne : (key == parts) = false := by simp [hk]
      simp [List.lookup_cons, hne, hk]
  simp only [put]
  induction t.entries with
  | nil => rw [List.filter_nil, List.nil_append, hlast, List.lookup_nil]
  | cons x xs ih =>
      by_cases hx : x.1 = parts
      · have hskip : (x :: xs).filter (fun y => decide (y.1 ≠ parts)) =
            xs.filter fun y => decide (y.1 ≠ parts) :=
          List.filter_cons_of_neg (by simp [hx])
        rw [hskip, ih, List.lookup_cons]
        by_cases hk : key = parts
        · simp [hk]
        · have hkx : (key == x.1) = false := by simp [hx, hk]
          simp [hk, hkx]
      · have hkeep : (x :: xs).filter (fun y => decide (y.1 ≠ parts)) =
            x :: xs.filter fun y => decide (y.1 ≠ parts) :=
          List.filter_cons_of_pos (by simp [hx])
        rw [hkeep, List.cons_append, List.lookup_cons, List.lookup_cons, ih]
        by_cases hk : key = x.1
        · simp [hk, hx]
        · have hkx : (key == x.1) = false := by simp [hk]
          simp [hkx]

theorem on_way_iff {above ps key : List String} {p : String} :
    (key ≠ above ∧ above <+: key ∧ key <+: above ++ p :: ps) ↔
      key = above ++ [p] ∨
        (key ≠ above ++ [p] ∧ above ++ [p] <+: key ∧ key <+: above ++ [p] ++ ps) := by
  have hsplit : above ++ [p] ++ ps = above ++ p :: ps := by simp
  rw [hsplit]
  constructor
  · rintro ⟨hne, ⟨qs, rfl⟩, hle⟩
    cases qs with
    | nil => exact absurd (List.append_nil above) hne
    | cons q qs =>
        obtain ⟨rfl, hqs⟩ := List.cons_prefix_cons.1 ((List.prefix_append_right_inj above).1 hle)
        cases qs with
        | nil => exact .inl rfl
        | cons r qs =>
            refine .inr ⟨by simp, ?_, hle⟩
            exact ⟨r :: qs, by simp⟩
  · rintro (rfl | ⟨-, hge, hle⟩)
    · refine ⟨by simp, List.prefix_append _ _, ?_⟩
      exact (List.prefix_append_right_inj above).2 (List.cons_prefix_cons.2 ⟨rfl, List.nil_prefix⟩)
    · refine ⟨?_, (List.prefix_append _ _).trans hge, hle⟩
      rintro rfl
      have hlength := hge.length_le
      rw [List.length_append, List.length_singleton] at hlength
      omega

theorem lookup_makeParts? {above ps : List String} (h : t.makeParts? above ps = some t')
    (key : List String) : t'.entries.lookup key =
      if key ≠ above ∧ above <+: key ∧ key <+: above ++ ps then some .directory
      else t.entries.lookup key := by
  induction ps generalizing t above with
  | nil =>
      cases h
      rw [List.append_nil, if_neg]
      rintro ⟨hne, hle, hge⟩
      exact hne (hge.eq_of_length_le hle.length_le)
  | cons p ps ih =>
      simp only [makeParts?] at h
      cases hl : t.entries.lookup (above ++ [p]) with
      | none =>
          rw [hl] at h
          rw [ih h, lookup_put]
          by_cases hk : key = above ++ [p] <;> simp [on_way_iff, hk]
      | some e =>
          rw [hl] at h
          cases e with
          | file bytes => cases h
          | directory =>
              rw [ih h]
              by_cases hk : key = above ++ [p]
              · simp [hk, hl]
              · simp [on_way_iff, hk]

theorem find?_of_ne_nil {path : String} (h : pathParts path ≠ []) :
    t.find? path = t.entries.lookup (pathParts path) := by
  rw [find?]
  split
  · next hp => exact absurd hp h
  · rfl

theorem isDirectory_iff {d : String} : t.isDirectory d = true ↔
    pathParts d = [] ∨ t.entries.lookup (pathParts d) = some .directory := by
  rw [isDirectory, find?]
  cases hp : pathParts d with
  | nil => simp
  | cons p ps =>
      simp only [reduceCtorEq, false_or]
      cases t.entries.lookup (p :: ps) with
      | none => simp
      | some e => cases e <;> simp

theorem lookup_writeBelow? {path : String} {bytes : ByteArray}
    (h : t.writeBelow? path bytes = some t') (key : List String) : t'.entries.lookup key =
      if key = pathParts path then some (.file bytes)
      else if key ≠ [] ∧ key <+: pathParts (splitPath path).1 then some .directory
      else t.entries.lookup key := by
  rw [writeBelow?, makeDirectories?, Option.bind_eq_some_iff] at h
  obtain ⟨made, hmade, hwrite⟩ := h
  rw [write?] at hwrite
  split at hwrite
  · cases hwrite
  · cases hwrite
    rw [lookup_put, lookup_makeParts? hmade]
    simp

theorem isSome_lookup_iff {key : List String} :
    (t.entries.lookup key).isSome = true ↔ ∃ e ∈ t.entries, e.1 = key := by
  rw [Option.isSome_iff_ne_none, ne_eq, List.lookup_eq_none_iff]
  simp only [bne_iff_ne, ne_eq, not_forall, not_not, exists_prop]
  exact ⟨fun ⟨e, he, h⟩ => ⟨e, he, h.symm⟩, fun ⟨e, he, h⟩ => ⟨e, he, h.symm⟩⟩

theorem mem_children {d n : String} :
    n ∈ t.children d ↔ (t.entries.lookup (pathParts d ++ [n])).isSome = true := by
  rw [isSome_lookup_iff, children]
  simp only [List.mem_mergeSort, List.mem_filterMap]
  constructor
  · rintro ⟨e, he, hn⟩
    refine ⟨e, he, ?_⟩
    split at hn
    · next name hlast =>
      split at hn
      · next hd =>
        cases hn
        rw [← hd]
        exact (List.dropLast_append_getLast? _ hlast).symm
      · cases hn
    · cases hn
  · rintro ⟨e, he, hn⟩
    exact ⟨e, he, by simp [hn]⟩

end FileTree

end SchemaDeploy
