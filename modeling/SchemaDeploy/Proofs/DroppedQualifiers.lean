import SchemaDeploy.Proofs.DefinitionHeads
import SchemaDeploy.Proofs.ReferencePlaces

namespace SchemaDeploy

namespace Sql

open Text

variable {name after : List Char} {q : QualifiedName}

/-- A qualifier is bare and reaches as far back as it can. -/
structure IsBareAfter (u x : List Char) : Prop where
  isQualifier : IsQualifier x
  maximal : u.getLast?.all fun c => !isSegmentChar c

section Behind

variable {u x : List Char}

theorem segments_behind (h : IsBareAfter u x) (limit : Nat) :
    segments (limit + 1) ('.' :: (x.reverse ++ u.reverse)) =
      ⟨x, u.reverse⟩ :: segments limit u.reverse := by
  have hu : u.reverse.head?.all fun c => !isSegmentChar c := by
    rw [List.head?_reverse]
    exact h.maximal
  have hs : segment? ('.' :: ((written false x).reverse ++ u.reverse)) = some ⟨x, u.reverse⟩ :=
    segment?_written h.isQualifier hu
  rw [written, mark, if_neg (by decide), List.nil_append, List.append_nil] at hs
  rw [segments, hs]

theorem referenceAt?_dropped (h : IsBareAfter u x) (hu : startsAtBoundary u.reverse = false) :
    referenceAt? name ('.' :: (x.reverse ++ u.reverse)) after =
      if closesName after then some ⟨none, none, String.ofList (upper name)⟩ else none := by
  have hnone : segment? u.reverse = none := by
    apply segment?_eq_none
    intro hdot
    rw [startsAtBoundary, hdot] at hu
    cases hu
  have hstop : segments 1 u.reverse = [] := by
    simp only [segments, hnone]
  have hdot : startsAtBoundary ('.' :: (x.reverse ++ u.reverse)) = true := rfl
  rw [referenceAt?_of_unopened (by simp), segments_behind h, hstop]
  simp [chain?, hu, hdot, QualifiedName.ofFound]

theorem schema_of_referenceAt? (h : IsBareAfter u x) (hu : startsAtBoundary u.reverse = true)
    (hq : referenceAt? name ('.' :: (x.reverse ++ u.reverse)) after = some q) :
    q.schema = some (String.ofList (upper x)) ∧ q.name = String.ofList (upper name) := by
  rw [referenceAt?_of_unopened (by simp), segments_behind h] at hq
  split at hq
  · obtain ⟨found, hfound, rfl⟩ := Option.map_eq_some_iff.1 hq
    have hhead : ∃ rest, found = ⟨x, u.reverse⟩ :: rest := by
      cases hrest : segments 1 u.reverse with
      | nil =>
          rw [hrest, chain?, if_pos hu] at hfound
          exact ⟨_, (Option.some.inj hfound).symm⟩
      | cons d ds =>
          rw [hrest, chain?, if_pos hu] at hfound
          split at hfound <;> exact ⟨_, (Option.some.inj hfound).symm⟩
    obtain ⟨rest, rfl⟩ := hhead
    exact ⟨by simp [QualifiedName.ofFound], rfl⟩
  · cases hq

end Behind

/-- Every place where a text has a name, in any case, stands behind a bare qualifier other than
`schema`. -/
def NamesElsewhere (name schema t : List Char) : Prop :=
  ∀ before n after, t = before ++ (n ++ after) → same n name = true →
    ∃ u x, before = u ++ (x ++ ['.']) ∧ IsBareAfter u x ∧ same x schema = false

/-- Somewhere in a text a name stands behind a bare qualifier that itself stands behind a character
that is no boundary. -/
def DropsQualifier (name t : List Char) : Prop :=
  ∃ u c x n after, t = u ++ c :: (x ++ '.' :: (n ++ after)) ∧ isStartBoundary c = false ∧
    isSegmentChar c = false ∧ IsQualifier x ∧ same n name = true ∧ closesName after = true

theorem namesElsewhere_of_take {schema t u x : List Char}
    (h : ∀ k < t.length + 1, same ((t.drop k).take name.length) name = true →
      t.take k = u ++ (x ++ ['.']))
    (hx : IsBareAfter u x) (hne : same x schema = false) : NamesElsewhere name schema t := by
  rintro before n after rfl hn
  refine ⟨u, x, ?_, hx, hne⟩
  have hat := h before.length (by simp)
  rw [List.drop_left, List.take_left, ← length_eq_of_same hn, List.take_left] at hat
  exact hat hn

theorem reverse_behind (u x : List Char) :
    (u ++ (x ++ ['.'])).reverse = '.' :: (x.reverse ++ u.reverse) := by
  simp

/-- A name that only stands behind other qualifiers counts as one without a qualifier if, and only if,
one of them is dropped. -/
theorem bare_mem_references_iff {schema t : List Char} (hname : name ≠ [])
    (h : NamesElsewhere name schema t) :
    ⟨none, none, String.ofList (upper name)⟩ ∈ references name t ↔ DropsQualifier name t := by
  rw [mem_references_iff, and_iff_right hname]
  constructor
  · rintro ⟨before, n, after, rfl, hn, hr⟩
    obtain ⟨u, x, rfl, hx, -⟩ := h before n after rfl hn
    rw [reverse_behind] at hr
    cases hu : startsAtBoundary u.reverse with
    | true =>
        obtain ⟨hschema, -⟩ := schema_of_referenceAt? hx hu hr
        cases hschema
    | false =>
        have hclose := closesName_of_referenceAt? hr
        rcases List.eq_nil_or_concat' u with rfl | ⟨u, c, rfl⟩
        · cases hu
        · have hmax := hx.maximal
          rw [List.reverse_append, List.reverse_singleton] at hu
          rw [List.getLast?_append, List.getLast?_singleton] at hmax
          exact ⟨u, c, x, n, after, by simp, hu, by simpa using hmax, hx.isQualifier, hn, hclose⟩
  · rintro ⟨u, c, x, n, after, rfl, hc, hsegment, hx, hn, hclose⟩
    have hbare : IsBareAfter (u ++ [c]) x := ⟨hx, by simp [hsegment]⟩
    have hu : startsAtBoundary (u ++ [c]).reverse = false := by
      rw [List.reverse_append, List.reverse_singleton]
      exact hc
    refine ⟨u ++ [c] ++ (x ++ ['.']), n, after, by simp, hn, ?_⟩
    rw [reverse_behind, referenceAt?_dropped hbare hu, if_pos hclose]

theorem mem_references_elsewhere {schema t : List Char} (h : NamesElsewhere name schema t)
    (hq : q ∈ references name t) : q = ⟨none, none, String.ofList (upper name)⟩ ∨
      ∃ x, IsQualifier x ∧ same x schema = false ∧ q.schema = some (String.ofList (upper x)) ∧
        q.name = String.ofList (upper name) := by
  obtain ⟨-, before, n, after, rfl, hn, hr⟩ := mem_references_iff.1 hq
  obtain ⟨u, x, rfl, hx, hne⟩ := h before n after rfl hn
  rw [reverse_behind] at hr
  cases hu : startsAtBoundary u.reverse with
  | true =>
      obtain ⟨hschema, hname⟩ := schema_of_referenceAt? hx hu hr
      exact .inr ⟨x, hx.isQualifier, hne, hschema, hname⟩
  | false =>
      rw [referenceAt?_dropped hx hu] at hr
      split at hr
      · exact .inl (Option.some.inj hr).symm
      · cases hr

end Sql

namespace Dependency

open Text Sql

theorem not_dot_mem {x : List Char} (h : IsQualifier x) : '.' ∉ x := fun hx =>
  absurd (h.2 '.' hx) (by decide)

theorem upper_of_isQualifier {x : List Char} (h : IsQualifier x) :
    upper x = x.map Char.toUpper := by
  apply upper_eq_map_of_ascii
  intro c hc
  have hn := toNat_of_isSegmentChar (h.2 c hc)
  omega

theorem same_upper_of_isQualifier {x : List Char} (h : IsQualifier x) : same x (upper x) = true := by
  rw [upper_of_isQualifier h, same, List.map_map, beq_iff_eq]
  apply List.map_congr_left
  intro c _
  exact (Char.toLower_toUpper_eq_toLower c).symm

theorem not_dot_mem_upper {x : List Char} (h : IsQualifier x) : '.' ∉ upper x :=
  not_dot_mem (h.of_same (same_symm (same_upper_of_isQualifier h)))

theorem dotted_inj {a b s t : String} (hs : '.' ∉ s.toList) (ht : '.' ∉ t.toList) :
    a ++ "." ++ s = b ++ "." ++ t ↔ a = b ∧ s = t := by
  have hpieces {u v w : List Char} (hv : '.' ∉ v) (h : '.' :: v = u ++ '.' :: w) : u = [] := by
    cases u with
    | nil => rfl
    | cons c u =>
        injection h with _ htail
        exact (hv (by simp [htail])).elim
  constructor
  · intro h
    have hdot : ".".toList = ['.'] := rfl
    have hlist := congrArg String.toList h
    simp only [String.toList_append, hdot, List.append_assoc, List.singleton_append] at hlist
    have hsame : a.toList = b.toList := by
      rcases List.append_eq_append_iff.1 hlist with ⟨u, hb, hrest⟩ | ⟨u, ha, hrest⟩
      · rw [hb, hpieces hs hrest, List.append_nil]
      · rw [ha, hpieces ht hrest, List.append_nil]
    rw [hsame, List.append_cancel_left_eq, List.cons.injEq] at hlist
    exact ⟨String.toList_inj.1 hsame, String.toList_inj.1 hlist.2⟩
  · rintro ⟨rfl, rfl⟩
    rfl

theorem isEarlierVersion_of_state {subject : Script} (h : subject.version = none)
    (candidate : Script) : isEarlierVersion subject candidate = false := by
  rw [isEarlierVersion, h]

/-- A script that only names a candidate behind other qualifiers names it exactly when it drops one
of them and the candidate stands in its own schema. -/
theorem names_elsewhere_iff {subject candidate : Script} {t : List Char}
    (hname : IsQualifier candidate.name.toList) (hschema : IsQualifier candidate.schema.toList)
    (helse : NamesElsewhere candidate.name.toList candidate.schema.toList t) :
    names subject t candidate = true ↔
      subject.database ++ "." ++ subject.schema = candidate.database ++ "." ++ candidate.schema ∧
        upperText candidate.name = candidate.name ∧ DropsQualifier candidate.name.toList t := by
  have hdot := not_dot_mem hname
  have hupperdot : '.' ∉ (upperText candidate.name).toList := by
    rw [upperText, String.toList_ofList]
    exact not_dot_mem_upper hname
  simp only [names, List.any_eq_true, beq_iff_eq]
  constructor
  · rintro ⟨q, hq, hresolve⟩
    rcases mem_references_elsewhere helse hq with rfl | ⟨x, hx, hne, hqs, hqn⟩
    · obtain ⟨hparts, hn⟩ := (dotted_inj hupperdot hdot).1 hresolve
      exact ⟨hparts, hn, (bare_mem_references_iff hname.1 helse).1 hq⟩
    · -- the written schema would have to be the candidate's, up to case
      rw [QualifiedName.resolve, hqs, hqn] at hresolve
      obtain ⟨hparts, -⟩ := (dotted_inj hupperdot hdot).1 hresolve
      have hxdot : '.' ∉ (String.ofList (upper x)).toList := by
        rw [String.toList_ofList]
        exact not_dot_mem_upper hx
      obtain ⟨-, hxs⟩ := (dotted_inj hxdot (not_dot_mem hschema)).1 hparts
      have hsame := same_upper_of_isQualifier hx
      rw [← String.toList_ofList (l := upper x)] at hsame
      rw [← hxs] at hne
      exact absurd hsame (by simpa using hne)
  · rintro ⟨hparts, hn, hdrops⟩
    refine ⟨_, (bare_mem_references_iff hname.1 helse).2 hdrops, ?_⟩
    exact (dotted_inj hupperdot hdot).2 ⟨hparts, hn⟩

/-- A script that only names a candidate behind other qualifiers depends on it nevertheless, if the
candidate stands in its own schema and one of the qualifiers is dropped. -/
theorem mem_inferred_elsewhere_iff {subject candidate : Script} {pool : List Script} {j : Nat}
    (hj : pool[j]? = some candidate) (hstate : subject.version = none)
    (hname : IsQualifier candidate.name.toList) (hschema : IsQualifier candidate.schema.toList)
    (helse : NamesElsewhere candidate.name.toList candidate.schema.toList
      (clean subject.content.toList)) :
    j ∈ inferred subject pool ↔ isForeign subject (clean subject.content.toList) = false ∧
      candidate.fullName ≠ subject.fullName ∧
      subject.database ++ "." ++ subject.schema = candidate.database ++ "." ++ candidate.schema ∧
      upperText candidate.name = candidate.name ∧
      DropsQualifier candidate.name.toList (clean subject.content.toList) := by
  rw [mem_inferred, hj]
  simp only [Option.some.injEq, exists_eq_left', Infers, dependsOn,
    isEarlierVersion_of_state hstate, Bool.or_false, Bool.and_eq_true, Bool.not_eq_true', bne_iff_ne,
    names_elsewhere_iff hname hschema helse, and_assoc]

def addedTax : Script :=
  Script.state "DB" "S" .view "TOP" "CREATE VIEW TOP AS SELECT 1+B.TAX(2) AS X"

def taxOfS : Script :=
  Script.state "DB" "S" .function "TAX" "CREATE FUNCTION TAX(N INT) RETURNS INT AS 'N'"

theorem namesElsewhere_addedTax :
    NamesElsewhere taxOfS.name.toList taxOfS.schema.toList (clean addedTax.content.toList) := by
  have hbare : IsBareAfter "CREATE VIEW TOP AS SELECT 1+".toList "B".toList :=
    ⟨by decide +kernel, by decide +kernel⟩
  exact namesElsewhere_of_take (by decide +kernel) hbare (by decide +kernel)

theorem mem_inferred_addedTax : 0 ∈ inferred addedTax [taxOfS] := by
  have hdrops : DropsQualifier taxOfS.name.toList (clean addedTax.content.toList) :=
    ⟨"CREATE VIEW TOP AS SELECT 1".toList, '+', "B".toList, "TAX".toList, "(2) AS X".toList,
      by decide +kernel, by decide, by decide, by decide +kernel, by decide +kernel, by decide +kernel⟩
  refine (mem_inferred_elsewhere_iff rfl rfl (by decide +kernel) (by decide +kernel)
    namesElsewhere_addedTax).2 ?_
  exact ⟨by decide +kernel, by decide +kernel, by decide +kernel, by decide +kernel, hdrops⟩

/-- A qualifier is not always taken, even if all places of a name stand behind one. -/
theorem not_forall_elsewhere_not_mem_inferred :
    ¬ ∀ (subject candidate : Script) (pool : List Script) (j : Nat), pool[j]? = some candidate →
      subject.version = none → IsIdentifier candidate.name.toList →
      IsIdentifier candidate.schema.toList →
      NamesElsewhere candidate.name.toList candidate.schema.toList (clean subject.content.toList) →
      j ∉ inferred subject pool := by
  intro h
  have hmem : 0 ∈ inferred addedTax [taxOfS] := by
    decide +kernel
  exact h addedTax taxOfS [taxOfS] 0 rfl rfl (by decide +kernel) (by decide +kernel)
    namesElsewhere_addedTax hmem

end Dependency

end SchemaDeploy
