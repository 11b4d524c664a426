import SchemaDeploy.Proofs.ClosedText
import SchemaDeploy.Proofs.FoldedText

namespace SchemaDeploy.Sql

open Text

variable {c d : Char} {s t u x : List Char} {gap : Bool} {n : Nat}

/-- The literals with their quotes. The first `skip` characters belong to something that is already
recognised. Double-quoted names hold no literal, and an open literal ends the search. -/
def literalsFrom : Nat → List Char → List (List Char)
  | _, [] => []
  | skip + 1, _ :: t => literalsFrom skip t
  | 0, c :: t =>
    if c = '"' then literalsFrom (quotedLength t) t
    else if c = '\'' then
      match literalLength? t with
      | none => []
      | some n => ('\'' :: t.take n) :: literalsFrom n t
    else literalsFrom 0 t

def literals (t : List Char) : List (List Char) :=
  literalsFrom 0 t

example : literals "SELECT 'it''s', \"x'y\" FROM T WHERE A = '\\''".toList =
    ["'it''s'".toList, "'\\''".toList] := by
  decide

section Search

theorem literalsFrom_eq (n : Nat) (t : List Char) : literalsFrom n t = literals (t.drop n) := by
  induction t generalizing n with
  | nil => cases n <;> rfl
  | cons c t ih =>
      cases n with
      | zero => rfl
      | succ n => exact ih n

theorem literals_other (hc : c ≠ '"' ∧ c ≠ '\'') (t : List Char) :
    literals (c :: t) = literals t := by
  rw [literals, literalsFrom, if_neg hc.1, if_neg hc.2, literals]

theorem literals_quoted (hx : '"' ∉ x) (t : List Char) :
    literals ('"' :: (x ++ '"' :: t)) = literals t := by
  have htext : x ++ '"' :: t = x ++ ['"'] ++ t := by simp
  rw [literals, literalsFrom, if_pos rfl, literalsFrom_eq, quotedLength_append hx, htext,
    List.drop_left]

theorem literals_open_quoted (hx : '"' ∉ x) : literals ('"' :: x) = [] := by
  have hlength : quotedLength x = x.length + 1 := by
    have hall := takeWhile_of_not_mem hx []
    rw [List.append_nil, List.takeWhile_nil, List.append_nil] at hall
    rw [quotedLength, hall]
  rw [literals, literalsFrom, if_pos rfl, literalsFrom_eq, hlength,
    List.drop_eq_nil_of_le (Nat.le_succ _)]
  rfl

theorem literals_literal (h : literalLength? t = some n) :
    literals ('\'' :: t) = ('\'' :: t.take n) :: literals (t.drop n) := by
  rw [literals, literalsFrom, if_neg (by decide), if_pos rfl, h, ← literalsFrom_eq]

theorem literals_open (h : literalLength? t = none) : literals ('\'' :: t) = [] := by
  rw [literals, literalsFrom, if_neg (by decide), if_pos rfl, h]

theorem exists_of_literalLength? (h : literalLength? t = some n) :
    ∃ u v, t = u ++ v ∧ u.length = n ∧ u.getLast? = some '\'' := by
  fun_induction literalLength? t generalizing n with
  | case1 => cases h
  | case2 c t ih =>
      obtain ⟨m, hm, rfl⟩ := Option.map_eq_some_iff.1 h
      obtain ⟨u, v, rfl, rfl, hu⟩ := ih hm
      exact ⟨'\\' :: c :: u, v, rfl, rfl, getLast?_cons_of_some (getLast?_cons_of_some hu)⟩
  | case3 t ih =>
      obtain ⟨m, hm, rfl⟩ := Option.map_eq_some_iff.1 h
      obtain ⟨u, v, rfl, rfl, hu⟩ := ih hm
      exact ⟨'\'' :: '\'' :: u, v, rfl, rfl, getLast?_cons_of_some (getLast?_cons_of_some hu)⟩
  | case4 t _ =>
      cases h
      exact ⟨['\''], t, rfl, rfl, rfl⟩
  | case5 c t _ _ _ ih =>
      obtain ⟨m, hm, rfl⟩ := Option.map_eq_some_iff.1 h
      obtain ⟨u, v, rfl, rfl, hu⟩ := ih hm
      exact ⟨c :: u, v, rfl, rfl, getLast?_cons_of_some hu⟩

end Search

section Folded

def FoldsLiteral (gap : Bool) (t : List Char) : Prop :=
  literalLength? (squeeze gap t) =
    (literalLength? t).map fun n => (squeeze gap (t.take n)).length

theorem literalLength?_space (t : List Char) :
    literalLength? (' ' :: t) = (literalLength? t).map (· + 1) :=
  literalLength?_cons (by decide) t

theorem squeeze_true_cons (hc : isBlank c = false) (t : List Char) :
    squeeze true (c :: t) = ' ' :: squeeze false (c :: t) := by
  rw [squeeze_cons hc, squeeze_cons hc]
  rfl

theorem squeeze_false_cons (hc : isBlank c = false) (t : List Char) :
    squeeze false (c :: t) = c :: squeeze false t := by
  rw [squeeze_cons hc]
  rfl

theorem literalLength?_ne_zero (t : List Char) : literalLength? t ≠ some 0 := by
  fun_cases literalLength? t <;> simp

theorem FoldsLiteral.withGap (hc : isBlank c = false) (h : FoldsLiteral false (c :: t))
    (gap : Bool) : FoldsLiteral gap (c :: t) := by
  cases gap with
  | false => exact h
  | true =>
      rw [FoldsLiteral, squeeze_true_cons hc, literalLength?_space, h, Option.map_map]
      refine Option.map_congr fun n hn => ?_
      cases n with
      | zero => exact absurd hn (literalLength?_ne_zero _)
      | succ n => rw [Function.comp, List.take_succ_cons, squeeze_true_cons hc, List.length_cons]

theorem foldsLiteral_escape (ih : ∀ gap, FoldsLiteral gap t) (d : Char) :
    FoldsLiteral false ('\\' :: d :: t) := by
  rw [FoldsLiteral, squeeze_false_cons (by decide), literalLength?, Option.map_map]
  cases hd : isBlank d with
  | false =>
      rw [squeeze_false_cons hd, literalLength?, ih false, Option.map_map]
      refine Option.map_congr fun n _ => ?_
      simp only [Function.comp, List.take_succ_cons]
      rw [squeeze_false_cons (by decide), squeeze_false_cons hd, List.length_cons, List.length_cons]
  | true =>
      have ih := ih true
      rw [squeeze_blank hd]
      rcases exists_squeeze_true t with h | ⟨u, h⟩ <;> rw [FoldsLiteral, h] at ih
      · rw [h, Option.map_eq_none_iff.1 ih.symm]
        rfl
      · rw [literalLength?_space] at ih
        have hnext : (literalLength? u).map (· + 2) = ((literalLength? u).map (· + 1)).map (· + 1) := by
          rw [Option.map_map]
          rfl
        rw [h, literalLength?, hnext, ih, Option.map_map]
        refine Option.map_congr fun n _ => ?_
        simp only [Function.comp, List.take_succ_cons]
        rw [squeeze_false_cons (by decide), squeeze_blank hd, List.length_cons]

theorem head?_squeeze_false (t : List Char) (h : t.head? ≠ some '\'') :
    (squeeze false t).head? ≠ some '\'' := by
  cases t with
  | nil => exact h
  | cons c t =>
      cases hc : isBlank c with
      | false => rwa [squeeze_false_cons hc]
      | true =>
          rw [squeeze_blank hc]
          rcases exists_squeeze_true t with h | ⟨u, h⟩ <;> rw [h] <;> simp

theorem foldsLiteral (gap : Bool) (t : List Char) : FoldsLiteral gap t := by
  have hquote : isBlank '\'' = false := by decide
  fun_induction literalLength? t generalizing gap with
  | case1 => rfl
  | case2 d t ih => exact (foldsLiteral_escape ih d).withGap (by decide) gap
  | case3 t ih =>
      refine FoldsLiteral.withGap hquote ?_ gap
      rw [FoldsLiteral, squeeze_false_cons hquote, squeeze_false_cons hquote, literalLength?, ih,
        literalLength?, Option.map_map, Option.map_map]
      refine Option.map_congr fun n _ => ?_
      simp only [Function.comp, List.take_succ_cons]
      rw [squeeze_false_cons hquote, squeeze_false_cons hquote, List.length_cons, List.length_cons]
  | case4 t hnext =>
      refine FoldsLiteral.withGap hquote ?_ gap
      have hhead : t.head? ≠ some '\'' := by
        intro h
        obtain ⟨u, rfl⟩ := List.head?_eq_some_iff.1 h
        exact hnext u rfl
      rw [FoldsLiteral, squeeze_false_cons hquote, literalLength?_of_head hhead,
        literalLength?_of_head (head?_squeeze_false t hhead)]
      rfl
  | case5 c t hescape _ hquote ih =>
      have hlength : literalLength? (c :: t) = (literalLength? t).map (· + 1) := by
        rw [literalLength?] <;> assumption
      cases hc : isBlank c with
      | true =>
          rw [FoldsLiteral, squeeze_blank hc, ih, hlength, Option.map_map]
          refine Option.map_congr fun n _ => ?_
          rw [Function.comp, List.take_succ_cons, squeeze_blank hc]
      | false =>
          refine FoldsLiteral.withGap hc ?_ gap
          rw [FoldsLiteral, squeeze_false_cons hc, hlength]
          by_cases hslash : c = '\\'
          · subst hslash
            cases t with
            | nil => rfl
            | cons d t => exact (hescape d t rfl rfl).elim
          · rw [literalLength?_cons ⟨fun h => hquote h, hslash⟩, ih, Option.map_map, Option.map_map]
            refine Option.map_congr fun n _ => ?_
            simp only [Function.comp, List.take_succ_cons]
            rw [squeeze_false_cons hc, List.length_cons]

theorem mem_squeeze {e : Char} (h : e ∈ squeeze gap t) : e = ' ' ∨ e ∈ t := by
  induction t generalizing gap with
  | nil => cases h
  | cons c t ih =>
      rw [squeeze] at h
      grind

theorem exists_squeeze_append (hd : isBlank d = false) (gap : Bool) (x t : List Char) :
    ∃ y, squeeze gap (x ++ d :: t) = y ++ d :: squeeze false t ∧ ∀ e ∈ y, e = ' ' ∨ e ∈ x := by
  induction x generalizing gap with
  | nil =>
      cases gap with
      | false => exact ⟨[], squeeze_false_cons hd t, by simp⟩
      | true =>
          refine ⟨[' '], ?_, by simp⟩
          rw [List.nil_append, squeeze_true_cons hd, squeeze_false_cons hd, List.singleton_append]
  | cons c x ih =>
      cases hc : isBlank c with
      | true =>
          obtain ⟨y, hy, hmem⟩ := ih true
          refine ⟨y, by rw [List.cons_append, squeeze_blank hc, hy], fun e he => ?_⟩
          exact (hmem e he).imp_right (List.mem_cons_of_mem c)
      | false =>
          obtain ⟨y, hy, hmem⟩ := ih false
          refine ⟨(if gap then [' '] else []) ++ c :: y, ?_, fun e he => ?_⟩
          · rw [List.cons_append, squeeze_cons hc, hy]
            cases gap <;> rfl
          · cases gap <;> grind

theorem literals_squeeze_gap (gap : Bool) (t : List Char) :
    literals (squeeze gap t) = literals (squeeze false t) := by
  cases gap with
  | false => rfl
  | true =>
      cases t with
      | nil => rfl
      | cons c t =>
          cases hc : isBlank c with
          | true => rw [squeeze_blank hc, squeeze_blank hc]
          | false => rw [squeeze_true_cons hc, literals_other (by decide)]

def FoldsLiterals (t : List Char) : Prop :=
  literals (squeeze false t) = (literals t).map collapse

theorem foldsLiterals_name (ih : ∀ v : List Char, v.length ≤ t.length → FoldsLiterals v) :
    FoldsLiterals ('"' :: t) := by
  rw [FoldsLiterals, squeeze_false_cons (by decide)]
  by_cases hname : '"' ∈ t
  · obtain ⟨x, v, rfl, hx⟩ := List.eq_append_cons_of_mem hname
    obtain ⟨y, hy, hmem⟩ := exists_squeeze_append (d := '"') (by decide) false x v
    have hfolded : '"' ∉ y := fun h => (hmem _ h).elim (by decide) hx
    have hv : FoldsLiterals v := ih v (by simp; omega)
    rw [hy, literals_quoted hfolded, hv, literals_quoted hx]
  · have hfolded : '"' ∉ squeeze false t := fun h => (mem_squeeze h).elim (by decide) hname
    rw [literals_open_quoted hfolded, literals_open_quoted hname]
    rfl

theorem foldsLiterals_literal (ih : ∀ v : List Char, v.length ≤ t.length → FoldsLiterals v) :
    FoldsLiterals ('\'' :: t) := by
  have hquote : isBlank '\'' = false := by decide
  rw [FoldsLiterals, squeeze_false_cons hquote]
  have hfolds := foldsLiteral false t
  cases hlength : literalLength? t with
  | none =>
      rw [FoldsLiteral, hlength] at hfolds
      rw [literals_open hlength, literals_open hfolds]
      rfl
  | some n =>
      obtain ⟨u, v, rfl, rfl, hu⟩ := exists_of_literalLength? hlength
      have hv : FoldsLiterals v := ih v (by simp)
      have hclosed : u.getLast?.any isBlank = false := by rw [hu, Option.any_some, hquote]
      have hne : u ≠ [] := by
        rintro rfl
        cases hu
      have hfold : collapse ('\'' :: u) = '\'' :: squeeze false u := by
        rw [collapse_eq, squeeze_true_cons hquote, squeeze_false_cons hquote]
        rfl
      rw [FoldsLiteral, hlength, Option.map_some, List.take_left] at hfolds
      rw [squeeze_append hne, hclosed] at hfolds ⊢
      rw [literals_literal hfolds, literals_literal hlength, List.take_left, List.drop_left,
        List.take_left, List.drop_left, hv, List.map_cons, hfold]

theorem foldsLiterals (t : List Char) : FoldsLiterals t := by
  induction hlength : t.length using Nat.strongRecOn generalizing t with
  | ind k ih =>
  subst hlength
  cases t with
  | nil => rfl
  | cons c t =>
      have ih (v : List Char) (hv : v.length ≤ t.length) : FoldsLiterals v :=
        ih v.length (Nat.lt_succ_of_le hv) v rfl
      by_cases hname : c = '"'
      · exact hname ▸ foldsLiterals_name ih
      by_cases hquote : c = '\''
      · exact hquote ▸ foldsLiterals_literal ih
      have ht : FoldsLiterals t := ih t le_rfl
      rw [FoldsLiterals, literals_other ⟨hname, hquote⟩]
      cases hc : isBlank c with
      | true => rw [squeeze_blank hc, literals_squeeze_gap, ht]
      | false => rw [squeeze_false_cons hc, literals_other ⟨hname, hquote⟩, ht]

theorem literals_collapse (t : List Char) : literals (collapse t) = (literals t).map collapse := by
  have ht : literals (squeeze true t) = (literals t).map collapse :=
    (literals_squeeze_gap true t).trans (foldsLiterals t)
  rw [← ht, collapse_eq]
  rcases exists_squeeze_true t with h | ⟨u, h⟩
  · rw [h]
    rfl
  · rw [h, literals_other (by decide)]
    rfl

end Folded

section Behind

theorem literalLength?_of_not_mem (ht : '\'' ∉ t) : literalLength? t = none := by
  cases h : literalLength? t with
  | none => rfl
  | some n =>
      obtain ⟨u, v, rfl, -, hu⟩ := exists_of_literalLength? h
      exact absurd (List.mem_append_left v (List.mem_of_getLast? hu)) ht

theorem literalLength?_append (ht : '\'' ∉ t) (s : List Char) :
    literalLength? (s ++ t) = literalLength? s := by
  fun_induction literalLength? s with
  | case1 => exact literalLength?_of_not_mem ht
  | case2 d s ih => rw [List.cons_append, List.cons_append, literalLength?, ih]
  | case3 s ih => rw [List.cons_append, List.cons_append, literalLength?, ih]
  | case4 s hnext =>
      refine literalLength?_of_head fun h => ?_
      cases s with
      | nil => exact ht (List.mem_of_head? h)
      | cons d s =>
          obtain rfl := Option.some.inj h
          exact hnext s rfl
  | case5 c s hescape _ hquote ih =>
      by_cases hslash : c = '\\'
      · subst hslash
        cases s with
        | cons d s => exact (hescape d s rfl rfl).elim
        | nil =>
            have hopen : '\'' ∉ '\\' :: t := by simp [ht]
            rw [List.singleton_append, literalLength?_of_not_mem hopen]
            rfl
      · rw [List.cons_append, literalLength?_cons ⟨fun h => hquote h, hslash⟩, ih]

theorem literals_of_not_mem (ht : '\'' ∉ t) : literals t = [] := by
  have hfrom (n : Nat) : literalsFrom n t = [] := by
    induction t generalizing n with
    | nil => cases n <;> rfl
    | cons c t ih =>
        rw [List.mem_cons, not_or] at ht
        cases n with
        | succ n => exact ih ht.2 n
        | zero => rw [literalsFrom, if_neg (Ne.symm ht.1), ih ht.2, ih ht.2, ite_self]
  exact hfrom 0

theorem literals_drop_quotedLength (s t : List Char) :
    literals (s.drop (quotedLength (s ++ t))) = literals (s.drop (quotedLength s)) := by
  by_cases hname : '"' ∈ s
  · obtain ⟨x, y, rfl, hx⟩ := List.eq_append_cons_of_mem hname
    have htext : x ++ '"' :: y ++ t = x ++ '"' :: (y ++ t) := by simp
    rw [htext, quotedLength_append hx, quotedLength_append hx]
  · have hlong (u : List Char) : s.length ≤ quotedLength (s ++ u) := by
      rw [quotedLength, takeWhile_of_not_mem hname, List.length_append]
      omega
    have hself := hlong []
    rw [List.append_nil] at hself
    rw [List.drop_eq_nil_of_le (hlong t), List.drop_eq_nil_of_le hself]

theorem literalsFrom_append (ht : '\'' ∉ t) (n : Nat) (s : List Char) :
    literalsFrom n (s ++ t) = literalsFrom n s := by
  induction s generalizing n with
  | nil =>
      have hrest : literals (t.drop n) = [] :=
        literals_of_not_mem fun h => ht (List.mem_of_mem_drop h)
      rw [List.nil_append, literalsFrom_eq, hrest, literalsFrom_eq, List.drop_nil]
      rfl
  | cons c s ih =>
      cases n with
      | succ n => exact ih n
      | zero =>
          rw [List.cons_append, literalsFrom, literalsFrom, literalLength?_append ht, ih 0,
            ih (quotedLength _), literalsFrom_eq, literalsFrom_eq (quotedLength s),
            literals_drop_quotedLength]
          cases hlength : literalLength? s with
          | none => rfl
          | some n =>
              obtain ⟨u, v, rfl, rfl, -⟩ := exists_of_literalLength? hlength
              dsimp only
              rw [ih, List.append_assoc, List.take_left, List.take_left]

theorem literals_append (ht : '\'' ∉ t) (s : List Char) : literals (s ++ t) = literals s :=
  literalsFrom_append ht 0 s

end Behind

end SchemaDeploy.Sql
