import SchemaDeploy.Proofs.ByteSearch
import SchemaDeploy.Proofs.HiddenText
import SchemaDeploy.Proofs.QueryLiterals

namespace SchemaDeploy.Sql

open Text

variable {t u : List Char}

section Ends

def offsetOf? (c : Char) : List Char → Option Nat
  | [] => none
  | d :: t => if d = c then some 0 else (offsetOf? c t).map (byteSize [d] + ·)

theorem offsetOf?_append {c : Char} {x : List Char} (hx : c ∉ x) (v : List Char) :
    offsetOf? c (x ++ c :: v) = some (byteSize x) := by
  induction x with
  | nil => rw [List.nil_append, offsetOf?, if_pos rfl, byteSize_nil]
  | cons d x ih =>
      obtain ⟨hd, hx⟩ := not_or.1 (List.mem_cons.not.1 hx)
      rw [List.cons_append, offsetOf?, if_neg (Ne.symm hd), ih hx, Option.map_some, byteSize_cons d x]

theorem offsetOf?_eq_none {c : Char} (h : c ∉ t) : offsetOf? c t = none := by
  induction t with
  | nil => rfl
  | cons d t ih =>
      obtain ⟨hd, ht⟩ := not_or.1 (List.mem_cons.not.1 h)
      rw [offsetOf?, if_neg (Ne.symm hd), ih ht, Option.map_none]

def literalTurn (t : List Char) (j : Nat) : Option (Nat ⊕ Option Nat) :=
  if j < byteSize t then do
    let b ← byte? t j
    if b = '\\' then return .inl (j + 2)
    else if b = '\'' then
      if byte? t (j + 1) = some '\'' then return .inl (j + 2)
      else return .inr (some (j + 1))
    else return .inl (j + 1)
  else return .inr none

/-- The offset behind the literal whose opening quote is at an offset, if the literal is closed. -/
def literalEnd? (t : List Char) (start : Nat) : Option (Option Nat) :=
  walk? t (literalTurn t) (start + 1)

theorem literalLength?_two {c : Char} {v : List Char}
    (h : c = '\\' ∨ c = '\'' ∧ v.head? = some '\'') :
    literalLength? (c :: v) = (literalLength? (v.drop 1)).map (· + (c :: v.take 1).length) := by
  cases v with
  | nil =>
      rcases h with rfl | ⟨-, h⟩
      · rfl
      · cases h
  | cons d v =>
      rcases h with rfl | ⟨rfl, h⟩
      · rfl
      · cases h
        rfl

/-- The walk is behind a part of the literal, and what is left decides where the literal ends. -/
def IsInLiteral (a u : List Char) (j : Nat) : Prop :=
  ∃ x v, u = x ++ v ∧ ReadTo (a ++ '\'' :: u) j (a ++ '\'' :: x) v ∧
    literalLength? u = (literalLength? v).map (· + x.length)

theorem isInLiteral_of_prefix {a x y v w : List Char} {j : Nat} (hw : w = y ++ v)
    (hread : ReadTo (a ++ '\'' :: (x ++ w)) j (a ++ '\'' :: (x ++ y)) v)
    (hlength : literalLength? (x ++ w) = (literalLength? w).map (· + x.length))
    (hpart : literalLength? w = (literalLength? v).map (· + y.length)) :
    IsInLiteral a (x ++ w) j := by
  refine ⟨x ++ y, v, by rw [hw, List.append_assoc], hread, ?_⟩
  rw [hlength, hpart, Option.map_map]
  congr 1
  funext n
  simp only [Function.comp_apply, List.length_append]
  omega

theorem literalTurn_of_byte {b c : Char} {v : List Char} {j : Nat} (hj : j < byteSize t)
    (hb : byte? t j = some b) (hbyte : IsByteOf b c)
    (hv : c.toNat < 128 → MayBeByteOf (byte? t (j + 1)) v.head?) :
    literalTurn t j = some (if c = '\\' ∨ c = '\'' ∧ v.head? = some '\'' then .inl (j + 2)
      else if c = '\'' then .inr (some (j + 1)) else .inl (j + 1)) := by
  have hescape : b = '\\' ↔ c = '\\' := hbyte.eq_iff (by decide)
  have hquote : b = '\'' ↔ c = '\'' := hbyte.eq_iff (by decide)
  rw [literalTurn, if_pos hj, hb, Option.bind_eq_bind, Option.bind_some]
  simp only [hescape, hquote]
  by_cases hslash : c = '\\'
  · simp [hslash]
  by_cases hend : c = '\''
  · have hnext : byte? t (j + 1) = some '\'' ↔ v.head? = some '\'' :=
      (hv (by rw [hend]; decide)).eq_some_iff (by decide)
    by_cases hdouble : v.head? = some '\'' <;> simp [hend, hnext, hdouble]
  · simp [hslash, hend]

theorem IsInLiteral.turn {a : List Char} {j : Nat} (h : IsInLiteral a u j) :
    (j < byteSize (a ++ '\'' :: u) ∧ ∃ k, literalTurn (a ++ '\'' :: u) j = some (.inl k) ∧
      IsInLiteral a u k ∧ j < k) ∨ literalTurn (a ++ '\'' :: u) j =
        some (.inr ((literalLength? u).map fun n => byteSize (a ++ '\'' :: u.take n))) := by
  obtain ⟨x, v, rfl, hread, hlength⟩ := h
  by_cases hj : j < byteSize (a ++ '\'' :: (x ++ v))
  · obtain ⟨b, hb, ⟨hwide, hnext⟩ | ⟨c, v, rfl, rfl, hbyte, hv⟩⟩ := hread.turn hj
    · have hne {d : Char} (hd : d.toNat < 128) : b ≠ d := ne_of_wide hwide hd
      refine .inl ⟨hj, j + 1, ?_, ⟨x, v, rfl, hnext, hlength⟩, Nat.lt_succ_self j⟩
      rw [literalTurn, if_pos hj, hb]
      simp [hne]
    rw [literalTurn_of_byte hj hb hbyte hv]
    by_cases htwo : c = '\\' ∨ c = '\'' ∧ v.head? = some '\''
    · have hc : c.toNat < 128 := by rcases htwo with rfl | ⟨rfl, -⟩ <;> decide
      have hnext := ReadTo.next_two (a ++ '\'' :: x) hc v
      have hsplit : c :: v = (c :: v.take 1) ++ v.drop 1 := by
        rw [List.cons_append, List.take_append_drop]
      exact .inl ⟨hj, _, by rw [if_pos htwo],
        isInLiteral_of_prefix hsplit (by simpa using hnext) hlength (literalLength?_two htwo), by omega⟩
    rw [if_neg htwo]
    simp only [not_or, not_and] at htwo
    by_cases hend : c = '\''
    · subst hend
      have htake : (x ++ '\'' :: v).take (1 + x.length) = x ++ ['\''] := by
        rw [Nat.add_comm, List.take_length_add_append]
        rfl
      have hsize : byteSize (a ++ '\'' :: (x ++ ['\''])) = byteSize (a ++ '\'' :: x) + 1 := by
        rw [← List.cons_append, ← List.append_assoc, byteSize_append _ ['\'']]
        rfl
      refine .inr ?_
      rw [if_pos rfl, hlength, literalLength?_of_head (htwo.2 rfl), Option.map_some, Option.map_some,
        htake, hsize]
    · have hnext := ReadTo.next (a ++ '\'' :: x) c v
      exact .inl ⟨hj, _, by rw [if_neg hend],
        isInLiteral_of_prefix (List.singleton_append).symm (by simpa using hnext) hlength
          (literalLength?_cons ⟨hend, htwo.1⟩ v), by omega⟩
  · obtain rfl := hread.eq_nil (not_lt.1 hj)
    refine .inr ?_
    rw [literalTurn, if_neg hj, hlength]
    rfl

theorem literalEnd?_eq (a u : List Char) : literalEnd? (a ++ '\'' :: u) (byteSize a) =
    some ((literalLength? u).map fun n => byteSize (a ++ '\'' :: u.take n)) :=
  walk?_eq (a ++ '\'' :: u) id (fun _ => IsInLiteral.turn)
    ⟨[], u, rfl, ReadTo.next a '\'' u, by simp⟩

end Ends

section Keyword

def endsInAsBytes? (t : List Char) : Option Bool := do
  if ← endsWithBytes? t ['a', 's'] then
    let before ← byteBefore? t (byteSize t - 2)
    return before.any isAsciiBlank
  else return false

def followsAsBytes? (front : List Char) : Option Bool :=
  let trimmed := dropEndWhile isAsciiBlank front
  if byteSize trimmed = byteSize front then some false else endsInAsBytes? trimmed

def endsInAs : List Char → Bool
  | s :: a :: b :: _ => sameLetter 's' s && sameLetter 'a' a && isAsciiBlank b
  | _ => false

theorem followsAs_eq (before : List Char) : followsAs before =
    (before.head?.any isAsciiBlank && endsInAs (before.dropWhile isAsciiBlank)) := by
  rw [followsAs]
  split
  · next h => simp [h, endsInAs, Bool.and_assoc]
  · next h =>
    rw [endsInAs, Bool.and_false]
    exact h

theorem endsInAsBytes?_eq (before : List Char) :
    endsInAsBytes? before.reverse = some (endsInAs before) := by
  rw [endsInAsBytes?, endsWithBytes?_eq, Option.bind_eq_bind, Option.bind_some, endsWithSame,
    List.reverse_reverse]
  rcases before with _ | ⟨s, _ | ⟨a, rest⟩⟩
  · rfl
  · cases hs : sameLetter 's' s <;> simp [dropSame?, hs, endsInAs]
  by_cases hsa : sameLetter 's' s = true ∧ sameLetter 'a' a = true
  · have hkeyword : byteSize [a, s] = 2 := by
      have hsame : same [a, s] ['a', 's'] = true := by
        simp only [sameLetter, beq_iff_eq] at hsa
        simp [same, hsa]
      exact byteSize_of_same hsame
    obtain ⟨x, hx, hlast⟩ := exists_byteBefore? rest.reverse [a, s]
    have htext : (s :: a :: rest).reverse = rest.reverse ++ [a, s] := by simp
    have hany := hlast.any_eq isAsciiTest_isAsciiBlank
    rw [List.getLast?_reverse] at hany
    rw [htext, byteSize_append, hkeyword, Nat.add_sub_cancel, hx]
    cases rest <;> simp_all [dropSame?, endsInAs]
  · cases rest <;> simp_all [dropSame?, endsInAs]

theorem followsAsBytes?_eq (front : List Char) :
    followsAsBytes? front = some (followsAs front.reverse) := by
  generalize hbefore : front.reverse = before
  have htrim : dropEndWhile isAsciiBlank front = (before.dropWhile isAsciiBlank).reverse := by
    rw [dropEndWhile, hbefore]
  have hfront : front = (before.dropWhile isAsciiBlank).reverse ++
      (before.takeWhile isAsciiBlank).reverse := by
    rw [← List.reverse_append, List.takeWhile_append_dropWhile, ← hbefore, List.reverse_reverse]
  have hsize := congrArg byteSize hfront
  rw [byteSize_append] at hsize
  rw [followsAsBytes?, followsAs_eq, htrim]
  cases hblank : before.head?.any isAsciiBlank with
  | false =>
      have htake : before.takeWhile isAsciiBlank = [] := by
        cases before <;> simp_all
      rw [htake, List.reverse_nil, byteSize_nil, Nat.add_zero] at hsize
      rw [if_pos hsize.symm, Bool.false_and]
  | true =>
      have htake : (before.takeWhile isAsciiBlank).reverse ≠ [] := by
        cases before <;> simp_all
      have hpos : byteSize (before.takeWhile isAsciiBlank).reverse ≠ 0 := fun h =>
        htake (eq_nil_of_byteSize h)
      rw [if_neg (by omega), endsInAsBytes?_eq, Bool.true_and]

end Keyword

section Literals

/-- The state of a removal of literals: what starts at `kept` is still to be copied. -/
structure LiteralScan where
  kept : Nat
  offset : Nat
  out : List Char

def stripTurn (t : List Char) (p : LiteralScan) : Option (LiteralScan ⊕ List Char) := do
  let finish : Option (LiteralScan ⊕ List Char) := do
    let part ← slice? t p.kept (byteSize t)
    return .inr (p.out ++ part)
  if p.offset < byteSize t then
    let b ← byte? t p.offset
    if b = '"' then
      let rest ← slice? t (p.offset + 1) (byteSize t)
      match offsetOf? '"' rest with
      | some n => return .inl { p with offset := p.offset + n + 2 }
      | none => return .inl { p with offset := byteSize t }
    else if b = '\'' then
      match ← literalEnd? t p.offset with
      | none => finish
      | some stop =>
        let front ← slice? t 0 p.offset
        if ← followsAsBytes? front then return .inl { p with offset := stop }
        else
          let part ← slice? t p.kept p.offset
          return .inl ⟨stop, stop, p.out ++ part ++ ['\'', '\'']⟩
    else return .inl { p with offset := p.offset + 1 }
  else finish

/-- Empties literals byte by byte. -/
def stripLiteralBytes? (t : List Char) : Option (List Char) :=
  walk? t (stripTurn t) ⟨0, 0, []⟩

/-- The text up to `kept` is done, the text from there on is still to be copied, and the rest is read as
if nothing were open. -/
def LiteralScan.IsGood (t : List Char) (p : LiteralScan) : Prop :=
  ∃ a₁ a₂ u, ReadTo t p.offset (a₁ ++ a₂) u ∧ p.kept = byteSize a₁ ∧
    stripLiterals t = p.out ++ (a₂ ++ stripLiteralsFrom 0 true (a₁ ++ a₂).reverse u)

theorem LiteralScan.isGood_copied {p : LiteralScan} {a₁ a₂ x w : List Char}
    (ht : t = a₁ ++ a₂ ++ x ++ w) (hkept : p.kept = byteSize a₁)
    (hresult : stripLiterals t =
      p.out ++ (a₂ ++ (x ++ stripLiteralsFrom 0 true (x.reverse ++ (a₁ ++ a₂).reverse) w))) :
    IsGood t { p with offset := byteSize (a₁ ++ a₂ ++ x) } := by
  refine ⟨a₁, a₂ ++ x, w, ?_, hkept, ?_⟩
  · rw [ht, ← List.append_assoc a₁]
    exact ReadTo.between _ w
  · rw [hresult, ← List.reverse_append, List.append_assoc a₂, List.append_assoc a₁]

theorem stripLiteralsFrom_of_length_le {n : Nat} {v : List Char} (h : v.length ≤ n)
    (before : List Char) : stripLiteralsFrom n true before v = v := by
  induction v generalizing n before with
  | nil => cases n <;> rfl
  | cons c v ih =>
      obtain ⟨n, rfl⟩ : ∃ m, n = m + 1 :=
        Nat.exists_eq_succ_of_ne_zero fun hn => by simp [hn] at h
      rw [stripLiteralsFrom, if_pos rfl, ih (Nat.le_of_succ_le_succ h)]

theorem stripLiteralsFrom_open_quoted {v : List Char} (hv : '"' ∉ v) (before : List Char) :
    stripLiteralsFrom 0 true before ('"' :: v) = '"' :: v := by
  have htake := takeWhile_of_not_mem hv []
  rw [List.append_nil, List.takeWhile_nil, List.append_nil] at htake
  rw [stripLiteralsFrom, if_pos rfl, quotedLength, htake,
    stripLiteralsFrom_of_length_le (Nat.le_succ _)]

theorem LiteralScan.exists_turn_quoted {p : LiteralScan} {a₁ a₂ v : List Char}
    (ht : t = a₁ ++ a₂ ++ '"' :: v) (hi : p.offset < byteSize t) (hb : byte? t p.offset = some '"')
    (hoffset : p.offset = byteSize (a₁ ++ a₂)) (hkept : p.kept = byteSize a₁)
    (hresult : stripLiterals t =
      p.out ++ (a₂ ++ stripLiteralsFrom 0 true (a₁ ++ a₂).reverse ('"' :: v))) :
    ∃ q, stripTurn t p = some (.inl q) ∧ q.IsGood t ∧ p.offset < q.offset := by
  have hsize : p.offset + 1 = byteSize (a₁ ++ a₂ ++ ['"']) := by
    rw [byteSize_append, hoffset]
    rfl
  have hrest : slice? t (p.offset + 1) (byteSize t) = some v := by
    have htext : t = a₁ ++ a₂ ++ ['"'] ++ v := by simp [ht]
    rw [hsize, htext, slice?_end]
  by_cases hv : '"' ∈ v
  · obtain ⟨x, w, rfl, hx⟩ := List.eq_append_cons_of_mem hv
    have hstop : p.offset + byteSize x + 2 = byteSize (a₁ ++ a₂ ++ '"' :: (x ++ ['"'])) := by
      have hquotes : byteSize ('"' :: (x ++ ['"'])) = byteSize x + 2 := by
        rw [byteSize_cons, byteSize_append]
        exact Nat.add_comm 1 _
      rw [byteSize_append, hquotes, hoffset, Nat.add_assoc]
    refine ⟨{ p with offset := p.offset + byteSize x + 2 }, ?_, ?_, by dsimp only; omega⟩
    · simp only [stripTurn, if_pos hi, hb, Option.bind_eq_bind, Option.bind_some, if_true, hrest,
        offsetOf?_append hx]
      rfl
    · rw [hstop]
      refine isGood_copied (w := w) (by simp [ht]) hkept ?_
      rw [hresult, stripLiteralsFrom_quoted hx]
      simp
  · refine ⟨{ p with offset := byteSize t }, ?_, ?_, hi⟩
    · simp only [stripTurn, if_pos hi, hb, Option.bind_eq_bind, Option.bind_some, if_true, hrest,
        offsetOf?_eq_none hv]
      rfl
    · rw [stripLiteralsFrom_open_quoted hv] at hresult
      have hcopied : IsGood t { p with offset := byteSize (a₁ ++ a₂ ++ '"' :: v) } :=
        isGood_copied (w := []) (by rw [ht, List.append_nil]) hkept
          (hresult.trans (by rw [stripLiteralsFrom, List.append_nil]))
      rwa [← ht] at hcopied

theorem LiteralScan.exists_turn_literal {p : LiteralScan} {a₁ a₂ v : List Char}
    (ht : t = a₁ ++ a₂ ++ '\'' :: v) (hi : p.offset < byteSize t)
    (hb : byte? t p.offset = some '\'') (hoffset : p.offset = byteSize (a₁ ++ a₂))
    (hkept : p.kept = byteSize a₁)
    (hresult : stripLiterals t =
      p.out ++ (a₂ ++ stripLiteralsFrom 0 true (a₁ ++ a₂).reverse ('\'' :: v))) :
    (∃ q, stripTurn t p = some (.inl q) ∧ q.IsGood t ∧ p.offset < q.offset) ∨
      stripTurn t p = some (.inr (stripLiterals t)) := by
  have hend := literalEnd?_eq (a₁ ++ a₂) v
  rw [← hoffset, ← ht] at hend
  cases hlength : literalLength? v with
  | none =>
      have hpart : slice? t p.kept (byteSize t) = some (a₂ ++ '\'' :: v) := by
        rw [hkept, ht, List.append_assoc, slice?_end]
      rw [stripLiteralsFrom, if_neg (by decide), if_pos rfl, hlength] at hresult
      refine .inr ?_
      rw [hlength] at hend
      simp only [stripTurn, if_pos hi, hb, Option.bind_eq_bind, Option.bind_some, if_true, hend,
        hpart, hresult]
      rfl
  | some n =>
      obtain ⟨x, w, rfl, rfl, -⟩ := exists_of_literalLength? hlength
      have hfront : slice? t 0 p.offset = some (a₁ ++ a₂) := by rw [ht, hoffset, slice?_start]
      have hpart : slice? t p.kept p.offset = some a₂ := by rw [ht, hkept, hoffset, slice?_append]
      have hless : p.offset < byteSize (a₁ ++ a₂ ++ '\'' :: x) := by
        have hpos := byteSize_pos '\''
        rw [byteSize_append, byteSize_cons, hoffset]
        omega
      rw [hlength, Option.map_some, List.take_left] at hend
      rw [stripLiteralsFrom_literal hlength, literalImage] at hresult
      have hfollows := followsAsBytes?_eq (a₁ ++ a₂)
      refine .inl ?_
      cases has : followsAs (a₁ ++ a₂).reverse with
      | true =>
          rw [has] at hfollows hresult
          refine ⟨{ p with offset := byteSize (a₁ ++ a₂ ++ '\'' :: x) }, ?_, ?_, hless⟩
          · simp only [stripTurn, if_pos hi, hb, Option.bind_eq_bind, Option.bind_some, if_true, hend,
              hfront, hfollows]
            rfl
          · exact isGood_copied (w := w) (by simp [ht]) hkept (by simpa using hresult)
      | false =>
          rw [has] at hfollows hresult
          refine ⟨⟨_, byteSize (a₁ ++ a₂ ++ '\'' :: x), p.out ++ a₂ ++ ['\'', '\'']⟩, ?_,
            ⟨a₁ ++ a₂ ++ '\'' :: x, [], w, ?_, rfl, by simpa using hresult⟩, hless⟩
          · simp only [stripTurn, if_pos hi, hb, Option.bind_eq_bind, Option.bind_some, if_true, hend,
              hfront, hfollows, hpart]
            rfl
          · have hplace := ReadTo.between (a₁ ++ a₂ ++ '\'' :: x) w
            rw [ht]
            simpa using hplace

theorem LiteralScan.IsGood.turn {p : LiteralScan} (h : p.IsGood t) :
    (p.offset < byteSize t ∧ ∃ q, stripTurn t p = some (.inl q) ∧ q.IsGood t ∧
      p.offset < q.offset) ∨ stripTurn t p = some (.inr (stripLiterals t)) := by
  obtain ⟨a₁, a₂, u, hread, hkept, hresult⟩ := h
  by_cases hi : p.offset < byteSize t
  · obtain ⟨b, hb, ⟨hwide, hnext⟩ | ⟨c, v, rfl, hoffset, hbyte, -⟩⟩ := hread.turn hi
    · have hne {d : Char} (hd : d.toNat < 128) : b ≠ d := ne_of_wide hwide hd
      refine .inl ⟨hi, { p with offset := p.offset + 1 }, ?_, ⟨a₁, a₂, u, hnext, hkept, hresult⟩,
        Nat.lt_succ_self _⟩
      simp [stripTurn, hi, hb, hne]
    · have hname : b = '"' ↔ c = '"' := hbyte.eq_iff (by decide)
      have hquote : b = '\'' ↔ c = '\'' := hbyte.eq_iff (by decide)
      by_cases hc : c = '"'
      · rw [hname.2 hc] at hb
        subst hc
        exact .inl ⟨hi, exists_turn_quoted hread.text hi hb hoffset hkept hresult⟩
      by_cases hd : c = '\''
      · rw [hquote.2 hd] at hb
        subst hd
        exact (exists_turn_literal hread.text hi hb hoffset hkept hresult).imp_left (And.intro hi)
      · have hplace := ReadTo.next (a₁ ++ a₂) c v
        rw [← hread.text, ← hoffset, List.append_assoc] at hplace
        rw [stripLiteralsFrom_other ⟨hc, hd⟩] at hresult
        refine .inl ⟨hi, { p with offset := p.offset + 1 }, ?_,
          ⟨a₁, a₂ ++ [c], v, hplace, hkept, by simpa using hresult⟩, Nat.lt_succ_self _⟩
        simp [stripTurn, hi, hb, hname, hquote, hc, hd]
  · obtain rfl := hread.eq_nil (not_lt.1 hi)
    have ht := hread.text
    rw [List.append_nil] at ht
    have hpart : slice? t p.kept (byteSize t) = some a₂ := by rw [hkept, ht, slice?_end]
    rw [stripLiteralsFrom, List.append_nil] at hresult
    refine .inr ?_
    simp only [stripTurn, if_neg hi, hpart, Option.bind_eq_bind, Option.bind_some, hresult]
    rfl

theorem stripLiteralBytes?_eq (t : List Char) : stripLiteralBytes? t = some (stripLiterals t) :=
  walk?_eq t LiteralScan.offset (fun _ => LiteralScan.IsGood.turn)
    ⟨[], [], t, ReadTo.start t, rfl, rfl⟩

example : stripLiteralBytes? "'\\é''ü' || 'ß".toList = some "'' || 'ß".toList := by decide

end Literals

end SchemaDeploy.Sql
