import SchemaDeploy.Proofs.ByteLiterals
import SchemaDeploy.Proofs.ByteScans

namespace SchemaDeploy.Sql

open Text

variable {t u before after name : List Char}

section Segments

def lastOffsetOf? (c : Char) : List Char → Option Nat
  | [] => none
  | d :: t =>
    match lastOffsetOf? c t with
    | some n => some (byteSize [d] + n)
    | none => if d = c then some 0 else none

def segmentStart? (t : List Char) : Nat → Option Nat
  | 0 => some 0
  | start + 1 => do
    let b ← byte? t start
    if isSegmentChar b then segmentStart? t start else return start + 1

def segmentAt? (t : List Char) (start stop : Nat) : Option (Option (Nat × List Char)) := do
  let part ← slice? t start stop
  return some (start, trimQuotes part)

/-- The qualifier that ends at an offset, bare or in quotes: where it starts, and its name. -/
def segmentUpTo? (t : List Char) (stop : Nat) : Option (Option (Nat × List Char)) := do
  if (← byteBefore? t stop) = some '"' then
    let front ← slice? t 0 (stop - 1)
    match lastOffsetOf? '"' front with
    | some start => if start + 1 < stop - 1 then segmentAt? t start stop else return none
    | none => return none
  else
    let start ← segmentStart? t stop
    if start = stop then return none else segmentAt? t start stop

def segmentBytes? (t : List Char) (pos : Nat) : Option (Option (Nat × List Char)) := do
  if (← byteBefore? t pos) = some '.' then segmentUpTo? t (pos - 1) else return none

def segmentsBytes? (t : List Char) : Nat → Nat → Option (List (Nat × List Char))
  | 0, _ => some []
  | limit + 1, pos => do
    match ← segmentBytes? t pos with
    | none => return []
    | some s =>
      let rest ← segmentsBytes? t limit s.1
      return s :: rest

theorem lastOffsetOf?_eq_none {c : Char} (h : c ∉ t) : lastOffsetOf? c t = none := by
  induction t with
  | nil => rfl
  | cons d t ih =>
      obtain ⟨hd, ht⟩ := not_or.1 (List.mem_cons.not.1 h)
      rw [lastOffsetOf?, ih ht, if_neg (Ne.symm hd)]

theorem lastOffsetOf?_append {c : Char} {v : List Char} (hv : c ∉ v) (x : List Char) :
    lastOffsetOf? c (x ++ c :: v) = some (byteSize x) := by
  induction x with
  | nil => rw [List.nil_append, lastOffsetOf?, lastOffsetOf?_eq_none hv, if_pos rfl, byteSize_nil]
  | cons d x ih => rw [List.cons_append, lastOffsetOf?, ih, byteSize_cons d x]

theorem isAsciiTest_isAlphanum : IsAsciiTest Char.isAlphanum := fun c hc => by
  rw [Bool.eq_false_iff]
  intro h
  simp only [Char.isAlphanum, Char.isAlpha, Char.isUpper, Char.isLower, Char.isDigit,
    Bool.or_eq_true, Bool.and_eq_true, decide_eq_true_eq, UInt32.le_iff_toNat_le, ge_iff_le] at h
  change ((_ ∧ c.toNat ≤ 90) ∨ _ ∧ c.toNat ≤ 122) ∨ _ ∧ c.toNat ≤ 57 at h
  omega

theorem isAsciiTest_isSegmentChar : IsAsciiTest isSegmentChar :=
  isAsciiTest_isAlphanum.or (isAsciiTest_contains (by decide))

theorem exists_byteBefore?_reverse (before u : List Char) :
    ∃ x, byteBefore? (before.reverse ++ u) (byteSize before.reverse) = some x ∧
      MayBeByteOf x before.head? := by
  obtain ⟨x, hx, hlast⟩ := exists_byteBefore? before.reverse u
  exact ⟨x, hx, by rwa [List.getLast?_reverse] at hlast⟩

theorem segmentStart?_eq (before u : List Char) :
    segmentStart? (before.reverse ++ u) (byteSize before.reverse) =
      some (byteSize (before.dropWhile isSegmentChar).reverse) := by
  induction before generalizing u with
  | nil => rfl
  | cons c before ih =>
      obtain ⟨x, hx, hbyte⟩ := exists_byteBefore?_reverse (c :: before) u
      have hsize : byteSize (c :: before).reverse = byteSize before.reverse + byteSize [c] := by
        rw [List.reverse_cons, byteSize_append]
      have hpos := byteSize_pos c
      obtain ⟨n, hn⟩ : ∃ n, byteSize (c :: before).reverse = n + 1 :=
        Nat.exists_eq_succ_of_ne_zero (by omega)
      cases hbyte with
      | @some b _ hb =>
          rw [hn, byteBefore?, Option.map_eq_some_iff] at hx
          obtain ⟨b', hread, hsome⟩ := hx
          cases hsome
          rw [hn, segmentStart?, hread, Option.bind_eq_bind, Option.bind_some,
            hb.test_eq isAsciiTest_isSegmentChar]
          cases hc : isSegmentChar c with
          | true =>
              have hascii : c.toNat < 128 := by
                by_contra h
                rw [isAsciiTest_isSegmentChar c (not_lt.1 h)] at hc
                cases hc
              rw [byteSize_ascii hascii] at hsize
              obtain rfl : n = byteSize before.reverse := by omega
              rw [if_pos rfl, List.dropWhile_cons_of_pos hc, List.reverse_cons, List.append_assoc]
              exact ih (c :: u)
          | false =>
              rw [if_neg (by decide), List.dropWhile_cons_of_neg (by simp [hc]), hn]
              rfl

theorem dropWhile_mark (quoted : Bool) {x : List Char} (hx : x.head? ≠ some '"') :
    (mark quoted ++ x).dropWhile (· == '"') = x := by
  have hstays : x.dropWhile (· == '"') = x := by
    cases x with
    | nil => rfl
    | cons c x => exact List.dropWhile_cons_of_neg (by simpa using hx)
  cases quoted with
  | false => exact hstays
  | true => exact hstays

theorem trimQuotes_mark {x : List Char} (hx : '"' ∉ x) (quoted : Bool) :
    trimQuotes (mark quoted ++ (x ++ mark quoted)) = x := by
  have hmark : (mark quoted).reverse = mark quoted := by cases quoted <;> rfl
  cases x with
  | nil => cases quoted <;> rfl
  | cons c x =>
      have hfirst : (c :: x ++ mark quoted).head? ≠ some '"' := fun h =>
        hx (List.mem_of_mem_head? h)
      have hlast : (c :: x).reverse.head? ≠ some '"' := fun h =>
        hx (List.mem_reverse.1 (List.mem_of_mem_head? h))
      rw [trimQuotes, dropWhile_mark quoted hfirst, dropEndWhile, List.reverse_append, hmark,
        dropWhile_mark quoted hlast, List.reverse_reverse]

def Segment.atOffset (s : Segment) : Nat × List Char :=
  (byteSize s.before.reverse, s.name)

theorem segmentAt?_eq {x : List Char} (hx : '"' ∉ x) (quoted : Bool) (r u : List Char) :
    segmentAt? (r.reverse ++ (mark quoted ++ (x ++ mark quoted)) ++ u) (byteSize r.reverse)
      (byteSize (r.reverse ++ (mark quoted ++ (x ++ mark quoted)))) =
        some (some (Segment.atOffset ⟨x, r⟩)) := by
  rw [segmentAt?, slice?_append, Option.bind_eq_bind, Option.bind_some, trimQuotes_mark hx]
  rfl

theorem segmentUpTo?_quoted (z u : List Char) :
    segmentUpTo? (('"' :: z).reverse ++ u) (byteSize ('"' :: z).reverse) =
      some ((segment? ('.' :: '"' :: z)).map Segment.atOffset) := by
  obtain ⟨b, hb, hbyte⟩ := exists_byteBefore?_reverse ('"' :: z) u
  have hstop : byteSize ('"' :: z).reverse - 1 = byteSize z.reverse := by
    rw [List.reverse_cons, byteSize_append]
    rfl
  have hfront : slice? (('"' :: z).reverse ++ u) 0 (byteSize z.reverse) = some z.reverse := by
    rw [List.reverse_cons, List.append_assoc, slice?_start]
  rw [segmentUpTo?, hb, Option.bind_eq_bind, Option.bind_some,
    if_pos ((hbyte.eq_some_iff (by decide)).2 rfl), hstop, hfront, Option.bind_eq_bind, Option.bind_some]
  by_cases hz : '"' ∈ z
  · obtain ⟨x, r, rfl, hx⟩ := List.eq_append_cons_of_mem hz
    have hx' : '"' ∉ x.reverse := fun h => hx (List.mem_reverse.1 h)
    have hreverse : (x ++ '"' :: r).reverse = r.reverse ++ '"' :: x.reverse := by simp
    have hsize : byteSize (x ++ '"' :: r).reverse = byteSize r.reverse + (1 + byteSize x.reverse) := by
      rw [hreverse, byteSize_append, byteSize_cons]
      rfl
    have hfound := segmentAt?_eq hx' true r u
    have hquoted : r.reverse ++ (mark true ++ (x.reverse ++ mark true)) =
        ('"' :: (x ++ '"' :: r)).reverse := by
      simp [mark]
    rw [hquoted] at hfound
    rw [segment?_quoted hx, hsize, hreverse, lastOffsetOf?_append hx']
    dsimp only
    by_cases hnil : x = []
    · subst hnil
      rw [if_neg (by simp), if_pos rfl]
      rfl
    · have hpos : byteSize x.reverse ≠ 0 := fun h => hnil (by simpa using eq_nil_of_byteSize h)
      rw [if_pos (by omega), if_neg hnil, hfound]
      rfl
  · have hz' : '"' ∉ z.reverse := fun h => hz (List.mem_reverse.1 h)
    rw [segment?_unquoted hz, lastOffsetOf?_eq_none hz']
    rfl

theorem segmentUpTo?_bare (hquote : before.head? ≠ some '"') (u : List Char) :
    segmentUpTo? (before.reverse ++ u) (byteSize before.reverse) =
      some ((segment? ('.' :: before)).map Segment.atOffset) := by
  obtain ⟨x, hx, hbyte⟩ := exists_byteBefore?_reverse before u
  rw [segmentUpTo?, hx, Option.bind_eq_bind, Option.bind_some,
    if_neg ((hbyte.eq_some_iff (by decide)).not.2 hquote), segmentStart?_eq, segment?_bare hquote,
    Option.bind_eq_bind, Option.bind_some]
  have hsplit := List.takeWhile_append_dropWhile (p := isSegmentChar) (l := before)
  have hmem : '"' ∉ (before.takeWhile isSegmentChar).reverse := fun h => by
    have hc := List.mem_takeWhile_imp (List.mem_reverse.1 h)
    cases hc
  have hfound := segmentAt?_eq hmem false (before.dropWhile isSegmentChar) u
  have hbare : (before.dropWhile isSegmentChar).reverse ++
      (mark false ++ ((before.takeWhile isSegmentChar).reverse ++ mark false)) = before.reverse := by
    simp only [mark, Bool.false_eq_true, if_false, List.nil_append, List.append_nil]
    rw [← List.reverse_append, hsplit]
  have hsize := congrArg byteSize hbare
  rw [byteSize_append] at hsize
  rw [hbare] at hfound
  by_cases htake : before.takeWhile isSegmentChar = []
  · rw [if_pos htake, if_pos]
    · rfl
    · rw [htake] at hsize
      exact hsize
  · have hpos : byteSize (mark false ++ ((before.takeWhile isSegmentChar).reverse ++ mark false)) ≠ 0 :=
      fun h => htake (by simpa [mark] using eq_nil_of_byteSize h)
    rw [if_neg htake, if_neg (by omega), hfound]
    rfl

theorem segmentBytes?_eq (before u : List Char) :
    segmentBytes? (before.reverse ++ u) (byteSize before.reverse) =
      some ((segment? before).map Segment.atOffset) := by
  by_cases hdot : before.head? = some '.'
  · obtain ⟨y, rfl⟩ := List.head?_eq_some_iff.1 hdot
    have hdot : byteBefore? (y.reverse ++ '.' :: u) (byteSize y.reverse + 1) = some (some '.') := by
      rw [byteBefore?, byte?_append]
      rfl
    have htext : ('.' :: y).reverse ++ u = y.reverse ++ '.' :: u := by simp
    have hsize : byteSize ('.' :: y).reverse = byteSize y.reverse + 1 := by
      rw [List.reverse_cons, byteSize_append]
      rfl
    rw [htext, hsize, segmentBytes?, hdot, Option.bind_eq_bind, Option.bind_some, if_pos rfl,
      Nat.add_sub_cancel]
    by_cases hquote : y.head? = some '"'
    · obtain ⟨z, rfl⟩ := List.head?_eq_some_iff.1 hquote
      exact segmentUpTo?_quoted z _
    · exact segmentUpTo?_bare hquote _
  · obtain ⟨x, hx, hbyte⟩ := exists_byteBefore?_reverse before u
    rw [segmentBytes?, hx, Option.bind_eq_bind, Option.bind_some,
      if_neg ((hbyte.eq_some_iff (by decide)).not.2 hdot), segment?_eq_none hdot]
    rfl

theorem suffix_of_segment? {s : Segment} (h : segment? before = some s) : s.before <:+ before := by
  rw [segment?.eq_def] at h
  split at h
  · next t =>
    split at h
    · next r hdrop =>
      dsimp only at h
      split at h
      · cases h
      · cases h
        have hr : '"' :: r <:+ t := hdrop ▸ List.dropWhile_suffix _
        exact ((List.suffix_cons _ r).trans hr).trans
          ((List.suffix_cons _ t).trans (List.suffix_cons _ _))
    · cases h
  · next t _ =>
    dsimp only at h
    split at h
    · cases h
    · cases h
      exact (List.dropWhile_suffix _).trans (List.suffix_cons _ t)
  · cases h

theorem segmentsBytes?_eq (limit : Nat) (before u : List Char) :
    segmentsBytes? (before.reverse ++ u) limit (byteSize before.reverse) =
      some ((segments limit before).map Segment.atOffset) := by
  induction limit generalizing before u with
  | zero => rfl
  | succ limit ih =>
      rw [segmentsBytes?, segmentBytes?_eq, segments]
      cases hs : segment? before with
      | none => rfl
      | some s =>
          obtain ⟨x, hx⟩ := suffix_of_segment? hs
          have hrest := ih s.before (x.reverse ++ u)
          rw [← List.append_assoc, ← List.reverse_append, hx] at hrest
          simp only [Option.map_some, Option.bind_eq_bind, Option.bind_some, Segment.atOffset, hrest,
            List.map_cons]
          rfl

theorem suffix_of_mem_segments {limit : Nat} {s : Segment} (h : s ∈ segments limit before) :
    s.before <:+ before := by
  induction limit generalizing before with
  | zero => cases h
  | succ limit ih =>
      rw [segments] at h
      split at h
      · cases h
      · next r hr =>
        have hsuffix := suffix_of_segment? hr
        rcases List.mem_cons.1 h with rfl | h
        · exact hsuffix
        · exact (ih h).trans hsuffix

theorem length_segments_le (limit : Nat) (before : List Char) :
    (segments limit before).length ≤ limit := by
  induction limit generalizing before with
  | zero => exact Nat.le_refl 0
  | succ limit ih =>
      rw [segments]
      split
      · exact Nat.zero_le _
      · next s _ => exact Nat.succ_le_succ (ih s.before)

end Segments

section Chains

/-- Whether the chain of the first `n` qualifiers starts at a boundary; an opening quote before the name
is one. -/
def chainStarts? (t : List Char) (opened : Bool) (start : Nat) (found : List (Nat × List Char)) :
    Nat → Option Bool
  | 0 => do
    if opened then return true
    else return (← byteBefore? t start).all isStartBoundary
  | n + 1 => do
    let s ← found[n]?
    return (← byteBefore? t s.1).all isStartBoundary

/-- The length of the longest chain of at most `n` qualifiers that starts at a boundary. -/
def keptBytes? (t : List Char) (opened : Bool) (start : Nat) (found : List (Nat × List Char)) :
    Nat → Option (Option Nat)
  | 0 => do
    if ← chainStarts? t opened start found 0 then return some 0 else return none
  | n + 1 => do
    if ← chainStarts? t opened start found (n + 1) then return some (n + 1)
    else keptBytes? t opened start found n

theorem isAsciiTest_isStartBoundary : IsAsciiTest isStartBoundary :=
  (isAsciiTest_contains (by decide)).or isAsciiTest_isAsciiBlank

theorem isAsciiTest_isEndBoundary : IsAsciiTest isEndBoundary := fun c hc => by
  have hne : c ≠ ';' := ne_of_wide hc (by decide)
  simp [isEndBoundary, hne, isAsciiTest_isStartBoundary c hc]

theorem startsAtBoundary_bytes {x : List Char} (hx : x <:+ before) (u : List Char) :
    ∃ b, byteBefore? (before.reverse ++ u) (byteSize x.reverse) = some b ∧
      b.all isStartBoundary = startsAtBoundary x := by
  obtain ⟨y, rfl⟩ := hx
  obtain ⟨b, hb, hbyte⟩ := exists_byteBefore?_reverse x (y.reverse ++ u)
  refine ⟨b, ?_, hbyte.all_eq isAsciiTest_isStartBoundary⟩
  rw [List.reverse_append, List.append_assoc]
  exact hb

def chainStarts (opened : Bool) (before : List Char) (found : List Segment) : Nat → Bool
  | 0 => opened || startsAtBoundary before
  | n + 1 => found[n]?.all fun s => startsAtBoundary s.before

def largest (test : Nat → Bool) : Nat → Option Nat
  | 0 => if test 0 then some 0 else none
  | n + 1 => if test (n + 1) then some (n + 1) else largest test n

theorem chain?_eq_largest {found : List Segment} (h : found.length ≤ 2) (opened : Bool)
    (before : List Char) : chain? opened before found =
      (largest (chainStarts opened before found) found.length).map found.take := by
  match found, h with
  | [], _ =>
      simp only [chain?, largest, chainStarts, List.length_nil]
      by_cases hbare : (opened || startsAtBoundary before) = true <;> simp [hbare]
  | [s], _ =>
      simp only [chain?, largest, chainStarts, List.length_singleton, List.getElem?_cons_zero,
        Option.all_some]
      by_cases hs : startsAtBoundary s.before = true <;>
        by_cases hbare : (opened || startsAtBoundary before) = true <;> simp [hs, hbare]
  | [s, r], _ =>
      simp only [chain?, largest, chainStarts, List.length_cons, List.length_nil,
        List.getElem?_cons_zero, List.getElem?_cons_succ, Option.all_some]
      by_cases hr : startsAtBoundary r.before = true <;>
        by_cases hs : startsAtBoundary s.before = true <;>
        by_cases hbare : (opened || startsAtBoundary before) = true <;> simp [hr, hs, hbare]

section Kept

variable {found : List Segment} (hsuffix : ∀ s ∈ found, s.before <:+ before) (opened : Bool)
  (u : List Char)
include hsuffix

theorem chainStarts?_eq {n : Nat} (hn : n ≤ found.length) :
    chainStarts? (before.reverse ++ u) opened (byteSize before.reverse)
      (found.map Segment.atOffset) n = some (chainStarts opened before found n) := by
  cases n with
  | zero =>
      cases opened with
      | true => rfl
      | false =>
          obtain ⟨b, hb, hall⟩ := startsAtBoundary_bytes (List.suffix_refl before) u
          rw [chainStarts?, if_neg (by decide), hb, chainStarts, ← hall]
          rfl
  | succ n =>
      have hs : found[n]? = some found[n] := List.getElem?_eq_getElem hn
      obtain ⟨b, hb, hall⟩ := startsAtBoundary_bytes (hsuffix _ (List.getElem_mem hn)) u
      rw [chainStarts?, List.getElem?_map, chainStarts, hs, Option.map_some, Option.bind_eq_bind,
        Option.bind_some, Segment.atOffset, hb, Option.all_some, ← hall]
      rfl

theorem keptBytes?_eq {n : Nat} (hn : n ≤ found.length) :
    keptBytes? (before.reverse ++ u) opened (byteSize before.reverse)
      (found.map Segment.atOffset) n = some (largest (chainStarts opened before found) n) := by
  induction n with
  | zero =>
      rw [keptBytes?, chainStarts?_eq hsuffix opened u hn, Option.bind_eq_bind, Option.bind_some,
        largest]
      split <;> rfl
  | succ n ih =>
      rw [keptBytes?, chainStarts?_eq hsuffix opened u hn, Option.bind_eq_bind, Option.bind_some,
        ih (Nat.le_of_succ_le hn), largest]
      split <;> rfl

end Kept

end Chains

section References

def referenceBytes? (name t : List Char) (pos : Nat) : Option (Option QualifiedName) := do
  let opened := (← byteBefore? t pos) == some '"'
  let start := if opened then pos - 1 else pos
  let close := pos + byteSize name
  let stop := if byte? t close = some '"' then close + 1 else close
  if (byte? t stop).all isEndBoundary then
    let found ← segmentsBytes? t 2 start
    match ← keptBytes? t opened start found found.length with
    | none => return none
    | some kept =>
      let part (i : Nat) := (found.take kept)[i]?.map fun s => String.ofList (upper s.2)
      return some ⟨part 1, part 0, String.ofList (upper name)⟩
  else return none

/-- The state of a search for references: it goes on at `start`. -/
structure ReferenceScan where
  start : Nat
  out : List QualifiedName

def referenceTurn (name t : List Char) (p : ReferenceScan) :
    Option (ReferenceScan ⊕ List QualifiedName) := do
  match ← findBytes? t name p.start with
  | none => return .inr p.out
  | some pos =>
    let q ← referenceBytes? name t pos
    return .inl ⟨pos + 1, p.out ++ q.toList⟩

/-- All references to a name, found byte by byte. -/
def referencesBytes? (name t : List Char) : Option (List QualifiedName) :=
  walk? t (referenceTurn name t) ⟨0, []⟩

theorem closesName_bytes (a after : List Char) :
    (byte? (a ++ after) (if byte? (a ++ after) (byteSize a) = some '"' then byteSize a + 1
      else byteSize a)).all isEndBoundary = closesName after := by
  have hbyte := mayBeByteOf_byte? a after
  by_cases hquote : after.head? = some '"'
  · obtain ⟨v, rfl⟩ := List.head?_eq_some_iff.1 hquote
    have hnext := mayBeByteOf_byte? (a ++ ['"']) v
    rw [byteSize_append, List.append_assoc] at hnext
    rw [if_pos ((hbyte.eq_some_iff (by decide)).2 rfl)]
    exact hnext.all_eq isAsciiTest_isEndBoundary
  · rw [if_neg ((hbyte.eq_some_iff (by decide)).not.2 hquote), closesName,
      hbyte.all_eq isAsciiTest_isEndBoundary]
    rintro v rfl
    exact hquote rfl

theorem referenceBytes?_eq {m : List Char} (hm : same m name = true) (before after : List Char) :
    referenceBytes? name (before.reverse ++ (m ++ after)) (byteSize before.reverse) =
      some (referenceAt? name before after) := by
  obtain ⟨opened, y, rfl, hy⟩ := exists_mark before
  obtain ⟨b, hb, hbyte⟩ := exists_byteBefore?_reverse (mark opened ++ y) (m ++ after)
  have hopened : (b == some '"') = opened := by
    have hiff : b = some '"' ↔ _ := hbyte.eq_some_iff (by decide)
    cases opened with
    | true => exact beq_iff_eq.2 (hiff.2 rfl)
    | false => exact beq_eq_false_iff_ne.2 (hiff.not.2 (hy rfl))
  have hstart : (if opened then byteSize (mark opened ++ y).reverse - 1
      else byteSize (mark opened ++ y).reverse) = byteSize y.reverse := by
    rw [List.reverse_append, byteSize_append]
    cases opened <;> rfl
  have hclose : byteSize (mark opened ++ y).reverse + byteSize name =
      byteSize ((mark opened ++ y).reverse ++ m) := by
    rw [byteSize_append _ m, byteSize_of_same hm]
  have hcloses := closesName_bytes ((mark opened ++ y).reverse ++ m) after
  rw [List.append_assoc, ← hclose] at hcloses
  have htext : (mark opened ++ y).reverse ++ (m ++ after) =
      y.reverse ++ ((mark opened).reverse ++ (m ++ after)) := by
    rw [List.reverse_append, List.append_assoc]
  rw [referenceBytes?, hb, Option.bind_eq_bind, Option.bind_some]
  simp only [hopened, hstart, hcloses]
  rw [referenceAt?_eq opened hy]
  split
  · rw [htext, segmentsBytes?_eq, Option.bind_eq_bind, Option.bind_some, List.length_map,
      keptBytes?_eq (fun _ hs => suffix_of_mem_segments hs) opened _ (Nat.le_refl _),
      Option.bind_eq_bind, Option.bind_some, chain?_eq_largest (length_segments_le 2 y)]
    cases largest (chainStarts opened y (segments 2 y)) (segments 2 y).length with
    | none => rfl
    | some kept =>
        have hpart (i : Nat) : (((segments 2 y).map Segment.atOffset).take kept)[i]?.map
              (fun s => String.ofList (upper s.2)) =
            (((segments 2 y).take kept).map Segment.name).reverse.reverse[i]?.map
              fun q => String.ofList (upper q) := by
          rw [← List.map_take, List.reverse_reverse, List.getElem?_map, List.getElem?_map,
            Option.map_map, Option.map_map]
          rfl
        simp only [hpart]
        rfl
  · rfl

/-- What is found before `start` is written down, and the rest is searched as if from its start. -/
def ReferenceScan.IsGood (name t : List Char) (p : ReferenceScan) : Prop :=
  ∃ a u, ReadTo t p.start a u ∧
    references name t = p.out ++ referencesAfter name a.reverse u

theorem referencesAfter_skip {w v : List Char} (before : List Char)
    (h : ∀ x c y, w = x ++ c :: y → dropSame? name (c :: (y ++ v)) = none) :
    referencesAfter name before (w ++ v) = referencesAfter name (w.reverse ++ before) v := by
  induction w generalizing before with
  | nil => rfl
  | cons c w ih =>
      have hc := h [] c w rfl
      have hrest := ih (c :: before) fun x d y hw => h (c :: x) d y (congrArg (c :: ·) hw)
      rw [List.cons_append, referencesAfter, hc, Option.bind_none, hrest, List.reverse_cons,
        List.append_assoc]
      rfl

theorem ReferenceScan.IsGood.turn (hne : name ≠ []) {p : ReferenceScan} (h : p.IsGood name t) :
    (p.start < byteSize t ∧ ∃ q, referenceTurn name t p = some (.inl q) ∧ q.IsGood name t ∧
      p.start < q.start) ∨ referenceTurn name t p = some (.inr (references name t)) := by
  obtain ⟨a, u, hread, hresult⟩ := h
  rcases findBytes?_cases hne hread with ⟨hfind, hall⟩ | ⟨w, m, v, rfl, hsame, hfind, hall⟩
  · have hskip : referencesAfter name a.reverse (u ++ []) =
        referencesAfter name (u.reverse ++ a.reverse) [] :=
      referencesAfter_skip a.reverse (by simpa using hall)
    rw [List.append_nil] at hskip
    rw [hskip, referencesAfter, List.append_nil] at hresult
    refine .inr ?_
    rw [referenceTurn, hfind, hresult]
    rfl
  · have hm := ne_nil_of_same hsame hne
    have hle := hread.le (by simp [hm])
    have htext : t = (w.reverse ++ a.reverse).reverse ++ (m ++ v) := by simp [hread.text]
    have hfound := referenceBytes?_eq hsame (w.reverse ++ a.reverse) v
    have hreverse : (w.reverse ++ a.reverse).reverse = a ++ w := by simp
    rw [← htext, hreverse] at hfound
    obtain ⟨c, x, rfl⟩ := List.exists_cons_of_ne_nil hm
    have hdrop := dropSame?_append hsame v
    have hplace := ReadTo.next (a ++ w) c (x ++ v)
    have hsize := byteSize_append a w
    rw [referencesAfter_skip a.reverse hall, List.cons_append, referencesAfter, ← List.cons_append,
      hdrop, Option.bind_some] at hresult
    let found := (referenceAt? name (w.reverse ++ a.reverse) v).toList
    refine .inl ⟨hread.lt (by simp), ⟨byteSize (a ++ w) + 1, p.out ++ found⟩, ?_,
      ⟨a ++ w ++ [c], x ++ v, ?_, ?_⟩, ?_⟩
    · rw [referenceTurn, hfind, Option.bind_eq_bind, Option.bind_some]
      dsimp only
      rw [hfound]
      rfl
    · rw [htext, hreverse]
      exact hplace
    · rw [hresult]
      simp [found]
    · dsimp only
      omega

theorem referencesBytes?_eq (name t : List Char) :
    referencesBytes? name t = some (references name t) := by
  by_cases hne : name = []
  · subst hne
    rw [referencesBytes?, walk?, loop?]
    rfl
  · refine walk?_eq t ReferenceScan.start (fun _ => ReferenceScan.IsGood.turn hne)
      ⟨[], t, ReadTo.start t, ?_⟩
    rw [references, if_neg hne]
    rfl

end References

/-- Every scan of the bytes of a text ends with the result that the scan of its characters has. So it
looks at no byte outside the text, and it cuts the text only between characters. -/
theorem scans_return (t name needle image : List Char) (bounded : Bool) :
    stripCommentBytes? t = some (stripComments t) ∧
    stripLiteralBytes? t = some (stripLiterals t) ∧
    statementBytes? t = some (statements t) ∧
    referencesBytes? name t = some (references name t) ∧
    Parameters.replaceBytes? bounded needle image t =
      some (replaceSame (Parameters.accepts bounded) needle image t) :=
  ⟨stripCommentBytes?_eq t, stripLiteralBytes?_eq t, statementBytes?_eq t, referencesBytes?_eq name t,
    Parameters.replaceBytes?_eq bounded needle image t⟩

end SchemaDeploy.Sql
