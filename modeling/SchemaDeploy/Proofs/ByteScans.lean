import SchemaDeploy.Proofs.ByteOffsets
import SchemaDeploy.Proofs.StatementPieces

namespace SchemaDeploy.Sql

open Text

section Chunks

variable {σ : Type} {step : σ → Char → Option Char → σ × Bool} {t a u : List Char} {i : Nat}

/-- A scan that only ASCII characters have an effect on, also where the next character counts. -/
structure IsAsciiScan (step : σ → Char → Option Char → σ × Bool) : Prop where
  stays : ∀ s c next, 128 ≤ c.toNat → step s c next = (s, false)
  next : ∀ s c x y, MayBeByteOf x y → step s c x = step s c y

def width (two : Bool) : Nat :=
  if two then 2 else 1

theorem width_pos (two : Bool) : 0 < width two := by
  cases two <;> decide

theorem chunks_cons (s : σ) (c : Char) (v : List Char) : chunks step s (c :: v) =
    let (s', two) := step s c v.head?
    ⟨s, s', c :: v.take two.toNat⟩ :: chunks step s' (v.drop two.toNat) := by
  cases v with
  | nil => simp [chunks]
  | cons d v =>
      rw [chunks, List.head?_cons]
      rcases step s c (some d) with ⟨s', _ | _⟩ <;> rfl

/-- A scan of the bytes passes over a byte inside a character, or it stands before a character and takes
what a scan of the characters takes there. -/
theorem IsAsciiScan.turn (hstep : IsAsciiScan step) (h : ReadTo t i a u) (hi : i < byteSize t)
    (s : σ) : ∃ b, byte? t i = some b ∧
      (128 ≤ b.toNat ∧ step s b (byte? t (i + 1)) = (s, false) ∧ ReadTo t (i + 1) a u ∨
      ∃ c v s' two, u = c :: v ∧ i = byteSize a ∧ IsByteOf b c ∧
        step s b (byte? t (i + 1)) = (s', two) ∧ step s c v.head? = (s', two) ∧
        ReadTo t (i + width two) (a ++ c :: v.take two.toNat) (v.drop two.toNat)) := by
  obtain ⟨b, hb, ⟨hwide, hnext⟩ | ⟨c, v, rfl, rfl, hbyte, hv⟩⟩ := h.turn hi
  · exact ⟨b, hb, .inl ⟨hwide, hstep.stays s b _ hwide, hnext⟩⟩
  · obtain rfl := h.text
    have hsame : step s b (byte? (a ++ c :: v) (byteSize a + 1)) = step s c v.head? := by
      rcases hbyte with ⟨hc, rfl⟩ | ⟨hc, hwide⟩
      · exact hstep.next s b _ _ (hv hc)
      · rw [hstep.stays s b _ hwide, hstep.stays s c _ hc]
    refine ⟨b, hb, .inr ⟨c, v, _, _, rfl, rfl, hbyte, hsame, rfl, ?_⟩⟩
    cases htwo : (step s c v.head?).2 with
    | false => exact ReadTo.next a c v
    | true =>
        refine ReadTo.next_two a ?_ v
        by_contra hc
        rw [hstep.stays s c _ (by omega)] at htwo
        cases htwo

theorem isAsciiScan_scanState : IsAsciiScan ScanState.step where
  stays s c next hc := by
    have hne {d : Char} (hd : d.toNat < 128) : c ≠ d := ne_of_wide hc hd
    rw [ScanState.step_eq]
    cases s <;> simp [hne]
  next s c x y h := by
    have hnext (d : Char) (hd : d.toNat < 128) : x = some d ↔ y = some d := h.eq_some_iff hd
    simp only [ScanState.step_eq, hnext '-' (by decide), hnext '/' (by decide), hnext '*' (by decide)]

theorem isAsciiScan_region : IsAsciiScan Region.step where
  stays s c next hc := by
    have hne : c ≠ '$' := ne_of_wide hc (by decide)
    rw [Region.step_eq]
    cases s with
    | dollarBody => simp [hne]
    | sql s => simp [hne, isAsciiScan_scanState.stays s c next hc]
  next s c x y h := by
    have hnext : x = some '$' ↔ y = some '$' := h.eq_some_iff (by decide)
    simp only [Region.step_eq, hnext, isAsciiScan_scanState.next _ c x y h]

end Chunks

section Comments

variable {t : List Char}

/-- The state of a removal of comments: what starts at `kept` is still to be copied. -/
structure CommentScan where
  state : ScanState
  kept : Nat
  offset : Nat
  out : List Char

def CommentScan.move? (t : List Char) (p : CommentScan) (state : ScanState) (two : Bool) :
    Option CommentScan := do
  let q := { p with state := state, offset := p.offset + width two }
  match p.state, state with
  | .plain, .lineComment | .plain, .blockComment =>
    let part ← slice? t p.kept p.offset
    return { q with out := p.out ++ part }
  | .lineComment, .plain => return { q with kept := p.offset }
  | .blockComment, .plain => return { q with kept := q.offset }
  | _, _ => return q

def commentTurn (t : List Char) (p : CommentScan) : Option (CommentScan ⊕ List Char) :=
  if p.offset < byteSize t then do
    let b ← byte? t p.offset
    let (state, two) := p.state.step b (byte? t (p.offset + 1))
    let q ← p.move? t state two
    return .inl q
  else if p.state.isComment then return .inr p.out
  else do
    let part ← slice? t (min p.kept (byteSize t)) (byteSize t)
    return .inr (p.out ++ part)

/-- Removes comments byte by byte. -/
def stripCommentBytes? (t : List Char) : Option (List Char) :=
  walk? t (commentTurn t) ⟨.plain, 0, 0, []⟩

/-- The text up to `kept` is done, and outside comments the text from there on is still to be copied. -/
def CommentScan.IsGood (t : List Char) (p : CommentScan) : Prop :=
  ∃ a₁ a₂ u, ReadTo t p.offset (a₁ ++ a₂) u ∧
    (if p.state.isComment then a₂ = [] else p.kept = byteSize a₁) ∧
    stripComments t = p.out ++ (a₂ ++ stripFrom p.state u)

theorem ScanState.step_cases {s s' : ScanState} {c : Char} {next : Option Char} {two : Bool}
    (h : s.step c next = (s', two)) : s'.isComment = s.isComment ∨
      s = .plain ∧ s'.isComment = true ∨ s = .lineComment ∧ s' = .plain ∨
      s = .blockComment ∧ s' = .plain ∧ two = true ∧ c = '*' ∧ next = some '/' := by
  rw [ScanState.step_eq] at h
  cases s <;> grind [ScanState.isComment]

theorem stripFrom_cons_step {s s' : ScanState} {c : Char} {v : List Char} {two : Bool}
    (h : s.step c v.head? = (s', two)) : stripFrom s (c :: v) =
      Chunk.uncommented ⟨s, s', c :: v.take two.toNat⟩ ++ stripFrom s' (v.drop two.toNat) := by
  rw [stripFrom, chunks_cons, h]
  rfl

theorem CommentScan.move?_stays {p : CommentScan} {s : ScanState} {two : Bool}
    (h : s.isComment = p.state.isComment) :
    p.move? t s two = some { p with state := s, offset := p.offset + width two } := by
  rcases p with ⟨r, kept, offset, out⟩
  cases r <;> cases s <;> first | rfl | cases h

theorem uncommented_stays {s s' : ScanState} (h : s'.isComment = s.isComment) (k : List Char) :
    Chunk.uncommented ⟨s, s', k⟩ = if s.isComment then [] else k := by
  cases s <;> cases s' <;> first | rfl | cases h

theorem CommentScan.move?_opens {kept offset : Nat} {out part : List Char} {s : ScanState} {two : Bool}
    (hopens : s.isComment = true) (hpart : slice? t kept offset = some part) :
    move? t ⟨.plain, kept, offset, out⟩ s two = some ⟨s, kept, offset + width two, out ++ part⟩ := by
  cases s with
  | lineComment | blockComment => simp [move?, hpart]
  | _ => cases hopens

theorem uncommented_opens {s : ScanState} (hopens : s.isComment = true) (k : List Char) :
    Chunk.uncommented ⟨.plain, s, k⟩ = [] := by
  cases s with
  | lineComment | blockComment => rfl
  | _ => cases hopens

theorem CommentScan.exists_move? {p : CommentScan} {a₁ a₂ v : List Char} {c : Char} {s : ScanState}
    {two : Bool} (hread : ReadTo t p.offset (a₁ ++ a₂) (c :: v))
    (hkept : if p.state.isComment then a₂ = [] else p.kept = byteSize a₁)
    (hresult : stripComments t = p.out ++ (a₂ ++ stripFrom p.state (c :: v)))
    (hoffset : p.offset = byteSize (a₁ ++ a₂)) (hstep : p.state.step c v.head? = (s, two))
    (hnext : ReadTo t (p.offset + width two) (a₁ ++ a₂ ++ c :: v.take two.toNat)
      (v.drop two.toNat)) :
    ∃ q, p.move? t s two = some q ∧ q.IsGood t ∧ q.offset = p.offset + width two := by
  rw [stripFrom_cons_step hstep] at hresult
  rcases p with ⟨r, kept, offset, out⟩
  dsimp only at hread hkept hresult hoffset hstep hnext
  rcases ScanState.step_cases hstep with
    hsame | ⟨rfl, hopens⟩ | ⟨rfl, rfl⟩ | ⟨rfl, rfl, rfl, rfl, hv⟩
  · refine ⟨_, move?_stays hsame, ?_, rfl⟩
    rw [uncommented_stays hsame] at hresult
    cases hr : r.isComment with
    | true =>
        rw [hr] at hkept hsame hresult
        obtain rfl : a₂ = [] := hkept
        exact ⟨a₁ ++ c :: v.take two.toNat, [], _, by simpa using hnext, by simp [hsame],
          by simpa using hresult⟩
    | false =>
        rw [hr] at hkept hsame hresult
        exact ⟨a₁, a₂ ++ c :: v.take two.toNat, _, by rwa [← List.append_assoc],
          by simpa [hsame] using hkept, by simpa using hresult⟩
  · have hkept : kept = byteSize a₁ := hkept
    have hpart : slice? t kept offset = some a₂ := by
      rw [hread.text, hkept, hoffset, slice?_append]
    rw [uncommented_opens hopens] at hresult
    exact ⟨_, move?_opens hopens hpart, ⟨a₁ ++ a₂ ++ c :: v.take two.toNat, [], _, by simpa using hnext,
      by simp [hopens], by simpa using hresult⟩, rfl⟩
  · -- The newline that ends a line comment is still to be copied.
    obtain rfl : a₂ = [] := hkept
    rw [List.append_nil] at hoffset hnext
    exact ⟨_, rfl, ⟨a₁, c :: v.take two.toNat, _, hnext, hoffset, hresult⟩, rfl⟩
  · -- A block comment ends: the text behind it is still to be copied.
    obtain rfl : a₂ = [] := hkept
    obtain ⟨v, rfl⟩ := List.head?_eq_some_iff.1 hv
    have hend : offset + 2 = byteSize (a₁ ++ ['*', '/']) := by
      rw [hoffset, List.append_nil, byteSize_append]
      rfl
    rw [List.append_nil] at hnext
    exact ⟨_, rfl, ⟨a₁ ++ ['*', '/'], [], v, by simpa using hnext, hend, hresult⟩, rfl⟩

theorem CommentScan.IsGood.turn {p : CommentScan} (h : p.IsGood t) :
    (p.offset < byteSize t ∧ ∃ q, commentTurn t p = some (.inl q) ∧ q.IsGood t ∧
      p.offset < q.offset) ∨ commentTurn t p = some (.inr (stripComments t)) := by
  obtain ⟨a₁, a₂, u, hread, hkept, hresult⟩ := h
  by_cases hi : p.offset < byteSize t
  · refine .inl ⟨hi, ?_⟩
    obtain ⟨b, hb, ⟨-, hstep, hnext⟩ | ⟨c, v, s, two, rfl, hoffset, -, hstep, hchar, hnext⟩⟩ :=
      isAsciiScan_scanState.turn hread hi p.state
    · refine ⟨{ p with offset := p.offset + 1 }, ?_, ⟨a₁, a₂, u, hnext, hkept, hresult⟩,
        Nat.lt_succ_self _⟩
      simp only [commentTurn, if_pos hi, hb, hstep, Option.bind_eq_bind, Option.bind_some,
        CommentScan.move?_stays]
      rfl
    · obtain ⟨q, hq, hgood, hless⟩ :=
        CommentScan.exists_move? hread hkept hresult hoffset hchar hnext
      refine ⟨q, ?_, hgood, by rw [hless]; exact Nat.lt_add_of_pos_right (width_pos two)⟩
      simp only [commentTurn, if_pos hi, hb, hstep, Option.bind_eq_bind, Option.bind_some, hq]
      rfl
  · refine .inr ?_
    obtain rfl := hread.eq_nil (not_lt.1 hi)
    have ht := hread.text
    rw [List.append_nil] at ht
    have hnil : stripFrom p.state [] = [] := rfl
    rw [hnil, List.append_nil] at hresult
    rw [commentTurn, if_neg hi, hresult]
    split
    · next hs =>
      rw [if_pos hs] at hkept
      rw [hkept, List.append_nil]
      rfl
    · next hs =>
      rw [if_neg hs] at hkept
      have hle : byteSize a₁ ≤ byteSize t := by
        rw [ht, byteSize_append]
        exact Nat.le_add_right _ _
      rw [hkept, Nat.min_eq_left hle, ht, slice?_end]
      rfl

theorem stripCommentBytes?_eq (t : List Char) : stripCommentBytes? t = some (stripComments t) :=
  walk?_eq t CommentScan.offset (fun _ => CommentScan.IsGood.turn)
    ⟨[], [], t, ReadTo.start t, rfl, rfl⟩

end Comments

section Statements

variable {t : List Char}

/-- The state of a cut into statements: the statement that is read starts at `start`. -/
structure StatementScan where
  region : Region
  start : Nat
  offset : Nat
  out : List (List Char)

def statementOf (piece : List Char) : List (List Char) :=
  [trim piece].filter isStatement

def statementTurn (t : List Char) (p : StatementScan) :
    Option (StatementScan ⊕ List (List Char)) :=
  if p.offset < byteSize t then do
    let b ← byte? t p.offset
    if p.region = .sql .plain ∧ b = ';' then
      let piece ← slice? t p.start (p.offset + 1)
      return .inl ⟨p.region, p.offset + 1, p.offset + 1, p.out ++ statementOf piece⟩
    else
      let (region, two) := p.region.step b (byte? t (p.offset + 1))
      return .inl { p with region := region, offset := p.offset + width two }
  else if p.start < byteSize t then do
    let piece ← slice? t p.start (byteSize t)
    return .inr (p.out ++ statementOf piece)
  else return .inr p.out

/-- Cuts a dump into statements byte by byte. -/
def statementBytes? (t : List Char) : Option (List (List Char)) :=
  walk? t (statementTurn t) ⟨.sql .plain, 0, 0, []⟩

def resume : List Char → List (List Char) → List (List Char)
  | [], ps => ps
  | a, [] => [a]
  | a, p :: ps => (a ++ p) :: ps

theorem resume_cons (a p : List Char) (ps : List (List Char)) :
    resume a (p :: ps) = (a ++ p) :: ps := by
  cases a <;> rfl

theorem pieces_cons {k : Chunk Region} (hk : k.isTerminator = false) (hne : k.text ≠ [])
    (ks : List (Chunk Region)) (a : List Char) :
    resume a (pieces (k :: ks)) = resume (a ++ k.text) (pieces ks) := by
  obtain ⟨c, x, hx⟩ := List.exists_cons_of_ne_nil hne
  rw [pieces, if_neg (by simp [hk])]
  cases pieces ks with
  | nil =>
      rw [resume_cons, hx]
      cases a <;> rfl
  | cons p ps => rw [resume_cons, resume_cons, List.append_assoc]

/-- The statements before `start` are found, and the text from there on is a part of the next piece. -/
def StatementScan.IsGood (t : List Char) (p : StatementScan) : Prop :=
  ∃ a₁ a₂ u, ReadTo t p.offset (a₁ ++ a₂) u ∧ p.start = byteSize a₁ ∧
    statements t =
      p.out ++ (resume a₂ (pieces (chunks Region.step p.region u))).flatMap statementOf

theorem flatMap_statementOf (ps : List (List Char)) :
    ps.flatMap statementOf = (ps.map trim).filter isStatement := by
  induction ps with
  | nil => rfl
  | cons p ps ih => rw [List.flatMap_cons, ih, List.map_cons, ← List.singleton_append,
      List.filter_append, statementOf]

theorem StatementScan.exists_turn_of_terminator {start offset : Nat} {out : List (List Char)}
    {a₁ a₂ v : List Char} (ht : t = a₁ ++ a₂ ++ ';' :: v) (hi : offset < byteSize t)
    (hb : byte? t offset = some ';') (hoffset : offset = byteSize (a₁ ++ a₂))
    (hstart : start = byteSize a₁)
    (hresult : statements t = out ++
      (resume a₂ (pieces (chunks Region.step (.sql .plain) (';' :: v)))).flatMap statementOf) :
    ∃ q, statementTurn t ⟨.sql .plain, start, offset, out⟩ = some (.inl q) ∧ q.IsGood t ∧
      offset < q.offset := by
  have htext : t = a₁ ++ (a₂ ++ [';']) ++ v := by simp [ht]
  have hsize : byteSize (a₁ ++ (a₂ ++ [';'])) = offset + 1 := by
    rw [← List.append_assoc, byteSize_append, ← hoffset]
    rfl
  have hpiece : slice? t start (offset + 1) = some (a₂ ++ [';']) := by
    rw [hstart, ← hsize, htext, slice?_append]
  have hplace : ReadTo t (offset + 1) (a₁ ++ (a₂ ++ [';']) ++ []) v := by
    rw [← hsize, List.append_nil, htext]
    exact ReadTo.between _ v
  have hfirst (ks : List (Chunk Region)) :
      pieces (⟨.sql .plain, .sql .plain, [';']⟩ :: ks) = [';'] :: pieces ks := rfl
  refine ⟨⟨.sql .plain, offset + 1, offset + 1, out ++ statementOf (a₂ ++ [';'])⟩, ?_,
    ⟨_, [], v, hplace, hsize.symm, ?_⟩, Nat.lt_succ_self _⟩
  · simp only [statementTurn, if_pos hi, hb, Option.bind_eq_bind, Option.bind_some, and_self, if_true,
      hpiece]
    rfl
  · rw [hresult, chunks_terminator, hfirst, resume_cons, List.flatMap_cons, ← List.append_assoc]
    rfl

theorem StatementScan.IsGood.turn {p : StatementScan} (h : p.IsGood t) :
    (p.offset < byteSize t ∧ ∃ q, statementTurn t p = some (.inl q) ∧ q.IsGood t ∧
      p.offset < q.offset) ∨ statementTurn t p = some (.inr (statements t)) := by
  obtain ⟨a₁, a₂, u, hread, hstart, hresult⟩ := h
  by_cases hi : p.offset < byteSize t
  · refine .inl ⟨hi, ?_⟩
    obtain ⟨b, hb, ⟨hwide, hstep, hnext⟩ |
        ⟨c, v, s, two, rfl, hoffset, hbyte, hstep, hchar, hnext⟩⟩ :=
      isAsciiScan_region.turn hread hi p.region
    · have hplain : ¬ (p.region = .sql .plain ∧ b = ';') := fun h =>
        ne_of_wide hwide (by decide) h.2
      refine ⟨{ p with offset := p.offset + 1 }, ?_, ⟨a₁, a₂, u, hnext, hstart, hresult⟩,
        Nat.lt_succ_self _⟩
      simp only [statementTurn, if_pos hi, hb, Option.bind_eq_bind, Option.bind_some, if_neg hplain,
        hstep]
      rfl
    · by_cases hend : p.region = .sql .plain ∧ b = ';'
      · rcases p with ⟨r, start, offset, out⟩
        obtain ⟨rfl, rfl⟩ : r = .sql .plain ∧ b = ';' := hend
        obtain rfl : c = ';' := (hbyte.eq_iff (by decide)).1 rfl
        exact exists_turn_of_terminator hread.text hi hb hoffset hstart hresult
      · have hchunk : Chunk.isTerminator ⟨p.region, s, c :: v.take two.toNat⟩ = false := by
          rw [Bool.eq_false_iff]
          intro hterm
          simp only [Chunk.isTerminator, Bool.and_eq_true, beq_iff_eq, List.cons.injEq] at hterm
          exact hend ⟨hterm.1, (hbyte.eq_iff (by decide)).2 hterm.2.1⟩
        rw [chunks_cons, hchar] at hresult
        dsimp only at hresult
        rw [pieces_cons hchunk (List.cons_ne_nil _ _)] at hresult
        refine ⟨{ p with region := s, offset := p.offset + width two }, ?_,
          ⟨a₁, _, _, by rwa [← List.append_assoc], hstart, hresult⟩,
          Nat.lt_add_of_pos_right (width_pos two)⟩
        simp only [statementTurn, if_pos hi, hb, Option.bind_eq_bind, Option.bind_some, if_neg hend,
          hstep]
        rfl
  · refine .inr ?_
    obtain rfl := hread.eq_nil (not_lt.1 hi)
    have ht := hread.text
    rw [List.append_nil] at ht
    rw [statementTurn, if_neg hi, hresult, chunks, pieces, hstart]
    cases a₂ with
    | nil =>
        rw [List.append_nil] at ht
        rw [ht, if_neg (lt_irrefl _), resume, List.flatMap_nil, List.append_nil]
        rfl
    | cons c a₂ =>
        have hlt : byteSize a₁ < byteSize t := by
          have hpos := byteSize_pos c
          rw [ht, byteSize_append, byteSize_cons]
          omega
        have hlast : resume (c :: a₂) [] = [c :: a₂] := rfl
        rw [if_pos hlt, ht, slice?_end, hlast, List.flatMap_singleton]
        rfl

theorem statementBytes?_eq (t : List Char) : statementBytes? t = some (statements t) :=
  walk?_eq t StatementScan.offset (fun _ => StatementScan.IsGood.turn)
    ⟨[], [], t, ReadTo.start t, rfl, (flatMap_statementOf _).symm⟩

end Statements

end SchemaDeploy.Sql
