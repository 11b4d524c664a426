import SchemaDeploy.Proofs.ByteOffsets
import SchemaDeploy.Proofs.ReferencePlaces

namespace SchemaDeploy

namespace Text

variable {a u t needle : List Char} {b c : Char} {i n : Nat}

section Case

theorem toLower_wide (h : 128 ≤ c.toNat) : c.toLower = c :=
  Char.toLower_eq_of_not_isUpper fun hu => by
    have hn := toNat_of_isUpper hu
    omega

theorem toNat_toLower (h : c.toNat < 128) : c.toLower.toNat < 128 := by
  by_cases hu : c.isUpper = true
  · have hn := toNat_of_isUpper hu
    rw [Char.toLower_eq_of_isUpper hu, Char.toNat_ofNat, if_pos (.inl (by omega))]
    omega
  · rwa [Char.toLower_eq_of_not_isUpper hu]

theorem bytes_wide (h : 128 ≤ c.toNat) : ∀ x ∈ bytes [c], 128 ≤ x.toNat := by
  obtain ⟨b, tail, hbytes, hb, -, htail, -⟩ := exists_bytes c
  rw [hbytes, List.forall_mem_cons]
  refine ⟨?_, fun x hx => (htail x hx).1⟩
  rcases hb with ⟨hc, -⟩ | ⟨-, hb⟩
  · omega
  · exact hb

theorem map_toLower_bytes (t : List Char) : (bytes t).map Char.toLower = bytes (t.map Char.toLower) := by
  induction t with
  | nil => rfl
  | cons c t ih =>
      rw [bytes_cons, List.map_append, ih, List.map_cons, bytes_cons c.toLower]
      congr 1
      by_cases hc : c.toNat < 128
      · rw [bytes_ascii hc, bytes_ascii (toNat_toLower hc), List.map_singleton]
      · have hc : 128 ≤ c.toNat := not_lt.1 hc
        rw [toLower_wide hc]
        calc (bytes [c]).map Char.toLower = (bytes [c]).map id :=
              List.map_congr_left fun x hx => toLower_wide (bytes_wide hc x hx)
          _ = bytes [c] := List.map_id _

theorem bytes_isPrefix_iff {s : List Char} : bytes s <+: bytes t ↔ s <+: t := by
  constructor
  · intro h
    induction s generalizing t with
    | nil => exact List.nil_prefix
    | cons c s ih =>
        cases t with
        | nil =>
            have hpos := byteSize_pos c
            rw [bytes_cons] at h
            rw [byteSize, (List.append_eq_nil_iff.1 (List.prefix_nil.1 h)).1] at hpos
            cases hpos
        | cons d t =>
            rw [bytes_cons c] at h
            obtain rfl := eq_of_bytes_isPrefix ((List.prefix_append _ _).trans h)
            rw [bytes_cons c t, List.prefix_append_right_inj] at h
            exact List.cons_prefix_cons.2 ⟨rfl, ih h⟩
  · rintro ⟨r, rfl⟩
    rw [bytes_append]
    exact List.prefix_append _ _

theorem bytes_injective : Function.Injective bytes := fun s t h => by
  have hst : s <+: t := bytes_isPrefix_iff.1 (h ▸ List.prefix_rfl)
  have hts : t <+: s := bytes_isPrefix_iff.1 (h ▸ List.prefix_rfl)
  exact hst.eq_of_length_le hts.length_le

theorem same_bytes (s t : List Char) : same (bytes s) (bytes t) = same s t := by
  rw [same, same, map_toLower_bytes, map_toLower_bytes, Bool.eq_iff_iff, beq_iff_eq, beq_iff_eq]
  exact bytes_injective.eq_iff

theorem byteSize_of_same {s t : List Char} (h : same s t = true) : byteSize s = byteSize t := by
  rw [← same_bytes] at h
  exact length_eq_of_same h

theorem dropSame?_bytes (needle u : List Char) :
    dropSame? (bytes needle) (bytes u) = (dropSame? needle u).map bytes := by
  cases h : dropSame? needle u with
  | some r =>
      obtain ⟨m, rfl, hm⟩ := exists_of_dropSame? h
      rw [← same_bytes] at hm
      rw [bytes_append]
      exact Sql.dropSame?_append hm (bytes r)
  | none =>
      rw [Option.map_none, Option.eq_none_iff_forall_not_mem]
      intro r hr
      obtain ⟨x, hx, hsame⟩ := exists_of_dropSame? hr
      have hprefix : bytes (needle.map Char.toLower) <+: bytes (u.map Char.toLower) := by
        rw [← map_toLower_bytes, ← map_toLower_bytes, hx, ← eq_of_beq hsame, List.map_append]
        exact List.prefix_append _ _
      obtain ⟨m, hmu, hm⟩ := List.prefix_map_iff.1 (bytes_isPrefix_iff.1 hprefix)
      obtain ⟨v, rfl⟩ := hmu
      rw [Sql.dropSame?_append (beq_iff_eq.2 hm.symm)] at h
      cases h

end Case

section Search

def position? (needle : List Char) : List Char → Option Nat
  | [] => none
  | c :: t => if (dropSame? needle (c :: t)).isSome then some 0 else (position? needle t).map (· + 1)

def findBytes? (t needle : List Char) (start : Nat) : Option (Option Nat) :=
  if needle = [] ∨ byteSize t < start then return none
  else if byteSize t - start < byteSize needle then return none
  else do
    let rest ← bytesFrom? t start
    return (position? (bytes needle) rest).map (start + ·)

theorem dropSame?_tail (hne : needle ≠ []) (hb : IsTail b) (t : List Char) :
    dropSame? (bytes needle) (b :: t) = none := by
  obtain ⟨c, rest, rfl⟩ := List.exists_cons_of_ne_nil hne
  obtain ⟨x, tail, hbytes, -, hx, -⟩ := exists_bytes c
  have hlower : b.toLower = b := toLower_wide hb.1
  have hne : sameLetter x b = false := by
    rw [sameLetter, hlower, beq_eq_false_iff_ne]
    rintro rfl
    by_cases hwide : 128 ≤ x.toNat
    · exact hx (toLower_wide hwide ▸ hb)
    · exact absurd (toNat_toLower (not_le.1 hwide)) (not_lt.2 hb.1)
  rw [bytes_cons, hbytes, List.cons_append, dropSame?, if_neg (by simp [hne])]

theorem position?_tail (hne : needle ≠ []) {tail : List Char} (htail : ∀ x ∈ tail, IsTail x)
    (t : List Char) :
    position? (bytes needle) (tail ++ t) = (position? (bytes needle) t).map (tail.length + ·) := by
  induction tail with
  | nil => simp
  | cons x tail ih =>
      obtain ⟨hx, htail⟩ := List.forall_mem_cons.1 htail
      rw [List.cons_append, position?, dropSame?_tail hne hx, ih htail, Option.map_map]
      simp only [Option.isSome_none, Bool.false_eq_true, if_false]
      congr 1
      funext k
      simp only [Function.comp_apply, List.length_cons]
      omega

theorem position?_bytes (hne : needle ≠ []) (u : List Char) : position? (bytes needle) (bytes u) =
    (position? needle u).map fun n => byteSize (u.take n) := by
  induction u with
  | nil => rfl
  | cons c u ih =>
      obtain ⟨b, tail, hbytes, -, -, htail, -⟩ := exists_bytes c
      have hmatch := dropSame?_bytes needle (c :: u)
      have hsize : byteSize [c] = tail.length + 1 := by rw [byteSize, hbytes, List.length_cons]
      rw [bytes_cons, hbytes, List.cons_append] at hmatch ⊢
      rw [position?, hmatch, Option.isSome_map, position?]
      split
      · rfl
      · rw [position?_tail hne htail, ih, Option.map_map, Option.map_map, Option.map_map]
        congr 1
        funext k
        simp only [Function.comp_apply, List.take_succ_cons]
        rw [byteSize_cons c, hsize]
        omega

theorem position?_cases (needle u : List Char) :
    (position? needle u = none ∧ ∀ w c v, u = w ++ c :: v → dropSame? needle (c :: v) = none) ∨
    ∃ w m v, u = w ++ (m ++ v) ∧ same m needle = true ∧ position? needle u = some w.length ∧
      ∀ x c y, w = x ++ c :: y → dropSame? needle (c :: (y ++ (m ++ v))) = none := by
  induction u with
  | nil => exact .inl ⟨rfl, by simp⟩
  | cons c u ih =>
      cases hd : dropSame? needle (c :: u) with
      | some v =>
          obtain ⟨m, hm, hsame⟩ := exists_of_dropSame? hd
          exact .inr ⟨[], m, v, hm, hsame, by simp [position?, hd], by simp⟩
      | none =>
          rcases ih with ⟨hnone, hall⟩ | ⟨w, m, v, rfl, hsame, hpos, hall⟩
          · refine .inl ⟨by simp [position?, hd, hnone], fun w d v h => ?_⟩
            cases w with
            | nil =>
                cases h
                exact hd
            | cons e w => exact hall w d v (List.cons.inj h).2
          · refine .inr ⟨c :: w, m, v, rfl, hsame, by simp [position?, hd, hpos], fun x d y h => ?_⟩
            cases x with
            | nil =>
                cases h
                exact hd
            | cons e x => exact hall x d y (List.cons.inj h).2

theorem findBytes?_cases (hne : needle ≠ []) (h : ReadTo t i a u) :
    (findBytes? t needle i = some none ∧
      ∀ w c v, u = w ++ c :: v → dropSame? needle (c :: v) = none) ∨
    ∃ w m v, u = w ++ (m ++ v) ∧ same m needle = true ∧
      findBytes? t needle i = some (some (byteSize (a ++ w))) ∧
      ∀ x c y, w = x ++ c :: y → dropSame? needle (c :: (y ++ (m ++ v))) = none := by
  rcases position?_cases needle u with ⟨hnone, hall⟩ | ⟨w, m, v, rfl, hsame, hpos, hall⟩
  · refine .inl ⟨?_, hall⟩
    obtain ⟨tail, htail, hrest⟩ := h.rest
    rw [findBytes?]
    split
    · rfl
    · next hstart =>
      simp only [not_or, not_lt] at hstart
      split
      · rfl
      · rw [bytesFrom?, if_pos hstart.2, hrest]
        simp [position?_tail hne htail, position?_bytes hne, hnone]
  · refine .inr ⟨w, m, v, rfl, hsame, ?_, hall⟩
    have hm := Sql.ne_nil_of_same hsame hne
    obtain ⟨tail, htail, hrest, hsize⟩ := h.exists_tail (u := w ++ (m ++ v)) (by simp [hm])
    have htotal : byteSize t = byteSize a + (byteSize w + (byteSize m + byteSize v)) := by
      rw [h.text, byteSize_append, byteSize_append, byteSize_append]
    have hplace : position? (bytes needle) (tail ++ bytes (w ++ (m ++ v))) =
        some (tail.length + byteSize w) := by
      rw [position?_tail hne htail, position?_bytes hne, hpos, Option.map_some, List.take_left,
        Option.map_some]
    rw [findBytes?, if_neg (by simp only [hne, false_or]; omega), ← byteSize_of_same hsame,
      if_neg (by omega), bytesFrom?, if_pos (by omega), hrest, byteSize_append, ← hsize,
      Option.bind_eq_bind, Option.bind_some, hplace, Option.map_some, Nat.add_assoc]
    rfl

def endsWithBytes? (t suffix : List Char) : Option Bool :=
  if byteSize suffix ≤ byteSize t then do
    let last ← bytesFrom? t (byteSize t - byteSize suffix)
    return same last (bytes suffix)
  else return false

theorem same_reverse (s t : List Char) : same s.reverse t.reverse = same s t := by
  rw [same, same, List.map_reverse, List.map_reverse, Bool.eq_iff_iff, beq_iff_eq, beq_iff_eq,
    List.reverse_inj]

theorem endsWithSame_iff {suffix : List Char} :
    endsWithSame t suffix = true ↔ ∃ x m, t = x ++ m ∧ same m suffix = true := by
  rw [endsWithSame, Option.isSome_iff_exists]
  constructor
  · rintro ⟨r, hr⟩
    obtain ⟨m, ht, hm⟩ := exists_of_dropSame? hr
    refine ⟨r.reverse, m.reverse, ?_, ?_⟩
    · rw [← List.reverse_append, ← ht, List.reverse_reverse]
    · rw [← same_reverse, List.reverse_reverse]
      exact hm
  · rintro ⟨x, m, rfl, hm⟩
    rw [← same_reverse] at hm
    rw [List.reverse_append]
    exact ⟨x.reverse, Sql.dropSame?_append hm x.reverse⟩

theorem endsWithBytes?_eq (t suffix : List Char) :
    endsWithBytes? t suffix = some (endsWithSame t suffix) := by
  rw [endsWithBytes?]
  split
  · next hle =>
    obtain ⟨a, u, hread⟩ := exists_readTo (Nat.sub_le (byteSize t) (byteSize suffix))
    obtain ⟨tail, htail, hrest⟩ := hread.rest
    rw [bytesFrom?, if_pos (Nat.sub_le _ _), Option.bind_eq_bind, Option.bind_some]
    refine congrArg some (Bool.eq_iff_iff.2 ?_)
    rw [endsWithSame_iff]
    constructor
    · intro hsame
      rw [hrest] at hsame
      cases tail with
      | nil => exact ⟨a, u, hread.text, by rwa [List.nil_append, same_bytes] at hsame⟩
      | cons x tail =>
          have hne : suffix ≠ [] := by
            rintro rfl
            cases hsame
          have hfull := Sql.dropSame?_append hsame []
          rw [List.append_nil, List.cons_append,
            dropSame?_tail hne (htail x List.mem_cons_self)] at hfull
          cases hfull
    · rintro ⟨x, m, rfl, hm⟩
      rw [← byteSize_of_same hm, byteSize_append, Nat.add_sub_cancel, bytes_append, byteSize,
        List.drop_left, same_bytes]
      exact hm
  · next hlt =>
    refine congrArg some (Eq.symm ?_)
    rw [Bool.eq_false_iff, Ne, endsWithSame_iff]
    rintro ⟨x, m, rfl, hm⟩
    rw [byteSize_append, byteSize_of_same hm] at hlt
    omega

end Search

end Text

namespace Parameters

open Text

variable {bounded : Bool} {needle image t : List Char}

/-- Which matches a replacement accepts. -/
def accepts (bounded : Bool) : Option Char → Option Char → Bool :=
  if bounded then isBounded else anywhere

def acceptBytes? (bounded : Bool) (t : List Char) (pos stop : Nat) : Option Bool :=
  if bounded then do
    let before ← byteBefore? t pos
    if before.all startsValue then
      let after ← byteAfter? t stop
      return after.all endsValue
    else return false
  else return true

/-- The state of a replacement: what starts at `kept` is still to be copied, and the search goes on at
`start`. -/
structure ReplaceScan where
  kept : Nat
  start : Nat
  out : List Char

def replaceTurn (bounded : Bool) (needle image t : List Char) (p : ReplaceScan) :
    Option (ReplaceScan ⊕ List Char) := do
  match ← findBytes? t needle p.start with
  | none =>
    let part ← slice? t p.kept (byteSize t)
    return .inr (p.out ++ part)
  | some pos =>
    let stop := pos + byteSize needle
    if ← acceptBytes? bounded t pos stop then
      let part ← slice? t p.kept pos
      return .inl ⟨stop, stop, p.out ++ part ++ image⟩
    else return .inl { p with start := pos + 1 }

/-- Replaces matches byte by byte. -/
def replaceBytes? (bounded : Bool) (needle image t : List Char) : Option (List Char) :=
  walk? t (replaceTurn bounded needle image t) ⟨0, 0, []⟩

theorem isAsciiTest_startsValue : IsAsciiTest startsValue :=
  (isAsciiTest_contains (by decide)).or isAsciiTest_isAsciiBlank

theorem isAsciiTest_endsValue : IsAsciiTest endsValue :=
  (isAsciiTest_contains (by decide)).or isAsciiTest_isAsciiBlank

theorem acceptBytes?_eq (bounded : Bool) (a m u : List Char) :
    acceptBytes? bounded (a ++ (m ++ u)) (byteSize a) (byteSize (a ++ m)) =
      some (accepts bounded a.getLast? u.head?) := by
  cases bounded with
  | false => rfl
  | true =>
      obtain ⟨x, hx, hbefore⟩ := exists_byteBefore? a (m ++ u)
      obtain ⟨y, hy, hafter⟩ := exists_byteAfter? (a ++ m) u
      rw [List.append_assoc] at hy
      simp only [acceptBytes?, if_true, hx, hy, Option.bind_eq_bind, Option.bind_some, accepts,
        isBounded, hbefore.all_eq isAsciiTest_startsValue, hafter.all_eq isAsciiTest_endsValue]
      cases a.getLast?.all startsValue <;> rfl

theorem replaceFrom_of_refused_match {accept : Option Char → Option Char → Bool} {before : Option Char}
    {c : Char} {m v : List Char} (hsame : same (c :: m) needle = true)
    (ha : accept before v.head? = false) :
    replaceFrom accept needle image 0 before (c :: (m ++ v)) =
      c :: replaceFrom accept needle image 0 (some c) (m ++ v) := by
  have hd := Sql.dropSame?_append hsame v
  rw [List.cons_append] at hd
  rw [replaceFrom, hd]
  simp [ha]

/-- The text up to `kept` is replaced, the text from there up to `start` stays, and the rest is looked at
as if the search had just come there. -/
def ReplaceScan.IsGood (bounded : Bool) (needle image t : List Char) (p : ReplaceScan) : Prop :=
  ∃ a₁ a₂ u, ReadTo t p.start (a₁ ++ a₂) u ∧ p.kept = byteSize a₁ ∧
    replaceSame (accepts bounded) needle image t =
      p.out ++ (a₂ ++ replaceFrom (accepts bounded) needle image 0 (a₁ ++ a₂).getLast? u)

theorem replaceTurn_of_match {p : ReplaceScan} {b m v part : List Char} (ht : t = b ++ (m ++ v))
    (hsame : same m needle = true) (hfind : findBytes? t needle p.start = some (some (byteSize b)))
    (hpart : slice? t p.kept (byteSize b) = some part) :
    replaceTurn bounded needle image t p = some (.inl (if accepts bounded b.getLast? v.head? then
      ⟨byteSize (b ++ m), byteSize (b ++ m), p.out ++ part ++ image⟩
      else { p with start := byteSize b + 1 })) := by
  have hstop : byteSize b + byteSize needle = byteSize (b ++ m) := by
    rw [byteSize_append, byteSize_of_same hsame]
  have haccept := acceptBytes?_eq bounded b m v
  rw [← ht] at haccept
  simp only [replaceTurn, hfind, hstop, haccept, Option.bind_eq_bind, Option.bind_some, hpart]
  split <;> rfl

theorem ReplaceScan.exists_turn {p : ReplaceScan} {a₁ a₂ w m v : List Char} (hne : needle ≠ [])
    (hread : ReadTo t p.start (a₁ ++ a₂) (w ++ (m ++ v))) (hkept : p.kept = byteSize a₁)
    (hsame : same m needle = true)
    (hfind : findBytes? t needle p.start = some (some (byteSize (a₁ ++ a₂ ++ w))))
    (hresult : replaceSame (accepts bounded) needle image t = p.out ++ (a₂ ++ (w ++
      replaceFrom (accepts bounded) needle image 0 (a₁ ++ a₂ ++ w).getLast? (m ++ v)))) :
    ∃ q, replaceTurn bounded needle image t p = some (.inl q) ∧ q.IsGood bounded needle image t ∧
      p.start < q.start := by
  have hm := Sql.ne_nil_of_same hsame hne
  have hle := hread.le (by simp [hm])
  have hsize := byteSize_append (a₁ ++ a₂) w
  have htext : t = a₁ ++ a₂ ++ w ++ (m ++ v) := by simp [hread.text]
  have hpart : slice? t p.kept (byteSize (a₁ ++ a₂ ++ w)) = some (a₂ ++ w) := by
    rw [hkept, htext, List.append_assoc a₁, slice?_append]
  refine ⟨_, replaceTurn_of_match htext hsame hfind hpart, ?_⟩
  obtain ⟨c, x, rfl⟩ := List.exists_cons_of_ne_nil hm
  cases ha : accepts bounded (a₁ ++ a₂ ++ w).getLast? v.head? with
  | true =>
      rw [replaceFrom_of_match hne hsame ha] at hresult
      generalize hb : a₁ ++ a₂ ++ w ++ c :: x = b
      have hlast : (b ++ []).getLast? = (c :: x).getLast? := by
        rw [← hb, List.append_nil, List.getLast?_append_of_ne_nil _ hm]
      have hplace : ReadTo t (byteSize b) (b ++ []) v := by
        rw [htext, ← List.append_assoc, hb, List.append_nil]
        exact ReadTo.between b v
      have hpos := byteSize_pos c
      refine ⟨⟨b, [], v, hplace, rfl, ?_⟩, ?_⟩
      · rw [hlast]
        simpa using hresult
      · change p.start < byteSize b
        rw [← hb, byteSize_append, byteSize_cons]
        omega
  | false =>
      rw [List.cons_append, replaceFrom_of_refused_match hsame ha] at hresult
      have hplace := ReadTo.next (a₁ ++ a₂ ++ w) c (x ++ v)
      rw [← List.cons_append, ← htext] at hplace
      refine ⟨⟨a₁, a₂ ++ w ++ [c], x ++ v, by simpa using hplace, hkept, ?_⟩, ?_⟩
      · rw [hresult, ← List.append_assoc a₁, List.getLast?_append_of_ne_nil _ (by simp)]
        simp
      · change p.start < byteSize (a₁ ++ a₂ ++ w) + 1
        omega

theorem ReplaceScan.IsGood.turn {p : ReplaceScan} (h : p.IsGood bounded needle image t) :
    (p.start < byteSize t ∧ ∃ q, replaceTurn bounded needle image t p = some (.inl q) ∧
      q.IsGood bounded needle image t ∧ p.start < q.start) ∨
    replaceTurn bounded needle image t p =
      some (.inr (replaceSame (accepts bounded) needle image t)) := by
  obtain ⟨a₁, a₂, u, hread, hkept, hresult⟩ := h
  have hend (hfind : findBytes? t needle p.start = some none)
      (hstays : replaceFrom (accepts bounded) needle image 0 (a₁ ++ a₂).getLast? u = u) :
      replaceTurn bounded needle image t p =
        some (.inr (replaceSame (accepts bounded) needle image t)) := by
    have hpart : slice? t p.kept (byteSize t) = some (a₂ ++ u) := by
      rw [hkept, hread.text, List.append_assoc, slice?_end]
    simp only [replaceTurn, hfind, hpart, Option.bind_eq_bind, Option.bind_some, hresult, hstays]
    rfl
  by_cases hne : needle = []
  · subst hne
    exact .inr (hend rfl (replaceFrom_nil_needle ..))
  have hskip {w v : List Char} (hall : ∀ x c y, w = x ++ c :: y →
      dropSame? needle (c :: (y ++ v)) = none) :
      replaceFrom (accepts bounded) needle image 0 (a₁ ++ a₂).getLast? (w ++ v) =
        w ++ replaceFrom (accepts bounded) needle image 0 (a₁ ++ a₂ ++ w).getLast? v := by
    have hlast : (a₁ ++ a₂ ++ w).getLast? = w.getLast?.or (a₁ ++ a₂).getLast? := List.getLast?_append
    rw [hlast]
    refine replaceFrom_append fun x c y rest hw hd => ?_
    rw [hall x c y hw] at hd
    cases hd
  rcases findBytes?_cases hne hread with ⟨hfind, hall⟩ | ⟨w, m, v, rfl, hsame, hfind, hall⟩
  · have hstays := hskip (w := u) (v := []) (by simpa using hall)
    rw [List.append_nil] at hstays
    exact .inr (hend hfind (hstays.trans (List.append_nil u)))
  · rw [hskip hall] at hresult
    exact .inl ⟨hread.lt (by simp [Sql.ne_nil_of_same hsame hne]),
      exists_turn hne hread hkept hsame hfind hresult⟩

theorem replaceBytes?_eq (bounded : Bool) (needle image t : List Char) :
    replaceBytes? bounded needle image t = some (replaceSame (accepts bounded) needle image t) :=
  walk?_eq t ReplaceScan.start (fun _ => ReplaceScan.IsGood.turn)
    ⟨[], [], t, ReadTo.start t, rfl, rfl⟩

end Parameters

end SchemaDeploy
