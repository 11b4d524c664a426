import SchemaDeploy.Proofs.Replacements

namespace SchemaDeploy

namespace Text

variable {a u v t : List Char} {b c d : Char} {i j : Nat}

section Bytes

def bytes (t : List Char) : List Char :=
  (t.flatMap String.utf8EncodeChar).map UInt8.toChar

def byteSize (t : List Char) : Nat :=
  (bytes t).length

def byte? (t : List Char) (i : Nat) : Option Char :=
  (bytes t)[i]?

def byteBefore? (t : List Char) : Nat → Option (Option Char)
  | 0 => some none
  | i + 1 => (byte? t i).map some

def byteAfter? (t : List Char) (i : Nat) : Option (Option Char) :=
  if i = byteSize t then some none else (byte? t i).map some

def bytesFrom? (t : List Char) (i : Nat) : Option (List Char) :=
  if i ≤ byteSize t then some ((bytes t).drop i) else none

/-- The two parts of a text at an offset, which must be the start of the text or the end of a
character. -/
def cut? : List Char → Nat → Option (List Char × List Char)
  | t, 0 => some ([], t)
  | [], _ + 1 => none
  | c :: t, i + 1 =>
    if i + 1 < byteSize [c] then none
    else (cut? t (i + 1 - byteSize [c])).map fun p => (c :: p.1, p.2)

def slice? (t : List Char) (i j : Nat) : Option (List Char) := do
  let (front, _) ← cut? t j
  let (_, part) ← cut? front i
  return part

@[simp] theorem bytes_nil : bytes [] = [] :=
  rfl

@[simp] theorem bytes_append (s t : List Char) : bytes (s ++ t) = bytes s ++ bytes t := by
  rw [bytes, List.flatMap_append, List.map_append, bytes, bytes]

theorem bytes_cons (c : Char) (t : List Char) : bytes (c :: t) = bytes [c] ++ bytes t :=
  bytes_append [c] t

@[simp] theorem byteSize_nil : byteSize [] = 0 :=
  rfl

@[simp] theorem byteSize_append (s t : List Char) :
    byteSize (s ++ t) = byteSize s + byteSize t := by
  rw [byteSize, bytes_append, List.length_append, byteSize, byteSize]

theorem byteSize_cons (c : Char) (t : List Char) :
    byteSize (c :: t) = byteSize [c] + byteSize t :=
  byteSize_append [c] t

theorem byteSize_pos (c : Char) : 0 < byteSize [c] := by
  rw [byteSize, bytes, List.length_map, List.flatMap_singleton, String.length_utf8EncodeChar]
  exact c.utf8Size_pos

theorem eq_nil_of_byteSize (h : byteSize t = 0) : t = [] := by
  cases t with
  | nil => rfl
  | cons c t =>
      have hpos := byteSize_pos c
      rw [byteSize_cons] at h
      omega

theorem cut?_eq_some_iff : cut? t i = some (a, u) ↔ t = a ++ u ∧ i = byteSize a := by
  fun_induction cut? t i generalizing a with
  | case1 t =>
      constructor
      · rintro ⟨⟩
        exact ⟨rfl, rfl⟩
      · rintro ⟨rfl, hi⟩
        rw [eq_nil_of_byteSize hi.symm, List.nil_append]
  | case2 i => simp_all
  | case3 c t i hlt =>
      refine iff_of_false (by simp) ?_
      rintro ⟨hct, hi⟩
      cases a with
      | nil => cases hi
      | cons d a =>
          obtain ⟨rfl, -⟩ := List.cons.inj hct
          rw [byteSize_cons] at hi
          omega
  | case4 c t i hle ih =>
      rw [Option.map_eq_some_iff]
      constructor
      · rintro ⟨⟨x, y⟩, hcut, heq⟩
        simp only [Prod.mk.injEq] at heq
        obtain ⟨rfl, rfl⟩ := heq
        obtain ⟨rfl, hi⟩ := ih.1 hcut
        exact ⟨rfl, by rw [byteSize_cons]; omega⟩
      · rintro ⟨hct, hi⟩
        cases a with
        | nil => cases hi
        | cons d a =>
            obtain ⟨rfl, rfl⟩ := List.cons.inj hct
            rw [byteSize_cons] at hi
            exact ⟨(a, u), ih.2 ⟨rfl, by omega⟩, rfl⟩

theorem slice?_eq_some_iff : slice? t i j = some u ↔
    ∃ a v, t = a ++ u ++ v ∧ i = byteSize a ∧ j = byteSize (a ++ u) := by
  simp only [slice?, Option.bind_eq_bind, Option.bind_eq_some_iff, Prod.exists, Option.pure_def,
    Option.some.injEq, cut?_eq_some_iff]
  constructor
  · rintro ⟨front, v, ⟨rfl, rfl⟩, a, x, ⟨rfl, rfl⟩, rfl⟩
    exact ⟨a, v, rfl, rfl, rfl⟩
  · rintro ⟨a, v, rfl, rfl, rfl⟩
    exact ⟨a ++ u, v, ⟨rfl, rfl⟩, a, u, ⟨rfl, rfl⟩, rfl⟩

example : slice? ['é', 'a'] 1 2 = none := by decide

theorem slice?_append (a u v : List Char) :
    slice? (a ++ u ++ v) (byteSize a) (byteSize (a ++ u)) = some u :=
  slice?_eq_some_iff.2 ⟨a, v, rfl, rfl, rfl⟩

theorem slice?_end (a u : List Char) :
    slice? (a ++ u) (byteSize a) (byteSize (a ++ u)) = some u :=
  slice?_eq_some_iff.2 ⟨a, [], (List.append_nil _).symm, rfl, rfl⟩

theorem slice?_start (a u : List Char) : slice? (a ++ u) 0 (byteSize a) = some a :=
  slice?_eq_some_iff.2 ⟨[], u, rfl, rfl, rfl⟩

end Bytes

section Characters

/-- A byte of a character: the character itself if it is ASCII, else a byte that is no ASCII
character. -/
def IsByteOf (b c : Char) : Prop :=
  (c.toNat < 128 ∧ b = c) ∨ (128 ≤ c.toNat ∧ 128 ≤ b.toNat)

def IsTail (b : Char) : Prop :=
  128 ≤ b.toNat ∧ b.toNat < 192

def IsAsciiTest (p : Char → Bool) : Prop :=
  ∀ c, 128 ≤ c.toNat → p c = false

theorem ne_of_wide (hc : 128 ≤ c.toNat) (hd : d.toNat < 128) : c ≠ d := by
  rintro rfl
  omega

theorem isAsciiTest_isAsciiBlank : IsAsciiTest isAsciiBlank := fun c hc => by
  have hne {d : Char} (hd : d.toNat < 128) : c ≠ d := ne_of_wide hc hd
  simp [isAsciiBlank, hne]

theorem IsAsciiTest.or {p q : Char → Bool} (hp : IsAsciiTest p) (hq : IsAsciiTest q) :
    IsAsciiTest fun c => p c || q c := fun c hc => by
  simp only [hp c hc, hq c hc, Bool.or_self]

theorem isAsciiTest_contains {l : List Char} (hl : l.all (·.toNat < 128) = true) :
    IsAsciiTest l.contains := fun c hc => by
  rw [Bool.eq_false_iff, Ne, List.contains_iff_mem]
  intro hmem
  have hlt := List.all_eq_true.1 hl c hmem
  exact absurd (of_decide_eq_true hlt) (not_lt.2 hc)

theorem toNat_toChar {n : Nat} (h : n < 256) : (UInt8.ofNat n).toChar.toNat = n := by
  have hmod : (UInt8.ofNat n).toChar.toNat = n % 256 := by simp [UInt8.toChar, Char.toNat]
  rw [hmod, Nat.mod_eq_of_lt h]

theorem isTail_of_mem_map (ns : List Nat) :
    ∀ x ∈ ns.map fun n => (UInt8.ofNat (n % 64 + 128)).toChar, IsTail x := by
  rw [List.forall_mem_map]
  intro n _
  rw [IsTail, toNat_toChar (by omega)]
  omega

theorem exists_bytes (c : Char) : ∃ b tail, bytes [c] = b :: tail ∧ IsByteOf b c ∧ ¬ IsTail b ∧
    (∀ x ∈ tail, IsTail x) ∧ (c.toNat < 128 → tail = []) := by
  have hfirst {n : Nat} (hc : 128 ≤ c.toNat) (hn : 192 ≤ n ∧ n < 256) :
      IsByteOf (UInt8.ofNat n).toChar c ∧ ¬ IsTail (UInt8.ofNat n).toChar := by
    rw [IsTail, IsByteOf, toNat_toChar hn.2]
    omega
  have hwide {tail : List Char} (hc : 128 ≤ c.toNat) (h : c.toNat < 128) : tail = [] := by omega
  rw [bytes, List.flatMap_singleton, String.utf8EncodeChar]
  change ∃ b tail, List.map _ (if c.toNat ≤ 127 then _ else if c.toNat ≤ 2047 then _
    else if c.toNat ≤ 65535 then _ else _) = b :: tail ∧ _
  by_cases hone : c.toNat ≤ 127
  · have hb : (UInt8.ofNat c.toNat).toChar = c := Char.toNat_inj.1 (toNat_toChar (by omega))
    rw [if_pos hone]
    refine ⟨c, [], congrArg (fun b => [b]) hb, .inl ⟨by omega, rfl⟩, ?_, by simp, fun _ => rfl⟩
    rw [IsTail]
    omega
  · have hc : 128 ≤ c.toNat := by omega
    rw [if_neg hone]
    split
    · obtain ⟨hb, hnot⟩ := hfirst hc (n := c.toNat / 64 % 32 + 192) (by omega)
      exact ⟨_, _, rfl, hb, hnot, isTail_of_mem_map [c.toNat], hwide hc⟩
    split
    · obtain ⟨hb, hnot⟩ := hfirst hc (n := c.toNat / 4096 % 16 + 224) (by omega)
      exact ⟨_, _, rfl, hb, hnot, isTail_of_mem_map [c.toNat / 64, c.toNat], hwide hc⟩
    · obtain ⟨hb, hnot⟩ := hfirst hc (n := c.toNat / 262144 % 8 + 240) (by omega)
      exact ⟨_, _, rfl, hb, hnot, isTail_of_mem_map [c.toNat / 4096, c.toNat / 64, c.toNat], hwide hc⟩

theorem toChar_injective : Function.Injective UInt8.toChar := fun a b h => by
  have hnat := congrArg Char.toNat h
  simpa [UInt8.toChar, Char.toNat, ← UInt8.toNat_inj] using hnat

theorem eq_of_bytes_isPrefix (h : bytes [c] <+: bytes (d :: t)) : c = d := by
  rw [bytes, bytes, List.prefix_map_iff] at h
  obtain ⟨l, ⟨r, hr⟩, hl⟩ := h
  rw [← List.map_injective_iff.2 toChar_injective hl, List.flatMap_singleton, List.flatMap_cons] at hr
  have hdecode := congrArg (fun l => l.toByteArray.utf8DecodeChar? 0) hr
  simp only [List.toByteArray_append, ByteArray.utf8DecodeChar?_utf8EncodeChar_append] at hdecode
  exact Option.some.inj hdecode

theorem bytes_ascii (h : c.toNat < 128) : bytes [c] = [c] := by
  obtain ⟨b, tail, hbytes, hb, -, -, hascii⟩ := exists_bytes c
  rcases hb with ⟨-, rfl⟩ | ⟨hc, -⟩
  · rw [hbytes, hascii h]
  · omega

theorem byteSize_ascii (h : c.toNat < 128) : byteSize [c] = 1 := by
  rw [byteSize, bytes_ascii h, List.length_singleton]

theorem IsByteOf.eq_iff (h : IsByteOf b c) (hd : d.toNat < 128) : b = d ↔ c = d := by
  rcases h with ⟨-, rfl⟩ | ⟨hc, hb⟩
  · rfl
  · exact iff_of_false (by rintro rfl; omega) (by rintro rfl; omega)

theorem IsByteOf.test_eq (h : IsByteOf b c) {p : Char → Bool} (hp : IsAsciiTest p) : p b = p c := by
  rcases h with ⟨-, rfl⟩ | ⟨hc, hb⟩
  · rfl
  · rw [hp b hb, hp c hc]

abbrev MayBeByteOf : Option Char → Option Char → Prop :=
  Option.Rel IsByteOf

variable {x y : Option Char}

theorem MayBeByteOf.eq_some_iff (h : MayBeByteOf x y) (hd : d.toNat < 128) :
    x = some d ↔ y = some d := by
  cases h with
  | none => rfl
  | some h => simpa using h.eq_iff hd

theorem MayBeByteOf.all_eq (h : MayBeByteOf x y) {p : Char → Bool} (hp : IsAsciiTest p) :
    x.all p = y.all p := by
  cases h with
  | none => rfl
  | some h => exact h.test_eq hp

theorem MayBeByteOf.any_eq (h : MayBeByteOf x y) {p : Char → Bool} (hp : IsAsciiTest p) :
    x.any p = y.any p := by
  cases h with
  | none => rfl
  | some h => exact h.test_eq hp

theorem bytes_last (a : List Char) : MayBeByteOf (bytes a).getLast? a.getLast? := by
  induction a using List.reverseRecOn with
  | nil => exact .none
  | append_singleton a c =>
      obtain ⟨b, tail, hbytes, hb, -, htail, hascii⟩ := exists_bytes c
      rw [bytes_append, hbytes, List.getLast?_append, List.getLast?_append, List.getLast?_cons,
        List.getLast?_singleton, Option.some_or, Option.some_or]
      refine .some ?_
      cases hlast : tail.getLast? with
      | none => exact hb
      | some z =>
          have hz := List.mem_of_getLast? hlast
          refine .inr ⟨?_, (htail z hz).1⟩
          by_contra hc
          rw [hascii (by omega)] at hz
          cases hz

theorem bytes_first (u : List Char) : MayBeByteOf (bytes u).head? u.head? := by
  cases u with
  | nil => exact .none
  | cons c u =>
      obtain ⟨b, tail, hbytes, hb, -⟩ := exists_bytes c
      rw [bytes_cons, hbytes]
      exact .some hb

theorem byte?_append (a u : List Char) : byte? (a ++ u) (byteSize a) = (bytes u).head? := by
  rw [byte?, bytes_append, byteSize, List.getElem?_append_right (le_refl _), Nat.sub_self,
    List.head?_eq_getElem?]

theorem mayBeByteOf_byte? (a u : List Char) :
    MayBeByteOf (byte? (a ++ u) (byteSize a)) u.head? := by
  rw [byte?_append]
  exact bytes_first u

theorem exists_byteBefore? (a u : List Char) :
    ∃ x, byteBefore? (a ++ u) (byteSize a) = some x ∧ MayBeByteOf x a.getLast? := by
  have hlast := bytes_last a
  refine ⟨_, ?_, hlast⟩
  cases hn : byteSize a with
  | zero =>
      rw [eq_nil_of_byteSize hn]
      rfl
  | succ n =>
      have hlt : n < (bytes a).length := by
        rw [← byteSize, hn]
        exact Nat.lt_succ_self n
      rw [byteBefore?, byte?, bytes_append, List.getElem?_append_left hlt, List.getLast?_eq_getElem?,
        ← byteSize, hn, Nat.add_sub_cancel, List.getElem?_eq_getElem hlt, Option.map_some]

theorem exists_byteAfter? (a u : List Char) :
    ∃ x, byteAfter? (a ++ u) (byteSize a) = some x ∧ MayBeByteOf x u.head? := by
  refine ⟨_, ?_, bytes_first u⟩
  cases u with
  | nil => rw [byteAfter?, List.append_nil, if_pos rfl]; rfl
  | cons c u =>
      obtain ⟨b, tail, hbytes, -⟩ := exists_bytes c
      have hpos := byteSize_pos c
      rw [byteAfter?, if_neg (by rw [byteSize_append, byteSize_cons]; omega), byte?_append,
        bytes_cons, hbytes]
      rfl

end Characters

section Places

/-- Where a walk stands: the text before it and the text after it. The offset may be inside the last
character before it, or behind the text. -/
structure ReadTo (t : List Char) (i : Nat) (a u : List Char) : Prop where
  text : t = a ++ u
  rest : ∃ tail, (∀ x ∈ tail, IsTail x) ∧ (bytes t).drop i = tail ++ bytes u

theorem ReadTo.start (t : List Char) : ReadTo t 0 [] t :=
  ⟨rfl, [], by simp, rfl⟩

theorem ReadTo.between (a u : List Char) : ReadTo (a ++ u) (byteSize a) a u :=
  ⟨rfl, [], by simp, by rw [bytes_append, byteSize, List.drop_left, List.nil_append]⟩

theorem ReadTo.next (a : List Char) (c : Char) (v : List Char) :
    ReadTo (a ++ c :: v) (byteSize a + 1) (a ++ [c]) v := by
  obtain ⟨b, tail, hbytes, -, -, htail, -⟩ := exists_bytes c
  refine ⟨by simp, tail, htail, ?_⟩
  rw [bytes_append, bytes_cons, hbytes, byteSize, ← List.drop_drop, List.drop_left]
  rfl

theorem ReadTo.next_two (a : List Char) (hc : c.toNat < 128) (v : List Char) :
    ReadTo (a ++ c :: v) (byteSize a + 2) (a ++ c :: v.take 1) (v.drop 1) := by
  have hsize : byteSize (a ++ [c]) = byteSize a + 1 := by rw [byteSize_append, byteSize_ascii hc]
  cases v with
  | nil =>
      refine ⟨by simp, [], by simp, ?_⟩
      rw [List.drop_eq_nil_of_le (by rw [← byteSize, hsize]; omega)]
      rfl
  | cons d v =>
      have hnext := ReadTo.next (a ++ [c]) d v
      rw [hsize, List.append_assoc, List.append_assoc] at hnext
      exact hnext

theorem ReadTo.eq_nil (h : ReadTo t i a u) (hi : byteSize t ≤ i) : u = [] := by
  obtain ⟨tail, -, hrest⟩ := h.rest
  rw [List.drop_eq_nil_of_le hi] at hrest
  obtain ⟨-, hu⟩ := List.append_eq_nil_iff.1 hrest.symm
  exact eq_nil_of_byteSize (by rw [byteSize, hu, List.length_nil])

theorem ReadTo.lt (h : ReadTo t i a u) (hu : u ≠ []) : i < byteSize t :=
  not_le.1 fun hi => hu (h.eq_nil hi)

theorem ReadTo.exists_tail (h : ReadTo t i a u) (hu : u ≠ []) :
    ∃ tail, (∀ x ∈ tail, IsTail x) ∧ (bytes t).drop i = tail ++ bytes u ∧
      i + tail.length = byteSize a := by
  obtain ⟨tail, htail, hrest⟩ := h.rest
  have hlength := congrArg List.length hrest
  have hi := h.lt hu
  have hsize := byteSize_append a u
  rw [← h.text] at hsize
  rw [List.length_drop, List.length_append, ← byteSize, ← byteSize] at hlength
  exact ⟨tail, htail, hrest, by omega⟩

theorem ReadTo.le (h : ReadTo t i a u) (hu : u ≠ []) : i ≤ byteSize a := by
  obtain ⟨tail, -, -, hsize⟩ := h.exists_tail hu
  omega

theorem ReadTo.cases (h : ReadTo t i a u) (hi : i < byteSize t) :
    (∃ b, byte? t i = some b ∧ IsTail b ∧ ReadTo t (i + 1) a u) ∨
      i = byteSize a ∧ ∃ c v, u = c :: v := by
  obtain ⟨tail, htail, hrest⟩ := h.rest
  cases tail with
  | nil =>
      have hu : u ≠ [] := by
        rintro rfl
        rw [bytes_nil, List.append_nil, List.drop_eq_nil_iff] at hrest
        exact absurd hi (not_lt.2 hrest)
      obtain ⟨tail, -, hrest', hsize⟩ := h.exists_tail hu
      rw [hrest, List.nil_append, List.self_eq_append_left] at hrest'
      rw [hrest', List.length_nil] at hsize
      exact .inr ⟨hsize, List.exists_cons_of_ne_nil hu⟩
  | cons b tail =>
      obtain ⟨hb, htail⟩ := List.forall_mem_cons.1 htail
      refine .inl ⟨b, ?_, hb, h.text, tail, htail, ?_⟩
      · rw [byte?, ← List.head?_drop, hrest]
        rfl
      · rw [← List.drop_drop, hrest]
        rfl

/-- The byte that a walk looks at goes on with a character, or it starts one; if that is ASCII, the next
byte starts the next character. -/
theorem ReadTo.turn (h : ReadTo t i a u) (hi : i < byteSize t) : ∃ b, byte? t i = some b ∧
    (128 ≤ b.toNat ∧ ReadTo t (i + 1) a u ∨
      ∃ c v, u = c :: v ∧ i = byteSize a ∧ IsByteOf b c ∧
        (c.toNat < 128 → MayBeByteOf (byte? t (i + 1)) v.head?)) := by
  rcases h.cases hi with ⟨b, hb, htail, hnext⟩ | ⟨rfl, c, v, rfl⟩
  · exact ⟨b, hb, .inl ⟨htail.1, hnext⟩⟩
  · obtain rfl := h.text
    obtain ⟨b, tail, hbytes, hb, -⟩ := exists_bytes c
    refine ⟨b, ?_, .inr ⟨c, v, rfl, rfl, hb, fun hc => ?_⟩⟩
    · rw [byte?_append, bytes_cons, hbytes]
      rfl
    · have hv := mayBeByteOf_byte? (a ++ [c]) v
      rwa [byteSize_append, byteSize_ascii hc, List.append_assoc] at hv

theorem exists_readTo (h : i ≤ byteSize t) : ∃ a u, ReadTo t i a u := by
  induction i with
  | zero => exact ⟨[], t, ReadTo.start t⟩
  | succ i ih =>
      obtain ⟨a, u, hread⟩ := ih (Nat.le_of_succ_le h)
      rcases hread.cases h with ⟨b, -, -, hnext⟩ | ⟨rfl, c, v, rfl⟩
      · exact ⟨a, u, hnext⟩
      · obtain rfl := hread.text
        exact ⟨a ++ [c], v, ReadTo.next a c v⟩

end Places

section Loops

variable {α β : Type}

/-- Takes turns until one of them ends the loop, `n` turns at most. There is no result if a turn fails,
or if the loop still goes on after the last one. -/
def loop? (turn : α → Option (α ⊕ β)) : Nat → α → Option β
  | 0, _ => none
  | n + 1, s => do
    match ← turn s with
    | .inl s => loop? turn n s
    | .inr r => return r

/-- A loop over the bytes of a text: a turn for each of them, and one that ends the loop. -/
def walk? (t : List Char) (turn : α → Option (α ⊕ β)) (s : α) : Option β :=
  loop? turn (byteSize t + 1) s

theorem loop?_eq {turn : α → Option (α ⊕ β)} {Good : α → Prop} {r : β} (size : α → Nat)
    (hturn : ∀ s, Good s → (∃ s', turn s = some (.inl s') ∧ Good s' ∧ size s' < size s) ∨
      turn s = some (.inr r)) {n : Nat} {s : α} (hs : Good s) (hn : size s < n) :
    loop? turn n s = some r := by
  induction n generalizing s with
  | zero => exact absurd hn (Nat.not_lt_zero _)
  | succ n ih =>
      rw [loop?]
      rcases hturn s hs with ⟨s', heq, hs', hlt⟩ | heq
      · rw [heq]
        exact ih hs' (by omega)
      · rw [heq]
        rfl

theorem walk?_eq {turn : α → Option (α ⊕ β)} {Good : α → Prop} {r : β} (t : List Char)
    (offset : α → Nat)
    (hturn : ∀ s, Good s → (offset s < byteSize t ∧
        ∃ s', turn s = some (.inl s') ∧ Good s' ∧ offset s < offset s') ∨ turn s = some (.inr r))
    {s : α} (hs : Good s) : walk? t turn s = some r := by
  refine loop?_eq (fun s => byteSize t - offset s) (fun s hs => ?_) hs (by omega)
  rcases hturn s hs with ⟨hlt, s', heq, hs', hless⟩ | heq
  · exact .inl ⟨s', heq, hs', by omega⟩
  · exact .inr heq

end Loops

end Text

end SchemaDeploy
