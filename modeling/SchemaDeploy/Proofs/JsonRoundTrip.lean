import SchemaDeploy.Json
import Mathlib.Data.List.DropRight
import Mathlib.Tactic.Common

namespace SchemaDeploy.JsonValue

theorem skip_append {blank : List Char} (h : ∀ c ∈ blank, isSpace c = true) (t : List Char) :
    skip (blank ++ t) = skip t :=
  List.dropWhile_append_of_pos h

theorem skip_cons {c : Char} (h : isSpace c = false) (t : List Char) : skip (c :: t) = c :: t :=
  List.dropWhile_cons_of_neg (by simp [h])

theorem isSpace_of_mem_newline (depth : Nat) : ∀ c ∈ (newline depth).toList, isSpace c = true := by
  intro c hc
  simp only [newline, String.toList_append, String.toList_ofList, List.mem_append,
    List.mem_replicate] at hc
  rcases hc with hc | ⟨-, rfl⟩
  · cases List.mem_singleton.1 hc
    rfl
  · rfl

section Strings

theorem hexDigit?_digitChar : ∀ d < 16, hexDigit? (Nat.digitChar d) = some d := by
  decide

theorem escape?_control {c : Char} (h : c.toNat < 0x20) (t : List Char) :
    escape? ('u' :: '0' :: '0' :: hexPair c.toNat ++ t) = some (c, t) := by
  have hunit : unit? ('0' :: '0' :: hexPair c.toNat ++ t) = some (c.toNat, t) := by
    have hzero : hexDigit? '0' = some 0 := rfl
    have hvalue : 0 * 4096 + 0 * 256 + c.toNat / 16 % 16 * 16 + c.toNat % 16 = c.toNat := by omega
    simp only [hexPair, List.cons_append, List.nil_append, unit?, hzero,
      hexDigit?_digitChar _ (Nat.mod_lt _ (by decide : 0 < 16)), Option.bind_eq_bind,
      Option.bind_some, hvalue]
    rfl
  have hlow : ¬ (0xD800 ≤ c.toNat ∧ c.toNat < 0xDC00) := by omega
  have hhigh : ¬ (0xDC00 ≤ c.toNat ∧ c.toNat < 0xE000) := by omega
  have hread : escape? ('u' :: '0' :: '0' :: hexPair c.toNat ++ t) =
      escapedUnit? ('0' :: '0' :: hexPair c.toNat ++ t) := rfl
  rw [hread, escapedUnit?, hunit]
  simp only [if_neg hlow, if_neg hhigh, Char.ofNat_toNat]

theorem stringFrom?_escapeChar (fuel : Nat) (read : List Char) (c : Char) (t : List Char) :
    stringFrom? (fuel + 1) read (escapeChar c ++ t) = stringFrom? fuel (c :: read) t := by
  rw [escapeChar.eq_def]
  split
  iterate 7 rfl
  next hquote hslash _ _ _ _ _ =>
    split
    · next hcontrol =>
      have hescape := escape?_control hcontrol t
      simp only [List.cons_append] at hescape ⊢
      rw [stringFrom?]
      simp only [hescape]
    · next hcontrol =>
      rw [List.cons_append, List.nil_append, stringFrom?]
      · rw [if_neg hcontrol]
      · exact hquote
      · exact hslash

theorem stringFrom?_escaped {fuel : Nat} (read cs rest : List Char) (h : cs.length < fuel) :
    stringFrom? fuel read (cs.flatMap escapeChar ++ '"' :: rest) =
      some (String.ofList (read.reverse ++ cs), rest) := by
  induction cs generalizing fuel read with
  | nil =>
      cases fuel with
      | zero => exact absurd h (Nat.not_lt_zero _)
      | succ fuel => rw [List.append_nil]; rfl
  | cons c cs ih =>
      cases fuel with
      | zero => exact absurd h (Nat.not_lt_zero _)
      | succ fuel =>
          rw [List.flatMap_cons, List.append_assoc, stringFrom?_escapeChar,
            ih _ (Nat.lt_of_succ_lt_succ h), List.reverse_cons, List.append_assoc]
          rfl

theorem length_le_escaped (cs : List Char) : cs.length ≤ (cs.flatMap escapeChar).length := by
  induction cs with
  | nil => exact Nat.le_refl 0
  | cons c cs ih =>
      have hc : 1 ≤ (escapeChar c).length := by
        rw [escapeChar.eq_def]
        split
        iterate 7 exact Nat.le_add_left 1 _
        split <;> exact Nat.le_add_left 1 _
      rw [List.flatMap_cons, List.length_append, List.length_cons]
      omega

theorem stringFrom?_quoted (s : String) (rest : List Char) :
    ∃ t, (quoted s).toList ++ rest = '"' :: t ∧
      stringFrom? (t.length + 1) [] t = some (s, rest) := by
  refine ⟨s.toList.flatMap escapeChar ++ '"' :: rest, by simp [quoted], ?_⟩
  have hlength := length_le_escaped s.toList
  rw [stringFrom?_escaped [] s.toList rest (by rw [List.length_append]; omega), List.reverse_nil,
    List.nil_append, String.ofList_toList]

end Strings

section Numbers

def Ends (rest : List Char) : Prop :=
  ∀ c ∈ rest.head?, c.isDigit = false ∧ c ≠ '.' ∧ c ≠ 'e' ∧ c ≠ 'E'

theorem ends_nil : Ends [] :=
  nofun

theorem ends_append {blank : List Char} (h : ∀ c ∈ blank, isSpace c = true) {rest : List Char}
    (hrest : Ends rest) : Ends (blank ++ rest) := by
  cases blank with
  | nil => exact hrest
  | cons b bs =>
      intro c hc
      cases hc
      have hb := h b List.mem_cons_self
      simp only [isSpace, Bool.or_eq_true, beq_iff_eq] at hb
      rcases hb with ((rfl | rfl) | rfl) | rfl <;> exact ⟨rfl, by decide, by decide, by decide⟩

theorem head?_toDigits_ne {n : Nat} (h : 0 < n) : (Nat.toDigits 10 n).head? ≠ some '0' := by
  induction n using Nat.strongRecOn with
  | ind n ih =>
      by_cases hlt : n < 10
      · rw [Nat.toDigits_of_lt_base hlt]
        have hall : ∀ m < 10, 0 < m → [Nat.digitChar m].head? ≠ some '0' := by decide
        exact hall n hlt h
      · have hn : 10 * (n / 10) + n % 10 = n := Nat.div_add_mod n 10
        rw [← hn, ← Nat.toDigits_append_toDigits (by decide) (by omega) (by omega),
          List.head?_append_of_ne_nil _ Nat.toDigits_ne_nil]
        exact ih (n / 10) (by omega) (by omega)

theorem integer?_toDigits (n : Nat) {rest : List Char} (h : Ends rest) :
    integer? (Nat.toDigits 10 n ++ rest) = some (Nat.toDigits 10 n, rest) := by
  have hdigit : ∀ c ∈ Nat.toDigits 10 n, c.isDigit = true := fun c hc =>
    Nat.isDigit_of_mem_toDigits (by decide) (by decide) hc
  have htake : (Nat.toDigits 10 n ++ rest).takeWhile Char.isDigit = Nat.toDigits 10 n := by
    rw [List.takeWhile_append_of_pos hdigit]
    cases rest with
    | nil => simp
    | cons c t => rw [List.takeWhile_cons_of_neg (by simp [(h c rfl).1]), List.append_nil]
  have hdrop : (Nat.toDigits 10 n ++ rest).dropWhile Char.isDigit = rest := by
    rw [List.dropWhile_append_of_pos hdigit]
    cases rest with
    | nil => rfl
    | cons c t => exact List.dropWhile_cons_of_neg (by simp [(h c rfl).1])
  have hread : digits? (Nat.toDigits 10 n ++ rest) = some (Nat.toDigits 10 n, rest) := by
    rw [digits?, htake, hdrop]
    split
    · next hnil => exact absurd hnil Nat.toDigits_ne_nil
    · rfl
  rw [integer?, hread]
  split
  · next d ds t heq =>
    simp only [Option.some.injEq, Prod.mk.injEq] at heq
    rcases Nat.eq_zero_or_pos n with rfl | hpos
    · cases heq.1
    · exact absurd (by rw [heq.1]; rfl) (head?_toDigits_ne hpos)
  · rfl

theorem number?_toDigits (n : Nat) {rest : List Char} (h : Ends rest) :
    number? (Nat.toDigits 10 n ++ rest) = some (number (toString n), rest) := by
  have hfraction : fraction? rest = some ([], rest) := by
    rw [fraction?]
    rintro t rfl
    exact (h _ rfl).2.1 rfl
  have hexponent : exponent? rest = some ([], rest) := by
    cases rest with
    | nil => rfl
    | cons e t =>
        obtain ⟨-, -, he, hE⟩ := h e rfl
        rw [exponent?.eq_def]
        exact if_neg (by simp [he, hE])
  obtain ⟨d, ds, hds⟩ := List.exists_cons_of_ne_nil (Nat.toDigits_ne_nil (n := n) (b := 10))
  have hd : d ≠ '-' := by
    rintro rfl
    have hdigit := Nat.isDigit_of_mem_toDigits (b := 10) (n := n) (by decide) (by decide)
      (hds ▸ List.mem_cons_self)
    cases hdigit
  have hinteger := integer?_toDigits n h
  simp only [number?]
  split
  · next heq =>
    rw [hds] at heq
    cases heq
    exact absurd rfl hd
  · simp only [hinteger, Option.bind_eq_bind, Option.bind_some, hfraction, hexponent]
    simp [Nat.repr_eq_ofList_toDigits]

end Numbers

section Values

theorem value?_blank {blank : List Char} (h : ∀ c ∈ blank, isSpace c = true) (fuel : Nat)
    (t : List Char) : value? fuel (blank ++ t) = value? fuel t := by
  cases fuel with
  | zero => rfl
  | succ fuel => rw [value?, value?, skip_append h]

/-- A value whose text begins like a value and is read back, wherever it stands. -/
structure Reads (v : JsonValue) : Prop where
  starts : ∀ depth, ∃ c t, (render depth v).toList = c :: t ∧ isSpace c = false ∧ c ≠ ']'
  reads : ∀ depth fuel rest, (render depth v).toList.length ≤ fuel → Ends rest →
    value? fuel ((render depth v).toList ++ rest) = some (v, rest)

theorem reads_null : Reads null := by
  have htext (depth : Nat) : (render depth null).toList = ['n', 'u', 'l', 'l'] := by simp [render]
  refine ⟨fun depth => ⟨'n', _, htext depth, rfl, by decide⟩, ?_⟩
  intro depth fuel rest hfuel _
  rw [htext] at hfuel ⊢
  cases fuel with
  | zero => cases hfuel
  | succ fuel => rfl

theorem reads_string (s : String) : Reads (string s) := by
  have htext (depth : Nat) : (render depth (string s)).toList = (quoted s).toList := by rw [render]
  refine ⟨fun depth => ⟨'"', s.toList.flatMap escapeChar ++ ['"'], ?_, rfl, by decide⟩, ?_⟩
  · rw [htext, quoted, String.toList_ofList, List.cons_append]
  · intro depth fuel rest hfuel _
    obtain ⟨t, ht, hread⟩ := stringFrom?_quoted s rest
    rw [htext] at hfuel ⊢
    cases fuel with
    | zero => simp [quoted] at hfuel
    | succ fuel =>
        rw [ht, value?, skip_cons rfl]
        simp only [hread]
        rfl

theorem reads_number (n : Nat) : Reads (number (toString n)) := by
  have htext : (toString n).toList = Nat.toDigits 10 n := by simp
  obtain ⟨d, ds, hds⟩ := List.exists_cons_of_ne_nil (Nat.toDigits_ne_nil (n := n) (b := 10))
  have hd : d.isDigit = true :=
    Nat.isDigit_of_mem_toDigits (by decide) (by decide) (hds ▸ List.mem_cons_self)
  have hne {c : Char} (hc : c.isDigit = false) : d ≠ c := by
    rintro rfl
    rw [hd] at hc
    cases hc
  have hspace : isSpace d = false := by
    simp only [isSpace, Bool.or_eq_false_iff, beq_eq_false_iff_ne]
    exact ⟨⟨⟨hne rfl, hne rfl⟩, hne rfl⟩, hne rfl⟩
  refine ⟨fun depth => ⟨d, ds, by rw [render, htext, hds], hspace, hne rfl⟩, ?_⟩
  intro depth fuel rest hfuel hrest
  rw [render, htext] at hfuel ⊢
  cases fuel with
  | zero => rw [hds] at hfuel; cases hfuel
  | succ fuel =>
      have hskip : skip (Nat.toDigits 10 n ++ rest) = Nat.toDigits 10 n ++ rest := by
        rw [hds, List.cons_append, skip_cons hspace]
      rw [value?, hskip, ← number?_toDigits n hrest, hds, List.cons_append]
      split
      iterate 6 next heq => exact absurd (List.cons.inj heq).1 (hne rfl)
      rfl

def itemText (depth : Nat) (v : JsonValue) : List Char :=
  (newline depth).toList ++ (render depth v).toList

def memberText (depth : Nat) (m : String × JsonValue) : List Char :=
  (newline depth).toList ++ (quoted m.1).toList ++ ':' :: ' ' :: (render depth m.2).toList

theorem toList_intercalate_comma (s : String) (ss : List String) :
    (",".intercalate (s :: ss)).toList = s.toList ++ ss.flatMap fun t => ',' :: t.toList := by
  induction ss generalizing s with
  | nil => simp
  | cons t ss ih =>
      rw [String.intercalate_cons_cons, String.toList_append, String.toList_append, ih]
      simp

theorem toList_render_array (depth : Nat) (v : JsonValue) (vs : List JsonValue) :
    (render depth (array (v :: vs))).toList =
      '[' :: (itemText (depth + 1) v ++ (vs.flatMap fun w => ',' :: itemText (depth + 1) w) ++
        (newline depth).toList ++ [']']) := by
  have hitems (ws : List JsonValue) : renderItems (depth + 1) ws =
      ws.map fun w => newline (depth + 1) ++ render (depth + 1) w := by
    induction ws with
    | nil => rfl
    | cons w ws ih => rw [renderItems, ih, List.map_cons]
  rw [render]
  · rw [hitems, List.map_cons]
    simp only [String.toList_append, toList_intercalate_comma, List.flatMap_map, itemText]
    simp
  · nofun

theorem toList_render_object (depth : Nat) (m : String × JsonValue)
    (ms : List (String × JsonValue)) : (render depth (object (m :: ms))).toList =
      '\x7b' :: (memberText (depth + 1) m ++ (ms.flatMap fun n => ',' :: memberText (depth + 1) n) ++
        (newline depth).toList ++ ['\x7d']) := by
  have hmembers (ns : List (String × JsonValue)) : renderMembers (depth + 1) ns =
      ns.map fun n => newline (depth + 1) ++ quoted n.1 ++ ": " ++ render (depth + 1) n.2 := by
    induction ns with
    | nil => rfl
    | cons n ns ih => rw [renderMembers, ih, List.map_cons]
  rw [render]
  · rw [hmembers, List.map_cons]
    simp only [String.toList_append, toList_intercalate_comma, List.flatMap_map, memberText]
    simp
  · nofun

theorem ends_cons {c : Char} (h : c.isDigit = false) (hdot : c ≠ '.') (he : c ≠ 'e')
    (hE : c ≠ 'E') (t : List Char) : Ends (c :: t) := by
  intro d hd
  cases hd
  exact ⟨h, hdot, he, hE⟩

theorem items?_reads {depth : Nat} {close : List Char} (hclose : ∀ c ∈ close, isSpace c = true)
    {v : JsonValue} {vs : List JsonValue} (h : ∀ w ∈ v :: vs, Reads w) {fuel : Nat}
    (hfuel : (itemText depth v ++ vs.flatMap fun w => ',' :: itemText depth w).length < fuel)
    (read : List JsonValue) (rest : List Char) :
    items? fuel read (itemText depth v ++ (vs.flatMap fun w => ',' :: itemText depth w) ++ close ++
      ']' :: rest) = some (array (read.reverse ++ v :: vs), rest) := by
  have hblank := isSpace_of_mem_newline depth
  induction vs generalizing v fuel read with
  | nil =>
      obtain ⟨hv, -⟩ := List.forall_mem_cons.1 h
      cases fuel with
      | zero => cases hfuel
      | succ fuel =>
          have hends := ends_append hclose (ends_cons (c := ']') rfl (by decide) (by decide)
            (by decide) rest)
          simp only [itemText, List.flatMap_nil, List.append_nil, List.length_append] at hfuel ⊢
          rw [List.append_assoc, List.append_assoc, items?, value?_blank hblank,
            hv.reads depth fuel _ (by omega) hends]
          simp only [skip_append hclose, skip_cons (c := ']') rfl, List.reverse_cons]
  | cons w ws ih =>
      obtain ⟨hv, hws⟩ := List.forall_mem_cons.1 h
      cases fuel with
      | zero => cases hfuel
      | succ fuel =>
          let tail := itemText depth w ++ (ws.flatMap fun w => ',' :: itemText depth w) ++ close ++
            ']' :: rest
          have htext : itemText depth v ++
              ((w :: ws).flatMap fun w => ',' :: itemText depth w) ++ close ++ ']' :: rest =
              (newline depth).toList ++ ((render depth v).toList ++ ',' :: tail) := by
            simp [itemText, tail]
          have hends := ends_cons (c := ',') rfl (by decide) (by decide) (by decide) tail
          simp only [List.flatMap_cons, List.length_append, List.length_cons] at hfuel
          have hlength : (render depth v).toList.length ≤ (itemText depth v).length := by
            simp [itemText]
          have hshort : (itemText depth w ++
              ws.flatMap fun w => ',' :: itemText depth w).length < fuel := by
            rw [List.length_append]
            omega
          have hrest := ih hws hshort (v :: read)
          rw [htext, items?, value?_blank hblank, hv.reads depth fuel _ (by omega) hends]
          simp only [skip_cons (c := ',') rfl]
          rw [hrest]
          simp

theorem members?_memberText {depth : Nat} {m : String × JsonValue} (hm : Reads m.2) {fuel : Nat}
    (hfuel : (memberText depth m).length ≤ fuel) {rest : List Char} (hrest : Ends rest)
    (read : List (String × JsonValue)) :
    (∀ r, skip rest = ',' :: r →
        members? (fuel + 1) read (memberText depth m ++ rest) = members? fuel (m :: read) r) ∧
      ∀ r, skip rest = '\x7d' :: r →
        members? (fuel + 1) read (memberText depth m ++ rest) =
          some (object (m :: read).reverse, r) := by
  obtain ⟨t, ht, hkey⟩ := stringFrom?_quoted m.1 (':' :: ' ' :: ((render depth m.2).toList ++ rest))
  have hspace : ∀ c ∈ [' '], isSpace c = true := List.forall_mem_singleton.2 rfl
  have hvalue : value? fuel (' ' :: ((render depth m.2).toList ++ rest)) = some (m.2, rest) := by
    simp only [memberText, List.length_append, List.length_cons] at hfuel
    exact (value?_blank hspace fuel _).trans (hm.reads depth fuel rest (by omega) hrest)
  have htext : memberText depth m ++ rest = (newline depth).toList ++ '"' :: t := by
    rw [← ht]
    simp [memberText]
  rw [htext, members?, skip_append (isSpace_of_mem_newline depth), skip_cons rfl]
  simp only [hkey, skip_cons (c := ':') rfl, hvalue]
  constructor
  · intro r hr
    simp only [hr]
  · intro r hr
    simp only [hr]

theorem members?_reads {depth : Nat} {close : List Char} (hclose : ∀ c ∈ close, isSpace c = true)
    {m : String × JsonValue} {ms : List (String × JsonValue)} (h : ∀ n ∈ m :: ms, Reads n.2)
    {fuel : Nat}
    (hfuel : (memberText depth m ++ ms.flatMap fun n => ',' :: memberText depth n).length < fuel)
    (read : List (String × JsonValue)) (rest : List Char) :
    members? fuel read (memberText depth m ++ (ms.flatMap fun n => ',' :: memberText depth n) ++
      close ++ '\x7d' :: rest) = some (object (read.reverse ++ m :: ms), rest) := by
  induction ms generalizing m fuel read with
  | nil =>
      obtain ⟨hm, -⟩ := List.forall_mem_cons.1 h
      cases fuel with
      | zero => cases hfuel
      | succ fuel =>
          have hends := ends_append hclose (ends_cons (c := '\x7d') rfl (by decide) (by decide)
            (by decide) rest)
          simp only [List.flatMap_nil, List.append_nil] at hfuel ⊢
          have hskip : skip (close ++ '\x7d' :: rest) = '\x7d' :: rest := by
            rw [skip_append hclose, skip_cons rfl]
          rw [List.append_assoc,
            (members?_memberText hm (Nat.le_of_lt_succ hfuel) hends read).2 rest hskip,
            List.reverse_cons]
  | cons n ns ih =>
      obtain ⟨hm, hns⟩ := List.forall_mem_cons.1 h
      cases fuel with
      | zero => cases hfuel
      | succ fuel =>
          let tail := memberText depth n ++ (ns.flatMap fun n => ',' :: memberText depth n) ++ close ++
            '\x7d' :: rest
          have htext : memberText depth m ++
              ((n :: ns).flatMap fun n => ',' :: memberText depth n) ++ close ++ '\x7d' :: rest =
              memberText depth m ++ ',' :: tail := by
            simp [tail]
          have hends := ends_cons (c := ',') rfl (by decide) (by decide) (by decide) tail
          simp only [List.flatMap_cons, List.length_append, List.length_cons] at hfuel
          have hshort : (memberText depth n ++
              ns.flatMap fun n => ',' :: memberText depth n).length < fuel := by
            rw [List.length_append]
            omega
          have hrest := ih hns hshort (m :: read)
          rw [htext, (members?_memberText hm (by omega) hends read).1 tail (skip_cons rfl tail)]
          exact hrest.trans (by simp)

theorem skip_skip (t : List Char) : skip (skip t) = skip t :=
  List.dropWhile_idempotent isSpace t

theorem value?_bracket {t : List Char} (h : ∀ r, skip t ≠ ']' :: r) (fuel : Nat) :
    value? (fuel + 1) ('[' :: t) = items? fuel [] t := by
  have hskip : items? fuel [] (skip t) = items? fuel [] t := by
    cases fuel with
    | zero => rfl
    | succ fuel =>
        cases fuel with
        | zero => rfl
        | succ fuel => rw [items?, items?, value?, value?, skip_skip]
  rw [value?, skip_cons rfl, ← hskip]
  conv_lhs => whnf
  split
  · next hclosed => exact absurd hclosed (h _)
  · rfl

theorem value?_brace {t : List Char} (h : ∀ r, skip t ≠ '\x7d' :: r) (fuel : Nat) :
    value? (fuel + 1) ('\x7b' :: t) = members? fuel [] t := by
  have hskip : members? fuel [] (skip t) = members? fuel [] t := by
    cases fuel with
    | zero => rfl
    | succ fuel => rw [members?, members?, skip_skip]
  rw [value?, skip_cons rfl, ← hskip]
  conv_lhs => whnf
  split
  · next hclosed => exact absurd hclosed (h _)
  · rfl

theorem reads_array {vs : List JsonValue} (h : ∀ v ∈ vs, Reads v) : Reads (array vs) := by
  cases vs with
  | nil =>
      have htext (depth : Nat) : (render depth (array [])).toList = ['[', ']'] := by simp [render]
      refine ⟨fun depth => ⟨'[', _, htext depth, rfl, by decide⟩, ?_⟩
      intro depth fuel rest hfuel _
      rw [htext] at hfuel ⊢
      cases fuel with
      | zero => cases hfuel
      | succ fuel => rfl
  | cons v vs =>
      refine ⟨fun depth => ⟨'[', _, toList_render_array depth v vs, rfl, by decide⟩, ?_⟩
      intro depth fuel rest hfuel _
      rw [toList_render_array] at hfuel ⊢
      cases fuel with
      | zero => cases hfuel
      | succ fuel =>
          have hfuel' : (itemText (depth + 1) v ++
              vs.flatMap fun w => ',' :: itemText (depth + 1) w).length < fuel := by
            simp only [List.length_cons, List.length_append] at hfuel ⊢
            omega
          have hread := items?_reads (isSpace_of_mem_newline depth) h hfuel' [] rest
          rw [List.cons_append, List.append_assoc, List.singleton_append, value?_bracket, hread]
          · rfl
          · intro r
            obtain ⟨c, t, hhead, hspace, hbracket⟩ := (h v List.mem_cons_self).starts (depth + 1)
            simp only [itemText, hhead, List.append_assoc]
            rw [skip_append (isSpace_of_mem_newline _), List.cons_append, skip_cons hspace]
            exact fun heq => hbracket (List.cons.inj heq).1

theorem reads_object {ms : List (String × JsonValue)} (h : ∀ m ∈ ms, Reads m.2) :
    Reads (object ms) := by
  cases ms with
  | nil =>
      have htext (depth : Nat) : (render depth (object [])).toList = ['\x7b', '\x7d'] := by
        simp [render]
      refine ⟨fun depth => ⟨'\x7b', _, htext depth, rfl, by decide⟩, ?_⟩
      intro depth fuel rest hfuel _
      rw [htext] at hfuel ⊢
      cases fuel with
      | zero => cases hfuel
      | succ fuel => rfl
  | cons m ms =>
      refine ⟨fun depth => ⟨'\x7b', _, toList_render_object depth m ms, rfl, by decide⟩, ?_⟩
      intro depth fuel rest hfuel _
      rw [toList_render_object] at hfuel ⊢
      cases fuel with
      | zero => cases hfuel
      | succ fuel =>
          have hfuel' : (memberText (depth + 1) m ++
              ms.flatMap fun n => ',' :: memberText (depth + 1) n).length < fuel := by
            simp only [List.length_cons, List.length_append] at hfuel ⊢
            omega
          have hread := members?_reads (isSpace_of_mem_newline depth) h hfuel' [] rest
          rw [List.cons_append, List.append_assoc, List.singleton_append, value?_brace, hread]
          · rfl
          · intro r
            obtain ⟨t, ht, -⟩ := stringFrom?_quoted m.1 []
            rw [List.append_nil] at ht
            simp only [memberText, ht, List.append_assoc]
            rw [skip_append (isSpace_of_mem_newline _), List.cons_append, skip_cons rfl]
            exact fun heq => absurd (List.cons.inj heq).1 (by decide)

theorem Reads.parse? {v : JsonValue} (h : Reads v) : parse? (v.render 0) = some v := by
  have hread := h.reads 0 (2 * (v.render 0).length + 2) []
    (by rw [String.length_toList]; omega) ends_nil
  rw [List.append_nil] at hread
  rw [JsonValue.parse?, hread]
  rfl

end Values

end SchemaDeploy.JsonValue
