import Mathlib.Data.Nat.Find
import SchemaDeploy.Proofs.ClosedText
import SchemaDeploy.Proofs.TrimmedText
import SchemaDeploy.Sql.Statement

namespace SchemaDeploy.Sql

open Text

variable {r u v : List Char} {ps : List (List Char)}

section Pieces

/-- Whether what follows a text stands outside comments, quotes and dollar bodies. -/
def AtTopLevel (u : List Char) : Prop :=
  scan Region.step (.sql .plain) u = .sql .plain

def Unbroken (r : List Char) : Prop :=
  ∀ u v, r = u ++ ';' :: v → ¬ AtTopLevel u

/-- Pieces as a dump falls into them: each but the last ends in a terminator at top level, and has no
other one. -/
inductive ArePieces : List (List Char) → Prop
  | nil : ArePieces []
  | last {r : List Char} (hr : Unbroken r) (hne : r ≠ []) : ArePieces [r]
  | cons {u : List Char} {ps : List (List Char)} (hu : Unbroken u) (htop : AtTopLevel u)
      (h : ArePieces ps) : ArePieces ((u ++ [';']) :: ps)

theorem exists_arePieces (t : List Char) : ∃ ps, ArePieces ps ∧ ps.flatten = t := by
  induction hn : t.length using Nat.strong_induction_on generalizing t with
  | _ n ih =>
    by_cases hunbroken : Unbroken t
    · by_cases hne : t = []
      · exact ⟨[], .nil, hne.symm⟩
      · exact ⟨[t], .last hunbroken hne, List.append_nil t⟩
    · -- The first piece is the shortest one that ends in a terminator at top level.
      have hcut : ∃ k u v, t = u ++ ';' :: v ∧ AtTopLevel u ∧ u.length = k := by
        simp only [Unbroken, not_forall, not_not] at hunbroken
        obtain ⟨u, v, ht, hu⟩ := hunbroken
        exact ⟨u.length, u, v, ht, hu, rfl⟩
      classical
      obtain ⟨u, v, ht, htop, hlength⟩ := Nat.find_spec hcut
      have hu : Unbroken u := fun u' v' huv htop' => by
        refine Nat.find_min hcut (m := u'.length) ?_ ⟨u', v' ++ ';' :: v, ?_, htop', rfl⟩
        · rw [← hlength, huv, List.length_append, List.length_cons]
          omega
        · rw [ht, huv, List.append_assoc, List.cons_append]
      obtain ⟨ps, hps, hv⟩ := ih v.length (by rw [← hn, ht]; simp; omega) v rfl
      refine ⟨(u ++ [';']) :: ps, .cons hu htop hps, ?_⟩
      rw [List.flatten_cons, hv, ht, List.append_assoc, List.singleton_append]

end Pieces

section Reading

theorem Region.step_eq (s : Region) (c : Char) (next : Option Char) : s.step c next =
    match s with
    | .dollarBody =>
      if c = '$' ∧ next = some '$' then (.sql .plain, true) else (.dollarBody, false)
    | .sql s =>
      if s = .plain ∧ c = '$' ∧ next = some '$' then (.dollarBody, true)
      else (.sql (s.step c next).1, (s.step c next).2) := by
  unfold Region.step
  split <;> grind

theorem Region.step_none_of_some {s s' : Region} {c d : Char}
    (h : s.step c (some d) = (s', false)) : (s.step c none).1 = s' := by
  rw [Region.step_eq] at h ⊢
  cases s with
  | dollarBody => grind
  | sql s =>
      simp only [ScanState.step_eq] at h ⊢
      cases s <;> grind

theorem Region.step_terminator {s : Region} {c : Char} (h : (s.step c none).1 = .sql .plain) :
    s.step c (some ';') = (.sql .plain, false) := by
  rw [Region.step_eq] at h ⊢
  cases s with
  | dollarBody => grind
  | sql s =>
      simp only [ScanState.step_eq] at h ⊢
      cases s <;> grind

theorem exists_of_mem_chunks {s : Region} {t : List Char} {k : Chunk Region}
    (hk : k ∈ chunks Region.step s t) :
    ∃ u v, t = u ++ (k.text ++ v) ∧ scan Region.step s u = k.before := by
  fun_induction chunks Region.step s t with
  | case1 s => cases hk
  | case2 s c =>
      obtain rfl := List.mem_singleton.1 hk
      exact ⟨[], [], rfl, rfl⟩
  | case3 s c d t s' hstep ih =>
      rcases List.mem_cons.1 hk with rfl | hk
      · exact ⟨[], t, rfl, rfl⟩
      · obtain ⟨u, v, rfl, hu⟩ := ih hk
        exact ⟨c :: d :: u, v, rfl, by simp only [scan, hstep, hu]⟩
  | case4 s c d t s' hstep ih =>
      rcases List.mem_cons.1 hk with rfl | hk
      · exact ⟨[], d :: t, rfl, rfl⟩
      · obtain ⟨u, v, ht, hu⟩ := ih hk
        refine ⟨c :: u, v, by rw [ht, List.cons_append], ?_⟩
        cases u with
        | nil => exact (Region.step_none_of_some hstep).trans hu
        | cons e u =>
            obtain ⟨rfl, -⟩ := List.cons.inj ht
            simp only [scan, hstep, hu]

theorem Unbroken.not_isTerminator (hr : Unbroken r) :
    ∀ k ∈ chunks Region.step (.sql .plain) r, k.isTerminator = false := by
  intro k hk
  obtain ⟨u, v, ht, hu⟩ := exists_of_mem_chunks hk
  rw [Chunk.isTerminator, Bool.and_eq_false_iff]
  by_contra h
  simp only [not_or, Bool.not_eq_false, beq_iff_eq] at h
  rw [h.2] at ht
  exact hr u v ht (hu.trans h.1)

theorem pieces_unbroken {ks : List (Chunk Region)} (h : ∀ k ∈ ks, k.isTerminator = false)
    (hne : ks ≠ []) : pieces ks = [ks.flatMap Chunk.text] := by
  induction ks with
  | nil => exact absurd rfl hne
  | cons k ks ih =>
      obtain ⟨hk, hks⟩ := List.forall_mem_cons.1 h
      rw [pieces, if_neg (by simp [hk]), List.flatMap_cons]
      by_cases hnil : ks = []
      · subst hnil
        simp [pieces]
      · rw [ih hks hnil]

theorem pieces_terminated {ks ks' : List (Chunk Region)} {k : Chunk Region}
    (h : ∀ k ∈ ks, k.isTerminator = false) (hk : k.isTerminator = true) :
    pieces (ks ++ k :: ks') = (ks.flatMap Chunk.text ++ k.text) :: pieces ks' := by
  induction ks with
  | nil =>
      rw [List.nil_append, pieces, if_pos hk]
      rfl
  | cons j ks ih =>
      obtain ⟨hj, hks⟩ := List.forall_mem_cons.1 h
      rw [List.cons_append, pieces, if_neg (by simp [hj]), ih hks, List.flatMap_cons,
        List.append_assoc]

theorem chunks_terminator (v : List Char) : chunks Region.step (.sql .plain) (';' :: v) =
    ⟨.sql .plain, .sql .plain, [';']⟩ :: chunks Region.step (.sql .plain) v := by
  cases v <;> rfl

theorem ArePieces.pieces_flatten (h : ArePieces ps) :
    pieces (chunks Region.step (.sql .plain) ps.flatten) = ps := by
  induction h with
  | nil => rfl
  | @last r hr hne =>
      have hchunks : chunks Region.step (.sql .plain) r ≠ [] := fun h => hne <| by
        rw [← flatMap_text_chunks Region.step (.sql .plain) r, h, List.flatMap_nil]
      rw [List.flatten_singleton, pieces_unbroken hr.not_isTerminator hchunks, flatMap_text_chunks]
  | @cons u ps hu htop h ih =>
      have hcut : chunks Region.step (.sql .plain) (u ++ ';' :: ps.flatten) =
          chunks Region.step (.sql .plain) u ++
            chunks Region.step (.sql .plain) (';' :: ps.flatten) :=
        chunks_append_of_scan htop fun s c _ hplain d hd =>
          Option.mem_some.1 hd ▸ Region.step_terminator hplain
      rw [List.flatten_cons, List.append_assoc, List.singleton_append, hcut, chunks_terminator,
        pieces_terminated hu.not_isTerminator rfl, flatMap_text_chunks, ih]

theorem statements_flatten (h : ArePieces ps) :
    statements ps.flatten = (ps.map trim).filter isStatement := by
  rw [statements, h.pieces_flatten]

end Reading

section Trimming

theorem step_blank {c : Char} (hc : isBlank c = true) (next : Option Char) :
    Region.step (.sql .plain) c next = (.sql .plain, false) := by
  have hspecial : (['$', '-', '/', '\'', '"'].all (!isBlank ·)) = true := by decide
  have hne : ∀ d ∈ ['$', '-', '/', '\'', '"'], c ≠ d := by
    rintro d hd rfl
    simpa [hc] using List.all_eq_true.1 hspecial c hd
  simp only [List.forall_mem_cons] at hne
  rw [Region.step_eq]
  simp only [ScanState.step_eq]
  grind

theorem atTopLevel_append {b : List Char} (hb : allBlank b = true) (u : List Char) :
    AtTopLevel (b ++ u) ↔ AtTopLevel u := by
  induction b with
  | nil => rfl
  | cons c b ih =>
      obtain ⟨hc, hb⟩ := List.forall_mem_cons.1 (List.all_eq_true.1 hb)
      have hscan : scan Region.step (.sql .plain) (c :: (b ++ u)) =
          scan Region.step (.sql .plain) (b ++ u) := by
        cases b ++ u with
        | nil => simp only [scan, step_blank hc]
        | cons d t => simp only [scan, step_blank hc]
      rw [← ih (List.all_eq_true.2 hb), AtTopLevel, List.cons_append, hscan, AtTopLevel]

/-- A quote, a comment or a dollar body that opens and has not ended yet. -/
inductive OpensRegion : List Char → Prop
  | singleQuote {x : List Char} (hx : '\'' ∉ x) : OpensRegion ('\'' :: x)
  | doubleQuote {x : List Char} (hx : '"' ∉ x) : OpensRegion ('"' :: x)
  | dashComment {x : List Char} (hx : '\n' ∉ x) : OpensRegion ('-' :: '-' :: x)
  | slashComment {x : List Char} (hx : '\n' ∉ x) : OpensRegion ('/' :: '/' :: x)
  | blockComment {x : List Char} (hx : IsCommentBody x) : OpensRegion ('/' :: '*' :: x)
  | dollarBody {x : List Char} (hx : ¬ ['$', '$'] <:+: x) : OpensRegion ('$' :: '$' :: x)

section Regions

variable {σ : Type} {step : σ → Char → Option Char → σ × Bool} {s e : σ} {a t x : List Char}

theorem scan_append (h : scan step s a = e)
    (hcut : ∀ s c, a.getLast? = some c → (step s c none).1 = e →
      ∀ d ∈ t.head?, step s c (some d) = (e, false)) : scan step s (a ++ t) = scan step e t := by
  fun_induction scan step s a with
  | case1 s =>
      rw [h]
      rfl
  | case2 s c =>
      cases t with
      | nil => exact h
      | cons d t =>
          have hstep := hcut s c rfl h d rfl
          simp only [List.singleton_append, scan, hstep]
  | case3 s c d a s' hstep ih =>
      have ih := ih h fun r e he hr f hf => by
        refine hcut r e ?_ hr f hf
        cases a with
        | nil => cases he
        | cons g a => rwa [List.getLast?_cons_cons, List.getLast?_cons_cons]
      simp only [List.cons_append, scan, hstep, ih]
  | case4 s c d a s' hstep ih =>
      have ih := ih h fun r e he hr f hf => hcut r e (by rwa [List.getLast?_cons_cons]) hr f hf
      rw [List.cons_append] at ih
      simp only [List.cons_append, scan, hstep, ih]

theorem scan_eq_self (h : ∀ u c v, x = u ++ c :: v → (step s c v.head?).1 = s) :
    scan step s x = s := by
  fun_induction scan step s x with
  | case1 s => rfl
  | case2 s c => exact h [] c [] rfl
  | case3 s c d t s' hstep ih =>
      have hs : s' = s := (congrArg Prod.fst hstep).symm.trans (h [] c (d :: t) rfl)
      subst hs
      exact ih fun u c' v ht => h (c :: d :: u) c' v (by rw [ht]; rfl)
  | case4 s c d t s' hstep ih =>
      have hs : s' = s := (congrArg Prod.fst hstep).symm.trans (h [] c (d :: t) rfl)
      subst hs
      exact ih fun u c' v ht => h (c :: u) c' v (by rw [ht]; rfl)

theorem scan_region_eq_self {r : Region} (hr : r ≠ .sql .plain)
    (h : ∀ u c v, x = u ++ c :: v → (r.step c v.head?).1 ≠ .sql .plain) :
    scan Region.step r x = r := by
  refine scan_eq_self fun u c v hx => ?_
  have hstep := h u c v hx
  rw [Region.step_eq] at hstep ⊢
  cases r with
  | dollarBody => grind
  | sql state =>
      simp only [ScanState.step_eq] at hstep ⊢
      cases state <;> grind

end Regions

theorem OpensRegion.scan_ne {o : List Char} (ho : OpensRegion o) :
    scan Region.step (.sql .plain) o ≠ .sql .plain := by
  have hquote {c : Char} {r : Region} {x : List Char}
      (hstep : ∀ next, Region.step (.sql .plain) c next = (r, false)) :
      scan Region.step (.sql .plain) (c :: x) = scan Region.step r x := by
    cases x with
    | nil => simp only [scan, hstep]
    | cons d x => simp only [scan, hstep]
  obtain ⟨r, x, hscan, hr, hstay⟩ : ∃ r x,
      scan Region.step (.sql .plain) o = scan Region.step r x ∧ r ≠ .sql .plain ∧
        ∀ u c v, x = u ++ c :: v → (r.step c v.head?).1 ≠ .sql .plain := by
    cases ho with
    | @singleQuote x hx =>
        refine ⟨.sql .singleQuoted, x, hquote fun _ => rfl, by decide, ?_⟩
        rintro u c v rfl
        have hc : c ≠ '\'' := fun hc => hx (by simp [hc])
        simp only [Region.step_eq, ScanState.step_eq]
        grind
    | @doubleQuote x hx =>
        refine ⟨.sql .doubleQuoted, x, hquote fun _ => rfl, by decide, ?_⟩
        rintro u c v rfl
        have hc : c ≠ '"' := fun hc => hx (by simp [hc])
        simp only [Region.step_eq, ScanState.step_eq]
        grind
    | @dashComment x hx | @slashComment x hx =>
        refine ⟨.sql .lineComment, x, rfl, by decide, ?_⟩
        rintro u c v rfl
        have hc : c ≠ '\n' := fun hc => hx (by simp [hc])
        simp only [Region.step_eq, ScanState.step_eq]
        grind
    | @blockComment x hx =>
        refine ⟨.sql .blockComment, x, rfl, by decide, ?_⟩
        rintro u c v rfl
        have hc : ¬ (c = '*' ∧ v.head? = some '/') := by
          rintro ⟨rfl, hv⟩
          obtain ⟨v, rfl⟩ := List.head?_eq_some_iff.1 hv
          exact hx ⟨u, v, by simp⟩
        simp only [Region.step_eq, ScanState.step_eq]
        grind
    | @dollarBody x hx =>
        refine ⟨.dollarBody, x, rfl, by decide, ?_⟩
        rintro u c v rfl
        have hc : ¬ (c = '$' ∧ v.head? = some '$') := by
          rintro ⟨rfl, hv⟩
          obtain ⟨v, rfl⟩ := List.head?_eq_some_iff.1 hv
          exact hx ⟨u, v, by simp⟩
        simp only [Region.step_eq]
        grind
  rw [hscan, scan_region_eq_self hr hstay]
  exact hr

theorem not_atTopLevel_of_opensRegion {a o : List Char} (ha : AtTopLevel a)
    (hcut : ∀ c ∈ a.getLast?, c ∉ ['-', '/', '$']) (ho : OpensRegion o) : ¬ AtTopLevel (a ++ o) := by
  have hopen : scan Region.step (.sql .plain) (a ++ o) = scan Region.step (.sql .plain) o := by
    refine scan_append ha fun s c hc hplain d _ => ?_
    have hc := hcut c hc
    simp only [List.mem_cons, List.not_mem_nil, or_false, not_or] at hc
    rw [Region.step_eq] at hplain ⊢
    cases s with
    | dollarBody => grind
    | sql s =>
        simp only [ScanState.step_eq] at hplain ⊢
        cases s <;> grind
  rw [AtTopLevel, hopen]
  exact ho.scan_ne

theorem unbroken_append {b : List Char} (hb : allBlank b = true) :
    Unbroken (b ++ r) ↔ Unbroken r := by
  constructor
  · intro h u v hr hu
    exact h (b ++ u) v (by rw [hr, List.append_assoc]) ((atTopLevel_append hb u).2 hu)
  · intro h u v hbr hu
    rcases List.append_eq_append_iff.1 hbr with ⟨x, rfl, hr⟩ | ⟨x, rfl, hx⟩
    · exact h x v hr ((atTopLevel_append hb x).1 hu)
    · cases x with
      | nil =>
          rw [List.append_nil] at hb
          exact h [] v hx.symm rfl
      | cons c x =>
          obtain ⟨rfl, -⟩ := List.cons.inj hx
          have hterminator := List.all_eq_true.1 hb ';' (by simp)
          exact absurd hterminator (by decide)

theorem Unbroken.of_append_right (h : Unbroken (r ++ v)) : Unbroken r := fun u w hr hu =>
  h u (w ++ v) (by rw [hr, List.append_assoc, List.cons_append]) hu

theorem Unbroken.trim (h : Unbroken r) : Unbroken (trim r) := by
  obtain ⟨b, b', hr, hb, -⟩ := exists_trim r
  rw [hr] at h
  exact ((unbroken_append hb).1 h).of_append_right

theorem dropEndWhile_dropWhile_concat {p : Char → Bool} {c : Char} (hc : p c = false)
    (u : List Char) : dropEndWhile p ((u ++ [c]).dropWhile p) = u.dropWhile p ++ [c] := by
  have hstart : (u ++ [c]).dropWhile p = u.dropWhile p ++ [c] := by
    rw [List.dropWhile_append]
    split
    · next h => rw [List.isEmpty_iff.1 h, List.dropWhile_cons_of_neg (by simp [hc])]; rfl
    · rfl
  rw [hstart]
  exact dropEndWhile_append hc (u.dropWhile p) []

theorem trim_concat (u : List Char) : Text.trim (u ++ [';']) = trimStart u ++ [';'] :=
  dropEndWhile_dropWhile_concat (by decide) u

theorem ArePieces.statements (h : ArePieces ps) :
    ArePieces ((ps.map Text.trim).filter isStatement) := by
  induction h with
  | nil => exact .nil
  | @last r hr hne =>
      rw [List.map_singleton, List.filter_singleton]
      cases hs : isStatement (Text.trim r) with
      | false => exact .nil
      | true => exact .last hr.trim fun hnil => by simp [hnil, isStatement] at hs
  | @cons u ps hu htop h ih =>
      obtain ⟨b, hb, hub⟩ : ∃ b, allBlank b = true ∧ u = b ++ trimStart u :=
        ⟨u.takeWhile isBlank, List.all_eq_true.2 fun c hc => List.mem_takeWhile_imp hc,
          List.takeWhile_append_dropWhile.symm⟩
      rw [hub] at hu htop
      rw [List.map_cons, trim_concat, List.filter_cons]
      split
      · exact .cons ((unbroken_append hb).1 hu) ((atTopLevel_append hb _).1 htop) ih
      · exact ih

theorem ArePieces.exists_lines (h : ArePieces ps) : ∃ qs, ArePieces qs ∧
    qs.flatten = ['\n'].intercalate ps ∧ qs.map Text.trim = ps.map Text.trim := by
  have hblank : allBlank ['\n'] = true := rfl
  have hlines {ps : List (List Char)} (h : ArePieces ps) : ArePieces (ps.map ('\n' :: ·)) := by
    induction h with
    | nil => exact .nil
    | last hr hne => exact .last ((unbroken_append hblank).2 hr) (List.cons_ne_nil _ _)
    | cons hu htop h ih =>
        exact .cons ((unbroken_append hblank).2 hu) ((atTopLevel_append hblank _).2 htop) ih
  have hjoin (p : List Char) (ps : List (List Char)) :
      (p :: ps.map ('\n' :: ·)).flatten = ['\n'].intercalate (p :: ps) := by
    induction ps generalizing p with
    | nil => simp
    | cons q ps ih => simp [← ih q]
  have htrim (ps : List (List Char)) : (ps.map ('\n' :: ·)).map Text.trim = ps.map Text.trim := by
    rw [List.map_map]
    rfl
  cases h with
  | nil => exact ⟨[], .nil, rfl, rfl⟩
  | @last r hr hne => exact ⟨[r], .last hr hne, hjoin r [], rfl⟩
  | @cons u ps hu htop h =>
      refine ⟨(u ++ [';']) :: ps.map ('\n' :: ·), .cons hu htop (hlines h), hjoin _ ps, ?_⟩
      rw [List.map_cons, htrim, List.map_cons]

theorem ArePieces.getLast?_of_mem_dropLast {p : List Char} (h : ArePieces ps)
    (hp : p ∈ ps.dropLast) : p.getLast? = some ';' := by
  induction h with
  | nil => cases hp
  | last hr hne => cases hp
  | @cons u ps hu htop h ih =>
      by_cases hnil : ps = []
      · simp [hnil] at hp
      · rw [List.dropLast_cons_of_ne_nil hnil, List.mem_cons] at hp
        rcases hp with rfl | hp
        · exact List.getLast?_concat
        · exact ih hp

theorem ArePieces.singleton {s : List Char} (h : ArePieces ps) (hs : s ∈ ps) : ArePieces [s] := by
  induction h with
  | nil => cases hs
  | last hr hne =>
      obtain rfl := List.mem_singleton.1 hs
      exact .last hr hne
  | cons hu htop h ih =>
      rcases List.mem_cons.1 hs with rfl | hs
      · exact .cons hu htop .nil
      · exact ih hs

end Trimming

/-- A text falls into pieces, and its statements are what trimming leaves of them. A statement is one
statement when it is read alone, and statements on lines of their own are read as they are. -/
theorem statements_of_pieces (ddl : List Char) :
    (∃ ps, ps.flatten = ddl ∧ ArePieces ps ∧ (∀ p ∈ ps.dropLast, p.getLast? = some ';') ∧
      statements ddl = (ps.map trim).filter isStatement) ∧
    (∀ s ∈ statements ddl, statements s = [s]) ∧
    statements (['\n'].intercalate (statements ddl)) = statements ddl := by
  obtain ⟨ps, hps, rfl⟩ := exists_arePieces ddl
  have hstatements : ArePieces (statements ps.flatten) := by
    rw [statements_flatten hps]
    exact hps.statements
  have htrimmed : ∀ s ∈ statements ps.flatten, trim s = s ∧ isStatement s = true := by
    intro s hs
    obtain ⟨hs, hstatement⟩ := List.mem_filter.1 hs
    obtain ⟨p, -, rfl⟩ := List.mem_map.1 hs
    exact ⟨trim_trim p, hstatement⟩
  have hkept {ss : List (List Char)} (h : ∀ s ∈ ss, trim s = s ∧ isStatement s = true) :
      (ss.map trim).filter isStatement = ss := by
    rw [List.map_congr_left fun s hs => (h s hs).1, List.map_id',
      List.filter_eq_self.2 fun s hs => (h s hs).2]
  refine ⟨⟨ps, rfl, hps, fun p => hps.getLast?_of_mem_dropLast, statements_flatten hps⟩, ?_, ?_⟩
  · intro s hs
    have hone := statements_flatten (hstatements.singleton hs)
    rw [List.flatten_singleton] at hone
    rw [hone, hkept (List.forall_mem_singleton.2 (htrimmed s hs))]
  · obtain ⟨qs, hqs, hjoin, htrim⟩ := hstatements.exists_lines
    rw [← hjoin, statements_flatten hqs, htrim, hkept htrimmed]

example : statements "f $$;$$ ';' \";\" /* ; */;\n; -- ;\ng".toList =
    ["f $$;$$ ';' \";\" /* ; */;".toList, "-- ;\ng".toList] := by
  decide

end SchemaDeploy.Sql
