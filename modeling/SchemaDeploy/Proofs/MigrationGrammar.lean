import SchemaDeploy.Proofs.HeaderLines

namespace SchemaDeploy

/-- The line that an error about a migration file names. -/
def SyncError.line? : SyncError → Option Nat
  | .invalidMigration line _ => some line
  | .duplicateVersion line _ => some line
  | _ => none

namespace MigrationFile

open Text

/-- The lines of a file without their ends. -/
def fileLines (content : String) : List (List Char) :=
  (rawLines content.toList).map withoutLineEnd

/-- Lines that begin as headers are headers, with versions that do not repeat, and in front of the
first one there are only blank lines and comments. -/
structure Grammatical (ls : List (List Char)) : Prop where
  header : ∀ l ∈ ls, OpensUnit l → ∃ version author, IsHeader l version author
  distinct : ls.Pairwise fun l m => ∀ version a b, IsHeader l version a → ¬ IsHeader m version b
  preamble : ∀ l ∈ ls.takeWhile (¬ OpensUnit ·), trim l = [] ∨ ['-', '-'] <+: trim l

structure Follows (ls : List (List Char)) (l : List Char) : Prop where
  header : OpensUnit l → ∃ version author, IsHeader l version author ∧
    ∀ m ∈ ls, ∀ b, ¬ IsHeader m version b
  preamble : ¬ OpensUnit l → (∀ m ∈ ls, ¬ OpensUnit m) → trim l = [] ∨ ['-', '-'] <+: trim l

variable {ls : List (List Char)} {l : List Char}

theorem IsHeader.unique {v w : Nat} {a b : Option String} (h : IsHeader l v a)
    (h' : IsHeader l w b) : v = w := by
  obtain ⟨digits, rest, hline, hheader⟩ := (isHeader_iff 0).1 h
  obtain ⟨digits', rest', hline', hheader'⟩ := (isHeader_iff 0).1 h'
  rw [hline, Option.some.injEq, Prod.mk.injEq] at hline'
  obtain ⟨rfl, rfl⟩ := hline'
  rw [hheader] at hheader'
  cases hheader'
  rfl

theorem isPreamble_iff : isPreamble l = true ↔ trim l = [] ∨ ['-', '-'] <+: trim l := by
  rw [isPreamble]
  split
  · next h => simp [h]
  · next h => simp [h]
  · next hnil hdashes =>
    refine iff_of_false (by simp) ?_
    rintro (h | ⟨t, h⟩)
    · exact hnil h
    · exact hdashes t h.symm

theorem mem_takeWhile_concat {α : Type} {p : α → Bool} {xs : List α} {x y : α} :
    y ∈ (xs ++ [x]).takeWhile p ↔
      y ∈ xs.takeWhile p ∨ (∀ z ∈ xs, p z = true) ∧ p x = true ∧ y = x := by
  induction xs with
  | nil => cases hx : p x <;> simp [hx]
  | cons z xs ih => cases hz : p z <;> simp [hz, ih, or_assoc]

theorem grammatical_nil : Grammatical [] :=
  ⟨by simp, .nil, by simp⟩

theorem grammatical_concat : Grammatical (ls ++ [l]) ↔ Grammatical ls ∧ Follows ls l := by
  constructor
  · rintro ⟨hheader, hdistinct, hpreamble⟩
    obtain ⟨hheaders, hheader⟩ := List.forall_mem_append.1 hheader
    obtain ⟨hdistinct, -, hcross⟩ := List.pairwise_append.1 hdistinct
    refine ⟨⟨hheaders, hdistinct, fun m hm => ?_⟩, fun hopens => ?_, fun hopens hnone => ?_⟩
    · exact hpreamble m (mem_takeWhile_concat.2 (.inl hm))
    · obtain ⟨version, author, h⟩ := hheader l List.mem_cons_self hopens
      exact ⟨version, author, h, fun m hm b hb =>
        hcross m hm l List.mem_cons_self version b author hb h⟩
    · exact hpreamble l (mem_takeWhile_concat.2 (.inr ⟨by simpa using hnone, by simpa, rfl⟩))
  · rintro ⟨⟨hheaders, hdistinct, hpreamble⟩, hl⟩
    refine ⟨List.forall_mem_append.2 ⟨hheaders, ?_⟩, List.pairwise_append.2 ⟨hdistinct,
      List.pairwise_singleton _ _, ?_⟩, fun m hm => ?_⟩
    · rw [List.forall_mem_singleton]
      intro hopens
      obtain ⟨version, author, h, -⟩ := hl.header hopens
      exact ⟨version, author, h⟩
    · intro m hm l' hl' version a b ha hb
      obtain rfl := List.mem_singleton.1 hl'
      obtain ⟨w, c, h, hnone⟩ := hl.header hb.opensUnit
      exact hnone m hm a (h.unique hb ▸ ha)
    · rcases mem_takeWhile_concat.1 hm with hm | ⟨hall, hopens, rfl⟩
      · exact hpreamble m hm
      · exact hl.preamble (by simpa using hopens) (by simpa using hall)

theorem Grammatical.of_append {ms : List (List Char)} (h : Grammatical (ls ++ ms)) :
    Grammatical ls := by
  induction ms using List.reverseRecOn with
  | nil => rwa [List.append_nil] at h
  | append_singleton ms m ih =>
      rw [← List.append_assoc] at h
      exact ih (grammatical_concat.1 h).1

theorem exists_isHeader_iff {hs : List Header} {version : Nat}
    (h : List.Forall₂ (fun l h => IsHeader l h.version h.author) ls hs) :
    (∃ m ∈ ls, ∃ b, IsHeader m version b) ↔ ∃ h ∈ hs, h.version = version := by
  induction h with
  | nil => simp
  | @cons m h ls hs hm _ ih =>
      have hhead : (∃ b, IsHeader m version b) ↔ h.version = version := by
        constructor
        · rintro ⟨b, hb⟩
          exact hm.unique hb
        · rintro rfl
          exact ⟨_, hm⟩
      rw [List.exists_mem_cons_iff, List.exists_mem_cons_iff, hhead, ih]

section Read

variable {number : Nat} {done : List (List Char)} {found : List RawUnit}

/-- What has been read: the lines are grammatical, and the units found, the newest first, have the
headers among them. -/
structure Reads (done : List (List Char)) (found : List RawUnit) : Prop where
  grammatical : Grammatical done
  headers : List.Forall₂ (fun l h => IsHeader l h.version h.author) (done.filter (OpensUnit ·))
    (found.reverse.map (·.header))

namespace Reads

theorem any_version_iff (h : Reads done found) (version : Nat) :
    found.any (·.header.version == version) = true ↔
      ∃ m ∈ done, ∃ b, IsHeader m version b := by
  have hopens : (∃ m ∈ done, ∃ b, IsHeader m version b) ↔
      ∃ m ∈ done.filter (OpensUnit ·), ∃ b, IsHeader m version b := by
    constructor
    · rintro ⟨m, hm, b, hb⟩
      exact ⟨m, List.mem_filter.2 ⟨hm, decide_eq_true hb.opensUnit⟩, b, hb⟩
    · rintro ⟨m, hm, hb⟩
      exact ⟨m, List.mem_of_mem_filter hm, hb⟩
  rw [hopens, exists_isHeader_iff h.headers]
  simp

theorem exists_opensUnit {u : RawUnit} (h : Reads done (u :: found)) :
    ∃ m ∈ done, OpensUnit m := by
  obtain ⟨m, hm, b, hb⟩ := (h.any_version_iff u.header.version).1 (by simp)
  exact ⟨m, hm, hb.opensUnit⟩

theorem not_opensUnit (h : Reads done []) : ∀ m ∈ done, ¬ OpensUnit m := by
  have hnil : done.filter (OpensUnit ·) = [] := by simpa using h.headers
  simpa using hnil

theorem concat_header (h : Reads done found) {u : RawUnit}
    (hl : IsHeader l u.header.version u.header.author) (hfollows : Follows done l) :
    Reads (done ++ [l]) (u :: found) := by
  refine ⟨grammatical_concat.2 ⟨h.grammatical, hfollows⟩, ?_⟩
  rw [List.filter_append, List.filter_cons_of_pos (by simpa using hl.opensUnit), List.filter_nil,
    List.reverse_cons, List.map_append]
  exact List.rel_append h.headers (.cons hl .nil)

theorem concat_line (h : Reads done found) (hl : ¬ OpensUnit l) (hfollows : Follows done l) :
    Reads (done ++ [l]) found := by
  refine ⟨grammatical_concat.2 ⟨h.grammatical, hfollows⟩, ?_⟩
  rw [List.filter_append, List.filter_cons_of_neg (by simpa using hl), List.filter_nil,
    List.append_nil]
  exact h.headers

theorem withText {u : RawUnit} (h : Reads done (u :: found)) (text : List Char) :
    Reads done ({ u with text } :: found) :=
  ⟨h.grammatical, by simpa using h.headers⟩

end Reads

theorem line?_of_header {digits rest : List Char} {e : SyncError}
    (h : header number l digits rest = .error e) : e.line? = some number := by
  rw [header] at h
  split at h
  · cases h
    rfl
  · split at h
    · cases h
    · cases h
      rfl

/-- Reading a line that may stand behind those before it goes on with the units found so far, and
any other line is an error. -/
def StepsAt (number : Nat) (done : List (List Char)) (found : List RawUnit) (raw : List Char)
    (rest : List (List Char)) : Prop :=
  (Follows done (withoutLineEnd raw) ∧ ∃ found', Reads (done ++ [withoutLineEnd raw]) found' ∧
    readUnits number found (raw :: rest) = readUnits (number + 1) found' rest) ∨
  (¬ Follows done (withoutLineEnd raw) ∧ ∃ e, e.line? = some number ∧
    readUnits number found (raw :: rest) = .error e)

namespace Reads

variable {raw digits t : List Char} {rest : List (List Char)}

theorem step_header (h : Reads done found)
    (hdigits : headerDigits? (withoutLineEnd raw) = some (digits, t)) :
    StepsAt number done found raw rest := by
  have hopens : OpensUnit (withoutLineEnd raw) := by rw [opensUnit_iff, hdigits, Option.isSome_some]
  cases hheader : header number (withoutLineEnd raw) digits t with
  | error e =>
      refine .inr ⟨fun hfollows => ?_, e, line?_of_header hheader, ?_⟩
      · obtain ⟨version, author, hl, -⟩ := hfollows.header hopens
        obtain ⟨digits', t', hdigits', hok⟩ := (isHeader_iff number).1 hl
        rw [hdigits, Option.some.injEq, Prod.mk.injEq] at hdigits'
        obtain ⟨rfl, rfl⟩ := hdigits'
        rw [hheader] at hok
        cases hok
      · simp only [readUnits, hdigits, hheader]
  | ok hd =>
      have hl : IsHeader (withoutLineEnd raw) hd.version hd.author :=
        (isHeader_iff number).2 ⟨digits, t, hdigits, hheader⟩
      cases hany : found.any (·.header.version == hd.version) with
      | true =>
          refine .inr ⟨fun hfollows => ?_, .duplicateVersion number hd.version, rfl, ?_⟩
          · obtain ⟨version, author, hl', hnone⟩ := hfollows.header hopens
            obtain ⟨m, hm, b, hb⟩ := (h.any_version_iff hd.version).1 hany
            exact hnone m hm b (hl'.unique hl ▸ hb)
          · simp only [readUnits, hdigits, hheader, hany, if_true]
      | false =>
          have hfollows : Follows done (withoutLineEnd raw) := by
            refine ⟨fun _ => ⟨_, _, hl, fun m hm b hb => ?_⟩, fun hno => absurd hopens hno⟩
            have hfound := (h.any_version_iff hd.version).2 ⟨m, hm, b, hb⟩
            rw [hany] at hfound
            cases hfound
          refine .inl ⟨hfollows, ⟨hd, raw⟩ :: found, h.concat_header hl hfollows, ?_⟩
          simp only [readUnits, hdigits, hheader, hany, Bool.false_eq_true, if_false]

theorem step_line (h : Reads done found) (hdigits : headerDigits? (withoutLineEnd raw) = none) :
    StepsAt number done found raw rest := by
  have hopens : ¬ OpensUnit (withoutLineEnd raw) := by simp [opensUnit_iff, hdigits]
  cases found with
  | nil =>
      cases hpreamble : isPreamble (withoutLineEnd raw) with
      | true =>
          have hfollows : Follows done (withoutLineEnd raw) :=
            ⟨fun hyes => absurd hyes hopens, fun _ _ => isPreamble_iff.1 hpreamble⟩
          refine .inl ⟨hfollows, [], h.concat_line hopens hfollows, ?_⟩
          simp only [readUnits, hdigits, hpreamble, if_true]
      | false =>
          refine .inr ⟨fun hfollows => ?_,
            .invalidMigration number "content found before the first version header", rfl, ?_⟩
          · have hallowed := isPreamble_iff.2 (hfollows.preamble hopens h.not_opensUnit)
            rw [hpreamble] at hallowed
            cases hallowed
          · simp only [readUnits, hdigits, hpreamble, Bool.false_eq_true, if_false]
  | cons u us =>
      have hfollows : Follows done (withoutLineEnd raw) := by
        refine ⟨fun hyes => absurd hyes hopens, fun _ hnone => ?_⟩
        obtain ⟨m, hm, hmopens⟩ := h.exists_opensUnit
        exact absurd hmopens (hnone m hm)
      refine .inl ⟨hfollows, _, (h.withText (u.text ++ raw)).concat_line hopens hfollows, ?_⟩
      simp only [readUnits, hdigits]

theorem step (h : Reads done found) (number : Nat) (raw : List Char) (rest : List (List Char)) :
    StepsAt number done found raw rest := by
  cases hdigits : headerDigits? (withoutLineEnd raw) with
  | some dt => exact h.step_header hdigits
  | none => exact h.step_line hdigits

theorem readUnits_cases (h : Reads done found) (raws : List (List Char)) :
    (∃ us, readUnits (done.length + 1) found raws = .ok us ∧
      Reads (done ++ raws.map withoutLineEnd) us.reverse) ∨
    ∃ e, readUnits (done.length + 1) found raws = .error e ∧
      ∃ n < (done ++ raws.map withoutLineEnd).length, e.line? = some (n + 1) ∧
        Grammatical ((done ++ raws.map withoutLineEnd).take n) ∧
        ¬ Grammatical ((done ++ raws.map withoutLineEnd).take (n + 1)) := by
  induction raws generalizing done found with
  | nil =>
      refine .inl ⟨found.reverse, rfl, ?_⟩
      rwa [List.map_nil, List.append_nil, List.reverse_reverse]
  | cons raw rest ih =>
      rw [List.map_cons, List.append_cons]
      rcases h.step (done.length + 1) raw rest with
        ⟨-, found', hreads, hstep⟩ | ⟨hnot, e, hline, hstep⟩
      · rw [hstep]
        have hrest := ih hreads
        rwa [List.length_append, List.length_singleton] at hrest
      · refine .inr ⟨e, hstep, done.length, by simp, hline, ?_, ?_⟩
        · rw [List.append_assoc, List.take_left]
          exact h.grammatical
        · rw [List.take_left' (by simp), grammatical_concat]
          exact fun hg => hnot hg.2

end Reads

theorem reads_nil : Reads [] [] :=
  ⟨grammatical_nil, .nil⟩

/-- A file is cut into units exactly if its lines are grammatical. There is then one unit for each
line that begins as a header, with its version and author; an error is at the first line with which
the lines are not grammatical. -/
theorem units_ok_iff_grammatical (content : String) :
    ((∃ us, units content = .ok us) ↔ Grammatical (fileLines content)) ∧
    (∀ us, units content = .ok us → List.Forall₂ (fun l u => IsHeader l u.version u.author)
      ((fileLines content).filter (OpensUnit ·)) us) ∧
    ∀ e, units content = .error e → ∃ n < (fileLines content).length, e.line? = some (n + 1) ∧
      Grammatical ((fileLines content).take n) ∧ ¬ Grammatical ((fileLines content).take (n + 1)) := by
  rcases reads_nil.readUnits_cases (rawLines content.toList) with
    ⟨us, hread, hreads⟩ | ⟨e, hread, hfirst⟩
  · have hunits : units content = .ok (us.map RawUnit.finish) := by
      simp only [List.length_nil, Nat.zero_add] at hread
      simp only [units, hread]
    rw [hunits]
    refine ⟨iff_of_true ⟨_, rfl⟩ hreads.grammatical, fun us' h => ?_, nofun⟩
    cases h
    have hheaders := hreads.headers
    rw [List.reverse_reverse, List.forall₂_map_right_iff] at hheaders
    exact List.forall₂_map_right_iff.2 hheaders
  · have hunits : units content = .error e := by
      simp only [List.length_nil, Nat.zero_add] at hread
      simp only [units, hread]
    rw [hunits]
    have hnot : ¬ Grammatical (fileLines content) := by
      obtain ⟨n, -, -, -, hn⟩ := hfirst
      intro h
      rw [← List.take_append_drop (n + 1) (fileLines content)] at h
      exact hn h.of_append
    refine ⟨iff_of_false (by simp) hnot, nofun, fun e' h => ?_⟩
    cases h
    exact hfirst

end Read

end MigrationFile

end SchemaDeploy
