import SchemaDeploy.Script.Basic
import SchemaDeploy.Project.Source
import Mathlib

namespace SchemaDeploy

namespace Text

def CaseRun.point (n : Nat) : CaseRun :=
  ⟨n, n, 1, n⟩

def CaseRun.ascii : CaseRun :=
  ⟨0x61, 0x7A, 1, 0x41⟩

def CaseRun.Changes (r : CaseRun) (n : Nat) : Prop :=
  r.first ≤ n ∧ n ≤ r.last ∧ (n - r.first) % r.step = 0

def CaseRun.Gives (r : CaseRun) (n : Nat) : Prop :=
  ∃ k, k ≤ r.last - r.first ∧ k % r.step = 0 ∧ n = r.image + k

/-- The numbers that a run changes. -/
def CaseRun.changed (r : CaseRun) : List Nat :=
  List.range' r.first ((r.last - r.first) / r.step + 1) r.step

def CaseRun.images (r : CaseRun) : List Nat :=
  List.range' r.image ((r.last - r.first) / r.step + 1) r.step

theorem CaseRun.mem_changed {r : CaseRun} {n : Nat} (h : r.Changes n) : n ∈ r.changed := by
  obtain ⟨hfirst, hlast, hstep⟩ := h
  have hsteps := Nat.div_add_mod (n - r.first) r.step
  have hle : (n - r.first) / r.step ≤ (r.last - r.first) / r.step :=
    Nat.div_le_div_right (Nat.sub_le_sub_right hlast _)
  exact List.mem_range'.2 ⟨(n - r.first) / r.step, Nat.lt_succ_of_le hle, by omega⟩

theorem CaseRun.mem_images {r : CaseRun} {n : Nat} (h : r.Gives n) : n ∈ r.images := by
  obtain ⟨k, hk, hstep, rfl⟩ := h
  have hsteps := Nat.div_add_mod k r.step
  have hle : k / r.step ≤ (r.last - r.first) / r.step := Nat.div_le_div_right hk
  exact List.mem_range'.2 ⟨k / r.step, Nat.lt_succ_of_le hle, by omega⟩

def changedRuns : List CaseRun :=
  .ascii :: upperRuns ++ upperExpansions.map fun e => .point e.1

def imageRuns : List CaseRun :=
  upperRuns ++ upperExpansions.flatMap fun e => e.2.map .point

def bits (ns : List Nat) : Nat :=
  ns.foldr (fun n m => 2 ^ n ||| m) 0

theorem testBit_bits {ns : List Nat} {n : Nat} (h : n ∈ ns) : (bits ns).testBit n = true := by
  induction ns with
  | nil => cases h
  | cons k ns ih =>
      rw [bits, List.foldr_cons, ← bits, Nat.testBit_or, Bool.or_eq_true]
      rcases List.mem_cons.1 h with rfl | h
      · exact .inl Nat.testBit_two_pow_self
      · exact .inr (ih h)

-- As the bits of two numbers, the lists are compared at once and not pair by pair.
theorem bits_images_and_changed :
    bits (imageRuns.flatMap CaseRun.images) &&& bits (changedRuns.flatMap CaseRun.changed) = 0 := by
  decide +kernel

theorem not_changes_of_gives {r s : CaseRun} (hr : r ∈ imageRuns) (hs : s ∈ changedRuns) {n : Nat}
    (hn : r.Gives n) : ¬ s.Changes n := by
  intro hc
  have himage := testBit_bits (List.mem_flatMap.2 ⟨r, hr, CaseRun.mem_images hn⟩)
  have hchanged := testBit_bits (List.mem_flatMap.2 ⟨s, hs, CaseRun.mem_changed hc⟩)
  have hboth := congrArg (Nat.testBit · n) bits_images_and_changed
  simp only [Nat.testBit_and, himage, hchanged, Nat.zero_testBit, Bool.and_self] at hboth
  cases hboth

theorem CaseRun.imageOf?_eq_none {r : CaseRun} {n : Nat} (h : ¬ r.Changes n) :
    r.imageOf? n = none :=
  if_neg h

theorem CaseRun.gives_of_imageOf? {r : CaseRun} {n m : Nat} (h : r.imageOf? n = some m) :
    r.Gives m := by
  simp only [imageOf?] at h
  split at h
  · next hc =>
    cases h
    exact ⟨n - r.first, Nat.sub_le_sub_right hc.2.1 _, hc.2.2, rfl⟩
  · cases h

theorem mapCase_of_unchanged {expansions : List (Nat × List Nat)} {runs : List CaseRun} {c : Char}
    (he : ∀ e ∈ expansions, e.1 ≠ c.toNat) (hr : ∀ r ∈ runs, ¬ r.Changes c.toNat) :
    mapCase expansions runs c = [c] := by
  have hl : expansions.lookup c.toNat = none := by
    rw [List.lookup_eq_none_iff]
    intro e hm
    simpa using Ne.symm (he e hm)
  have hf : runs.findSome? (·.imageOf? c.toNat) = none := by
    rw [List.findSome?_eq_none_iff]
    exact fun r hm => CaseRun.imageOf?_eq_none (hr r hm)
  simp only [mapCase, hl, hf]

theorem upperChar_of_unchanged {c : Char} (h : ∀ r ∈ changedRuns, ¬ r.Changes c.toNat) :
    upperChar c = [c] := by
  rw [upperChar]
  split
  · have ha := h .ascii (by simp [changedRuns])
    have hl : ¬ c.isLower := by
      intro hc
      refine ha ⟨?_, ?_, Nat.mod_one _⟩ <;>
        simp [Char.isLower, UInt32.le_iff_toNat_le, CaseRun.ascii] at hc ⊢ <;> omega
    rw [Char.toUpper_eq_of_not_isLower hl]
  · refine mapCase_of_unchanged (fun e he hc => ?_) fun r hr => h r (by simp [changedRuns, hr])
    refine h (.point e.1) ?_ ⟨Nat.le_of_eq hc, Nat.le_of_eq hc.symm, Nat.mod_one _⟩
    simp only [changedRuns, List.cons_append, List.mem_cons, List.mem_append]
    exact .inr (.inr (List.mem_map_of_mem (f := fun e => CaseRun.point e.1) he))

/-- An image of a run is in upper case. A number that is no character stands for the first one,
which is in upper case too. -/
theorem upperChar_ofNat_of_gives {r : CaseRun} (hr : r ∈ imageRuns) {n : Nat} (hn : r.Gives n) :
    upperChar (Char.ofNat n) = [Char.ofNat n] := by
  by_cases hv : n.isValidChar
  · have ht : (Char.ofNat n).toNat = n := by rw [Char.toNat_ofNat, if_pos hv]
    apply upperChar_of_unchanged
    intro s hs
    rw [ht]
    exact not_changes_of_gives hr hs hn
  · have hzero : Char.ofNat n = '\x00' := by
      rw [Char.ofNat, dif_neg hv]
      rfl
    rw [hzero]
    rfl

theorem upperChar_ne_nil (c : Char) : upperChar c ≠ [] := by
  have hexpansions : upperExpansions.all (fun e => e.2 ≠ []) = true := by decide +kernel
  rw [upperChar]
  split
  · exact List.cons_ne_nil _ _
  · rw [mapCase]
    cases hl : upperExpansions.lookup c.toNat with
    | some ns =>
        obtain ⟨l, k, he, -⟩ := List.lookup_eq_some_iff.1 hl
        have hmem : (c.toNat, ns) ∈ upperExpansions := by
          rw [he]
          exact List.mem_append_right _ List.mem_cons_self
        simpa using List.all_eq_true.1 hexpansions _ hmem
    | none =>
        cases upperRuns.findSome? (·.imageOf? c.toNat) with
        | some n => exact List.cons_ne_nil _ _
        | none => exact List.cons_ne_nil _ _

theorem length_le_upper (t : List Char) : t.length ≤ (upper t).length := by
  induction t with
  | nil => exact Nat.le_refl 0
  | cons c t ih =>
      have hpos := List.length_pos_iff.2 (upperChar_ne_nil c)
      rw [upper] at ih ⊢
      rw [List.flatMap_cons, List.length_append, List.length_cons]
      omega

theorem upper_map_ofNat {ns : List Nat} (h : ∀ n ∈ ns, ∃ r ∈ imageRuns, r.Gives n) :
    upper (ns.map Char.ofNat) = ns.map Char.ofNat := by
  induction ns with
  | nil => rfl
  | cons n ns ih =>
      obtain ⟨⟨r, hr, hn⟩, hns⟩ := List.forall_mem_cons.1 h
      have hs := ih hns
      rw [upper] at hs ⊢
      rw [List.map_cons, List.flatMap_cons, upperChar_ofNat_of_gives hr hn, hs]
      rfl

theorem upper_mapCase_upper {c : Char} (hc : ¬ c.toNat < 128) :
    upper (mapCase upperExpansions upperRuns c) = mapCase upperExpansions upperRuns c := by
  have hself : upperChar c = mapCase upperExpansions upperRuns c := by
    rw [upperChar, if_neg hc]
  rw [mapCase] at hself ⊢
  cases hl : upperExpansions.lookup c.toNat with
  | some ns =>
      obtain ⟨l, k, he, -⟩ := List.lookup_eq_some_iff.1 hl
      refine upper_map_ofNat fun n hn => ⟨.point n, ?_, 0, Nat.zero_le _, rfl, rfl⟩
      apply List.mem_append_right
      refine List.mem_flatMap.2 ⟨(c.toNat, ns), ?_, List.mem_map_of_mem hn⟩
      rw [he]
      exact List.mem_append_right _ List.mem_cons_self
  | none =>
      rw [hl] at hself
      cases hf : upperRuns.findSome? (·.imageOf? c.toNat) with
      | some n =>
          obtain ⟨r, hr, hn⟩ := List.exists_of_findSome?_eq_some hf
          have hone : ∀ m ∈ [n], ∃ r ∈ imageRuns, r.Gives m := by
            intro m hm
            cases List.mem_singleton.1 hm
            exact ⟨r, List.mem_append_left _ hr, CaseRun.gives_of_imageOf? hn⟩
          exact upper_map_ofNat hone
      | none =>
          rw [hf] at hself
          rw [upper, List.flatMap_singleton]
          exact hself

theorem imageRuns_above : imageRuns.all (fun r => Nat.ble 11 r.image) = true := by
  decide +kernel

theorem eq_newline_of_mem_upperChar {c : Char} (h : '\n' ∈ upperChar c) : c = '\n' := by
  have himage {r : CaseRun} {n : Nat} (hr : r ∈ imageRuns) (hn : r.Gives n) :
      '\n' ≠ Char.ofNat n := by
    obtain ⟨k, -, -, rfl⟩ := hn
    have habove := Nat.le_of_ble_eq_true (List.all_eq_true.1 imageRuns_above r hr)
    intro heq
    have hcode : 10 = (Char.ofNat (r.image + k)).toNat := congrArg Char.toNat heq
    rw [Char.toNat_ofNat] at hcode
    split at hcode <;> omega
  rw [upperChar] at h
  split at h
  · have hc := (List.mem_singleton.1 h).symm
    by_cases hl : c.isLower
    · have hcode : c.toUpper.toNat = 10 := congrArg Char.toNat hc
      have hle : 97 ≤ c.toNat := by
        simp only [Char.isLower, Bool.and_eq_true, decide_eq_true_eq, ge_iff_le] at hl
        exact hl.1
      rw [Char.toUpper_eq_of_isLower hl, Char.toNat_ofNat] at hcode
      split at hcode <;> omega
    · rwa [Char.toUpper_eq_of_not_isLower hl] at hc
  · rw [mapCase] at h
    split at h
    · next ns hl =>
      obtain ⟨n, hn, hchar⟩ := List.mem_map.1 h
      obtain ⟨l, k, he, -⟩ := List.lookup_eq_some_iff.1 hl
      refine absurd hchar.symm (himage (r := .point n) ?_ ⟨0, Nat.zero_le _, rfl, rfl⟩)
      apply List.mem_append_right
      refine List.mem_flatMap.2 ⟨(c.toNat, ns), ?_, List.mem_map_of_mem hn⟩
      rw [he]
      exact List.mem_append_right _ List.mem_cons_self
    · split at h
      · next n hn =>
        obtain ⟨r, hr, himg⟩ := List.exists_of_findSome?_eq_some hn
        exact absurd (List.mem_singleton.1 h)
          (himage (List.mem_append_left _ hr) (CaseRun.gives_of_imageOf? himg))
      · exact (List.mem_singleton.1 h).symm

theorem upper_upperChar (c : Char) : upper (upperChar c) = upperChar c := by
  by_cases hc : c.toNat < 128
  · have hu : c.toUpper.toNat < 128 := by
      by_cases hl : c.isLower
      · rw [Char.toUpper_eq_of_isLower hl, Char.toNat_ofNat]
        split <;> omega
      · rwa [Char.toUpper_eq_of_not_isLower hl]
    rw [upperChar, if_pos hc, upper, List.flatMap_singleton, upperChar, if_pos hu,
      Char.toUpper_toUpper_eq_toUpper]
  · rw [upperChar, if_neg hc]
    exact upper_mapCase_upper hc

theorem upper_upper (t : List Char) : upper (upper t) = upper t := by
  induction t with
  | nil => rfl
  | cons c t ih =>
      have hc := upper_upperChar c
      rw [upper] at hc ih ⊢
      rw [upper, List.flatMap_cons, List.flatMap_append, hc]
      exact congrArg _ ih

theorem upperChar_toLower (c : Char) : upperChar c.toLower = upperChar c := by
  by_cases hu : c.isUpper
  · have hle : c.toNat ≤ 90 := by
      simp [Char.isUpper, UInt32.le_iff_toNat_le] at hu
      exact hu.2
    have hlt : c.toLower.toNat < 128 := by
      rw [Char.toLower_eq_of_isUpper hu, Char.toNat_ofNat]
      split <;> omega
    rw [upperChar, if_pos hlt, upperChar, if_pos (by omega), Char.toUpper_toLower_eq_toUpper]
  · rw [Char.toLower_eq_of_not_isUpper hu]

theorem upper_eq_of_same {s t : List Char} (h : same s t = true) : upper s = upper t := by
  have hlower (u : List Char) : upper (u.map Char.toLower) = upper u := by
    rw [upper, List.flatMap_map, upper]
    exact List.flatMap_congr fun c _ => upperChar_toLower c
  rw [← hlower s, ← hlower t, eq_of_beq h]

theorem upper_eq_map_of_ascii {t : List Char} (h : ∀ c ∈ t, c.toNat < 128) :
    upper t = t.map Char.toUpper := by
  induction t with
  | nil => rfl
  | cons c t ih =>
      obtain ⟨hc, ht⟩ := List.forall_mem_cons.1 h
      have hrest := ih ht
      rw [upper] at hrest ⊢
      rw [List.flatMap_cons, hrest, upperChar, if_pos hc, List.map_cons, List.singleton_append]

end Text

theorem upperText_upperText (s : String) : upperText (upperText s) = upperText s := by
  rw [upperText, upperText, String.toList_ofList, Text.upper_upper]

theorem not_mem_upperText {s : String} (h : '\n' ∉ s.toList) : '\n' ∉ (upperText s).toList := by
  rw [upperText, String.toList_ofList, Text.upper, List.mem_flatMap]
  rintro ⟨c, hc, hnewline⟩
  exact h (Text.eq_newline_of_mem_upperChar hnewline ▸ hc)

theorem upperText_append (s t : String) : upperText (s ++ t) = upperText s ++ upperText t := by
  rw [upperText, upperText, upperText, String.toList_append, ← String.ofList_append, Text.upper,
    Text.upper, Text.upper, List.flatMap_append]

theorem upperText_eq_of_sameText {s t : String} (h : sameText s t = true) :
    upperText s = upperText t :=
  congrArg String.ofList (Text.upper_eq_of_same h)

theorem sameText_upperText {s : String} (h : ∀ c ∈ s.toList, c.toNat < 128) :
    sameText (upperText s) s = true := by
  rw [sameText, upperText, String.toList_ofList, Text.upper_eq_map_of_ascii h, Text.same,
    List.map_map, beq_iff_eq]
  apply List.map_congr_left
  intro c _
  exact Char.toLower_toUpper_eq_toLower c

namespace Script

/-- The names of a script are in upper case, as the constructors make them. -/
structure IsUpper (s : Script) : Prop where
  database : upperText s.database = s.database
  schema : upperText s.schema = s.schema
  name : upperText s.name = s.name

theorem isUpper_ofContent (database schema : String) (objectType : ObjectType)
    (name content : String) (migration : Option Migration) :
    (ofContent database schema objectType name content migration).IsUpper :=
  ⟨upperText_upperText _, upperText_upperText _, upperText_upperText _⟩

theorem IsUpper.withPath {s : Script} (h : s.IsUpper) (path : String) :
    (s.withPath path).IsUpper :=
  ⟨h.database, h.schema, h.name⟩

theorem IsUpper.fullName {s : Script} (h : s.IsUpper) : upperText s.fullName = s.fullName := by
  have hdot : upperText "." = "." := by decide
  rw [Script.fullName, upperText_append, upperText_append, upperText_append, upperText_append,
    h.database, h.schema, h.name, hdot]

end Script

namespace ScriptSource

theorem forall_mem_of_collect {α β : Type} {f : α → Except SyncError (List β)} {P : β → Prop}
    (hP : ∀ a bs, f a = .ok bs → ∀ b ∈ bs, P b) {as : List α} {bs : List β}
    (h : collect f as = .ok bs) : ∀ b ∈ bs, P b := by
  induction as generalizing bs with
  | nil =>
      cases h
      simp
  | cons a as ih =>
      simp only [collect] at h
      split at h
      · cases h
      · next cs hcs =>
        split at h
        · cases h
        · next rest hrest =>
          cases h
          intro b hb
          rcases List.mem_append.1 hb with hb | hb
          · exact hP a cs hcs b hb
          · exact ih hrest b hb

theorem isUpper_of_scriptsOfText {path name : String} {objectType : ObjectType} {content : String}
    {ss : List Script} (h : scriptsOfText path name objectType content = .ok ss) :
    ∀ s ∈ ss, s.IsUpper := by
  simp only [scriptsOfText] at h
  split at h
  · cases h
  · split at h
    · split at h
      · split at h
        · cases h
        · cases h
          intro s hs
          obtain ⟨u, -, rfl⟩ := List.mem_map.1 hs
          exact (Script.isUpper_ofContent ..).withPath path
      · cases h
        intro s hs
        cases List.mem_singleton.1 hs
        exact (Script.isUpper_ofContent ..).withPath path
    · cases h

theorem forall_mem_of_scripts {P : Script → Prop}
    (hP : ∀ path name objectType content ss,
      scriptsOfText path name objectType content = .ok ss → ∀ s ∈ ss, P s)
    {src : ScriptSource} {tree : FileTree} {ss : List Script} (h : src.scripts tree = .ok ss) :
    ∀ s ∈ ss, P s := by
  have hfile (objectType : ObjectType) (path : String) (ss : List Script)
      (h : scriptsOfFile tree objectType path = .ok ss) : ∀ s ∈ ss, P s := by
    simp only [scriptsOfFile] at h
    split at h
    · split at h
      · split at h
        · cases h
        · exact hP _ _ _ _ _ h
      · cases h
        simp
    · cases h
      simp
  have htype (directory : String) (ss : List Script)
      (h : src.scriptsOfTypeDirectory tree directory = .ok ss) : ∀ s ∈ ss, P s := by
    simp only [scriptsOfTypeDirectory] at h
    split at h
    · cases h
    · next objectType _ => exact forall_mem_of_collect (hfile objectType) h
  rw [scripts] at h
  split at h
  · refine forall_mem_of_collect (fun _ _ h => ?_) h
    refine forall_mem_of_collect (fun _ _ h => ?_) h
    exact forall_mem_of_collect htype h
  · cases h

theorem isUpper_of_scripts {src : ScriptSource} {tree : FileTree} {ss : List Script}
    (h : src.scripts tree = .ok ss) : ∀ s ∈ ss, s.IsUpper :=
  forall_mem_of_scripts (fun _ _ _ _ _ h => isUpper_of_scriptsOfText h) h

end ScriptSource

end SchemaDeploy
