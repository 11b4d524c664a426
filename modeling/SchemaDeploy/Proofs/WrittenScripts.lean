import SchemaDeploy.Proofs.UpperText
import SchemaDeploy.Proofs.WrittenTrees

namespace SchemaDeploy

structure IsFileName (p : String) : Prop where
  ne_empty : p ≠ ""
  no_slash : '/' ∉ p.toList
  no_dot : '.' ∉ p.toList

theorem IsFileName.isPlainPart {p : String} (h : IsFileName p) : IsPlainPart p := by
  refine ⟨h.ne_empty, ?_, ?_, h.no_slash⟩
  · rintro rfl
    exact h.no_dot (by decide)
  · rintro rfl
    exact h.no_dot (by decide)

theorem IsFileName.isVisible {p : String} (h : IsFileName p) (q : String) :
    (p ++ q).startsWith "." = false := by
  rw [String.startsWith_string_eq_false_iff]
  rintro ⟨t, ht⟩
  rw [String.toList_append] at ht
  cases hp : p.toList with
  | nil => exact h.ne_empty (String.toList_eq_nil_iff.1 hp)
  | cons c u =>
      rw [hp] at ht
      have hc : '.' = c := (List.cons.inj ht).1
      exact h.no_dot (hp ▸ hc ▸ List.mem_cons_self)

theorem IsFileName.isPlainPart_append {p q : String} (h : IsFileName p) (hq : q = ".SQL") :
    IsPlainPart (p ++ q) := by
  subst hq
  have hlength : 0 < p.toList.length := by
    rw [List.length_pos_iff]
    exact fun hn => h.ne_empty (String.toList_eq_nil_iff.1 hn)
  have hne (r : String) (hr : r.toList.length ≤ 4) : p ++ ".SQL" ≠ r := by
    rintro rfl
    rw [String.toList_append, List.length_append] at hr
    have hfour : ".SQL".toList.length = 4 := rfl
    omega
  refine ⟨hne _ (by decide), hne _ (by decide), hne _ (by decide), ?_⟩
  rw [String.toList_append, List.mem_append, not_or]
  exact ⟨h.no_slash, by decide⟩

theorem splitExtension_append {p : String} (h : IsFileName p) :
    splitExtension (p ++ ".SQL") = (p, some "SQL") := by
  have ht : (p ++ ".SQL").toList.reverse = 'L' :: 'Q' :: 'S' :: '.' :: p.toList.reverse := by simp
  have hne : p.toList.reverse ≠ [] := fun hn =>
    h.ne_empty (String.toList_eq_nil_iff.1 (List.reverse_eq_nil_iff.1 hn))
  obtain ⟨c, u, hu⟩ := List.exists_cons_of_ne_nil hne
  have hsplit : splitExtension (p ++ ".SQL") = (String.ofList (c :: u).reverse, some "SQL") := by
    simp only [splitExtension, ht, hu]
    rfl
  rw [hsplit, ← hu, List.reverse_reverse, String.ofList_toList]

theorem ObjectType.isFileName_directory (t : ObjectType) : IsFileName t.directory := by
  cases t <;> exact ⟨by decide, by decide, by decide⟩

theorem ObjectType.ofDirectory?_directory (t : ObjectType) :
    ObjectType.ofDirectory? t.directory = some t := by
  cases t <;> decide

theorem ObjectType.directory_injective {t u : ObjectType} (h : t.directory = u.directory) : t = u := by
  have ht := ObjectType.ofDirectory?_directory t
  rw [h, ObjectType.ofDirectory?_directory] at ht
  exact (Option.some.inj ht).symm

namespace Script

/-- The place of a script below the directory of all scripts. -/
def place (s : Script) : List String :=
  [s.database, s.schema, s.objectType.directory, s.name ++ ".SQL"]

/-- Whether the names of a script are names of directories and files. -/
structure IsFiled (s : Script) : Prop where
  database : IsFileName s.database
  schema : IsFileName s.schema
  name : IsFileName s.name
  isUpper : s.IsUpper

end Script

theorem Script.place_inj {s t : Script} (h : s.place = t.place) : s.objectType = t.objectType ∧
    s.database = t.database ∧ s.schema = t.schema ∧ s.name = t.name := by
  simp only [Script.place, List.cons.injEq, and_true] at h
  obtain ⟨hd, hs, ht, hn⟩ := h
  refine ⟨ObjectType.directory_injective ht, hd, hs, ?_⟩
  rw [← String.toList_inj, String.toList_append, String.toList_append] at hn
  exact String.toList_inj.1 (List.append_cancel_right hn)

namespace ScriptSource

variable {src : ScriptSource} {t t' : FileTree} {es : List Script}

theorem pathParts_scriptPath (src : ScriptSource) {s : Script} (hs : s.IsFiled) :
    pathParts (src.scriptPath s) = pathParts src.mainDir ++ s.place ∧
      pathParts (splitPath (src.scriptPath s)).1 = pathParts src.mainDir ++ s.place.dropLast := by
  have hname := hs.name.isPlainPart_append rfl
  have hdirectory := s.objectType.isFileName_directory.isPlainPart
  have hparts : pathParts (joinPath (joinPath (joinPath src.mainDir s.database) s.schema)
      s.objectType.directory) = pathParts src.mainDir ++ s.place.dropLast := by
    rw [pathParts_joinPath hdirectory, pathParts_joinPath hs.schema.isPlainPart,
      pathParts_joinPath hs.database.isPlainPart]
    simp [Script.place]
  refine ⟨?_, ?_⟩
  · rw [scriptPath, pathParts_joinPath hname, hparts]
    simp [Script.place]
  · rw [scriptPath, (splitPath_joinPath hname _).1, hparts]

/-- The last of some scripts that is written to a place. -/
def lastAt (es : List Script) (place : List String) : Option Script :=
  es.reverse.find? fun e => e.place == place

theorem lastAt_cons (e : Script) (es : List Script) (place : List String) :
    lastAt (e :: es) place = (lastAt es place).or (if e.place = place then some e else none) := by
  rw [lastAt, List.reverse_cons, List.find?_append, lastAt]
  by_cases h : e.place = place <;> simp [h]

theorem mem_of_lastAt {place : List String} {e : Script} (h : lastAt es place = some e) :
    e ∈ es ∧ e.place = place := by
  have hplace := List.find?_some h
  exact ⟨List.mem_reverse.1 (List.mem_of_find?_eq_some h), by simpa using hplace⟩

theorem exists_lastAt {e : Script} (h : e ∈ es) : ∃ e', lastAt es e.place = some e' := by
  rw [← Option.isSome_iff_exists, lastAt, List.find?_isSome]
  exact ⟨e, List.mem_reverse.2 h, by simp⟩

theorem not_place_prefix (e e' : Script) : ¬ e.place <+: e'.place.dropLast := by
  intro h
  have hlength := h.length_le
  simp [Script.place] at hlength

theorem lookup_writeOne {e : Script} (he : e.IsFiled)
    (h : t.writeBelow? (src.scriptPath e) e.content.toUTF8 = some t') {ps : List String}
    (hps : ps ≠ []) : t'.entries.lookup (pathParts src.mainDir ++ ps) =
      if ps = e.place then some (.file e.content.toUTF8)
      else if ps <+: e.place.dropLast then some .directory
      else t.entries.lookup (pathParts src.mainDir ++ ps) := by
  obtain ⟨hpath, hdirectory⟩ := pathParts_scriptPath src he
  rw [FileTree.lookup_writeBelow? h, hpath, hdirectory]
  simp [List.prefix_append_right_inj, hps]

theorem exists_of_write_cons {e : Script} (h : src.write t (e :: es) = (t', .ok ())) :
    ∃ made, t.writeBelow? (src.scriptPath e) e.content.toUTF8 = some made ∧
      src.write made es = (t', .ok ()) := by
  -- The equation of one case of the definition takes much longer to derive than the whole one.
  rw [write.eq_def] at h
  dsimp only at h
  split at h
  · next made hmade => exact ⟨made, hmade, h⟩
  · cases h

theorem lookup_write (hes : ∀ e ∈ es, e.IsFiled) (h : src.write t es = (t', .ok ()))
    {ps : List String} (hps : ps ≠ []) :
    t'.entries.lookup (pathParts src.mainDir ++ ps) =
      match lastAt es ps with
      | some e => some (.file e.content.toUTF8)
      | none => if ∃ e ∈ es, ps <+: e.place.dropLast then some .directory
        else t.entries.lookup (pathParts src.mainDir ++ ps) := by
  induction es generalizing t with
  | nil =>
      cases h
      simp [lastAt]
  | cons e es ih =>
      obtain ⟨he, hrest⟩ := List.forall_mem_cons.1 hes
      obtain ⟨made, hmade, h⟩ := exists_of_write_cons h
      rw [ih hrest h, lastAt_cons, lookup_writeOne he hmade hps]
      cases hlast : lastAt es ps with
      | some e' => rfl
      | none =>
          by_cases hp : e.place = ps
          · subst hp
            have hnone : ¬ ∃ e' ∈ es, e.place <+: e'.place.dropLast :=
              fun ⟨e', _, hinit⟩ => not_place_prefix e e' hinit
            simp [hnone]
          · rw [if_neg hp, if_neg (Ne.symm hp), Option.or_none]
            dsimp only
            simp only [List.exists_mem_cons_iff]
            by_cases hd : ps <+: e.place.dropLast <;> simp [hd]

/-- Whether a tree holds nothing below the main directory. -/
def IsEmpty (src : ScriptSource) (t : FileTree) : Prop :=
  ∀ e ∈ t.entries, pathParts src.mainDir <+: e.1 → e.1 = pathParts src.mainDir

theorem IsEmpty.lookup (h : src.IsEmpty t) {ps : List String} (hps : ps ≠ []) :
    t.entries.lookup (pathParts src.mainDir ++ ps) = none := by
  rw [← Option.not_isSome_iff_eq_none, FileTree.isSome_lookup_iff]
  rintro ⟨e, he, hkey⟩
  have hmain := h e he (hkey ▸ List.prefix_append _ _)
  rw [hkey] at hmain
  exact hps (List.append_right_eq_self.1 hmain)

structure Holds (src : ScriptSource) (t : FileTree) (es : List Script) : Prop where
  filed : ∀ e ∈ es, e.IsFiled
  main : t.isDirectory src.mainDir = true
  file : ∀ e, lastAt es e.place = some e →
    t.entries.lookup (pathParts src.mainDir ++ e.place) = some (.file e.content.toUTF8)
  directory : ∀ e ∈ es, ∀ ps, ps ≠ [] → ps <+: e.place.dropLast →
    t.entries.lookup (pathParts src.mainDir ++ ps) = some .directory
  isSome_iff : ∀ ps, ps ≠ [] → ((t.entries.lookup (pathParts src.mainDir ++ ps)).isSome = true ↔
    ∃ e ∈ es, ps <+: e.place)

theorem isDirectory_write (hes : ∀ e ∈ es, e.IsFiled) (hmain : t.isDirectory src.mainDir = true)
    (h : src.write t es = (t', .ok ())) : t'.isDirectory src.mainDir = true := by
  induction es generalizing t with
  | nil =>
      cases h
      exact hmain
  | cons e es ih =>
      obtain ⟨he, hrest⟩ := List.forall_mem_cons.1 hes
      obtain ⟨made, hmade, h⟩ := exists_of_write_cons h
      refine ih hrest ?_ h
      rw [FileTree.isDirectory_iff] at hmain ⊢
      refine hmain.imp_right fun hlookup => ?_
      obtain ⟨hpath, hdirectory⟩ := pathParts_scriptPath src he
      rw [FileTree.lookup_writeBelow? hmade, hpath, hdirectory, hlookup]
      simp [Script.place]

theorem place_eq (e : Script) : e.place = e.place.dropLast ++ [e.name ++ ".SQL"] :=
  rfl

theorem holds_write (hes : ∀ e ∈ es, e.IsFiled) (hempty : src.IsEmpty t)
    (hmain : t.isDirectory src.mainDir = true) (h : src.write t es = (t', .ok ())) :
    src.Holds t' es := by
  have hnone {ps : List String} {e : Script} (hd : ps <+: e.place.dropLast) :
      lastAt es ps = none := by
    rw [Option.eq_none_iff_forall_ne_some]
    intro e' he'
    rw [← (mem_of_lastAt he').2] at hd
    exact not_place_prefix e' e hd
  refine ⟨hes, isDirectory_write hes hmain h, fun e he => ?_, fun e he ps hps hd => ?_,
    fun ps hps => ?_⟩
  · have hne : e.place ≠ [] := List.cons_ne_nil _ _
    rw [lookup_write hes h hne, he]
  · have hex : ∃ e ∈ es, ps <+: e.place.dropLast := ⟨e, he, hd⟩
    rw [lookup_write hes h hps, hnone hd]
    simp only [hex, if_true]
  · rw [lookup_write hes h hps, hempty.lookup hps]
    constructor
    · intro hsome
      cases hlast : lastAt es ps with
      | some e =>
          obtain ⟨he, hplace⟩ := mem_of_lastAt hlast
          exact ⟨e, he, hplace ▸ List.prefix_rfl⟩
      | none =>
          rw [hlast] at hsome
          dsimp only at hsome
          split at hsome
          · next hex =>
            obtain ⟨e, he, hd⟩ := hex
            exact ⟨e, he, hd.trans (List.dropLast_prefix _)⟩
          · cases hsome
    · rintro ⟨e, he, hinit⟩
      rcases List.prefix_concat_iff.1 (place_eq e ▸ hinit) with hp | hd
      · rw [← place_eq e] at hp
        obtain ⟨e', he'⟩ := exists_lastAt he
        rw [hp, he']
        rfl
      · have hex : ∃ e ∈ es, ps <+: e.place.dropLast := ⟨e, he, hd⟩
        rw [hnone hd]
        simp only [hex, if_true, Option.isSome_some]

def below (src : ScriptSource) (ps : List String) : String :=
  ps.foldl joinPath src.mainDir

theorem below_concat (src : ScriptSource) (ps : List String) (n : String) :
    src.below (ps ++ [n]) = joinPath (src.below ps) n :=
  List.foldl_append

theorem pathParts_below (src : ScriptSource) {ps : List String} (hps : ∀ p ∈ ps, IsPlainPart p) :
    pathParts (src.below ps) = pathParts src.mainDir ++ ps := by
  rw [below]
  generalize src.mainDir = d
  induction ps generalizing d with
  | nil => rw [List.append_nil, List.foldl_nil]
  | cons p ps ih =>
      obtain ⟨hp, hrest⟩ := List.forall_mem_cons.1 hps
      rw [List.foldl_cons, ih hrest, pathParts_joinPath hp, List.append_assoc, List.singleton_append]

theorem mem_place {e : Script} (he : e.IsFiled) {n : String} (h : n ∈ e.place) :
    IsPlainPart n ∧ n.startsWith "." = false := by
  have hvisible {p : String} (hp : IsFileName p) : p.startsWith "." = false := by
    have hv := hp.isVisible ""
    rwa [String.append_empty] at hv
  simp only [Script.place, List.mem_cons, List.not_mem_nil, or_false] at h
  rcases h with rfl | rfl | rfl | rfl
  · exact ⟨he.database.isPlainPart, hvisible he.database⟩
  · exact ⟨he.schema.isPlainPart, hvisible he.schema⟩
  · exact ⟨e.objectType.isFileName_directory.isPlainPart, hvisible e.objectType.isFileName_directory⟩
  · exact ⟨he.name.isPlainPart_append rfl, he.name.isVisible _⟩

theorem Holds.isPlainPart (h : src.Holds t es) {ps : List String}
    (hps : ∃ e ∈ es, ps <+: e.place) : ∀ p ∈ ps, IsPlainPart p := by
  obtain ⟨e, he, hinit⟩ := hps
  exact fun p hp => (mem_place (h.filed e he) (hinit.subset hp)).1

def AvoidsTests (src : ScriptSource) (es : List Script) : Prop :=
  ∀ e ∈ es, ∀ ps, ps <+: e.place → ps ≠ [] → pathParts src.mainDir ++ ps ≠ pathParts src.testDir

theorem Holds.mem_children (h : src.Holds t es) {ps : List String}
    (hps : ∀ p ∈ ps, IsPlainPart p) {n : String} :
    n ∈ t.children (src.below ps) ↔ ∃ e ∈ es, ps ++ [n] <+: e.place := by
  rw [FileTree.mem_children, pathParts_below src hps, List.append_assoc, h.isSome_iff _ (by simp)]

theorem Holds.visible_below (h : src.Holds t es) (htest : src.AvoidsTests es) {ps : List String}
    (hps : ∀ p ∈ ps, IsPlainPart p) : src.visible t (src.below ps) =
      (t.children (src.below ps)).map fun n => src.below (ps ++ [n]) := by
  have hchild (n : String) (hn : n ∈ t.children (src.below ps)) : n.startsWith "." = false ∧
      pathParts (src.below (ps ++ [n])) ≠ pathParts src.testDir := by
    obtain ⟨e, he, hinit⟩ := (h.mem_children hps).1 hn
    refine ⟨(mem_place (h.filed e he) (hinit.subset List.mem_concat_self)).2, ?_⟩
    rw [pathParts_below src (h.isPlainPart ⟨e, he, hinit⟩)]
    exact htest e he _ hinit (by simp)
  have hfilter : ((t.children (src.below ps)).filter fun n => !n.startsWith ".") =
      t.children (src.below ps) :=
    List.filter_eq_self.2 fun n hn => by rw [(hchild n hn).1, Bool.not_false]
  rw [visible, hfilter, ← List.filterMap_eq_map']
  refine List.filterMap_congr fun n hn => ?_
  have htest := (hchild n hn).2
  rw [below_concat] at htest ⊢
  exact if_neg htest

theorem Holds.directories_below (h : src.Holds t es) (htest : src.AvoidsTests es)
    {ps : List String} (hps : ∀ p ∈ ps, IsPlainPart p) (hlength : ps.length < 3) :
    src.directories t (src.below ps) =
      (t.children (src.below ps)).map fun n => src.below (ps ++ [n]) := by
  rw [directories, h.visible_below htest hps, List.filter_eq_self]
  intro p hp
  obtain ⟨n, hn, rfl⟩ := List.mem_map.1 hp
  obtain ⟨e, he, hinit⟩ := (h.mem_children hps).1 hn
  have hdirectory : ps ++ [n] <+: e.place.dropLast := by
    refine List.prefix_of_prefix_length_le hinit (List.dropLast_prefix _) ?_
    simp [Script.place]
    omega
  rw [FileTree.isDirectory_iff, pathParts_below src (h.isPlainPart ⟨e, he, hinit⟩)]
  exact .inr (h.directory e he _ (by simp) hdirectory)

/-- Whether a listing succeeds exactly under a condition, and then lists exactly what it should. -/
structure Reads {α : Type} (r : Except SyncError (List α)) (ok : Prop) (listed : α → Prop) :
    Prop where
  ok_iff : (∃ as, r = .ok as) ↔ ok
  mem_iff : ∀ as, r = .ok as → ∀ a, a ∈ as ↔ listed a

theorem reads_collect {α β : Type} {f : α → Except SyncError (List β)} {ok : α → Prop}
    {listed : α → β → Prop} (as : List α) (hf : ∀ a ∈ as, Reads (f a) (ok a) (listed a)) :
    Reads (collect f as) (∀ a ∈ as, ok a) fun b => ∃ a ∈ as, listed a b := by
  induction as with
  | nil =>
      refine ⟨by simp [collect], fun bs h => ?_⟩
      cases h
      simp
  | cons a as ih =>
      obtain ⟨ha, has⟩ := List.forall_mem_cons.1 hf
      have ih := ih has
      rw [List.forall_mem_cons, ← ha.ok_iff, ← ih.ok_iff]
      simp only [collect]
      cases hfa : f a with
      | error x =>
          refine ⟨by simp, fun bs h => ?_⟩
          cases h
      | ok bs =>
          cases hrest : collect f as with
          | error x =>
              refine ⟨by simp, fun bs h => ?_⟩
              cases h
          | ok rest =>
              refine ⟨by simp, fun cs h b => ?_⟩
              cases h
              rw [List.mem_append, ha.mem_iff bs hfa, ih.mem_iff rest hrest, List.exists_mem_cons_iff]

theorem collect_map {α β γ : Type} (f : β → Except SyncError (List γ)) (g : α → β) (as : List α) :
    collect f (as.map g) = collect (fun a => f (g a)) as := by
  induction as with
  | nil => rfl
  | cons a as ih => simp only [List.map_cons, collect, ih]

def readBack (src : ScriptSource) (e : Script) : Except SyncError (List Script) :=
  scriptsOfText (src.scriptPath e) e.name e.objectType e.content

def AllRead (src : ScriptSource) (es : List Script) (ps : List String) : Prop :=
  ∀ e, lastAt es e.place = some e → ps <+: e.place → ∃ ss, src.readBack e = .ok ss

/-- Whether a script is read back from the last one of a place that begins with `ps`. -/
def IsRead (src : ScriptSource) (es : List Script) (ps : List String) (s : Script) : Prop :=
  ∃ e, lastAt es e.place = some e ∧ ps <+: e.place ∧ ∃ ss, src.readBack e = .ok ss ∧ s ∈ ss

theorem Holds.reads_level (h : src.Holds t es) {ps : List String}
    (hps : ∀ p ∈ ps, IsPlainPart p) (hlength : ps.length < 4)
    {f : String → Except SyncError (List Script)}
    (hf : ∀ n, (∃ e ∈ es, ps ++ [n] <+: e.place) →
      Reads (f (src.below (ps ++ [n]))) (src.AllRead es (ps ++ [n])) (src.IsRead es (ps ++ [n]))) :
    Reads (collect f ((t.children (src.below ps)).map fun n => src.below (ps ++ [n])))
      (src.AllRead es ps) (src.IsRead es ps) := by
  have hreads := reads_collect (t.children (src.below ps)) fun n hn =>
    hf n ((h.mem_children hps).1 hn)
  have hnext {e : Script} (he : lastAt es e.place = some e) (hinit : ps <+: e.place) :
      ∃ n ∈ t.children (src.below ps), ps ++ [n] <+: e.place := by
    obtain ⟨rest, hrest⟩ := hinit
    cases rest with
    | nil =>
        have hl := congrArg List.length hrest
        rw [List.append_nil] at hl
        simp only [Script.place, List.length_cons, List.length_nil] at hl
        omega
    | cons n rest =>
        have hinit : ps ++ [n] <+: e.place := ⟨rest, by rw [← hrest]; simp⟩
        exact ⟨n, (h.mem_children hps).2 ⟨e, (mem_of_lastAt he).1, hinit⟩, hinit⟩
  rw [collect_map]
  refine ⟨hreads.ok_iff.trans ⟨fun hall e he hinit => ?_, fun hall n _ e he hinit => ?_⟩,
    fun ss hss s => (hreads.mem_iff ss hss s).trans ⟨?_, ?_⟩⟩
  · obtain ⟨n, hn, hinit⟩ := hnext he hinit
    exact hall n hn e he hinit
  · exact hall e he ((List.prefix_append _ _).trans hinit)
  · rintro ⟨n, -, e, he, hinit, hread⟩
    exact ⟨e, he, (List.prefix_append _ _).trans hinit, hread⟩
  · rintro ⟨e, he, hinit, hread⟩
    obtain ⟨n, hn, hinit⟩ := hnext he hinit
    exact ⟨n, hn, e, he, hinit, hread⟩

theorem decodeScript?_toUTF8 (s : String) : decodeScript? s.toUTF8 = some s := by
  rw [decodeScript?, fromUTF8?_toUTF8]

theorem Holds.bytes? (h : src.Holds t es) {e : Script} (he : lastAt es e.place = some e) :
    t.isFile (src.scriptPath e) = true ∧ t.bytes? (src.scriptPath e) = some e.content.toUTF8 := by
  have hparts := (pathParts_scriptPath src (h.filed e (mem_of_lastAt he).1)).1
  have hfind : t.find? (src.scriptPath e) = some (.file e.content.toUTF8) := by
    rw [FileTree.find?_of_ne_nil (by rw [hparts]; simp [Script.place]), hparts, h.file e he]
  exact ⟨by rw [FileTree.isFile, hfind], by rw [FileTree.bytes?, hfind]⟩

theorem Holds.scriptsOfFile_eq (h : src.Holds t es) {e : Script} (he : lastAt es e.place = some e) :
    scriptsOfFile t e.objectType (src.scriptPath e) = src.readBack e := by
  have hfiled := h.filed e (mem_of_lastAt he).1
  obtain ⟨hfile, hbytes⟩ := h.bytes? he
  have hname : (splitPath (src.scriptPath e)).2 = e.name ++ ".SQL" :=
    (splitPath_joinPath (hfiled.name.isPlainPart_append rfl) _).2
  have hext : sameText "SQL" "sql" = true := by decide
  simp only [scriptsOfFile, hname, splitExtension_append hfiled.name, hfile, hbytes, hext,
    Bool.and_self, if_true, Option.bind_some, decodeScript?_toUTF8, hfiled.isUpper.name, readBack]

theorem Holds.reads_file (h : src.Holds t es) {e : Script} (he : e ∈ es) :
    Reads (scriptsOfFile t e.objectType (src.below e.place)) (src.AllRead es e.place)
      (src.IsRead es e.place) := by
  obtain ⟨e', he'⟩ := exists_lastAt he
  have hplace := (mem_of_lastAt he').2
  have hlast : lastAt es e'.place = some e' := hplace ▸ he'
  have hread : scriptsOfFile t e.objectType (src.below e.place) = src.readBack e' := by
    rw [← hplace, (Script.place_inj hplace.symm).1]
    exact h.scriptsOfFile_eq hlast
  have honly {e'' : Script} (h'' : lastAt es e''.place = some e'') (hinit : e.place <+: e''.place) :
      e'' = e' := by
    have hp : e.place = e''.place := hinit.eq_of_length rfl
    rw [← hp, he'] at h''
    exact (Option.some.inj h'').symm
  rw [hread]
  refine ⟨⟨fun hok e'' h'' hinit => ?_, fun hall => ?_⟩, fun ss hss s => ⟨fun hs => ?_, ?_⟩⟩
  · rwa [honly h'' hinit]
  · exact hall e' hlast (hplace ▸ List.prefix_rfl)
  · exact ⟨e', hlast, hplace ▸ List.prefix_rfl, ss, hss, hs⟩
  · rintro ⟨e'', h'', hinit, ss', hss', hs⟩
    rw [honly h'' hinit, hss] at hss'
    cases hss'
    exact hs

theorem Holds.reads_typeDirectory (h : src.Holds t es) (htest : src.AvoidsTests es) {e : Script}
    (he : e ∈ es) : Reads (src.scriptsOfTypeDirectory t (src.below e.place.dropLast))
      (src.AllRead es e.place.dropLast) (src.IsRead es e.place.dropLast) := by
  have hplain := h.isPlainPart ⟨e, he, List.dropLast_prefix _⟩
  have hname : (splitPath (src.below e.place.dropLast)).2 = e.objectType.directory :=
    (splitPath_joinPath e.objectType.isFileName_directory.isPlainPart _).2
  simp only [scriptsOfTypeDirectory, hname, ObjectType.ofDirectory?_directory,
    h.visible_below htest hplain]
  refine h.reads_level hplain (by simp [Script.place]) fun n hn => ?_
  obtain ⟨e', he', hinit⟩ := hn
  have hplace : e.place.dropLast ++ [n] = e'.place := hinit.eq_of_length (by simp [Script.place])
  have htype : e.objectType = e'.objectType := by
    simp only [Script.place, List.dropLast_cons_cons, List.dropLast_singleton, List.cons_append,
      List.cons.injEq] at hplace
    exact ObjectType.directory_injective hplace.2.2.1
  rw [hplace, htype]
  exact h.reads_file he'

theorem Holds.reads_directories (h : src.Holds t es) (htest : src.AvoidsTests es)
    {ps : List String} (hps : ∀ p ∈ ps, IsPlainPart p) (hlength : ps.length < 3)
    {f : String → Except SyncError (List Script)}
    (hf : ∀ n, (∃ e ∈ es, ps ++ [n] <+: e.place) → Reads (f (src.below (ps ++ [n])))
      (src.AllRead es (ps ++ [n])) (src.IsRead es (ps ++ [n]))) :
    Reads (collect f (src.directories t (src.below ps))) (src.AllRead es ps) (src.IsRead es ps) := by
  rw [h.directories_below htest hps hlength]
  exact h.reads_level hps (by omega) hf

theorem Holds.reads_scripts (h : src.Holds t es) (htest : src.AvoidsTests es) :
    Reads (src.scripts t) (src.AllRead es []) (src.IsRead es []) := by
  have hschema {ps : List String} (hlength : ps.length = 2) (hps : ∃ e ∈ es, ps <+: e.place) :
      Reads (collect (src.scriptsOfTypeDirectory t) (src.directories t (src.below ps)))
        (src.AllRead es ps) (src.IsRead es ps) := by
    refine h.reads_directories htest (h.isPlainPart hps) (by omega) fun n hn => ?_
    obtain ⟨e, he, hinit⟩ := hn
    have hplace : ps ++ [n] = e.place.dropLast :=
      (List.prefix_of_prefix_length_le hinit (List.dropLast_prefix _)
        (by simp [Script.place, hlength])).eq_of_length (by simp [Script.place, hlength])
    rw [hplace]
    exact h.reads_typeDirectory htest he
  have hdatabase {ps : List String} (hlength : ps.length = 1) (hps : ∃ e ∈ es, ps <+: e.place) :
      Reads (collect (fun schema => collect (src.scriptsOfTypeDirectory t)
        (src.directories t schema)) (src.directories t (src.below ps)))
        (src.AllRead es ps) (src.IsRead es ps) :=
    h.reads_directories htest (h.isPlainPart hps) (by omega) fun n hn =>
      hschema (by simp [hlength]) hn
  have hroot : Reads (collect (fun database => collect (fun schema =>
      collect (src.scriptsOfTypeDirectory t) (src.directories t schema))
        (src.directories t database)) (src.directories t (src.below [])))
        (src.AllRead es []) (src.IsRead es []) :=
    h.reads_directories htest (by simp) (by simp) fun n hn => hdatabase (by simp) hn
  rw [scripts, if_pos h.main]
  exact hroot

theorem isPlainPart_main : IsPlainPart "main" :=
  ⟨by decide, by decide, by decide, by decide⟩

theorem avoidsTests_ofRoot {root : String} {opened : FileTree} (hes : ∀ e ∈ es, e.IsFiled) :
    (ScriptSource.ofRoot root opened).AvoidsTests es := by
  have htest : IsPlainPart "test" := ⟨by decide, by decide, by decide, by decide⟩
  intro e he ps hinit hps
  simp only [ofRoot, pathParts_joinPath htest]
  cases ps with
  | nil => exact absurd rfl hps
  | cons p ps =>
      split
      · rw [pathParts_joinPath isPlainPart_main, List.append_assoc]
        intro h
        have hhead := (List.cons.inj (List.append_cancel_left h)).1
        exact absurd hhead (by decide)
      · intro h
        have hp : p = "test" := (List.cons.inj (List.append_cancel_left h)).1
        have hdatabase : p = e.database := (List.cons_prefix_cons.1 hinit).1
        have hupper := (hes e he).isUpper.database
        rw [← hdatabase, hp] at hupper
        exact absurd hupper (by decide)

end ScriptSource

end SchemaDeploy
