import SchemaDeploy.Proofs.JsonRoundTrip
import SchemaDeploy.Proofs.KeyedLookup
import SchemaDeploy.Proofs.RecordedMigrations
import SchemaDeploy.Store.StateFile

namespace SchemaDeploy

theorem Keyed.ofList_entries {α : Type} (m : Keyed α) : Keyed.ofList m.entries = m := by
  refine Keyed.ext_get? fun k => ?_
  cases h : m.get? k with
  | none =>
      have hk : k ∉ m.entries.map (·.1) := by
        intro hk
        obtain ⟨a, ha⟩ := m.mem_keys_iff.1 hk
        rw [h] at ha
        cases ha
      exact Keyed.get?_foldl_insert_of_not_mem hk _
  | some a =>
      refine Keyed.get?_foldl_insert_of_mem ((m.get?_eq_some_iff).1 h) ?_ _
      rintro ⟨k', b⟩ hb rfl
      exact Option.some.inj (((m.get?_eq_some_iff).2 hb).symm.trans h)

theorem Names.ofNames_keys (names : Names) : Names.ofNames names.keys = names := by
  have hentries : names.keys.map (·, ()) = names.entries := by
    rw [Keyed.keys, List.map_map]
    exact List.map_id _
  rw [Names.ofNames, hentries, Keyed.ofList_entries]

namespace StateFile

open JsonValue

abbrev IsStored (time : String) : Prop :=
  isTime time.toList = true

/-- A state whose numbers and times a state file can hold. -/
structure Storable (s : RepositoryState) : Prop where
  history : ∀ h ∈ s.history.values, h.syncId ≤ Text.maxVersion ∧ IsStored h.updatedAt
  syncs : ∀ e ∈ s.syncs, e.id ≤ Text.maxVersion ∧ (∀ n ∈ e.count, n ≤ Text.maxVersion) ∧
    IsStored e.startTime ∧ ∀ t ∈ e.endTime, IsStored t
  events : ∀ e ∈ s.events, e.syncId ≤ Text.maxVersion ∧ IsStored e.createdAt

instance (s : RepositoryState) : Decidable (Storable s) :=
  decidable_of_iff
    ((∀ h ∈ s.history.values, h.syncId ≤ Text.maxVersion ∧ IsStored h.updatedAt) ∧
      (∀ e ∈ s.syncs, e.id ≤ Text.maxVersion ∧ (∀ n ∈ e.count, n ≤ Text.maxVersion) ∧
        IsStored e.startTime ∧ ∀ t ∈ e.endTime, IsStored t) ∧
      ∀ e ∈ s.events, e.syncId ≤ Text.maxVersion ∧ IsStored e.createdAt)
    ⟨fun ⟨hhistory, hsyncs, hevents⟩ => ⟨hhistory, hsyncs, hevents⟩,
      fun h => ⟨h.history, h.syncs, h.events⟩⟩

section Written

theorem reads_ofOption {α : Type} {f : α → JsonValue} (h : ∀ a, Reads (f a)) (a : Option α) :
    Reads (ofOption f a) := by
  cases a with
  | none => exact reads_null
  | some a => exact h a

theorem reads_ofList {α : Type} {f : α → JsonValue} (h : ∀ a, Reads (f a)) (as : List α) :
    Reads (ofList f as) := by
  refine reads_array fun v hv => ?_
  obtain ⟨a, -, rfl⟩ := List.mem_map.1 hv
  exact h a

theorem reads_ofKeyed {α : Type} {f : α → JsonValue} (h : ∀ a, Reads (f a)) (m : Keyed α) :
    Reads (ofKeyed f m) := by
  refine reads_object fun v hv => ?_
  obtain ⟨e, -, rfl⟩ := List.mem_map.1 hv
  exact h e.2

theorem reads_ofState (s : RepositoryState) : Reads (ofState s) := by
  have hnat (n : Nat) : Reads (ofNat n) := reads_number n
  have hobject (o : LiveObject) : Reads (ofObject o) :=
    reads_object (by simp [reads_string])
  have hrecord (h : HistoryRecord) : Reads (ofRecord h) :=
    reads_object (by simp [reads_string, hnat, reads_ofOption])
  have hsync (e : ChangeSync) : Reads (ofSync e) :=
    reads_object (by simp [reads_string, hnat, reads_ofOption])
  have hevent (e : ScriptEvent) : Reads (ofEvent e) :=
    reads_object (by simp [reads_string, hnat])
  have hedge (e : Edge) : Reads (ofEdge e) :=
    reads_object (by simp [reads_string])
  have hrow (row : Row) : Reads (ofRow row) :=
    reads_ofList (reads_ofOption reads_string) row
  refine reads_object ?_
  simp only [List.forall_mem_cons, List.not_mem_nil, false_implies, implies_true, and_true]
  exact ⟨reads_ofList reads_string _, reads_ofKeyed hobject _, reads_ofKeyed hrecord _,
    reads_ofList hsync _, reads_ofList hevent _, reads_ofList hedge _,
    reads_ofKeyed (reads_ofList hrow) _⟩

end Written

section Read

theorem fields?_object {ms : List (String × JsonValue)} {names : List String}
    (hnames : ms.map Prod.fst = names) (h : names.Nodup) :
    fields? names (object ms) = some (ms.map fun m => some m.2) := by
  subst hnames
  have honce : (ms.map Prod.fst).all (fun n => decide ((ms.filter fun m => m.1 == n).length ≤ 1)) =
      true := by
    rw [List.all_eq_true]
    intro n _
    have hcount : (ms.filter fun m => m.1 == n).length = (ms.map Prod.fst).count n := by
      rw [← List.countP_eq_length_filter, List.count, List.countP_map]
      rfl
    rw [decide_eq_true_iff, hcount]
    exact List.nodup_iff_count_le_one.1 h n
  rw [fields?, if_pos honce, List.map_map]
  refine congrArg some (List.map_congr_left fun m hm => ?_)
  exact (Keyed.lookup_eq_some_iff_mem h).2 hm

theorem nat?_ofNat {n : Nat} (h : n ≤ Text.maxVersion) : nat? (ofNat n) = some n := by
  have htext : (toString n).toList = Nat.toDigits 10 n := by simp
  have hdigit : ∀ c ∈ Nat.toDigits 10 n, c.isDigit = true := fun c hc =>
    Nat.isDigit_of_mem_toDigits (by decide) (by decide) hc
  have hle : Nat.ofDigitChars 10 (Nat.toDigits 10 n) 0 ≤ Text.maxVersion := by
    rwa [Nat.ofDigitChars_ten_toDigits]
  rw [ofNat, nat?, htext, if_pos (List.all_eq_true.2 hdigit), Text.readDigits_eq_ok hdigit hle,
    Nat.ofDigitChars_ten_toDigits]
  rfl

theorem time?_string {t : String} (h : IsStored t) : time? (string t) = some t :=
  Option.filter_some_pos h

theorem optional?_ofOption {α : Type} {f : α → JsonValue} {read : JsonValue → Option α}
    (hnull : ∀ a, f a ≠ null) {a : Option α} (h : ∀ b ∈ a, read (f b) = some b) :
    optional? read (some (ofOption f a)) = some a := by
  cases a with
  | none => rfl
  | some b =>
      have hb := h b rfl
      rw [ofOption]
      cases hf : f b with
      | null => exact absurd hf (hnull b)
      | _ =>
          rw [hf] at hb
          exact congrArg (Option.map some) hb

theorem mapM_map {α β : Type} {f : α → β} {read : β → Option α} {as : List α}
    (h : ∀ a ∈ as, read (f a) = some a) : (as.map f).mapM read = some as := by
  induction as with
  | nil => rfl
  | cons a as ih =>
      obtain ⟨ha, has⟩ := List.forall_mem_cons.1 h
      rw [List.map_cons, List.mapM_cons, ha, ih has]
      rfl

theorem list?_ofList {α : Type} {f : α → JsonValue} {read : JsonValue → Option α} {as : List α}
    (h : ∀ a ∈ as, read (f a) = some a) : list? read (ofList f as) = some as :=
  mapM_map h

theorem keyed?_ofKeyed {α : Type} {f : α → JsonValue} {read : JsonValue → Option α} {m : Keyed α}
    (h : ∀ a ∈ m.values, read (f a) = some a) : keyed? read (ofKeyed f m) = some m := by
  have hentries : (m.entries.map fun e => (e.1, f e.2)).mapM (fun e => (read e.2).map (e.1, ·)) =
      some m.entries := by
    refine mapM_map fun e he => ?_
    rw [h e.2 (List.mem_map_of_mem he)]
    rfl
  rw [ofKeyed, keyed?, hentries]
  exact congrArg some m.ofList_entries

theorem objectType?_directory (t : ObjectType) : objectType? (string t.directory) = some t := by
  cases t <;> rfl

theorem word?_status (status : SyncStatus) :
    word? SyncStatus.all SyncStatus.word (string status.word) = some status := by
  cases status <;> rfl

theorem object?_ofObject (o : LiveObject) : object? (ofObject o) = some o := by
  calc object? (ofObject o)
      = (objectType? (string o.objectType.directory)).bind fun objectType =>
          some ⟨o.schema, o.name, objectType, o.ddl⟩ := by
        rw [object?, ofObject, fields?_object]
        · rfl
        · rfl
        · decide
    _ = some o := by
        rw [objectType?_directory]
        rfl

theorem record?_ofRecord {h : HistoryRecord} (hsync : h.syncId ≤ Text.maxVersion)
    (htime : IsStored h.updatedAt) : record? (ofRecord h) = some h := by
  have hrollback : optional? text? (some (ofOption string h.rollback)) = some h.rollback :=
    optional?_ofOption (by simp) fun _ _ => rfl
  calc record? (ofRecord h)
      = (objectType? (string h.objectType.directory)).bind fun objectType =>
          (optional? text? (some (ofOption string h.rollback))).bind fun rollback =>
          (nat? (ofNat h.syncId)).bind fun sync =>
          (time? (string h.updatedAt)).bind fun time =>
          some ⟨h.scriptId, h.objectName, objectType, rollback, h.scriptHash, h.deployedHash, sync,
            time⟩ := by
        rw [record?, ofRecord, fields?_object]
        · rfl
        · rfl
        · decide
    _ = some h := by
        rw [objectType?_directory, hrollback, nat?_ofNat hsync, time?_string htime]
        rfl

theorem sync?_ofSync {e : ChangeSync} (hid : e.id ≤ Text.maxVersion)
    (hcount : ∀ n ∈ e.count, n ≤ Text.maxVersion) (hstart : IsStored e.startTime)
    (hend : ∀ t ∈ e.endTime, IsStored t) : sync? (ofSync e) = some e := by
  have hchange : word? ChangeType.all ChangeType.word (string e.changeType.word) =
      some e.changeType := by
    cases e.changeType <;> rfl
  have hcounted : optional? nat? (some (ofOption ofNat e.count)) = some e.count :=
    optional?_ofOption (by simp [ofNat]) fun n hn => nat?_ofNat (hcount n hn)
  have hended : optional? time? (some (ofOption string e.endTime)) = some e.endTime :=
    optional?_ofOption (by simp) fun t ht => time?_string (hend t ht)
  calc sync? (ofSync e)
      = (nat? (ofNat e.id)).bind fun id =>
          (word? ChangeType.all ChangeType.word (string e.changeType.word)).bind fun change =>
          (word? SyncStatus.all SyncStatus.word (string e.status.word)).bind fun status =>
          (optional? nat? (some (ofOption ofNat e.count))).bind fun count =>
          (time? (string e.startTime)).bind fun started =>
          (optional? time? (some (ofOption string e.endTime))).bind fun ended =>
          some ⟨id, change, status, e.message, count, started, ended⟩ := by
        rw [sync?, ofSync, fields?_object]
        · rfl
        · rfl
        · decide
    _ = some e := by
        rw [nat?_ofNat hid, hchange, word?_status, hcounted, time?_string hstart, hended]
        rfl

theorem event?_ofEvent {e : ScriptEvent} (hsync : e.syncId ≤ Text.maxVersion)
    (htime : IsStored e.createdAt) : event? (ofEvent e) = some e := by
  calc event? (ofEvent e)
      = (word? SyncStatus.all SyncStatus.word (string e.status.word)).bind fun status =>
          (nat? (ofNat e.syncId)).bind fun sync =>
          (time? (string e.createdAt)).bind fun time =>
          some ⟨e.id, e.scriptId, e.objectName, e.scriptHash, status, e.message, sync, time⟩ := by
        rw [event?, ofEvent, fields?_object]
        · rfl
        · rfl
        · decide
    _ = some e := by
        rw [word?_status, nat?_ofNat hsync, time?_string htime]
        rfl

theorem edge?_ofEdge (e : Edge) : edge? (ofEdge e) = some e := by
  calc edge? (ofEdge e)
      = (objectType? (string e.objectType.directory)).bind fun objectType =>
          (objectType? (string e.dependencyType.directory)).bind fun dependencyType =>
          some ⟨e.object, objectType, e.dependency, dependencyType⟩ := by
        rw [edge?, ofEdge, fields?_object]
        · rfl
        · rfl
        · decide
    _ = some e := by
        rw [objectType?_directory, objectType?_directory]
        rfl

theorem row?_ofRow (row : Row) : row? (ofRow row) = some row :=
  list?_ofList fun _ _ => optional?_ofOption (by simp) fun _ _ => rfl

theorem state?_ofState {s : RepositoryState} (h : Storable s) : state? (ofState s) = some s := by
  have hschemas : list? text? (ofList string s.schemas.keys) = some s.schemas.keys :=
    list?_ofList fun _ _ => rfl
  have hobjects : keyed? object? (ofKeyed ofObject s.objects) = some s.objects :=
    keyed?_ofKeyed fun o _ => object?_ofObject o
  have hhistory : keyed? record? (ofKeyed ofRecord s.history) = some s.history :=
    keyed?_ofKeyed fun r hr => record?_ofRecord (h.history r hr).1 (h.history r hr).2
  have hsyncs : list? sync? (ofList ofSync s.syncs) = some s.syncs := by
    refine list?_ofList fun e he => ?_
    obtain ⟨hid, hcount, hstart, hend⟩ := h.syncs e he
    exact sync?_ofSync hid hcount hstart hend
  have hevents : list? event? (ofList ofEvent s.events) = some s.events :=
    list?_ofList fun e he => event?_ofEvent (h.events e he).1 (h.events e he).2
  have hlineage : list? edge? (ofList ofEdge s.lineage) = some s.lineage :=
    list?_ofList fun e _ => edge?_ofEdge e
  have htables : keyed? (list? row?) (ofKeyed (ofList ofRow) s.configTables) =
      some s.configTables :=
    keyed?_ofKeyed fun rows _ => list?_ofList fun row _ => row?_ofRow row
  calc state? (ofState s)
      = (list? text? (ofList string s.schemas.keys)).bind fun schemas =>
          (keyed? object? (ofKeyed ofObject s.objects)).bind fun objects =>
          (keyed? record? (ofKeyed ofRecord s.history)).bind fun history =>
          (list? sync? (ofList ofSync s.syncs)).bind fun syncs =>
          (list? event? (ofList ofEvent s.events)).bind fun events =>
          (list? edge? (ofList ofEdge s.lineage)).bind fun lineage =>
          (keyed? (list? row?) (ofKeyed (ofList ofRow) s.configTables)).bind fun tables =>
          some ⟨Names.ofNames schemas, objects, history, syncs, events, lineage, tables⟩ := by
        rw [state?, ofState, fields?_object]
        · rfl
        · rfl
        · decide
    _ = some s := by
        rw [hschemas, hobjects, hhistory, hsyncs, hevents, hlineage, htables]
        simp only [Option.bind_some, Names.ofNames_keys]

end Read

theorem read?_write {s : RepositoryState} (h : Storable s) : read? (write s) = some s := by
  rw [read?, write, (reads_ofState s).parse?]
  exact state?_ofState h

end StateFile

end SchemaDeploy
