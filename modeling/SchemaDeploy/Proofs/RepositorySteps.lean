import SchemaDeploy.Change.Release
import SchemaDeploy.Proofs.KeyedLookup
import Mathlib.Data.List.Induction
import Mathlib.Data.List.Nodup

namespace SchemaDeploy

namespace Repository

/-- Whether the statement of a script is rejected. Recording hashes alone runs no statement. -/
def rejects (r : Repository) (s : Script) (onlyHashes : Bool) : Bool :=
  !onlyHashes && r.fails s

def completed (r : Repository) (s : Script) (onlyHashes : Bool) : Repository :=
  let ran := if onlyHashes then r else (r.execute s.id s.content).applyToLive s
  (ran.updateHistory s).recordEvent s .success "Successfully deployed object"

def completedAll (r : Repository) (ss : List Script) (onlyHashes : Bool) : Repository :=
  ss.foldl (fun r s => r.completed s onlyHashes) r

/-- No record of the script with this id stands under another key. -/
def FilesUnder (r : Repository) (id : String) : Prop :=
  ∀ key h, r.state.history.get? key = some h → h.scriptId = id → key = id

theorem deploy_of_rejects {r : Repository} {s : Script} {b : Bool} (h : r.rejects s b = true) :
    r.deploy s b =
      (r.reject s s.content, .error (.executionFailed s.id (rejection s.content))) := by
  rw [deploy]
  exact if_pos h

theorem deploy_of_not_rejects {r : Repository} {s : Script} {b : Bool}
    (h : r.rejects s b = false) : r.deploy s b = (r.completed s b, .ok ()) := by
  rw [deploy]
  exact if_neg (Bool.not_eq_true _ ▸ h)

section Completed

variable (r : Repository) (s : Script) (b : Bool)

@[simp]
theorem completed_failing : (r.completed s b).failing = r.failing := by
  cases b <;> rfl

@[simp]
theorem completed_database : (r.completed s b).database = r.database := by
  cases b <;> rfl

@[simp]
theorem completed_currentSync : (r.completed s b).currentSync = r.currentSync := by
  cases b <;> rfl

@[simp]
theorem completed_syncs : (r.completed s b).state.syncs = r.state.syncs := by
  cases b <;> rfl

@[simp]
theorem completed_record : (r.completed s b).record = r.record := by
  cases b <;> rfl

theorem completed_history :
    (r.completed s b).state.history = r.state.history.insert s.id (r.record s) := by
  cases b <;> rfl

theorem completed_events : ∃ e, (r.completed s b).state.events = r.state.events ++ [e] ∧
    (e.scriptId, e.status) = (s.id, .success) := by
  cases b <;> exact ⟨_, rfl, rfl⟩

theorem completed_executions :
    (r.completed s false).executions = r.executions ++ [⟨s.id, s.content⟩] :=
  rfl

theorem completed_objects :
    (r.completed s false).state.objects = applied r.state.objects s :=
  rfl

@[simp]
theorem completed_rejects (t : Script) : (r.completed s b).rejects t b = r.rejects t b := by
  cases b <;> rfl

end Completed

section CompletedAll

variable (r : Repository) (ss : List Script) (b : Bool)

theorem completedAll_cons (s : Script) :
    r.completedAll (s :: ss) b = (r.completed s b).completedAll ss b :=
  rfl

theorem completedAll_concat (s : Script) :
    r.completedAll (ss ++ [s]) b = (r.completedAll ss b).completed s b := by
  simp only [completedAll, List.foldl_append, List.foldl_cons, List.foldl_nil]

@[simp]
theorem completedAll_failing : (r.completedAll ss b).failing = r.failing := by
  induction ss generalizing r with
  | nil => rfl
  | cons s ss ih => rw [completedAll_cons, ih, completed_failing]

@[simp]
theorem completedAll_database : (r.completedAll ss b).database = r.database := by
  induction ss generalizing r with
  | nil => rfl
  | cons s ss ih => rw [completedAll_cons, ih, completed_database]

@[simp]
theorem completedAll_record : (r.completedAll ss b).record = r.record := by
  induction ss generalizing r with
  | nil => rfl
  | cons s ss ih => rw [completedAll_cons, ih, completed_record]

@[simp]
theorem completedAll_rejects (t : Script) : (r.completedAll ss b).rejects t b = r.rejects t b := by
  induction ss generalizing r with
  | nil => rfl
  | cons s ss ih => rw [completedAll_cons, ih, completed_rejects]

theorem completedAll_history : (r.completedAll ss b).state.history =
    (ss.map fun s => (s.id, r.record s)).foldl (fun m e => m.insert e.1 e.2) r.state.history := by
  induction ss generalizing r with
  | nil => rfl
  | cons s ss ih =>
      rw [completedAll_cons, ih, completed_history, completed_record]
      rfl

theorem completedAll_executions : (r.completedAll ss false).executions =
    r.executions ++ ss.map fun s => ⟨s.id, s.content⟩ := by
  induction ss generalizing r with
  | nil => exact (List.append_nil _).symm
  | cons s ss ih =>
      rw [completedAll_cons, ih, completed_executions, List.append_assoc]
      rfl

theorem completedAll_objects :
    (r.completedAll ss false).state.objects = ss.foldl applied r.state.objects := by
  induction ss generalizing r with
  | nil => rfl
  | cons s ss ih =>
      rw [completedAll_cons, ih, completed_objects]
      rfl

theorem completedAll_events : ∃ es, (r.completedAll ss b).state.events = r.state.events ++ es ∧
    es.map (fun e => (e.scriptId, e.status)) = ss.map fun s => (s.id, .success) := by
  induction ss generalizing r with
  | nil => exact ⟨[], (List.append_nil _).symm, rfl⟩
  | cons s ss ih =>
      obtain ⟨e, he, hm⟩ := completed_events r s b
      obtain ⟨es, hes, hms⟩ := ih (r.completed s b)
      refine ⟨e :: es, ?_, ?_⟩
      · rw [completedAll_cons, hes, he, List.append_assoc, List.singleton_append]
      · rw [List.map_cons, List.map_cons, hm, hms]

end CompletedAll

theorem get?_history_of_mem {ss : List Script} (hn : (ss.map Script.id).Nodup) {s : Script}
    (hs : s ∈ ss) (r : Repository) (b : Bool) :
    (r.completedAll ss b).state.history.get? s.id = some (r.record s) := by
  rw [completedAll_history]
  refine Keyed.get?_foldl_insert_of_mem ?_ ?_ _
  · exact List.mem_map_of_mem (f := fun s => (s.id, r.record s)) hs
  · intro e he hid
    obtain ⟨t, ht, rfl⟩ := List.mem_map.1 he
    rw [List.inj_on_of_nodup_map hn ht hs hid]

theorem exists_get?_history_of_mem {ss : List Script} {id : String} (h : id ∈ ss.map Script.id)
    (r : Repository) (b : Bool) : ∃ s ∈ ss, s.id = id ∧
      (r.completedAll ss b).state.history.get? id = some (r.record s) := by
  induction ss using List.reverseRecOn with
  | nil => cases h
  | append_singleton ss s ih =>
      rw [completedAll_concat, completed_history, completedAll_record, Keyed.get?_insert]
      by_cases hid : id = s.id
      · exact ⟨s, by simp, hid.symm, if_pos hid⟩
      · have hmem : id ∈ ss.map Script.id := by simpa [hid] using h
        obtain ⟨t, ht, hts, hget⟩ := ih hmem
        exact ⟨t, List.mem_append_left _ ht, hts, (if_neg hid).trans hget⟩

theorem get?_history_of_not_mem {ss : List Script} {id : String} (h : id ∉ ss.map Script.id)
    (r : Repository) (b : Bool) :
    (r.completedAll ss b).state.history.get? id = r.state.history.get? id := by
  rw [completedAll_history]
  refine Keyed.get?_foldl_insert_of_not_mem ?_ _
  rwa [List.map_map]

theorem filesUnder_new (clock database id : String) : (new clock database).FilesUnder id := by
  intro key record hget
  rw [new, RepositoryState.empty, Keyed.get?_empty] at hget
  cases hget

theorem FilesUnder.completed {r : Repository} {id : String} (h : r.FilesUnder id) (s : Script)
    (b : Bool) : (r.completed s b).FilesUnder id := by
  intro key record hget hid
  rw [completed_history, Keyed.get?_insert] at hget
  split at hget
  · next hkey =>
    cases hget
    exact hkey.trans hid
  · exact h key record hget hid

theorem FilesUnder.deploy {r : Repository} {id : String} (h : r.FilesUnder id) (s : Script)
    (b : Bool) : (r.deploy s b).1.FilesUnder id := by
  cases hr : r.rejects s b with
  | true =>
      rw [deploy_of_rejects hr]
      exact h
  | false =>
      rw [deploy_of_not_rejects hr]
      exact h.completed s b

/-- A record that does not stand under the id of its script, as a state file may have it. -/
def misfiled (id : String) : Repository :=
  let record : HistoryRecord := ⟨id, id, .view, none, "old", "old", 1, "2024-01-01T00:00:00Z"⟩
  let r := new "2024-01-01T00:00:00Z" "DB"
  { r with state := { r.state with history := Keyed.empty.insert "Z" record } }

/-- The history of `r'` is that of `r`, but for a new record of each of some scripts. -/
structure Records (r r' : Repository) (done : List Script) : Prop where
  of_mem : ∀ s ∈ done, ∃ h, r'.state.history.get? s.id = some h ∧ h.scriptId = s.id ∧
    h.scriptHash = s.hash
  of_not_mem : ∀ id, id ∉ done.map Script.id →
    r'.state.history.get? id = r.state.history.get? id

theorem Records.congr {r r' q q' : Repository} {done : List Script} (h : r.Records r' done)
    (hq : q.state.history = r.state.history) (hq' : q'.state.history = r'.state.history) :
    q.Records q' done :=
  ⟨fun s hs => hq' ▸ h.of_mem s hs, fun id hid => hq ▸ hq' ▸ h.of_not_mem id hid⟩

theorem FilesUnder.of_records {r r' : Repository} {id : String} {done : List Script}
    (h : r.FilesUnder id) (hr : r.Records r' done) : r'.FilesUnder id := by
  intro key record hget hid
  by_cases hkey : key ∈ done.map Script.id
  · obtain ⟨s, hs, rfl⟩ := List.mem_map.1 hkey
    obtain ⟨record', hget', hscript, -⟩ := hr.of_mem s hs
    rw [hget'] at hget
    cases hget
    exact hscript.symm.trans hid
  · rw [hr.of_not_mem key hkey] at hget
    exact h key record hget hid

theorem FilesUnder.get?_hashes_eq_some_iff {r : Repository} {id x : String} (h : r.FilesUnder id) :
    r.loadHashes.hashes.get? id = some x ↔
      ∃ record, r.state.history.get? id = some record ∧ record.scriptId = id ∧
        record.scriptHash = x := by
  let loaded := r.state.history.values.map fun h => (h.scriptId, h.scriptHash)
  have hloaded (y : String) : (id, y) ∈ loaded ↔ ∃ record,
      r.state.history.get? id = some record ∧ record.scriptId = id ∧ record.scriptHash = y := by
    simp only [loaded, List.mem_map, Keyed.mem_values_iff, Prod.mk.injEq]
    constructor
    · rintro ⟨record, ⟨key, hget⟩, hid, hy⟩
      cases h key record hget hid
      exact ⟨record, hget, hid, hy⟩
    · rintro ⟨record, hget, hid, hy⟩
      exact ⟨record, ⟨id, hget⟩, hid, hy⟩
  have hsame (y : String) (hy : (id, y) ∈ loaded) : ∀ e ∈ loaded, e.1 = id → e.2 = y := by
    rintro ⟨_, z⟩ hz rfl
    obtain ⟨record, hget, -, rfl⟩ := (hloaded y).1 hy
    obtain ⟨record', hget', -, rfl⟩ := (hloaded z).1 hz
    rw [hget] at hget'
    cases hget'
    rfl
  change (Keyed.ofList loaded).get? id = some x ↔ _
  rw [← hloaded, Keyed.ofList]
  constructor
  · intro hx
    by_cases hid : id ∈ loaded.map (·.1)
    · obtain ⟨⟨_, y⟩, hy, rfl⟩ := List.mem_map.1 hid
      rw [Keyed.get?_foldl_insert_of_mem hy (hsame y hy)] at hx
      cases hx
      exact hy
    · rw [Keyed.get?_foldl_insert_of_not_mem hid, Keyed.get?_empty] at hx
      cases hx
  · intro hx
    exact Keyed.get?_foldl_insert_of_mem hx (hsame x hx) _

theorem lookup_reverse_map {α : Type} (f g : α → String) (l : List α) (k : String) :
    (l.map fun a => (f a, g a)).reverse.lookup k =
      ((l.filter fun a => f a = k).getLast?).map g := by
  induction l using List.reverseRecOn with
  | nil => rfl
  | append_singleton l a ih =>
      rw [List.map_append, List.map_singleton, List.reverse_concat, Keyed.lookup_cons_eq_ite, ih,
        List.filter_append]
      by_cases hk : k = f a
      · subst hk
        simp
      · have hk' : ¬ f a = k := Ne.symm hk
        simp [hk, hk']

theorem get?_hashes (r : Repository) (id : String) : r.loadHashes.hashes.get? id =
    ((r.state.history.entries.filter fun e => e.2.scriptId = id).getLast?).map (·.2.scriptHash) := by
  change (Keyed.ofList (r.state.history.values.map fun h => (h.scriptId, h.scriptHash))).get? id = _
  rw [Keyed.ofList, Keyed.get?_foldl_insert, Keyed.get?_empty, Option.or_none, Keyed.values,
    List.map_map]
  exact lookup_reverse_map (fun e => e.2.scriptId) (fun e => e.2.scriptHash)
    r.state.history.entries id

theorem get?_hashes_congr {r r' : Repository} {id : String} (h : ∀ key record,
    record.scriptId = id →
      (r.state.history.get? key = some record ↔ r'.state.history.get? key = some record)) :
    r.loadHashes.hashes.get? id = r'.loadHashes.hashes.get? id := by
  have he := Keyed.filter_entries_congr (p := fun record : HistoryRecord => record.scriptId = id)
    fun key record hid => h key record (by simpa using hid)
  rw [get?_hashes, get?_hashes, he]

theorem mem_keys_hashes {r : Repository} {id : String} : id ∈ r.loadHashes.hashes.keys ↔
    ∃ key record, r.state.history.get? key = some record ∧ record.scriptId = id := by
  rw [Keyed.mem_keys_iff, get?_hashes]
  simp only [Option.map_eq_some_iff]
  constructor
  · rintro ⟨x, ⟨key, record⟩, hlast, -⟩
    have hmem := List.mem_filter.1 (List.mem_of_getLast? hlast)
    exact ⟨key, record, (Keyed.get?_eq_some_iff _).2 hmem.1, by simpa using hmem.2⟩
  · rintro ⟨key, record, hget, hid⟩
    have hmem : (key, record) ∈ r.state.history.entries.filter fun e => e.2.scriptId = id :=
      List.mem_filter.2 ⟨(Keyed.get?_eq_some_iff _).1 hget, by simpa using hid⟩
    exact ⟨_, _, List.getLast?_eq_some_getLast (List.ne_nil_of_mem hmem), rfl⟩

section Reloaded

variable {r r' : Repository} {done : List Script} {s : Script}

theorem Records.isChanged_of_mem (hr : r.Records r' done) (hf : r.FilesUnder s.id)
    (hs : s ∈ done) : r'.loadHashes.isChanged s = false := by
  rw [isChanged, (hf.of_records hr).get?_hashes_eq_some_iff.2 (hr.of_mem s hs)]
  exact bne_self_eq_false _

theorem Records.get?_hashes_of_not_mem (hr : r.Records r' done) (hf : r.FilesUnder s.id)
    (hs : s.id ∉ done.map Script.id) :
    r'.loadHashes.hashes.get? s.id = r.loadHashes.hashes.get? s.id := by
  ext x
  rw [(hf.of_records hr).get?_hashes_eq_some_iff, hf.get?_hashes_eq_some_iff,
    hr.of_not_mem s.id hs]

theorem Records.isChanged_of_not_mem (hr : r.Records r' done) (hf : r.FilesUnder s.id)
    (hs : s.id ∉ done.map Script.id) :
    r'.loadHashes.isChanged s = r.loadHashes.isChanged s := by
  rw [isChanged, isChanged, hr.get?_hashes_of_not_mem hf hs]

theorem Records.isDeployed_of_not_mem (hr : r.Records r' done) (hf : r.FilesUnder s.id)
    (hs : s.id ∉ done.map Script.id) :
    r'.loadHashes.isDeployed s = r.loadHashes.isDeployed s := by
  rw [isDeployed, isDeployed, Keyed.contains_eq_isSome, Keyed.contains_eq_isSome,
    hr.get?_hashes_of_not_mem hf hs]

end Reloaded

/-- The same repository with another log of operations. -/
def withSyncs (r : Repository) (syncs : List ChangeSync) : Repository :=
  { r with state := { r.state with syncs := syncs } }

@[simp]
theorem withSyncs_history (r : Repository) (syncs : List ChangeSync) :
    (r.withSyncs syncs).state.history = r.state.history :=
  rfl

@[simp]
theorem withSyncs_objects (r : Repository) (syncs : List ChangeSync) :
    (r.withSyncs syncs).state.objects = r.state.objects :=
  rfl

end Repository

def KeepsLog {α : Type} (run : Operation α) : Prop :=
  ∀ r, (run r).1.currentSync = r.currentSync ∧ (run r).1.state.syncs = r.state.syncs

theorem bracketed_eq {α : Type} {run : Operation α} (hk : KeepsLog run) (change : ChangeType)
    (count : α → Nat) (r : Repository) :
    let ran := run (r.startSync change (change.word ++ " started."))
    ∃ syncs, bracketed change count run r =
      ({ ran.1 with state := { ran.1.state with syncs := syncs } }, ran.2) := by
  intro ran
  obtain ⟨hc, hs⟩ := hk (r.startSync change (change.word ++ " started."))
  have hend (status : SyncStatus) (message : String) (n : Option Nat) :
      ∃ syncs, ran.1.endSync change status message n =
        ({ ran.1 with state := { ran.1.state with syncs := syncs } }, .ok ()) := by
    have hany : ran.1.state.syncs.any (·.id == r.state.syncs.length + 1) = true := by
      rw [hs]
      simp [Repository.startSync]
    have hcurrent : ran.1.currentSync = some (r.state.syncs.length + 1) := hc
    simp only [Repository.endSync, hcurrent, if_pos hany]
    exact ⟨_, rfl⟩
  have hran : run (r.startSync change (change.word ++ " started.")) = ran := rfl
  rw [bracketed, hran]
  rcases hres : ran with ⟨r', e | a⟩
  · obtain ⟨syncs, he⟩ := hend .error e.message none
    rw [hres] at he
    simp only [he]
    exact ⟨syncs, rfl⟩
  · obtain ⟨syncs, he⟩ := hend .success ("Successfully completed " ++ change.word) (some (count a))
    rw [hres] at he
    simp only [he]
    exact ⟨syncs, rfl⟩

end SchemaDeploy
