import SchemaDeploy.Project.Basic
import SchemaDeploy.Proofs.SavedStates
import SchemaDeploy.Proofs.ShiftedRuns
import SchemaDeploy.Proofs.WrittenTrees

namespace SchemaDeploy

namespace Repository

def withHashes (hashes : Keyed String) (r : Repository) : Repository :=
  { r with hashes := hashes }

def remembering (hashes : Keyed String) (sync : Option Nat) (r : Repository) : Repository :=
  { r with hashes := hashes, currentSync := sync }

def bare (r : Repository) : Repository :=
  ⟨r.database, r.state, .empty, none, .empty, r.testResults, [], none, ""⟩

variable (hashes : Keyed String) (r : Repository)

theorem endSync_withHashes (change : ChangeType) (status : SyncStatus) (message : String)
    (count : Option Nat) : (r.withHashes hashes).endSync change status message count =
      ((r.endSync change status message count).1.withHashes hashes,
        (r.endSync change status message count).2) := by
  have hcurrent : (r.withHashes hashes).currentSync = r.currentSync := rfl
  have hstate : (r.withHashes hashes).state = r.state := rfl
  simp only [endSync, hcurrent, hstate]
  cases r.currentSync with
  | none => rfl
  | some id =>
      dsimp only
      split <;> rfl

theorem runTest_withHashes (t : TestScript) (query : String) :
    (r.withHashes hashes).runTest t query =
      ((r.runTest t query).1.withHashes hashes, (r.runTest t query).2) := by
  have hfails : (r.withHashes hashes).fails t.subject = r.fails t.subject := rfl
  simp only [runTest, hfails]
  split <;> rfl

end Repository

namespace Turn

variable (t : Turn) (r : Repository)

theorem run_remembering (hashes : Keyed String) (sync : Option Nat) :
    (t.run (r.remembering hashes sync)).state = (t.run r).state ∧
      t.answer (r.remembering hashes sync) = t.answer r := by
  have hbracket {α : Type} {run : Operation α}
      (hrun : Commutes (Repository.withHashes hashes) run) (change : ChangeType) (count : α → Nat) :
      bracketed change count run (t.start (r.remembering hashes sync)) =
        ((bracketed change count run (t.start r)).1.withHashes hashes,
          (bracketed change count run (t.start r)).2) :=
    hrun.bracketed (fun _ _ _ => rfl) (Repository.endSync_withHashes hashes) change count (t.start r)
  rw [run, run, answer, answer]
  cases t.action with
  | plan => exact ⟨rfl, rfl⟩
  | deploy b => exact ⟨rfl, rfl⟩
  | rollback => exact ⟨rfl, rfl⟩
  | verify => exact ⟨rfl, rfl⟩
  | test companions =>
      dsimp only [Release.test]
      rw [hbracket (t.release.commutes_runTests (Repository.runTest_withHashes hashes) companions)]
      exact ⟨rfl, rfl⟩
  | createLineage =>
      dsimp only [Release.createLineage]
      rw [hbracket (t.release.commutes_recordEdges fun _ _ => rfl)]
      exact ⟨rfl, rfl⟩
  | createScripts source targets tree =>
      have hexported : t.release.exported targets (t.start (r.remembering hashes sync)) =
          t.release.exported targets (t.start r) := rfl
      dsimp only [Release.createScripts]
      rw [hexported, hbracket fun _ => rfl]
      exact ⟨rfl, rfl⟩
  | cleanup =>
      have hnames : (t.start (r.remembering hashes sync)).liveNames = (t.start r).liveNames := rfl
      dsimp only [Release.cleanup]
      rw [hnames, hbracket (t.release.commutes_findUnsourced fun _ => rfl)]
      exact ⟨rfl, rfl⟩

theorem run_bare : (t.run r).state = (t.run r.bare).state ∧ t.answer r = t.answer r.bare := by
  let v : Shift := ⟨id, r.executions, r.statePath⟩
  let q := r.bare.remembering r.hashes r.currentSync
  have hstart : t.start r = t.start (q.shifted v) := by
    simp only [start, q, v, Repository.shifted, Repository.remembering, Repository.bare,
      RepositoryState.retimed_id, List.append_nil]
  have hrun : t.run r = t.run (q.shifted v) := by
    rw [run, run, hstart]
  have hanswer : t.answer r = t.answer (q.shifted v) := by
    rw [answer, answer, hstart]
  obtain ⟨hshifted, hshifted'⟩ := run_shifted v t q
  obtain ⟨hstate, hstate'⟩ := t.run_remembering r.bare r.hashes r.currentSync
  constructor
  · calc (t.run r).state = ((t.run q).shifted v).state := congrArg _ (hrun.trans hshifted)
      _ = (t.run q).state := RepositoryState.retimed_id _
      _ = (t.run r.bare).state := hstate
  · exact (hanswer.trans hshifted').trans hstate'

theorem setUp_run : (t.run r).database = r.database ∧ (t.run r).testResults = r.testResults ∧
    (t.run r).statePath = r.statePath := by
  have hsteady : Repository.Steady fun q q' => q'.database = q.database ∧
      q'.testResults = q.testResults ∧ q'.statePath = q.statePath :=
    { refl := fun _ => ⟨rfl, rfl, rfl⟩
      trans := fun h h' => ⟨h'.1.trans h.1, h'.2.1.trans h.2.1, h'.2.2.trans h.2.2⟩
      recordEvent := fun _ _ _ _ => ⟨rfl, rfl, rfl⟩
      updateHistory := fun _ _ => ⟨rfl, rfl, rfl⟩
      forget := fun _ _ => ⟨rfl, rfl, rfl⟩
      execute := fun _ _ _ => ⟨rfl, rfl, rfl⟩
      applyToLive := fun _ _ => ⟨rfl, rfl, rfl⟩
      dropLive := fun _ _ => ⟨rfl, rfl, rfl⟩
      loadHashes := fun _ => ⟨rfl, rfl, rfl⟩ }
  exact steady_run hsteady (fun _ _ _ => ⟨rfl, rfl, rfl⟩) (fun _ _ => ⟨rfl, rfl, rfl⟩)
    (fun _ _ _ => ⟨rfl, rfl, rfl⟩) r

end Turn

/-- The repository that is opened from a state. -/
def Repository.opened (clock database path : String) (s : RepositoryState) : Repository :=
  { Repository.new clock database with state := s, statePath := some path }

/-- A state is what opens from a path, and the path can be written. -/
structure FileTree.Keeps (tree : FileTree) (path : String) (s : RepositoryState) : Prop where
  opens : ∀ clock database,
    Repository.openFile tree clock database path = .ok (.opened clock database path s)
  notDirectory : tree.isDirectory path = false
  below : tree.isDirectory (splitPath path).1 = true

namespace FileTree

theorem keeps_of_openFile {tree : FileTree} {clock database path : String} {r : Repository}
    (hopen : Repository.openFile tree clock database path = .ok r)
    (hpath : tree.isDirectory path = false) (hbelow : tree.isDirectory (splitPath path).1 = true) :
    tree.Keeps path r.state ∧ r = .opened clock database path r.state := by
  rw [Repository.openFile] at hopen
  split at hopen
  · next hfile =>
    split at hopen
    · cases hopen
    · next s hs =>
      cases hopen
      refine ⟨⟨fun clock database => ?_, hpath, hbelow⟩, rfl⟩
      simp only [Repository.openFile, hfile, if_true, hs]
      rfl
  · next hfile =>
    cases hopen
    refine ⟨⟨fun clock database => ?_, hpath, hbelow⟩, rfl⟩
    simp only [Repository.openFile, hfile]
    rfl

theorem exists_write? {tree : FileTree} {path : String} (hpath : tree.isDirectory path = false)
    (hbelow : tree.isDirectory (splitPath path).1 = true) (bytes : ByteArray) :
    ∃ tree', tree.write? path bytes = some tree' ∧ tree'.find? path = some (.file bytes) ∧
      tree'.isDirectory (splitPath path).1 = true := by
  have hno {d : String} (hd : tree.isDirectory d = true) : pathParts d ≠ pathParts path := by
    intro heq
    rw [isDirectory_iff, heq, ← isDirectory_iff, hpath] at hd
    cases hd
  have hparts : pathParts path ≠ [] := by
    intro hnil
    exact hno (d := "") (isDirectory_iff.2 (.inl rfl)) hnil.symm
  refine ⟨tree.put (pathParts path) (.file bytes), ?_, ?_, ?_⟩
  · rw [write?, hpath, hbelow]
    rfl
  · rw [find?_of_ne_nil hparts, lookup_put, if_pos rfl]
  · rw [isDirectory_iff, lookup_put, if_neg (hno hbelow), ← isDirectory_iff]
    exact hbelow

theorem text?_of_find? {tree : FileTree} {path text : String}
    (h : tree.find? path = some (.file text.toUTF8)) : tree.text? path = some text := by
  rw [text?, bytes?, h]
  exact fromUTF8?_toUTF8 text

theorem Keeps.save {tree : FileTree} {path : String} {s : RepositoryState}
    (h : tree.Keeps path s) {r : Repository} (hr : r.statePath = some path)
    (hread : StateFile.read? (StateFile.write r.state) = some r.state) :
    ∃ tree', r.save tree = (tree', .ok ()) ∧ tree'.Keeps path r.state := by
  obtain ⟨tree', hwrite, hfind, hbelow⟩ :=
    exists_write? h.notDirectory h.below (StateFile.write r.state).toUTF8
  refine ⟨tree', ?_, ⟨fun clock database => ?_, ?_, hbelow⟩⟩
  · rw [Repository.save, hr]
    dsimp only
    rw [hwrite]
  · have hfile : tree'.isFile path = true := by rw [isFile, hfind]
    rw [Repository.openFile, hfile, text?_of_find? hfind, Option.bind_some, hread]
    rfl
  · rw [isDirectory, hfind]

end FileTree

namespace Turn

/-- An operation in a process of its own: it opens the state file, and writes it again also if it
fails. A plan need not write it. -/
def process (keepPlans : Bool) (database path : String) (t : Turn) (tree : FileTree) :
    FileTree × Except SyncError Answer :=
  match Repository.openFile tree t.clock database path with
  | .error e => (tree, .error e)
  | .ok r =>
    if t.action.change?.isNone && !keepPlans then (tree, .ok (t.answer r))
    else
      match (t.run r).save tree with
      | (tree, .ok ()) => (tree, .ok (t.answer r))
      | (tree, .error e) => (tree, .error e)

def processAll (keepPlans : Bool) (database path : String) :
    List Turn → FileTree → FileTree × List (Except SyncError Answer)
  | [], tree => (tree, [])
  | t :: ts, tree =>
    match t.process keepPlans database path tree with
    | (tree, result) =>
      match processAll keepPlans database path ts tree with
      | (tree, results) => (tree, result :: results)

/-- What the operations of one repository that is not saved in between answer. -/
def answers : List Turn → Repository → List Answer
  | [], _ => []
  | t :: ts, r => t.answer r :: answers ts (t.run r)

variable {tree : FileTree} {path database : String} {r : Repository} {ts ts' : List Turn}

theorem process_spec (keepPlans : Bool) (t : Turn) (h : tree.Keeps path r.state)
    (hdatabase : r.database = upperText database) (htests : r.testResults = .empty)
    (hread : StateFile.read? (StateFile.write (t.run r).state) = some (t.run r).state) :
    ∃ tree', t.process keepPlans database path tree = (tree', .ok (t.answer r)) ∧
      tree'.Keeps path (t.run r).state := by
  let q := Repository.opened t.clock database path r.state
  have hbare : q.bare = r.bare := by
    rw [Repository.bare, Repository.bare, hdatabase, htests]
    rfl
  have hstate : (t.run q).state = (t.run r).state := by
    rw [(run_bare t q).1, hbare, ← (run_bare t r).1]
  have hanswer : t.answer q = t.answer r := by
    rw [(run_bare t q).2, hbare, ← (run_bare t r).2]
  rw [process, h.opens]
  dsimp only
  split
  · next hplan =>
    have hnone : t.action.change? = none := by simpa using And.left (by simpa using hplan)
    refine ⟨tree, by rw [← hanswer], ?_⟩
    rw [(run_of_change?_eq_none hnone r).1]
    exact h
  · obtain ⟨tree', hsave, hkeeps⟩ := h.save (r := t.run q) (setUp_run t q).2.2 (hstate ▸ hread)
    refine ⟨tree', ?_, hstate ▸ hkeeps⟩
    rw [show Repository.opened t.clock database path r.state = q from rfl, hsave, hanswer]

theorem processAll_spec (keepPlans : Bool) (h : tree.Keeps path r.state)
    (hdatabase : r.database = upperText database) (htests : r.testResults = .empty)
    (hread : ∀ past, past <+: ts → StateFile.read? (StateFile.write (runAll past r).state) =
      some (runAll past r).state) :
    (processAll keepPlans database path ts tree).2 = (answers ts r).map .ok ∧
      (processAll keepPlans database path ts tree).1.Keeps path (runAll ts r).state := by
  induction ts generalizing tree r with
  | nil => exact ⟨rfl, h⟩
  | cons t ts ih =>
      obtain ⟨tree', hprocess, hkeeps⟩ :=
        process_spec keepPlans t h hdatabase htests (hread [t] (by simp))
      obtain ⟨hdatabase', htests', -⟩ := setUp_run t r
      obtain ⟨hanswers, hkeeps'⟩ := ih (r := t.run r) hkeeps (hdatabase'.trans hdatabase)
        (htests'.trans htests) fun past hpast => hread (t :: past) (List.prefix_cons_inj t |>.2 hpast)
      simp only [processAll, hprocess]
      refine ⟨?_, hkeeps'⟩
      rw [hanswers]
      rfl

theorem runAll_shifted (v : Shift) (ts : List Turn) (r : Repository) :
    runAll (ts.map (retimed v.time)) (r.shifted v) = (runAll ts r).shifted v ∧
      answers (ts.map (retimed v.time)) (r.shifted v) = answers ts r := by
  induction ts generalizing r with
  | nil => exact ⟨rfl, rfl⟩
  | cons t ts ih =>
      obtain ⟨hrun, hanswer⟩ := run_shifted v t r
      obtain ⟨hruns, hanswers⟩ := ih (t.run r)
      constructor
      · rw [List.map_cons, runAll, List.foldl_cons, hrun]
        exact hruns
      · rw [List.map_cons, answers, answers, hrun, hanswer, hanswers]

/-- Assume that a state reads back as it was written. Then operations that are run in processes of
their own, from one state file on, answer what they answer on a single repository that was opened
from that file and is never saved, at whatever times they are run there; and the state file holds the
state of that repository in the end, but for the times. -/
theorem restart_transparent {clock : String} (keepPlans : Bool)
    (hopen : Repository.openFile tree clock database path = .ok r)
    (hpath : tree.isDirectory path = false) (hbelow : tree.isDirectory (splitPath path).1 = true)
    (htimes : ts.map (retimed fun _ => "") = ts'.map (retimed fun _ => ""))
    (hread : ∀ past, past <+: ts → StateFile.read? (StateFile.write (runAll past r).state) =
      some (runAll past r).state) :
    (processAll keepPlans database path ts tree).2 = (answers ts' r).map .ok ∧
      ∃ q, Repository.openFile (processAll keepPlans database path ts tree).1 clock database path =
          .ok q ∧
        q.state.retimed (fun _ => "") = (runAll ts' r).state.retimed (fun _ => "") ∧
        (ts = ts' → q.state = (runAll ts' r).state) := by
  obtain ⟨hkeeps, hr⟩ := FileTree.keeps_of_openFile hopen hpath hbelow
  have hdatabase : r.database = upperText database := by rw [hr]; rfl
  have htests : r.testResults = .empty := by rw [hr]; rfl
  obtain ⟨hanswers, hkept⟩ := processAll_spec keepPlans hkeeps hdatabase htests hread
  let v : Shift := ⟨fun _ => "", [], none⟩
  obtain ⟨hruns, hsame⟩ := runAll_shifted v ts r
  obtain ⟨hruns', hsame'⟩ := runAll_shifted v ts' r
  have htimes' : ts.map (retimed v.time) = ts'.map (retimed v.time) := htimes
  refine ⟨?_, _, hkept.opens clock database, ?_, ?_⟩
  · rw [hanswers, ← hsame, htimes', hsame']
  · have hstates := hruns.symm.trans (htimes' ▸ hruns')
    exact congrArg Repository.state hstates
  · rintro rfl
    rfl

theorem restart_transparent_of_refused_tableB :
    let r := Repository.opened "2024-01-01T00:00:00Z" "DB" "state.json" .empty
    let ts := [deployOf tableA, deployOf tableB]
    let ts' := ts.map (retimed fun _ => "2024-02-02T00:00:00Z")
    Repository.openFile .empty "2024-01-01T00:00:00Z" "DB" "state.json" = .ok r ∧
      FileTree.empty.isDirectory "state.json" = false ∧
      FileTree.empty.isDirectory (splitPath "state.json").1 = true ∧
      ts.map (retimed fun _ => "") = ts'.map (retimed fun _ => "") ∧
      (∀ past, past <+: ts → StateFile.read? (StateFile.write (runAll past r).state) =
        some (runAll past r).state) ∧
      (processAll false "DB" "state.json" ts .empty).2 = (answers ts' r).map .ok ∧
      ∃ q, Repository.openFile (processAll false "DB" "state.json" ts .empty).1
          "2024-01-01T00:00:00Z" "DB" "state.json" = .ok q ∧
        q.state.retimed (fun _ => "") = (runAll ts' r).state.retimed fun _ => "" := by
  intro r ts ts'
  have hopen : Repository.openFile .empty "2024-01-01T00:00:00Z" "DB" "state.json" = .ok r := by
    decide +kernel
  have hpath : FileTree.empty.isDirectory "state.json" = false := by decide +kernel
  have hbelow : FileTree.empty.isDirectory (splitPath "state.json").1 = true := by decide +kernel
  have hstorable : ∀ past ∈ [deployOf tableA, deployOf tableB].inits,
      StateFile.Storable (runAll past r).state := by
    rw [tableA_eq, tableB_eq]
    decide +kernel
  have hread (past : List Turn) (hpast : past <+: ts) :=
    StateFile.read?_write (hstorable past ((List.mem_inits past ts).2 hpast))
  have htimes : ts.map (retimed fun _ => "") = ts'.map (retimed fun _ => "") := rfl
  obtain ⟨hanswers, q, hq, hstate, -⟩ :=
    restart_transparent false hopen hpath hbelow htimes hread
  exact ⟨hopen, hpath, hbelow, htimes, hread, hanswers, q, hq, hstate⟩

end Turn

end SchemaDeploy
