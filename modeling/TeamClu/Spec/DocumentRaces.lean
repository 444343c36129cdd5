import TeamClu.Native.SyncProcesses
import TeamClu.Spec.PullAccounting
import TeamClu.Spec.RecordedBytes

/-!
# Races for the sync state

When every operation saves over the state that it has loaded, the saved state is the one that the
operations give one after the other.  And when the file of a path is not edited between the work that
has recorded it and its release, the release deletes synced bytes only: an operation may rely on an
entry that another has recorded, which is carried along with the states (`WatchedTeam`).  Both are
`races_harmless`.  Neither is ensured: two releases may undo each other, and a release may delete an
edit (`races_lose`).
-/

namespace TeamClu.Sync

variable (crypto : Crypto)

/-! ## One operation after the other -/

/-- The work turns the state into another, on trees that may change in between. -/
def Executes : List Work → LocalSyncState → LocalSyncState → Prop
  | [], s, s' => s' = s
  | work :: rest, s, s' => ∃ tree, (work.run crypto { state := s, tree }).2 = true ∧
    Executes rest (work.run crypto { state := s, tree }).1.state s'

/-- The operations turn the state into another, one after the other. -/
def InOrder : List Operation → LocalSyncState → LocalSyncState → Prop
  | [], s, s' => s' = s
  | operation :: rest, s, s' => ∃ next, Executes crypto operation.works s next ∧ InOrder rest next s'

/-- Some order of the operations turns the state into the other. -/
def Sequential (operations : List Operation) (s s' : LocalSyncState) : Prop :=
  ∃ order, order.Perm operations ∧ InOrder crypto order s s'

/-! ## Releasing -/

/-- When the release of the path is next, the bytes that it deletes have the hash that was synced, and a
    deletion that fails leaves the entry of the path. -/
def ReleaseSafe (path : Str) (w : TeamWorld) (e : TeamEvent) : Prop :=
  ∀ id process removes todo, e = .work id → w.processes id = some process →
    process.todo = .release removes path :: todo →
    let d := releaseLocal removes { state := process.copy, tree := w.tree } [path]
    (∀ file, w.tree[path]? = some file → d.tree[path]? = none →
      ∃ entry, process.copy.files[path]? = some entry ∧
        crypto.sha256Hex file.bytes = entry.syncedPlainHash) ∧
    (w.tree[path]? = none ∨ removes path = false →
      d.state.files[path]? = process.copy.files[path]?)

/-! ## What is on record -/

/-- A team, with the bytes that a path was recorded for: in the saved state, and in the copy of each
    operation. -/
structure WatchedTeam where
  world : TeamWorld
  saved : Option Bytes
  copies : Nat → Option Bytes

open Classical in
/-- What is on record after a piece of work: what it has downloaded or uploaded, if it has recorded the path
    anew. -/
noncomputable def recordedAfter (path : Str) (work : Work) (d d' : Device) (before : Option Bytes) :
    Option Bytes :=
  if Kept path d.state d'.state then before
  else if work.WritesOnce path then work.measured path d.tree d'.tree
  else none

/-- One step: a copy is taken and saved with what is on record for it. -/
noncomputable def WatchedTeam.step (path : Str) (w : WatchedTeam) (e : TeamEvent) : WatchedTeam :=
  let world := w.world.step crypto e
  match e with
  | .start id _ =>
    if (w.world.processes id).isSome then { w with world }
    else { w with world, copies := Function.update w.copies id w.saved }
  | .work id =>
    match w.world.processes id with
    | none => { w with world }
    | some process =>
      match process.todo with
      | [] => { w with world }
      | work :: _ =>
        let d : Device := { state := process.copy, tree := w.world.tree }
        { w with world, copies := Function.update w.copies id
                          (recordedAfter path work d (work.run crypto d).1 (w.copies id)) }
  | .save id =>
    match w.world.processes id with
    | none => { w with world }
    | some process => if process.todo.isEmpty then { w with world, saved := w.copies id } else { w with world }
  | _ => { w with world }

/-- What is on record does not change what the team does. -/
theorem WatchedTeam.step_world (path : Str) (w : WatchedTeam) (e : TeamEvent) :
    (w.step crypto path e).world = w.world.step crypto e := by
  unfold WatchedTeam.step
  cases e with
  | start id operation =>
    dsimp only
    split <;> rfl
  | work id =>
    dsimp only
    split
    · rfl
    · split <;> rfl
  | save id =>
    dsimp only
    split
    · rfl
    · split <;> rfl
  | _ => rfl

open Classical in
/-- The runs of a team, with what is on record of a path: at first the file, if it has the hash that was
    synced. -/
noncomputable def watchMachine (path : Str) (saved : LocalSyncState) (tree : ContentTree) :
    Machine WatchedTeam TeamEvent where
  init :=
    { world := { saved, tree }
      saved := if Backs crypto path (bytesAt tree path) saved then bytesAt tree path else none
      copies := fun _ => none }
  step := WatchedTeam.step crypto path

/-! ## What the steps need -/

/-- An operation that saves finds the state that it has loaded. -/
def FindsLoaded (w : TeamWorld) : TeamEvent → Prop
  | .save id => ∀ process, w.processes id = some process → process.todo = [] →
    w.saved = process.loaded
  | _ => True

/-- When the path is released and its entry has neither flag, its file can be removed, and no edit has left
    other bytes in it since the entry was recorded. -/
def Unedited (path : Str) (w : WatchedTeam) : TeamEvent → Prop
  | .work id => ∀ process removes todo entry, w.world.processes id = some process →
    process.todo = .release removes path :: todo → isLazyPath path = true →
    process.copy.files[path]? = some entry → entry.dirty = false → entry.deletedLocal = false →
    removes path = true ∧ ∃ file, w.world.tree[path]? = some file ∧ w.copies id = some file.bytes
  | _ => True

/-! ## The order of the operations -/

section Runs

variable {crypto}

/-- More work. -/
theorem Executes.append {works : List Work} {work : Work} {s s' : LocalSyncState}
    (h : Executes crypto works s s') (tree : ContentTree)
    (hgoes : (work.run crypto { state := s', tree }).2 = true) :
    Executes crypto (works ++ [work]) s (work.run crypto { state := s', tree }).1.state := by
  induction works generalizing s with
  | nil =>
    obtain rfl : s' = s := h
    exact ⟨tree, hgoes, rfl⟩
  | cons first rest ih =>
    obtain ⟨tree', hgoes', hrest⟩ := h
    exact ⟨tree', hgoes', ih hrest⟩

/-- One more operation. -/
theorem InOrder.append {operations : List Operation} {operation : Operation}
    {s s' s'' : LocalSyncState} (h : InOrder crypto operations s s')
    (hlast : Executes crypto operation.works s' s'') :
    InOrder crypto (operations ++ [operation]) s s'' := by
  induction operations generalizing s with
  | nil =>
    obtain rfl : s' = s := h
    exact ⟨s'', hlast, rfl⟩
  | cons first rest ih =>
    obtain ⟨next, hfirst, hrest⟩ := h
    exact ⟨next, hfirst, ih hrest⟩

end Runs

/-- An operation that is under way has done the first part of its work on what it has loaded. -/
def Begun (process : Process) : Prop :=
  ∃ before, process.operation.works = before ++ process.todo ∧
    Executes crypto before process.loaded process.copy

/-- The saved state is that of the operations that have saved, in their order. -/
structure Ordered (s : LocalSyncState) (w : TeamWorld) : Prop where
  saved : InOrder crypto w.done s w.saved
  processes : ∀ id process, w.processes id = some process → Begun crypto process

section Steps

variable {crypto} {s : LocalSyncState} {w : TeamWorld}

/-- Other processes stay as they are. -/
private theorem begun_set {id : Nat} {process : Option Process}
    (h : ∀ i p, w.processes i = some p → Begun crypto p) (hnew : ∀ p ∈ process, Begun crypto p) :
    ∀ i p, (w.set id process).processes i = some p → Begun crypto p := by
  intro i p hp
  unfold TeamWorld.set at hp
  simp only at hp
  split at hp
  · exact hnew p hp
  · exact h i p hp

/-- The next piece of work of an operation. -/
private theorem begun_work {process : Process} {work : Work} {todo : List Work}
    (h : Begun crypto process) (htodo : process.todo = work :: todo) (tree : ContentTree)
    (hgoes : (work.run crypto { state := process.copy, tree }).2 = true) :
    Begun crypto { process with
      copy := (work.run crypto { state := process.copy, tree }).1.state, todo } := by
  obtain ⟨before, hworks, hexecutes⟩ := h
  refine ⟨before ++ [work], ?_, hexecutes.append tree hgoes⟩
  rw [hworks, htodo, List.append_assoc, List.singleton_append]

/-- A step keeps the order, if a save finds what was loaded. -/
theorem Ordered.step (h : Ordered crypto s w) (e : TeamEvent) (hfinds : FindsLoaded w e) :
    Ordered crypto s (w.step crypto e) := by
  cases e with
  | edit path file => exact ⟨h.saved, h.processes⟩
  | start id operation =>
    rw [TeamWorld.step]
    split
    · exact h
    · refine ⟨h.saved, begun_set h.processes ?_⟩
      rintro p ⟨⟩
      exact ⟨[], rfl, rfl⟩
  | work id =>
    rw [TeamWorld.step]
    split
    · exact h
    next process hprocess =>
    split
    · exact h
    next work todo htodo =>
    simp only
    split
    · next hgoes =>
      refine ⟨h.saved, begun_set h.processes ?_⟩
      rintro p ⟨⟩
      exact begun_work (h.processes id process hprocess) htodo w.tree hgoes
    · exact ⟨h.saved, begun_set h.processes fun _ hp => (by cases hp)⟩
  | save id =>
    rw [TeamWorld.step]
    split
    · exact h
    next process hprocess =>
    split
    · next htodo =>
      rw [List.isEmpty_iff] at htodo
      obtain ⟨before, hworks, hexecutes⟩ := h.processes id process hprocess
      -- what it has loaded is what was saved last
      rw [htodo, List.append_nil] at hworks
      rw [← hfinds process hprocess htodo, ← hworks] at hexecutes
      exact ⟨h.saved.append hexecutes, begun_set h.processes fun _ hp => (by cases hp)⟩
    · exact h
  | crash => exact ⟨h.saved, fun _ _ hp => (by cases hp)⟩

end Steps

/-! ## The bytes on record -/

/-- What is on record has the hash of the entry. -/
structure OnRecord (path : Str) (w : WatchedTeam) : Prop where
  saved : w.saved ≠ none → Backs crypto path w.saved w.world.saved
  copies : ∀ id process, w.world.processes id = some process → w.copies id ≠ none →
    Backs crypto path (w.copies id) process.copy

section Watch

variable {crypto} {path : Str} {w : WatchedTeam}

/-- A piece of work puts on record what it has recorded. -/
theorem recordedAfter_backs (work : Work) (d : Device) {before : Option Bytes}
    (h : before ≠ none → Backs crypto path before d.state)
    (hsome : recordedAfter path work d (work.run crypto d).1 before ≠ none) :
    Backs crypto path (recordedAfter path work d (work.run crypto d).1 before)
      (work.run crypto d).1.state := by
  unfold recordedAfter at hsome ⊢
  split at hsome
  · next hkept =>
    rw [if_pos hkept]
    exact fun hash hhash => h hsome hash (hkept hash hhash)
  · next hnew =>
    rw [if_neg hnew]
    split at hsome
    · next honce =>
      rw [if_pos honce]
      exact (work.records honce).resolve_left hnew
    · exact absurd rfl hsome

/-- An operation goes on with another copy or ends, and what is on record for its copy changes with it. -/
private theorem OnRecord.set (h : OnRecord crypto path w) (id : Nat) {process : Option Process}
    {bytes : Option Bytes}
    (hnew : ∀ p, process = some p → bytes ≠ none → Backs crypto path bytes p.copy) (i : Nat) (p : Process)
    (hp : (w.world.set id process).processes i = some p) (hsome : Function.update w.copies id bytes i ≠ none) :
    Backs crypto path (Function.update w.copies id bytes i) p.copy := by
  simp only [TeamWorld.set] at hp
  split at hp
  · next hi =>
    rw [hi, Function.update_self] at hsome ⊢
    exact hnew p hp hsome
  · next hi =>
    rw [Function.update_of_ne hi] at hsome ⊢
    exact h.copies i p hp hsome

/-- Every step keeps the record right, whatever is edited meanwhile. -/
theorem OnRecord.step (h : OnRecord crypto path w) (e : TeamEvent) :
    OnRecord crypto path (w.step crypto path e) := by
  cases e with
  | edit q file => exact ⟨h.saved, h.copies⟩
  | crash => exact ⟨h.saved, fun _ _ hp => (by cases hp)⟩
  | start id operation =>
    simp only [WatchedTeam.step, TeamWorld.step]
    cases hfree : (w.world.processes id).isSome with
    | true => exact h
    | false =>
      simp only [Bool.false_eq_true, if_false, Bool.false_or]
      split
      · -- the lock is taken, and nothing starts
        refine ⟨h.saved, fun i process hprocess => ?_⟩
        have hi : i ≠ id := by
          rintro rfl
          rw [hprocess] at hfree
          cases hfree
        dsimp only
        rw [Function.update_of_ne hi]
        exact h.copies i process hprocess
      · -- the new copy is the saved state
        refine ⟨h.saved, h.set id fun p hp => ?_⟩
        obtain rfl := Option.some.inj hp
        exact h.saved
  | work id =>
    simp only [WatchedTeam.step, TeamWorld.step]
    cases hprocess : w.world.processes id with
    | none => exact h
    | some process =>
      dsimp only
      cases htodo : process.todo with
      | nil => exact h
      | cons work todo =>
        dsimp only
        have hwork := @recordedAfter_backs crypto _ work
          { state := process.copy, tree := w.world.tree } _ (h.copies id process hprocess)
        split
        · refine ⟨h.saved, h.set id fun p hp => ?_⟩
          obtain rfl := Option.some.inj hp
          exact hwork
        · exact ⟨h.saved, h.set id fun p hp => (by cases hp)⟩
  | save id =>
    simp only [WatchedTeam.step, TeamWorld.step]
    cases hprocess : w.world.processes id with
    | none => exact h
    | some process =>
      dsimp only
      split
      · refine ⟨h.copies id process hprocess, fun i process' hprocess' => ?_⟩
        simp only [TeamWorld.finish, TeamWorld.set] at hprocess'
        split at hprocess'
        · cases hprocess'
        · exact h.copies i process' hprocess'
      · exact h

/-- The release of a path whose file was not edited since it was recorded is safe. -/
theorem OnRecord.releaseSafe (h : OnRecord crypto path w) {e : TeamEvent} (hunedited : Unedited path w e) :
    ReleaseSafe crypto path w.world e := by
  rintro id process removes todo rfl hprocess htodo
  simp only [releaseLocal, List.foldl_cons, List.foldl_nil]
  split
  · next hlazy =>
    cases hrelease : process.copy.releaseLocal path with
    | none =>
      -- the guard refuses
      exact ⟨fun file hfile hgone => absurd (hfile.symm.trans hgone) (by simp), fun _ => rfl⟩
    | some st =>
      unfold LocalSyncState.releaseLocal at hrelease
      split at hrelease
      · cases hrelease
      next entry hentry =>
      split at hrelease
      · cases hrelease
      next hclean =>
      simp only [Bool.or_eq_true, not_or, Bool.not_eq_true] at hclean
      obtain ⟨hremoves, file', hfile', hrecord⟩ :=
        hunedited process removes todo entry hprocess htodo hlazy hentry hclean.1 hclean.2
      refine ⟨fun file hfile _ => ⟨entry, hentry, ?_⟩, fun hfails => ?_⟩
      · -- the bytes are those on record, and those have the hash of the entry
        obtain rfl := Option.some.inj (hfile'.symm.trans hfile)
        have hbacks := h.copies id process hprocess (by rw [hrecord]; simp)
        rw [hrecord] at hbacks
        exact Option.some.inj (hbacks entry.syncedPlainHash (by simp [syncedHash, hentry, hclean.2]))
      · rw [hfile', hremoves] at hfails
        rcases hfails with hfails | hfails <;> cases hfails
  · exact ⟨fun file hfile hgone => absurd (hfile.symm.trans hgone) (by simp), fun _ => rfl⟩

end Watch

/-- In every run in which each save finds the state that the operation has loaded, each saved state is that of
    the operations that have saved, one after the other.  And in every run in which a path is only released
    when its file was not edited since it was recorded, and can be removed, each of its releases is safe. -/
theorem races_harmless (saved : LocalSyncState) (tree : ContentTree) (events : List TeamEvent) :
    ((teamMachine crypto saved tree).Steps FindsLoaded (teamMachine crypto saved tree).init events →
      ∀ before after, events = before ++ after →
        Sequential crypto ((teamMachine crypto saved tree).run before).done saved
          ((teamMachine crypto saved tree).run before).saved) ∧
      ∀ path, (watchMachine crypto path saved tree).Steps (Unedited path)
          (watchMachine crypto path saved tree).init events →
        (teamMachine crypto saved tree).Steps (ReleaseSafe crypto path)
          (teamMachine crypto saved tree).init events := by
  constructor
  · rintro h before after rfl
    have hbefore := ((teamMachine crypto saved tree).steps_append _ _ before after).mp h
    have hordered : Ordered crypto saved ((teamMachine crypto saved tree).run before) :=
      Machine.invariant_runFrom (fun w e hw hu => hw.step e hu)
        ⟨rfl, fun _ _ hp => (by cases hp)⟩ hbefore.1
    exact ⟨_, List.Perm.refl _, hordered.saved⟩
  · intro path h
    have hinit : OnRecord crypto path (watchMachine crypto path saved tree).init := by
      refine ⟨fun hsome => ?_, fun _ _ hp => (by cases hp)⟩
      simp only [watchMachine] at hsome ⊢
      split at hsome
      · next hbacks =>
        rw [if_pos hbacks]
        exact hbacks
      · exact absurd rfl hsome
    refine Machine.Steps.map (f := WatchedTeam.world) (fun w e => ?_)
      (Machine.Steps.of_invariant (fun w e hw _ => hw.step e) (fun w e hw hu => hw.releaseSafe hu) hinit h)
    exact WatchedTeam.step_world crypto path w e

/-! ## Two documents -/

/-- A document and its entry: it is `a`, or it is `b`. -/
def docPath (a : Bool) : Str := if a then "documents/a.md".toList else "documents/b.md".toList

/-- The content of the document. -/
def docFile (a : Bool) : DiskFile := { bytes := if a then [97] else [98], mtime := 7 }

/-- The entry of the document, which is synced. -/
def docEntry (a : Bool) : FileState :=
  let hash := sampleCrypto.sha256Hex (docFile a).bytes
  { syncedVersion := 1, syncedCipherHash := hash, syncedPlainHash := hash, localPlainHash := hash
    mtime := 7, size := 1, dirty := false, deletedLocal := false }

/-- Both documents are synced. -/
def docsState : LocalSyncState :=
  { files := Std.ExtTreeMap.ofList [(docPath true, docEntry true), (docPath false, docEntry false)] }

/-- Both documents are on disk. -/
def docsTree : ContentTree :=
  Std.ExtTreeMap.ofList [(docPath true, docFile true), (docPath false, docFile false)]

/-- The release of one of them. -/
def releaseDoc (a : Bool) : Operation := .release (fun _ => true) [docPath a]

/-- Both are released at once. -/
def twoReleases : List TeamEvent :=
  [.start 0 (releaseDoc true), .start 1 (releaseDoc false), .work 0, .work 1, .save 0, .save 1]

/-- Document `a` is listed but not here. -/
def listedState : LocalSyncState :=
  { files := Std.ExtTreeMap.ofList [(docPath false, docEntry false)]
    known := Std.ExtTreeMap.ofList [(docPath true,
      ({ version := 1, cipherHash := (docEntry true).syncedCipherHash, size := 1 } : KnownFile))] }

/-- Document `b` is on disk. -/
def otherTree : ContentTree := Std.ExtTreeMap.ofList [(docPath false, docFile false)]

/-- The download of `a` is signed, and the file is written at second 7. -/
def docArrives : ChunkReply :=
  { batch := .ok [.ok { blob := .ok (docFile true).bytes, write := .written 7 }]
    single := fun _ => .error .batchUnsupported }

/-- Document `a` is fetched. -/
def fetchDoc : Operation := .fetch 9 (fun _ => docArrives) [docPath true]

/-- It is fetched and later released; meanwhile the user removes the other document. -/
def fetchAndRelease : List TeamEvent :=
  [.start 0 fetchDoc, .work 0, .save 0, .edit (docPath false) none, .start 1 (releaseDoc true), .work 1,
    .save 1]

private theorem listed_contains : listedState.known.contains (docPath true) = true := by decide

/-- The fetch records the document, and its bytes are then on disk. -/
private theorem fetchDoc_records :
    let d := fetchKnown sampleCrypto 9 (fun _ => docArrives)
      { state := listedState, tree := otherTree } [docPath true]
    syncedHash listedState (docPath true) = none ∧
      (syncedHash d.state (docPath true)).isSome ∧
      bytesAt d.tree (docPath true) = some (docFile true).bytes := by
  decide +kernel

theorem races_harmless_fetchAndRelease :
    (∀ before after, fetchAndRelease = before ++ after →
      Sequential sampleCrypto ((teamMachine sampleCrypto listedState otherTree).run before).done listedState
        ((teamMachine sampleCrypto listedState otherTree).run before).saved) ∧
      (teamMachine sampleCrypto listedState otherTree).Steps (ReleaseSafe sampleCrypto (docPath true))
        (teamMachine sampleCrypto listedState otherTree).init fetchAndRelease := by
  obtain ⟨hordered, hsafe⟩ := races_harmless sampleCrypto listedState otherTree fetchAndRelease
  refine ⟨hordered ⟨trivial, trivial, ?_, trivial, trivial, trivial, ?_, trivial⟩,
    hsafe (docPath true) ⟨trivial, ?_, trivial, trivial, trivial, ?_, trivial, trivial⟩⟩
  -- each save finds what was loaded
  · intro process hprocess _
    simp [teamMachine, TeamWorld.step, TeamWorld.set, fetchDoc, Operation.works, Operation.locks,
      listed_contains, Work.run] at hprocess ⊢
    rw [← hprocess]
  · intro process hprocess _
    simp [teamMachine, TeamWorld.step, TeamWorld.set, TeamWorld.finish, fetchDoc, Operation.works,
      Operation.locks, listed_contains, releaseDoc, Work.run] at hprocess ⊢
    rw [← hprocess]
  -- the first piece of work is no release
  · intro process removes todo entry hprocess htodo
    simp [watchMachine, WatchedTeam.step, TeamWorld.step, TeamWorld.set, fetchDoc, Operation.works,
      Operation.locks] at hprocess
    rw [← hprocess] at htodo
    simp at htodo
  -- the second one is, of what the first has recorded
  · intro process removes todo entry hprocess htodo _ _ _ _
    obtain ⟨hnone, hsome, hbytes⟩ := fetchDoc_records
    simp [watchMachine, WatchedTeam.step, TeamWorld.step, TeamWorld.set, TeamWorld.finish, fetchDoc,
      Operation.works, Operation.locks, listed_contains, releaseDoc, Work.run] at hprocess ⊢
    rw [← hprocess] at htodo
    simp at htodo
    obtain ⟨rfl, -⟩ := htodo
    generalize fetchKnown sampleCrypto 9 (fun _ => docArrives)
      { state := listedState, tree := otherTree } [docPath true] = d at hsome hbytes ⊢
    have hnew : ¬ Kept (docPath true) listedState d.state := by
      obtain ⟨hash, hhash⟩ := Option.isSome_iff_exists.mp hsome
      intro hkept
      rw [hkept hash hhash] at hnone
      cases hnone
    have honce : (Work.fetch 9 (fun _ => docArrives) [docPath true]).WritesOnce (docPath true) :=
      .inr (List.pairwise_singleton _ _)
    obtain ⟨file, hfile, hfileBytes⟩ := Option.map_eq_some_iff.mp hbytes
    refine ⟨rfl, file, ?_, ?_⟩
    · -- the other document is another file
      rw [editFile, TreeMap.get_erase, if_neg (by decide), hfile]
    · rw [recordedAfter, if_neg hnew, if_pos honce, hfileBytes]
      exact hbytes

/-- What the release of a path makes of the state. -/
private theorem release_state (s : LocalSyncState) (tree : ContentTree) (a : Bool) :
    (Work.run sampleCrypto { state := s, tree } (.release (fun _ => true) (docPath a))).1.state =
      (s.releaseLocal (docPath a)).getD s := by
  have hlazy : isLazyPath (docPath a) = true := by cases a <;> decide
  simp only [Work.run, releaseLocal, List.foldl_cons, List.foldl_nil, hlazy, if_true]
  split
  · next hnone => rw [hnone, Option.getD_none]
  · next st hsome => rw [hsome, Option.getD_some]

private theorem executes_releaseDoc {a : Bool} {s s' : LocalSyncState}
    (h : Executes sampleCrypto (releaseDoc a).works s s') :
    s' = (s.releaseLocal (docPath a)).getD s := by
  obtain ⟨tree, -, rfl⟩ := h
  exact release_state s tree a

/-- Two releases of different documents undo each other: the document that one of them has given back is
    tracked again. -/
private theorem release_undone :
    ¬ Sequential sampleCrypto ((teamMachine sampleCrypto docsState docsTree).run twoReleases).done docsState
      ((teamMachine sampleCrypto docsState docsTree).run twoReleases).saved := by
  rintro ⟨order, hperm, horder⟩
  have hperm : order.Perm [releaseDoc true, releaseDoc false] := hperm
  -- the second one saves the entry that the first one has given up
  have hkept : ∀ s, InOrder sampleCrypto order docsState s → s.files[docPath true]? = none := by
    intro s hs
    have hmem : ∀ x ∈ order, ∃ a, x = releaseDoc a := by
      intro x hx
      rcases List.mem_pair.mp (hperm.mem_iff.mp hx) with rfl | rfl
      · exact ⟨true, rfl⟩
      · exact ⟨false, rfl⟩
    have hlen := hperm.length_eq
    match order, hlen with
    | [x, y], _ =>
      obtain ⟨a, rfl⟩ := hmem x (by simp)
      obtain ⟨b, rfl⟩ := hmem y (by simp)
      obtain ⟨s₁, hfirst, s₂, hsecond, rfl⟩ := hs
      rw [executes_releaseDoc hsecond, executes_releaseDoc hfirst]
      cases a <;> cases b
      · -- the other document twice is no order of the two
        have hboth := hperm.mem_iff.mpr List.mem_cons_self
        simp only [List.mem_cons, List.not_mem_nil, or_false, or_self] at hboth
        injection hboth with _ hpaths
        exact absurd hpaths (by decide)
      all_goals decide
  have hgone := hkept _ horder
  have hback : ((teamMachine sampleCrypto docsState docsTree).run twoReleases).saved.files[
      docPath true]?.isSome = true := by decide
  rw [hgone] at hback
  cases hback

/-- The user writes to a synced document, and it is released before a tick has seen that. -/
def editedRelease : List TeamEvent :=
  [.edit (docPath true) (some { bytes := [99], mtime := 9 }), .start 0 (releaseDoc true), .work 0]

/-- What the user has written is deleted, though it was never uploaded. -/
private theorem edit_deleted :
    ¬ (teamMachine sampleCrypto docsState docsTree).Steps (ReleaseSafe sampleCrypto (docPath true))
      (teamMachine sampleCrypto docsState docsTree).init editedRelease := by
  rintro ⟨-, -, hrelease, -⟩
  obtain ⟨hdeleted, -⟩ := hrelease 0 _ _ _ rfl rfl rfl
  obtain ⟨entry, hentry, hhash⟩ := hdeleted { bytes := [99], mtime := 9 } (by decide) (by decide)
  have hdoc : docsState.files[docPath true]? = some (docEntry true) := by decide
  obtain rfl := Option.some.inj (hdoc.symm.trans hentry)
  exact absurd hhash (by decide)

/-- Neither half holds: two releases undo each other, and a release deletes an edit. -/
theorem races_lose :
    (¬ ∀ (saved : LocalSyncState) (tree : ContentTree) (events : List TeamEvent),
      Sequential sampleCrypto ((teamMachine sampleCrypto saved tree).run events).done saved
        ((teamMachine sampleCrypto saved tree).run events).saved) ∧
      ¬ ∀ (saved : LocalSyncState) (tree : ContentTree) (events : List TeamEvent) (path : Str),
        (teamMachine sampleCrypto saved tree).Steps (ReleaseSafe sampleCrypto path)
          (teamMachine sampleCrypto saved tree).init events :=
  ⟨fun h => release_undone (h docsState docsTree twoReleases),
    fun h => edit_deleted (h docsState docsTree editedRelease (docPath true))⟩

end TeamClu.Sync
