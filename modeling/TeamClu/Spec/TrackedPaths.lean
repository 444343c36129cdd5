import TeamClu.Native.SyncEngine
import TeamClu.Spec.PathValidatorsAgree
import TeamClu.Spec.PullTransfers
import TeamClu.Spec.ScanFacts

/-!
# Where the tracked files are

Every path that the engine keeps in its state is one that the walk of the scanner comes to, unless a
rule ignores it: it is below a sync prefix and not in a conflicts directory (`Placed`).  The rows of
the manifest are validated, retries come from the state, and uploads from the scan.
-/

namespace TeamClu.Sync

/-- A path that the walk comes to unless a rule ignores it. -/
def Walkable (p : Str) : Prop := isAllowed p = true ∧ isUnderConflictsDir p = false

/-- The walk comes to the walkable paths that are not ignored. -/
theorem Walkable.walks_iff {p : Str} (h : Walkable p) (rules : IgnoreRules) :
    walks rules p = true ↔ rules.isIgnoredWithAncestors p = false := by
  rw [Sync.walks_iff]
  exact ⟨fun hw => hw.2.2, fun hignored => ⟨h.1, h.2, hignored⟩⟩

/-- Every path that the state names is walkable. -/
structure Placed (st : LocalSyncState) : Prop where
  files : ∀ p ∈ st.files, Walkable p
  quarantined : ∀ p ∈ st.quarantined, Walkable p
  known : ∀ p ∈ st.known, Walkable p

theorem placed_empty : Placed {} where
  files _ hp := absurd hp Std.ExtTreeMap.not_mem_empty
  quarantined _ hp := absurd hp Std.ExtTreeMap.not_mem_empty
  known _ hp := absurd hp Std.ExtTreeMap.not_mem_empty

/-! ## Operations -/

namespace Placed

variable {st st' : LocalSyncState} {path : Str}

/-- A state that names fewer paths. -/
theorem mono (h : Placed st) (hfiles : ∀ p ∈ st'.files, p ∈ st.files)
    (hquarantined : ∀ p ∈ st'.quarantined, p ∈ st.quarantined)
    (hknown : ∀ p ∈ st'.known, p ∈ st.known) : Placed st' where
  files p hp := h.files p (hfiles p hp)
  quarantined p hp := h.quarantined p (hquarantined p hp)
  known p hp := h.known p (hknown p hp)

/-- Inserting an entry at a walkable path. -/
private theorem walkable_of_mem_insert {β : Type} {m : Std.ExtTreeMap Str β} {v : β}
    (hpath : Walkable path) (hm : ∀ p ∈ m, Walkable p) : ∀ p ∈ m.insert path v, Walkable p := by
  intro p hp
  rcases Std.ExtTreeMap.mem_insert.mp hp with heq | hp
  · rwa [← Std.LawfulEqCmp.compare_eq_iff_eq.mp heq]
  · exact hm p hp

theorem upsert (h : Placed st) (hpath : Walkable path) (version : Nat)
    (cipherHash plainHash localHash : Str) (mtime size : Nat) :
    Placed (st.upsert path version cipherHash plainHash localHash mtime size) where
  files := walkable_of_mem_insert hpath h.files
  quarantined p hp := h.quarantined p (Std.ExtTreeMap.mem_of_mem_erase hp)
  known := h.known

theorem quarantine (h : Placed st) (hpath : Walkable path) (cipherHash : Str) (version : Nat)
    (reason : Str) : Placed (st.quarantine path cipherHash version reason) where
  files := h.files
  quarantined := walkable_of_mem_insert hpath h.quarantined
  known := h.known

theorem noteKnown (h : Placed st) (hpath : Walkable path) (version : Nat) (cipherHash : Str)
    (size : Nat) : Placed (st.noteKnown path version cipherHash size) := by
  unfold LocalSyncState.noteKnown
  split
  · exact h
  · exact { h with known := walkable_of_mem_insert hpath h.known }

theorem markForbidden (h : Placed st) (reason : Str) (now : Nat) :
    Placed (st.markForbidden path reason now) :=
  h.mono (fun _ hp => Std.ExtTreeMap.mem_modify.mp hp)
    (fun _ hp => Std.ExtTreeMap.mem_of_mem_erase hp) fun _ hp => hp

theorem markTombstoned (h : Placed st) (version : Nat) :
    Placed (st.markTombstoned path version) :=
  h.mono (fun _ hp => Std.ExtTreeMap.mem_modify.mp hp)
    (fun _ hp => Std.ExtTreeMap.mem_of_mem_erase hp) fun _ hp => hp

theorem advanceDirtyToTombstone (h : Placed st) (version : Nat) :
    Placed (st.advanceDirtyToTombstone path version) :=
  h.mono (fun _ hp => Std.ExtTreeMap.mem_modify.mp hp) (fun _ hp => hp) fun _ hp => hp

theorem clearKnown (h : Placed st) : Placed (st.clearKnown path) :=
  h.mono (fun _ hp => hp) (fun _ hp => hp) fun _ hp => Std.ExtTreeMap.mem_of_mem_erase hp

theorem released (h : Placed st) (hrelease : st.releaseLocal path = some st') : Placed st' := by
  unfold LocalSyncState.releaseLocal at hrelease
  split at hrelease
  · cases hrelease
  · rename_i entry hentry
    split at hrelease
    · cases hrelease
    · cases hrelease
      have hmem : path ∈ st.files :=
        Std.ExtTreeMap.mem_iff_isSome_getElem?.mpr (by rw [hentry]; rfl)
      exact {
        files := fun p hp => h.files p (Std.ExtTreeMap.mem_of_mem_erase hp)
        quarantined := h.quarantined
        known := walkable_of_mem_insert (h.files path hmem) h.known }

/-- Applying a scan adds no file. -/
private theorem mem_of_mem_modifyAll {f : ScannedFile → FileState → FileState}
    {scan : List ScannedFile} {files : Std.ExtTreeMap Str FileState} {p : Str}
    (h : p ∈ scan.foldl (fun files s => files.modify s.relPath (f s)) files) : p ∈ files := by
  revert h
  exact Fold.foldl_inv (P := fun m : Std.ExtTreeMap Str FileState => p ∈ m → p ∈ files)
    (fun m s _ ih hp => ih (Std.ExtTreeMap.mem_modify.mp hp)) id

theorem refreshed (h : Placed st) (scan : List ScannedFile) : Placed (refreshDirty st scan) :=
  h.mono (fun _ hp => mem_of_mem_modifyAll hp) (fun _ hp => hp) fun _ hp => hp

theorem scanApplied (h : Placed st) (scan : List ScannedFile) : Placed (applyScan st scan) :=
  h.mono (fun _ hp => mem_of_mem_modifyAll hp) (fun _ hp => hp) fun _ hp => hp

private theorem mem_of_mem_eraseAll {β : Type} {paths : List Str} {m : Std.ExtTreeMap Str β}
    {p : Str} (h : p ∈ paths.foldl (·.erase ·) m) : p ∈ m := by
  revert h
  exact Fold.foldl_inv (P := fun m' : Std.ExtTreeMap Str β => p ∈ m' → p ∈ m)
    (fun m' _ _ ih hp => ih (Std.ExtTreeMap.mem_of_mem_erase hp)) id

theorem forgotten (h : Placed st) (rules : IgnoreRules) : Placed (forgetUnpullable st rules) :=
  h.mono (fun _ hp => hp) (fun _ hp => mem_of_mem_eraseAll hp) fun _ hp => mem_of_mem_eraseAll hp

theorem recordPushError (h : Placed st) (path : Str) (e : SyncError) :
    Placed (recordPushError st path e) := by
  unfold Sync.recordPushError
  split
  · exact h
  · exact h.mono (fun _ hp => hp) (fun _ hp => hp) fun _ hp => hp

end Placed

/-! ## The pull half -/

/-- A row that is not skipped and raises no error has a walkable path. -/
theorem walkable_of_row {env : PullEnv} {item : ManifestItem}
    (hskip : skippedByPull item.path env.rules = false) (hrow : rowError env item = none) :
    Walkable item.path := by
  simp only [skippedByPull, Bool.or_eq_false_iff] at hskip
  obtain ⟨⟨hretired, hunder⟩, -⟩ := hskip
  refine ⟨?_, hunder⟩
  have hok : validate item.path = .ok := by
    unfold rowError at hrow
    split at hrow
    · cases hrow
    · cases hrow
    · assumption
  obtain ⟨-, -, hallowed | hretired'⟩ := (validate_ok_iff item.path).mp hok
  · exact hallowed
  · rw [hretired] at hretired'
    cases hretired'

private theorem applyRemoteTombstone_placed {d : Device} (h : Placed d.state) (path : Str)
    (version : Nat) (removes : Str → Bool) :
    Placed (applyRemoteTombstone d path version removes).state := by
  have hdone : ∀ d' : Device, Placed d'.state → Placed
      (LocalSyncState.clearKnown { d'.state with quarantined := d'.state.quarantined.erase path }
        path) := fun d' hd' =>
    hd'.mono (fun _ hp => hp) (fun _ hp => Std.ExtTreeMap.mem_of_mem_erase hp)
      fun _ hp => Std.ExtTreeMap.mem_of_mem_erase hp
  unfold applyRemoteTombstone
  refine hdone _ ?_
  split
  · exact h
  · split
    · exact h.markTombstoned version
    · split
      · exact h.advanceDirtyToTombstone version
      · exact h

private theorem offerFile_placed {d : Device} {item : ManifestItem} (h : Placed d.state)
    (hpath : Walkable item.path) (hash : Str) (reply : SidecarReply) :
    Placed (offerFile d item hash reply).1.state ∧
      ∀ wanted, (offerFile d item hash reply).2 = some wanted → wanted.path = item.path := by
  unfold offerFile
  cases d.state.files[item.path]? with
  | none =>
    dsimp only
    split
    · exact ⟨h.noteKnown hpath _ _ _, fun _ hnone => (by cases hnone)⟩
    · exact ⟨h.clearKnown, fun _ hsome => (by cases hsome; rfl)⟩
  | some ls =>
    dsimp only
    split
    · exact ⟨h, fun _ hnone => (by cases hnone)⟩
    · exact ⟨h.clearKnown, fun _ hsome => (by cases hsome; rfl)⟩

private theorem applyRow_placed {env : PullEnv} {d : Device} {item : ManifestItem}
    (h : Placed d.state) (hpath : Walkable item.path) :
    Placed (applyRow env d item).1.state ∧
      ∀ wanted, (applyRow env d item).2 = some wanted → wanted.path = item.path := by
  have hclear : Placed (d.state.clearForbidden item.path) :=
    h.mono (fun _ hp => hp) (fun _ hp => hp) fun _ hp => hp
  unfold applyRow
  dsimp only
  split
  · exact ⟨applyRemoteTombstone_placed (d := { d with state := _ }) hclear _ _ _,
      fun _ hnone => (by cases hnone)⟩
  · split
    · exact ⟨hclear, fun _ hnone => (by cases hnone)⟩
    · exact offerFile_placed (d := { d with state := _ }) hclear hpath _ _

/-- The loop over the manifest: what it downloads is walkable too. -/
theorem manifestLoop_placed {env : PullEnv} {d : Device} {items : List ManifestItem}
    (h : Placed d.state) :
    Placed (manifestLoop env d items).1.state ∧
      ∀ wanted ∈ (manifestLoop env d items).2.1, Walkable wanted.path := by
  induction items generalizing d with
  | nil => exact ⟨h, fun _ hmem => absurd hmem List.not_mem_nil⟩
  | cons item rest ih =>
    unfold manifestLoop
    by_cases hskip : skippedByPull item.path env.rules = true
    · rw [if_pos hskip]
      exact ih h
    · rw [if_neg hskip]
      cases hrow : rowError env item with
      | some e => exact ⟨h, fun _ hmem => absurd hmem List.not_mem_nil⟩
      | none =>
        have hpath := walkable_of_row (Bool.eq_false_iff.mpr hskip) hrow
        obtain ⟨hplaced, hwanted⟩ := @applyRow_placed env d item h hpath
        obtain ⟨hloop, hpulls⟩ := ih hplaced
        refine ⟨hloop, fun wanted hmem => ?_⟩
        rcases List.mem_append.mp hmem with hmem | hmem
        · rw [hwanted wanted (Option.mem_toList.mp hmem)]
          exact hpath
        · exact hpulls wanted hmem

/-- Downloads at walkable paths. -/
theorem pullPhase_placed {crypto : Crypto} {now : Nat} {replies : Nat → ChunkReply} {d : Device}
    {items : List PullItem} (h : Placed d.state) (hitems : ∀ item ∈ items, Walkable item.path) :
    Placed (pullPhase crypto now replies d items).state := by
  refine pullPhase_inv (P := fun d : Device => Placed d.state) ?_ ?_ ?_ h
  · exact fun d item reason hitem hd => hd.quarantine (hitems item hitem) _ _ _
  · exact fun d item message _ hd => hd.markForbidden _ _
  · intro d item t hdel hd
    unfold transferItem recordTransfer
    dsimp only
    split
    · exact hd.upsert (hitems item hdel.mem) _ _ _ _ _ _
    · exact hd.quarantine (hitems item hdel.mem) _ _ _

/-- What a pull downloads is retried, or wanted by the manifest. -/
theorem walkable_of_retries {pulls : List PullItem} {st : LocalSyncState} (h : Placed st)
    (hpulls : ∀ item ∈ pulls, Walkable item.path) :
    ∀ item ∈ withQuarantinedRetries pulls st, Walkable item.path := by
  intro item hitem
  rcases List.mem_append.mp hitem with hretry | hpull
  · obtain ⟨⟨path, q⟩, hmem, rfl⟩ := List.mem_map.mp hretry
    have hentry := TreeMap.mem_toList.mp (List.mem_filter.mp hmem).1
    exact h.quarantined path (Std.ExtTreeMap.mem_iff_isSome_getElem?.mpr (by rw [hentry]; rfl))
  · exact hpulls item hpull

theorem Placed.revoked {d : Device} (h : Placed d.state) (manifestPaths : List Str)
    (rules : IgnoreRules) (now : Nat) (removes : Str → Bool) :
    Placed (applyRevocations d manifestPaths rules now removes).state := by
  refine Fold.foldl_inv (P := fun d : Device => Placed d.state) (fun d path _ hd => ?_) h
  exact (hd.markForbidden _ _).mono (fun _ hp => Std.ExtTreeMap.mem_of_mem_erase hp)
    (fun _ hp => hp) fun _ hp => hp

theorem Placed.pullHalf {crypto : Crypto} {env : PullEnv} {d : Device} (h : Placed d.state) :
    Placed (pullHalf crypto env d).1.state := by
  have hbefore : Placed (beforePull crypto env d).state := h.refreshed _
  unfold Sync.pullHalf
  dsimp only
  cases env.manifest with
  | error e => exact hbefore
  | ok rows =>
    obtain ⟨hloop, hpulls⟩ := @manifestLoop_placed env (beforePull crypto env d) rows.2 hbefore
    dsimp only
    generalize manifestLoop env (beforePull crypto env d) rows.2 = loop at hloop hpulls ⊢
    obtain ⟨d', pulls, error⟩ := loop
    cases error with
    | some e => exact hloop
    | none =>
      have hforgot := hloop.forgotten env.rules
      have hphase := @pullPhase_placed crypto env.now env.chunks
        { d' with state := forgetUnpullable d'.state env.rules }
        (withQuarantinedRetries pulls (forgetUnpullable d'.state env.rules)) hforgot
        (walkable_of_retries hforgot hpulls)
      unfold afterPull
      dsimp only
      generalize pullPhase crypto env.now env.chunks _ _ = phase at hphase ⊢
      split
      · have hrevoked := Placed.revoked (d := { phase with state := { phase.state with
          lastServerSeq := nextHighWater phase.state.lastServerSeq (some rows.1) } })
          (hphase.mono (fun _ hp => hp) (fun _ hp => hp) fun _ hp => hp)
          (rows.2.map (·.path)) env.rules env.now env.removes
        exact hrevoked.mono (fun _ hp => hp) (fun _ hp => hp) fun _ hp => hp
      · exact hphase.mono (fun _ hp => hp) (fun _ hp => hp) fun _ hp => hp

/-! ## The push half -/

theorem walkable_of_scanned {crypto : Crypto} {st : LocalSyncState} {rules : IgnoreRules}
    {tree : ContentTree} {p : Str}
    (h : p ∈ (scanWorkspaceWith crypto st rules tree).map (·.relPath)) : Walkable p := by
  obtain ⟨file, -, hseen⟩ := mem_scan_paths.mp h
  rw [seen_isSome] at hseen
  simp only [Bool.and_eq_true] at hseen
  obtain ⟨hallowed, hunder, -⟩ := Sync.walks_iff.mp hseen.1.1.1
  exact ⟨hallowed, hunder⟩

/-- What is pushed is tracked or scanned. -/
theorem mem_pushed {env : PushEnv} {st : LocalSyncState} {scan : List ScannedFile} {p : Str}
    (h : p ∈ pushed env st scan) :
    p ∈ dirtyPaths st ∨ p ∈ extraDirty st scan ∨ p ∈ readdPaths st scan := by
  have hplan := (List.mem_filter.mp h).1
  unfold planPush at hplan
  split at hplan
  · exact absurd hplan List.not_mem_nil
  · have hcandidate := (List.mem_filter.mp hplan).1
    rw [Std.ExtTreeSet.mem_toList, Std.ExtTreeSet.mem_ofList] at hcandidate
    simpa [or_assoc] using hcandidate

private theorem mem_files_of_mem_paths {st : LocalSyncState} {f : Str × FileState → Bool} {p : Str}
    (h : p ∈ (st.files.toList.filter f).map (·.1)) : p ∈ st.files := by
  obtain ⟨⟨path, fs⟩, hmem, rfl⟩ := List.mem_map.mp h
  have hentry := TreeMap.mem_toList.mp (List.mem_filter.mp hmem).1
  exact Std.ExtTreeMap.mem_iff_isSome_getElem?.mpr (by rw [hentry]; rfl)

theorem walkable_of_pushed {crypto : Crypto} {env : PushEnv} {rules : IgnoreRules} {d : Device}
    (h : Placed d.state) {p : Str}
    (hp : p ∈ pushed env (scanned crypto env rules d).1.state (scanned crypto env rules d).2) :
    Walkable p := by
  have hscanned : Placed (scanned crypto env rules d).1.state := h.scanApplied _
  rcases mem_pushed hp with hp | hp | hp
  · exact hscanned.files p (mem_files_of_mem_paths hp)
  · obtain ⟨s, hs, rfl⟩ := List.mem_map.mp hp
    exact walkable_of_scanned (List.mem_map_of_mem (List.mem_filter.mp hs).1)
  · exact hscanned.files p (mem_files_of_mem_paths hp)

theorem Placed.downloaded {crypto : Crypto} {d : Device} {item : PullItem}
    {reply : Except SyncError Transfer} (h : Placed d.state) (hpath : Walkable item.path) :
    Placed (downloadAndWrite crypto d item reply).1.state := by
  unfold downloadAndWrite
  split
  · exact h
  · dsimp only
    split
    · exact h
    · exact h.upsert hpath _ _ _ _ _ _

theorem Placed.pathPushed {crypto : Crypto} {env : PushEnv} {d : Device} {p : Str}
    (h : Placed d.state) (hpath : Walkable p) : Placed (pushPath crypto env d p).state := by
  unfold pushPath
  cases d.tree.read p with
  | none => exact h.recordPushError p _
  | some blob =>
    dsimp only
    cases env.reply p with
    | failed e => exact h.recordPushError p e
    | forbidden message => exact h.markForbidden _ _
    | passedOver => exact h
    | completed version contentHash => exact h.upsert hpath _ _ _ _ _ _
    | conflict remoteVersion remoteCipherHash download =>
      dsimp only
      unfold handlePushConflict
      dsimp only
      split
      · exact h
      · exact Placed.downloaded (d := { d with tree := _ }) h hpath

theorem Placed.pathDeleted {env : PushEnv} {st : LocalSyncState} {p : Str} (h : Placed st) :
    Placed (deletePath env st p) := by
  unfold deletePath
  split
  · exact h.markTombstoned _
  · exact h
  · exact h.markForbidden _ _
  · exact h

theorem Placed.pushHalf {crypto : Crypto} {env : PushEnv} {rules : IgnoreRules} {d : Device}
    (h : Placed d.state) : Placed (pushHalf crypto env rules d).1.state := by
  unfold Sync.pushHalf
  dsimp only
  have hphase : Placed (pushPhase crypto env (scanned crypto env rules d).1
      (pushed env (scanned crypto env rules d).1.state (scanned crypto env rules d).2)).state := by
    refine Fold.foldl_inv (P := fun d : Device => Placed d.state)
      (fun d' p hp hd => hd.pathPushed (walkable_of_pushed h hp)) ?_
    exact (h.scanApplied _).mono (fun _ hp => hp) (fun _ hp => hp) fun _ hp => hp
  exact Fold.foldl_inv (P := Placed) (fun st x _ hst => hst.pathDeleted) hphase

/-! ## On a person's say-so -/

theorem Placed.fetched {d : Device} (h : Placed d.state) (crypto : Crypto) (now : Nat)
    (chunks : Nat → ChunkReply) (paths : List Str) :
    Placed (fetchKnown crypto now chunks d paths).state := by
  unfold fetchKnown
  dsimp only
  refine Fold.foldl_inv (P := fun d : Device => Placed d.state) (fun d p _ hd => ?_) ?_
  · split
    · exact hd.clearKnown
    · exact hd
  · refine pullPhase_placed h fun item hitem => ?_
    obtain ⟨path, -, hsome⟩ := List.mem_filterMap.mp hitem
    obtain ⟨known, hknown, rfl⟩ := Option.map_eq_some_iff.mp hsome
    exact h.known path (Std.ExtTreeMap.mem_iff_isSome_getElem?.mpr (by rw [hknown]; rfl))

theorem Placed.releaseAll {d : Device} (h : Placed d.state) (removes : Str → Bool)
    (paths : List Str) : Placed (releaseLocal removes d paths).state := by
  refine Fold.foldl_inv (P := fun d : Device => Placed d.state) (fun d path _ hd => ?_) h
  split
  · split
    · exact hd
    · rename_i hrelease
      exact hd.released hrelease
  · exact hd

/-! ## Runs -/

/-- Both the saved state and that of the tick name walkable paths only. -/
structure SyncWorld.Placed (w : SyncWorld) : Prop where
  saved : Sync.Placed w.saved
  tick : ∀ tick, w.tick = some tick → Sync.Placed tick.state

theorem SyncWorld.Placed.step {crypto : Crypto} {w : SyncWorld} (h : w.Placed) (e : SyncEvent) :
    (w.step crypto e).Placed := by
  cases e with
  | edit path file => exact ⟨h.saved, h.tick⟩
  | crash => exact ⟨h.saved, fun _ hnone => (by cases hnone)⟩
  | reset => exact ⟨placed_empty, fun _ hnone => (by cases hnone)⟩
  | fetch now chunks paths =>
    exact ⟨Sync.Placed.fetched (d := { state := w.saved, tree := w.tree }) h.saved _ _ _ _, h.tick⟩
  | release removes paths =>
    exact ⟨Sync.Placed.releaseAll (d := { state := w.saved, tree := w.tree }) h.saved _ _, h.tick⟩
  | pull env =>
    simp only [SyncWorld.step]
    cases htick : w.tick with
    | some tick => exact h
    | none =>
      have hpull := @Sync.Placed.pullHalf crypto env { state := w.saved, tree := w.tree } h.saved
      simp only [Option.isSome_none, Bool.false_eq_true, if_false]
      generalize Sync.pullHalf crypto env { state := w.saved, tree := w.tree } = result at hpull ⊢
      obtain ⟨d, error⟩ := result
      cases error with
      | some e =>
        refine ⟨h.saved, ?_⟩
        rintro tick ⟨⟩
      | none =>
        refine ⟨h.saved, ?_⟩
        rintro tick ⟨⟩
        exact hpull
  | push env =>
    simp only [SyncWorld.step]
    cases htick : w.tick with
    | none => exact h
    | some tick =>
      refine ⟨Sync.Placed.pushHalf (d := { state := tick.state, tree := w.tree })
        (h.tick tick htick), ?_⟩
      rintro tick' ⟨⟩

end TeamClu.Sync
