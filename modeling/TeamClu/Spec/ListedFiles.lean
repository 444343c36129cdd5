import TeamClu.Native.SyncEngine
import TeamClu.Spec.PullTransfers

/-!
# Files are on disk or listed, not both

`files` and `known` are kept apart by their callers.  The manifest loop, `fetch_known` and
`release_local` do so; an upload and a retried download add a file without a look at `known`
(`Apart`, `KeepsApart`).  While the two are apart `fetch_known` leaves every file alone that is on
disk.
-/

namespace TeamClu.Sync

/-- No path is both materialized and listed. -/
def Apart (st : LocalSyncState) : Prop := ∀ path, path ∈ st.files → path ∉ st.known

/-! ## Operations -/

section

variable {st st' : LocalSyncState} {path : Str}

/-- Less of both is still apart. -/
theorem Apart.mono (h : Apart st) (hfiles : ∀ p, p ∈ st'.files → p ∈ st.files)
    (hknown : ∀ p, p ∈ st'.known → p ∈ st.known) : Apart st' :=
  fun p hp hlisted => h p (hfiles p hp) (hknown p hlisted)

theorem Apart.noteKnown (h : Apart st) (version : Nat) (cipherHash : Str) (size : Nat) :
    Apart (st.noteKnown path version cipherHash size) := by
  unfold LocalSyncState.noteKnown
  split
  · exact h
  · next hnot =>
    intro p hp hlisted
    rcases Std.ExtTreeMap.mem_insert.mp hlisted with heq | hlisted
    · rw [Std.LawfulEqCmp.compare_eq_iff_eq.mp heq] at hnot
      exact hnot (Std.ExtTreeMap.contains_iff_mem.mpr hp)
    · exact h p hp hlisted

theorem Apart.clearKnown (h : Apart st) : Apart (st.clearKnown path) :=
  h.mono (fun _ hp => hp) fun _ hp => Std.ExtTreeMap.mem_of_mem_erase hp

theorem Apart.released (h : Apart st) (hrelease : st.releaseLocal path = some st') :
    Apart st' := by
  unfold LocalSyncState.releaseLocal at hrelease
  split at hrelease
  · cases hrelease
  · split at hrelease
    · cases hrelease
    · cases hrelease
      intro p hp hlisted
      obtain ⟨hne, hp⟩ := Std.ExtTreeMap.mem_erase.mp hp
      rcases Std.ExtTreeMap.mem_insert.mp hlisted with heq | hlisted
      · exact hne heq
      · exact h p hp hlisted

theorem Apart.upsert (h : Apart st) (hnot : path ∉ st.known) (version : Nat)
    (cipherHash plainHash localHash : Str) (mtime size : Nat) :
    Apart (st.upsert path version cipherHash plainHash localHash mtime size) := by
  intro p hp hlisted
  rcases Std.ExtTreeMap.mem_insert.mp hp with heq | hp
  · rw [← Std.LawfulEqCmp.compare_eq_iff_eq.mp heq] at hlisted
    exact hnot hlisted
  · exact h p hp hlisted

theorem Apart.markForbidden (h : Apart st) (reason : Str) (now : Nat) :
    Apart (st.markForbidden path reason now) :=
  h.mono (fun _ hp => Std.ExtTreeMap.mem_modify.mp hp) fun _ hp => hp

theorem Apart.markTombstoned (h : Apart st) (version : Nat) :
    Apart (st.markTombstoned path version) :=
  h.mono (fun _ hp => Std.ExtTreeMap.mem_modify.mp hp) fun _ hp => hp

theorem Apart.advanceDirtyToTombstone (h : Apart st) (version : Nat) :
    Apart (st.advanceDirtyToTombstone path version) :=
  h.mono (fun _ hp => Std.ExtTreeMap.mem_modify.mp hp) fun _ hp => hp

end

/-- Modifying files adds none. -/
theorem mem_of_mem_foldl_modify {α : Type} {key : α → Str} {f : α → FileState → FileState}
    {xs : List α} {files : Std.ExtTreeMap Str FileState} {path : Str}
    (h : path ∈ xs.foldl (fun m x => m.modify (key x) (f x)) files) : path ∈ files := by
  revert h
  exact Fold.foldl_inv (P := fun m : Std.ExtTreeMap Str FileState => path ∈ m → path ∈ files)
    (fun m x _ ih hmem => ih (Std.ExtTreeMap.mem_modify.mp hmem)) id

/-! ## The manifest loop -/

/-- A path whose download is asked for: it is not listed, and the loop does not list it again. -/
def Wanted (st : LocalSyncState) (path : Str) : Prop :=
  path ∉ st.known ∧ (path ∈ st.files ∨ isLazyPath path = false)

/-- Fewer listed files and no fewer files on disk: the download stays wanted. -/
theorem Wanted.mono {st st' : LocalSyncState} {path : Str} (h : Wanted st path)
    (hknown : path ∈ st'.known → path ∈ st.known) (hfiles : path ∈ st.files → path ∈ st'.files) :
    Wanted st' path :=
  ⟨fun hmem => h.1 (hknown hmem), h.2.imp_left hfiles⟩

/-- What one row of the manifest keeps. -/
private structure RowKeeps (st st' : LocalSyncState) : Prop where
  apart : Apart st → Apart st'
  wanted : ∀ path, Wanted st path → Wanted st' path

private theorem RowKeeps.trans {st st' st'' : LocalSyncState} (h : RowKeeps st st')
    (h' : RowKeeps st' st'') : RowKeeps st st'' :=
  ⟨fun ha => h'.apart (h.apart ha), fun path hw => h'.wanted path (h.wanted path hw)⟩

/-- A row that only modifies files and forgets listings. -/
private theorem RowKeeps.of_le {st st' : LocalSyncState} (hfiles : ∀ p, p ∈ st'.files ↔ p ∈ st.files)
    (hknown : ∀ p, p ∈ st'.known → p ∈ st.known) : RowKeeps st st' :=
  ⟨fun ha => ha.mono (fun p => (hfiles p).mp) hknown,
    fun path hw => hw.mono (hknown path) (hfiles path).mpr⟩

private theorem applyRemoteTombstone_keeps (d : Device) (path : Str) (version : Nat)
    (removes : Str → Bool) :
    RowKeeps d.state (applyRemoteTombstone d path version removes).state := by
  refine RowKeeps.of_le (fun p => ?_) fun p hp => ?_
  · unfold applyRemoteTombstone
    split
    · rfl
    · split
      · exact Std.ExtTreeMap.mem_modify
      · split
        · exact Std.ExtTreeMap.mem_modify
        · rfl
  · have hp := Std.ExtTreeMap.mem_of_mem_erase hp
    revert hp
    dsimp only
    split
    · exact id
    · split
      · exact id
      · split <;> exact id

private theorem offerFile_keeps (d : Device) (item : ManifestItem) (hash : Str)
    (reply : SidecarReply) :
    RowKeeps d.state (offerFile d item hash reply).1.state ∧
      ∀ wanted, (offerFile d item hash reply).2 = some wanted →
        Wanted (offerFile d item hash reply).1.state wanted.path := by
  have hclear : RowKeeps d.state (d.state.clearKnown item.path) :=
    RowKeeps.of_le (fun _ => Iff.rfl) fun p hp => Std.ExtTreeMap.mem_of_mem_erase hp
  have hgone : item.path ∉ (d.state.clearKnown item.path).known := by
    simp [LocalSyncState.clearKnown]
  unfold offerFile
  cases hfile : d.state.files[item.path]? with
  | none =>
    -- a path that is not tracked: a large file is listed, and not downloaded
    dsimp only
    split
    · next hlazy =>
      refine ⟨⟨fun ha => ha.noteKnown _ _ _, fun path hw => ?_⟩, nofun⟩
      unfold LocalSyncState.noteKnown
      split
      · exact hw
      · -- a path that was wanted has room for its file, so it is not listed now
        next hnot =>
        refine ⟨fun hmem => ?_, hw.2⟩
        rcases Std.ExtTreeMap.mem_insert.mp hmem with heq | hmem
        · rw [← Std.LawfulEqCmp.compare_eq_iff_eq.mp heq] at hw
          rcases hw.2 with hon | hnot'
          · exact hnot (Std.ExtTreeMap.contains_iff_mem.mpr hon)
          · exact absurd hlazy (by simp [hnot'])
        · exact hw.1 hmem
    · next hlazy =>
      -- the file is downloaded, and no longer listed
      refine ⟨hclear, fun wanted hsome => ?_⟩
      cases hsome
      exact ⟨hgone, Or.inr (by simpa using hlazy)⟩
  | some ls =>
    dsimp only
    split
    · -- the tracked file is up to date
      exact ⟨RowKeeps.of_le (fun _ => Iff.rfl) fun _ => id, nofun⟩
    · -- it is not, and is downloaded
      refine ⟨hclear, fun wanted hsome => ?_⟩
      cases hsome
      refine ⟨hgone, Or.inl ?_⟩
      exact Std.ExtTreeMap.mem_iff_isSome_getElem?.mpr (by
        simp only [LocalSyncState.clearKnown]
        rw [hfile]
        rfl)

private theorem applyRow_keeps (env : PullEnv) (d : Device) (item : ManifestItem) :
    RowKeeps d.state (applyRow env d item).1.state ∧
      ∀ wanted, (applyRow env d item).2 = some wanted →
        Wanted (applyRow env d item).1.state wanted.path := by
  have hclear : RowKeeps d.state (d.state.clearForbidden item.path) :=
    RowKeeps.of_le (fun _ => Iff.rfl) fun _ => id
  unfold applyRow
  dsimp only
  split
  · exact ⟨hclear.trans (applyRemoteTombstone_keeps
      { d with state := d.state.clearForbidden item.path } item.path item.version env.removes),
      fun _ hnone => (by cases hnone)⟩
  · split
    · exact ⟨hclear, fun _ hnone => (by cases hnone)⟩
    · obtain ⟨hrow, hwanted⟩ := offerFile_keeps
        { d with state := d.state.clearForbidden item.path } item ‹Str› (env.sidecar item.path)
      exact ⟨hclear.trans hrow, hwanted⟩

/-- The loop keeps files and listings apart, and what it wants to download is not listed. -/
theorem manifestLoop_keeps (env : PullEnv) (d : Device) (items : List ManifestItem) :
    RowKeeps d.state (manifestLoop env d items).1.state ∧
      ∀ wanted ∈ (manifestLoop env d items).2.1,
        Wanted (manifestLoop env d items).1.state wanted.path := by
  induction items generalizing d with
  | nil => exact ⟨RowKeeps.of_le (fun _ => Iff.rfl) fun _ => id, fun _ h => absurd h List.not_mem_nil⟩
  | cons item rest ih =>
    unfold manifestLoop
    split
    · exact ih d
    · split
      · exact ⟨RowKeeps.of_le (fun _ => Iff.rfl) fun _ => id, fun _ h => absurd h List.not_mem_nil⟩
      · obtain ⟨hrow, hwanted⟩ := applyRow_keeps env d item
        obtain ⟨hloop, hpulls⟩ := ih (applyRow env d item).1
        refine ⟨hrow.trans hloop, fun wanted hmem => ?_⟩
        rcases List.mem_append.mp hmem with hmem | hmem
        · exact hloop.wanted _ (hwanted wanted (Option.mem_toList.mp hmem))
        · exact hpulls wanted hmem

/-! ## Downloads -/

section

variable {crypto : Crypto} {now : Nat} {replies : Nat → ChunkReply} {items : List PullItem}
  {d : Device}

/-- The phase lists nothing, and the files it adds are those that arrive. -/
theorem pullPhase_files :
    (pullPhase crypto now replies d items).state.known = d.state.known ∧
      ∀ path ∈ (pullPhase crypto now replies d items).state.files, path ∈ d.state.files ∨
        ∃ item t w, Delivers replies items item t ∧ transferResult crypto item t = .ok w ∧
          item.path = path := by
  refine pullPhase_inv (P := fun d' : Device => d'.state.known = d.state.known ∧
    ∀ path ∈ d'.state.files, path ∈ d.state.files ∨
      ∃ item t w, Delivers replies items item t ∧ transferResult crypto item t = .ok w ∧
        item.path = path) ?_ ?_ ?_ ⟨rfl, fun _ => Or.inl⟩
  · exact fun d' item reason _ h => h
  · exact fun d' item message _ h =>
      ⟨h.1, fun path hp => h.2 path (Std.ExtTreeMap.mem_modify.mp hp)⟩
  · intro d' item t hdel h
    unfold transferItem recordTransfer
    cases hresult : transferResult crypto item t with
    | error e => exact h
    | ok w =>
      refine ⟨h.1, fun path hp => ?_⟩
      rcases Std.ExtTreeMap.mem_insert.mp hp with heq | hp
      · exact Or.inr ⟨item, t, w, hdel, hresult, Std.LawfulEqCmp.compare_eq_iff_eq.mp heq⟩
      · exact h.2 path hp

/-- The phase keeps files and listings apart if nothing arrives that is listed. -/
theorem Apart.pulled (h : Apart d.state)
    (hland : ∀ item t w, Delivers replies items item t → transferResult crypto item t = .ok w →
      item.path ∉ d.state.known) : Apart (pullPhase crypto now replies d items).state := by
  obtain ⟨hknown, hfiles⟩ := @pullPhase_files crypto now replies items d
  intro path hp
  rw [hknown]
  obtain hp | ⟨item, t, w, hdel, hresult, rfl⟩ := hfiles path hp
  · exact h path hp
  · exact hland item t w hdel hresult

/-- The phase leaves every other path alone. -/
theorem pullPhase_frame {path : Str} (hpath : path ∉ items.map (·.path)) :
    (pullPhase crypto now replies d items).state.files[path]? = d.state.files[path]? ∧
      (pullPhase crypto now replies d items).tree[path]? = d.tree[path]? := by
  have hne : ∀ item ∈ items, item.path ≠ path := fun item hitem heq =>
    hpath (List.mem_map.mpr ⟨item, hitem, heq⟩)
  refine pullPhase_inv (P := fun d' : Device => d'.state.files[path]? = d.state.files[path]? ∧
    d'.tree[path]? = d.tree[path]?) ?_ ?_ ?_ ⟨rfl, rfl⟩
  · -- quarantining keeps the files
    exact fun d' item reason _ h => h
  · -- an error is recorded at the item's path
    intro d' item message hitem h
    refine ⟨?_, h.2⟩
    rw [LocalSyncState.markForbidden, TreeMap.get_modify, if_neg (hne item hitem)]
    exact h.1
  · -- a transfer writes the item's path only
    intro d' item t hdel h
    unfold transferItem
    constructor
    · unfold recordTransfer
      split
      · rw [LocalSyncState.upsert, TreeMap.get_insert, if_neg (hne item hdel.mem)]
        exact h.1
      · exact h.1
    · unfold transferTree
      split
      · exact h.2
      · rw [ContentTree.write, TreeMap.get_insert, if_neg (hne item hdel.mem)]
        exact h.2

end

/-- Forgetting the listings of files that are on disk. -/
private theorem clearListed (paths : List Str) (d : Device) :
    let d' := paths.foldl (fun d path =>
      if d.state.files.contains path then { d with state := d.state.clearKnown path } else d) d
    d'.state.files = d.state.files ∧ d'.tree = d.tree ∧ (∀ p ∈ d'.state.known, p ∈ d.state.known) ∧
      ∀ p ∈ paths, p ∈ d.state.files → p ∉ d'.state.known := by
  induction paths generalizing d with
  | nil => exact ⟨rfl, rfl, fun _ => id, fun _ h => absurd h List.not_mem_nil⟩
  | cons path paths ih =>
    dsimp only [List.foldl_cons]
    split
    · -- a listed path that has a file now
      obtain ⟨hfiles, htree, hknown, hgone⟩ := ih { d with state := d.state.clearKnown path }
      refine ⟨hfiles, htree, fun p hp => Std.ExtTreeMap.mem_of_mem_erase (hknown p hp),
        fun p hp hfile => ?_⟩
      rcases List.mem_cons.mp hp with rfl | hp
      · intro hmem
        have := hknown p hmem
        simp [LocalSyncState.clearKnown] at this
      · exact hgone p hp hfile
    · next hnot =>
      -- one that has none
      obtain ⟨hfiles, htree, hknown, hgone⟩ := ih d
      refine ⟨hfiles, htree, hknown, fun p hp hfile => ?_⟩
      rcases List.mem_cons.mp hp with rfl | hp
      · exact absurd (Std.ExtTreeMap.contains_iff_mem.mpr hfile) hnot
      · exact hgone p hp hfile

/-- The downloads of `fetch_known` are of listed files. -/
private theorem mem_known_of_fetched {st : LocalSyncState} {paths : List Str} {path : Str}
    (h : path ∈ (paths.filterMap fun path => st.known[path]?.map fun known =>
      ({ path, cipherHash := known.cipherHash, version := known.version } : PullItem)).map
        (·.path)) : path ∈ st.known := by
  obtain ⟨item, hitem, rfl⟩ := List.mem_map.mp h
  obtain ⟨path, -, hsome⟩ := List.mem_filterMap.mp hitem
  obtain ⟨known, hknown, rfl⟩ := Option.map_eq_some_iff.mp hsome
  exact Std.ExtTreeMap.mem_iff_isSome_getElem?.mpr (by simp only; rw [hknown]; rfl)

/-- `fetch_known` keeps files and listings apart. -/
theorem Apart.fetched {d : Device} (h : Apart d.state) (crypto : Crypto) (now : Nat)
    (chunks : Nat → ChunkReply) (paths : List Str) :
    Apart (fetchKnown crypto now chunks d paths).state := by
  unfold fetchKnown
  generalize hitems : (paths.filterMap fun path => d.state.known[path]?.map fun known =>
    ({ path, cipherHash := known.cipherHash, version := known.version } : PullItem)) = items
  obtain ⟨hknown, hfiles⟩ := @pullPhase_files crypto now chunks items d
  obtain ⟨hsame, -, hless, hgone⟩ := clearListed (items.map (·.path))
    (pullPhase crypto now chunks d items)
  intro path hp hlisted
  dsimp only at hp hlisted
  rw [hsame] at hp
  obtain hon | ⟨item, t, w, hdel, -, rfl⟩ := hfiles path hp
  · have := hless path hlisted
    rw [hknown] at this
    exact h path hon this
  · exact hgone item.path (List.mem_map.mpr ⟨item, hdel.mem, rfl⟩) hp hlisted

/-- While the two are apart, `fetch_known` leaves the files on disk alone. -/
theorem Apart.fetched_frame {d : Device} (h : Apart d.state) (crypto : Crypto) (now : Nat)
    (chunks : Nat → ChunkReply) (paths : List Str) {path : Str} (hpath : path ∈ d.state.files) :
    (fetchKnown crypto now chunks d paths).state.files[path]? = d.state.files[path]? ∧
      (fetchKnown crypto now chunks d paths).tree[path]? = d.tree[path]? := by
  unfold fetchKnown
  dsimp only
  obtain ⟨hsame, htree, -, -⟩ := clearListed ((paths.filterMap fun path =>
    d.state.known[path]?.map fun known =>
      ({ path, cipherHash := known.cipherHash, version := known.version } : PullItem)).map (·.path))
    (pullPhase crypto now chunks d (paths.filterMap fun path =>
      d.state.known[path]?.map fun known =>
        ({ path, cipherHash := known.cipherHash, version := known.version } : PullItem)))
  rw [hsame, htree]
  exact pullPhase_frame fun hmem => h path hpath (mem_known_of_fetched hmem)

/-- `release_local` keeps files and listings apart. -/
theorem Apart.releaseAll {d : Device} (h : Apart d.state) (removes : Str → Bool)
    (paths : List Str) : Apart (releaseLocal removes d paths).state := by
  refine Fold.foldl_inv (P := fun d : Device => Apart d.state) (fun d path _ hd => ?_) h
  split
  · split
    · exact hd
    · next hrelease => exact hd.released hrelease
  · exact hd

/-- `apply_revocations` keeps files and listings apart. -/
theorem Apart.revoked {d : Device} (h : Apart d.state) (manifestPaths : List Str)
    (rules : IgnoreRules) (now : Nat) (removes : Str → Bool) :
    Apart (applyRevocations d manifestPaths rules now removes).state := by
  refine Fold.foldl_inv (P := fun d : Device => Apart d.state) (fun d path _ hd => ?_) h
  exact (hd.markForbidden _ _).mono (fun _ hp => Std.ExtTreeMap.mem_of_mem_erase hp) fun _ => id

/-! ## The halves of a tick -/

private theorem mem_of_mem_foldl_erase {β : Type} {paths : List Str}
    {m : Std.ExtTreeMap Str β} {path : Str} (h : path ∈ paths.foldl (·.erase ·) m) : path ∈ m := by
  revert h
  exact Fold.foldl_inv (P := fun m' : Std.ExtTreeMap Str β => path ∈ m' → path ∈ m)
    (fun m' x _ ih hmem => ih (Std.ExtTreeMap.mem_of_mem_erase hmem)) id

theorem Apart.forgotten {st : LocalSyncState} (h : Apart st) (rules : IgnoreRules) :
    Apart (forgetUnpullable st rules) :=
  h.mono (fun _ hp => hp) fun _ hp => mem_of_mem_foldl_erase hp

theorem Apart.refreshed {st : LocalSyncState} (h : Apart st) (scan : List ScannedFile) :
    Apart (refreshDirty st scan) :=
  h.mono (fun _ hp => mem_of_mem_foldl_modify hp) fun _ hp => hp

theorem Apart.scanApplied {st : LocalSyncState} (h : Apart st) (scan : List ScannedFile) :
    Apart (applyScan st scan) :=
  h.mono (fun _ hp => mem_of_mem_foldl_modify hp) fun _ hp => hp

/-- No retried download that arrives is of a file that is listed. -/
def RetriesApart (crypto : Crypto) (env : PullEnv) (d : Device) : Prop :=
  match env.manifest with
  | .error _ => True
  | .ok (_, rows) =>
    let (d, pulls, _) := manifestLoop env (beforePull crypto env d) rows
    let st := forgetUnpullable d.state env.rules
    ∀ item t w, Delivers env.chunks (withQuarantinedRetries pulls st) item t →
      transferResult crypto item t = .ok w → item.path ∈ st.quarantined → item.path ∉ st.known

/-- What a pull downloads is retried or wanted. -/
theorem mem_withQuarantinedRetries_iff {pulls : List PullItem} {st : LocalSyncState}
    {item : PullItem} (h : item ∈ withQuarantinedRetries pulls st) :
    item.path ∈ st.quarantined ∨ item ∈ pulls := by
  refine (List.mem_append.mp h).imp_left fun hretry => ?_
  obtain ⟨⟨path, q⟩, hmem, rfl⟩ := List.mem_map.mp hretry
  exact Std.ExtTreeMap.mem_iff_isSome_getElem?.mpr (by
    rw [TreeMap.mem_toList.mp (List.mem_filter.mp hmem).1]
    rfl)

/-- The pull half keeps files and listings apart, unless a retry lands on a listed file. -/
theorem Apart.pullHalf {crypto : Crypto} {env : PullEnv} {d : Device} (h : Apart d.state)
    (hretries : RetriesApart crypto env d) : Apart (pullHalf crypto env d).1.state := by
  have hbefore : Apart (beforePull crypto env d).state := h.refreshed _
  unfold Sync.pullHalf
  unfold RetriesApart at hretries
  dsimp only
  cases hmanifest : env.manifest with
  | error e => exact hbefore
  | ok rows =>
    obtain ⟨snapshotSeq, rows⟩ := rows
    simp only [hmanifest] at hretries
    obtain ⟨hloop, hwanted⟩ := manifestLoop_keeps env (beforePull crypto env d) rows
    have hapart := hloop.apart hbefore
    dsimp only
    generalize manifestLoop env (beforePull crypto env d) rows = loop at *
    obtain ⟨d', pulls, error⟩ := loop
    cases error with
    | some e => exact hapart
    | none =>
      have hphase : Apart (pullPhase crypto env.now env.chunks
          { d' with state := forgetUnpullable d'.state env.rules }
          (withQuarantinedRetries pulls (forgetUnpullable d'.state env.rules))).state := by
        refine Apart.pulled (hapart.forgotten env.rules) fun item t w hdel hresult hlisted => ?_
        obtain hretried | hpull := mem_withQuarantinedRetries_iff hdel.mem
        · -- a retry does not land on a listed path
          exact hretries item t w hdel hresult hretried hlisted
        · -- what the manifest wants was taken from the list
          exact (hwanted item hpull).1 (mem_of_mem_foldl_erase hlisted)
      unfold afterPull
      dsimp only
      generalize pullPhase crypto env.now env.chunks _ _ = phase at hphase ⊢
      split
      · -- revoking keeps the two apart
        have hrevoked := Apart.revoked (d := { phase with state := { phase.state with
          lastServerSeq := nextHighWater phase.state.lastServerSeq (some snapshotSeq) } }) hphase
          (rows.map (·.path)) env.rules env.now env.removes
        exact hrevoked
      · exact hphase

/-- The upload of the path leaves a file in the state: it completes, or the version that beat it
    arrives. -/
def Lands (crypto : Crypto) (env : PushEnv) (path : Str) : Prop :=
  match env.reply path with
  | .completed _ _ => True
  | .conflict version (some cipherHash) (.ok t) =>
    ∃ w, transferResult crypto { path, cipherHash, version := version.getD 0 } t = .ok w
  | _ => False

/-- No upload lands on a file that is listed. -/
def UploadsApart (crypto : Crypto) (env : PushEnv) (rules : IgnoreRules) (d : Device) : Prop :=
  let (d, scan) := scanned crypto env rules d
  ∀ path ∈ pushed env d.state scan, Lands crypto env path → path ∉ d.state.known

theorem Apart.recordPushError {st : LocalSyncState} (h : Apart st) (path : Str) (e : SyncError) :
    Apart (recordPushError st path e) ∧ (recordPushError st path e).known = st.known := by
  unfold Sync.recordPushError
  split <;> exact ⟨h, rfl⟩

/-- A conflict keeps files and listings apart if the version that beat the upload is not listed or
    does not arrive. -/
theorem Apart.conflicted {crypto : Crypto} {d : Device} (h : Apart d.state) (path : Str)
    (remoteVersion : Option Nat) (remoteCipherHash : Option Str)
    (download : Except SyncError Transfer) (reply : SidecarReply)
    (hland : ∀ cipherHash t w, remoteCipherHash = some cipherHash → download = .ok t →
      transferResult crypto { path, cipherHash, version := remoteVersion.getD 0 } t = .ok w →
      path ∉ d.state.known) :
    Apart (handlePushConflict crypto d path remoteVersion remoteCipherHash download reply).state ∧
      (handlePushConflict crypto d path remoteVersion remoteCipherHash download reply).state.known =
        d.state.known := by
  unfold handlePushConflict
  dsimp only
  cases remoteCipherHash with
  | none => exact ⟨h, rfl⟩
  | some cipherHash =>
    -- without the remote file the state is as it was
    cases download with
    | error e => exact ⟨h, rfl⟩
    -- the remote file lands where it was pushed from
    | ok t =>
      simp only [downloadAndWrite]
      cases hresult : transferResult crypto
          { path, cipherHash, version := remoteVersion.getD 0 } t with
      | error e => exact ⟨h, rfl⟩
      | ok w => exact ⟨h.upsert (hland cipherHash t w rfl rfl hresult) _ _ _ _ _ _, rfl⟩

theorem Apart.pathPushed {crypto : Crypto} {env : PushEnv} {d : Device} (h : Apart d.state)
    {path : Str} (hland : Lands crypto env path → path ∉ d.state.known) :
    Apart (pushPath crypto env d path).state ∧
      (pushPath crypto env d path).state.known = d.state.known := by
  unfold pushPath
  cases d.tree.read path with
  | none => exact h.recordPushError path _
  | some blob =>
    unfold Lands at hland
    dsimp only
    generalize hreply : env.reply path = reply at hland ⊢
    -- a reply that records no file keeps the state
    cases reply with
    | failed e => exact h.recordPushError path e
    | forbidden message => exact ⟨h.markForbidden _ _, rfl⟩
    | passedOver => exact ⟨h, rfl⟩
    -- an accepted upload records its path, which is not listed
    | completed version contentHash => exact ⟨h.upsert (hland trivial) _ _ _ _ _ _, rfl⟩
    | conflict remoteVersion remoteCipherHash download =>
      -- a conflict may land the remote file in its place
      refine Apart.conflicted (d := { d with
        tree := (env.meanwhile path).elim d.tree (editFile d.tree path) }) h path remoteVersion
        remoteCipherHash download (env.sidecar path) ?_
      rintro cipherHash t w rfl rfl hresult
      exact hland ⟨w, hresult⟩

/-- The push half keeps files and listings apart, unless an upload lands on a listed file. -/
theorem Apart.pushHalf {crypto : Crypto} {env : PushEnv} {rules : IgnoreRules} {d : Device}
    (h : Apart d.state) (huploads : UploadsApart crypto env rules d) :
    Apart (pushHalf crypto env rules d).1.state := by
  have hscanned : Apart (scanned crypto env rules d).1.state := h.scanApplied _
  unfold UploadsApart at huploads
  unfold Sync.pushHalf
  dsimp only at huploads ⊢
  -- the list is not changed by the push
  generalize scanned crypto env rules d = start at *
  have hphase : Apart (pushPhase crypto env start.1 (pushed env start.1.state start.2)).state ∧
      (pushPhase crypto env start.1 (pushed env start.1.state start.2)).state.known =
        start.1.state.known := by
    refine Fold.foldl_inv (P := fun d : Device => Apart d.state ∧
      d.state.known = start.1.state.known) (fun d path hpath hd => ?_) ⟨hscanned, rfl⟩
    obtain ⟨hapart, hknown⟩ := @Apart.pathPushed crypto env d hd.1 path
      fun hlands => hd.2 ▸ huploads path hpath hlands
    exact ⟨hapart, hknown.trans hd.2⟩
  -- deleting paths keeps the two apart
  refine Fold.foldl_inv (P := Apart) (fun st p _ hst => ?_) hphase.1
  unfold deletePath
  split
  · exact hst.markTombstoned _
  · exact hst
  · exact hst.markForbidden _ _
  · exact hst

/-! ## Runs -/

/-- The operations of `LocalSyncState` that change what is on disk or listed. -/
inductive StateOp where
  | noteKnown (path : Str) (version : Nat) (cipherHash : Str) (size : Nat)
  | clearKnown (path : Str)
  | releaseLocal (path : Str)
  | upsert (path : Str) (version : Nat) (cipherHash plainHash localHash : Str) (mtime size : Nat)
  | markTombstoned (path : Str) (version : Nat)
  | advanceDirtyToTombstone (path : Str) (version : Nat)
  | markForbidden (path reason : Str) (now : Nat)

/-- An operation on a state. -/
def LocalSyncState.apply (st : LocalSyncState) : StateOp → LocalSyncState
  | .noteKnown path version cipherHash size => st.noteKnown path version cipherHash size
  | .clearKnown path => st.clearKnown path
  | .releaseLocal path => (st.releaseLocal path).getD st
  | .upsert path version cipherHash plainHash localHash mtime size =>
    st.upsert path version cipherHash plainHash localHash mtime size
  | .markTombstoned path version => st.markTombstoned path version
  | .advanceDirtyToTombstone path version => st.advanceDirtyToTombstone path version
  | .markForbidden path reason now => st.markForbidden path reason now

/-- A step of the engine, or of a caller of the saved state. -/
inductive StateStep where
  | engine (e : SyncEvent)
  | op (op : StateOp)
  | revoke (manifestPaths : List Str) (rules : IgnoreRules) (now : Nat) (removes : Str → Bool)

/-- The runs of the engine with the operations on its saved state. -/
def stateMachine (crypto : Crypto) : Machine SyncWorld StateStep where
  init := {}
  step w step :=
    match step with
    | .engine e => w.step crypto e
    | .op op => { w with saved := w.saved.apply op }
    | .revoke manifestPaths rules now removes =>
      let d := applyRevocations { state := w.saved, tree := w.tree } manifestPaths rules now removes
      { w with saved := d.state, tree := d.tree }

/-- The step adds no file that is listed: neither a retried download, nor an upload, nor an `upsert`
    lands on one. -/
def KeepsApart (crypto : Crypto) (w : SyncWorld) (step : StateStep) : Prop :=
  match step with
  | .engine (.pull env) =>
    w.tick = none → RetriesApart crypto env { state := w.saved, tree := w.tree }
  | .engine (.push env) =>
    ∀ tick, w.tick = some tick →
      UploadsApart crypto env tick.rules { state := tick.state, tree := w.tree }
  | .op (.upsert path _ _ _ _ _ _) => path ∉ w.saved.known
  | _ => True

/-- Both the saved state and that of the tick keep files and listings apart. -/
def SyncWorld.Apart (w : SyncWorld) : Prop :=
  Sync.Apart w.saved ∧ ∀ tick, w.tick = some tick → Sync.Apart tick.state

theorem apart_step (crypto : Crypto) (w : SyncWorld) (step : StateStep) (h : w.Apart)
    (hkeeps : KeepsApart crypto w step) : ((stateMachine crypto).step w step).Apart := by
  cases step with
  | revoke manifestPaths rules now removes =>
    exact ⟨Apart.revoked (d := { state := w.saved, tree := w.tree }) h.1 _ _ _ _, h.2⟩
  | op op =>
    refine ⟨?_, h.2⟩
    cases op with
    | noteKnown path version cipherHash size => exact h.1.noteKnown _ _ _
    | clearKnown path => exact h.1.clearKnown
    -- what is released is listed, and no file any more
    | releaseLocal path =>
      change Apart ((w.saved.releaseLocal path).getD w.saved)
      cases hrelease : w.saved.releaseLocal path with
      | none => exact h.1
      | some st => exact h.1.released hrelease
    -- an upsert is guarded itself
    | upsert => exact h.1.upsert hkeeps _ _ _ _ _ _
    | markTombstoned => exact h.1.markTombstoned _
    | advanceDirtyToTombstone => exact h.1.advanceDirtyToTombstone _
    | markForbidden => exact h.1.markForbidden _ _
  | engine e =>
    cases e with
    | edit path file => exact h
    | crash => exact ⟨h.1, nofun⟩
    | reset => exact ⟨fun _ hp => absurd hp Std.ExtTreeMap.not_mem_empty, nofun⟩
    | fetch now chunks paths =>
      exact ⟨Apart.fetched (d := { state := w.saved, tree := w.tree }) h.1 _ _ _ _, h.2⟩
    | release removes paths =>
      exact ⟨Apart.releaseAll (d := { state := w.saved, tree := w.tree }) h.1 _ _, h.2⟩
    | pull env =>
      simp only [stateMachine, SyncWorld.step]
      cases htick : w.tick with
      | some tick => exact h
      | none =>
        have hpull := Apart.pullHalf (d := { state := w.saved, tree := w.tree }) h.1 (hkeeps htick)
        simp only [Option.isSome_none, Bool.false_eq_true, if_false]
        generalize pullHalf crypto env { state := w.saved, tree := w.tree } = result at hpull ⊢
        obtain ⟨d, error⟩ := result
        cases error with
        -- a pull that fails is not saved
        | some e =>
          refine ⟨h.1, ?_⟩
          rintro tick ⟨⟩
        -- a pull that succeeds hands its state to the push
        | none =>
          refine ⟨h.1, ?_⟩
          rintro tick ⟨⟩
          exact hpull
    | push env =>
      simp only [stateMachine, SyncWorld.step]
      cases htick : w.tick with
      | none => exact h
      | some tick =>
        exact ⟨Apart.pushHalf (d := { state := tick.state, tree := w.tree }) (h.2 tick htick)
          (hkeeps tick htick), nofun⟩

/-- In every run that adds no listed file, files and listings are apart in every state, and
    `fetch_known` leaves alone what is on disk. -/
theorem files_and_known_apart (crypto : Crypto) (steps : List StateStep)
    (h : (stateMachine crypto).Steps (KeepsApart crypto) (stateMachine crypto).init steps) :
    let w := (stateMachine crypto).run steps
    w.Apart ∧ ∀ (now : Nat) (chunks : Nat → ChunkReply) (paths : List Str) (path : Str)
      (f : FileState), w.saved.files[path]? = some f →
      let d := fetchKnown crypto now chunks { state := w.saved, tree := w.tree } paths
      d.state.files[path]? = some f ∧ d.tree[path]? = w.tree[path]? := by
  have hapart : ((stateMachine crypto).run steps).Apart :=
    Machine.invariant_runFrom (apart_step crypto)
      ⟨fun _ hp => absurd hp Std.ExtTreeMap.not_mem_empty, nofun⟩ h
  refine ⟨hapart, fun now chunks paths path f hfile => ?_⟩
  have hmem : path ∈ ((stateMachine crypto).run steps).saved.files :=
    Std.ExtTreeMap.mem_iff_isSome_getElem?.mpr (by rw [hfile]; rfl)
  obtain ⟨hfiles, htree⟩ := Apart.fetched_frame
    (d := { state := ((stateMachine crypto).run steps).saved
            tree := ((stateMachine crypto).run steps).tree }) hapart.1 crypto now chunks paths hmem
  exact ⟨hfiles.trans hfile, htree⟩

/-! ## A document that is listed -/

/-- The path of a document, which is listed until a person asks for it. -/
private def doc : Str := "documents/a.md".toList

/-- The manifest lists version 1 of the document. -/
private def listing : PullEnv where
  now := 9
  rules := IgnoreRules.empty
  manifest := .ok (1, [{ path := doc, version := 1, contentHash := some (sampleCrypto.sha256Hex [97])
                         size := some 1, deleted := false }])
  sidecar := fun _ => { ts := 9, written := some 9 }
  chunks := fun _ => batchFails

/-- The path of a note of the user. -/
private def note : Str := "knowledge/b.md".toList

/-- Every upload goes through, as version 2. -/
private def uploads : PushEnv where
  now := 9
  reply := fun _ => .completed 2 (sampleCrypto.sha256Hex [98])
  sidecar := fun _ => { ts := 9, written := some 9 }
  deleteReply := fun _ => .conflict

/-- The document arrives. -/
private def listedArrives : ChunkReply :=
  { batch := .ok [.ok { blob := .ok [97], write := .written 9 }]
    single := fun _ => .error .batchUnsupported }

/-- A tick lists the document and uploads a note of the user, and the document is fetched. -/
private def fetchedDoc : List StateStep :=
  [.engine (.pull listing), .engine (.edit note (some { bytes := [98], mtime := 8 })),
    .engine (.push uploads), .engine (.fetch 9 (fun _ => listedArrives) [doc])]

/-- At the end both are tracked, and neither is listed. -/
theorem files_and_known_apart_fetchedDoc :
    let w := (stateMachine sampleCrypto).run fetchedDoc
    w.Apart ∧ doc ∈ w.saved.files ∧ note ∈ w.saved.files := by
  refine ⟨(files_and_known_apart sampleCrypto fetchedDoc ⟨?_, trivial, ?_, trivial, trivial⟩).1,
    by decide +kernel, by decide +kernel⟩
  · -- nothing is retried
    rintro - item t w - - hquarantined
    have hempty : (forgetUnpullable (manifestLoop listing (beforePull sampleCrypto listing {})
        [{ path := doc, version := 1, contentHash := some (sampleCrypto.sha256Hex [97])
           size := some 1, deleted := false }]).1.state listing.rules).quarantined = ∅ :=
      Std.ExtTreeMap.isEmpty_iff.mp (by decide +kernel)
    exact absurd (hempty ▸ hquarantined) Std.ExtTreeMap.not_mem_empty
  · -- the note that is pushed is not listed
    intro tick htick path hpushed _
    have hapart : ((((stateMachine sampleCrypto).run (fetchedDoc.take 2)).tick.map fun tick =>
        let d := scanned sampleCrypto uploads tick.rules
          { state := tick.state, tree := ((stateMachine sampleCrypto).run (fetchedDoc.take 2)).tree }
        (pushed uploads d.1.state d.2).all fun p => !d.1.state.known.contains p).getD true) = true := by
      decide +kernel
    have htick' : ((stateMachine sampleCrypto).run (fetchedDoc.take 2)).tick = some tick := htick
    rw [htick', Option.map_some, Option.getD_some, List.all_eq_true] at hapart
    have hknown := hapart path hpushed
    rw [Bool.not_eq_true', ← Bool.not_eq_true, Std.ExtTreeMap.contains_iff_mem] at hknown
    exact hknown

/-- The upload of the document finds version 1, which is downloaded. -/
private def beaten : PushEnv where
  now := 9
  reply := fun _ => .conflict (some 1) (some (sampleCrypto.sha256Hex [97]))
    (.ok { blob := .ok [97], write := .written 9 })
  sidecar := fun _ => { ts := 9, written := some 9 }
  deleteReply := fun _ => .conflict

/-- The document is listed, and then the user puts a file of its own in its place. -/
private def listedThenEdited : List StateStep :=
  [.engine (.pull listing), .engine (.edit doc (some { bytes := [98], mtime := 8 })),
    .engine (.push beaten)]

/-- The conflict of its upload tracks the file, which stays listed. -/
theorem conflict_tracks_listed :
    doc ∈ ((stateMachine sampleCrypto).run listedThenEdited).saved.files ∧
      doc ∈ ((stateMachine sampleCrypto).run listedThenEdited).saved.known := by
  decide +kernel

end TeamClu.Sync
