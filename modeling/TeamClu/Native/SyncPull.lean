import TeamClu.Native.PullPhase

/-!
# The pull half of a tick

What `tick_with_progress` of `apps/daemon/src/sync/oss/engine.rs` does before it pushes: refresh the
dirty flags, drain the manifest and decide for each row, download, move the cursor, and once in a
while take back what the team no longer shows this device.  `fetch_known` and `release_local`, which
a person asks for, are here too.

The clock is read once.  What the server, the clock and the file system answer is `PullEnv`.  The
tallies that a tick reports are left out.
-/

namespace TeamClu.Sync

/-- How often to drain the whole manifest instead of just the changes, in seconds. -/
def RECONCILE_INTERVAL_SECS : Nat := 30 * 60

/-- One row of the drained manifest. -/
structure ManifestItem where
  path : Str
  version : Nat
  contentHash : Option Str
  size : Option Nat
  deleted : Bool
  deriving DecidableEq

/-- The clock when a sidecar is written, and its time on disk unless writing it fails. -/
structure SidecarReply where
  ts : Nat
  written : Option Nat
  deriving DecidableEq

/-- The answers to the pull half of one tick. -/
structure PullEnv where
  now : Nat
  rules : IgnoreRules
  /-- The snapshot of the first page and the rows of all pages, or the error that ends the drain. -/
  manifest : Except SyncError (Nat × List ManifestItem)
  /-- The message of `validate_no_symlink_escape`, when the check fails. -/
  escapes : Str → Option Str := fun _ => none
  /-- The file system lets a legacy sidecar be relocated. -/
  moves : Str → Bool := fun _ => true
  /-- The file system lets the file be removed. -/
  removes : Str → Bool := fun _ => true
  sidecar : Str → SidecarReply
  chunks : Nat → ChunkReply

/-- Why a tick ends early. -/
inductive TickError where
  | sync (e : SyncError)
  | panic
  deriving DecidableEq

/-! ## The manifest loop -/

/-- Whether this path is fetched on demand rather than eagerly. -/
def isLazyPath (path : Str) : Bool := "documents/".toList.isPrefixOf path

/-- Paths the pull loop never writes to this device's disk. -/
def skippedByPull (path : Str) (rules : IgnoreRules) : Bool :=
  isRetired path || isUnderConflictsDir path || rules.isIgnoredWithAncestors path

/-- `write_conflict_sidecar`. -/
def writeConflictSidecar (tree : ContentTree) (relPath : Str) (data : Bytes) (cipherHash : Str)
    (reply : SidecarReply) : ContentTree :=
  match reply.written with
  | none => tree
  | some mtime => tree.write (conflictRelPath relPath reply.ts cipherHash) data mtime

/-- Apply one server tombstone to this device. -/
def applyRemoteTombstone (d : Device) (path : Str) (version : Nat) (removes : Str → Bool) : Device :=
  let d := match d.state.files[path]? with
    | none => d
    | some ls =>
      if !ls.dirty && !ls.deletedLocal then
        { state := d.state.markTombstoned path version
          tree := d.tree.removeFile path (removes path) }
      else if ls.dirty then { d with state := d.state.advanceDirtyToTombstone path version }
      else d
  { d with state :=
      LocalSyncState.clearKnown { d.state with quarantined := d.state.quarantined.erase path } path }

/-- Save the local bytes of a file that is about to be overwritten, if it has unsynced changes. -/
def saveDirtyCopy (tree : ContentTree) (path : Str) (version : Nat) (ls : FileState)
    (reply : SidecarReply) : ContentTree :=
  if ls.dirty && ls.syncedVersion < version then
    match tree.read path with
    | some localBytes => writeConflictSidecar tree path localBytes ls.syncedCipherHash reply
    | none => tree
  else tree

/-- What a row with content asks for: the device afterwards, and the download if there is one. -/
def offerFile (d : Device) (item : ManifestItem) (hash : Str) (reply : SidecarReply) :
    Device × Option PullItem :=
  let wanted : PullItem := { path := item.path, cipherHash := hash, version := item.version }
  match d.state.files[item.path]? with
  | none =>
    if isLazyPath item.path then
      ({ d with state := d.state.noteKnown item.path item.version hash (item.size.getD 0) }, none)
    else ({ d with state := d.state.clearKnown item.path }, some wanted)
  | some ls =>
    if item.version ≤ ls.syncedVersion then (d, none)
    else
      ({ state := d.state.clearKnown item.path
         tree := saveDirtyCopy d.tree item.path item.version ls reply }, some wanted)

/-- A row that is not skipped: the refusal recorded for its path is stale. -/
def applyRow (env : PullEnv) (d : Device) (item : ManifestItem) : Device × Option PullItem :=
  let d := { d with state := d.state.clearForbidden item.path }
  if item.deleted then (applyRemoteTombstone d item.path item.version env.removes, none)
  else
    match item.contentHash with
    | none => (d, none)
    | some hash => offerFile d item hash (env.sidecar item.path)

/-- Whether a row ends the tick: an invalid path, or one that leaves the content root. -/
def rowError (env : PullEnv) (item : ManifestItem) : Option TickError :=
  match validate item.path with
  | .panic => some .panic
  | .err message => some (.sync (.invalidPath message))
  | .ok => (env.escapes item.path).map fun message => .sync (.invalidPath message)

/-- The loop over the rows of the manifest: the device, the downloads, and the error that ended it. -/
def manifestLoop (env : PullEnv) (d : Device) (items : List ManifestItem) :
    Device × List PullItem × Option TickError :=
  match items with
  | [] => (d, [], none)
  | item :: rest =>
    if skippedByPull item.path env.rules then manifestLoop env d rest
    else
      match rowError env item with
      | some e => (d, [], some e)
      | none =>
        let (d, wanted) := applyRow env d item
        let (d, pulls, error) := manifestLoop env d rest
        (d, wanted.toList ++ pulls, error)

/-! ## Retries and revocations -/

/-- Drop the pull bookkeeping for every path this device will never pull. -/
def forgetUnpullable (st : LocalSyncState) (rules : IgnoreRules) : LocalSyncState :=
  let unpullable := st.quarantined.keys.filter (skippedByPull · rules)
  { st with
    quarantined := unpullable.foldl (·.erase ·) st.quarantined
    known := unpullable.foldl (·.erase ·) st.known }

/-- Put everything the last ticks could not apply at the front of this tick's pull list. -/
def withQuarantinedRetries (items : List PullItem) (st : LocalSyncState) : List PullItem :=
  let retries := st.quarantined.toList.filter fun (path, _) =>
    !(items.map (·.path)).contains path
  retries.map (fun (path, q) => { path, cipherHash := q.cipherHash, version := q.version }) ++ items

/-- Where the sync cursor should sit after a pull. -/
def nextHighWater (current : Nat) (snapshotSeq : Option Nat) : Nat := snapshotSeq.getD current

/-- The paths `apply_revocations` takes back: synced, and absent from the whole manifest. -/
def revokedPaths (st : LocalSyncState) (manifestPaths : List Str) (rules : IgnoreRules) : List Str :=
  (st.files.toList.filter fun (path, f) =>
    0 < f.syncedVersion && !f.deletedLocal && !manifestPaths.contains path &&
      !skippedByPull path rules).map (·.1)

/-- Take back one path: refuse it, forget it, and only then remove its bytes. -/
def revoke (now : Nat) (removes : Str → Bool) (d : Device) (path : Str) : Device :=
  let st := d.state.markForbidden path "no longer accessible".toList now
  { state := { st with files := st.files.erase path }
    tree := d.tree.removeFile path (removes path) }

/-- `apply_revocations`. -/
def applyRevocations (d : Device) (manifestPaths : List Str) (rules : IgnoreRules) (now : Nat)
    (removes : Str → Bool) : Device :=
  (revokedPaths d.state manifestPaths rules).foldl (revoke now removes) d

/-! ## The half -/

/-- Whether this tick drains the whole manifest. -/
def reconciling (st : LocalSyncState) (now : Nat) : Bool :=
  RECONCILE_INTERVAL_SECS ≤ now - st.lastReconcileAt

/-- The device when the manifest is drained: the flags refreshed, the legacy sidecars relocated. -/
def beforePull (crypto : Crypto) (env : PullEnv) (d : Device) : Device :=
  { state := refreshDirty d.state (scanWorkspaceWith crypto d.state env.rules d.tree)
    tree := relocateSidecars env.rules d.tree env.moves }

/-- The end of the pull half, once the loop has gone through the rows `items`. -/
def afterPull (crypto : Crypto) (env : PullEnv) (snapshotSeq : Nat) (items : List ManifestItem)
    (d : Device) (pulls : List PullItem) : Device :=
  let st := forgetUnpullable d.state env.rules
  let full := reconciling st env.now
  let d := pullPhase crypto env.now env.chunks { d with state := st } (withQuarantinedRetries pulls st)
  let d := { d with state :=
    { d.state with lastServerSeq := nextHighWater d.state.lastServerSeq (some snapshotSeq) } }
  if full then
    let d := applyRevocations d (items.map (·.path)) env.rules env.now env.removes
    { d with state := { d.state with lastReconcileAt := env.now } }
  else d

/-- The pull half: the device afterwards, and the error that ended the tick. -/
def pullHalf (crypto : Crypto) (env : PullEnv) (d : Device) : Device × Option TickError :=
  let d := beforePull crypto env d
  match env.manifest with
  | .error e => (d, some (.sync e))
  | .ok (snapshotSeq, items) =>
    match manifestLoop env d items with
    | (d, _, some e) => (d, some e)
    | (d, pulls, none) => (afterPull crypto env snapshotSeq items d pulls, none)

/-! ## On a person's say-so -/

/-- `fetch_known`: download listed files. -/
def fetchKnown (crypto : Crypto) (now : Nat) (chunks : Nat → ChunkReply) (d : Device)
    (paths : List Str) : Device :=
  let items := paths.filterMap fun path => d.state.known[path]?.map fun known =>
    ({ path, cipherHash := known.cipherHash, version := known.version } : PullItem)
  let d := pullPhase crypto now chunks d items
  (items.map (·.path)).foldl (fun d path =>
    if d.state.files.contains path then { d with state := d.state.clearKnown path } else d) d

/-- `release_local`: give back the disk that documents occupy. -/
def releaseLocal (removes : Str → Bool) (d : Device) (paths : List Str) : Device :=
  paths.foldl (fun d path =>
    if isLazyPath path then
      match d.state.releaseLocal path with
      | none => d
      | some state => { state, tree := d.tree.removeFile path (removes path) }
    else d) d

end TeamClu.Sync
