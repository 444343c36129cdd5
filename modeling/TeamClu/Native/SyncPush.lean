import TeamClu.Native.SyncPull

/-!
# The push half of a tick

What `tick_with_progress` of `apps/daemon/src/sync/oss/engine.rs` does after its pull: scan again,
plan the uploads behind the two name-blind guards, upload, infer the local deletions from the scan
and broadcast them behind a guard of their own.

An upload is settled file by file: what the batch endpoints, the presigned `PUT` and the per-file
fallback answer for one path, a failure of the whole batch included, is one `PushReply`.  The user
may change a file while its upload is under way.
-/

namespace TeamClu.Sync

/-- Largest single file the sync will carry, in bytes. -/
def MAX_FILE_BYTES : Nat := 25 * 1024 * 1024

/-- How many previously-unseen files one tick will push without being asked twice. -/
def MAX_NEW_FILES_PER_TICK : Nat := 2000

/-- Most tombstones one tick may broadcast before it stops and asks. -/
def MAX_DELETES_PER_TICK : Nat := 200

/-- How the upload of one path ends. -/
inductive PushReply where
  /-- Prepare, `PUT` or complete failed, for this path or its batch. -/
  | failed (e : SyncError)
  | forbidden (message : Str)
  /-- A conflict at prepare, which the engine passes over. -/
  | passedOver
  /-- The server has a newer version, which is downloaded if it names one. -/
  | conflict (remoteVersion : Option Nat) (remoteCipherHash : Option Str)
      (download : Except SyncError Transfer)
  | completed (version : Nat) (contentHash : Str)

/-- How the deletion of one path ends. -/
inductive DeleteReply where
  | deleted (version : Nat)
  | conflict
  | forbidden (message : Str)
  | failed (e : SyncError)

/-- The answers to the push half of one tick. -/
structure PushEnv where
  now : Nat
  moves : Str → Bool := fun _ => true
  allowBulkAdd : Bool := false
  allowBulkDelete : Bool := false
  /-- The error text when a file cannot be read. -/
  ioMessage : Str → Str := fun _ => []
  /-- What the user makes of a file between its reading and the answer. -/
  meanwhile : Str → Option (Option DiskFile) := fun _ => none
  reply : Str → PushReply
  sidecar : Str → SidecarReply
  deleteReply : Str → DeleteReply

/-! ## What to push -/

/-- The tracked files whose flag is set. -/
def dirtyPaths (st : LocalSyncState) : List Str :=
  (st.files.toList.filter fun (_, f) => f.dirty && !f.deletedLocal).map (·.1)

/-- New files from the scan, not yet in the state. -/
def extraDirty (st : LocalSyncState) (scan : List ScannedFile) : List Str :=
  (scan.filter fun s => s.dirty && !st.files.contains s.relPath).map (·.relPath)

/-- Tombstoned paths that are back on disk. -/
def readdPaths (st : LocalSyncState) (scan : List ScannedFile) : List Str :=
  (st.files.toList.filter fun (p, f) =>
    f.deletedLocal && (scan.map (·.relPath)).contains p).map (·.1)

/-- What a push should actually send, and what it is holding back. -/
structure PushPlan where
  toPush : List Str
  oversize : List Str
  blockedNewFiles : Option Nat
  deriving DecidableEq

/-- Whether the scan found the path above the size limit. -/
def tooBig (scan : List ScannedFile) (path : Str) : Bool :=
  ((scan.find? (·.relPath == path)).map (·.size)).any (MAX_FILE_BYTES < ·)

/-- Apply the two name-blind guards to the push candidates. -/
def planPush (dirtyPaths extraDirty readdPaths : List Str) (scan : List ScannedFile)
    (allowBulkAdd : Bool) : PushPlan :=
  if !allowBulkAdd && MAX_NEW_FILES_PER_TICK < extraDirty.length then
    { toPush := [], oversize := [], blockedNewFiles := some extraDirty.length }
  else
    -- `sort` and `dedup`
    let candidates := (Std.ExtTreeSet.ofList (dirtyPaths ++ extraDirty ++ readdPaths) compare).toList
    { toPush := candidates.filter (!tooBig scan ·), oversize := candidates.filter (tooBig scan ·)
      blockedNewFiles := none }

/-! ## Uploading -/

/-- A push failure: a transient one is deferred to the next tick, any other is recorded. -/
def recordPushError (st : LocalSyncState) (path : Str) (e : SyncError) : LocalSyncState :=
  if isTransient e then st else st.notePushFailure path e.toText

/-- Apply a successful upload of `blob`, measuring the file again. -/
def finalizeUpload (crypto : Crypto) (d : Device) (path : Str) (blob : Bytes) (version : Nat)
    (contentHash : Str) : Device :=
  let plainHash := crypto.sha256Hex blob
  let (mtime, size) := match d.tree[path]? with
    | some file => (file.mtime, file.size)
    | none => (0, blob.length)
  { d with state := d.state.upsert path version contentHash plainHash plainHash mtime size }

/-- Save the local content as a sidecar, then pull the remote version that beat us. -/
def handlePushConflict (crypto : Crypto) (d : Device) (path : Str) (remoteVersion : Option Nat)
    (remoteCipherHash : Option Str) (download : Except SyncError Transfer) (reply : SidecarReply) :
    Device :=
  let tree := match d.tree.read path with
    | some localBytes =>
      let localHash := (d.state.files[path]?.map (·.syncedCipherHash)).getD "unknown".toList
      writeConflictSidecar d.tree path localBytes localHash reply
    | none => d.tree
  match remoteCipherHash with
  | none => { d with tree }
  | some cipherHash =>
    let item : PullItem := { path, cipherHash, version := remoteVersion.getD 0 }
    (downloadAndWrite crypto { d with tree } item download).1

/-- The file after what the user makes of it. -/
def editFile (tree : ContentTree) (path : Str) (file : Option DiskFile) : ContentTree :=
  match file with
  | some file => tree.insert path file
  | none => tree.erase path

/-- One path of `push_phase`. -/
def pushPath (crypto : Crypto) (env : PushEnv) (d : Device) (path : Str) : Device :=
  match d.tree.read path with
  | none => { d with state := recordPushError d.state path (.io (env.ioMessage path)) }
  | some blob =>
    let d := { d with tree := (env.meanwhile path).elim d.tree (editFile d.tree path) }
    match env.reply path with
    | .failed e => { d with state := recordPushError d.state path e }
    | .forbidden message => { d with state := d.state.markForbidden path message env.now }
    | .passedOver => d
    | .conflict remoteVersion remoteCipherHash download =>
      handlePushConflict crypto d path remoteVersion remoteCipherHash download (env.sidecar path)
    | .completed version contentHash => finalizeUpload crypto d path blob version contentHash

/-- `push_phase`. -/
def pushPhase (crypto : Crypto) (env : PushEnv) (d : Device) (paths : List Str) : Device :=
  paths.foldl (pushPath crypto env) { d with state := d.state.retainPushFailures paths }

/-! ## Deleting -/

/-- Paths previously synced but absent from the current scan, with the version to delete. -/
def locallyDeletedPaths (st : LocalSyncState) (scan : List ScannedFile) (rules : IgnoreRules) :
    List (Str × Nat) :=
  (st.files.toList.filter fun (p, f) =>
    !f.deletedLocal && 0 < f.syncedVersion && !(scan.map (·.relPath)).contains p &&
      !rules.isIgnoredWithAncestors p).map fun (p, f) => (p, f.syncedVersion)

/-- Hold back a tombstone batch that is too large to send unasked. -/
def applyDeleteGuard (dels : List (Str × Nat)) (allowBulkDelete : Bool) :
    List (Str × Nat) × Option Nat :=
  if !allowBulkDelete && MAX_DELETES_PER_TICK < dels.length then ([], some dels.length)
  else (dels, none)

/-- One path of `delete_phase`. -/
def deletePath (env : PushEnv) (st : LocalSyncState) (path : Str) : LocalSyncState :=
  match env.deleteReply path with
  | .deleted version => st.markTombstoned path version
  | .conflict => st
  | .forbidden message => st.markForbidden path message env.now
  | .failed _ => st

/-! ## The half -/

/-- The state and the tree once the push has scanned, with its scan. -/
def scanned (crypto : Crypto) (env : PushEnv) (rules : IgnoreRules) (d : Device) :
    Device × List ScannedFile :=
  let scan := scanWorkspaceWith crypto d.state rules d.tree
  ({ state := applyScan d.state scan, tree := relocateSidecars rules d.tree env.moves }, scan)

/-- What the push sends: the plan, less the paths that the server restricts. -/
def pushed (env : PushEnv) (st : LocalSyncState) (scan : List ScannedFile) : List Str :=
  (planPush (dirtyPaths st) (extraDirty st scan) (readdPaths st scan) scan env.allowBulkAdd).toPush.filter
    (!st.isForbiddenNow · env.now)

/-- The push half: the device afterwards, and the deletions that were sent. -/
def pushHalf (crypto : Crypto) (env : PushEnv) (rules : IgnoreRules) (d : Device) :
    Device × List (Str × Nat) :=
  let (d, scan) := scanned crypto env rules d
  let d := pushPhase crypto env d (pushed env d.state scan)
  let (dels, _) := applyDeleteGuard (locallyDeletedPaths d.state scan rules) env.allowBulkDelete
  ({ d with state := dels.foldl (fun st (p, _) => deletePath env st p) d.state }, dels)

end TeamClu.Sync
