import Std.Data.ExtTreeMap
import Std.Data.ExtTreeSet
import TeamClu.ForStd.Text

/-!
# The local sync state

`LocalSyncState` of `apps/daemon/src/sync/oss/state.rs` with its operations, and `SyncError` of
`error.rs` with the texts that the engine records and classifies.  Of the state file the fields are
left out that the engine only carries along (`schema_version`, `team_id`, `last_sync_at`).
-/

namespace TeamClu.Sync

/-! ## Errors -/

/-- `SyncError`. -/
inductive SyncError where
  | conflict (remoteVersion : Option Nat) (remoteCipherHash : Option Str)
  | auth (detail : Str)
  | pathForbidden (detail : Str)
  | sessionExpired (detail : Str)
  | invalidPath (detail : Str)
  | network (detail : Str)
  | hashMismatch (expected actual : Str)
  | state (detail : Str)
  | crypto (detail : Str)
  | io (detail : Str)
  | internal (detail : Str)
  | notFound (detail : Str)
  | batchUnsupported
  deriving DecidableEq

/-- `{:?}` of an option whose value prints as `inner`. -/
def debugOption (inner : Option Str) : Str :=
  match inner with
  | none => "None".toList
  | some text => "Some(".toList ++ text ++ [')']

/-- `e.to_string()`.  A content hash is hex digits, so its quoted form escapes nothing. -/
def SyncError.toText : SyncError → Str
  | conflict version hash =>
    "conflict: remote_version=".toList ++ debugOption (version.map (Nat.toDigits 10)) ++
      ", remote_cipher_hash=".toList ++ debugOption (hash.map fun h => '"' :: h ++ ['"'])
  | auth detail => "auth: ".toList ++ detail
  | pathForbidden detail => "path forbidden: ".toList ++ detail
  | sessionExpired detail => "session expired: ".toList ++ detail
  | invalidPath detail => "invalid path: ".toList ++ detail
  | network detail => "network: ".toList ++ detail
  | hashMismatch expected actual =>
    "hash mismatch: expected ".toList ++ expected ++ ", got ".toList ++ actual
  | state detail => "state: ".toList ++ detail
  | crypto detail => "crypto: ".toList ++ detail
  | io detail => "io: ".toList ++ detail
  | internal detail => "internal: ".toList ++ detail
  | notFound detail => "not found: ".toList ++ detail
  | batchUnsupported => "batch endpoint unsupported (404)".toList

/-- Treat FC rate-limiting and transient unavailability as retryable. -/
def isTransient (e : SyncError) : Bool :=
  let m := e.toText.map Char.toLower
  ["429", "too many requests", "503", "temporarily", "timed out", "timeout"].any fun text =>
    Str.contains m text.toList

/-! ## Entries -/

/-- `u32::MAX`. -/
def U32_MAX : Nat := 2 ^ 32 - 1

/-- How long to leave a forbidden path alone before trying once more, in seconds. -/
def FORBIDDEN_RETRY_SECS : Nat := 24 * 60 * 60

/-- Per-file state entry. -/
structure FileState where
  syncedVersion : Nat
  syncedCipherHash : Str
  syncedPlainHash : Str
  localPlainHash : Str
  mtime : Nat
  size : Nat
  dirty : Bool
  deletedLocal : Bool
  deriving DecidableEq

/-- A file the server offered that this device could not decode or write. -/
structure QuarantinedPull where
  cipherHash : Str
  version : Nat
  reason : Str
  attempts : Nat
  deriving DecidableEq

/-- A local change the push could not send. -/
structure FailedPush where
  reason : Str
  attempts : Nat
  deriving DecidableEq

/-- A path the server refuses to serve this device. -/
structure ForbiddenPath where
  lastTriedAt : Nat
  reason : Str
  deriving DecidableEq

/-- A file the manifest lists that this device has not fetched. -/
structure KnownFile where
  version : Nat
  cipherHash : Str
  size : Nat
  deriving DecidableEq

/-- Full local sync state. -/
structure LocalSyncState where
  lastServerSeq : Nat := 0
  files : Std.ExtTreeMap Str FileState := ∅
  quarantined : Std.ExtTreeMap Str QuarantinedPull := ∅
  forbidden : Std.ExtTreeMap Str ForbiddenPath := ∅
  lastReconcileAt : Nat := 0
  known : Std.ExtTreeMap Str KnownFile := ∅
  pushFailures : Std.ExtTreeMap Str FailedPush := ∅

/-- The attempts after one more, on `u32`. -/
def nextAttempts (attempts : Option Nat) : Nat := attempts.elim 1 fun n => min (n + 1) U32_MAX

namespace LocalSyncState

/-- Record (or re-record) a file the pull could not apply. -/
def quarantine (st : LocalSyncState) (path cipherHash : Str) (version : Nat) (reason : Str) :
    LocalSyncState :=
  let attempts := nextAttempts (st.quarantined[path]?.map (·.attempts))
  { st with quarantined := st.quarantined.insert path { cipherHash, version, reason, attempts } }

/-- Record (or re-record) a local change the push could not send. -/
def notePushFailure (st : LocalSyncState) (path reason : Str) : LocalSyncState :=
  let attempts := nextAttempts (st.pushFailures[path]?.map (·.attempts))
  { st with pushFailures := st.pushFailures.insert path { reason, attempts } }

/-- Drop push failures for every path not in `pushing`. -/
def retainPushFailures (st : LocalSyncState) (pushing : List Str) : LocalSyncState :=
  { st with pushFailures := st.pushFailures.filter fun path _ => pushing.contains path }

/-- Insert or update a file entry after a successful download or upload. -/
def upsert (st : LocalSyncState) (path : Str) (syncedVersion : Nat)
    (syncedCipherHash syncedPlainHash localPlainHash : Str) (mtime size : Nat) : LocalSyncState :=
  { st with
    quarantined := st.quarantined.erase path
    pushFailures := st.pushFailures.erase path
    files := st.files.insert path { syncedVersion, syncedCipherHash, syncedPlainHash, localPlainHash
                                    mtime, size, dirty := false, deletedLocal := false } }

/-- Record a manifest entry without fetching it. -/
def noteKnown (st : LocalSyncState) (path : Str) (version : Nat) (cipherHash : Str) (size : Nat) :
    LocalSyncState :=
  if st.files.contains path then st
  else { st with known := st.known.insert path { version, cipherHash, size } }

/-- Forget a `known` entry. -/
def clearKnown (st : LocalSyncState) (path : Str) : LocalSyncState :=
  { st with known := st.known.erase path }

/-- Give up the local copy of a file, keeping the knowledge that it exists; refused, with `none`,
    for unpushed local edits. -/
def releaseLocal (st : LocalSyncState) (path : Str) : Option LocalSyncState :=
  match st.files[path]? with
  | none => none
  | some entry =>
    if entry.dirty || entry.deletedLocal then none
    else some { st with
      files := st.files.erase path
      known := st.known.insert path
        { version := entry.syncedVersion, cipherHash := entry.syncedCipherHash, size := entry.size } }

/-- Remember that the server refuses this path. -/
def markForbidden (st : LocalSyncState) (path reason : Str) (nowSecs : Nat) : LocalSyncState :=
  { st with
    quarantined := st.quarantined.erase path
    pushFailures := st.pushFailures.erase path
    forbidden := st.forbidden.insert path { lastTriedAt := nowSecs, reason }
    files := st.files.modify path fun f => { f with dirty := false } }

/-- Whether the push side should skip this path right now. -/
def isForbiddenNow (st : LocalSyncState) (path : Str) (nowSecs : Nat) : Bool :=
  match st.forbidden[path]? with
  | none => false
  | some f => nowSecs - f.lastTriedAt < FORBIDDEN_RETRY_SECS

/-- Drop the refusal. -/
def clearForbidden (st : LocalSyncState) (path : Str) : LocalSyncState :=
  { st with forbidden := st.forbidden.erase path }

/-- Record a tombstone for a path that was deleted. -/
def markTombstoned (st : LocalSyncState) (path : Str) (version : Nat) : LocalSyncState :=
  { st with
    quarantined := st.quarantined.erase path
    files := st.files.modify path fun f =>
      { f with syncedVersion := version, deletedLocal := true, dirty := false } }

/-- Advance a dirty file's `synced_version` to the server tombstone version. -/
def advanceDirtyToTombstone (st : LocalSyncState) (path : Str) (version : Nat) : LocalSyncState :=
  { st with
    files := st.files.modify path fun f => if f.dirty then { f with syncedVersion := version } else f }

end LocalSyncState

end TeamClu.Sync
