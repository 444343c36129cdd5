import TeamClu.Native.FileHistory
import TeamClu.Native.SyncPath

/-!
# Content-addressed uploads and downloads

`handleSyncUploadPrepare`, `handleSyncUploadComplete`, `handleSyncDownload` and `handleSyncDelete` of
`services/fc/src/lib/sync-handlers.ts` over the tables of one team and its object storage.  The blob
of a hash lies at the hash's own key; a presigned URL lets its holder put any bytes there.
-/

namespace TeamClu.Fc

/-- The contents of a blob. -/
abbrev Bytes := List UInt8

/-- The tables, the object storage (newest object of a key first) and the presigned URLs that the
    actors hold. -/
structure SyncServer where
  store : TeamStore := {}
  objects : List (Str × Bytes) := []
  uploadUrls : List (Str × Str) := []

/-- `teams/{teamId}/blobs/sha256/<2chars>/<2chars>/<hash>`. -/
def ossKeyForHash (teamId hash : Str) : Str :=
  "teams/".toList ++ teamId ++ "/blobs/sha256/".toList ++ hash.take 2 ++ ['/'] ++
    (hash.drop 2).take 2 ++ ['/'] ++ hash

/-- The size of the object at a key. -/
def SyncServer.stat (s : SyncServer) (key : Str) : Option Nat :=
  (s.objects.find? (·.1 == key)).map (·.2.length)

/-- The row of a blob. -/
def SyncServer.blob (s : SyncServer) (contentHash : Str) : Option BlobRow :=
  s.store.blobs.find? (·.contentHash == contentHash)

/-! ## Prepare -/

/-- Directory names that the write path refuses. -/
def REJECTED_DIR_NAMES : List Str :=
  ["node_modules".toList, ".git".toList, ".svn".toList, ".hg".toList, "__pycache__".toList,
    ".pnpm-store".toList]

/-- File names that the write path refuses. -/
def REJECTED_FILE_NAMES : List Str := [".DS_Store".toList, "Thumbs.db".toList, "desktop.ini".toList]

/-- Whether the write path refuses the path: a refused directory name in any segment, or a refused
    file name at the end. -/
def isRejectedSyncPath (path : Str) : Bool :=
  let segments := path.splitOn '/'
  let leaf := segments.getLast?.getD []
  segments.dropLast.any (REJECTED_DIR_NAMES.contains ·) ||
    REJECTED_DIR_NAMES.contains leaf || REJECTED_FILE_NAMES.contains leaf

/-- Whether the client has to put the bytes: never for a verified blob. -/
def blobRequiresUpload (s : SyncServer) (ossKey : Str) (size : Nat) (verified : Bool) : Bool :=
  if verified then false else s.stat ossKey != some size

/-- The body of a prepare. -/
structure PrepareBody where
  path : Str
  parentVersion : Nat
  contentHash : Str
  size : Nat

/-- What a prepare meets: the two ceilings, the clock in seconds and the uuid of the session. -/
structure PrepareEnv where
  isOverFileQuota : Bool := false
  isOverByteQuota : Bool := false
  now : Nat
  sessionId : Nat

/-- The answer of a prepare. -/
inductive PrepareResponse where
  | invalidPath (message : List UInt16)
  | ignoredPath
  | pathForbidden
  | contentHashRequired
  | fileQuotaExceeded
  | byteQuotaExceeded
  | sessionFailed
  | ok (uploadSessionId : Nat) (ossKey : Str) (requiresUpload : Bool) (presignedPut : Option Str)
  deriving DecidableEq

/-- `POST /sync/upload/prepare`. -/
def handleSyncUploadPrepare (teamId actorId : Str) (view : AclView) (body : PrepareBody)
    (env : PrepareEnv) (s : SyncServer) : SyncServer × PrepareResponse :=
  match validateSyncPath body.path with
  | .invalidPath message => (s, .invalidPath message)
  | .ok =>
    if isRejectedSyncPath body.path then (s, .ignoredPath)
    else if isDenied body.path view then (s, .pathForbidden)
    else if body.contentHash = [] then (s, .contentHashRequired)
    else if env.isOverFileQuota then (s, .fileQuotaExceeded)
    else if env.isOverByteQuota then (s, .byteQuotaExceeded)
    else
      let ossKey := ossKeyForHash teamId body.contentHash
      let known := s.blob body.contentHash
      -- the upsert leaves an existing row as it is
      let blobs := if known.isSome then s.store.blobs
        else s.store.blobs ++ [{ contentHash := body.contentHash, size := body.size, verified := false }]
      let store := { s.store with blobs }
      if store.sessions.any (·.id == env.sessionId) then ({ s with store }, .sessionFailed)
      else
        let session : UploadSession :=
          { id := env.sessionId, actorId, path := body.path, parentVersion := body.parentVersion
            contentHash := body.contentHash, size := body.size, expiresAt := env.now + 3600 }
        let requiresUpload := blobRequiresUpload s ossKey body.size ((known.map (·.verified)).getD false)
        let uploadUrls :=
          if requiresUpload then s.uploadUrls ++ [(actorId, ossKey)] else s.uploadUrls
        ({ s with store := insertSession store session, uploadUrls },
          .ok env.sessionId ossKey requiresUpload (if requiresUpload then some ossKey else none))

/-- A client puts bytes at a key that it holds a URL for. -/
def SyncServer.putObject (s : SyncServer) (actorId ossKey : Str) (bytes : Bytes) : SyncServer :=
  if s.uploadUrls.contains (actorId, ossKey) then
    { s with objects := (ossKey, bytes) :: s.objects }
  else s

/-! ## Complete and delete -/

/-- The answer of a completion or of a delete. -/
inductive CompleteResponse where
  | invalidPath (message : List UInt16)
  | pathForbidden
  | sessionNotFound
  | notOwner
  | sessionStatus (status : SessionStatus)
  | sessionExpired
  | blobMissingOrSizeMismatch (expected : Nat) (actual : Option Nat)
  | failed (e : TransactionError)
  | ok (write : CompletedWrite)
  deriving DecidableEq

/-- `POST /sync/upload/complete`; `newId` is the uuid that a new file row draws. -/
def handleSyncUploadComplete (teamId actorId : Str) (uploadSessionId now newId : Nat)
    (s : SyncServer) : SyncServer × CompleteResponse :=
  match s.store.sessions.find? (·.id == uploadSessionId) with
  | none => (s, .sessionNotFound)
  | some session =>
    if session.actorId ≠ actorId then (s, .notOwner)
    else if session.status ≠ .pending then (s, .sessionStatus session.status)
    else if session.expiresAt < now then (s, .sessionExpired)
    else
      let stat := s.stat (ossKeyForHash teamId session.contentHash)
      if stat ≠ some session.size then (s, .blobMissingOrSizeMismatch session.size stat)
      else
        match amuxcCompleteUpload s.store uploadSessionId actorId now newId with
        | .error e => (s, .failed e)
        | .ok (store, write) => ({ s with store }, .ok write)

/-- `POST /sync/delete`. -/
def handleSyncDelete (actorId : Str) (view : AclView) (path : Str) (parentVersion : Nat)
    (s : SyncServer) : SyncServer × CompleteResponse :=
  match validateSyncPath path with
  | .invalidPath message => (s, .invalidPath message)
  | .ok =>
    if isDenied path view then (s, .pathForbidden)
    else
      match amuxcCompleteDelete s.store path parentVersion actorId with
      | .error e => (s, .failed e)
      | .ok (store, write) => ({ s with store }, .ok write)

/-! ## Download -/

/-- Every path that has ever pointed at the hash: by a current pointer, or by a version. -/
def pathsForContentHash (s : TeamStore) (contentHash : Str) : List Str :=
  let current := (s.team.files.filter (·.contentHash == some contentHash)).map (·.path)
  let fileIds := (s.versions.filter (·.contentHash == some contentHash)).map (·.fileId)
  (current ++ (s.team.files.filter fun f => fileIds.contains f.id).map (·.path)).dedup

/-- Whether the caller may fetch the blob: some path that references it is visible to him. -/
def blobAccessDecision (s : TeamStore) (contentHash : Str) (view : AclView) : Bool :=
  let paths := pathsForContentHash s contentHash
  paths.isEmpty || !(paths.filter fun p => !isDenied p view).isEmpty

/-- The answer of a download. -/
inductive DownloadResponse where
  | contentHashRequired
  | pathForbidden
  | blobNotFound
  | blobNotVerified
  | ok (downloadUrl : Str) (size : Nat)
  deriving DecidableEq

/-- `POST /sync/download`. -/
def handleSyncDownload (teamId : Str) (view : AclView) (contentHash : Str) (s : SyncServer) :
    DownloadResponse :=
  if contentHash = [] then .contentHashRequired
  else if (!view.denied.isEmpty || !view.allPrefixes.isEmpty) &&
      !blobAccessDecision s.store contentHash view then .pathForbidden
  else
    match s.blob contentHash with
    | none => .blobNotFound
    | some blob =>
      if !blob.verified then .blobNotVerified
      else .ok (ossKeyForHash teamId contentHash) blob.size

end TeamClu.Fc
