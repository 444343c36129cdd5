import TeamClu.Native.SyncHandlers

/-!
# The file history of a team

`amuxc_complete_upload` and `amuxc_complete_delete` of
`services/supabase/migrations/20260601000000_baseline.sql` over all the tables that they read and
write: the rows of the manifest, the version chain, the upload sessions and the blobs.  Each is one
transaction of a team that has its `team_workspace_config` row, whose update serialises it with the
others; a raised error rolls it back whole.
-/

namespace TeamClu.Fc

/-- `amuxc_upload_sessions.status`. -/
inductive SessionStatus where
  | pending
  | completed
  | abandoned
  deriving DecidableEq

/-- A row of `amuxc_upload_sessions`. -/
structure UploadSession where
  id : Nat
  actorId : Str
  path : Str
  parentVersion : Nat
  contentHash : Str
  size : Nat
  status : SessionStatus := .pending
  expiresAt : Nat
  deriving DecidableEq

/-- A row of `amuxc_file_versions`. -/
structure VersionRow where
  fileId : Nat
  version : Nat
  parentVersion : Nat
  contentHash : Option Str
  size : Nat
  deleted : Bool
  createdBy : Str
  deriving DecidableEq

/-- A row of `amuxc_blobs`. -/
structure BlobRow where
  contentHash : Str
  size : Nat
  verified : Bool
  deriving DecidableEq

/-- The sync tables of one team. -/
structure TeamStore where
  team : TeamFiles := { ossChangeSeq := 0, files := [] }
  versions : List VersionRow := []
  sessions : List UploadSession := []
  blobs : List BlobRow := []
  deriving DecidableEq

/-- Why a transaction is rolled back. -/
inductive TransactionError where
  | sessionNotFound
  | notOwner
  | sessionStatus (status : SessionStatus)
  | sessionExpired
  /-- The uuid that a new row draws is taken: the primary key refuses it. -/
  | duplicateId
  | write (e : CompleteError)
  deriving DecidableEq

/-- What a transaction that commits has written. -/
structure CompletedWrite where
  path : Str
  version : Nat
  parentVersion : Nat
  contentHash : Option Str
  changeSeq : Nat
  deriving DecidableEq

/-- The id of the row of a path, or the one that a new row draws. -/
def TeamFiles.fileId (db : TeamFiles) (path : Str) (newId : Nat) : Nat :=
  ((db.files.find? (·.path == path)).map (·.id)).getD newId

/-- `amuxc_complete_upload`.  `v_new_ver` is the parent version plus one, since the versions were
    compared before. -/
def amuxcCompleteUpload (s : TeamStore) (sessionId : Nat) (actorId : Str) (now newId : Nat) :
    Except TransactionError (TeamStore × CompletedWrite) :=
  match s.sessions.find? (·.id == sessionId) with
  | none => .error .sessionNotFound
  | some session =>
    if session.actorId ≠ actorId then .error .notOwner
    else if session.status ≠ .pending then .error (.sessionStatus session.status)
    else if session.expiresAt < now then .error .sessionExpired
    else if (s.team.files.find? (·.path == session.path)).isNone && s.team.files.any (·.id == newId)
      then .error .duplicateId
    else
      match completeUpload s.team newId session.path session.parentVersion session.contentHash
        session.size with
      | .error e => .error (.write e)
      | .ok team =>
        .ok ({ team
               versions := s.versions ++
                [{ fileId := s.team.fileId session.path newId, version := session.parentVersion + 1
                   parentVersion := session.parentVersion, contentHash := some session.contentHash
                   size := session.size, deleted := false, createdBy := actorId }]
               sessions := s.sessions.map fun x =>
                if x.id = sessionId then { x with status := .completed } else x
               blobs := s.blobs.map fun b =>
                if b.contentHash = session.contentHash then { b with verified := true } else b },
             { path := session.path, version := session.parentVersion + 1
               parentVersion := session.parentVersion, contentHash := some session.contentHash
               changeSeq := team.ossChangeSeq })

/-- `amuxc_complete_delete`. -/
def amuxcCompleteDelete (s : TeamStore) (path : Str) (parentVersion : Nat) (actorId : Str) :
    Except TransactionError (TeamStore × CompletedWrite) :=
  match completeDelete s.team path parentVersion with
  | .error e => .error (.write e)
  | .ok team =>
    .ok ({ s with
           team
           versions := s.versions ++
            [{ fileId := s.team.fileId path 0, version := parentVersion + 1, parentVersion
               contentHash := none, size := 0, deleted := true, createdBy := actorId }] },
         { path, version := parentVersion + 1, parentVersion, contentHash := none
           changeSeq := team.ossChangeSeq })

/-- `oss_sync_abandon_expired_sessions`, with times in seconds. -/
def abandonExpiredSessions (s : TeamStore) (now : Nat) : TeamStore :=
  let sessions := s.sessions.map fun x =>
    if x.status = .pending ∧ x.expiresAt < now then { x with status := .abandoned } else x
  { s with sessions := sessions.filter fun x =>
      !(x.status = .abandoned && x.expiresAt + 24 * 60 * 60 < now) }

/-- The insertion of an upload session, whose uuid must be new. -/
def insertSession (s : TeamStore) (session : UploadSession) : TeamStore :=
  if s.sessions.any (·.id == session.id) then s
  else { s with sessions := s.sessions ++ [{ session with status := .pending }] }

end TeamClu.Fc
