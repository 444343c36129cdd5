import TeamClu.ForStd.SqlLike
import TeamClu.Native.SyncAcl
import Mathlib.Data.List.Sort

/-!
# The manifest endpoint and the rows it reads

`handleSyncManifest` of `services/fc/src/lib/sync-handlers.ts` over the `amuxc_files` rows of one
team, and the two database functions that write those rows, `amuxc_complete_upload` and
`amuxc_complete_delete` of `services/supabase/migrations/20260601000000_baseline.sql`.

The handler sends two statements, the read of `oss_change_seq` on a first page and the page query,
and other members' transactions may commit between them, so they are two definitions here.  An id
is a uuid, ordered as the number it writes.
-/

namespace TeamClu.Fc

/-- A row of `amuxc_files`. -/
structure FileRow where
  id : Nat
  path : Str
  currentVersion : Nat
  contentHash : Option Str
  size : Nat
  deleted : Bool
  changeSeq : Nat
  deriving DecidableEq

/-- What the sync endpoints read and write of one team: its change counter and its rows. -/
structure TeamFiles where
  ossChangeSeq : Nat
  files : List FileRow
  deriving DecidableEq

/-- The next-page cursor `{ seq, id }`. -/
structure Cursor where
  seq : Nat
  id : Nat
  deriving DecidableEq

/-- One item of a manifest page. -/
structure ManifestItem where
  path : Str
  version : Nat
  contentHash : Option Str
  size : Nat
  deleted : Bool
  changeSeq : Nat
  deriving DecidableEq

/-- One page of the manifest. -/
structure ManifestPage where
  snapshotSeq : Nat
  items : List ManifestItem
  nextCursor : Option Cursor
  deriving DecidableEq

/-! ## The page query -/

/-- PostgREST turns `*` into `%` in the value of a `like` filter. -/
def likeValue (value : Str) : Str := value.map fun c => if c = '*' then '%' else c

/-- The `NOT LIKE` conditions, one per denied prefix: whether a row with this path is kept. -/
def manifestKeeps (denied : List Str) (path : Str) : Bool :=
  denied.all fun aclPrefix => !SqlLike.like (likeValue (aclPrefix ++ ['%'])) path

/-- `change_seq.gt.seq,and(change_seq.eq.seq,id.gt.id)`: the row lies behind the cursor. -/
def behindCursor (cursor : Cursor) (row : FileRow) : Bool :=
  cursor.seq < row.changeSeq || (row.changeSeq == cursor.seq && cursor.id < row.id)

/-- `order by change_seq, id`. -/
def rowBefore (a b : FileRow) : Bool :=
  a.changeSeq < b.changeSeq || (a.changeSeq == b.changeSeq && a.id ≤ b.id)

/-- `Math.min(Math.max(1, Number(limit) || 200), 1000)`. -/
def pageLimit (limit : Nat) : Nat := min (max 1 (if limit = 0 then 200 else limit)) 1000

/-- The cursor of a first page. -/
def firstCursor : Cursor := { seq := 0, id := 0 }

/-- The rows the page query selects, in its order and without its limit. -/
def manifestRows (db : TeamFiles) (denied : List Str) (afterSeq snapshotSeq : Nat)
    (cursor : Cursor) : List FileRow :=
  (db.files.filter fun row =>
    afterSeq < row.changeSeq && row.changeSeq ≤ snapshotSeq && behindCursor cursor row &&
      manifestKeeps denied row.path).insertionSort (rowBefore · ·)

/-- A row as the page shows it. -/
def FileRow.toItem (row : FileRow) : ManifestItem :=
  { path := row.path, version := row.currentVersion, contentHash := row.contentHash
    size := row.size, deleted := row.deleted, changeSeq := row.changeSeq }

/-- The page query and the page built from its rows: one row more than the limit is read to learn
    whether another page follows. -/
def manifestPage (db : TeamFiles) (denied : List Str) (afterSeq limit snapshotSeq : Nat)
    (cursor : Option Cursor) : ManifestPage :=
  let lim := pageLimit limit
  let rows := (manifestRows db denied afterSeq snapshotSeq (cursor.getD firstCursor)).take (lim + 1)
  let items := (if lim < rows.length then rows.take lim else rows).map FileRow.toItem
  let nextCursor :=
    if lim < rows.length then
      items.getLast?.bind fun last =>
        (rows.find? fun r => r.changeSeq == last.changeSeq && r.path == last.path).map fun r =>
          { seq := last.changeSeq, id := r.id }
    else none
  { snapshotSeq, items, nextCursor }

/-- The snapshot of a drain: what the client sent, else the counter read before the query. -/
def snapshotSeq (db : TeamFiles) (clientSnapshotSeq : Option Nat) : Nat :=
  clientSnapshotSeq.getD db.ossChangeSeq

/-! ## Completed writes -/

/-- Why a completion fails: `P0404`, or `P0409` with the row the server holds. -/
inductive CompleteError where
  | notFound
  | casMismatch (remoteVersion : Nat) (remoteHash : Option Str)
  deriving DecidableEq

/-- `amuxc_complete_upload`: bump the counter, make sure the row exists (`newId` is the uuid a new
    row draws), compare its version with the parent and move it to the new counter value.  A
    failure rolls everything back. -/
def completeUpload (db : TeamFiles) (newId : Nat) (path : Str) (parentVersion : Nat)
    (contentHash : Str) (size : Nat) : Except CompleteError TeamFiles :=
  let seq := db.ossChangeSeq + 1
  let files :=
    if db.files.any (·.path == path) then db.files
    else db.files ++ [{ id := newId, path, currentVersion := 0, contentHash := none, size := 0,
                        deleted := false, changeSeq := 0 }]
  match files.find? (·.path == path) with
  | none => .error .notFound
  | some row =>
    if row.currentVersion ≠ parentVersion then
      .error (.casMismatch row.currentVersion row.contentHash)
    else
      .ok { ossChangeSeq := seq
            files := files.map fun r =>
              if r.id = row.id then
                { r with currentVersion := row.currentVersion + 1, contentHash := some contentHash,
                         size, deleted := false, changeSeq := seq }
              else r }

/-- `amuxc_complete_delete`: the same for a tombstone, on a row that exists. -/
def completeDelete (db : TeamFiles) (path : Str) (parentVersion : Nat) :
    Except CompleteError TeamFiles :=
  let seq := db.ossChangeSeq + 1
  match db.files.find? (·.path == path) with
  | none => .error .notFound
  | some row =>
    if row.currentVersion ≠ parentVersion then
      .error (.casMismatch row.currentVersion row.contentHash)
    else
      .ok { ossChangeSeq := seq
            files := db.files.map fun r =>
              if r.id = row.id then
                { r with currentVersion := row.currentVersion + 1, contentHash := none, size := 0,
                         deleted := true, changeSeq := seq }
              else r }

end TeamClu.Fc
