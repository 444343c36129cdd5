import TeamClu.Native.Conflict
import TeamClu.Native.IgnoreRules
import TeamClu.Native.SyncState

/-!
# The workspace scanner

`scan_workspace_with` of `apps/daemon/src/sync/oss/scanner.rs`, and the two ways the engine applies a
scan to its state, `refresh_dirty` and `apply_scan`.

SHA-256 and the blob envelope are the parameter `Crypto`.
-/

namespace TeamClu.Sync

/-- The functions of `crypto.rs` that the engine calls. -/
structure Crypto where
  sha256Hex : Bytes → Str
  /-- `decode_blob` with the key of the team, if it has one. -/
  decodeBlob : Bytes → Except Str Bytes

/-- A file found during the scan. -/
structure ScannedFile where
  relPath : Str
  mtime : Nat
  size : Nat
  localPlainHash : Str
  dirty : Bool
  deriving DecidableEq

/-- `filter_entry`: neither the conflicts directory nor ignored. -/
def keepsEntry (rules : IgnoreRules) (rel : Str) (isDir : Bool) : Bool :=
  !isUnderConflictsDir rel && !rules.isIgnored rel isDir

/-- Whether the walk comes to the file at this path: it is below a sync prefix, and nothing on the
    way to it is pruned. -/
def walks (rules : IgnoreRules) (rel : Str) : Bool :=
  isAllowed rel && (ancestors rel).all (keepsEntry rules · true) && keepsEntry rules rel false

/-- One file of the scan: clean when its time and size are those in the state, else read and
    hashed. -/
def scanFile (crypto : Crypto) (st : LocalSyncState) (rel : Str) (file : DiskFile) :
    Option ScannedFile :=
  let unchanged := st.files[rel]?.filter fun fs => fs.mtime == file.mtime && fs.size == file.size
  match unchanged with
  | some fs =>
    some { relPath := rel, mtime := file.mtime, size := file.size
           localPlainHash := fs.localPlainHash, dirty := false }
  | none =>
    if !file.readable then none
    else
      let localPlainHash := crypto.sha256Hex file.bytes
      let dirty := (st.files[rel]?.map fun fs => fs.syncedPlainHash != localPlainHash).getD true
      some { relPath := rel, mtime := file.mtime, size := file.size, localPlainHash, dirty }

/-- The files the walk comes to. -/
def walkedFiles (rules : IgnoreRules) (tree : ContentTree) : List (Str × DiskFile) :=
  tree.toList.filter fun (rel, file) => walks rules rel && file.listed

/-- The files that `scan_workspace_with` returns. -/
def scanWorkspaceWith (crypto : Crypto) (st : LocalSyncState) (rules : IgnoreRules)
    (tree : ContentTree) : List ScannedFile :=
  (walkedFiles rules tree).filterMap fun (rel, file) =>
    if isConflictFile rel then none else scanFile crypto st rel file

/-- What `scan_workspace_with` does to the tree after its walk: it relocates the sidecars that sit
    beside their documents, where the file system lets it. -/
def relocateSidecars (rules : IgnoreRules) (tree : ContentTree) (moves : Str → Bool) : ContentTree :=
  ((walkedFiles rules tree).filter fun (rel, _) => isConflictFile rel).foldl
    (fun tree (rel, _) => migrateLegacyConflictSidecar tree rel (moves rel)) tree

/-! ## Applying a scan -/

/-- `refresh_dirty`: only the `dirty` flag. -/
def refreshDirty (st : LocalSyncState) (scan : List ScannedFile) : LocalSyncState :=
  { st with
    files := scan.foldl (fun files scanned =>
      files.modify scanned.relPath fun fs => { fs with dirty := scanned.dirty }) st.files }

/-- `apply_scan`: time, size, hash and flag. -/
def applyScan (st : LocalSyncState) (scan : List ScannedFile) : LocalSyncState :=
  { st with
    files := scan.foldl (fun files scanned =>
      files.modify scanned.relPath fun fs =>
        { fs with mtime := scanned.mtime, size := scanned.size
                  localPlainHash := scanned.localPlainHash, dirty := scanned.dirty }) st.files }

end TeamClu.Sync
