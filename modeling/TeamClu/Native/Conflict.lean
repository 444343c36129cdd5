import TeamClu.Native.ContentTree
import TeamClu.Native.PathValidator
import TeamClu.Native.SyncPath

/-!
# Conflict sidecars

The names of `apps/daemon/src/sync/oss/conflict.rs` and how they are read back, the test of
`scanner.rs` for a file that has such a name, and the relocation of a sidecar that still sits beside
its document.
-/

namespace TeamClu.Sync

/-- Directory name under each sync prefix that holds conflict copies. -/
def CONFLICTS_DIR : Str := ".conflicts".toList

/-- `prefix.trim_end_matches('/')`. -/
def trimSlash (s : Str) : Str := s.rdropWhile (· == '/')

/-! ## Names -/

/-- `foo.md` → `foo.conflict.<ts>.<hash>.md`.  A content hash is hex digits, so its first eight bytes
    are its first eight characters. -/
def conflictFileName (filename : Str) (unixTs : Nat) (cipherHash : Str) : Str :=
  let (stem, ext) := match Str.rsplitOnce '.' filename with
    | some (stem, ext) => (stem, ext)
    | none => (filename, [])
  let name := stem ++ ".conflict.".toList ++ Nat.toDigits 10 unixTs ++ ['.'] ++ cipherHash.take 8
  if ext = [] then name else name ++ '.' :: ext

/-- Insert `.conflicts` after the first sync-prefix component of a relative dir. -/
def insertConflictsRel (dir : Str) : Option Str :=
  let parts := (dir.splitOn '/').filter (· ≠ [])
  (parts.findIdx? fun p => ALLOWED_PREFIXES.any fun a => p == trimSlash a).map fun idx =>
    ['/'].intercalate (parts.insertIdx (idx + 1) CONFLICTS_DIR)

/-- Sidecar path for the document at `relPath`, content-root relative.  A path that `validate` lets
    through has no backslash, so there is none to replace. -/
def conflictRelPath (relPath : Str) (unixTs : Nat) (cipherHash : Str) : Str :=
  match Str.rsplitOnce '/' relPath with
  | some (dir, filename) =>
    let conflictName := conflictFileName filename unixTs cipherHash
    match insertConflictsRel dir with
    | some withConflicts => withConflicts ++ '/' :: conflictName
    | none => dir ++ '/' :: conflictName
  | none => conflictFileName relPath unixTs cipherHash

/-- Whether a relative sync path sits under `<prefix>/.conflicts/`. -/
def isUnderConflictsDir (relPath : Str) : Bool :=
  ALLOWED_PREFIXES.any fun aPrefix =>
    let marker := trimSlash aPrefix ++ '/' :: CONFLICTS_DIR
    relPath == marker || (marker ++ ['/']).isPrefixOf relPath

/-- `has_conflict_infix`: `<stem>.conflict.<unix_ts>.<hash>[.<ext>]`. -/
def hasConflictInfix (name : Str) : Bool :=
  match Str.splitOnce ".conflict.".toList name with
  | none => false
  | some (_, suffix) =>
    match suffix.splitOn '.' with
    | ts :: hash :: _ => ts ≠ [] && ts.all Char.isDigit && hash ≠ []
    | _ => false

/-- Returns true if the relative path is a conflict sidecar. -/
def isConflictFile (relPath : Str) : Bool :=
  match Str.rsplitOnce '/' relPath with
  | some (_, filename) => hasConflictInfix filename
  | none => hasConflictInfix relPath

/-- `knowledge/a/foo.conflict.ts.hash.md` → `knowledge/.conflicts/a/foo.conflict.ts.hash.md`. -/
def legacyRelToConflictsRel (rel : Str) : Option Str :=
  match Str.rsplitOnce '/' rel with
  | none => none
  | some (dir, filename) => (insertConflictsRel dir).map (· ++ '/' :: filename)

/-! ## Reading a name back -/

/-- The name of a sync prefix. -/
def isPrefixName (part : Str) : Bool := ALLOWED_PREFIXES.any fun a => part == trimSlash a

/-- The loop of `strip_conflicts_segment`: a `.conflicts` right after a prefix name is left out. -/
def stripParts : List Str → List Str
  | part :: next :: rest =>
    if isPrefixName part && next == CONFLICTS_DIR then part :: stripParts rest
    else part :: stripParts (next :: rest)
  | parts => parts

/-- Drop the `.conflicts` segment that sits under a sync prefix. -/
def stripConflictsSegment (dir : Str) : Str :=
  ['/'].intercalate (stripParts ((dir.splitOn '/').filter (· ≠ [])))

/-- The name of the document: the stem before the marker and what follows the last dot behind it. -/
def originalName (filename : Str) : Option Str :=
  match Str.splitOnce ".conflict.".toList filename with
  | none => none
  | some (stem, suffix) =>
    let suffixParts := suffix.splitOn '.'
    match suffixParts.length with
    | 0 | 1 => none
    | 2 => some stem
    | _ => some (stem ++ '.' :: suffixParts.getLastD [])

/-- Reconstruct the original file's relative path from a conflict sidecar's relative path. -/
def originalFromConflict (relPath : Str) : Option Str :=
  match Str.rsplitOnce '/' relPath with
  | some (dir, filename) =>
    (originalName filename).map fun name =>
      let dir := stripConflictsSegment dir
      if dir = [] then name else dir ++ '/' :: name
  | none => originalName relPath

/-- `parse::<u64>()`: an optional plus sign and at least one digit, unless the number is too large. -/
def parseU64 (s : Str) : Option Nat :=
  let digits := if s.head? = some '+' then s.tail else s
  if digits = [] || !digits.all Char.isDigit then none
  else
    let n := Nat.ofDigitChars 10 digits 0
    if n < 2 ^ 64 then some n else none

/-- The unix timestamp a sidecar records in its name. -/
def conflictTimestamp (relPath : Str) : Option Nat :=
  let filename := match Str.rsplitOnce '/' relPath with
    | some (_, filename) => filename
    | none => relPath
  match Str.splitOnce ".conflict.".toList filename with
  | none => none
  | some (_, suffix) => (suffix.splitOn '.').head?.bind parseU64

/-! ## Relocation -/

/-- `migrate_legacy_conflict_sidecar`: rename the sidecar, or drop it when its place is taken.
    `succeeds` tells whether the file system lets it. -/
def migrateLegacyConflictSidecar (tree : ContentTree) (rel : Str) (succeeds : Bool) : ContentTree :=
  if !isConflictFile rel || isUnderConflictsDir rel then tree
  else
    match legacyRelToConflictsRel rel, tree[rel]? with
    | some newRel, some file =>
      if !succeeds then tree
      else if tree.exists newRel then tree.erase rel
      else (tree.erase rel).insert newRel file
    | _, _ => tree

example : conflictRelPath "knowledge/a/foo.md".toList 1748332800 "abc123defxxx".toList =
    "knowledge/.conflicts/a/foo.conflict.1748332800.abc123de.md".toList := by decide +kernel

example : isConflictFile "knowledge/merge.conflict.md".toList = false := by decide +kernel

example : originalFromConflict "knowledge/.conflicts/a/foo.conflict.17.abc.md".toList =
    some "knowledge/a/foo.md".toList := by decide +kernel

end TeamClu.Sync
