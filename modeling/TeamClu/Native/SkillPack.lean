import TeamClu.ForStd.FilePaths
import Mathlib.Data.Char
import Mathlib.Data.List.Lex
import Mathlib.Data.List.Sort

/-!
# Skill packs on disk

The install of a skill pack, from `crates/teamclu-skillpack/src`: `commit_staged_pack` of
`commit.rs` with its snapshot and restore, `swap_managed_files` of `swap.rs`, the listing of
`package_index.rs`, and `inspect` and `build_manifest_for` of `manifest.rs`.  A name holds no
separator, and a relative path is the list of its parts between the slashes.  A file operation is
counted, and `Faults` says which ones fail and what they leave of the target.  The ignore rules of
a pack, the hash and the reading of `origin.json` are outside code, given by
`PackEnv`.  Permission bits other than the executable one are left out.
-/

namespace TeamClu.SkillPack

/-- A regular file. -/
structure PackFile where
  bytes : List UInt8
  exec : Bool := false
  deriving DecidableEq

/-- The file system. -/
abbrev Tree := FileTree PackFile

/-- The parts of a path between its slashes. -/
abbrev Rel := List Str

def originDir : Str := ".clawhub".toList
def originJson : Str := "origin.json".toList
def ignoreFile : Str := ".teamcluignore".toList
def skillMd : Str := "SKILL.md".toList

/-- `ALWAYS_HASH_MAX_BYTES`. -/
def alwaysHashMaxBytes : Nat := 5 * 1024 * 1024

/-- `Path::join`: a path that starts with a slash replaces the directory. -/
def join (dir : List Str) : Rel → List Str
  | [] :: part :: rest => part :: rest
  | rel => dir ++ rel

/-- `origin_file`. -/
def originFile (dir : List Str) : List Str := dir ++ [originDir, originJson]

/-! ## Manifests -/

structure ManagedFile where
  sha256 : Str
  size : Nat
  mtimeMs : Nat
  exec : Bool
  deriving DecidableEq

/-- `FileManifest`, as the list of its entries. -/
abbrev FileManifest := List (Rel × ManagedFile)

/-- `SkillOrigin`, with the one field that is read here. -/
structure SkillOrigin where
  files : Option FileManifest
  deriving DecidableEq

/-- The outside code. -/
structure PackEnv where
  sha256 : List UInt8 → Str
  /-- `origin.json` as text and JSON. -/
  parseOrigin : List UInt8 → Option SkillOrigin
  /-- The built-in rules with the lines of a `.teamcluignore`, for a path that is a directory or
      not. -/
  matcher : Option (List UInt8) → Rel → Bool → Bool

variable (env : PackEnv)

/-- `PackIgnore::load` with `is_ignored`. -/
def isIgnored (t : Tree) (dir : List Str) (rel : Rel) (isDir : Bool) : Bool :=
  if rel = [skillMd] ∨ rel = [ignoreFile] then false
  else env.matcher ((t.readFile (dir ++ [ignoreFile])).map PackFile.bytes) rel isDir

mutual

/-- `walk` of `package_index.rs`, on one entry. -/
def walk (ignored : Rel → Bool → Bool) (rel : Rel) : Tree → List Rel
  | .link _ => []
  | .dir entries =>
    if rel = [originDir] then []
    else if ignored rel true then []
    else walkEntries ignored rel entries
  | .file _ => if ignored rel false then [] else [rel]

/-- The included files under the entries of a directory. -/
def walkEntries (ignored : Rel → Bool → Bool) (rel : Rel) : List (Str × Tree) → List Rel
  | [] => []
  | (name, t) :: entries => walk ignored (rel ++ [name]) t ++ walkEntries ignored rel entries

end

/-- `list_managed_paths`: the included files of `build_package_index`, in the order of their text.
    -/
def listManagedPaths (t : Tree) (dir : List Str) : Option (List Rel) :=
  (t.readDir dir).map fun entries =>
    (walkEntries (isIgnored env t dir) [] entries).insertionSort fun a b =>
      List.intercalate ['/'] a ≤ List.intercalate ['/'] b

/-- `read_origin`. -/
def readOrigin (t : Tree) (dir : List Str) : Option SkillOrigin :=
  (t.readFile (originFile dir)).bind fun f => env.parseOrigin f.bytes

/-- `build_manifest_for`, with the times of the files. -/
def buildManifestFor (mtimeMs : Rel → Nat) (t : Tree) (dir : List Str) (rels : List Rel) :
    FileManifest :=
  rels.filterMap fun rel =>
    match t.lstat (join dir rel) with
    | some (.file f) =>
      some (rel,
        { sha256 := env.sha256 f.bytes, size := f.bytes.length, mtimeMs := mtimeMs rel, exec := f.exec })
    | _ => none

inductive DirtyState where
  | clean
  | dirty (modified deleted added : List Rel)
  | unmanaged
  deriving DecidableEq

/-- What `inspect` finds about one entry of the baseline. -/
inductive EntryState where
  | kept
  | modified
  | deleted
  deriving DecidableEq

/-- The check of one entry of the baseline. -/
def entryState (mtimeMs : Rel → Nat) (t : Tree) (dir : List Str) (rel : Rel) (want : ManagedFile) :
    EntryState :=
  if isIgnored env t dir rel false then .kept
  else
    match t.lstat (join dir rel) with
    | none => .deleted
    | some (.file f) =>
      if f.exec ≠ want.exec then .modified
      else if want.size > alwaysHashMaxBytes ∧ f.bytes.length = want.size ∧
          mtimeMs rel = want.mtimeMs then .kept
      else
        match t.readFile (join dir rel) with
        | some f => if env.sha256 f.bytes = want.sha256 then .kept else .modified
        | none => .modified
    | some _ => .modified

/-- The managed files on disk that the baseline does not have. -/
def addedPaths (t : Tree) (dir : List Str) (baseline : FileManifest) : List Rel :=
  match listManagedPaths env t dir with
  | some onDisk => onDisk.filter fun rel => !baseline.any fun e => e.1 == rel
  | none => []

/-- `inspect`. -/
def inspect (mtimeMs : Rel → Nat) (t : Tree) (dir : List Str) (baseline : Option FileManifest) :
    DirtyState :=
  match baseline with
  | none | some [] => .unmanaged
  | some baseline =>
    let found state :=
      (baseline.filter fun e => entryState env mtimeMs t dir e.1 e.2 = state).map Prod.fst
    let added := addedPaths env t dir baseline
    if found .modified = [] ∧ found .deleted = [] ∧ added = [] then .clean
    else .dirty (found .modified) (found .deleted) added

/-! ## File operations that may fail -/

inductive IoError where
  /-- An operation has failed. -/
  | os
  /-- "staged pack is missing origin.json; refusing to make it live". -/
  | missingOrigin
  /-- "commit failed (…); restore failed (…)". -/
  | restoreFailed (commit restore : IoError)

/-- The file system, and how many operations there have been. -/
structure World where
  tree : Tree
  ops : Nat := 0

/-- Which operations fail.  One that changes the target leaves nothing there or a directory, with
    anything in it. -/
abbrev Faults := Nat → Option (Option Tree → Option (List (Str × Tree)))

abbrev FileIo := EStateM IoError World

variable (faults : Faults) (target : List Str)

/-- An operation that only reads. -/
def readOp {β : Type} (f : Tree → Option β) : FileIo β := fun w =>
  match faults w.ops, f w.tree with
  | none, some b => .ok b { w with ops := w.ops + 1 }
  | _, _ => .error .os { w with ops := w.ops + 1 }

/-- An operation on other files than the target. -/
def tick : FileIo Unit := readOp faults fun _ => some ()

/-- An operation that reads, and whose failure is read as an answer. -/
def probe {β : Type} (f : Tree → β) (failed : β) : FileIo β := fun w =>
  match faults w.ops with
  | none => .ok (f w.tree) { w with ops := w.ops + 1 }
  | some _ => .ok failed { w with ops := w.ops + 1 }

/-- An operation that changes the file system. -/
def writeOp (f : Tree → Option Tree) : FileIo Unit := fun w =>
  match faults w.ops with
  | some left =>
    .error .os
      { tree := w.tree.alter target ((left (w.tree.get target)).map .dir), ops := w.ops + 1 }
  | none =>
    match f w.tree with
    | some tree => .ok () { tree, ops := w.ops + 1 }
    | none => .error .os { w with ops := w.ops + 1 }

/-- An operation that either changes the file system or not, and whose failure is not an error. -/
def attempt (f : Tree → Option Tree) : FileIo Bool := fun w =>
  match faults w.ops, f w.tree with
  | none, some tree => .ok true { tree, ops := w.ops + 1 }
  | _, _ => .ok false { w with ops := w.ops + 1 }

/-- `fs::copy`. -/
def copyFile (source dest : List Str) (t : Tree) : Option Tree :=
  (t.readFile source).bind (t.writeFile dest)

/-! ## The swap -/

/-- `same_file`. -/
def sameFile (a b : List Str) (t : Tree) : Bool :=
  match FileTree.resolve t true a, FileTree.resolve t true b with
  | some x, some y => (t.look x).isSome && x == y
  | _, _ => false

/-- The parent of a path. -/
def parent (path : List Str) : List Str :=
  (path.filter fun part => !(part == [] || part == ['.'])).dropLast

/-- The first loop of `swap_managed_files`, over the files of the staged pack. -/
def copyIncoming (staged : List Str) : List Rel → FileIo Unit
  | [] => pure ()
  | rel :: rels => do
    if ← probe faults (sameFile (join staged rel) (join target rel)) false then
      copyIncoming staged rels
    else
      writeOp faults target (FileTree.createDirAll [] (parent (join target rel)))
      match ← probe faults (fun t => t.lstat (join target rel)) none with
      | some .dir => writeOp faults target fun t => t.removeDirAll (join target rel)
      | some (.link _) => writeOp faults target fun t => t.removeFile (join target rel)
      | _ => pure ()
      writeOp faults target (copyFile (join staged rel) (join target rel))
      copyIncoming staged rels

/-- `prune_empty_ancestors`, on the parts of the directory from the last one. -/
def pruneEmptyAncestors : List Str → FileIo Unit
  | [] => pure ()
  | name :: above => do
    let dir := (name :: above).reverse
    if dir = target ∨ ¬ target <+: dir then pure ()
    else if (← probe faults (fun t => t.readDir dir) none).any List.isEmpty then
      if ← attempt faults fun t => t.removeDir dir then pruneEmptyAncestors above
      else pure ()
    else pure ()

/-- The second loop of `swap_managed_files`, over the paths of the baseline. -/
def dropStale (incoming : List Rel) : List Rel → FileIo Unit
  | [] => pure ()
  | rel :: rels => do
    if incoming.contains rel then dropStale incoming rels
    else
      match ← probe faults (fun t => t.lstat (join target rel)) none with
      | some (.file _) =>
        writeOp faults target fun t => t.removeFile (join target rel)
        pruneEmptyAncestors faults target (parent (join target rel)).reverse
      | _ => pure ()
      dropStale incoming rels

/-- `swap_managed_files`. -/
def swapManagedFiles (staged : List Str) (baseline : Option FileManifest) : FileIo Unit := do
  writeOp faults target (FileTree.createDirAll [] target)
  let incoming ← readOp faults fun t => listManagedPaths env t staged
  copyIncoming faults target staged incoming
  match baseline with
  | some baseline => dropStale faults target incoming (baseline.map Prod.fst)
  | none => pure ()

/-- `remove_managed_files`; its loop over the baseline is that of a swap with nothing incoming. -/
def removeManagedFiles (baseline : Option FileManifest) : FileIo Bool := do
  if ← probe faults (fun t => (t.stat target).isSome) false then
    match baseline with
    | none =>
      writeOp faults target fun t => t.removeDirAll target
      return true
    | some baseline =>
      dropStale faults target [] (baseline.map Prod.fst)
      if ← probe faults (fun t => t.isDir (target ++ [originDir])) false then
        writeOp faults target fun t => t.removeDirAll (target ++ [originDir])
      let entries ← readOp faults fun t => t.readDir target
      if entries.isEmpty then
        writeOp faults target fun t => t.removeDir target
      return entries.isEmpty
  else return true

/-! ## The commit -/

mutual

/-- `copy_tree` of a directory: links are left out. -/
def copyTree : Tree → FileIo Tree
  | .dir entries => do
    tick faults
    tick faults
    let copies ← copyEntries entries
    return .dir copies
  | _ => throw .os

/-- The loop of `copy_tree`. -/
def copyEntries : List (Str × Tree) → FileIo (List (Str × Tree))
  | [] => return []
  | (name, t) :: entries => do
    tick faults
    match t with
    | .link _ => copyEntries entries
    | .dir below =>
      let copy ← copyTree (.dir below)
      let copies ← copyEntries entries
      return (name, copy) :: copies
    | .file f =>
      tick faults
      let copies ← copyEntries entries
      return (name, .file f) :: copies

end

/-- `snapshot_tree`. -/
def snapshotTree : FileIo (Option Tree) := do
  if ← probe faults (fun t => (t.stat target).isSome) false then
    tick faults
    let live ← readOp faults fun t => (FileTree.resolve t true target).bind fun p => t.get p
    let backup ← copyTree faults live
    return some backup
  else return none

/-- The second half of `restore_tree`: the copy of the snapshot, if there is one. -/
def copyBack : Option Tree → FileIo Unit
  | some backup => do
    writeOp faults target (FileTree.createDirAll [] target)
    let copy ← copyTree faults backup
    writeOp faults target fun t =>
      (FileTree.resolve t true target).map fun p => t.alter p (some copy)
  | none => pure ()

/-- `restore_tree`. -/
def restoreTree (backup : Option Tree) : FileIo Unit := do
  let there ← probe faults (fun t => (t.stat target).isSome) false
  if there then
    writeOp faults target fun t => t.removeDirAll target
  copyBack faults target backup

/-- `copy_origin`. -/
def copyOrigin (staged : List Str) : FileIo Unit := do
  writeOp faults target (FileTree.createDirAll [] (target ++ [originDir]))
  writeOp faults target (copyFile (originFile staged) (originFile target))

/-- What `commit_staged_pack` does to the live tree. -/
def install (staged : List Str) (baseline : Option FileManifest) : FileIo Unit := do
  swapManagedFiles env faults target staged baseline
  copyOrigin faults target staged

/-- The rest of `commit_staged_pack`: an install that fails is followed by the restore, whose
    operations do not fail by a fault. -/
def installOrRestore (staged : List Str) (snapshot : Option Tree) (baseline : Option FileManifest) :
    FileIo Unit := fun w =>
  match install env faults target staged baseline w with
  | .ok () w => .ok () w
  | .error e w =>
    match restoreTree (fun _ => none) target snapshot w with
    | .ok () w => .error e w
    | .error r w => .error (.restoreFailed e r) w

/-- `commit_staged_pack`. -/
def commitStagedPack (staged : List Str) : FileIo Unit := do
  let complete ← probe faults (fun t => (t.readFile (originFile staged)).isSome) false
  if complete then
    let snapshot ← snapshotTree faults target
    let baseline ← probe faults (fun t => (readOrigin env t target).bind SkillOrigin.files) none
    installOrRestore env faults target staged snapshot baseline
  else throw .missingOrigin

end TeamClu.SkillPack
