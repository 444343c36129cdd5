import Std.Data.ExtTreeMap
import TeamClu.ForStd.Text

/-!
# The content tree

The regular files below the content root of a team, by their path with forward slashes.  A file
has its bytes and its modification time in seconds, and the walk of the scanner may fail to list it
(a directory that cannot be read, a `stat` that fails) or to open it.
-/

namespace TeamClu.Sync

/-- The content of a file. -/
abbrev Bytes := List UInt8

/-- A regular file. -/
structure DiskFile where
  bytes : Bytes
  /-- Modification time, in seconds. -/
  mtime : Nat
  /-- The walk finds it and reads its metadata. -/
  listed : Bool := true
  /-- It can be opened for reading. -/
  readable : Bool := true
  deriving DecidableEq

/-- The size that `stat` reports. -/
def DiskFile.size (file : DiskFile) : Nat := file.bytes.length

/-- The regular files below the content root. -/
abbrev ContentTree := Std.ExtTreeMap Str DiskFile

namespace ContentTree

/-- `fs::read`. -/
def read (tree : ContentTree) (path : Str) : Option Bytes :=
  tree[path]?.bind fun file => if file.readable then some file.bytes else none

/-- `fs::write`, at a time: the new content of the file, whose permissions stay as they are. -/
def write (tree : ContentTree) (path : Str) (bytes : Bytes) (mtime : Nat) : ContentTree :=
  tree.insert path (match tree[path]? with
    | some file => { file with bytes, mtime }
    | none => { bytes, mtime })

/-- `fs::remove_file`, if it succeeds. -/
def removeFile (tree : ContentTree) (path : Str) (succeeds : Bool) : ContentTree :=
  if succeeds then tree.erase path else tree

/-- `Path::exists`: a file, or a directory with a file below it. -/
def «exists» (tree : ContentTree) (path : Str) : Bool :=
  tree.keys.any fun p => p == path || (path ++ ['/']).isPrefixOf p

end ContentTree

end TeamClu.Sync
