import TeamClu.ForStd.Text

/-!
# The server's path validator

`validateSyncPath` of `services/fc/src/lib/sync-path.ts`.  Lengths are UTF-16 code units, although
the messages say bytes.  A message is the list of its code units, since `seg.slice(0, 20)` may cut
a surrogate pair in two.
-/

namespace TeamClu.Fc

/-- The two fixed roots of the synced tree. -/
def ALLOWED_PREFIXES : List Str := ["documents/".toList, "knowledge/".toList]

/-- `{ ok: true }`, or `{ ok: false, code: 'InvalidPath', message }`. -/
inductive PathCheck where
  | ok
  | invalidPath (message : List UInt16)
  deriving DecidableEq

/-- A failed check with a fixed message. -/
def PathCheck.invalid (message : String) : PathCheck := .invalidPath (Str.utf16 message.toList)

/-- `/^[a-zA-Z]:/`. -/
def startsWithDriveLetter : Str → Bool
  | c :: ':' :: _ => c.isAlpha
  | _ => false

/-- The checks of one segment; `none` when it passes. -/
def validateSegment (seg : Str) : Option PathCheck :=
  if seg = [] then
    some (.invalid "path contains empty segment (double slash or trailing slash)")
  else if seg = ".".toList then some (.invalid "path contains \".\" segment")
  else if seg = "..".toList then
    some (.invalid "path contains \"..\" segment (directory traversal)")
  else if Str.utf16Len seg > 255 then
    some (.invalidPath (Str.utf16 "path segment \"".toList ++ (Str.utf16 seg).take 20 ++
      Str.utf16 "…\" exceeds 255 bytes".toList))
  else none

/-- Validate a sync path coming from the wire. -/
def validateSyncPath (path : Str) : PathCheck :=
  if path = [] then .invalid "path must be a non-empty string"
  else if Str.utf16Len path > 1024 then .invalid "path exceeds 1024 bytes"
  else if '\x00' ∈ path then .invalid "path contains NUL byte"
  else if path.any (fun c => '\x01' ≤ c && c ≤ '\x1f') then
    .invalid "path contains control character"
  else if '\\' ∈ path then .invalid "path contains backslash; use forward slashes"
  else if path.head? = some '/' then .invalid "absolute path not allowed"
  else if startsWithDriveLetter path then .invalid "drive letter not allowed"
  else if "//".toList.isPrefixOf path then .invalid "UNC path not allowed"
  else
    match (path.splitOn '/').findSome? validateSegment with
    | some failure => failure
    | none =>
      if ALLOWED_PREFIXES.any (·.isPrefixOf path) then .ok
      else .invalidPath (Str.utf16 ("path must start with one of: ".toList ++
        ", ".toList.intercalate ALLOWED_PREFIXES))

end TeamClu.Fc
