import TeamClu.ForStd.Text

/-!
# The daemon's path validator

`validate` of `apps/daemon/src/sync/oss/path_validator.rs`.  Lengths are UTF-8 bytes.  The message
for an overlong segment quotes `&seg[..20]`, which panics when byte 20 is inside a character, so
the outcome has a third case beside `Ok(())` and `Err`.
-/

namespace TeamClu.Sync

/-- Prefixes this client still syncs. -/
def ALLOWED_PREFIXES : List Str := ["documents/".toList, "knowledge/".toList]

/-- Prefixes the file sync no longer carries, still accepted on the wire. -/
def RETIRED_PREFIXES : List Str :=
  ["skills/".toList, ".mcp/".toList, "_secrets/".toList, "_meta/".toList, "_feedback/".toList]

/-- Whether the path is under one of the allowed prefixes. -/
def isAllowed (path : Str) : Bool := ALLOWED_PREFIXES.any (·.isPrefixOf path)

/-- Whether a path belongs to a prefix that has moved to the Cloud API. -/
def isRetired (path : Str) : Bool := RETIRED_PREFIXES.any (·.isPrefixOf path)

/-- How a call of `validate` ends. -/
inductive Validation where
  | ok
  | err (message : Str)
  /-- A string slice inside a character. -/
  | panic
  deriving DecidableEq

/-- A Windows drive letter: an ASCII letter and a colon. -/
def startsWithDriveLetter : Str → Bool
  | c :: ':' :: _ => c.isAlpha
  | _ => false

/-- The checks of one segment; `none` when it passes. -/
def validateSegment (seg : Str) : Option Validation :=
  if seg = [] then
    some (.err "path contains empty segment (double slash or trailing slash)".toList)
  else if seg = ".".toList then some (.err "path contains \".\" segment".toList)
  else if seg = "..".toList then
    some (.err "path contains \"..\" segment (directory traversal)".toList)
  else if Str.utf8Len seg > 255 then
    match Str.sliceTo seg 20 with
    | some head => some (.err ("path segment exceeds 255 bytes: ".toList ++ head ++ "…".toList))
    | none => some .panic
  else none

/-- Validate a sync path coming from the wire or being uploaded. -/
def validate (path : Str) : Validation :=
  if path = [] then .err "path must be non-empty".toList
  else if Str.utf8Len path > 1024 then .err "path exceeds 1024 bytes".toList
  else if '\x00' ∈ path then .err "path contains NUL byte".toList
  else if path.any (· < '\x20') then .err "path contains control character".toList
  else if '\\' ∈ path then .err "path contains backslash; use forward slashes".toList
  else if path.head? = some '/' then .err "absolute path not allowed".toList
  else if startsWithDriveLetter path then .err "drive letter not allowed".toList
  else if "//".toList.isPrefixOf path then .err "UNC path not allowed".toList
  else
    match (path.splitOn '/').findSome? validateSegment with
    | some failure => failure
    | none =>
      if !isAllowed path && !isRetired path then
        .err ("path must start with one of: ".toList ++
          ", ".toList.intercalate ALLOWED_PREFIXES)
      else .ok

end TeamClu.Sync
