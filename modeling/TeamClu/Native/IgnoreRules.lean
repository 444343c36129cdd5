import TeamClu.ForStd.Text

/-!
# What the file sync refuses to carry

`IgnoreRules` of `apps/daemon/src/sync/oss/ignore_rules.rs`.  The compiled patterns are a parameter:
whether they match a path, relative to the vault, as ignored.  Both rule files can hold any pattern.
-/

namespace TeamClu.Sync

/-- The team-wide rule file, inside the synced prefix. -/
def TEAM_IGNORE_FILE : Str := ".amuxignore".toList

/-- Compiled ignore rules for one team's content root. -/
structure IgnoreRules where
  /-- `matcher.matched(rel, is_dir).is_ignore()`. -/
  matcher : Str → Bool → Bool

/-- Strip the synced prefix so a path can be matched against rules relative to the vault. -/
def vaultRelative (relPath : Str) : Option Str :=
  if "knowledge/".toList.isPrefixOf relPath then
    let rest := relPath.drop "knowledge/".toList.length
    if rest = [] then none else some rest
  else none

namespace IgnoreRules

/-- Whether `relPath` itself is ignored. -/
def isIgnored (rules : IgnoreRules) (relPath : Str) (isDir : Bool) : Bool :=
  match vaultRelative relPath with
  | none => false
  | some rel => if rel = TEAM_IGNORE_FILE then false else rules.matcher rel isDir

end IgnoreRules

/-- The directories above a path, the outermost first. -/
def ancestors (relPath : Str) : List Str :=
  let parts := relPath.splitOn '/'
  (List.range' 1 (parts.length - 1)).map fun depth => ['/'].intercalate (parts.take depth)

/-- Whether `relPath`, or any directory above it, is ignored. -/
def IgnoreRules.isIgnoredWithAncestors (rules : IgnoreRules) (relPath : Str) : Bool :=
  (ancestors relPath).any (rules.isIgnored · true) || rules.isIgnored relPath false

/-- Rules that ignore nothing. -/
def IgnoreRules.empty : IgnoreRules := { matcher := fun _ _ => false }

end TeamClu.Sync
