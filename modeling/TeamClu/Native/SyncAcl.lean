import TeamClu.ForStd.Text

/-!
# Per-directory access control

`matchPrefix`, `isDenied` and `validateAclPrefix` of `services/fc/src/lib/sync-acl.ts`.
-/

namespace TeamClu.Fc

/-- Roots a rule prefix may name. -/
def ALLOWED_ACL_ROOTS : List Str := ["documents/".toList, "knowledge/".toList]

/-- What one team's rules mean for one caller. -/
structure AclView where
  /-- Prefixes this caller may not see. -/
  denied : List Str
  /-- Every restricted prefix in the team, grant or no grant. -/
  allPrefixes : List Str
  /-- `denied` is selected from the team's rules. -/
  denied_subset : denied ⊆ allPrefixes

/-- The restricted prefix covering `path`: the first match. -/
def matchPrefix (path : Str) (prefixes : List Str) : Option Str :=
  prefixes.find? (·.isPrefixOf path)

/-- Whether `path` is closed to this caller. -/
def isDenied (path : Str) (view : AclView) : Bool :=
  !view.denied.isEmpty && (matchPrefix path view.denied).isSome

/-- Validate a prefix before it is stored: `none` when it is accepted, else the message. -/
def validateAclPrefix (aclPrefix : Str) : Option Str :=
  if aclPrefix = [] then some "pathPrefix is required".toList
  else if !ALLOWED_ACL_ROOTS.any (·.isPrefixOf aclPrefix) then
    some ("pathPrefix must start with one of: ".toList ++ ", ".toList.intercalate ALLOWED_ACL_ROOTS)
  else if !(['/'].isSuffixOf aclPrefix) then
    some "pathPrefix must end with \"/\" so it matches on a path boundary".toList
  else if Str.contains aclPrefix "//".toList || Str.contains aclPrefix "..".toList then
    some "pathPrefix must not contain \"//\" or \"..\"".toList
  else if Str.utf16Len aclPrefix > 1024 then some "pathPrefix is too long".toList
  else none

/-- The matcher is a prefix test against every denied prefix. -/
theorem isDenied_iff (path : Str) (view : AclView) :
    isDenied path view = true ↔ ∃ p ∈ view.denied, p <+: path := by
  simp only [isDenied, matchPrefix, Bool.and_eq_true, List.find?_isSome, Bool.not_eq_true',
    List.isEmpty_eq_false_iff, List.isPrefixOf_iff_prefix]
  constructor
  · exact fun h => h.2
  · rintro ⟨p, hp, hpath⟩
    exact ⟨List.ne_nil_of_mem hp, p, hp, hpath⟩

end TeamClu.Fc
