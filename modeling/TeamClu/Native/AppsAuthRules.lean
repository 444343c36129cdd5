import TeamClu.Native.AppsAuthPaths

/-!
# The rules that an app may store

The writing half of `services/fc/src/lib/apps-auth-paths.ts`: a rule list is checked and normalized
before it is stored.  An error is the message of the `ApiError(400, "validation_failed", ..)` that the
source throws.
-/

namespace TeamClu.Apps

/-- `AUTH_SCOPES`. -/
inductive AuthScope where
  | all
  | paths
  deriving DecidableEq

/-- The scope as it is stored. -/
def AuthScope.text : AuthScope → Str
  | .all => "all".toList
  | .paths => "paths".toList

/-- `MAX_RULES`. -/
def maxRules : Nat := 50

/-- `MAX_PATH_LEN`. -/
def maxPathLen : Nat := 512

/-- The two spellings of "and everything under it" are dropped. -/
def dropStar (path : Str) : Str :=
  if "/*".toList.isSuffixOf path then path.dropLast.dropLast
  else if "*".toList.isSuffixOf path then path.dropLast
  else path

/-- `normalizeRulePath`. -/
def normalizeRulePath : Option RawJson → Except Str Str
  | some (.str raw) =>
    let path := Str.jsTrim raw
    if path.head? ≠ some '/' then .error ("auth rule path must start with \"/\": ".toList ++ path)
    else if maxPathLen < path.utf16Len then .error "auth rule path is too long".toList
    else
      let path := dropStar path
      if path.any (· = '*') then
        .error ("auth rule paths match by prefix, so \"*\" is not supported ".toList ++
          "(a prefix already covers every sub-path): ".toList ++ raw)
      else
        match dropTrailingSlashes path with
        | [] => .ok "/".toList
        | path => .ok path
  | _ => .error "auth rule path must be a string".toList

/-- The role codes of an array, each once. -/
def parseRoleCodes : List Str → List RawJson → Except Str (List Str)
  | out, [] => .ok out
  | out, .str item :: rest =>
    if isRoleCode item then parseRoleCodes (if out.contains item then out else out ++ [item]) rest
    else .error "auth rule role codes must match /^[a-z][a-z0-9_]*$/".toList
  | _, _ :: _ => .error "auth rule role codes must match /^[a-z][a-z0-9_]*$/".toList

/-- `parseRuleRoles`. -/
def parseRuleRoles : Option RawJson → Except Str (Option (List Str))
  | none | some .null => .ok none
  | some (.arr items) => (parseRoleCodes [] items).map some
  | some _ => .error "auth rule \"roles\" must be an array".toList

/-- The audience of a rule. -/
def parseRuleAudience : Option RawJson → Except Str (Option AuthAudience)
  | none | some .null => .ok none
  | some (.str audience) =>
    if Str.jsTrim audience = "any".toList then .ok (some .any)
    else if Str.jsTrim audience = "org".toList then .ok (some .org)
    else .error "auth rule \"audience\" must be one of: any, org".toList
  | some _ => .error "auth rule \"audience\" must be one of: any, org".toList

/-- The `auth` of a rule. -/
def parseRuleAuth (entry : RawJson) : Except Str RuleAuth :=
  match entry with
  | .arr _ | .obj _ =>
    match entry.get "auth".toList with
    | some (.str auth) =>
      if auth = "required".toList then .ok .required
      else if auth = "public".toList then .ok .publicAccess
      else .error "auth rule \"auth\" must be \"required\" or \"public\"".toList
    | _ => .error "auth rule \"auth\" must be \"required\" or \"public\"".toList
  | _ => .error "each auth rule must be an object".toList

variable (lower : Str → Str)

/-- One rule in the loop of `parseAuthRules`, behind rules with the paths `seen`. -/
def parseAuthRule (seen : List Str) (entry : RawJson) : Except Str AuthRule := do
  let auth ← parseRuleAuth entry
  let path ← normalizeRulePath (entry.get "path".toList)
  if seen.contains (lower path) then .error ("duplicate auth rule for ".toList ++ path)
  else
    match auth with
    | .publicAccess => .ok { path, auth }
    | .required => do
      let roles ← parseRuleRoles (entry.get "roles".toList)
      let audience ← parseRuleAudience (entry.get "audience".toList)
      .ok { path, auth, audience, roles }

/-- The loop of `parseAuthRules`. -/
def parseRuleList : List Str → List RawJson → Except Str (List AuthRule)
  | _, [] => .ok []
  | seen, entry :: rest => do
    let rule ← parseAuthRule lower seen entry
    let rules ← parseRuleList (lower rule.path :: seen) rest
    .ok (rule :: rules)

/-- `parseAuthRules`. -/
def parseAuthRules : Option RawJson → Except Str (List AuthRule)
  | none | some .null => .ok []
  | some (.arr raw) =>
    if maxRules < raw.length then .error "at most 50 auth rules".toList else parseRuleList lower [] raw
  | some _ => .error "authRules must be an array".toList

/-- `validateAuthPathConfig`. -/
def validateAuthPathConfig (scope : AuthScope) (rules : List AuthRule) : Except Str Unit :=
  if scope = .paths && !rules.any (·.auth = .required) then
    .error ("authScope \"paths\" needs at least one rule with auth \"required\", ".toList ++
      "otherwise nothing is protected".toList)
  else .ok ()

/-! ## The column -/

/-- A rule as it is stored; an absent key is not there. -/
def AuthRule.toJson (rule : AuthRule) : RawJson :=
  .obj ([("path".toList, .str rule.path),
      ("auth".toList, .str (if rule.auth = .required then "required".toList else "public".toList))] ++
    (rule.roles.toList.map fun roles => ("roles".toList, .arr (roles.map .str))) ++
    (rule.audience.toList.map fun audience =>
      ("audience".toList, .str (if audience = .any then "any".toList else "org".toList))))

/-- The column `auth_rules`. -/
def storedRules (rules : List AuthRule) : RawJson := .arr (rules.map AuthRule.toJson)

end TeamClu.Apps
