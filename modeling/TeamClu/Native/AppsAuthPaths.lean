import TeamClu.ForStd.Text

/-!
# The paths behind an app's login wall

The reading half of `services/fc/src/lib/apps-auth-paths.ts`: which paths of an app need a login, and
who may then enter.  A baseline (`auth_scope`) has exceptions (`auth_rules`), of which the longest
matching prefix wins; whatever cannot be read is protected.  JavaScript's `toLowerCase` is a parameter
(`lower`): the pathname of a URL is ASCII, where `Str.jsLowerCase` is enough, but the path of a rule and
the path that an app decodes may be any text.
-/

namespace TeamClu.Apps

/-- A value of a `jsonb` column. -/
inductive RawJson where
  | null
  | bool (b : Bool)
  | num (text : Str)
  | str (s : Str)
  | arr (items : List RawJson)
  | obj (fields : List (Str × RawJson))

/-- A field of a value; `none` is `undefined`. -/
def RawJson.get (field : Str) : RawJson → Option RawJson
  | .obj fields => fields.lookup field
  | _ => none

/-- `AUTH_AUDIENCES`: any signed-in visitor, or those with a role in the app's organization. -/
inductive AuthAudience where
  | any
  | org
  deriving DecidableEq

/-- What a rule asks for. -/
inductive RuleAuth where
  | required
  | publicAccess
  deriving DecidableEq

/-- One path rule; absent roles and an absent audience leave the question to the app. -/
structure AuthRule where
  path : Str
  auth : RuleAuth
  audience : Option AuthAudience := none
  roles : Option (List Str) := none
  deriving DecidableEq

/-- `ROLE_CODE_RE`: `^[a-z][a-z0-9_]*$`. -/
def isRoleCode : Str → Bool
  | [] => false
  | c :: cs => c.isLower && cs.all fun d => d.isLower || d.isDigit || d = '_'

/-- The role codes of an array; `none` when an item is none. -/
def readRoleCodes : List RawJson → Option (List Str)
  | [] => some []
  | .str item :: rest => if isRoleCode item then (readRoleCodes rest).map (item :: ·) else none
  | _ :: _ => none

/-- `readRuleRoles`; `none` when the roles cannot be read. -/
def readRuleRoles : Option RawJson → Option (Option (List Str))
  | none | some .null => some none
  | some (.arr items) => (readRoleCodes items).map some
  | some _ => none

/-- The audience of a stored rule; `none` when it is there and not one of the two. -/
def readRuleAudience : Option RawJson → Option (Option AuthAudience)
  | none | some .null => some none
  | some (.str audience) =>
    if audience = "any".toList then some (some .any)
    else if audience = "org".toList then some (some .org)
    else none
  | some _ => none

/-- Drop the slashes at the end, but never the first character. -/
def dropTrailingSlashes (path : Str) : Str :=
  match path.rdropWhile (· = '/') with
  | [] => path.take 1
  | shorter => shorter

/-- `readStoredAuthRule`: one stored rule, or `none` when the row holds something unusable. -/
def readStoredAuthRule (entry : RawJson) : Option AuthRule :=
  match entry.get "path".toList, entry.get "auth".toList with
  | some (.str path), some (.str auth) =>
    if path.head? ≠ some '/' then none
    else
      let path := dropTrailingSlashes (Str.jsTrim path)
      if auth = "public".toList then some { path, auth := .publicAccess }
      else if auth = "required".toList then do
        let roles ← readRuleRoles (entry.get "roles".toList)
        let audience ← readRuleAudience (entry.get "audience".toList)
        some { path, auth := .required, audience, roles }
      else none
  | _, _ => none

/-- `isUnreasonable`: an encoded separator or dot segment, which the app may decode by itself. -/
def isUnreasonable (pathname : Str) : Bool :=
  let lower := Str.jsLowerCase pathname
  Str.contains lower "%2f".toList || Str.contains lower "%5c".toList ||
    Str.contains lower "%2e".toList || pathname.any (· = '\\') ||
    (pathname.splitOn '/').any fun seg => seg = "..".toList || seg = ".".toList

/-- `matchesPrefix`, of lower-case paths. -/
def matchesPrefix (path pre : Str) : Bool :=
  pre = "/".toList || path = pre || (pre ++ "/".toList).isPrefixOf path

/-- How specific a prefix is; `/` is the least specific one there is. -/
def prefixLength (pre : Str) : Nat := if pre = "/".toList then 0 else pre.utf16Len

/-- `PathPolicy`: whether a path needs a login and who satisfies it.  `unreadable` tells the verdict
    on what could not be read from a rule that names nobody. -/
structure PathPolicy where
  requiresLogin : Bool
  audience : Option AuthAudience := none
  roles : Option (List Str) := none
  unreadable : Bool := false
  deriving DecidableEq

/-- The verdict on what cannot be read. -/
def protectedFallback : PathPolicy := { requiresLogin := true, unreadable := true }

section Resolve

variable (lower : Str → Str)

/-- One readable rule in the loop of `resolvePathPolicy`, with the longest match so far. -/
def betterMatch (path : Str) (best : Option AuthRule) (rule : AuthRule) : Option AuthRule :=
  let pre := lower rule.path
  if matchesPrefix path pre then
    match best with
    | none => some rule
    | some winner =>
      if prefixLength (lower winner.path) < prefixLength pre then some rule else best
  else best

/-- The loop of `resolvePathPolicy`; `none` when a rule cannot be read. -/
def findWinner (path : Str) : Option AuthRule → List RawJson → Option (Option AuthRule)
  | best, [] => some best
  | best, entry :: rest =>
    match readStoredAuthRule entry with
    | none => none
    | some rule => findWinner path (betterMatch lower path best rule) rest

/-- The verdict of the winning rule, or of the scope when no rule matches; an unknown scope behaves as
    "all". -/
def verdict (scope : Option Str) : Option AuthRule → PathPolicy
  | none => { requiresLogin := scope ≠ some "paths".toList }
  | some { auth := .publicAccess, .. } => { requiresLogin := false }
  | some { auth := .required, audience, roles, .. } => { requiresLogin := true, audience, roles }

/-- `resolvePathPolicy`, of the raw columns `auth_scope` and `auth_rules`. -/
def resolvePathPolicyBy (pathname : Str) (scope : Option Str) (rawRules : RawJson) : PathPolicy :=
  if isUnreasonable pathname then protectedFallback
  else
    match rawRules with
    | .null => verdict scope none
    | .arr entries =>
      match findWinner lower (lower pathname) none entries with
      | none => protectedFallback
      | some winner => verdict scope winner
    | _ => protectedFallback

end Resolve

/-- `resolvePathPolicy`, of the pathname of a URL. -/
def resolvePathPolicy : Str → Option Str → RawJson → PathPolicy := resolvePathPolicyBy Str.jsLowerCase

/-! ## What a verdict rests on -/

section Winner

variable {lower : Str → Str}

/-- What one rule can do to the winner: it is kept, or the rule matches and is longer. -/
theorem betterMatch_cases (path : Str) (best : Option AuthRule) (rule : AuthRule) :
    betterMatch lower path best rule = best ∨
      betterMatch lower path best rule = some rule ∧
        matchesPrefix path (lower rule.path) = true := by
  unfold betterMatch
  by_cases hmatch : matchesPrefix path (lower rule.path) = true
  · simp only [hmatch, if_true]
    cases best with
    | none => exact .inr ⟨rfl, trivial⟩
    | some winner =>
      simp only []
      split
      · exact .inr ⟨rfl, trivial⟩
      · exact .inl rfl
  · simp [hmatch]

/-- The rules that have been read, and the longest match among them. -/
structure Winner (lower : Str → Str) (path : Str) (rules : List AuthRule) (best : Option AuthRule) : Prop where
  mem : ∀ winner, best = some winner →
    winner ∈ rules ∧ matchesPrefix path (lower winner.path) = true
  longest : ∀ rule ∈ rules, matchesPrefix path (lower rule.path) = true →
    ∃ winner, best = some winner ∧
      prefixLength (lower rule.path) ≤ prefixLength (lower winner.path)

/-- One rule more. -/
theorem Winner.betterMatch {path : Str} {rules : List AuthRule} {best : Option AuthRule}
    (h : Winner lower path rules best) (rule : AuthRule) :
    Winner lower path (rules ++ [rule]) (betterMatch lower path best rule) := by
  refine ⟨fun winner hwinner => ?_, fun r hr hmatch => ?_⟩
  · obtain hsame | ⟨hnew, hmatch⟩ := betterMatch_cases path best rule
    · obtain ⟨hmem, hmatch⟩ := h.mem winner (hsame ▸ hwinner)
      exact ⟨List.mem_append_left _ hmem, hmatch⟩
    · obtain rfl : rule = winner := Option.some.inj (hnew.symm.trans hwinner)
      exact ⟨by simp, hmatch⟩
  · unfold Apps.betterMatch
    rcases List.mem_append.mp hr with hold | hnew
    · obtain ⟨winner, rfl, hle⟩ := h.longest r hold hmatch
      simp only []
      split
      · split
        · exact ⟨rule, rfl, by omega⟩
        · exact ⟨winner, rfl, hle⟩
      · exact ⟨winner, rfl, hle⟩
    · obtain rfl : r = rule := by simpa using hnew
      simp only [hmatch, if_true]
      cases best with
      | none => exact ⟨r, rfl, Nat.le_refl _⟩
      | some winner =>
        simp only []
        split
        · exact ⟨r, rfl, Nat.le_refl _⟩
        · exact ⟨winner, rfl, by omega⟩

end Winner

end TeamClu.Apps
