import TeamClu.Native.AppsAuthRules
import TeamClu.Native.UrlPath

/-!
# Spellings of a path

A stored rule is read back as it was checked (`readStoredAuthRule_toJson`), so the verdict on a path
rests on the rules whose path is a prefix of it.  Another spelling is walled as well exactly when it
cannot be read, or when the paths that a rule can have are prefixes of both spellings or of none
(`spelling_walled_iff`).  An encoded letter is the spelling that opens a protected path
(`encoded_letter_unwalled`).
-/

namespace TeamClu.Apps

open UrlPath

/-! ## Reading back -/

/-- The path that a stored path is read as. -/
def readPath (path : Str) : Str := dropTrailingSlashes (Str.jsTrim path)

/-- A path that a stored rule can be read as. -/
def IsRulePath (r : Str) : Prop :=
  ∃ raw path, normalizeRulePath (some (.str raw)) = .ok path ∧ r = readPath path

theorem dropTrailingSlashes_isPrefix (path : Str) : dropTrailingSlashes path <+: path := by
  unfold dropTrailingSlashes
  split
  · exact List.take_prefix 1 path
  · exact List.rdropWhile_prefix _ _

theorem dropStar_isPrefix (path : Str) : dropStar path <+: path := by
  unfold dropStar
  split
  · exact (List.dropLast_prefix _).trans (List.dropLast_prefix _)
  · split
    · exact List.dropLast_prefix _
    · exact List.prefix_refl _

/-- A part of a path that is not empty starts as the path does. -/
private theorem head?_of_isPrefix {path whole : Str} (h : path <+: whole) (hne : path ≠ []) :
    path.head? = whole.head? := by
  obtain ⟨rest, rfl⟩ := h
  cases path with
  | nil => exact absurd rfl hne
  | cons c path => rfl

/-- A normalized path starts with a slash. -/
theorem head?_of_normalizeRulePath {raw : Option RawJson} {path : Str}
    (h : normalizeRulePath raw = .ok path) : path.head? = some '/' := by
  unfold normalizeRulePath at h
  split at h
  · next text =>
    simp only at h
    split at h
    · cases h
    next hhead =>
    rw [ne_eq, not_not] at hhead
    split at h
    · cases h
    split at h
    · cases h
    split at h
    · obtain rfl := Except.ok.inj h
      rfl
    · next hne =>
      obtain rfl := Except.ok.inj h
      rw [← hhead]
      exact head?_of_isPrefix ((dropTrailingSlashes_isPrefix _).trans (dropStar_isPrefix _)) hne
  · cases h

/-- Only a string is normalized. -/
theorem isRulePath_of_normalizeRulePath {raw : Option RawJson} {path : Str}
    (h : normalizeRulePath raw = .ok path) : IsRulePath (readPath path) := by
  unfold normalizeRulePath at h
  split at h
  · next text => exact ⟨text, path, h, rfl⟩
  · cases h

/-- A rule that is stored: its path is normalized and its roles are role codes. -/
structure Storable (rule : AuthRule) : Prop where
  path : ∃ raw, normalizeRulePath raw = .ok rule.path
  roles : ∀ roles ∈ rule.roles, ∀ role ∈ roles, isRoleCode role = true
  /-- A public rule names nobody. -/
  publicAccess : rule.auth = .publicAccess → rule.roles = none ∧ rule.audience = none

/-- Stored role codes can be read. -/
private theorem readRoleCodes_map {roles : List Str} (h : ∀ role ∈ roles, isRoleCode role = true) :
    readRoleCodes (roles.map .str) = some roles := by
  induction roles with
  | nil => rfl
  | cons role roles ih =>
    rw [List.forall_mem_cons] at h
    simp [readRoleCodes, h.1, ih h.2]

section Column

variable (rule : AuthRule)

theorem toJson_get_path : rule.toJson.get "path".toList = some (.str rule.path) := by
  simp only [AuthRule.toJson, RawJson.get, List.cons_append, List.lookup_cons, beq_self_eq_true]

theorem toJson_get_auth : rule.toJson.get "auth".toList =
    some (.str (if rule.auth = .required then "required".toList else "public".toList)) := by
  have hpath : ("auth".toList == "path".toList) = false := by decide
  simp only [AuthRule.toJson, RawJson.get, List.cons_append, List.lookup_cons, hpath,
    beq_self_eq_true]

theorem toJson_get_roles : rule.toJson.get "roles".toList =
    rule.roles.map fun roles => .arr (roles.map .str) := by
  have hpath : ("roles".toList == "path".toList) = false := by decide
  have hauth : ("roles".toList == "auth".toList) = false := by decide
  have haudience : ("roles".toList == "audience".toList) = false := by decide
  simp only [AuthRule.toJson, RawJson.get, List.cons_append, List.nil_append, List.lookup_cons,
    hpath, hauth]
  cases rule.roles with
  | none =>
    cases rule.audience with
    | none => rfl
    | some audience =>
      simp only [Option.toList_none, Option.toList_some, List.map_nil, List.map_cons,
        List.nil_append, List.lookup_cons, List.lookup_nil, haudience, Option.map_none]
  | some roles =>
    simp only [Option.toList_some, List.map_nil, List.map_cons, List.cons_append, List.lookup_cons,
      beq_self_eq_true, Option.map_some]

theorem toJson_get_audience : rule.toJson.get "audience".toList = rule.audience.map fun audience =>
    .str (if audience = .any then "any".toList else "org".toList) := by
  have hpath : ("audience".toList == "path".toList) = false := by decide
  have hauth : ("audience".toList == "auth".toList) = false := by decide
  have hroles : ("audience".toList == "roles".toList) = false := by decide
  have hskip : ∀ rest : List (Str × RawJson), List.lookup "audience".toList
      ((rule.roles.toList.map fun roles => ("roles".toList, RawJson.arr (roles.map .str))) ++ rest) =
        List.lookup "audience".toList rest := by
    intro rest
    cases rule.roles with
    | none => rfl
    | some roles =>
      simp only [Option.toList_some, List.map_nil, List.map_cons, List.cons_append, List.nil_append,
        List.lookup_cons, hroles]
  simp only [AuthRule.toJson, RawJson.get, List.cons_append, List.nil_append, List.lookup_cons,
    hpath, hauth, hskip]
  cases rule.audience with
  | none => rfl
  | some audience =>
    simp only [Option.toList_some, List.map_nil, List.map_cons, List.lookup_cons, beq_self_eq_true,
      Option.map_some]

end Column

/-- A stored rule is read back, with the path that it is read as. -/
theorem readStoredAuthRule_toJson {rule : AuthRule} (h : Storable rule) :
    readStoredAuthRule rule.toJson = some { rule with path := readPath rule.path } := by
  obtain ⟨raw, hpath⟩ := h.path
  have hhead := head?_of_normalizeRulePath hpath
  have hpublic : "required".toList ≠ "public".toList := by decide
  have horg : "org".toList ≠ "any".toList := by decide
  unfold readStoredAuthRule
  rw [toJson_get_path, toJson_get_auth, toJson_get_roles, toJson_get_audience]
  simp only [hhead, ne_eq, not_true_eq_false, if_false]
  cases hauth : rule.auth with
  | publicAccess =>
    obtain ⟨hroles, haudience⟩ := h.publicAccess hauth
    obtain ⟨path, auth, audience, roles⟩ := rule
    cases hauth
    cases hroles
    cases haudience
    rfl
  | required =>
    have hroles : readRuleRoles (rule.roles.map fun roles => .arr (roles.map .str)) =
        some rule.roles := by
      cases hr : rule.roles with
      | none => rfl
      | some roles => simp [readRuleRoles, readRoleCodes_map (h.roles roles hr)]
    have haudience : readRuleAudience (rule.audience.map fun audience =>
        .str (if audience = .any then "any".toList else "org".toList)) = some rule.audience := by
      cases rule.audience with
      | none => rfl
      | some audience =>
        cases audience with
        | any => rfl
        | org =>
          have hif : (if AuthAudience.org = .any then "any".toList else "org".toList) =
            "org".toList := rfl
          simp only [Option.map_some, hif, readRuleAudience, if_neg horg, if_true]
    simp only [if_true, if_neg hpublic, hroles, haudience, Option.bind_eq_bind, Option.bind_some,
      readPath]

/-- The role codes that are parsed are role codes. -/
private theorem parseRoleCodes_ok {items : List RawJson} {out roles : List Str}
    (hout : ∀ role ∈ out, isRoleCode role = true) (h : parseRoleCodes out items = .ok roles) :
    ∀ role ∈ roles, isRoleCode role = true := by
  induction items generalizing out with
  | nil =>
    obtain rfl : out = roles := by simpa [parseRoleCodes] using h
    exact hout
  | cons item items ih =>
    cases item with
    | str item =>
      unfold parseRoleCodes at h
      split at h
      · next hrole =>
        refine ih ?_ h
        split
        · exact hout
        · intro role hmem
          rcases List.mem_append.mp hmem with hmem | hmem
          · exact hout role hmem
          · obtain rfl := List.mem_singleton.mp hmem
            exact hrole
      · cases h
    | _ => cases h

/-- The parts of a computation that succeeds. -/
private theorem bind_eq_ok {α β : Type} {x : Except Str α} {f : α → Except Str β} {b : β}
    (h : (x >>= f) = .ok b) : ∃ a, x = .ok a ∧ f a = .ok b := by
  cases x with
  | error e => cases h
  | ok a => exact ⟨a, rfl, h⟩

/-- The roles that are parsed are role codes. -/
private theorem parseRuleRoles_ok {raw : Option RawJson} {roles : Option (List Str)}
    (h : parseRuleRoles raw = .ok roles) : ∀ r ∈ roles, ∀ role ∈ r, isRoleCode role = true := by
  rintro r rfl
  unfold parseRuleRoles at h
  split at h
  · cases h
  · cases h
  · next items =>
    cases hitems : parseRoleCodes [] items with
    | error e =>
      rw [hitems] at h
      cases h
    | ok out =>
      rw [hitems] at h
      obtain rfl : out = r := Option.some.inj (Except.ok.inj h)
      exact parseRoleCodes_ok (fun _ hmem => absurd hmem List.not_mem_nil) hitems
  · cases h

/-- A rule that is parsed can be stored, and its path was not seen before. -/
theorem parseAuthRule_ok {lower : Str → Str} {seen : List Str} {entry : RawJson} {rule : AuthRule}
    (h : parseAuthRule lower seen entry = .ok rule) :
    Storable rule ∧ lower rule.path ∉ seen := by
  unfold parseAuthRule at h
  obtain ⟨auth, -, h⟩ := bind_eq_ok h
  obtain ⟨path, hpath, h⟩ := bind_eq_ok h
  split at h
  · cases h
  next hseen =>
  have hnew : lower path ∉ seen := by simpa using hseen
  cases auth with
  | publicAccess =>
    obtain rfl := Except.ok.inj h
    exact ⟨⟨⟨_, hpath⟩, fun _ hr => (by cases hr), fun _ => ⟨rfl, rfl⟩⟩, hnew⟩
  | required =>
    obtain ⟨roles, hroles, h⟩ := bind_eq_ok h
    obtain ⟨audience, -, h⟩ := bind_eq_ok h
    obtain rfl := Except.ok.inj h
    exact ⟨⟨⟨_, hpath⟩, parseRuleRoles_ok hroles, fun hpub => (by cases hpub)⟩, hnew⟩

/-- Rules that are parsed can be stored, and their paths differ in more than case. -/
theorem parseRuleList_ok {lower : Str → Str} {seen : List Str} {raw : List RawJson}
    {rules : List AuthRule} (h : parseRuleList lower seen raw = .ok rules) :
    (∀ rule ∈ rules, Storable rule ∧ lower rule.path ∉ seen) ∧
      rules.Pairwise fun a b => lower a.path ≠ lower b.path := by
  induction raw generalizing seen rules with
  | nil =>
    obtain rfl := Except.ok.inj h
    exact ⟨fun _ hmem => absurd hmem List.not_mem_nil, .nil⟩
  | cons entry rest ih =>
    unfold parseRuleList at h
    obtain ⟨rule, hrule, h⟩ := bind_eq_ok h
    obtain ⟨tail, hrest, h⟩ := bind_eq_ok h
    obtain rfl := Except.ok.inj h
    obtain ⟨hall, hpair⟩ := ih hrest
    refine ⟨?_, List.pairwise_cons.mpr ⟨fun r hr heq => ?_, hpair⟩⟩
    · rw [List.forall_mem_cons]
      refine ⟨parseAuthRule_ok hrule, fun r hr => ⟨(hall r hr).1, fun hmem => ?_⟩⟩
      exact (hall r hr).2 (List.mem_cons_of_mem _ hmem)
    · exact (hall r hr).2 (heq ▸ List.mem_cons_self)

/-- An accepted rule list can be stored. -/
theorem parseAuthRules_ok {lower : Str → Str} {raw : Option RawJson} {rules : List AuthRule}
    (h : parseAuthRules lower raw = .ok rules) :
    (∀ rule ∈ rules, Storable rule) ∧ rules.Pairwise fun a b => lower a.path ≠ lower b.path := by
  unfold parseAuthRules at h
  split at h
  · obtain rfl := Except.ok.inj h
    exact ⟨fun _ hmem => absurd hmem List.not_mem_nil, .nil⟩
  · obtain rfl := Except.ok.inj h
    exact ⟨fun _ hmem => absurd hmem List.not_mem_nil, .nil⟩
  · split at h
    · cases h
    · obtain ⟨hall, hpair⟩ := parseRuleList_ok h
      exact ⟨fun rule hmem => (hall rule hmem).1, hpair⟩
  · cases h

/-- A rule that names nobody is accepted when its path is new. -/
theorem parseAuthRule_plain {lower : Str → Str} {seen : List Str} {raw path : Str} (auth : RuleAuth)
    (h : normalizeRulePath (some (.str raw)) = .ok path) (hseen : lower path ∉ seen) :
    parseAuthRule lower seen (AuthRule.toJson { path := raw, auth }) = .ok { path, auth } := by
  have hauth : parseRuleAuth (AuthRule.toJson { path := raw, auth }) = .ok auth := by
    have hpublic : "public".toList ≠ "required".toList := by decide
    have hget := toJson_get_auth { path := raw, auth }
    obtain ⟨fields, hobj⟩ : ∃ fields, AuthRule.toJson { path := raw, auth } = .obj fields := ⟨_, rfl⟩
    rw [hobj] at hget ⊢
    simp only [parseRuleAuth, hget]
    cases auth with
    | required => exact if_pos rfl
    | publicAccess =>
      have hif : (if RuleAuth.publicAccess = .required then "required".toList else "public".toList) =
        "public".toList := rfl
      simp only [hif, if_neg hpublic, if_true]
  have hcontains : seen.contains (lower path) = false := by simpa using hseen
  unfold parseAuthRule
  simp only [hauth, toJson_get_path, toJson_get_roles, toJson_get_audience, h, bind, Except.bind,
    hcontains, Bool.false_eq_true, if_false]
  cases auth <;> rfl

/-! ## Verdicts on stored rules -/

/-- The rules of the column, as they are read. -/
def readRules (rules : List AuthRule) : List AuthRule :=
  rules.map fun rule => { rule with path := readPath rule.path }

/-- The longest match among the rules of the column. -/
def winnerOf (lower : Str → Str) (path : Str) (rules : List AuthRule) : Option AuthRule :=
  (readRules rules).foldl (betterMatch lower path) none

section Verdicts

variable {lower : Str → Str}

/-- Stored rules can all be read. -/
private theorem findWinner_stored {path : Str} {rules : List AuthRule}
    (h : ∀ rule ∈ rules, Storable rule) (best : Option AuthRule) :
    findWinner lower path best (rules.map AuthRule.toJson) =
      some ((readRules rules).foldl (betterMatch lower path) best) := by
  induction rules generalizing best with
  | nil => rfl
  | cons rule rules ih =>
    rw [List.forall_mem_cons] at h
    rw [List.map_cons, findWinner, readStoredAuthRule_toJson h.1]
    exact ih h.2 _

/-- The verdict on a path that can be read is that of the longest match. -/
theorem resolvePathPolicyBy_stored {rules : List AuthRule} (h : ∀ rule ∈ rules, Storable rule)
    (pathname : Str) (scope : Option Str) :
    resolvePathPolicyBy lower pathname scope (storedRules rules) =
      if isUnreasonable pathname then protectedFallback
      else verdict scope (winnerOf lower (lower pathname) rules) := by
  simp only [resolvePathPolicyBy, storedRules, findWinner_stored h, winnerOf]

/-- The longest match rests on which paths match. -/
theorem winnerOf_congr {p q : Str} {rules : List AuthRule}
    (h : ∀ rule ∈ rules, matchesPrefix p (lower (readPath rule.path)) =
      matchesPrefix q (lower (readPath rule.path))) :
    winnerOf lower p rules = winnerOf lower q rules := by
  have hfold : ∀ best, (readRules rules).foldl (betterMatch lower p) best =
      (readRules rules).foldl (betterMatch lower q) best := by
    induction rules with
    | nil => exact fun _ => rfl
    | cons rule rules ih =>
      rw [List.forall_mem_cons] at h
      intro best
      rw [readRules, List.map_cons, List.foldl_cons, List.foldl_cons]
      have hstep : betterMatch lower p best { rule with path := readPath rule.path } =
          betterMatch lower q best { rule with path := readPath rule.path } := by
        simp only [betterMatch, h.1]
      rw [hstep]
      exact ih h.2 _
  exact hfold none

/-- The longest match of one rule. -/
theorem winnerOf_single (p : Str) (rule : AuthRule) : winnerOf lower p [rule] =
    if matchesPrefix p (lower (readPath rule.path)) then
      some { rule with path := readPath rule.path }
    else none := rfl

end Verdicts

/-! ## Two spellings -/

/-- The verdict on one path demands what the verdict on the other demands, or it cannot be read. -/
def Demands (policy demanded : PathPolicy) : Prop :=
  policy.unreadable = true ∨ (policy.requiresLogin = true ∧ policy.audience = demanded.audience ∧
    policy.roles = demanded.roles)

/-- Under every scope and every accepted rule list, the wall around `q` is around `p`. -/
def Walled (lower : Str → Str) (p q : Str) : Prop :=
  ∀ (scope : Option Str) (raw : Option RawJson) (rules : List AuthRule),
    parseAuthRules lower raw = .ok rules →
    (resolvePathPolicyBy lower q scope (storedRules rules)).requiresLogin = true →
    Demands (resolvePathPolicyBy lower p scope (storedRules rules))
      (resolvePathPolicyBy lower q scope (storedRules rules))

/-- The paths that a rule can have match both paths or none of them. -/
def SamePrefixes (lower : Str → Str) (p q : Str) : Prop :=
  ∀ r, IsRulePath r → matchesPrefix (lower p) (lower r) = matchesPrefix (lower q) (lower r)

section Spellings

variable {lower : Str → Str} {p q : Str}

/-- One rule that names nobody is accepted. -/
private theorem parseAuthRules_single {raw path : Str} (auth : RuleAuth)
    (h : normalizeRulePath (some (.str raw)) = .ok path) :
    parseAuthRules lower (some (.arr [AuthRule.toJson { path := raw, auth }])) =
      .ok [{ path, auth }] := by
  simp [parseAuthRules, maxRules, parseRuleList, parseAuthRule_plain auth h, bind, Except.bind]

/-- Spellings with the same prefixes have the same verdict. -/
private theorem walled_of_samePrefixes (hq : isUnreasonable q = false)
    (h : SamePrefixes lower p q) : Walled lower p q := by
  intro scope raw rules hparse hlogin
  obtain ⟨hstorable, -⟩ := parseAuthRules_ok hparse
  rw [resolvePathPolicyBy_stored hstorable] at hlogin ⊢
  rw [resolvePathPolicyBy_stored hstorable]
  have hwinner : winnerOf lower (lower p) rules = winnerOf lower (lower q) rules := by
    refine winnerOf_congr fun rule hrule => h _ ?_
    obtain ⟨raw, hpath⟩ := (hstorable rule hrule).path
    exact isRulePath_of_normalizeRulePath hpath
  simp only [hq, Bool.false_eq_true, if_false] at hlogin ⊢
  split
  · exact Or.inl rfl
  · rw [hwinner]
    exact Or.inr ⟨hlogin, rfl, rfl⟩

/-- A wall around both spellings comes from the same prefixes. -/
private theorem samePrefixes_of_walled (hp : isUnreasonable p = false) (h : Walled lower p q) :
    isUnreasonable q = false ∧ SamePrefixes lower p q := by
  have hfallback : verdict (some "paths".toList) none = { requiresLogin := false } := by
    simp [verdict]
  -- a path without rules is open under the scope "paths"
  have hreadable : isUnreasonable q = false := by
    rw [Bool.eq_false_iff]
    intro hq
    have hwall := h (some "paths".toList) none [] rfl
    simp only [resolvePathPolicyBy_stored fun _ hmem => absurd hmem List.not_mem_nil, hq, hp,
      if_true, Bool.false_eq_true, if_false, winnerOf, readRules, List.map_nil, List.foldl_nil,
      hfallback] at hwall
    rcases hwall rfl with hwall | ⟨hwall, -⟩ <;> cases hwall
  refine ⟨hreadable, fun r hr => ?_⟩
  obtain ⟨raw, path, hpath, rfl⟩ := hr
  have hstorable : ∀ auth, ∀ rule ∈ [({ path, auth } : AuthRule)], Storable rule := by
    intro auth rule hrule
    obtain rfl := List.mem_singleton.mp hrule
    exact ⟨⟨_, hpath⟩, fun _ h => (by cases h), fun _ => ⟨rfl, rfl⟩⟩
  cases hmp : matchesPrefix (lower p) (lower (readPath path)) with
  | true =>
    cases hmq : matchesPrefix (lower q) (lower (readPath path)) with
    | true => rfl
    | false =>
      -- a public rule opens one of them
      have hwall := h none _ _ (parseAuthRules_single .publicAccess hpath)
      simp only [resolvePathPolicyBy_stored (hstorable _), hreadable, hp, Bool.false_eq_true,
        if_false, winnerOf_single, hmp, hmq, if_true] at hwall
      rcases hwall rfl with hwall | ⟨hwall, -⟩ <;> cases hwall
  | false =>
    cases hmq : matchesPrefix (lower q) (lower (readPath path)) with
    | true =>
      -- a required rule closes one of them
      have hwall := h (some "paths".toList) _ _ (parseAuthRules_single .required hpath)
      simp only [resolvePathPolicyBy_stored (hstorable _), hreadable, hp, Bool.false_eq_true,
        if_false, winnerOf_single, hmp, hmq, if_true, hfallback] at hwall
      rcases hwall rfl with hwall | ⟨hwall, -⟩ <;> cases hwall
    | false => rfl

/-- The wall around `q` is around `p` exactly when `p` cannot be read, or `q` can be and the paths that
    a rule can have match both or none. -/
theorem walled_iff : Walled lower p q ↔
    isUnreasonable p = true ∨ (isUnreasonable q = false ∧ SamePrefixes lower p q) := by
  constructor
  · intro h
    cases hp : isUnreasonable p with
    | true => exact Or.inl rfl
    | false => exact Or.inr (samePrefixes_of_walled hp h)
  · rintro (hp | ⟨hq, hsame⟩)
    · intro scope raw rules hparse _
      rw [resolvePathPolicyBy_stored (parseAuthRules_ok hparse).1, if_pos hp]
      exact Or.inl rfl
    · exact walled_of_samePrefixes hq hsame

end Spellings

/-- A pathname is walled as the path that an app resolves it to exactly when it cannot be read, or that
    path can be and the paths that a rule can have match both or none. -/
theorem spelling_walled_iff (lower : Str → Str) (p : Str) : ∀ q, appPath lower p = some q →
    (Walled lower p q ↔
      isUnreasonable p = true ∨ (isUnreasonable q = false ∧ SamePrefixes lower p q)) :=
  fun _ _ => walled_iff

/-- A path in another case. -/
theorem spelling_walled_admin :
    appPath Str.jsLowerCase (urlPathname "/Admin?x".toList) = some "/admin".toList ∧
      (Walled Str.jsLowerCase (urlPathname "/Admin?x".toList) "/admin".toList ↔
        isUnreasonable (urlPathname "/Admin?x".toList) = true ∨
          (isUnreasonable "/admin".toList = false ∧
            SamePrefixes Str.jsLowerCase (urlPathname "/Admin?x".toList) "/admin".toList)) := by
  have hbytes : percentDecode (urlPathname "/Admin?x".toList) = Str.utf8 "/Admin".toList := by
    decide
  have hpath : appPath Str.jsLowerCase (urlPathname "/Admin?x".toList) = some "/admin".toList := by
    rw [appPath, hbytes, Str.fromUtf8_utf8]
    decide
  exact ⟨hpath, spelling_walled_iff Str.jsLowerCase _ _ hpath⟩

/-- An encoded letter opens a protected path. -/
theorem encoded_letter_unwalled :
    ¬ ∀ (typed q : Str), appPath Str.jsLowerCase (urlPathname typed) = some q →
      Walled Str.jsLowerCase (urlPathname typed) q := by
  intro h
  have hbytes : percentDecode (urlPathname "/%61dmin".toList) = Str.utf8 "/admin".toList := by
    decide
  have hpath : appPath Str.jsLowerCase (urlPathname "/%61dmin".toList) = some "/admin".toList := by
    rw [appPath, hbytes, Str.fromUtf8_utf8]
    decide
  have hparse : parseAuthRules Str.jsLowerCase
      (some (.arr [AuthRule.toJson { path := "/admin".toList, auth := .required }])) =
        .ok [{ path := "/admin".toList, auth := .required }] :=
    parseAuthRules_single .required (by decide)
  have hopen : resolvePathPolicyBy Str.jsLowerCase (urlPathname "/%61dmin".toList)
      (some "paths".toList) (storedRules [{ path := "/admin".toList, auth := .required }]) =
        { requiresLogin := false } := by decide
  have hwall := h _ _ hpath (some "paths".toList) _ _ hparse (by decide)
  rw [hopen] at hwall
  rcases hwall with hwall | ⟨hwall, -⟩ <;> cases hwall

end TeamClu.Apps
