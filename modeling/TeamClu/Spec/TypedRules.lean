import Mathlib.Data.List.Nodup
import TeamClu.Spec.PathSpellings

/-!
# Rules as they are typed

The author of a rule types its path, a visitor types a path below it, and the URL parser spells that
path in its own way.  Where all rules are stored as they were typed, a required rule protects what is
typed below it exactly when the parser's spelling cannot be read, or when the rule is a prefix of it and
every longer rule path that is a prefix of it was typed as well (`typed_rule_protects_iff`).  A path that
the parser percent-encodes is protected by no rule (`encoded_rule_unprotected`).
-/

namespace TeamClu.Apps

open UrlPath

/-- The path is stored as it is typed. -/
def StoredPath (r : Str) : Prop := normalizeRulePath (some (.str r)) = .ok r

/-- What a visitor types behind the host: the path of a rule without its trailing slash, and `s`. -/
def typedPath (r s : Str) : Str := (if r = "/".toList then [] else r) ++ s

/-- The rule protects what is typed below its path: the verdict demands what the rule demands, or it is
    that of a longer rule that is a prefix of what was typed, or the path cannot be read. -/
def Protects (lower : Str → Str) (scope : AuthScope) (rules : List AuthRule) (rule : AuthRule)
    (s : Str) : Prop :=
  let typed := typedPath rule.path s
  let policy := resolvePathPolicyBy lower (urlPathname typed) (some scope.text) (storedRules rules)
  Demands policy (verdict none (some rule)) ∨
    ∃ other ∈ rules, prefixLength (lower rule.path) < prefixLength (lower other.path) ∧
      matchesPrefix (lower typed) (lower other.path) = true ∧ policy = verdict none (some other)

/-- The rules are accepted under the scope. -/
def Accepted (lower : Str → Str) (scope : AuthScope) (raw : Option RawJson) (rules : List AuthRule) :
    Prop :=
  parseAuthRules lower raw = .ok rules ∧ validateAuthPathConfig scope rules = .ok ()

/-- The parser's spelling of what is typed below the path `r` cannot be read, or `r` is a prefix of it,
    and longer paths of rules are prefixes of it only when they are prefixes of what is typed. -/
def SpelledAsTyped (lower : Str → Str) (r s : Str) : Prop :=
  let typed := typedPath r s
  isUnreasonable (urlPathname typed) = true ∨
    (matchesPrefix (lower (urlPathname typed)) (lower r) = true ∧
      ∀ r', StoredPath r' → prefixLength (lower r) < prefixLength (lower r') →
        matchesPrefix (lower (urlPathname typed)) (lower r') = true →
        matchesPrefix (lower typed) (lower r') = true)

/-! ## Paths that are stored as they are typed -/

theorem jsTrim_sublist (s : Str) : (Str.jsTrim s).Sublist s :=
  (List.dropWhile_sublist _).trans (List.rdropWhile_prefix _ _).sublist

/-- Such a path is read as it is stored. -/
theorem StoredPath.readPath {r : Str} (h : StoredPath r) : readPath r = r := by
  unfold StoredPath normalizeRulePath at h
  simp only at h
  split at h
  · cases h
  split at h
  · cases h
  split at h
  · cases h
  split at h
  · obtain rfl := Except.ok.inj h
    decide
  · have hr := Except.ok.inj h
    -- each pass leaves a part, and the last one leaves all
    have hslash := (dropTrailingSlashes_isPrefix (dropStar (Str.jsTrim r))).sublist
    have hstar := (dropStar_isPrefix (Str.jsTrim r)).sublist
    have htrim := jsTrim_sublist r
    rw [hr] at hslash
    have heq : Str.jsTrim r = r := htrim.antisymm (hslash.trans hstar)
    have heq' : dropStar (Str.jsTrim r) = r := (hstar.trans htrim).antisymm hslash
    rw [heq'] at hr
    rw [Apps.readPath, heq, hr]

/-- A space in front of the star stays in the stored path and not in the one that is read, so two rules
    of one list may be read as the same. -/
example : normalizeRulePath (some (.str "/a /*".toList)) = .ok "/a ".toList ∧
    readPath "/a ".toList = "/a".toList := by decide

/-- The path is not empty. -/
theorem StoredPath.ne_nil {r : Str} (h : StoredPath r) : r ≠ [] := by
  rintro rfl
  have hhead := head?_of_normalizeRulePath h
  cases hhead

/-- Rules with such paths are read as they are stored. -/
private theorem readRules_eq {rules : List AuthRule} (h : ∀ rule ∈ rules, StoredPath rule.path) :
    readRules rules = rules := by
  unfold readRules
  conv => rhs; rw [← List.map_id rules]
  exact List.map_congr_left fun rule hrule => by rw [(h rule hrule).readPath, id]

/-! ## Prefixes of one path -/

/-- Characters have code units. -/
private theorem utf16Len_pos {s : Str} (h : s ≠ []) : 0 < s.utf16Len := by
  obtain ⟨c, s, rfl⟩ := List.exists_cons_of_ne_nil h
  have hunits : 0 < (Str.utf16Units c).length := by
    unfold Str.utf16Units
    split <;> simp
  simp only [Str.utf16Len, Str.utf16, List.flatMap_cons, List.length_append]
  omega

private theorem utf16Len_append (s t : Str) :
    Str.utf16Len (s ++ t) = Str.utf16Len s + Str.utf16Len t := by
  simp [Str.utf16Len, Str.utf16]

/-- What matches a path is the root or begins the path. -/
private theorem isPrefix_of_matchesPrefix {path pre : Str} (h : matchesPrefix path pre = true)
    (hroot : pre ≠ "/".toList) : pre <+: path := by
  simp only [matchesPrefix, Bool.or_eq_true, decide_eq_true_eq] at h
  rcases h with (h | h) | h
  · exact absurd h hroot
  · rw [h]
  · exact (List.prefix_append _ _).trans (List.isPrefixOf_iff_prefix.mp h)

/-- Only the root has length zero. -/
private theorem prefixLength_pos {pre : Str} (hne : pre ≠ []) (hroot : pre ≠ "/".toList) :
    0 < prefixLength pre := by
  rw [prefixLength, if_neg hroot]
  exact utf16Len_pos hne

/-- A path has one prefix of each length. -/
theorem eq_of_prefixLength_eq {path a b : Str} (ha : matchesPrefix path a = true)
    (hb : matchesPrefix path b = true) (hane : a ≠ []) (hbne : b ≠ [])
    (hlen : prefixLength a = prefixLength b) : a = b := by
  have hzero : prefixLength "/".toList = 0 := if_pos rfl
  by_cases hroot : a = "/".toList
  · by_contra hne
    have hpos := prefixLength_pos hbne fun hb => hne (hroot.trans hb.symm)
    rw [hroot, hzero] at hlen
    omega
  by_cases hroot' : b = "/".toList
  · have hpos := prefixLength_pos hane hroot
    rw [hroot', hzero] at hlen
    omega
  have hap := isPrefix_of_matchesPrefix ha hroot
  have hbp := isPrefix_of_matchesPrefix hb hroot'
  rw [prefixLength, if_neg hroot, prefixLength, if_neg hroot'] at hlen
  -- one is a prefix of the other, and nothing is left
  have hall : ∀ {x y : Str}, x <+: y → x.utf16Len = y.utf16Len → x = y := by
    rintro x _ ⟨rest, rfl⟩ hlen
    rw [utf16Len_append] at hlen
    by_contra hne
    have hpos := utf16Len_pos (s := rest) (by rintro rfl; exact hne (List.append_nil x).symm)
    omega
  rcases List.prefix_or_prefix_of_prefix hap hbp with h | h
  · exact hall h hlen
  · exact (hall h hlen.symm).symm

/-! ## The winner -/

section Winner

variable {lower : Str → Str}

/-- The loop finds the longest match. -/
private theorem foldl_winner {path : Str} {rules read : List AuthRule} {best : Option AuthRule}
    (h : Winner lower path read best) :
    Winner lower path (read ++ rules) (rules.foldl (betterMatch lower path) best) := by
  induction rules generalizing read best with
  | nil => simpa using h
  | cons rule rules ih => simpa using ih (h.betterMatch rule)

/-- The longest match among rules that are read as they are stored. -/
theorem winnerOf_winner {path : Str} {rules : List AuthRule}
    (h : ∀ rule ∈ rules, StoredPath rule.path) :
    Winner lower path rules (winnerOf lower path rules) := by
  have hnil : Winner lower path [] none := ⟨fun _ h => (by cases h), fun _ h => (by cases h)⟩
  rw [winnerOf, readRules_eq h]
  exact foldl_winner hnil

/-- A rule that is matched loses to a longer one only. -/
theorem winnerOf_cases (hlower : ∀ s, lower s = [] → s = []) {path : Str} {rules : List AuthRule}
    (h : ∀ rule ∈ rules, StoredPath rule.path)
    (hpair : rules.Pairwise fun a b => lower a.path ≠ lower b.path) {rule : AuthRule}
    (hrule : rule ∈ rules) (hmatch : matchesPrefix path (lower rule.path) = true) :
    winnerOf lower path rules = some rule ∨
      ∃ other ∈ rules, winnerOf lower path rules = some other ∧
        prefixLength (lower rule.path) < prefixLength (lower other.path) ∧
        matchesPrefix path (lower other.path) = true := by
  have hwinner := @winnerOf_winner lower path rules h
  obtain ⟨other, hother, hle⟩ := hwinner.longest rule hrule hmatch
  obtain ⟨hmem, hmatch'⟩ := hwinner.mem other hother
  rcases Nat.lt_or_eq_of_le hle with hlt | heq
  · exact Or.inr ⟨other, hmem, hother, hlt, hmatch'⟩
  · left
    have hne : ∀ x ∈ rules, lower x.path ≠ [] :=
      fun x hx hempty => (h x hx).ne_nil (hlower _ hempty)
    have hsame := eq_of_prefixLength_eq hmatch hmatch' (hne _ hrule) (hne _ hmem) heq
    -- two accepted rules have different paths
    have hnodup : (rules.map fun x => lower x.path).Nodup := List.pairwise_map.mpr hpair
    have hinj : other = rule := List.inj_on_of_nodup_map hnodup hmem hrule hsame.symm
    rw [hother, hinj]

end Winner

/-! ## Protection -/

section Protection

variable {lower : Str → Str}

/-- What is spelled as it is typed is protected. -/
private theorem protects_of_spelledAsTyped (hlower : ∀ s, lower s = [] → s = []) {scope : AuthScope}
    {raw : Option RawJson} {rules : List AuthRule} (haccepted : Accepted lower scope raw rules)
    (hstored : ∀ x ∈ rules, StoredPath x.path) {rule : AuthRule} (hrule : rule ∈ rules)
    (hauth : rule.auth = .required) {s : Str} (h : SpelledAsTyped lower rule.path s) :
    Protects lower scope rules rule s := by
  obtain ⟨hstorable, hpair⟩ := parseAuthRules_ok haccepted.1
  unfold Protects
  simp only [resolvePathPolicyBy_stored hstorable]
  rcases h with hunreadable | ⟨hmatch, hlonger⟩
  · rw [if_pos hunreadable]
    exact Or.inl (Or.inl rfl)
  split
  · exact Or.inl (Or.inl rfl)
  have hverdict : ∀ winner, verdict (some scope.text) (some winner) = verdict none (some winner) := by
    rintro ⟨path, auth, audience, roles⟩
    cases auth <;> rfl
  rcases winnerOf_cases hlower hstored hpair hrule hmatch with hwinner |
    ⟨other, hother, hwinner, hlt, hmatch'⟩
  · left
    rw [hwinner, hverdict]
    obtain ⟨path, auth, audience, roles⟩ := rule
    cases hauth
    exact Or.inr ⟨rfl, rfl, rfl⟩
  · right
    rw [hwinner, hverdict]
    exact ⟨other, hother, hlt, hlonger other.path (hstored other hother) hlt hmatch', rfl⟩

/-- A required rule alone is accepted under the scope "paths". -/
private theorem accepted_required {r : Str} (hr : StoredPath r) :
    Accepted lower .paths (some (.arr [AuthRule.toJson { path := r, auth := .required }]))
      [{ path := r, auth := .required }] := by
  refine ⟨?_, rfl⟩
  simp [parseAuthRules, maxRules, parseRuleList, parseAuthRule_plain .required hr, bind, Except.bind]

/-- And together with a public rule of another path. -/
private theorem accepted_exception {r r' : Str} (hr : StoredPath r) (hr' : StoredPath r')
    (hne : lower r' ≠ lower r) :
    Accepted lower .paths (some (.arr [AuthRule.toJson { path := r, auth := .required },
        AuthRule.toJson { path := r', auth := .publicAccess }]))
      [{ path := r, auth := .required }, { path := r', auth := .publicAccess }] := by
  refine ⟨?_, rfl⟩
  have hseen : lower r' ∉ [lower r] := by simpa using hne
  simp [parseAuthRules, maxRules, parseRuleList, parseAuthRule_plain .required hr,
    parseAuthRule_plain .publicAccess hr' hseen, bind, Except.bind]

/-- What every accepted rule list protects is spelled as it is typed. -/
private theorem spelledAsTyped_of_protects {r s : Str} (hr : StoredPath r)
    (h : ∀ scope raw rules, Accepted lower scope raw rules → (∀ x ∈ rules, StoredPath x.path) →
      ∀ rule ∈ rules, rule.auth = .required → rule.path = r → Protects lower scope rules rule s) :
    SpelledAsTyped lower r s := by
  unfold SpelledAsTyped
  simp only
  by_cases hunreadable : isUnreasonable (urlPathname (typedPath r s)) = true
  · exact Or.inl hunreadable
  right
  have hsingle : ∀ x ∈ [({ path := r, auth := .required } : AuthRule)], StoredPath x.path := by
    intro x hx
    obtain rfl := List.mem_singleton.mp hx
    exact hr
  have hmatch : matchesPrefix (lower (urlPathname (typedPath r s))) (lower r) = true := by
    -- the rule alone, under the scope "paths"
    by_contra hmatch
    have haccepted := @accepted_required lower r hr
    have hprotects := h _ _ _ haccepted hsingle _ List.mem_cons_self rfl rfl
    rw [Protects, resolvePathPolicyBy_stored (parseAuthRules_ok haccepted.1).1, if_neg hunreadable,
      winnerOf_single, hr.readPath, if_neg hmatch] at hprotects
    rcases hprotects with (hdemands | ⟨hdemands, -⟩) | ⟨other, hother, hlt, -⟩
    · cases hdemands
    · revert hdemands
      decide
    · obtain rfl := List.mem_singleton.mp hother
      exact absurd hlt (Nat.lt_irrefl _)
  refine ⟨hmatch, fun r' hr' hlt hmatch' => ?_⟩
  -- the rule with a public exception
  have haccepted := @accepted_exception lower r r' hr hr' fun heq => by
    rw [heq] at hlt
    exact absurd hlt (Nat.lt_irrefl _)
  have hboth : ∀ x ∈ [({ path := r, auth := .required } : AuthRule),
      { path := r', auth := .publicAccess }], StoredPath x.path := by
    simp [hr, hr']
  have hprotects := h _ _ _ haccepted hboth _ List.mem_cons_self rfl rfl
  have hwinner : winnerOf lower (lower (urlPathname (typedPath r s)))
      [{ path := r, auth := .required }, { path := r', auth := .publicAccess }] =
        some { path := r', auth := .publicAccess } := by
    rw [winnerOf, readRules_eq hboth]
    simp [betterMatch, hmatch, hmatch', hlt]
  rw [Protects, resolvePathPolicyBy_stored (parseAuthRules_ok haccepted.1).1, if_neg hunreadable,
    hwinner] at hprotects
  rcases hprotects with (hdemands | ⟨hdemands, -⟩) | ⟨other, hother, hlt', htyped, -⟩
  · cases hdemands
  · cases hdemands
  · rcases List.mem_pair.mp hother with rfl | rfl
    · exact absurd hlt' (Nat.lt_irrefl _)
    · exact htyped

end Protection

/-- A required rule protects what is typed below its path, under every scope and in every accepted list
    of rules that are stored as they are typed, exactly when the parser spells it as it is typed. -/
theorem typed_rule_protects_iff {lower : Str → Str} (hlower : ∀ s, lower s = [] → s = []) {r : Str}
    (hr : StoredPath r) (s : Str) :
    (∀ scope raw rules, Accepted lower scope raw rules → (∀ x ∈ rules, StoredPath x.path) →
      ∀ rule ∈ rules, rule.auth = .required → rule.path = r → Protects lower scope rules rule s) ↔
    SpelledAsTyped lower r s := by
  refine ⟨spelledAsTyped_of_protects hr, fun h scope raw rules haccepted hstored rule hrule hauth
    hpath => ?_⟩
  exact protects_of_spelledAsTyped hlower haccepted hstored hrule hauth (hpath ▸ h)

/-- A path that the parser leaves alone is spelled as it is typed. -/
theorem spelledAsTyped_of_plain {lower : Str → Str} {r s : Str}
    (hplain : urlPathname (typedPath r s) = typedPath r s)
    (hmatch : matchesPrefix (lower (typedPath r s)) (lower r) = true) : SpelledAsTyped lower r s := by
  unfold SpelledAsTyped
  simp only [hplain]
  exact Or.inr ⟨hmatch, fun _ _ _ h => h⟩

/-- What is typed below `/admin` is protected by the rule that stands alone. -/
theorem typed_rule_protects_admin :
    StoredPath "/admin".toList ∧ SpelledAsTyped Str.jsLowerCase "/admin".toList "/users".toList ∧
      Protects Str.jsLowerCase .paths [{ path := "/admin".toList, auth := .required }]
        { path := "/admin".toList, auth := .required } "/users".toList := by
  have hstored : StoredPath "/admin".toList := by
    unfold StoredPath
    decide
  have hlower : ∀ s, Str.jsLowerCase s = [] → s = [] := fun s h => List.map_eq_nil_iff.mp h
  have hspelled : SpelledAsTyped Str.jsLowerCase "/admin".toList "/users".toList :=
    spelledAsTyped_of_plain (by decide) (by decide +kernel)
  refine ⟨hstored, hspelled, ?_⟩
  refine (typed_rule_protects_iff hlower hstored "/users".toList).mpr hspelled _ _ _
    (accepted_required hstored) (fun x hx => ?_) _ List.mem_cons_self rfl rfl
  rw [List.mem_singleton.mp hx]
  exact hstored

/-- A path that the parser percent-encodes is not protected. -/
theorem encoded_rule_unprotected :
    ¬ ∀ (scope : AuthScope) (raw : Option RawJson) (rules : List AuthRule) (rule : AuthRule) (s : Str),
      Accepted Str.jsLowerCase scope raw rules → rule ∈ rules → rule.auth = .required →
      '?' ∉ rule.path → '#' ∉ rule.path → (s = [] ∨ s.head? = some '/') →
        Protects Str.jsLowerCase scope rules rule s := by
  intro h
  have hstored : StoredPath "/管理".toList := by
    unfold StoredPath
    decide
  have haccepted := @accepted_required Str.jsLowerCase _ hstored
  have hprotects := h _ _ _ _ [] haccepted List.mem_cons_self rfl (by decide)
    (by decide) (Or.inl rfl)
  have hopen : resolvePathPolicyBy Str.jsLowerCase (urlPathname (typedPath "/管理".toList []))
      (some AuthScope.paths.text) (storedRules [{ path := "/管理".toList, auth := .required }]) =
        { requiresLogin := false } := by decide
  unfold Protects at hprotects
  simp only [hopen] at hprotects
  rcases hprotects with (hdemands | ⟨hdemands, -⟩) | ⟨other, hother, hlt, -⟩
  · cases hdemands
  · cases hdemands
  · obtain rfl := List.mem_singleton.mp hother
    exact absurd hlt (Nat.lt_irrefl _)

end TeamClu.Apps
