import Mathlib.Data.List.Nodup
import TeamClu.Spec.PathSpellings

/-!
# A rule set is declarative

A rule list that is accepted is stored, read back for every request and parsed again when it is edited.  Where no
path ends in white space once its wildcard and its slashes are dropped, all three mean one rule set, whose verdict
does not depend on its order.  Otherwise the reader trims a path that the writer did not.

## Key results

- `parsed_entries`: each accepted entry is one rule, with its path normalized
- `longest_unique`: at most one rule is the longest match
- `declarative_iff`: an accepted rule set is declarative exactly when its paths are plain
-/

namespace TeamClu.Apps

/-! ## What is asked of a rule set -/

/-- One path is another, or a parent of it. -/
def SegmentPrefix (pre path : Str) : Prop :=
  pre = "/".toList ∨ path = pre ∨ ∃ rest, path = pre ++ '/' :: rest

/-- The winner is the one rule whose path is the longest prefix of the path; there is none when no path is. -/
def Longest (lower : Str → Str) (path : Str) (rules : List AuthRule) : Option AuthRule → Prop
  | none => ∀ rule ∈ rules, ¬ SegmentPrefix (lower rule.path) path
  | some winner => winner ∈ rules ∧ SegmentPrefix (lower winner.path) path ∧
      ∀ rule ∈ rules, SegmentPrefix (lower rule.path) path →
        rule = winner ∨ prefixLength (lower rule.path) < prefixLength (lower winner.path)

/-- A rule set that means one thing, however it is ordered and through whichever end of the column it is read. -/
structure Declarative (lower : Str → Str) (rules : List AuthRule) : Prop where
  readsBack : ∀ rule ∈ rules, readStoredAuthRule rule.toJson = some rule
  verdict : ∀ pathname, isUnreasonable pathname = false → ∃ winner,
    Longest lower (lower pathname) rules winner ∧ ∀ scope rules', rules'.Perm rules →
      resolvePathPolicyBy lower pathname scope (storedRules rules') = verdict scope winner
  parsesBack : parseAuthRules lower (some (storedRules rules)) = .ok rules

/-- A typed path whose normalized form does not end in white space. -/
def PlainPath (raw : Str) : Prop :=
  ∀ c ∈ (dropTrailingSlashes (dropStar (Str.jsTrim raw))).getLast?, Str.isJsWhiteSpace c = false

/-- The entries of a raw rule list. -/
def rawEntries : Option RawJson → List RawJson
  | some (.arr items) => items
  | _ => []

variable {lower : Str → Str}

/-! ## The longest match -/

theorem matchesPrefix_iff {path pre : Str} : matchesPrefix path pre = true ↔ SegmentPrefix pre path := by
  unfold matchesPrefix SegmentPrefix
  simp only [Bool.or_eq_true, decide_eq_true_eq, or_assoc, List.isPrefixOf_iff_prefix]
  refine or_congr_right (or_congr_right ⟨?_, ?_⟩)
  · rintro ⟨rest, hrest⟩
    exact ⟨rest, by simp [← hrest]⟩
  · rintro ⟨rest, rfl⟩
    exact ⟨rest, by simp⟩

/-- A part of a text that is as long as it is the text. -/
private theorem eq_of_prefix_of_utf16Len {a b : Str} (h : a <+: b) (hlen : a.utf16Len = b.utf16Len) :
    a = b := by
  obtain ⟨rest, rfl⟩ := h
  cases rest with
  | nil => simp
  | cons c rest =>
    have hunits : 0 < (Str.utf16Units c).length := by
      unfold Str.utf16Units
      split <;> simp
    simp only [Str.utf16Len, Str.utf16, List.flatMap_append, List.flatMap_cons, List.length_append] at hlen
    omega

/-- Two prefixes of one path that are as specific are one. -/
theorem eq_of_prefixLength {path a b : Str} (ha : a ≠ []) (hb : b ≠ []) (hpa : SegmentPrefix a path)
    (hpb : SegmentPrefix b path) (hlen : prefixLength a = prefixLength b) : a = b := by
  have hpos {c : Str} (hc : c ≠ []) : 0 < c.utf16Len := by
    by_contra h0
    have heq : Str.utf16Len [] = c.utf16Len := by
      have : Str.utf16Len [] = 0 := rfl
      omega
    exact hc (eq_of_prefix_of_utf16Len (List.nil_prefix) heq).symm
  have hbegins {c : Str} (hc : SegmentPrefix c path) : c = "/".toList ∨ c <+: path := by
    obtain rfl | rfl | ⟨rest, rfl⟩ := hc
    · exact .inl rfl
    · exact .inr (List.prefix_refl _)
    · exact .inr (List.prefix_append _ _)
  unfold prefixLength at hlen
  split at hlen
  · next hroot =>
    split at hlen
    · next hroot' => exact hroot.trans hroot'.symm
    · exact absurd hlen (hpos hb).ne
  · next hroot =>
    split at hlen
    · exact absurd hlen (hpos ha).ne'
    · next hroot' =>
      have ha' := (hbegins hpa).resolve_left hroot
      have hb' := (hbegins hpb).resolve_left hroot'
      rcases List.prefix_or_prefix_of_prefix ha' hb' with h | h
      · exact eq_of_prefix_of_utf16Len h hlen
      · exact (eq_of_prefix_of_utf16Len h hlen.symm).symm

/-- The longest match is one rule. -/
theorem longest_unique {path : Str} {rules : List AuthRule} {a b : Option AuthRule}
    (ha : Longest lower path rules a) (hb : Longest lower path rules b) : a = b := by
  cases a with
  | none =>
    cases b with
    | none => rfl
    | some b => exact absurd hb.2.1 (ha b hb.1)
  | some a =>
    cases b with
    | none => exact absurd ha.2.1 (hb a ha.1)
    | some b =>
      rcases ha.2.2 b hb.1 hb.2.1 with heq | hlt
      · rw [heq]
      · rcases hb.2.2 a ha.1 ha.2.1 with heq | hlt'
        · rw [heq]
        · omega

theorem Longest.perm {path : Str} {rules rules' : List AuthRule} (hperm : rules'.Perm rules)
    {winner : Option AuthRule} (h : Longest lower path rules' winner) : Longest lower path rules winner := by
  cases winner with
  | none => exact fun rule hrule => h rule (hperm.mem_iff.mpr hrule)
  | some winner =>
    exact ⟨hperm.mem_iff.mp h.1, h.2.1, fun rule hrule => h.2.2 rule (hperm.mem_iff.mpr hrule)⟩

/-- The loop finds a longest match. -/
private theorem winner_foldl (path : Str) (rules : List AuthRule) :
    Winner lower path rules (rules.foldl (betterMatch lower path) none) := by
  induction rules using List.reverseRecOn with
  | nil => exact ⟨by simp, by simp⟩
  | append_singleton rules rule ih =>
    rw [List.foldl_append]
    exact ih.betterMatch rule

/-- Among paths that differ in more than case it is the longest. -/
theorem Winner.longest_of_pairwise {path : Str} {rules : List AuthRule} {winner : Option AuthRule}
    (h : Winner lower path rules winner) (hne : ∀ rule ∈ rules, lower rule.path ≠ [])
    (hpair : rules.Pairwise fun a b => lower a.path ≠ lower b.path) : Longest lower path rules winner := by
  have hnodup : (rules.map fun rule => lower rule.path).Nodup := List.pairwise_map.mpr hpair
  cases winner with
  | none =>
    intro rule hrule hpre
    obtain ⟨winner, hwinner, -⟩ := h.longest rule hrule (matchesPrefix_iff.mpr hpre)
    cases hwinner
  | some winner =>
    obtain ⟨hmem, hmatch⟩ := h.mem winner rfl
    have hpre := matchesPrefix_iff.mp hmatch
    refine ⟨hmem, hpre, fun rule hrule hpre' => ?_⟩
    obtain ⟨winner', hwinner', hle⟩ := h.longest rule hrule (matchesPrefix_iff.mpr hpre')
    obtain rfl := Option.some.inj hwinner'
    rcases hle.lt_or_eq with hlt | heq
    · exact .inr hlt
    · exact .inl (List.inj_on_of_nodup_map hnodup hrule hmem
        (eq_of_prefixLength (hne _ hrule) (hne _ hmem) hpre' hpre heq))

/-! ## Reading back -/

/-- A normalized path that the reader leaves as it is does not end in white space, and the other way round. -/
theorem readPath_eq_self_iff {path : Str} (hhead : path.head? = some '/')
    (hslash : dropTrailingSlashes path = path) :
    readPath path = path ↔ ∀ c ∈ path.getLast?, Str.isJsWhiteSpace c = false := by
  obtain ⟨tail, rfl⟩ : ∃ tail, path = '/' :: tail := by
    cases path with
    | nil => cases hhead
    | cons c tail => exact ⟨tail, by rw [Option.some.inj hhead]⟩
  have hne : '/' :: tail ≠ [] := List.cons_ne_nil _ _
  have hkeep : ('/' :: tail).rdropWhile Str.isJsWhiteSpace = '/' :: tail ↔
      ∀ c ∈ ('/' :: tail).getLast?, Str.isJsWhiteSpace c = false := by
    rw [List.rdropWhile_eq_self_iff, List.getLast?_eq_getLast_of_ne_nil hne]
    simp
  have htrim : Str.jsTrim ('/' :: tail) = '/' :: tail ↔
      ('/' :: tail).rdropWhile Str.isJsWhiteSpace = '/' :: tail := by
    unfold Str.jsTrim
    constructor
    · intro h
      have hsub := (List.dropWhile_suffix (l := ('/' :: tail).rdropWhile Str.isJsWhiteSpace)
        Str.isJsWhiteSpace).length_le
      rw [h] at hsub
      exact (List.rdropWhile_prefix _ _).eq_of_length_le hsub
    · intro h
      rw [h]
      rfl
  rw [← hkeep, ← htrim, readPath]
  constructor
  · intro h
    have hle := (dropTrailingSlashes_isPrefix (Str.jsTrim ('/' :: tail))).length_le
    rw [h] at hle
    have hpre : (('/' :: tail).rdropWhile Str.isJsWhiteSpace) = '/' :: tail := by
      refine (List.rdropWhile_prefix _ _).eq_of_length_le (hle.trans ?_)
      exact (List.dropWhile_suffix _).length_le
    exact htrim.mpr hpre
  · intro h
    rw [h, hslash]

/-! ## Parsing again -/

theorem dropTrailingSlashes_dropTrailingSlashes (path : Str) :
    dropTrailingSlashes (dropTrailingSlashes path) = dropTrailingSlashes path := by
  unfold dropTrailingSlashes
  cases hpath : path.rdropWhile (· = '/') with
  | nil =>
    cases path with
    | nil => rfl
    | cons c path =>
      have hc : c = '/' := by
        have hall := List.rdropWhile_eq_nil_iff.mp hpath
        simpa using hall c List.mem_cons_self
      subst hc
      rfl
  | cons c rest =>
    have hidem : (path.rdropWhile (· = '/')).rdropWhile (· = '/') = path.rdropWhile (· = '/') :=
      List.rdropWhile_idempotent _ _
    rw [hpath] at hidem
    simp only [hidem]

/-- What a normalized path is made of. -/
theorem normalizeRulePath_ok {raw : Option RawJson} {path : Str} (h : normalizeRulePath raw = .ok path) :
    ∃ typed, raw = some (.str typed) ∧ (Str.jsTrim typed).utf16Len ≤ maxPathLen ∧
      path.any (· = '*') = false ∧ dropTrailingSlashes path = path ∧
      (path = "/".toList ∧ dropTrailingSlashes (dropStar (Str.jsTrim typed)) = [] ∨
        path = dropTrailingSlashes (dropStar (Str.jsTrim typed))) := by
  unfold normalizeRulePath at h
  split at h
  · next typed =>
    simp only at h
    split at h
    · cases h
    split at h
    · cases h
    next hlen =>
    split at h
    · cases h
    next hstar =>
    refine ⟨typed, rfl, Nat.le_of_not_lt hlen, ?_⟩
    split at h
    · next hnil =>
      obtain rfl := Except.ok.inj h
      exact ⟨by decide, by decide, .inl ⟨rfl, hnil⟩⟩
    · obtain rfl := Except.ok.inj h
      refine ⟨?_, dropTrailingSlashes_dropTrailingSlashes _, .inr rfl⟩
      rw [Bool.eq_false_iff]
      intro hany
      obtain ⟨c, hc, heq⟩ := List.any_eq_true.mp hany
      exact hstar (List.any_eq_true.mpr ⟨c, (dropTrailingSlashes_isPrefix _).subset hc, heq⟩)
  · cases h

/-- The path of a rule is plain exactly when what was typed is. -/
theorem plainPath_iff {typed path : Str} (h : normalizeRulePath (some (.str typed)) = .ok path) :
    PlainPath typed ↔ readPath path = path := by
  obtain ⟨typed', htyped, -, -, hslash, hpath⟩ := normalizeRulePath_ok h
  obtain rfl : typed = typed' := by injection Option.some.inj htyped
  rw [readPath_eq_self_iff (head?_of_normalizeRulePath h) hslash, PlainPath]
  rcases hpath with ⟨rfl, hnil⟩ | hpath
  · rw [hnil]
    refine iff_of_true (by simp) fun c hc => ?_
    obtain rfl : '/' = c := Option.some.inj hc
    rfl
  · rw [← hpath]

/-- The parts of a computation that succeeds. -/
private theorem ok_of_bind {α β : Type} {x : Except Str α} {f : α → Except Str β} {b : β}
    (h : (x >>= f) = .ok b) : ∃ a, x = .ok a ∧ f a = .ok b := by
  cases x with
  | error e => cases h
  | ok a => exact ⟨a, rfl, h⟩

/-- Role codes are stored once each. -/
private theorem parseRoleCodes_nodup {items : List RawJson} {out roles : List Str} (hout : out.Nodup)
    (h : parseRoleCodes out items = .ok roles) : roles.Nodup := by
  induction items generalizing out with
  | nil =>
    obtain rfl : out = roles := by simpa [parseRoleCodes] using h
    exact hout
  | cons item items ih =>
    cases item with
    | str item =>
      unfold parseRoleCodes at h
      split at h
      · refine ih ?_ h
        split
        · exact hout
        · next hmem =>
          have hnew : item ∉ out := by simpa using hmem
          exact List.nodup_append.mpr ⟨hout, by simp, by
            rintro a ha b hb rfl
            exact hnew (List.mem_singleton.mp hb ▸ ha)⟩
      · cases h
    | _ => cases h

/-- Each accepted entry is one rule: its path is normalized, and its roles are there once each. -/
theorem parsed_entries {seen : List Str} {items : List RawJson} {rules : List AuthRule}
    (h : parseRuleList lower seen items = .ok rules) :
    List.Forall₂ (fun entry rule => normalizeRulePath (entry.get "path".toList) = .ok rule.path ∧
      ∀ roles ∈ rule.roles, roles.Nodup) items rules := by
  induction items generalizing seen rules with
  | nil =>
    obtain rfl := Except.ok.inj h
    exact .nil
  | cons entry rest ih =>
    unfold parseRuleList at h
    obtain ⟨rule, hrule, h⟩ := ok_of_bind h
    obtain ⟨tail, hrest, h⟩ := ok_of_bind h
    obtain rfl := Except.ok.inj h
    refine .cons ?_ (ih hrest)
    unfold parseAuthRule at hrule
    obtain ⟨auth, -, hrule⟩ := ok_of_bind hrule
    obtain ⟨path, hpath, hrule⟩ := ok_of_bind hrule
    split at hrule
    · cases hrule
    cases auth with
    | publicAccess =>
      obtain rfl := Except.ok.inj hrule
      exact ⟨hpath, by simp⟩
    | required =>
      obtain ⟨roles, hroles, hrule⟩ := ok_of_bind hrule
      obtain ⟨audience, -, hrule⟩ := ok_of_bind hrule
      obtain rfl := Except.ok.inj hrule
      refine ⟨hpath, ?_⟩
      rintro r rfl
      unfold parseRuleRoles at hroles
      split at hroles
      · cases hroles
      · cases hroles
      · next items _ =>
        cases hitems : parseRoleCodes [] items with
        | error e =>
          rw [hitems] at hroles
          cases hroles
        | ok out =>
          rw [hitems] at hroles
          obtain rfl : out = r := Option.some.inj (Except.ok.inj hroles)
          exact parseRoleCodes_nodup List.nodup_nil hitems
      · cases hroles

/-- A path that is normalized already. -/
structure NormalizedPath (path : Str) : Prop where
  head : path.head? = some '/'
  trimmed : Str.jsTrim path = path
  length : path.utf16Len ≤ maxPathLen
  star : path.any (· = '*') = false
  slash : dropTrailingSlashes path = path

theorem NormalizedPath.normalize {path : Str} (h : NormalizedPath path) :
    normalizeRulePath (some (.str path)) = .ok path := by
  have hdrop : dropStar path = path := by
    have hnone {suffix : Str} (hsuffix : '*' ∈ suffix) : suffix.isSuffixOf path = false := by
      rw [Bool.eq_false_iff]
      intro hmem
      have hstar : path.any (· = '*') = true :=
        List.any_eq_true.mpr ⟨'*', (List.isSuffixOf_iff_suffix.mp hmem).subset hsuffix, by simp⟩
      rw [h.star] at hstar
      cases hstar
    rw [dropStar, hnone (by decide), hnone (by decide)]
    rfl
  unfold normalizeRulePath
  simp only [h.trimmed, h.head, ne_eq, not_true_eq_false, if_false, Nat.not_lt.mpr h.length, hdrop, h.star,
    Bool.false_eq_true, h.slash]
  split
  · next hnil =>
    have hhead := h.head
    cases hhead
  · rfl

/-- What the writer stores is normalized already, where the reader leaves it as it is. -/
theorem normalizedPath_of_ok {raw : Option RawJson} {path : Str} (h : normalizeRulePath raw = .ok path)
    (hread : readPath path = path) : NormalizedPath path := by
  obtain ⟨typed, rfl, hlen, hstar, hslash, hpath⟩ := normalizeRulePath_ok h
  have htrim : Str.jsTrim path = path := by
    have hle := (dropTrailingSlashes_isPrefix (Str.jsTrim path)).length_le
    rw [← readPath, hread] at hle
    have hsuffix := List.dropWhile_suffix (l := path.rdropWhile Str.isJsWhiteSpace) Str.isJsWhiteSpace
    have hpre := (List.rdropWhile_prefix Str.isJsWhiteSpace path).eq_of_length_le
      (hle.trans hsuffix.length_le)
    have hwhole := hsuffix.eq_of_length_le ((congrArg List.length hpre).le.trans hle)
    exact hwhole.trans hpre
  refine ⟨head?_of_normalizeRulePath h, htrim, ?_, hstar, hslash⟩
  have hle {a b : Str} (hab : a <+: b) : a.utf16Len ≤ b.utf16Len := by
    obtain ⟨rest, rfl⟩ := hab
    simp [Str.utf16Len, Str.utf16]
  rcases hpath with ⟨rfl, -⟩ | rfl
  · decide
  · exact (hle ((dropTrailingSlashes_isPrefix _).trans (dropStar_isPrefix _))).trans hlen

/-- Stored role codes are parsed as they are. -/
private theorem parseRoleCodes_map (out : List Str) {roles : List Str} (hcodes : ∀ role ∈ roles, isRoleCode role = true)
    (hnodup : (out ++ roles).Nodup) : parseRoleCodes out (roles.map .str) = .ok (out ++ roles) := by
  induction roles generalizing out with
  | nil => simp [parseRoleCodes]
  | cons role roles ih =>
    rw [List.forall_mem_cons] at hcodes
    have hnew : out.contains role = false := by
      rw [List.nodup_append] at hnodup
      rw [Bool.eq_false_iff]
      intro hmem
      exact hnodup.2.2 role (by simpa using hmem) role List.mem_cons_self rfl
    rw [List.map_cons, parseRoleCodes, if_pos hcodes.1, hnew]
    simp only [Bool.false_eq_true, if_false]
    rw [ih _ hcodes.2 (by simpa using hnodup)]
    simp

/-- A rule that is normalized is parsed as it is. -/
theorem parseAuthRule_toJson {seen : List Str} {rule : AuthRule} (h : Storable rule)
    (hnodup : ∀ roles ∈ rule.roles, roles.Nodup) (hpath : NormalizedPath rule.path)
    (hseen : lower rule.path ∉ seen) : parseAuthRule lower seen rule.toJson = .ok rule := by
  have hauth : parseRuleAuth rule.toJson = .ok rule.auth := by
    have hpublic : "public".toList ≠ "required".toList := by decide
    have hget := toJson_get_auth rule
    obtain ⟨fields, hobj⟩ : ∃ fields, rule.toJson = .obj fields := ⟨_, rfl⟩
    rw [hobj] at hget ⊢
    simp only [parseRuleAuth, hget]
    cases rule.auth with
    | required => exact if_pos rfl
    | publicAccess =>
      have hif : (if RuleAuth.publicAccess = .required then "required".toList else "public".toList) =
        "public".toList := rfl
      simp only [hif, if_neg hpublic, if_true]
  have hroles : parseRuleRoles (rule.toJson.get "roles".toList) = .ok rule.roles := by
    rw [toJson_get_roles]
    cases hr : rule.roles with
    | none => rfl
    | some roles =>
      have hparse := parseRoleCodes_map [] (h.roles roles hr) (hnodup roles hr)
      simp only [Option.map_some, parseRuleRoles, hparse, List.nil_append]
      rfl
  have haudience : parseRuleAudience (rule.toJson.get "audience".toList) = .ok rule.audience := by
    rw [toJson_get_audience]
    cases rule.audience with
    | none => rfl
    | some audience => cases audience <;> rfl
  have hcontains : seen.contains (lower rule.path) = false := by simpa using hseen
  unfold parseAuthRule
  rw [hauth, toJson_get_path, hpath.normalize, hroles, haudience]
  simp only [bind, Except.bind, hcontains, Bool.false_eq_true, if_false]
  obtain ⟨path, auth, audience, roles⟩ := rule
  cases auth with
  | required => rfl
  | publicAccess =>
    obtain ⟨rfl, rfl⟩ := h.publicAccess rfl
    rfl

/-- Rules that are normalized are parsed as they are. -/
theorem parseRuleList_toJson (seen : List Str) {rules : List AuthRule}
    (h : ∀ rule ∈ rules, Storable rule ∧ (∀ roles ∈ rule.roles, roles.Nodup) ∧ NormalizedPath rule.path)
    (hseen : ∀ rule ∈ rules, lower rule.path ∉ seen)
    (hpair : rules.Pairwise fun a b => lower a.path ≠ lower b.path) :
    parseRuleList lower seen (rules.map AuthRule.toJson) = .ok rules := by
  induction rules generalizing seen with
  | nil => rfl
  | cons rule rules ih =>
    rw [List.forall_mem_cons] at h hseen
    rw [List.pairwise_cons] at hpair
    have hrest := ih (lower rule.path :: seen) h.2 (fun other hother hmem => by
      rcases List.mem_cons.mp hmem with heq | hmem
      · exact hpair.1 other hother heq.symm
      · exact hseen.2 other hother hmem) hpair.2
    rw [List.map_cons, parseRuleList, parseAuthRule_toJson h.1.1 h.1.2.1 h.1.2.2 hseen.1]
    simp only [bind, Except.bind, hrest]

/-! ## The whole set -/

/-- Whatever stands in the second list has its partner in the first. -/
private theorem exists_of_forall₂ {α β : Type} {R : α → β → Prop} {as : List α} {bs : List β}
    (h : List.Forall₂ R as bs) {b : β} (hb : b ∈ bs) : ∃ a, R a b := by
  induction h with
  | nil => cases hb
  | cons hab _ ih =>
    rcases List.mem_cons.mp hb with rfl | hb
    · exact ⟨_, hab⟩
    · exact ih hb

/-- The entries of an accepted list, and its rules one by one. -/
theorem parseAuthRules_entries {raw : Option RawJson} {rules : List AuthRule}
    (h : parseAuthRules lower raw = .ok rules) : rules.length ≤ maxRules ∧
      List.Forall₂ (fun entry rule => normalizeRulePath (entry.get "path".toList) = .ok rule.path ∧
        ∀ roles ∈ rule.roles, roles.Nodup) (rawEntries raw) rules := by
  unfold parseAuthRules at h
  split at h
  · obtain rfl := Except.ok.inj h
    exact ⟨Nat.zero_le _, .nil⟩
  · obtain rfl := Except.ok.inj h
    exact ⟨Nat.zero_le _, .nil⟩
  · split at h
    · cases h
    · next hlen =>
      have hentries := parsed_entries h
      exact ⟨hentries.length_eq ▸ Nat.le_of_not_lt hlen, hentries⟩
  · cases h

/-- An accepted rule set is declarative exactly when no typed path ends in white space once its wildcard and its
    slashes are dropped. -/
theorem declarative_iff (hlower : ∀ s, s ≠ [] → lower s ≠ []) {raw : Option RawJson} {rules : List AuthRule}
    (h : parseAuthRules lower raw = .ok rules) : Declarative lower rules ↔
      ∀ entry ∈ rawEntries raw, ∀ typed, entry.get "path".toList = some (.str typed) → PlainPath typed := by
  obtain ⟨hstorable, hpair⟩ := parseAuthRules_ok h
  obtain ⟨hlen, hentries⟩ := parseAuthRules_entries h
  have hplain : (∀ entry ∈ rawEntries raw, ∀ typed, entry.get "path".toList = some (.str typed) →
      PlainPath typed) ↔ ∀ rule ∈ rules, readPath rule.path = rule.path := by
    generalize rawEntries raw = entries at hentries ⊢
    clear h hstorable hpair hlen
    induction hentries with
    | nil => simp
    | cons hrule _ ih =>
      rw [List.forall_mem_cons, List.forall_mem_cons, ih]
      refine and_congr_left fun _ => ?_
      obtain ⟨typed, htyped, -⟩ := normalizeRulePath_ok hrule.1
      have hiff := plainPath_iff (htyped ▸ hrule.1)
      rw [htyped, ← hiff]
      constructor
      · exact fun hall => hall typed rfl
      · intro hplain typed' heq
        obtain rfl : typed = typed' := by injection Option.some.inj heq
        exact hplain
  rw [hplain]
  constructor
  · intro hdecl rule hrule
    have hread := hdecl.readsBack rule hrule
    rw [readStoredAuthRule_toJson (hstorable rule hrule)] at hread
    exact congrArg AuthRule.path (Option.some.inj hread)
  · intro hread
    have hsame (rules' : List AuthRule) (hsub : ∀ rule ∈ rules', rule ∈ rules) : readRules rules' = rules' := by
      unfold readRules
      refine (List.map_congr_left fun rule hrule => ?_).trans (List.map_id _)
      rw [hread rule (hsub rule hrule)]
      rfl
    have hne (rule : AuthRule) (hrule : rule ∈ rules) : lower rule.path ≠ [] := by
      obtain ⟨typed, hpath⟩ := (hstorable rule hrule).path
      have hhead := head?_of_normalizeRulePath hpath
      exact hlower _ fun hnil => by simp [hnil] at hhead
    have hwinner (pathname : Str) {rules' : List AuthRule} (hperm : rules'.Perm rules) :
        Longest lower (lower pathname) rules (winnerOf lower (lower pathname) rules') := by
      unfold winnerOf
      rw [hsame rules' fun rule hrule => hperm.mem_iff.mp hrule]
      refine Longest.perm hperm ((winner_foldl _ rules').longest_of_pairwise ?_ ?_)
      · exact fun rule hrule => hne rule (hperm.mem_iff.mp hrule)
      · exact (hperm.pairwise_iff fun hab => hab.symm).mpr hpair
    refine ⟨fun rule hrule => ?_, fun pathname hreason => ?_, ?_⟩
    · rw [readStoredAuthRule_toJson (hstorable rule hrule), hread rule hrule]
    · refine ⟨_, hwinner pathname (List.Perm.refl rules), fun scope rules' hperm => ?_⟩
      rw [resolvePathPolicyBy_stored fun rule hrule => hstorable rule (hperm.mem_iff.mp hrule), hreason,
        longest_unique (hwinner pathname hperm) (hwinner pathname (List.Perm.refl rules))]
      rfl
    · have hfacts : ∀ rule ∈ rules, (∀ roles ∈ rule.roles, roles.Nodup) ∧ NormalizedPath rule.path := by
        intro rule hrule
        obtain ⟨entry, hpath, hnodup⟩ := exists_of_forall₂ hentries hrule
        exact ⟨hnodup, normalizedPath_of_ok hpath (hread rule hrule)⟩
      have hparse := parseRuleList_toJson []
        (fun rule hrule => ⟨hstorable rule hrule, hfacts rule hrule⟩) (by simp) hpair
      unfold parseAuthRules storedRules
      simp only [List.length_map, Nat.not_lt.mpr hlen, if_false, hparse]

/-- The rules of one path with a wildcard behind a space, and without. -/
def spacedRules : RawJson := .arr [
  AuthRule.toJson { path := "/admin".toList, auth := .required },
  AuthRule.toJson { path := "/admin /*".toList, auth := .publicAccess }]

/-- A wildcard behind a space leaves the space in the path, which the reader then trims, so that two rules have one
    path and the first of them wins. -/
theorem spaced_rules_depend_on_order :
    let rule : AuthRule := { path := "/admin".toList, auth := .required }
    let spaced : AuthRule := { path := "/admin ".toList, auth := .publicAccess }
    parseAuthRules Str.jsLowerCase (some spacedRules) = .ok [rule, spaced] ∧
      readStoredAuthRule spaced.toJson = some { path := "/admin".toList, auth := .publicAccess } ∧
      resolvePathPolicy "/admin".toList none (storedRules [rule, spaced]) = { requiresLogin := true } ∧
      resolvePathPolicy "/admin".toList none (storedRules [spaced, rule]) = { requiresLogin := false } := by
  refine ⟨?_, by decide, by decide +kernel, by decide +kernel⟩
  rfl

/-- Two plain paths. -/
def plainRules : RawJson := .arr [
  AuthRule.toJson { path := "/api/*".toList, auth := .required },
  AuthRule.toJson { path := "/api/webhook/".toList, auth := .publicAccess }]

theorem declarative_plainRules : Declarative Str.jsLowerCase
    [{ path := "/api".toList, auth := .required }, { path := "/api/webhook".toList, auth := .publicAccess }] := by
  have hparse : parseAuthRules Str.jsLowerCase (some plainRules) =
      .ok [{ path := "/api".toList, auth := .required },
        { path := "/api/webhook".toList, auth := .publicAccess }] := rfl
  refine (declarative_iff (fun s hs hnil => hs (List.map_eq_nil_iff.mp hnil)) hparse).mpr ?_
  simp only [rawEntries, plainRules, List.forall_mem_cons, toJson_get_path, Option.some.injEq,
    RawJson.str.injEq]
  refine ⟨?_, ?_, by simp⟩
  · rintro _ rfl
    have hdropped : dropTrailingSlashes (dropStar (Str.jsTrim "/api/*".toList)) = "/api".toList := rfl
    rw [PlainPath, hdropped]
    intro c hc
    obtain rfl : 'i' = c := Option.some.inj hc
    rfl
  · rintro _ rfl
    have hdropped : dropTrailingSlashes (dropStar (Str.jsTrim "/api/webhook/".toList)) =
        "/api/webhook".toList := rfl
    rw [PlainPath, hdropped]
    intro c hc
    obtain rfl : 'k' = c := Option.some.inj hc
    rfl

end TeamClu.Apps
