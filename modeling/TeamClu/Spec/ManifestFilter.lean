import TeamClu.Native.SyncHandlers
import TeamClu.Native.SyncPath
import TeamClu.Spec.PathValidatorsAgree

/-!
# The manifest's SQL filter and the in-process matcher

`handleSyncManifest` hides a row with one `NOT LIKE` per denied prefix, `isDenied` tests the same
prefixes with `startsWith`.  Prefixes are stored unescaped, so `_`, `%`, the backslash and the `*`
of PostgREST in a directory name are metacharacters of the filter.

On sync paths the filter hides whatever the matcher denies (`manifestKeeps_eq_false_of_isDenied`).
The converse holds when every denied prefix is `Covered`: what stands before its first wildcard
already starts with a denied prefix, or the pattern asks for a backslash, which no sync path has.
A prefix that is not covered hides a sample path that the matcher serves
(`manifestFilter_agrees`).
-/

namespace TeamClu.Fc

open SqlLike

/-- The pattern of a denied prefix, as the database gets it. -/
def aclPattern (aclPrefix : Str) : Str := likeValue (aclPrefix ++ ['%'])

/-- The filter of this prefix hides nothing that the matcher serves. -/
def Covered (denied : List Str) (aclPrefix : Str) : Prop :=
  Token.lit '\\' ∈ tokens (aclPattern aclPrefix) ∨
    ∃ p ∈ denied, p <+: literalHead (aclPattern aclPrefix)

instance (denied : List Str) (aclPrefix : Str) : Decidable (Covered denied aclPrefix) :=
  inferInstanceAs (Decidable (_ ∨ _))

theorem aclPattern_eq (aclPrefix : Str) :
    aclPattern aclPrefix = aclPrefix.map (fun c => if c = '*' then '%' else c) ++ ['%'] := by
  simp [aclPattern, likeValue]

/-- A row is hidden when some denied prefix's pattern matches its path. -/
theorem manifestKeeps_eq_false_iff (denied : List Str) (path : Str) :
    manifestKeeps denied path = false ↔ ∃ q ∈ denied, like (aclPattern q) path = true := by
  simp [manifestKeeps, aclPattern]

/-- A sync path has no backslash. -/
private theorem noBackslash_of_sync {path : Str} (h : validateSyncPath path = .ok) :
    '\\' ∉ path :=
  ((Sync.validateSyncPath_ok_iff path).mp h).1.noBackslash

/-- What the matcher denies, the filter hides. -/
theorem manifestKeeps_eq_false_of_isDenied {view : AclView} {path : Str}
    (hsync : validateSyncPath path = .ok) (h : isDenied path view = true) :
    manifestKeeps view.denied path = false := by
  obtain ⟨q, hq, hpre⟩ := (isDenied_iff path view).mp h
  have hslash : '\\' ∉ q := fun hmem => noBackslash_of_sync hsync (hpre.subset hmem)
  refine (manifestKeeps_eq_false_iff _ _).mpr ⟨q, hq, ?_⟩
  rw [aclPattern_eq]
  exact like_map_append_percent_of_prefix (fun c => by split_ifs <;> simp) hslash hpre

/-- What the filter hides under covered prefixes, the matcher denies. -/
theorem isDenied_of_manifestKeeps_eq_false {view : AclView} {path : Str}
    (hcov : ∀ q ∈ view.denied, Covered view.denied q)
    (hsync : validateSyncPath path = .ok) (h : manifestKeeps view.denied path = false) :
    isDenied path view = true := by
  obtain ⟨q, hq, hlike⟩ := (manifestKeeps_eq_false_iff _ _).mp h
  rcases hcov q hq with hback | ⟨p, hp, hhead⟩
  · exact absurd (lit_mem_of_match hlike hback) (noBackslash_of_sync hsync)
  · exact (isDenied_iff path view).mpr ⟨p, hp, hhead.trans (literalHead_prefix_of_like hlike)⟩

/-- A prefix that is not covered hides its sample path, which no denied prefix starts. -/
theorem sampleMatch_hidden_not_denied {view : AclView} {q : Str} (hq : q ∈ view.denied)
    (hcov : ¬ Covered view.denied q) {c : Char} (hc : ∀ p ∈ view.denied, c ∉ p) :
    manifestKeeps view.denied (sampleMatch c (aclPattern q)) = false ∧
      isDenied (sampleMatch c (aclPattern q)) view = false := by
  constructor
  · exact (manifestKeeps_eq_false_iff _ _).mpr ⟨q, hq, like_sampleMatch c _⟩
  · rw [← Bool.not_eq_true, isDenied_iff]
    rintro ⟨p, hp, hpre⟩
    exact hcov (.inr ⟨p, hp, prefix_litPrefix_of_instantiate (hc p hp) hpre⟩)

/-- A prefix without metacharacters is covered by itself. -/
theorem covered_of_plain {denied : List Str} {q : Str} (hq : q ∈ denied)
    (hplain : ∀ c ∈ q, c ≠ '%' ∧ c ≠ '_' ∧ c ≠ '\\' ∧ c ≠ '*') : Covered denied q := by
  have hvalue : q.map (fun c => if c = '*' then '%' else c) = q :=
    (List.map_congr_left fun c hc => if_neg (hplain c hc).2.2.2).trans (List.map_id q)
  refine .inr ⟨q, hq, ?_⟩
  rw [aclPattern_eq, hvalue, literalHead_append_percent fun c hc =>
    ⟨(hplain c hc).1, (hplain c hc).2.1, (hplain c hc).2.2.1⟩]

/-- Filter and matcher agree on every sync path when every denied prefix is covered; a prefix that
    is not covered hides its sample, whichever fresh character stands for the wildcards. -/
theorem manifestFilter_agrees (view : AclView) :
    ((∀ q ∈ view.denied, Covered view.denied q) →
      ∀ path, validateSyncPath path = .ok →
        (manifestKeeps view.denied path = true ↔ isDenied path view = false)) ∧
    (∀ q ∈ view.denied, ¬ Covered view.denied q →
      ∀ c, (∀ p ∈ view.denied, c ∉ p) → validateSyncPath (sampleMatch c (aclPattern q)) = .ok →
        ¬ ∀ path, validateSyncPath path = .ok →
          (manifestKeeps view.denied path = true ↔ isDenied path view = false)) := by
  constructor
  · intro hcov path hsync
    constructor
    · intro hkeep
      refine Bool.eq_false_iff.mpr fun hden => ?_
      rw [manifestKeeps_eq_false_of_isDenied hsync hden] at hkeep
      exact Bool.false_ne_true hkeep
    · intro hserved
      refine Bool.not_eq_false _ |>.mp fun hhide => ?_
      rw [isDenied_of_manifestKeeps_eq_false hcov hsync hhide] at hserved
      exact Bool.false_ne_true hserved.symm
  · intro q hq hcov c hc hsync hagree
    obtain ⟨hhidden, hserved⟩ := sampleMatch_hidden_not_denied hq hcov hc
    have hkept := (hagree _ hsync).mpr hserved
    rw [hhidden] at hkept
    exact Bool.false_ne_true hkept

/-- One restricted directory with an underscore in its name. -/
def hrDataView : AclView :=
  { denied := ["knowledge/hr_data/".toList], allPrefixes := ["knowledge/hr_data/".toList]
    denied_subset := List.Subset.refl _ }

/-- The rule on `knowledge/hr_data/` hides `knowledge/hr-data/`, which the matcher serves. -/
theorem manifest_hides_served_path :
    (∀ q ∈ hrDataView.allPrefixes, validateAclPrefix q = none) ∧
    validateSyncPath "knowledge/hr-data/plan.md".toList = .ok ∧
    ¬ (manifestKeeps hrDataView.denied "knowledge/hr-data/plan.md".toList = true ↔
      isDenied "knowledge/hr-data/plan.md".toList hrDataView = false) := by
  decide +kernel

/-- The filter's own sample for that rule, `knowledge/hrxdata/x`, is hidden and served too. -/
theorem manifestFilter_agrees_hrData :
    ¬ ∀ path, validateSyncPath path = .ok →
      (manifestKeeps hrDataView.denied path = true ↔ isDenied path hrDataView = false) :=
  (manifestFilter_agrees hrDataView).2 "knowledge/hr_data/".toList (by decide +kernel)
    (by decide +kernel) 'x' (by decide +kernel) (by decide +kernel)

end TeamClu.Fc
