import TeamClu.Native.PathValidator
import TeamClu.Native.SyncPath

/-!
# The server's and the daemon's path validators

Both validators check one grammar (`Shaped`) and then lengths, the server in UTF-16 code units
(`FitsUtf16`), the daemon in UTF-8 bytes (`FitsUtf8`).  `validateSyncPath_ok_iff` and
`validate_ok_iff` say so; `validate_panic_iff` says when the daemon's error message slices a
segment inside a character.  From the three follows on which paths the daemon can take whatever
the server accepts (`daemonTakes_iff`).
-/

namespace TeamClu.Sync

open Str

/-- A segment that is a name: not empty and not a step within the tree. -/
def GoodSegment (seg : Str) : Prop := seg ≠ [] ∧ seg ≠ ".".toList ∧ seg ≠ "..".toList

/-- What both validators ask of a path before they look at its segments, lengths aside. -/
structure Plain (path : Str) : Prop where
  nonempty : path ≠ []
  noControl : ∀ c ∈ path, ¬ c < '\x20'
  noBackslash : '\\' ∉ path
  relative : path.head? ≠ some '/'
  noDrive : startsWithDriveLetter path = false

/-- The grammar of sync paths, lengths and prefixes aside. -/
structure Shaped (path : Str) : Prop extends Plain path where
  segments : ∀ seg ∈ path.splitOn '/', GoodSegment seg

/-- The daemon's limits: 1024 bytes, and 255 for each segment. -/
def FitsUtf8 (path : Str) : Prop :=
  utf8Len path ≤ 1024 ∧ ∀ seg ∈ path.splitOn '/', utf8Len seg ≤ 255

/-- The server's limits: the same numbers of UTF-16 code units. -/
def FitsUtf16 (path : Str) : Prop :=
  utf16Len path ≤ 1024 ∧ ∀ seg ∈ path.splitOn '/', utf16Len seg ≤ 255

/-- The daemon's segment loop reaches an overlong segment whose byte 20 is inside a character. -/
def CutsInsideChar (path : Str) : Prop :=
  Plain path ∧ utf8Len path ≤ 1024 ∧
  ∃ before seg after, path.splitOn '/' = before ++ seg :: after ∧
    (∀ s ∈ before, GoodSegment s ∧ utf8Len s ≤ 255) ∧
    GoodSegment seg ∧ 255 < utf8Len seg ∧ sliceTo seg 20 = none

/-! ## One segment -/

/-- The daemon passes a name of at most 255 bytes. -/
private theorem validateSegment_eq_none_iff (seg : Str) :
    validateSegment seg = none ↔ GoodSegment seg ∧ utf8Len seg ≤ 255 := by
  unfold validateSegment GoodSegment
  split_ifs with h1 h2 h3 h4
  · exact ⟨nofun, fun h => absurd h1 h.1.1⟩
  · exact ⟨nofun, fun h => absurd h2 h.1.2.1⟩
  · exact ⟨nofun, fun h => absurd h3 h.1.2.2⟩
  · cases sliceTo seg 20 <;> exact ⟨nofun, fun h => by omega⟩
  · exact ⟨fun _ => ⟨⟨h1, h2, h3⟩, by omega⟩, fun _ => rfl⟩

/-- The daemon panics on a longer name whose byte 20 is inside a character. -/
private theorem validateSegment_eq_panic_iff (seg : Str) :
    validateSegment seg = some .panic ↔
      GoodSegment seg ∧ 255 < utf8Len seg ∧ sliceTo seg 20 = none := by
  unfold validateSegment GoodSegment
  split_ifs with h1 h2 h3 h4
  · exact ⟨nofun, fun h => absurd h1 h.1.1⟩
  · exact ⟨nofun, fun h => absurd h2 h.1.2.1⟩
  · exact ⟨nofun, fun h => absurd h3 h.1.2.2⟩
  · cases hslice : sliceTo seg 20 with
    | none => exact ⟨fun _ => ⟨⟨h1, h2, h3⟩, by omega, rfl⟩, fun _ => rfl⟩
    | some head => exact ⟨nofun, fun h => nomatch h.2.2⟩
  · exact ⟨nofun, fun h => absurd h.2.1 h4⟩

/-- A segment check never reports success as a failure. -/
private theorem validateSegment_ne_ok (seg : Str) : validateSegment seg ≠ some .ok := by
  unfold validateSegment
  split_ifs
  · exact nofun
  · exact nofun
  · exact nofun
  · cases sliceTo seg 20 <;> exact nofun
  · exact nofun

/-- The server passes a name of at most 255 code units. -/
private theorem fc_validateSegment_eq_none_iff (seg : Str) :
    Fc.validateSegment seg = none ↔ GoodSegment seg ∧ utf16Len seg ≤ 255 := by
  unfold Fc.validateSegment GoodSegment
  split_ifs with h1 h2 h3 h4
  · exact ⟨nofun, fun h => absurd h1 h.1.1⟩
  · exact ⟨nofun, fun h => absurd h2 h.1.2.1⟩
  · exact ⟨nofun, fun h => absurd h3 h.1.2.2⟩
  · exact ⟨nofun, fun h => by omega⟩
  · exact ⟨fun _ => ⟨⟨h1, h2, h3⟩, by omega⟩, fun _ => rfl⟩

/-- A segment check never reports success as a failure. -/
private theorem fc_validateSegment_ne_ok (seg : Str) : Fc.validateSegment seg ≠ some .ok := by
  unfold Fc.validateSegment
  split_ifs <;> exact nofun

/-! ## Characters and the head of the path -/

/-- The NUL test and the range test of the server together are the daemon's one test. -/
private theorem lt_space_iff (c : Char) :
    c < '\x20' ↔ c = '\x00' ∨ ('\x01' ≤ c ∧ c ≤ '\x1f') := by
  have hzero : c = '\x00' ↔ c.toNat = 0 :=
    ⟨fun h => h ▸ rfl, fun h => Char.ext (UInt32.toNat_inj.mp h)⟩
  have hspace : c < '\x20' ↔ c.toNat < 32 := UInt32.lt_iff_toNat_lt
  have hone : '\x01' ≤ c ↔ 1 ≤ c.toNat := UInt32.le_iff_toNat_le
  have hlast : c ≤ '\x1f' ↔ c.toNat ≤ 31 := UInt32.le_iff_toNat_le
  rw [hzero, hspace, hone, hlast]
  omega

/-- A path that does not start with a slash does not start with two. -/
private theorem not_unc_of_relative {path : Str} (h : path.head? ≠ some '/') :
    "//".toList.isPrefixOf path = false := by
  cases path with
  | nil => rfl
  | cons c path =>
    have hc : ('/' == c) = false := beq_eq_false_iff_ne.mpr fun heq => h (heq ▸ rfl)
    change ('/' == c && ['/'].isPrefixOf path) = false
    rw [hc, Bool.false_and]

/-- No NUL and no character of the range the server tests: no control character. -/
private theorem noControl_iff (path : Str) :
    (∀ c ∈ path, ¬ c < '\x20') ↔
      '\x00' ∉ path ∧ path.any (fun c => '\x01' ≤ c && c ≤ '\x1f') = false := by
  simp only [lt_space_iff, List.any_eq_false, Bool.and_eq_true, decide_eq_true_eq]
  constructor
  · exact fun h => ⟨fun hmem => h _ hmem (.inl rfl), fun c hc hrange => h c hc (.inr hrange)⟩
  · rintro ⟨hnul, hrange⟩ c hc (rfl | hlt)
    · exact hnul hc
    · exact hrange c hc hlt

/-! ## Whole paths -/

/-- The daemon rejects a path that fails a check before the segment loop, with a message. -/
private theorem validate_of_not_plain {path : Str} (h : ¬ (Plain path ∧ utf8Len path ≤ 1024)) :
    ∃ message, validate path = .err message := by
  unfold validate
  split_ifs with h1 h2 h3 h4 h5 h6 h7 h8
  all_goals first
    | exact ⟨_, rfl⟩
    | refine absurd ⟨⟨h1, ?_, h5, h6, Bool.eq_false_iff.mpr h7⟩, by omega⟩ h
      simpa using h4

/-- After the checks before the loop, the verdict is the first failing segment's, or the
    prefix's. -/
private theorem validate_of_plain {path : Str} (h : Plain path) (hlen : utf8Len path ≤ 1024) :
    validate path =
      match (path.splitOn '/').findSome? validateSegment with
      | some failure => failure
      | none =>
        if !isAllowed path && !isRetired path then
          .err ("path must start with one of: ".toList ++
            ", ".toList.intercalate ALLOWED_PREFIXES)
        else .ok := by
  have hnul : '\x00' ∉ path := fun hmem => h.noControl _ hmem (by decide)
  have hctl : ¬ path.any (· < '\x20') = true := by simpa using h.noControl
  have hdrive : ¬ startsWithDriveLetter path = true := by rw [h.noDrive]; exact Bool.false_ne_true
  have hunc : ¬ "//".toList.isPrefixOf path = true := by
    rw [not_unc_of_relative h.relative]; exact Bool.false_ne_true
  unfold validate
  rw [if_neg h.nonempty, if_neg (Nat.not_lt.mpr hlen), if_neg hnul, if_neg hctl,
    if_neg h.noBackslash, if_neg h.relative, if_neg hdrive]
  exact (if_neg hunc).trans rfl

/-- `validate` accepts the paths of the grammar that fit in bytes, under a live or a retired
    prefix. -/
theorem validate_ok_iff (path : Str) :
    validate path = .ok ↔
      Shaped path ∧ FitsUtf8 path ∧ (isAllowed path = true ∨ isRetired path = true) := by
  by_cases hpre : Plain path ∧ utf8Len path ≤ 1024
  · rw [validate_of_plain hpre.1 hpre.2]
    -- the first segment that fails decides; without one, the root does
    cases hseg : (path.splitOn '/').findSome? validateSegment with
    | some failure =>
      obtain ⟨seg, hmem, hfail⟩ := List.exists_of_findSome?_eq_some hseg
      constructor
      · rintro rfl
        exact absurd hfail (validateSegment_ne_ok seg)
      · rintro ⟨hs, hf, -⟩
        have := (validateSegment_eq_none_iff seg).mpr ⟨hs.segments seg hmem, hf.2 seg hmem⟩
        rw [this] at hfail
        exact nomatch hfail
    | none =>
      have hall : ∀ seg ∈ path.splitOn '/', GoodSegment seg ∧ utf8Len seg ≤ 255 := fun seg hmem =>
        (validateSegment_eq_none_iff seg).mp (List.findSome?_eq_none_iff.mp hseg seg hmem)
      constructor
      · intro h
        -- only the root is left to fail
        have hroot : isAllowed path = true ∨ isRetired path = true := by
          by_contra hno
          rw [not_or, Bool.not_eq_true, Bool.not_eq_true] at hno
          simp [hno] at h
        exact ⟨⟨hpre.1, fun s hs => (hall s hs).1⟩, ⟨hpre.2, fun s hs => (hall s hs).2⟩, hroot⟩
      · rintro ⟨-, -, hroot⟩
        rcases hroot with hroot | hroot <;> simp [hroot]
  · -- the checks before the segments fail
    obtain ⟨message, herr⟩ := validate_of_not_plain hpre
    rw [herr]
    exact ⟨nofun, fun ⟨hs, hf, _⟩ => absurd ⟨hs.toPlain, hf.1⟩ hpre⟩

/-- `validate` panics when the first segment that fails is too long and is cut inside a
    character. -/
theorem validate_panic_iff (path : Str) : validate path = .panic ↔ CutsInsideChar path := by
  by_cases hpre : Plain path ∧ utf8Len path ≤ 1024
  · rw [validate_of_plain hpre.1 hpre.2]
    constructor
    · intro h
      -- a panic comes from a segment, the first that is not good
      cases hseg : (path.splitOn '/').findSome? validateSegment with
      | none =>
        rw [hseg] at h
        by_cases hroot : (!isAllowed path && !isRetired path) = true <;> simp [hroot] at h
      | some failure =>
        rw [hseg] at h
        subst h
        obtain ⟨before, seg, after, hsplit, hfail, hbefore⟩ := List.findSome?_eq_some_iff.mp hseg
        exact ⟨hpre.1, hpre.2, before, seg, after, hsplit,
          fun s hs => (validateSegment_eq_none_iff s).mp (hbefore s hs),
          (validateSegment_eq_panic_iff seg).mp hfail⟩
    · -- the segments before it are good, so it is the first to fail
      rintro ⟨-, -, before, seg, after, hsplit, hbefore, hseg⟩
      have hfind : (path.splitOn '/').findSome? validateSegment = some .panic :=
        List.findSome?_eq_some_iff.mpr ⟨before, seg, after, hsplit,
          (validateSegment_eq_panic_iff seg).mpr hseg,
          fun s hs => (validateSegment_eq_none_iff s).mpr (hbefore s hs)⟩
      rw [hfind]
  · obtain ⟨message, herr⟩ := validate_of_not_plain hpre
    rw [herr]
    exact ⟨nofun, fun h => absurd ⟨h.1, h.2.1⟩ hpre⟩

/-- The server rejects a path that fails a check before the segment loop. -/
private theorem validateSyncPath_of_not_plain {path : Str}
    (h : ¬ (Plain path ∧ utf16Len path ≤ 1024)) :
    ∃ message, Fc.validateSyncPath path = .invalidPath message := by
  unfold Fc.validateSyncPath
  split_ifs with h1 h2 h3 h4 h5 h6 h7 h8
  all_goals first
    | exact ⟨_, rfl⟩
    | exact absurd ⟨⟨h1, (noControl_iff path).mpr ⟨h3, Bool.eq_false_iff.mpr h4⟩, h5, h6,
        Bool.eq_false_iff.mpr h7⟩, by omega⟩ h

/-- The server's verdict after the checks before the loop. -/
private theorem validateSyncPath_of_plain {path : Str} (h : Plain path)
    (hlen : utf16Len path ≤ 1024) :
    Fc.validateSyncPath path =
      match (path.splitOn '/').findSome? Fc.validateSegment with
      | some failure => failure
      | none =>
        if isAllowed path then .ok
        else .invalidPath (utf16 ("path must start with one of: ".toList ++
          ", ".toList.intercalate Fc.ALLOWED_PREFIXES)) := by
  obtain ⟨hnul, hctl⟩ := (noControl_iff path).mp h.noControl
  have hdrive : ¬ Fc.startsWithDriveLetter path = true := by
    change ¬ startsWithDriveLetter path = true
    rw [h.noDrive]; exact Bool.false_ne_true
  have hunc : ¬ "//".toList.isPrefixOf path = true := by
    rw [not_unc_of_relative h.relative]; exact Bool.false_ne_true
  unfold Fc.validateSyncPath
  rw [if_neg h.nonempty, if_neg (Nat.not_lt.mpr hlen), if_neg hnul,
    if_neg (Bool.eq_false_iff.mp hctl), if_neg h.noBackslash, if_neg h.relative, if_neg hdrive,
    if_neg hunc]
  rfl

/-- `validateSyncPath` accepts the paths of the grammar that fit in UTF-16 code units, under a
    live prefix. -/
theorem validateSyncPath_ok_iff (path : Str) :
    Fc.validateSyncPath path = .ok ↔
      Shaped path ∧ FitsUtf16 path ∧ isAllowed path = true := by
  by_cases hpre : Plain path ∧ utf16Len path ≤ 1024
  · rw [validateSyncPath_of_plain hpre.1 hpre.2]
    -- the first segment that fails decides; without one, the root does
    cases hseg : (path.splitOn '/').findSome? Fc.validateSegment with
    | some failure =>
      obtain ⟨seg, hmem, hfail⟩ := List.exists_of_findSome?_eq_some hseg
      constructor
      · rintro rfl
        exact absurd hfail (fc_validateSegment_ne_ok seg)
      · rintro ⟨hs, hf, -⟩
        have := (fc_validateSegment_eq_none_iff seg).mpr ⟨hs.segments seg hmem, hf.2 seg hmem⟩
        rw [this] at hfail
        exact nomatch hfail
    | none =>
      have hall : ∀ seg ∈ path.splitOn '/', GoodSegment seg ∧ utf16Len seg ≤ 255 :=
        fun seg hmem =>
          (fc_validateSegment_eq_none_iff seg).mp (List.findSome?_eq_none_iff.mp hseg seg hmem)
      constructor
      · intro h
        have hroot : isAllowed path = true := by
          by_contra hno
          simp [hno] at h
        exact ⟨⟨hpre.1, fun s hs => (hall s hs).1⟩, ⟨hpre.2, fun s hs => (hall s hs).2⟩, hroot⟩
      · rintro ⟨-, -, hroot⟩
        simp [hroot]
  · -- the checks before the segments fail
    obtain ⟨message, herr⟩ := validateSyncPath_of_not_plain hpre
    rw [herr]
    exact ⟨nofun, fun ⟨hs, hf, _⟩ => absurd ⟨hs.toPlain, hf.1⟩ hpre⟩

/-! ## What the server accepts, the daemon can take -/

/-- The daemon accepts the path if the server does, and validates it without a panic. -/
def DaemonTakes (path : Str) : Prop :=
  (Fc.validateSyncPath path = .ok → validate path = .ok) ∧ validate path ≠ .panic

instance (path : Str) : Decidable (DaemonTakes path) :=
  inferInstanceAs (Decidable (_ ∧ _))

/-- The two validators part exactly where the units do: on a path that fits in code units and not
    in bytes, and where byte 20 of an overlong segment is inside a character. -/
theorem daemonTakes_iff (path : Str) :
    DaemonTakes path ↔
      (Shaped path → isAllowed path = true → FitsUtf16 path → FitsUtf8 path) ∧
        ¬ CutsInsideChar path := by
  unfold DaemonTakes
  rw [validateSyncPath_ok_iff, validate_ok_iff, Ne, validate_panic_iff]
  refine and_congr_left fun _ => ⟨fun h hs ha hf => (h ⟨hs, hf, ha⟩).2.1, ?_⟩
  rintro h ⟨hs, hf, ha⟩
  exact ⟨hs, h hs ha hf, .inl ha⟩

/-- The server accepts a name of 100 three-byte letters, which makes the daemon panic, and one of
    200 two-byte letters, which the daemon rejects. -/
theorem not_daemonTakes_wideNames :
    (Fc.validateSyncPath ("knowledge/".toList ++ List.replicate 100 '中') = .ok ∧
      validate ("knowledge/".toList ++ List.replicate 100 '中') = .panic) ∧
    (Fc.validateSyncPath ("knowledge/".toList ++ List.replicate 200 'é') = .ok ∧
      validate ("knowledge/".toList ++ List.replicate 200 'é') =
        .err "path segment exceeds 255 bytes: éééééééééé…".toList) := by
  decide +kernel

end TeamClu.Sync
