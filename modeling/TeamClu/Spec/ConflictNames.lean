import TeamClu.ForStd.TreeMap
import TeamClu.Native.Conflict

/-!
# Where conflict sidecars live

A sidecar of an allowed path is written under the conflicts directory of its prefix, and a legacy
sidecar is relocated there (`isUnderConflictsDir_conflictRelPath`, `isUnderConflictsDir_legacyRel`).
Relocating one leaves every other file where it is (`migrate_get_of_some`) and brings up none outside
that directory (`get_of_migrate_get`).
-/

namespace TeamClu.Sync

/-! ## Names -/

/-- An allowed path starts with the name of a sync prefix, which is one component. -/
theorem exists_base_of_isAllowed {p : Str} (h : isAllowed p = true) :
    ∃ a ∈ ALLOWED_PREFIXES, trimSlash a ≠ [] ∧ '/' ∉ trimSlash a ∧
      ∃ rest, p = trimSlash a ++ '/' :: rest := by
  obtain ⟨a, hmem, hprefix⟩ := List.any_eq_true.mp h
  obtain ⟨rest, rfl⟩ := List.isPrefixOf_iff_prefix.mp hprefix
  have hnames : ∀ a ∈ ALLOWED_PREFIXES,
      trimSlash a ≠ [] ∧ '/' ∉ trimSlash a ∧ a = trimSlash a ++ ['/'] := by decide
  obtain ⟨hne, hslash, heq⟩ := hnames a hmem
  refine ⟨a, hmem, hne, hslash, rest, ?_⟩
  rw [List.append_cons, ← heq]

/-- The directory of an allowed path is a sync prefix, or below one. -/
theorem splitOn_dir_of_isAllowed {dir name : Str} (h : isAllowed (dir ++ '/' :: name) = true) :
    ∃ a ∈ ALLOWED_PREFIXES, trimSlash a ≠ [] ∧ ∃ below, dir.splitOn '/' = trimSlash a :: below := by
  obtain ⟨a, hmem, hne, hslash, rest, heq⟩ := exists_base_of_isAllowed h
  refine ⟨a, hmem, hne, ?_⟩
  rcases List.append_eq_append_iff.mp heq with ⟨more, hbase, hmore⟩ | ⟨more, rfl, hmore⟩
  · -- the prefix is not shorter than the directory: they are the same
    cases more with
    | nil =>
      rw [List.append_nil] at hbase
      exact ⟨[], by rw [← hbase, List.splitOn_eq_singleton hslash]⟩
    | cons c more =>
      obtain rfl : '/' = c := (List.cons.inj hmore).1
      exact absurd (by simp [hbase]) hslash
  · cases more with
    | nil => exact ⟨[], by rw [List.append_nil, List.splitOn_eq_singleton hslash]⟩
    | cons c more =>
      obtain rfl : '/' = c := (List.cons.inj hmore).1
      exact ⟨_, List.splitOn_append_cons_self_of_not_mem hslash more⟩

/-- The mirrored directory of an allowed path is under the conflicts directory, whatever is in it. -/
theorem insertConflictsRel_of_isAllowed {dir name : Str} (h : isAllowed (dir ++ '/' :: name) = true) :
    ∃ mirrored, insertConflictsRel dir = some mirrored ∧
      ∀ name', isUnderConflictsDir (mirrored ++ '/' :: name') = true := by
  obtain ⟨a, hmem, hne, below, hsplit⟩ := splitOn_dir_of_isAllowed h
  have hparts : (dir.splitOn '/').filter (· ≠ []) = trimSlash a :: below.filter (· ≠ []) := by
    rw [hsplit, List.filter_cons_of_pos (by simpa using hne)]
  have hidx : (trimSlash a :: below.filter (· ≠ [])).findIdx?
      (fun p => ALLOWED_PREFIXES.any fun a => p == trimSlash a) = some 0 := by
    rw [List.findIdx?_cons, if_pos]
    exact List.any_eq_true.mpr ⟨a, hmem, beq_self_eq_true _⟩
  refine ⟨['/'].intercalate (trimSlash a :: CONFLICTS_DIR :: below.filter (· ≠ [])), ?_, fun name' => ?_⟩
  · simp only [insertConflictsRel, hparts, hidx, Option.map_some]
    rfl
  · refine List.any_eq_true.mpr ⟨a, hmem, ?_⟩
    simp only [Bool.or_eq_true, List.isPrefixOf_iff_prefix]
    right
    cases hbelow : below.filter (· ≠ []) with
    | nil => simp [List.intercalate_cons_cons]
    | cons part parts => simp [List.intercalate_cons_cons]

/-- A sidecar is written under the conflicts directory. -/
theorem isUnderConflictsDir_conflictRelPath {p : Str} (h : isAllowed p = true) (unixTs : Nat)
    (cipherHash : Str) : isUnderConflictsDir (conflictRelPath p unixTs cipherHash) = true := by
  unfold conflictRelPath
  cases hsplit : Str.rsplitOnce '/' p with
  | none =>
    obtain ⟨a, -, -, -, rest, rfl⟩ := exists_base_of_isAllowed h
    exact absurd (List.mem_append_right _ List.mem_cons_self) (Str.rsplitOnce_eq_none.mp hsplit)
  | some parts =>
    obtain ⟨dir, filename⟩ := parts
    rw [(Str.rsplitOnce_eq_some hsplit).1] at h
    obtain ⟨mirrored, hmirrored, hunder⟩ := insertConflictsRel_of_isAllowed h
    simp only [hmirrored]
    exact hunder _

/-- A legacy sidecar is relocated under the conflicts directory. -/
theorem isUnderConflictsDir_legacyRel {rel newRel : Str} (h : isAllowed rel = true)
    (hnew : legacyRelToConflictsRel rel = some newRel) : isUnderConflictsDir newRel = true := by
  unfold legacyRelToConflictsRel at hnew
  cases hsplit : Str.rsplitOnce '/' rel with
  | none => rw [hsplit] at hnew; exact nomatch hnew
  | some parts =>
    obtain ⟨dir, filename⟩ := parts
    rw [(Str.rsplitOnce_eq_some hsplit).1] at h
    obtain ⟨mirrored, hmirrored, hunder⟩ := insertConflictsRel_of_isAllowed h
    rw [hsplit] at hnew
    simp only [hmirrored, Option.map_some, Option.some.injEq] at hnew
    rw [← hnew]
    exact hunder _

/-! ## Relocation -/

/-- What relocating a sidecar can do: nothing, drop it, or move it to a place that is free. -/
theorem migrate_cases (tree : ContentTree) (rel : Str) (succeeds : Bool) :
    migrateLegacyConflictSidecar tree rel succeeds = tree ∨
      migrateLegacyConflictSidecar tree rel succeeds = tree.erase rel ∨
      ∃ newRel file, legacyRelToConflictsRel rel = some newRel ∧ tree.exists newRel = false ∧
        migrateLegacyConflictSidecar tree rel succeeds = (tree.erase rel).insert newRel file := by
  unfold migrateLegacyConflictSidecar
  split
  · exact .inl rfl
  · split
    · next newRel file hlegacy _ =>
      split
      · exact .inl rfl
      · split
        · exact .inr (.inl rfl)
        · next hexists => exact .inr (.inr ⟨newRel, file, hlegacy, by simpa using hexists, rfl⟩)
    · exact .inl rfl

/-- Relocating a sidecar brings up no file outside the conflicts directory. -/
theorem get_of_migrate_get {tree : ContentTree} {rel p : Str} {file : DiskFile} {succeeds : Bool}
    (hrel : isAllowed rel = true) (hp : isUnderConflictsDir p = false)
    (h : (migrateLegacyConflictSidecar tree rel succeeds)[p]? = some file) :
    tree[p]? = some file := by
  have herase : (tree.erase rel)[p]? = some file → tree[p]? = some file := by
    rw [TreeMap.get_erase]
    split_ifs
    · exact nofun
    · exact id
  obtain heq | heq | ⟨newRel, moved, hlegacy, -, heq⟩ := migrate_cases tree rel succeeds
  · rwa [heq] at h
  · exact herase (heq ▸ h)
  · have hnew : newRel ≠ p := by
      rintro rfl
      rw [isUnderConflictsDir_legacyRel hrel hlegacy] at hp
      exact nomatch hp
    rw [heq, TreeMap.get_insert, if_neg hnew] at h
    exact herase h

end TeamClu.Sync
