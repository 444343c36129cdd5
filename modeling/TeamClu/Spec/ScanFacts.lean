import TeamClu.ForStd.Fold
import TeamClu.Native.Scanner
import TeamClu.Spec.ConflictNames

/-!
# What a scan finds

The scan of a tree is decided path by path: `seen` is what it makes of the file at a path
(`find?_scan`), and a file is found when no rule of the walk leaves it out and it could be read if it
had to be (`seen_isSome`).  From that follow the entries of a state that a scan was applied to
(`refreshDirty_get`, `applyScan_get`).
-/

namespace TeamClu.Sync

/-! ## The walk -/

/-- A directory above a path, with its slash, is a prefix of the path. -/
theorem isPrefix_of_mem_ancestors {d p : Str} (h : d ∈ ancestors p) : d ++ ['/'] <+: p := by
  obtain ⟨depth, hdepth, rfl⟩ := List.mem_map.mp h
  rw [List.mem_range'_1] at hdepth
  have htake : (p.splitOn '/').take depth ≠ [] := by
    refine List.ne_nil_of_length_pos ?_
    rw [List.length_take]
    omega
  have hdrop : (p.splitOn '/').drop depth ≠ [] := by
    refine List.ne_nil_of_length_pos ?_
    rw [List.length_drop]
    omega
  refine ⟨['/'].intercalate ((p.splitOn '/').drop depth), ?_⟩
  rw [← Str.intercalate_append _ htake hdrop, List.take_append_drop, List.intercalate_splitOn]

/-- What lies below something under the conflicts directory is under it too. -/
theorem isUnderConflictsDir_of_isPrefix {d p : Str} (h : d ++ ['/'] <+: p)
    (hd : isUnderConflictsDir d = true) : isUnderConflictsDir p = true := by
  obtain ⟨aPrefix, hmem, hd⟩ := List.any_eq_true.mp hd
  refine List.any_eq_true.mpr ⟨aPrefix, hmem, ?_⟩
  simp only [Bool.or_eq_true, beq_iff_eq, List.isPrefixOf_iff_prefix] at hd ⊢
  rcases hd with rfl | hd
  · exact .inr h
  · exact .inr (hd.trans ((List.prefix_append d ['/']).trans h))

/-- The walk comes to the allowed paths that are neither under the conflicts directory nor ignored. -/
theorem walks_iff {rules : IgnoreRules} {p : Str} :
    walks rules p = true ↔ isAllowed p = true ∧ isUnderConflictsDir p = false ∧
      rules.isIgnoredWithAncestors p = false := by
  unfold walks IgnoreRules.isIgnoredWithAncestors keepsEntry
  simp only [Bool.and_eq_true, List.all_eq_true, Bool.not_eq_true', Bool.or_eq_false_iff,
    List.any_eq_false, Bool.not_eq_true]
  constructor
  · rintro ⟨⟨hallowed, habove⟩, hunder, hself⟩
    exact ⟨hallowed, hunder, fun d hd => (habove d hd).2, hself⟩
  · rintro ⟨hallowed, hunder, habove, hself⟩
    refine ⟨⟨hallowed, fun d hd => ⟨?_, habove d hd⟩⟩, hunder, hself⟩
    refine Bool.eq_false_iff.mpr fun hd' => ?_
    rw [isUnderConflictsDir_of_isPrefix (isPrefix_of_mem_ancestors hd) hd'] at hunder
    exact nomatch hunder

/-! ## One file -/

/-- What the scan makes of the file at a path. -/
def seen (crypto : Crypto) (st : LocalSyncState) (rules : IgnoreRules) (rel : Str)
    (file : DiskFile) : Option ScannedFile :=
  if walks rules rel && file.listed && !isConflictFile rel then scanFile crypto st rel file else none

/-- The recorded time and size of the path are those of the file. -/
def stampRecorded (st : LocalSyncState) (rel : Str) (file : DiskFile) : Bool :=
  st.files[rel]?.any fun fs => fs.mtime == file.mtime && fs.size == file.size

variable {crypto : Crypto} {st : LocalSyncState} {rules : IgnoreRules} {tree : ContentTree} {p : Str}

/-- A file whose stamp is recorded is clean; any other is read and hashed. -/
theorem scanFile_eq (crypto : Crypto) (st : LocalSyncState) (p : Str) (file : DiskFile) :
    scanFile crypto st p file =
      if stampRecorded st p file then
        st.files[p]?.map fun fs =>
          { relPath := p, mtime := file.mtime, size := file.size
            localPlainHash := fs.localPlainHash, dirty := false }
      else if file.readable then
        some { relPath := p, mtime := file.mtime, size := file.size
               localPlainHash := crypto.sha256Hex file.bytes
               dirty := (st.files[p]?.map fun fs =>
                 fs.syncedPlainHash != crypto.sha256Hex file.bytes).getD true }
      else none := by
  unfold scanFile stampRecorded
  cases st.files[p]? with
  | none => cases file.readable <;> rfl
  | some fs =>
    simp only [Option.any_some, Option.filter_some]
    split_ifs with hstamp <;> simp_all

/-- What the scan reports carries the path and the stamp of its file. -/
theorem seen_spec {file : DiskFile} {s : ScannedFile} (h : seen crypto st rules p file = some s) :
    s.relPath = p ∧ s.mtime = file.mtime ∧ s.size = file.size := by
  unfold seen at h
  split_ifs at h
  rw [scanFile_eq] at h
  split_ifs at h
  · obtain ⟨fs, -, rfl⟩ := Option.map_eq_some_iff.mp h
    exact ⟨rfl, rfl, rfl⟩
  · obtain rfl := Option.some.inj h
    exact ⟨rfl, rfl, rfl⟩

/-- Which files the scan sees. -/
theorem seen_isSome (crypto : Crypto) (st : LocalSyncState) (rules : IgnoreRules) (p : Str)
    (file : DiskFile) :
    (seen crypto st rules p file).isSome =
      (walks rules p && file.listed && !isConflictFile p &&
        (file.readable || stampRecorded st p file)) := by
  have hscan : (scanFile crypto st p file).isSome =
      (file.readable || stampRecorded st p file) := by
    rw [scanFile_eq]
    split_ifs with hstamp hreadable
    · have hentry : st.files[p]?.isSome := Option.isSome_of_any hstamp
      simp [hstamp, hentry]
    · simp [hreadable]
    · simp_all
  unfold seen
  split_ifs with hwalks
  · rw [hscan, hwalks, Bool.true_and]
  · rw [Bool.eq_false_iff.mpr hwalks, Bool.false_and]
    rfl

/-! ## The scan -/

/-- The scan, as one pass over the tree. -/
theorem scan_eq (crypto : Crypto) (st : LocalSyncState) (rules : IgnoreRules) (tree : ContentTree) :
    scanWorkspaceWith crypto st rules tree =
      tree.toList.filterMap fun e => seen crypto st rules e.1 e.2 := by
  unfold scanWorkspaceWith walkedFiles
  rw [List.filterMap_filter]
  refine List.filterMap_congr fun e _ => ?_
  obtain ⟨rel, file⟩ := e
  show (if walks rules rel && file.listed then
    if isConflictFile rel then none else scanFile crypto st rel file else none) = _
  unfold seen
  cases walks rules rel && file.listed <;> cases isConflictFile rel <;> rfl

/-- What the scan reports of a path is what it makes of the file there. -/
theorem find?_scan (crypto : Crypto) (st : LocalSyncState) (rules : IgnoreRules)
    (tree : ContentTree) (p : Str) :
    (scanWorkspaceWith crypto st rules tree).find? (·.relPath == p) =
      tree[p]?.bind (seen crypto st rules p) := by
  rw [scan_eq]
  exact TreeMap.find?_filterMap_toList (g := seen crypto st rules) (fun _ _ _ h => (seen_spec h).1)
    tree p

theorem nodup_scan (crypto : Crypto) (st : LocalSyncState) (rules : IgnoreRules)
    (tree : ContentTree) : ((scanWorkspaceWith crypto st rules tree).map (·.relPath)).Nodup := by
  rw [scan_eq]
  exact TreeMap.nodup_filterMap_toList (g := seen crypto st rules) (fun _ _ _ h => (seen_spec h).1)
    tree

theorem mem_scan_iff {s : ScannedFile} :
    s ∈ scanWorkspaceWith crypto st rules tree ↔
      ∃ file, tree[s.relPath]? = some file ∧ seen crypto st rules s.relPath file = some s := by
  rw [scan_eq, List.mem_filterMap]
  constructor
  · rintro ⟨⟨rel, file⟩, hmem, hs⟩
    obtain rfl := (seen_spec hs).1
    exact ⟨file, TreeMap.mem_toList.mp hmem, hs⟩
  · rintro ⟨file, hget, hs⟩
    exact ⟨(s.relPath, file), TreeMap.mem_toList.mpr hget, hs⟩

/-- The paths of a scan are those of the files it sees. -/
theorem mem_scan_paths :
    p ∈ (scanWorkspaceWith crypto st rules tree).map (·.relPath) ↔
      ∃ file, tree[p]? = some file ∧ (seen crypto st rules p file).isSome := by
  rw [List.mem_map]
  constructor
  · rintro ⟨s, hs, rfl⟩
    obtain ⟨file, hget, hseen⟩ := mem_scan_iff.mp hs
    exact ⟨file, hget, by rw [hseen]; rfl⟩
  · rintro ⟨file, hget, hseen⟩
    obtain ⟨s, hs⟩ := Option.isSome_iff_exists.mp hseen
    obtain rfl := (seen_spec hs).1
    exact ⟨s, mem_scan_iff.mpr ⟨file, hget, hs⟩, rfl⟩

/-! ## Applying it -/

/-- The entries after `refresh_dirty`. -/
theorem refreshDirty_get (crypto : Crypto) (st st' : LocalSyncState) (rules : IgnoreRules)
    (tree : ContentTree) (p : Str) :
    (refreshDirty st' (scanWorkspaceWith crypto st rules tree)).files[p]? =
      match tree[p]?.bind (seen crypto st rules p) with
      | none => st'.files[p]?
      | some s => st'.files[p]?.map fun fs => { fs with dirty := s.dirty } := by
  have hget := Fold.get_foldl_modify
    (f := fun (s : ScannedFile) (fs : FileState) => { fs with dirty := s.dirty })
    (nodup_scan crypto st rules tree) st'.files p
  rw [find?_scan] at hget
  unfold refreshDirty
  simp only
  rw [hget]
  cases tree[p]?.bind (seen crypto st rules p) <;> rfl

/-- The entries after `apply_scan`. -/
theorem applyScan_get (crypto : Crypto) (st st' : LocalSyncState) (rules : IgnoreRules)
    (tree : ContentTree) (p : Str) :
    (applyScan st' (scanWorkspaceWith crypto st rules tree)).files[p]? =
      match tree[p]?.bind (seen crypto st rules p) with
      | none => st'.files[p]?
      | some s => st'.files[p]?.map fun fs =>
          { fs with mtime := s.mtime, size := s.size, localPlainHash := s.localPlainHash
                    dirty := s.dirty } := by
  have hget := Fold.get_foldl_modify
    (f := fun (s : ScannedFile) (fs : FileState) =>
      { fs with mtime := s.mtime, size := s.size
                localPlainHash := s.localPlainHash, dirty := s.dirty })
    (nodup_scan crypto st rules tree) st'.files p
  rw [find?_scan] at hget
  unfold applyScan
  simp only
  rw [hget]
  cases tree[p]?.bind (seen crypto st rules p) <;> rfl

/-! ## Relocation -/

/-- The sidecars that the scan relocates are walked to, and are allowed paths. -/
private theorem isAllowed_of_walked {e : Str × DiskFile} (h : e ∈ walkedFiles rules tree) :
    isAllowed e.1 = true := by
  have hwalks := (Bool.and_eq_true_iff.mp (List.mem_filter.mp h).2).1
  exact (walks_iff.mp hwalks).1

/-- Relocating the sidecars brings up no file outside the conflicts directories. -/
theorem get_of_relocateSidecars_get {file : DiskFile} {moves : Str → Bool}
    (hp : isUnderConflictsDir p = false) (h : (relocateSidecars rules tree moves)[p]? = some file) :
    tree[p]? = some file := by
  revert h
  refine Fold.foldl_inv (P := fun t : ContentTree => t[p]? = some file → tree[p]? = some file)
    (fun t e he ht h => ht ?_) id
  exact get_of_migrate_get (isAllowed_of_walked (List.mem_filter.mp he).1) hp h

end TeamClu.Sync
