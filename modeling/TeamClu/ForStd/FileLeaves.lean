import TeamClu.ForStd.FilePaths

/-!
# When file operations succeed, and the leaves of a tree

Where no link is on the way and the parents are there, an operation succeeds: `createDirAll_ok`,
`writeFile_ok`, `removeFile_ok`, `removeDirAll_ok`.  The leaves of a tree are its files and links;
removing an empty directory changes none of them (`leaf_removeDir`).
-/

namespace TeamClu

namespace FileTree

variable {α : Type}

/-- The file or link at a path. -/
def leaf (t : FileTree α) (q : List Str) : Option (FileKind α) :=
  match t.look q with
  | some .dir => none
  | kind => kind

theorem leaf_eq_some {t : FileTree α} {q : List Str} {kind : FileKind α} :
    t.leaf q = some kind ↔ t.look q = some kind ∧ kind ≠ .dir := by
  rw [leaf]
  cases h : t.look q with
  | none => simp
  | some k => cases k <;> cases kind <;> simp

theorem leaf_eq_none {t : FileTree α} {q : List Str} :
    t.leaf q = none ↔ t.look q = none ∨ t.look q = some .dir := by
  rw [leaf]
  cases h : t.look q with
  | none => simp
  | some k => cases k <;> simp

theorem leaf_congr {t u : FileTree α} {q : List Str} (h : u.look q = t.look q) : u.leaf q = t.leaf q := by
  rw [leaf, leaf, h]

/-- Below a leaf there is nothing. -/
theorem look_below_leaf {t : FileTree α} {p q : List Str} {kind : FileKind α} (hp : t.leaf p = some kind)
    (hq : p <+: q) (hne : p ≠ q) : t.look q = none := by
  rw [leaf_eq_some] at hp
  refine look_below ?_ hq hne
  rw [hp.1, Ne, Option.some_inj]
  exact hp.2

/-- The ways to a path are free of links when what is above it is a directory or missing. -/
theorem noLinkAbove_of_free {t : FileTree α} {p : List Str}
    (h : ∀ q, q <+: p → q ≠ p → t.look q = some .dir ∨ t.look q = none) : NoLinkAbove t p := by
  intro q l hq hne hlink
  rcases h q hq hne with hdir | hnone
  · rw [hdir] at hlink
    cases hlink
  · rw [hnone] at hlink
    cases hlink

/-! ## Operations that succeed -/

/-- A walk through directories arrives. -/
private theorem stride_of_dirs {t : FileTree α} {followLast : Bool} {done todo : List Str}
    (hplain : ∀ part ∈ todo, plain part = true)
    (hdirs : ∀ q, q <+: todo → q ≠ [] → q ≠ todo → t.look (done ++ q) = some .dir)
    (hlast : followLast = true → ∀ l, t.look (done ++ todo) ≠ some (.link l)) :
    stride t followLast done todo = .found (done ++ todo) := by
  induction todo generalizing done with
  | nil => rw [List.append_nil, stride]
  | cons part rest ih =>
    have hpart : plain part = true := hplain part List.mem_cons_self
    simp only [plain, Bool.not_eq_true', Bool.or_eq_false_iff, beq_eq_false_iff_ne] at hpart
    obtain ⟨⟨hp1, hp2⟩, hp3⟩ := hpart
    have hsplit : done ++ part :: rest = (done ++ [part]) ++ rest := by simp
    rw [stride, if_neg (by simp [hp1, hp2]), if_neg hp3]
    by_cases hrest : rest = []
    · subst hrest
      cases hl : t.look (done ++ [part]) with
      | none => simp
      | some kind =>
        cases kind with
        | dir => simp [stride]
        | file content => simp
        | link l =>
          cases followLast with
          | false => simp
          | true => exact absurd hl (hlast rfl l)
    · have hdir := hdirs [part] (by simp) (by simp) (by simpa using hrest)
      rw [hdir, hsplit]
      refine ih (fun p hp => hplain p (List.mem_cons_of_mem _ hp)) (fun q hq hne hne' => ?_) (hsplit ▸ hlast)
      rw [List.append_assoc]
      exact hdirs ([part] ++ q) (by simpa using hq) (by simp) (by simpa using hne')

/-- A path in a directory resolves to itself. -/
theorem resolve_of_parent {t : FileTree α} {p : List Str} (followLast : Bool)
    (hplain : ∀ part ∈ p, plain part = true) (hparent : t.look p.dropLast = some .dir)
    (hlast : followLast = true → ∀ l, t.look p ≠ some (.link l)) : resolve t followLast p = some p := by
  rw [resolve, walk, @stride_of_dirs _ t followLast [] p hplain ?_ hlast]
  · rfl
  · intro q hq _ hne
    by_cases heq : q = p.dropLast
    · rw [heq]
      exact hparent
    · refine look_dir_above ?_ heq (by rw [hparent]; simp)
      rw [← List.dropLast_concat_getLast (l := p) (by rintro rfl; exact hne (List.prefix_nil.mp hq))] at hq
      refine (List.prefix_concat_iff.mp hq).resolve_left fun heq' => hne ?_
      rw [heq', List.dropLast_concat_getLast]

/-- An entry put at a path in a directory, with nothing below. -/
private theorem look_alter_leaf {t : FileTree α} {p : List Str} (hp : p ≠ [])
    (hparent : t.look p.dropLast = some .dir) {entry : Option (FileTree α)}
    (hentry : ∀ e ∈ entry, ∀ q, q ≠ [] → e.look q = none) :
    (alter p entry t).look p = entry.map kind ∧ (∀ q, p <+: q → q ≠ p → (alter p entry t).look q = none) ∧
      ∀ q, ¬ p <+: q → (alter p entry t).look q = t.look q := by
  refine ⟨?_, ?_, fun q hq => look_alter hq entry t⟩
  · have h := look_alter_below hp hparent entry []
    rw [List.append_nil] at h
    rw [h]
    cases entry <;> rfl
  · rintro q ⟨r, rfl⟩ hne
    rw [look_alter_below hp hparent]
    cases entry with
    | none => rfl
    | some e => exact hentry e rfl r (by simpa using hne)

/-- `mkdir` in a directory where nothing is. -/
private theorem mkdir_ok {t : FileTree α} {p : List Str} (hp : p ≠ []) (hplain : ∀ part ∈ p, plain part = true)
    (hparent : t.look p.dropLast = some .dir) (hnone : t.look p = none) :
    ∃ u, t.mkdir p = some u ∧ u.look p = some .dir ∧ ∀ q, q ≠ p → u.look q = t.look q := by
  have hleaf : ∀ e ∈ some (dir ([] : List (Str × FileTree α))), ∀ q, q ≠ [] → e.look q = none := by
    rintro e ⟨⟩ q hq
    cases q with
    | nil => exact absurd rfl hq
    | cons name q => rfl
  obtain ⟨hself, hbelow, hother⟩ := look_alter_leaf hp hparent hleaf
  refine ⟨_, ?_, hself, fun q hq => ?_⟩
  · rw [mkdir, resolve_of_parent false hplain hparent fun h => absurd h Bool.false_ne_true]
    simp [hnone, dirAt_iff.mpr hparent]
  · by_cases hpre : p <+: q
    · rw [hbelow q hpre hq, look_below (by rw [hnone]; simp) hpre (Ne.symm hq)]
    · exact hother q hpre

/-- Where no link is, a path is a directory if one is there. -/
theorem isDir_iff {t : FileTree α} {p : List Str} (hplain : ∀ part ∈ p, plain part = true)
    (habove : NoLinkAbove t p) (hlast : ∀ l, t.look p ≠ some (.link l)) :
    t.isDir p = true ↔ t.look p = some .dir := by
  refine ⟨look_of_isDir hplain habove hlast, fun hdir => ?_⟩
  rw [isDir]
  rcases resolve_of_noLinkAbove true hplain habove (fun _ => hlast) with hr | ⟨_, hnone⟩
  · rw [hr]
    exact dirAt_iff.mpr hdir
  · rw [hnone] at hdir
    cases hdir

/-- `create_dir_all` where each directory of the path is there or missing. -/
theorem createDirAll_ok {rest : List Str} : ∀ {t : FileTree α} {done : List Str},
    (∀ part ∈ done ++ rest, plain part = true) → t.look done = some .dir →
      (∀ q, q <+: done ++ rest → t.look q = some .dir ∨ t.look q = none) →
        ∃ u, createDirAll done rest t = some u ∧ u.look (done ++ rest) = some .dir ∧
          ∀ q, u.look q = t.look q ∨
            (t.look q = none ∧ u.look q = some .dir ∧ q <+: done ++ rest) := by
  induction rest with
  | nil =>
    intro t done hplain hdone hfree
    rw [List.append_nil] at *
    have habove := noLinkAbove_of_free fun q hq _ => hfree q hq
    refine ⟨t, ?_, hdone, fun q => .inl rfl⟩
    rw [createDirAll, if_pos]
    exact (isDir_iff hplain habove fun l => by rw [hdone]; simp).mpr hdone
  | cons part rest ih =>
    intro t done hplain hdone hfree
    have hsplit : done ++ part :: rest = (done ++ [part]) ++ rest := by simp
    have hpre : done ++ [part] <+: done ++ part :: rest := hsplit ▸ List.prefix_append _ _
    have hplain' : ∀ p ∈ done ++ [part], plain p = true := fun p hp => hplain p (hpre.subset hp)
    have habove : NoLinkAbove t (done ++ [part]) :=
      noLinkAbove_of_free fun q hq _ => hfree q (hq.trans hpre)
    rw [createDirAll]
    rcases hfree _ hpre with hdir | hnone
    · rw [if_pos ((isDir_iff hplain' habove fun l => by rw [hdir]; simp).mpr hdir)]
      rw [hsplit] at hplain hfree ⊢
      exact ih hplain hdir hfree
    · have hnot : ¬ t.isDir (done ++ [part]) = true := by
        rw [isDir_iff hplain' habove fun l => by rw [hnone]; simp, hnone]
        simp
      obtain ⟨v, hv, hdir, hother⟩ := mkdir_ok (by simp) hplain'
        (by rw [List.dropLast_concat]; exact hdone) hnone
      rw [if_neg hnot, hv]
      rw [hsplit] at hplain hfree ⊢
      obtain ⟨u, hu, hlook, hmade⟩ := ih hplain hdir fun q hq => by
        by_cases heq : q = done ++ [part]
        · exact .inl (heq ▸ hdir)
        · rw [hother q heq]
          exact hfree q hq
      refine ⟨u, hu, hlook, fun q => ?_⟩
      by_cases heq : q = done ++ [part]
      · subst heq
        rcases hmade (done ++ [part]) with hsame | ⟨hnone', -, -⟩
        · exact .inr ⟨hnone, hsame.trans hdir, List.prefix_append _ _⟩
        · rw [hdir] at hnone'
          cases hnone'
      · rw [← hother q heq]
        exact hmade q

/-- `remove_file` of a leaf. -/
theorem removeFile_ok {t : FileTree α} {p : List Str} {kind : FileKind α}
    (hplain : ∀ part ∈ p, plain part = true) (hp : p ≠ []) (hleaf : t.leaf p = some kind) :
    ∃ u, t.removeFile p = some u ∧ u.look p = none ∧ ∀ q, q ≠ p → u.look q = t.look q := by
  obtain ⟨hlook, hdir⟩ := leaf_eq_some.mp hleaf
  have habove : NoLinkAbove t p := by
    intro q l hq hne hlink
    rw [look_dir_above hq hne (by rw [hlook]; simp)] at hlink
    cases hlink
  have hparent := look_parent hp (by rw [hlook]; simp)
  have hsome : ∃ u, t.removeFile p = some u := by
    rw [removeFile, resolve_of_parent false hplain hparent fun h => absurd h Bool.false_ne_true]
    dsimp only
    rw [hlook]
    cases kind with
    | dir => exact absurd rfl hdir
    | file content => exact ⟨_, rfl⟩
    | link l => exact ⟨_, rfl⟩
  obtain ⟨u, hu⟩ := hsome
  exact ⟨u, hu, look_removeFile hp hplain habove hu⟩

/-- `remove_dir_all` of a directory. -/
theorem removeDirAll_ok {t : FileTree α} {p : List Str} (hplain : ∀ part ∈ p, plain part = true)
    (hp : p ≠ []) (hdir : t.look p = some .dir) :
    ∃ u, t.removeDirAll p = some u ∧ (∀ q, p <+: q → u.look q = none) ∧
      ∀ q, ¬ p <+: q → u.look q = t.look q := by
  have habove : NoLinkAbove t p := by
    intro q l hq hne hlink
    rw [look_dir_above hq hne (by rw [hdir]; simp)] at hlink
    cases hlink
  have hparent := look_parent hp (by rw [hdir]; simp)
  have hsome : ∃ u, t.removeDirAll p = some u := by
    rw [removeDirAll, resolve_of_parent false hplain hparent fun h => absurd h Bool.false_ne_true]
    dsimp only
    rw [hdir]
    exact ⟨_, rfl⟩
  obtain ⟨u, hu⟩ := hsome
  exact ⟨u, hu, look_removeDirAll hp hplain habove hu⟩

/-- A file is written in a directory, over a file or as a new one. -/
theorem writeFile_ok {t : FileTree α} {p : List Str} (content : α) (hplain : ∀ part ∈ p, plain part = true)
    (hp : p ≠ []) (hparent : t.look p.dropLast = some .dir)
    (hplace : t.look p = none ∨ ∃ old, t.look p = some (.file old)) :
    ∃ u, t.writeFile p content = some u ∧ u.look p = some (.file content) ∧
      ∀ q, q ≠ p → u.look q = t.look q := by
  have hlast : ∀ l, t.look p ≠ some (.link l) := by
    intro l hlink
    rcases hplace with hnone | ⟨old, hfile⟩
    · rw [hnone] at hlink
      cases hlink
    · rw [hfile] at hlink
      cases hlink
  have habove : NoLinkAbove t p := by
    intro q l hq hne hlink
    have hqd : q <+: p.dropLast := by
      rw [← List.dropLast_concat_getLast hp] at hq
      refine (List.prefix_concat_iff.mp hq).resolve_left fun heq => hne ?_
      rw [heq, List.dropLast_concat_getLast]
    by_cases heq : q = p.dropLast
    · rw [heq, hparent] at hlink
      cases hlink
    · rw [look_dir_above hqd heq (by rw [hparent]; simp)] at hlink
      cases hlink
  have hsome : ∃ u, t.writeFile p content = some u := by
    rw [writeFile, resolve_of_parent true hplain hparent fun _ => hlast]
    dsimp only
    rcases hplace with hnone | ⟨old, hfile⟩
    · rw [hnone]
      simp [dirAt_iff.mpr hparent]
    · rw [hfile]
      exact ⟨_, rfl⟩
  obtain ⟨u, hu⟩ := hsome
  exact ⟨u, hu, look_writeFile hp hplain habove hlast hu⟩

/-- Removing an empty directory takes away no leaf and makes nothing. -/
theorem look_removeDir {t u : FileTree α} {parts : List Str} (h : t.removeDir parts = some u) (q : List Str) :
    u.look q = t.look q ∨ (t.look q = some .dir ∧ u.look q = none) := by
  rw [removeDir] at h
  split at h
  · next p _ =>
    split at h
    · next hget =>
      cases h
      by_cases hpre : p <+: q
      · obtain ⟨r, rfl⟩ := hpre
        have hbelow : t.look (p ++ r) = if r = [] then some .dir else none := by
          rw [look, get_append, hget]
          cases r with
          | nil => rfl
          | cons name r => rfl
        by_cases hp : p = []
        · subst hp
          exact .inl rfl
        · have hparent := look_parent hp (t := t) (by rw [look, hget]; simp)
          rw [look_alter_below hp hparent, hbelow]
          split
          · exact .inr ⟨rfl, rfl⟩
          · exact .inl rfl
      · exact .inl (look_alter hpre _ t)
    · cases h
  · cases h

end FileTree

end TeamClu
