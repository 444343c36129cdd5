import TeamClu.ForStd.FileLeaves
import TeamClu.Spec.PackInstalled

/-!
# A skill update replaces the managed files

What `swap_managed_files` and `remove_managed_files` do when no operation fails, path by path: the files of
the pack are put in their places, those that the baseline has and the pack has not are removed, and every
other file and link is as before (`swap_replaces`, `remove_removes`).

This holds where the places of the pack are free (`Replaceable`): above them there are directories or
nothing, a directory in such a place holds only managed files, and what is dropped lies below no link.  A
managed path that changes from a file to a directory is none of these: the copy fails before the old file is
removed (`swap_file_to_directory`).

## Key results

- `Runs`: what a computation without faults returns and leaves
- `copyIncoming_runs`: the first loop puts the files of the pack in their places
- `dropStale_runs`: the second loop removes what the pack has not
- `swap_replaces`: the swap, and the removal
-/

namespace TeamClu.SkillPack

open FileTree

variable {β γ : Type} {target staged : List Str}

/-! ## Computations without faults -/

/-- Without faults, the computation returns `b` and leaves `u`. -/
def Runs (x : FileIo β) (t : Tree) (b : β) (u : Tree) : Prop := ∀ n, ∃ m, x ⟨t, n⟩ = .ok b ⟨u, m⟩

theorem Runs.pure (b : β) (t : Tree) : Runs (pure b : FileIo β) t b t := fun n => ⟨n, rfl⟩

theorem Runs.bind {x : FileIo β} {f : β → FileIo γ} {t u v : Tree} {b : β} {c : γ} (hx : Runs x t b u)
    (hf : Runs (f b) u c v) : Runs (x >>= f) t c v := by
  intro n
  obtain ⟨m, hm⟩ := hx n
  obtain ⟨k, hk⟩ := hf m
  refine ⟨k, ?_⟩
  change EStateM.bind x f _ = _
  rw [EStateM.bind, hm]
  exact hk

theorem Runs.probe (f : Tree → β) (failed : β) (t : Tree) : Runs (probe noFault f failed) t (f t) t :=
  fun n => ⟨n + 1, rfl⟩

theorem Runs.readOp {f : Tree → Option β} {t : Tree} {b : β} (h : f t = some b) :
    Runs (readOp noFault f) t b t := fun n => ⟨n + 1, by rw [SkillPack.readOp, h]; rfl⟩

theorem Runs.writeOp {f : Tree → Option Tree} {t u : Tree} (h : f t = some u) :
    Runs (writeOp noFault target f) t () u := fun n => ⟨n + 1, by rw [SkillPack.writeOp, h]; rfl⟩

/-- An operation that may not succeed. -/
theorem Runs.attempt (f : Tree → Option Tree) (t : Tree) :
    (∃ u, f t = some u ∧ Runs (attempt noFault f) t true u) ∨ Runs (attempt noFault f) t false t := by
  cases h : f t with
  | none => exact .inr fun n => ⟨n + 1, by rw [SkillPack.attempt, h]; rfl⟩
  | some u => exact .inl ⟨u, rfl, fun n => ⟨n + 1, by rw [SkillPack.attempt, h]; rfl⟩⟩

/-! ## The first loop -/

/-- While the pack is copied: the files of `done` are in their places, and away from the places of `begun`
    there are at most new directories, above such a place or the target. -/
structure Copied (t0 : Tree) (target staged : List Str) (begun done : List Rel) (t : Tree) : Prop where
  root : t.look target = some .dir
  placed : ∀ rel ∈ done, t.look (target ++ rel) = t0.look (staged ++ rel)
  other : ∀ q, (∀ rel ∈ begun, ¬ target ++ rel <+: q) →
    t.look q = t0.look q ∨ (t0.look q = none ∧ t.look q = some .dir ∧
      ((∃ rel ∈ begun, q <+: target ++ rel) ∨ q <+: target))

/-- The directories of a swap: apart, with plain names; the target is a directory or can be made one. -/
structure Dirs (t : Tree) (target staged : List Str) : Prop where
  target_ne : target ≠ []
  plain_target : ∀ part ∈ target, plain part = true
  plain_staged : ∀ part ∈ staged, plain part = true
  apart : ¬ target <+: staged ∧ ¬ staged <+: target
  target_free : ∀ q, q <+: target → t.look q = some .dir ∨ t.look q = none
  staged_dir : t.look staged = some .dir
  ignore : ∀ l, t.look (staged ++ [ignoreFile]) ≠ some (.link l)
  proper : t.proper = true

/-- The files of the pack: plain paths, each of a staged file. -/
structure Shipped (t0 : Tree) (staged : List Str) (incoming : List Rel) : Prop where
  plain : ∀ rel ∈ incoming, ∀ part ∈ rel, plain part = true
  file : ∀ rel ∈ incoming, ∃ f, t0.look (staged ++ rel) = some (.file f)

/-- Where a swap replaces exactly the managed files. -/
structure Replaceable (t0 : Tree) (target staged : List Str) (incoming baseline : List Rel) : Prop where
  /-- Above the place of a file of the pack there are directories, or nothing. -/
  free : ∀ rel ∈ incoming, ∀ q, q <+: rel → q ≠ rel →
    t0.look (target ++ q) = some .dir ∨ t0.look (target ++ q) = none
  /-- A directory in the place of a file of the pack holds only files of the baseline. -/
  managed : ∀ rel ∈ incoming, ∀ q, target ++ rel <+: q → q ≠ target ++ rel → t0.leaf q ≠ none →
    ∃ key ∈ baseline, q = target ++ key
  /-- A link in the place of a file of the pack does not lead to the staged file, once the files before it are in
      their places. -/
  notSame : ∀ (done : List Rel) (rel : Rel) (rels : List Rel), incoming = done ++ rel :: rels → ∀ l,
    t0.look (target ++ rel) = some (.link l) → ∀ t, Copied t0 target staged done done t →
      sameFile (staged ++ rel) (target ++ rel) t = false
  /-- What is dropped lies below no link and is none. -/
  dropped : ∀ key ∈ baseline, key ∉ incoming → ∀ q l, q <+: key → t0.look (target ++ q) ≠ some (.link l)

/-- One file of the pack is not below another. -/
theorem Shipped.eq_of_below {t0 : Tree} {incoming : List Rel} (h : Shipped t0 staged incoming) {rel rel' : Rel}
    (hrel : rel ∈ incoming) (hrel' : rel' ∈ incoming) (hpre : rel <+: rel') : rel = rel' := by
  obtain ⟨f, hf⟩ := h.file rel hrel
  obtain ⟨f', hf'⟩ := h.file rel' hrel'
  by_contra hne
  have hnone := look_below (t := t0) (p := staged ++ rel) (q := staged ++ rel') (by rw [hf]; simp)
    ((List.prefix_append_right_inj _).mpr hpre) (by simpa using hne)
  rw [hf'] at hnone
  cases hnone

section Swap

variable {t0 t u : Tree} {incoming baseline begun done : List Rel} {rel : Rel}

/-- A path that is not below the target looks as before, or is a new directory above it. -/
private theorem not_below_staged (hd : Dirs t0 target staged) (rel q : List Str) :
    ¬ target ++ rel <+: staged ++ q := by
  intro hpre
  have h1 : target <+: staged ++ q := (List.prefix_append _ _).trans hpre
  rcases List.prefix_or_prefix_of_prefix h1 (List.prefix_append staged q) with h2 | h2
  · exact hd.apart.1 h2
  · exact hd.apart.2 h2

/-- The staged files stay. -/
theorem Copied.source (hd : Dirs t0 target staged) (h : Copied t0 target staged begun done t) {rel : Rel}
    {f : PackFile} (hf : t0.look (staged ++ rel) = some (.file f)) :
    t.look (staged ++ rel) = some (.file f) := by
  rcases h.other (staged ++ rel) fun rel' _ => not_below_staged hd rel' rel with hsame | ⟨hnone, -, -⟩
  · rw [hsame, hf]
  · rw [hf] at hnone
    cases hnone

/-- Above the place of a file there are directories or nothing, at any time of the copy. -/
theorem Copied.free (hd : Dirs t0 target staged) (hs : Shipped t0 staged incoming)
    (hr : Replaceable t0 target staged incoming baseline) (h : Copied t0 target staged done done t)
    (hdone : ∀ rel ∈ done, rel ∈ incoming) {rel : Rel} (hrel : rel ∈ incoming) {q : List Str}
    (hq : q <+: target ++ rel) (hne : q ≠ target ++ rel) : t.look q = some .dir ∨ t.look q = none := by
  have hfree : t0.look q = some .dir ∨ t0.look q = none := by
    rcases List.prefix_or_prefix_of_prefix hq (List.prefix_append target rel) with hq' | ⟨r, rfl⟩
    · exact hd.target_free q hq'
    · rw [List.prefix_append_right_inj] at hq
      exact hr.free rel hrel r hq (by simpa using hne)
  have hapart : ∀ rel' ∈ done, ¬ target ++ rel' <+: q := by
    intro rel' hrel' hpre
    have heq := hs.eq_of_below (hdone rel' hrel') hrel ((List.prefix_append_right_inj _).mp (hpre.trans hq))
    subst heq
    exact hne (hq.eq_of_length_le hpre.length_le)
  rcases h.other q hapart with hsame | ⟨-, hdir, -⟩
  · rw [hsame]
    exact hfree
  · exact .inl hdir

/-- The path of a staged file is not empty, since the staged pack is a directory. -/
theorem Shipped.ne_nil (hs : Shipped t0 staged incoming) (hd : Dirs t0 target staged) (hrel : rel ∈ incoming) :
    rel ≠ [] := by
  rintro rfl
  obtain ⟨f, hf⟩ := hs.file [] hrel
  rw [List.append_nil, hd.staged_dir] at hf
  cases hf

/-- What is in the place of a file: the file, if it is copied already, or what was there. -/
theorem Copied.place (hd : Dirs t0 target staged) (hs : Shipped t0 staged incoming)
    (h : Copied t0 target staged done done t) (hdone : ∀ rel ∈ done, rel ∈ incoming) {rel : Rel}
    (hrel : rel ∈ incoming) (hnew : rel ∉ done) : t.look (target ++ rel) = t0.look (target ++ rel) := by
  have hapart : ∀ rel' ∈ done, ¬ target ++ rel' <+: target ++ rel := fun rel' hrel' hpre =>
    hnew (hs.eq_of_below (hdone rel' hrel') hrel ((List.prefix_append_right_inj _).mp hpre) ▸ hrel')
  rcases h.other _ hapart with hsame | ⟨-, -, ⟨rel', hrel', hpre⟩ | hpre⟩
  · exact hsame
  · exact absurd (hs.eq_of_below hrel (hdone rel' hrel') ((List.prefix_append_right_inj _).mp hpre) ▸ hrel')
      hnew
  · exact absurd (by simpa using hpre.eq_of_length_le (by simp)) (hs.ne_nil hd hrel)

/-- The parent of a place. -/
theorem parent_of_plain {p : List Str} (hplain : ∀ part ∈ p, FileTree.plain part = true) :
    parent p = p.dropLast := by
  have hfilter : p.filter (fun part => !(part == [] || part == ['.'])) = p := by
    rw [List.filter_eq_self]
    intro part hpart
    have h := hplain part hpart
    simp only [FileTree.plain, Bool.not_eq_true', Bool.or_eq_false_iff] at h
    simp [h.1.1, h.1.2]
  rw [parent, hfilter]

/-- The staged file and its place are two files. -/
theorem Copied.sameFile_eq_false (hd : Dirs t0 target staged) (hs : Shipped t0 staged incoming)
    (hr : Replaceable t0 target staged incoming baseline) (h : Copied t0 target staged done done t) {rel : Rel}
    {rels : List Rel} (hsplit : incoming = done ++ rel :: rels) :
    sameFile (staged ++ rel) (target ++ rel) t = false := by
  have hdone : ∀ rel' ∈ done, rel' ∈ incoming := fun rel' hrel' => hsplit ▸ List.mem_append_left _ hrel'
  have hrel : rel ∈ incoming := hsplit ▸ List.mem_append_right _ List.mem_cons_self
  obtain ⟨f, hf⟩ := hs.file rel hrel
  have hsource := h.source hd hf
  have hplace : ∀ part ∈ target ++ rel, FileTree.plain part = true :=
    Clear.plain_append hd.plain_target (hs.plain rel hrel)
  by_cases hlink : ∃ l, t.look (target ++ rel) = some (.link l)
  · obtain ⟨l, hl⟩ := hlink
    -- a link in the place has been there from the start
    have hnew : rel ∉ done := by
      intro hin
      rw [h.placed rel hin, hf] at hl
      cases hl
    rw [h.place hd hs hdone hrel hnew] at hl
    exact hr.notSame done rel rels hsplit l hl t h
  · -- no link is involved, so the two files are the same only at the same path
    have habove := noLinkAbove_of_free fun q hq hne => h.free hd hs hr hdone hrel hq hne
    rw [sameFile]
    rcases resolve_of_noLinkAbove true (Clear.plain_append hd.plain_staged (hs.plain rel hrel))
      (noLinkAbove_of_look (by rw [hsource]; simp)) (fun _ l => by rw [hsource]; simp) with hr' | ⟨hr', _⟩
    · rw [hr']
      rcases resolve_of_noLinkAbove true hplace habove (fun _ l hl => hlink ⟨l, hl⟩) with hr'' | ⟨hr'', _⟩
      · rw [hr'']
        have hne : (staged ++ rel == target ++ rel) = false := by
          rw [beq_eq_false_iff_ne]
          intro heq
          exact not_below_staged hd rel rel (heq ▸ List.prefix_refl _)
        dsimp only
        rw [hne, Bool.and_false]
      · rw [hr'']
    · rw [hr']

/-- Directories are made above the place of a file. -/
private theorem Copied.createDirAll (h : Copied t0 target staged done done t) {rel : Rel}
    (hmade : ∀ q, u.look q = t.look q ∨ (t.look q = none ∧ u.look q = some .dir ∧ q <+: target ++ rel))
    (hs : Shipped t0 staged incoming) (hdone : ∀ rel ∈ done, rel ∈ incoming) :
    Copied t0 target staged (done ++ [rel]) done u := by
  refine ⟨?_, ?_, ?_⟩
  · rcases hmade target with hsame | ⟨hnone, -, -⟩
    · rw [hsame, h.root]
    · rw [h.root] at hnone
      cases hnone
  · intro rel' hrel'
    obtain ⟨f, hf⟩ := hs.file rel' (hdone rel' hrel')
    have hplaced := h.placed rel' hrel'
    rcases hmade (target ++ rel') with hsame | ⟨hnone, -, -⟩
    · rw [hsame, hplaced]
    · rw [hplaced, hf] at hnone
      cases hnone
  · intro q hq
    -- a directory above the place is new, or nothing of the pack was there
    have hold := h.other q fun rel' hrel' => hq rel' (List.mem_append_left _ hrel')
    have habove : q <+: target ++ rel → (∃ rel' ∈ done ++ [rel], q <+: target ++ rel') ∨ q <+: target :=
      fun hpre => .inl ⟨rel, List.mem_append_right _ List.mem_cons_self, hpre⟩
    rcases hmade q with hsame | ⟨hnone, hdir, hpre⟩
    · rw [hsame]
      refine hold.imp_right fun ⟨hnone, hdir, hmade⟩ => ⟨hnone, hdir, hmade.imp_left ?_⟩
      exact fun ⟨rel', hrel', hpre⟩ => ⟨rel', List.mem_append_left _ hrel', hpre⟩
    · rcases hold with hsame | ⟨-, hdir', -⟩
      · exact .inr ⟨hsame ▸ hnone, hdir, habove hpre⟩
      · rw [hnone] at hdir'
        cases hdir'

/-- What is in the place of a file, and below it, is removed. -/
private theorem Copied.remove (h : Copied t0 target staged (done ++ [rel]) done t)
    (hs : Shipped t0 staged incoming) (hdone : ∀ rel ∈ done, rel ∈ incoming) (hrel : rel ∈ incoming)
    (hnew : rel ∉ done) (hne : rel ≠ []) (hu : ∀ q, ¬ target ++ rel <+: q → u.look q = t.look q) :
    Copied t0 target staged (done ++ [rel]) done u := by
  refine ⟨?_, ?_, ?_⟩
  · rw [hu target fun hpre => hne (by simpa using hpre.eq_of_length_le (by simp)), h.root]
  · intro rel' hrel'
    rw [hu _ fun hpre => ?_, h.placed rel' hrel']
    have heq := hs.eq_of_below hrel (hdone rel' hrel') ((List.prefix_append_right_inj _).mp hpre)
    exact hnew (heq ▸ hrel')
  · intro q hq
    rw [hu q (hq rel (List.mem_append_right _ List.mem_cons_self))]
    exact h.other q hq

/-- The file is written in its place. -/
private theorem Copied.write (h : Copied t0 target staged (done ++ [rel]) done t) (hne : rel ≠ [])
    (hself : u.look (target ++ rel) = t0.look (staged ++ rel))
    (hu : ∀ q, q ≠ target ++ rel → u.look q = t.look q) :
    Copied t0 target staged (done ++ [rel]) (done ++ [rel]) u := by
  refine ⟨?_, ?_, ?_⟩
  · rw [hu target (by simpa using hne), h.root]
  · intro rel' hrel'
    by_cases heq : rel' = rel
    · rw [heq, hself]
    · rw [hu _ (by simpa using heq)]
      refine h.placed rel' ((List.mem_append.mp hrel').resolve_right fun hlast => heq ?_)
      exact List.mem_singleton.mp hlast
  · intro q hq
    rw [hu q fun heq => hq rel (List.mem_append_right _ List.mem_cons_self) (heq ▸ List.prefix_refl _)]
    exact h.other q hq

/-- What is in the place of a file of the pack gives way, unless it is a file. -/
private theorem Copied.clearPlace (hs : Shipped t0 staged incoming) (hdone : ∀ rel' ∈ done, rel' ∈ incoming)
    {rel : Rel} (hrel : rel ∈ incoming) (hf : t0.look (staged ++ rel) = some (.file f)) (hnonempty : rel ≠ [])
    (hplain : ∀ part ∈ target ++ rel, FileTree.plain part = true) (hp : target ++ rel ≠ [])
    (h : Copied t0 target staged (done ++ [rel]) done t)
    (hparent : t.look (target ++ rel).dropLast = some .dir) :
    ∃ u, Copied t0 target staged (done ++ [rel]) done u ∧ u.look (target ++ rel).dropLast = some .dir ∧
      (u.look (target ++ rel) = none ∨ ∃ old, u.look (target ++ rel) = some (.file old)) ∧
      ((t.look (target ++ rel) = some .dir ∧ t.removeDirAll (target ++ rel) = some u) ∨
        (∃ l, t.look (target ++ rel) = some (.link l) ∧ t.removeFile (target ++ rel) = some u) ∨ t = u) := by
  -- A file that is copied already is neither a directory nor a link.
  have hnew : ∀ kind, t.look (target ++ rel) = some kind → (∀ f, kind ≠ .file f) → rel ∉ done := by
    intro kind hkind hnot hin
    rw [h.placed rel hin, hf, Option.some_inj] at hkind
    exact hnot f hkind.symm
  have hdropLast : ¬ target ++ rel <+: (target ++ rel).dropLast := by
    intro hpre
    have hlen := hpre.length_le
    rw [List.length_dropLast] at hlen
    have := List.length_pos_iff.mpr hp
    omega
  cases hlook : t.look (target ++ rel) with
  | none => exact ⟨t, h, hparent, .inl hlook, .inr (.inr rfl)⟩
  | some kind =>
    cases kind with
    | file old => exact ⟨t, h, hparent, .inr ⟨old, hlook⟩, .inr (.inr rfl)⟩
    | dir =>
      obtain ⟨u, hremove, hgone, hother⟩ := removeDirAll_ok hplain hp hlook
      exact ⟨u, h.remove hs hdone hrel (hnew _ hlook (by simp)) hnonempty hother,
        (hother _ hdropLast).trans hparent, .inl (hgone _ (List.prefix_refl _)), .inl ⟨rfl, hremove⟩⟩
    | link l =>
      obtain ⟨u, hremove, hgone, hother⟩ := removeFile_ok hplain hp
        (leaf_eq_some.mpr ⟨hlook, by simp⟩)
      refine ⟨u, h.remove hs hdone hrel (hnew _ hlook (by simp)) hnonempty (fun q hq => hother q ?_), ?_,
        .inl hgone, .inr (.inl ⟨l, rfl, hremove⟩)⟩
      · rintro rfl
        exact hq (List.prefix_refl _)
      · rw [hother _ fun heq => hdropLast (by rw [heq]), hparent]

/-- One file of the pack is put in its place. -/
theorem copyIncoming_cons_runs (hd : Dirs t0 target staged) (hs : Shipped t0 staged incoming)
    (hr : Replaceable t0 target staged incoming baseline) (h : Copied t0 target staged done done t) {rel : Rel}
    {rels : List Rel} (hsplit : incoming = done ++ rel :: rels) :
    ∃ u, Copied t0 target staged (done ++ [rel]) (done ++ [rel]) u ∧
      ∀ v, Runs (copyIncoming noFault target staged rels) u () v →
        Runs (copyIncoming noFault target staged (rel :: rels)) t () v := by
  have hdone : ∀ rel' ∈ done, rel' ∈ incoming := fun rel' hrel' => hsplit ▸ List.mem_append_left _ hrel'
  have hrel : rel ∈ incoming := hsplit ▸ List.mem_append_right _ List.mem_cons_self
  obtain ⟨f, hf⟩ := hs.file rel hrel
  have hnonempty := hs.ne_nil hd hrel
  have hp : target ++ rel ≠ [] := by simp [hd.target_ne]
  have hplain : ∀ part ∈ target ++ rel, FileTree.plain part = true :=
    Clear.plain_append hd.plain_target (hs.plain rel hrel)
  have hfree : ∀ q, q <+: (target ++ rel).dropLast → t.look q = some .dir ∨ t.look q = none := by
    intro q hq
    refine h.free hd hs hr hdone hrel (hq.trans (List.dropLast_prefix _)) fun heq => ?_
    have hlen := hq.length_le
    rw [heq, List.length_dropLast] at hlen
    have := List.length_pos_iff.mpr hp
    omega
  have hroot : t.look [] = some .dir :=
    (hfree [] List.nil_prefix).resolve_right (by simp [FileTree.look, FileTree.get])
  -- The directories above the place.
  obtain ⟨t1, hmake, hparent, hmade⟩ := @createDirAll_ok _ (target ++ rel).dropLast t []
    (fun part hpart => hplain part (List.mem_of_mem_dropLast hpart)) hroot hfree
  rw [List.nil_append] at hparent
  have h1 : Copied t0 target staged (done ++ [rel]) done t1 := h.createDirAll (fun q => (hmade q).imp_right
    fun hnew => ⟨hnew.1, hnew.2.1, hnew.2.2.trans (List.dropLast_prefix _)⟩) hs hdone
  have habove : NoLinkAbove t1 (target ++ rel) := by
    intro q l hq hne hlink
    rcases hmade q with hsame | ⟨-, hdir, -⟩
    · rw [hsame] at hlink
      rcases h.free hd hs hr hdone hrel hq hne with hdir | hnone
      · rw [hdir] at hlink
        cases hlink
      · rw [hnone] at hlink
        cases hlink
    · rw [hdir] at hlink
      cases hlink
  have hlstat : t1.lstat (target ++ rel) = t1.look (target ++ rel) := lstat_of_noLinkAbove hplain habove
  obtain ⟨t2, h2, hparent2, hplace, hclear⟩ := h1.clearPlace hs hdone hrel hf hnonempty hplain hp hparent
  obtain ⟨t3, hwrite, hself, hother⟩ := writeFile_ok f hplain hp hparent2 hplace
  have hcopy : copyFile (staged ++ rel) (target ++ rel) t2 = some t3 := by
    rw [copyFile, readFile_of_look (Clear.plain_append hd.plain_staged (hs.plain rel hrel))
      (h2.source hd hf)]
    exact hwrite
  refine ⟨t3, h2.write hnonempty (hself.trans hf.symm) hother, fun v hv => ?_⟩
  rw [copyIncoming, join_of_plain (hs.plain rel hrel), join_of_plain (hs.plain rel hrel)]
  refine .bind (.probe _ _ _) ?_
  rw [h.sameFile_eq_false hd hs hr hsplit, if_neg Bool.false_ne_true, parent_of_plain hplain]
  refine .bind (.writeOp hmake) (.bind (.probe _ _ _) ?_)
  rw [hlstat]
  have hrest : Runs (do
      writeOp noFault target (copyFile (staged ++ rel) (target ++ rel))
      copyIncoming noFault target staged rels) t2 () v := .bind (.writeOp hcopy) hv
  rcases hclear with ⟨hlook, hremove⟩ | ⟨l, hlook, hremove⟩ | rfl
  · rw [hlook]
    exact .bind (.writeOp hremove) hrest
  · rw [hlook]
    exact .bind (.writeOp hremove) hrest
  · rcases hplace with hnone | ⟨old, hfile⟩
    · rw [hnone]
      exact hrest
    · rw [hfile]
      exact hrest

/-- The first loop puts the files of the pack in their places. -/
theorem copyIncoming_runs (hd : Dirs t0 target staged) (hs : Shipped t0 staged incoming)
    (hr : Replaceable t0 target staged incoming baseline) (rels : List Rel) :
    ∀ {done : List Rel} {t : Tree}, Copied t0 target staged done done t → incoming = done ++ rels →
      ∃ u, Runs (copyIncoming noFault target staged rels) t () u ∧ Copied t0 target staged incoming incoming u := by
  induction rels with
  | nil =>
    intro done t h hsplit
    rw [List.append_nil] at hsplit
    exact ⟨t, .pure () t, hsplit ▸ h⟩
  | cons rel rels ih =>
    intro done t h hsplit
    obtain ⟨u, hu, hruns⟩ := copyIncoming_cons_runs hd hs hr h hsplit
    obtain ⟨v, hv, hcopied⟩ := ih hu (hsplit.trans (List.append_cons done rel rels))
    exact ⟨v, hruns v hv, hcopied⟩

/-- After the copy no link is at or above what is dropped. -/
theorem Copied.noLinkTo (hd : Dirs t0 target staged) (hs : Shipped t0 staged incoming)
    (hr : Replaceable t0 target staged incoming baseline)
    (h : Copied t0 target staged incoming incoming t) {key : Rel} (hkey : key ∈ baseline)
    (hnew : key ∉ incoming) : NoLinkTo (target ++ key) t := by
  intro q l hq hlink
  -- at or below a file of the pack is no link, and elsewhere the tree is the old one
  by_cases hbelow : ∃ rel ∈ incoming, target ++ rel <+: q
  · obtain ⟨rel, hrel, hpre⟩ := hbelow
    obtain ⟨f, hf⟩ := hs.file rel hrel
    have hplace := (h.placed rel hrel).trans hf
    by_cases heq : target ++ rel = q
    · rw [← heq, hplace] at hlink
      cases hlink
    · rw [look_below (by rw [hplace]; simp) hpre heq] at hlink
      cases hlink
  · rcases h.other q fun rel hrel hpre => hbelow ⟨rel, hrel, hpre⟩ with hsame | ⟨-, hdir, -⟩
    · rw [hsame] at hlink
      rcases List.prefix_or_prefix_of_prefix hq (List.prefix_append target key) with hq' | ⟨r, rfl⟩
      · rcases hd.target_free q hq' with hdir | hnone
        · rw [hdir] at hlink
          cases hlink
        · rw [hnone] at hlink
          cases hlink
      · exact hr.dropped key hkey hnew r l ((List.prefix_append_right_inj _).mp hq) hlink
    · rw [hdir] at hlink
      cases hlink

end Swap

/-! ## The second loop -/

section Drop

variable {t1 t : Tree} {incoming done : List Rel}

/-- While the dropped files are removed: those of `done` that are not incoming are gone, and every other file
    and link is there. -/
structure Dropped (t1 : Tree) (target : List Str) (incoming done : List Rel) (t : Tree) : Prop where
  root : t.look target = some .dir
  gone : ∀ key ∈ done, key ∉ incoming → t.leaf (target ++ key) = none
  kept : ∀ q, (∀ key ∈ done, key ∉ incoming → q ≠ target ++ key) → t.leaf q = t1.leaf q

theorem Dropped.start {t1 : Tree} (hroot : t1.look target = some .dir) (incoming : List Rel) :
    Dropped t1 target incoming [] t1 := ⟨hroot, fun _ h => absurd h List.not_mem_nil, fun _ _ => rfl⟩

/-- Only directories may have gone. -/
def DirsGone (t u : Tree) : Prop := ∀ q, u.look q = t.look q ∨ (t.look q = some .dir ∧ u.look q = none)

theorem DirsGone.leaf {t u : Tree} (h : DirsGone t u) (q : List Str) : u.leaf q = t.leaf q := by
  rcases h q with hsame | ⟨hdir, hnone⟩
  · exact leaf_congr hsame
  · rw [leaf_eq_none.mpr (.inl hnone), leaf_eq_none.mpr (.inr hdir)]

theorem DirsGone.trans {t u v : Tree} (h : DirsGone t u) (h' : DirsGone u v) : DirsGone t v := by
  intro q
  rcases h' q with hsame | ⟨hdir, hnone⟩
  · rw [hsame]
    exact h q
  · rcases h q with hsame | ⟨-, hnone'⟩
    · exact .inr ⟨hsame ▸ hdir, hnone⟩
    · rw [hnone'] at hdir
      cases hdir

/-- Pruning takes away directories below the target only. -/
theorem pruneEmptyAncestors_runs : ∀ (dir : List Str) (t : Tree),
    (∀ part ∈ dir, FileTree.plain part = true) → NoLinkTo dir.reverse t →
    ∃ u, Runs (pruneEmptyAncestors noFault target dir) t () u ∧ DirsGone t u ∧
      u.look target = t.look target
  | [], t, _, _ => ⟨t, .pure () t, fun _ => .inl rfl, rfl⟩
  | name :: above, t, hplain, hfree => by
    rw [pruneEmptyAncestors]
    split
    · exact ⟨t, .pure () t, fun _ => .inl rfl, rfl⟩
    · next hbelow =>
      rw [not_or, not_not] at hbelow
      by_cases hempty : (t.readDir (name :: above).reverse).any List.isEmpty = true
      · rcases Runs.attempt (fun t => t.removeDir (name :: above).reverse) t with
          ⟨u, hu, hruns⟩ | hruns
        · -- the directory that goes is below the target, and not the target
          have hroot : u.look target = t.look target := by
            rw [removeDir] at hu
            rcases resolve_of_noLinkAbove false (fun part hpart => hplain part (List.mem_reverse.mp hpart))
              hfree.above (fun h => absurd h Bool.false_ne_true) with hr | ⟨hr, -⟩
            · rw [hr] at hu
              dsimp only at hu
              split at hu
              · cases hu
                exact look_alter (fun hpre =>
                  hbelow.1 (hpre.eq_of_length_le hbelow.2.length_le)) _ t
              · cases hu
            · rw [hr] at hu
              cases hu
          have hgone : DirsGone t u := look_removeDir hu
          -- no link has come
          have hfree' : NoLinkTo above.reverse u := by
            intro q l hq hlink
            have hleaf : u.leaf q = some (.link l) := leaf_eq_some.mpr ⟨hlink, by simp⟩
            rw [hgone.leaf, leaf_eq_some] at hleaf
            refine hfree q l (hq.trans ?_) hleaf.1
            rw [List.reverse_cons]
            exact List.prefix_append _ _
          obtain ⟨v, hv, hgone', hroot'⟩ := pruneEmptyAncestors_runs above u
            (fun part hpart => hplain part (List.mem_cons_of_mem _ hpart)) hfree'
          refine ⟨v, .bind (.probe _ _ _) ?_, hgone.trans hgone', hroot'.trans hroot⟩
          rw [if_pos hempty]
          exact .bind hruns hv
        · refine ⟨t, .bind (.probe _ _ _) ?_, fun _ => .inl rfl, rfl⟩
          rw [if_pos hempty]
          exact .bind hruns (.pure () t)
      · refine ⟨t, .bind (.probe _ _ _) ?_, fun _ => .inl rfl, rfl⟩
        rw [if_neg hempty]
        exact .pure () t

/-- No link is at or above the path, if there was none before. -/
theorem Dropped.noLinkTo (h : Dropped t1 target incoming done t) {p : List Str} (hp : NoLinkTo p t1) :
    NoLinkTo p t := by
  intro q l hq hlink
  have hleaf : t.leaf q = some (.link l) := leaf_eq_some.mpr ⟨hlink, by simp⟩
  by_cases hgone : ∃ key ∈ done, key ∉ incoming ∧ q = target ++ key
  · obtain ⟨key, hkey, hnew, rfl⟩ := hgone
    rw [h.gone key hkey hnew] at hleaf
    cases hleaf
  · rw [h.kept q fun key hkey hnew heq => hgone ⟨key, hkey, hnew, heq⟩] at hleaf
    exact hp q l hq (leaf_eq_some.mp hleaf).1

/-- One more path, where nothing but directories is left. -/
private theorem Dropped.concat (h : Dropped t1 target incoming done t) {key : Rel} {u : Tree}
    (hroot : u.look target = some .dir)
    (hgone : key ∉ incoming → u.leaf (target ++ key) = none)
    (hkept : ∀ q, (key ∉ incoming → q ≠ target ++ key) → u.leaf q = t.leaf q) :
    Dropped t1 target incoming (done ++ [key]) u := by
  refine ⟨hroot, ?_, ?_⟩
  · intro key' hkey' hnew'
    by_cases heq : key ∉ incoming ∧ target ++ key' = target ++ key
    · rw [heq.2]
      exact hgone heq.1
    · rw [hkept _ fun hnew heq' => heq ⟨hnew, heq'⟩]
      refine h.gone key' ((List.mem_append.mp hkey').resolve_right fun hlast => ?_) hnew'
      obtain rfl := List.mem_singleton.mp hlast
      exact heq ⟨hnew', rfl⟩
  · intro q hq
    rw [hkept q (hq key (List.mem_append_right _ List.mem_cons_self)),
      h.kept q fun key' hkey' => hq key' (List.mem_append_left _ hkey')]

/-- The second loop removes the files that are not incoming, and no other file or link. -/
theorem dropStale_runs (htarget : target ≠ []) (hplain : ∀ part ∈ target, FileTree.plain part = true)
    (keys : List Rel) :
    ∀ {done : List Rel} {t : Tree}, Dropped t1 target incoming done t →
      (∀ key ∈ keys, (∀ part ∈ key, FileTree.plain part = true) ∧
        (key ∉ incoming → NoLinkTo (target ++ key) t1)) →
        ∃ u, Runs (dropStale noFault target incoming keys) t () u ∧
          Dropped t1 target incoming (done ++ keys) u := by
  induction keys with
  | nil =>
    intro done t h _
    rw [List.append_nil]
    exact ⟨t, .pure () t, h⟩
  | cons key keys ih =>
    intro done t h hkeys
    obtain ⟨hkey, hlinks⟩ := hkeys key List.mem_cons_self
    have hrest := fun k hk => hkeys k (List.mem_cons_of_mem _ hk)
    have happend : done ++ key :: keys = (done ++ [key]) ++ keys := by simp
    rw [dropStale, join_of_plain hkey, happend]
    split
    · -- what is incoming stays
      next hin =>
      have hin' : key ∈ incoming := by simpa using hin
      exact ih (h.concat h.root (fun hnew => absurd hin' hnew) fun _ _ => rfl) hrest
    · next hnew =>
      have hnew' : key ∉ incoming := by simpa using hnew
      have hfree := h.noLinkTo (hlinks hnew')
      have hlstat : t.lstat (target ++ key) = t.look (target ++ key) :=
        lstat_of_noLinkAbove (Clear.plain_append hplain hkey) hfree.above
      by_cases hfile : ∃ f, t.look (target ++ key) = some (.file f)
      · obtain ⟨f, hf⟩ := hfile
        obtain ⟨u, hremove, hgone, hother⟩ := removeFile_ok (Clear.plain_append hplain hkey)
          (by simp [htarget]) (leaf_eq_some.mpr ⟨hf, by simp⟩)
        have hparent := parent_of_plain (Clear.plain_append hplain hkey)
        -- the directories above the file are pruned, and none of them is a link
        have hfree' : NoLinkTo (parent (target ++ key)).reverse.reverse u := by
          rw [List.reverse_reverse, hparent]
          intro q l hq hlink
          rcases eq_or_ne q (target ++ key) with rfl | hne
          · rw [hgone] at hlink
            cases hlink
          · rw [hother q hne] at hlink
            exact hfree q l (hq.trans (List.dropLast_prefix _)) hlink
        have hplain' : ∀ part ∈ (parent (target ++ key)).reverse, FileTree.plain part = true := by
          rw [hparent]
          intro part hpart
          exact Clear.plain_append hplain hkey part (List.mem_of_mem_dropLast (List.mem_reverse.mp hpart))
        obtain ⟨v, hprune, hdirs, hroot⟩ := @pruneEmptyAncestors_runs target _ u hplain' hfree'
        have hconcat : Dropped t1 target incoming (done ++ [key]) v := by
          have hne : target ≠ target ++ key := by
            intro heq
            rw [← heq, h.root] at hf
            cases hf
          refine h.concat (by rw [hroot, hother _ hne, h.root]) (fun _ => ?_) fun q hq => ?_
          · rw [hdirs.leaf, leaf_eq_none.mpr (.inl hgone)]
          · rw [hdirs.leaf, leaf_congr (hother q (hq hnew'))]
        obtain ⟨w, hw, hdropped⟩ := ih hconcat hrest
        refine ⟨w, .bind (.probe _ _ _) ?_, hdropped⟩
        rw [hlstat, hf]
        exact .bind (.writeOp hremove) (.bind hprune hw)
      · -- no file is in the place, so there is nothing to remove
        have hnone : t.leaf (target ++ key) = none := by
          cases hlook : t.look (target ++ key) with
          | none => exact leaf_eq_none.mpr (.inl hlook)
          | some kind =>
            cases kind with
            | dir => exact leaf_eq_none.mpr (.inr hlook)
            | file f => exact absurd ⟨f, hlook⟩ hfile
            | link l => exact absurd hlook (hfree _ l (List.prefix_refl _))
        obtain ⟨w, hw, hdropped⟩ := ih (h.concat h.root (fun _ => hnone) fun _ _ => rfl) hrest
        refine ⟨w, .bind (.probe _ _ _) ?_, hdropped⟩
        rw [hlstat]
        split
        · next f hf => exact absurd ⟨f, hf⟩ hfile
        · exact hw

end Drop

/-! ## The swap and the removal -/

/-- The listing of the pack is of its staged files. -/
theorem shipped_of_listing {env : PackEnv} {t0 : Tree} {incoming : List Rel} (hd : Dirs t0 target staged)
    (hincoming : listManagedPaths env t0 staged = some incoming) : Shipped t0 staged incoming := by
  obtain ⟨entries, hget⟩ : ∃ entries, t0.get staged = some (.dir entries) := by
    have hdir := hd.staged_dir
    rw [FileTree.look, Option.map_eq_some_iff] at hdir
    obtain ⟨sub, hsub, hkind⟩ := hdir
    cases sub with
    | dir entries => exact ⟨entries, hsub⟩
    | file f => cases hkind
    | link l => cases hkind
  have hboth : ∀ rel ∈ incoming, (∃ f, t0.look (staged ++ rel) = some (.file f)) ∧
      ∀ part ∈ rel, FileTree.plain part = true := by
    intro rel hrel
    obtain ⟨_, f, hf⟩ := mem_listManagedPaths hd.plain_staged hget hincoming hrel
    obtain ⟨hlook, hplain⟩ := (HasFile.of_get hget hf).look hd.proper
    exact ⟨⟨f, hlook⟩, fun part hpart => hplain part (List.mem_append_right _ hpart)⟩
  exact ⟨fun rel hrel => (hboth rel hrel).2, fun rel hrel => (hboth rel hrel).1⟩

/-- What the paths of a manifest are. -/
def paths (baseline : Option FileManifest) : List Rel := (baseline.getD []).map Prod.fst

/-- The swap replaces exactly the managed files: it succeeds, the files of the pack are in their places,
    dropped files are gone, and every other file and link, anywhere, is as before. -/
def Replaces (env : PackEnv) (t0 : Tree) (target staged : List Str) (incoming : List Rel)
    (baseline : Option FileManifest) : Prop :=
  ∃ t, Runs (swapManagedFiles env noFault target staged baseline) t0 () t ∧
    (∀ rel ∈ incoming, t.look (target ++ rel) = t0.look (staged ++ rel)) ∧
    (∀ key ∈ paths baseline, key ∉ incoming → t.leaf (target ++ key) = none) ∧
    ∀ q, (∀ rel, rel ∈ incoming ∨ rel ∈ paths baseline → q ≠ target ++ rel) → t.leaf q = t0.leaf q

/-- The removal takes away exactly the files of the baseline and what is in the directory of the install
    record. -/
def Removes (t0 : Tree) (target : List Str) (baseline : FileManifest) : Prop :=
  ∃ gone t, Runs (removeManagedFiles noFault target (some baseline)) t0 gone t ∧
    (∀ key ∈ paths (some baseline), t.leaf (target ++ key) = none) ∧
    (∀ q, target ++ [originDir] <+: q → q ≠ target ++ [originDir] → t.leaf q = none) ∧
    ∀ q, (∀ key ∈ paths (some baseline), q ≠ target ++ key) →
      (target ++ [originDir] <+: q → q = target ++ [originDir]) → t.leaf q = t0.leaf q

/-- A swap over free places replaces exactly the managed files. -/
theorem replaces_of_replaceable {env : PackEnv} {t0 : Tree} {incoming : List Rel}
    {baseline : Option FileManifest} (hd : Dirs t0 target staged)
    (hincoming : listManagedPaths env t0 staged = some incoming)
    (hplain : ∀ key ∈ paths baseline, ∀ part ∈ key, FileTree.plain part = true)
    (hr : Replaceable t0 target staged incoming (paths baseline)) :
    Replaces env t0 target staged incoming baseline := by
  have hs := shipped_of_listing hd hincoming
  -- The target is made, if it is not there.
  have hroot : t0.look [] = some .dir :=
    (hd.target_free [] List.nil_prefix).resolve_right (by simp [FileTree.look, FileTree.get])
  obtain ⟨t1, hmake, hdir, hmade⟩ := @createDirAll_ok _ target t0 [] hd.plain_target hroot
    hd.target_free
  have hstart : Copied t0 target staged [] [] t1 :=
    ⟨hdir, fun _ h => absurd h List.not_mem_nil, fun q _ =>
      (hmade q).imp_right fun hnew => ⟨hnew.1, hnew.2.1, .inr hnew.2.2⟩⟩
  have hlisting : listManagedPaths env t1 staged = some incoming := by
    rw [listManagedPaths_congr hd.plain_staged hd.staged_dir hd.ignore, hincoming]
    have habove : NoLinkAbove t0 ([] ++ target) := noLinkAbove_of_free fun q hq _ => hd.target_free q hq
    exact get_createDirAll hd.plain_target habove hmake (by rw [hd.staged_dir]; simp) hd.apart.2
  obtain ⟨t2, hcopy, hcopied⟩ := copyIncoming_runs hd hs hr incoming hstart (List.nil_append incoming).symm
  obtain ⟨t3, hdrop, hdropped⟩ : ∃ t3, Runs (baseline.elim (pure ()) fun baseline =>
      dropStale noFault target incoming (baseline.map Prod.fst)) t2 () t3 ∧ Dropped t2 target incoming (paths baseline) t3 := by
    cases baseline with
    | none => exact ⟨t2, .pure () t2, .start hcopied.root incoming⟩
    | some files =>
      refine dropStale_runs hd.target_ne hd.plain_target (files.map Prod.fst)
        (.start hcopied.root incoming) fun key hkey => ⟨hplain key hkey, fun hnew => ?_⟩
      exact hcopied.noLinkTo hd hs hr hkey hnew
  refine ⟨t3, .bind (.writeOp hmake) (.bind (.readOp hlisting) (.bind hcopy ?_)), ?_, hdropped.gone, ?_⟩
  · cases baseline with
    | none => exact hdrop
    | some files => exact hdrop
  · intro rel hrel
    obtain ⟨f, hf⟩ := hs.file rel hrel
    have hplace := hcopied.placed rel hrel
    have hleaf : t3.leaf (target ++ rel) = some (.file f) := by
      rw [hdropped.kept _ fun key _ hnew heq => hnew (List.append_cancel_left heq ▸ hrel)]
      exact leaf_eq_some.mpr ⟨hplace.trans hf, by simp⟩
    rw [(leaf_eq_some.mp hleaf).1, hf]
  · intro q hq
    rw [hdropped.kept q fun key hkey _ => hq key (.inr hkey)]
    by_cases hbelow : ∃ rel ∈ incoming, target ++ rel <+: q
    · -- Below a file there is nothing, and what was there is in the baseline.
      obtain ⟨rel, hrel, hpre⟩ := hbelow
      obtain ⟨f, hf⟩ := hs.file rel hrel
      have hne := hq rel (.inl hrel)
      have hleaf : t2.leaf (target ++ rel) = some (.file f) :=
        leaf_eq_some.mpr ⟨(hcopied.placed rel hrel).trans hf, by simp⟩
      rw [leaf_eq_none.mpr (.inl (look_below_leaf hleaf hpre (Ne.symm hne)))]
      by_contra hsome
      obtain ⟨key, hkey, heq⟩ := hr.managed rel hrel q hpre hne (Ne.symm hsome)
      exact hq key (.inr hkey) heq
    · rcases hcopied.other q fun rel hrel hpre => hbelow ⟨rel, hrel, hpre⟩ with hsame | ⟨hnone, hdir, -⟩
      · exact leaf_congr hsame
      · rw [leaf_eq_none.mpr (.inr hdir), leaf_eq_none.mpr (.inl hnone)]

/-- The record goes with its directory, if that is there. -/
private theorem originDir_gone (hplain : ∀ part ∈ target ++ [originDir], FileTree.plain part = true)
    (hfree : NoLinkTo (target ++ [originDir]) t) (hroot : t.look target = some .dir) :
    ∃ u, ((t.isDir (target ++ [originDir]) = true ∧ t.removeDirAll (target ++ [originDir]) = some u) ∨
        (¬ t.isDir (target ++ [originDir]) = true ∧ t = u)) ∧ u.look target = some .dir ∧
      (∀ q, target ++ [originDir] <+: q → q ≠ target ++ [originDir] → u.leaf q = none) ∧
      ∀ q, (target ++ [originDir] <+: q → q = target ++ [originDir]) → u.leaf q = t.leaf q := by
  have hisDir := isDir_iff hplain hfree.above fun l => hfree _ l (List.prefix_refl _)
  by_cases hthere : t.isDir (target ++ [originDir]) = true
  · have hlook := hisDir.mp hthere
    -- the removal is below the target
    have hnotAbove : ¬ target ++ [originDir] <+: target := by
      intro hpre
      have hlen := hpre.length_le
      rw [List.length_append, List.length_singleton] at hlen
      omega
    obtain ⟨u, hremove, hgone, hother⟩ := removeDirAll_ok hplain (by simp) hlook
    refine ⟨u, .inl ⟨hthere, hremove⟩, (hother _ hnotAbove).trans hroot,
      fun q hq _ => leaf_eq_none.mpr (.inl (hgone q hq)), fun q hq => ?_⟩
    by_cases hpre : target ++ [originDir] <+: q
    · rw [hq hpre, leaf_eq_none.mpr (.inl (hgone _ (List.prefix_refl _))), leaf_eq_none.mpr (.inr hlook)]
    · exact leaf_congr (hother q hpre)
  · have hlook : t.look (target ++ [originDir]) ≠ some .dir := fun hlook => hthere (hisDir.mpr hlook)
    exact ⟨t, .inr ⟨hthere, rfl⟩, hroot,
      fun q hq hne => leaf_eq_none.mpr (.inl (look_below hlook hq (Ne.symm hne))), fun _ _ => rfl⟩

/-- The directory itself goes when it is empty. -/
private theorem removeEmpty_runs (hplain : ∀ part ∈ target, FileTree.plain part = true)
    (hroot : t.look target = some .dir) :
    ∃ empty u, Runs (do
      let entries ← readOp noFault fun t => t.readDir target
      if entries.isEmpty then
        writeOp noFault target fun t => t.removeDir target
      return entries.isEmpty) t empty u ∧ DirsGone t u := by
  obtain ⟨entries, hentries⟩ : ∃ entries, t.get target = some (.dir entries) := by
    rw [FileTree.look, Option.map_eq_some_iff] at hroot
    obtain ⟨sub, hsub, hkind⟩ := hroot
    cases sub with
    | dir entries => exact ⟨entries, hsub⟩
    | file f => cases hkind
    | link l => cases hkind
  have hresolve : ∀ followLast, FileTree.resolve t followLast target = some target := fun followLast => by
    refine (resolve_of_noLinkAbove followLast hplain (noLinkAbove_of_look (by rw [hroot]; simp))
      fun _ l => by rw [hroot]; simp).resolve_right fun h => ?_
    rw [hroot] at h
    cases h.2
  have hread : t.readDir target = some entries := by
    rw [readDir, hresolve, Option.bind_some, hentries]
  by_cases hempty : entries.isEmpty = true
  · obtain rfl := List.isEmpty_iff.mp hempty
    have hremove : t.removeDir target = some (t.alter target none) := by
      rw [removeDir, hresolve]
      dsimp only
      rw [hentries]
    refine ⟨true, _, .bind (.readOp hread) ?_, look_removeDir hremove⟩
    exact .bind (.writeOp hremove) (.pure _ _)
  · refine ⟨entries.isEmpty, t, .bind (.readOp hread) ?_, fun _ => .inl rfl⟩
    rw [if_neg hempty]
    exact .pure _ _

/-- The removal, where no managed path and not the directory of the record is a link or below one. -/
theorem removes_of_noLinkTo {t0 : Tree} {baseline : FileManifest} (htarget : target ≠ [])
    (hplainTarget : ∀ part ∈ target, FileTree.plain part = true) (hdir : t0.look target = some .dir)
    (hplain : ∀ key ∈ paths (some baseline), ∀ part ∈ key, FileTree.plain part = true)
    (hlinks : ∀ key ∈ paths (some baseline), NoLinkTo (target ++ key) t0)
    (horigin : NoLinkTo (target ++ [originDir]) t0) : Removes t0 target baseline := by
  obtain ⟨t1, hdrop, hdropped⟩ := dropStale_runs htarget hplainTarget
    (baseline.map Prod.fst) (Dropped.start hdir []) fun key hkey => ⟨hplain key hkey, fun _ => hlinks key hkey⟩
  rw [List.nil_append] at hdropped
  obtain ⟨t2, hrecord, hroot, hgone, hother⟩ := originDir_gone
    (Clear.plain_append hplainTarget (by decide)) (hdropped.noLinkTo horigin) hdropped.root
  obtain ⟨empty, t3, hfinish, hdirs⟩ := removeEmpty_runs hplainTarget hroot
  have hstat : (t0.stat target).isSome = true := by
    rw [stat_of_noLinkAbove hplainTarget (noLinkAbove_of_look (by rw [hdir]; simp))
      (fun l => by rw [hdir]; simp), hdir]
    rfl
  refine ⟨empty, t3, ?_, fun key hkey => ?_, fun q hq hne => ?_, fun q hq horigin => ?_⟩
  · -- the steps, one after the other
    refine .bind (.probe _ _ _) ?_
    rw [hstat, if_pos rfl]
    refine .bind hdrop (.bind (.probe _ _ _) ?_)
    rcases hrecord with ⟨hthere, hremove⟩ | ⟨hmissing, rfl⟩
    · rw [if_pos hthere]
      exact .bind (.writeOp hremove) hfinish
    · rw [if_neg hmissing]
      exact hfinish
  · rw [hdirs.leaf]
    by_cases hpre : target ++ [originDir] <+: target ++ key → target ++ key = target ++ [originDir]
    · rw [hother _ hpre]
      exact hdropped.gone key hkey (by simp)
    · rw [Classical.not_imp] at hpre
      exact hgone _ hpre.1 hpre.2
  · rw [hdirs.leaf]
    exact hgone q hq hne
  · rw [hdirs.leaf, hother q horigin]
    exact hdropped.kept q fun key hkey _ => hq key hkey

/-! ## When a swap does not replace -/

section Converse

variable {t0 : Tree} {shipped done : List Rel} {q : Rel} {f : PackFile}

/-- A file above the place of a file of the pack stays, while the pack is copied. -/
theorem copyIncoming_keeps_file (hc : Clear t0 target staged shipped)
    (hplace : ∀ rel ∈ shipped, ∀ l, t0.look (target ++ rel) ≠ some (.link l)) {below : Rel} (hbelow : below ∈ shipped)
    (hpre : q <+: below) (hne : q ≠ below) (rels : List Rel) :
    ∀ {done : Rel → Prop}, (∀ r ∈ rels, r ∈ shipped) → (∀ r, done r → r ∈ shipped) →
      Ensures (fun t => Installing t0 target staged shipped done t ∧
          t.look (target ++ q) = some (.file f)) (copyIncoming noFault target staged rels)
        fun _ t => t.look (target ++ q) = some (.file f) := by
  induction rels with
  | nil => exact fun _ _ => .pure fun t h => h.2
  | cons rel rels ih =>
    intro done hrels hdone
    have hrel := hrels rel List.mem_cons_self
    have hapart : ¬ target ++ rel <+: target ++ q := by
      intro h
      have h' : rel <+: below := ((List.prefix_append_right_inj _).mp h).trans hpre
      have heq := hc.eq_of_below hrel hbelow ((List.prefix_append_right_inj _).mpr h')
      subst heq
      exact hne (hpre.eq_of_length_le ((List.prefix_append_right_inj _).mp h).length_le)
    have hrest := @ih (fun r => done r ∨ r = rel) (fun r hr => hrels r (List.mem_cons_of_mem _ hr))
      fun r hr => hr.elim (hdone r) fun heq => heq ▸ hrel
    have hplain := Clear.plain_append hc.plain_target (hc.plain rel hrel)
    have hp : target ++ rel ≠ [] := by simp [hc.target_ne]
    have hlast : ∀ {t}, Installing t0 target staged shipped done t →
        ∀ l, t.look (target ++ rel) ≠ some (.link l) :=
      fun h l hl => hplace rel hrel l (h.links _ l hl)
    have hcopy : Ensures (fun t => Installing t0 target staged shipped done t ∧
        t.look (target ++ q) = some (.file f)) (do
          writeOp noFault target (copyFile (staged ++ rel) (target ++ rel))
          copyIncoming noFault target staged rels) fun _ t => t.look (target ++ q) = some (.file f) := by
      refine .bind (.writeOp fun t u h hu => ⟨h.1.copyFile hc hrel (hlast h.1) hu, ?_⟩) fun _ => hrest
      have habove := (hc.above rel hrel).mono h.1.links
      rw [copyFile, Option.bind_eq_some_iff] at hu
      obtain ⟨content, -, hwrite⟩ := hu
      rw [(look_writeFile hp hplain habove (hlast h.1) hwrite).2 _
        fun heq => hapart (heq ▸ List.prefix_refl _)]
      exact h.2
    rw [copyIncoming, join_of_plain (hc.plain rel hrel), join_of_plain (hc.plain rel hrel)]
    refine .bind (.probe _ _ _) fun same => ?_
    split
    · -- The place of the file would have to be the staged file itself.
      rename_i hsame
      intro w b w' hw hrun
      rw [hsame, sameFile_eq_false hc hw.1.1 hrel (hlast hw.1.1)] at hw
      cases hw.2 with
      | inl hw => cases hw
      | inr hw => cases hw
    · refine .bind (.writeOp (Q := fun t => Installing t0 target staged shipped done t ∧
        t.look (target ++ q) = some (.file f)) fun t u h hu => ⟨h.1.1.createDirAll hu, ?_⟩) fun _ => ?_
      · rcases dirsMade_createDirAll hu (target ++ q) with hsame | ⟨hnone, -⟩
        · rw [hsame, h.1.2]
        · rw [h.1.2] at hnone
          cases hnone
      refine .bind (.probe _ _ _) fun found => ?_
      have hstat : ∀ t, Installing t0 target staged shipped done t →
          t.lstat (target ++ rel) = t.look (target ++ rel) := fun t h =>
        lstat_of_noLinkAbove hplain ((hc.above rel hrel).mono h.links)
      split
      · refine .bind (.writeOp fun t u h hu => ?_) fun _ => hcopy
        rcases h.2 with hdir | hdir
        · rw [hstat t h.1.1] at hdir
          refine ⟨h.1.1.removeDirAll hc hdone hrel hdir.symm hu, ?_⟩
          rw [(look_removeDirAll hp hplain (noLinkAbove_of_look (by rw [← hdir]; simp)) hu).2 _ hapart]
          exact h.1.2
        · cases hdir
      · intro w b w' hw hrun
        rcases hw.2 with hlink | hlink
        · rw [hstat _ hw.1.1] at hlink
          exact absurd hlink.symm (hlast hw.1.1 _)
        · cases hlink
      · exact hcopy.mono (fun _ h => h.1) fun _ _ h => h

/-- No link is at or above the path of a managed file. -/
structure Unlinked (t0 : Tree) (target : List Str) (incoming baseline : List Rel) : Prop where
  incoming : ∀ rel ∈ incoming, NoLinkTo (target ++ rel) t0
  baseline : ∀ key ∈ baseline, NoLinkTo (target ++ key) t0

/-- A swap with a file above the place of one of the pack does not succeed. -/
theorem swap_fails {env : PackEnv} {incoming : List Rel} {baseline : Option FileManifest}
    (hd : Dirs t0 target staged) (hincoming : listManagedPaths env t0 staged = some incoming)
    (hlinks : ∀ rel ∈ incoming, NoLinkTo (target ++ rel) t0) {rel : Rel} (hrel : rel ∈ incoming)
    (hpre : q <+: rel) (hne : q ≠ rel) (hfile : t0.look (target ++ q) = some (.file f)) :
    Ensures (· = t0) (swapManagedFiles env noFault target staged baseline) fun _ _ => False := by
  have hs := shipped_of_listing hd hincoming
  have hc : Clear t0 target staged incoming :=
    { target_ne := hd.target_ne
      plain_target := hd.plain_target
      plain_staged := hd.plain_staged
      apart := hd.apart
      plain := hs.plain
      file := hs.file
      above := fun rel hrel => (hlinks rel hrel).above }
  have hplace : ∀ rel ∈ incoming, ∀ l, t0.look (target ++ rel) ≠ some (.link l) :=
    fun rel hrel l => hlinks rel hrel _ l (List.prefix_refl _)
  refine .bind (Q := fun _ t => (Installing t0 target staged incoming (fun _ => False) t ∧
    t.look (target ++ q) = some (.file f)) ∧ t.get staged = t0.get staged) (.writeOp fun t u h hu => ?_)
    fun _ => .bind (.readOp _ _) fun listed => .bind (Q := fun _ _ => False) ?_ fun _ w _ _ h => h.elim
  · subst h
    refine ⟨⟨(Installing.start _ _ _ _).createDirAll hu, ?_⟩, ?_⟩
    · rcases dirsMade_createDirAll hu (target ++ q) with hsame | ⟨hnone, -⟩
      · rw [hsame, hfile]
      · rw [hfile] at hnone
        cases hnone
    · have habove : NoLinkAbove t ([] ++ target) := noLinkAbove_of_free fun q hq _ => hd.target_free q hq
      exact get_createDirAll hd.plain_target habove hu (by rw [hd.staged_dir]; simp) hd.apart.2
  · intro w b w' hw hrun
    obtain ⟨⟨hstart, hstaged⟩, hlisted⟩ := hw
    rw [listManagedPaths_congr hd.plain_staged hd.staged_dir hd.ignore hstaged, hincoming] at hlisted
    cases hlisted
    -- The file is still there, and the file of the pack is below it.
    have hkeep : w'.tree.look (target ++ q) = some (.file f) :=
      copyIncoming_keeps_file hc hplace hrel hpre hne incoming (fun _ h => h) (fun _ h => h.elim) _ _ _ hstart
        hrun
    have hcopied := copyIncoming_installing hc incoming (fun _ => False) (fun _ h => h) (fun _ h => h.elim)
      hstart.1 (linksTaken_of_noLink hc hplace incoming (fun _ => False) (fun _ h => h) (fun _ h => h.elim) hstart.1)
      hrun
    obtain ⟨content, hcontent⟩ := hs.file rel hrel
    have hplace := hcopied.copied rel (.inr hrel) content hcontent
    rw [look_dir_above ((List.prefix_append_right_inj _).mpr hpre) (by simpa using hne)
      (by rw [hplace]; simp)] at hkeep
    cases hkeep

/-- Where no managed path is a link or below one, a swap replaces exactly the managed files only over free
    places. -/
theorem replaceable_of_replaces {env : PackEnv} {incoming : List Rel} {baseline : Option FileManifest}
    (hd : Dirs t0 target staged) (hincoming : listManagedPaths env t0 staged = some incoming)
    (hu : Unlinked t0 target incoming (paths baseline))
    (h : Replaces env t0 target staged incoming baseline) :
    Replaceable t0 target staged incoming (paths baseline) := by
  have hs := shipped_of_listing hd hincoming
  obtain ⟨t, hruns, hplaced, -, hkept⟩ := h
  refine ⟨fun rel hrel q hq hne => ?_, fun rel hrel q hpre hne hsome => ?_,
    fun done rel rels hsplit l hlink => absurd hlink
      (hu.incoming rel (hsplit ▸ List.mem_append_right _ List.mem_cons_self) _ l (List.prefix_refl _)),
    fun key hkey _ q l hq => hu.baseline key hkey _ l ((List.prefix_append_right_inj _).mpr hq)⟩
  · cases hlook : t0.look (target ++ q) with
    | none => exact .inr rfl
    | some kind =>
      cases kind with
      | dir => exact .inl rfl
      | file f =>
        obtain ⟨m, hm⟩ := hruns 0
        exact (swap_fails hd hincoming hu.incoming hrel hq hne hlook _ _ _ rfl hm).elim
      | link l =>
        exact absurd hlook (hu.incoming rel hrel _ l ((List.prefix_append_right_inj _).mpr hq))
  · by_contra hnot
    obtain ⟨f, hf⟩ := hs.file rel hrel
    have hplace := (hplaced rel hrel).trans hf
    have hleaf : t.leaf q = t0.leaf q := by
      refine hkept q ?_
      rintro rel' (hrel' | hkey) rfl
      · have heq := hs.eq_of_below hrel hrel' ((List.prefix_append_right_inj _).mp hpre)
        exact hne (by rw [heq])
      · exact hnot ⟨rel', hkey, rfl⟩
    rw [leaf_eq_none.mpr (.inl (look_below (by rw [hplace]; simp) hpre (Ne.symm hne)))] at hleaf
    exact hsome hleaf.symm

end Converse

/-- A swap over free places replaces exactly the managed files, and, where no managed path is a link or below
    one, only such a swap does.  The removal takes away the files of the baseline and the install record and
    nothing else, where none of them is a link or below one. -/
theorem managed_files_exact {env : PackEnv} {t0 : Tree} {target staged : List Str} {incoming : List Rel}
    {baseline : FileManifest} (hd : Dirs t0 target staged)
    (hincoming : listManagedPaths env t0 staged = some incoming)
    (hplain : ∀ key ∈ paths (some baseline), ∀ part ∈ key, FileTree.plain part = true) :
    (Replaceable t0 target staged incoming (paths (some baseline)) →
      Replaces env t0 target staged incoming (some baseline)) ∧
    (Unlinked t0 target incoming (paths (some baseline)) →
      Replaces env t0 target staged incoming (some baseline) →
        Replaceable t0 target staged incoming (paths (some baseline))) ∧
    (t0.look target = some .dir → (∀ key ∈ paths (some baseline), NoLinkTo (target ++ key) t0) →
      NoLinkTo (target ++ [originDir]) t0 → Removes t0 target baseline) :=
  ⟨replaces_of_replaceable hd hincoming hplain, replaceable_of_replaces hd hincoming,
    fun hdir hlinks horigin => removes_of_noLinkTo hd.target_ne hd.plain_target hdir hplain hlinks horigin⟩

/-- An upgrade beside a note of the user replaces exactly `SKILL.md`, and the removal takes it away. -/
theorem managed_files_exact_noted :
    Replaces sampleEnv noted.tree skillDir stagedDir [[skillMd]] (some (manifestOf sha1)) ∧
      Removes noted.tree skillDir (manifestOf sha1) := by
  have hlinks : ∀ q l, noted.tree.look q ≠ some (.link l) := look_ne_link (by decide +kernel)
  have hdir : noted.tree.look skillDir = some .dir := by decide +kernel
  have hd : Dirs noted.tree skillDir stagedDir :=
    { target_ne := layout_noted.target_ne
      plain_target := layout_noted.plain_target
      plain_staged := layout_noted.plain_staged
      apart := layout_noted.apart
      target_free := fun q hq => by
        by_cases heq : q = skillDir
        · exact .inl (heq ▸ hdir)
        · exact .inl (look_dir_above hq heq (by rw [hdir]; simp))
      staged_dir := layout_noted.staged_dir
      ignore := hlinks _
      proper := layout_noted.proper }
  have hexact := @managed_files_exact sampleEnv noted.tree skillDir stagedDir [[skillMd]] (manifestOf sha1) hd
    (by decide +kernel) (by decide +kernel)
  refine ⟨hexact.1 ⟨?_, ?_, fun _ _ _ _ l hlink => absurd hlink (hlinks _ l),
    fun _ _ _ _ l _ => hlinks _ l⟩, hexact.2.2 hdir (fun _ _ q l _ => hlinks q l) fun q l _ => hlinks q l⟩
  · intro rel hrel q hq hne
    obtain rfl := List.mem_singleton.mp hrel
    have hnil : q = [] := by
      rcases List.prefix_cons_iff.mp hq with rfl | ⟨r, rfl, hr⟩
      · rfl
      · exact absurd (by rw [List.prefix_nil.mp hr]) hne
    rw [hnil, List.append_nil]
    exact .inl hdir
  · intro rel hrel q hpre hne hsome
    obtain rfl := List.mem_singleton.mp hrel
    have hfile : noted.tree.look (skillDir ++ [skillMd]) = some (.file { bytes := ascii "v1\n" }) := by
      decide +kernel
    exact absurd (leaf_eq_none.mpr (.inl (look_below (by rw [hfile]; simp) hpre (Ne.symm hne)))) hsome

/-- An installed pack with the file `a`, and a staged one with the file `a/b`. -/
def splitting : World :=
  { tree := .dir [("skills".toList, .dir [("deploy-check".toList,
        .dir [(['a'], .file { bytes := ascii "1" })])]),
      ("tmp".toList, .dir [("staged".toList,
        .dir [(['a'], .dir [(['b'], .file { bytes := ascii "2" })])])])] }

/-- Whether the run ended without an error. -/
def succeeded {α : Type} : EStateM.Result IoError World α → Bool
  | .ok _ _ => true
  | .error _ _ => false

/-- A managed path that changes from a file to a directory: the swap fails. -/
theorem swap_file_to_directory :
    ¬ ∀ (env : PackEnv) (t0 : Tree) (target staged : List Str) (incoming : List Rel)
      (baseline : FileManifest), Dirs t0 target staged → listManagedPaths env t0 staged = some incoming →
        (∀ key ∈ paths (some baseline), ∀ part ∈ key, FileTree.plain part = true) →
          Replaces env t0 target staged incoming (some baseline) := by
  intro h
  have hlinks : ∀ q l, splitting.tree.look q ≠ some (.link l) := look_ne_link (by decide +kernel)
  have hdir : splitting.tree.look skillDir = some .dir := by decide +kernel
  have hd : Dirs splitting.tree skillDir stagedDir :=
    { target_ne := by decide
      plain_target := by decide +kernel
      plain_staged := by decide +kernel
      apart := by decide +kernel
      target_free := fun q hq => by
        by_cases heq : q = skillDir
        · exact .inl (heq ▸ hdir)
        · exact .inl (look_dir_above hq heq (by rw [hdir]; simp))
      staged_dir := by decide +kernel
      ignore := hlinks _
      proper := by decide +kernel }
  obtain ⟨t, hruns, -⟩ := h sampleEnv splitting.tree skillDir stagedDir [[['a'], ['b']]]
    [([['a']], { sha256 := sha1, size := 1, mtimeMs := 5, exec := false })] hd (by decide +kernel)
    (by decide +kernel)
  have herror : succeeded (swapManagedFiles sampleEnv noFault skillDir stagedDir
      (some [([['a']], { sha256 := sha1, size := 1, mtimeMs := 5, exec := false })]) splitting)
        = false := by decide +kernel
  obtain ⟨m, hm⟩ := hruns 0
  change swapManagedFiles sampleEnv noFault skillDir stagedDir _ splitting = _ at hm
  rw [hm] at herror
  cases herror

end TeamClu.SkillPack
