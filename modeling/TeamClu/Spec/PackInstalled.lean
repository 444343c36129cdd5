import TeamClu.Spec.PackCommit

/-!
# What an install leaves

`Installing` is the invariant of an install between its operations: the staged files stay, what is
copied stays, and no other file appears.  It holds where no link is in the way (`Straight`),
whichever operations fail without an error; each pass has its lemma, and `install_ensures` is the
whole.  `commit_whole_or_not` puts this beside what a commit that fails leaves.  A note of the
user keeps the next inspection from being clean, and a commit that fails loses the links of the
target (`commit_not_whole`).
-/

namespace TeamClu.SkillPack

open FileTree

variable {env : PackEnv} {faults : Faults} {target staged : List Str}

/-! ## The listing of a pack -/

mutual

/-- A listed path is that of a file. -/
theorem hasFile_of_walk (ignored : Rel → Bool → Bool) (rel : Rel) : ∀ {t : Tree} {r : Rel},
    r ∈ walk ignored rel t → ∃ q f, r = rel ++ q ∧ HasFile q f t ∧ (rel = [originDir] → q = [])
  | .file f, r, h => by
    rw [walk] at h
    split at h
    · cases h
    · rw [List.mem_singleton.mp h]
      exact ⟨[], f, by simp, .here f, fun _ => rfl⟩
  | .link l, r, h => by rw [walk] at h; cases h
  | .dir entries, r, h => by
    rw [walk] at h
    split at h
    · cases h
    · rename_i hrel
      split at h
      · cases h
      · obtain ⟨name, q, f, hr, hfile, _⟩ := hasFile_of_walkEntries ignored rel h
        exact ⟨name :: q, f, hr, hfile, fun heq => absurd heq hrel⟩

private theorem hasFile_of_walkEntries (ignored : Rel → Bool → Bool) (rel : Rel) :
    ∀ {entries : List (Str × Tree)} {r : Rel}, r ∈ walkEntries ignored rel entries →
      ∃ name q f, r = rel ++ name :: q ∧ HasFile (name :: q) f (.dir entries) ∧
        (rel ++ [name] = [originDir] → q = [])
  | [], r, h => by rw [walkEntries] at h; cases h
  | (name, t) :: entries, r, h => by
    rw [walkEntries, List.mem_append] at h
    rcases h with h | h
    · obtain ⟨q, f, hr, hfile, hbook⟩ := hasFile_of_walk ignored (rel ++ [name]) h
      exact ⟨name, q, f, by simpa using hr, .inside List.mem_cons_self hfile, hbook⟩
    · obtain ⟨n, q, f, hr, hfile, hbook⟩ := hasFile_of_walkEntries ignored rel h
      refine ⟨n, q, f, hr, ?_, hbook⟩
      cases hfile with
      | inside hmem hq => exact .inside (List.mem_cons_of_mem _ hmem) hq

end

/-- `origin.json` in the pack. -/
def originRel : Rel := [originDir, originJson]

/-- Where the listing of a directory reads. -/
theorem listManagedPaths_eq {t : Tree} {dir : List Str} {entries : List (Str × Tree)}
    (hplain : ∀ part ∈ dir, plain part = true) (hget : t.get dir = some (.dir entries)) :
    listManagedPaths env t dir =
      some ((walkEntries (isIgnored env t dir) [] entries).insertionSort fun a b =>
        List.intercalate ['/'] a ≤ List.intercalate ['/'] b) := by
  have hdir : t.look dir = some .dir := by rw [look, hget]; rfl
  have habove : NoLinkAbove t dir := by
    intro q l hq hne hl
    rw [look_dir_above hq hne (by rw [hdir]; simp)] at hl
    cases hl
  rcases resolve_of_noLinkAbove true hplain habove (fun _ l => by rw [hdir]; simp) with
    hr | ⟨_, hn⟩
  · rw [listManagedPaths, readDir, hr, Option.bind_some, hget]
    rfl
  · rw [hdir] at hn; cases hn

/-- A managed path is that of a file, and not that of the origin. -/
theorem mem_listManagedPaths {t : Tree} {dir : List Str} {entries : List (Str × Tree)}
    (hplain : ∀ part ∈ dir, plain part = true) (hget : t.get dir = some (.dir entries))
    {managed : List Rel}
    (h : listManagedPaths env t dir = some managed) {rel : Rel} (hrel : rel ∈ managed) :
    rel ≠ originRel ∧ ∃ f, HasFile rel f (.dir entries) := by
  rw [listManagedPaths_eq hplain hget] at h
  cases h
  rw [List.mem_insertionSort] at hrel
  obtain ⟨name, q, f, rfl, hfile, hbook⟩ := hasFile_of_walkEntries _ _ hrel
  refine ⟨fun heq => ?_, f, hfile⟩
  obtain ⟨rfl, rfl⟩ := List.cons.inj heq
  cases hbook rfl

/-! ## The invariant of an install -/

/-- The two directories are apart, and each path that the pack ships is that of a staged file with
    plain parts, with no link of the target on the way to it. -/
structure Clear (t : Tree) (target staged : List Str) (shipped : List Rel) : Prop where
  target_ne : target ≠ []
  plain_target : ∀ part ∈ target, plain part = true
  plain_staged : ∀ part ∈ staged, plain part = true
  apart : ¬ target <+: staged ∧ ¬ staged <+: target
  plain : ∀ rel ∈ shipped, ∀ part ∈ rel, plain part = true
  file : ∀ rel ∈ shipped, ∃ f, t.look (staged ++ rel) = some (.file f)
  above : ∀ rel ∈ shipped, NoLinkAbove t (target ++ rel)

/-- Between the operations of an install: the staged files are as they were, and so are those that
    are already copied; every other file was there before. -/
structure Installing (t0 : Tree) (target staged : List Str) (shipped : List Rel) (done : Rel → Prop)
    (t : Tree) : Prop where
  links : LinksFrom t0 t
  source : ∀ q f, t0.look (staged ++ q) = some (.file f) → t.look (staged ++ q) = some (.file f)
  copied : ∀ rel, done rel → ∀ f, t0.look (staged ++ rel) = some (.file f) →
    t.look (target ++ rel) = some (.file f)
  files : ∀ q f, HasFile q f t → HasFile q f t0 ∨ ∃ rel ∈ shipped, q = target ++ rel

theorem join_of_plain {rel : Rel} (h : ∀ part ∈ rel, plain part = true) (dir : List Str) :
    join dir rel = dir ++ rel := by
  cases rel with
  | nil => rfl
  | cons part rest =>
    have hpart := h part List.mem_cons_self
    cases part with
    | nil => cases hpart
    | cons c part => rfl

namespace Clear

variable {t0 : Tree} {shipped : List Rel}

theorem not_below_staged (h : Clear t0 target staged shipped) (rel q : List Str) :
    ¬ target ++ rel <+: staged ++ q := by
  intro hpre
  have h1 : target <+: staged ++ q := (List.prefix_append _ _).trans hpre
  rcases List.prefix_or_prefix_of_prefix h1 (List.prefix_append staged q) with h2 | h2
  · exact h.apart.1 h2
  · exact h.apart.2 h2

/-- One shipped path is not below another. -/
theorem eq_of_below (h : Clear t0 target staged shipped) {rel rel' : Rel} (hrel : rel ∈ shipped)
    (hrel' : rel' ∈ shipped) (hpre : target ++ rel <+: target ++ rel') : rel = rel' := by
  rw [List.prefix_append_right_inj] at hpre
  obtain ⟨f, hf⟩ := h.file rel hrel
  obtain ⟨f', hf'⟩ := h.file rel' hrel'
  by_contra hne
  have hnone := look_below (t := t0) (p := staged ++ rel) (q := staged ++ rel') (by rw [hf]; simp)
    ((List.prefix_append_right_inj _).mpr hpre) (by simpa using hne)
  rw [hf'] at hnone
  cases hnone

theorem plain_append {dir : List Str} (hdir : ∀ part ∈ dir, FileTree.plain part = true) {rel : Rel}
    (hrel : ∀ part ∈ rel, FileTree.plain part = true) :
    ∀ part ∈ dir ++ rel, FileTree.plain part = true := by
  intro part hp
  rcases List.mem_append.mp hp with hp | hp
  · exact hdir part hp
  · exact hrel part hp

end Clear

/-- What is there leads to itself. -/
theorem noLinkAbove_of_look {t : Tree} {p : List Str} (h : t.look p ≠ none) : NoLinkAbove t p := by
  intro q l hq hne hl
  rw [look_dir_above hq hne h] at hl
  cases hl

theorem readFile_of_look {t : Tree} {p : List Str} (hplain : ∀ part ∈ p, plain part = true)
    {f : PackFile}
    (h : t.look p = some (.file f)) : t.readFile p = some f := by
  rw [readFile, stat_of_noLinkAbove hplain (noLinkAbove_of_look (by rw [h]; simp))
    (by rw [h]; simp), h]

namespace Installing

variable {t0 t u : Tree} {shipped : List Rel} {done : Rel → Prop}

theorem start (t0 : Tree) (target staged : List Str) (shipped : List Rel) :
    Installing t0 target staged shipped (fun _ => False) t0 :=
  ⟨.refl t0, fun _ _ h => h, fun _ h => h.elim, fun _ _ h => Or.inl h⟩

/-- An operation that makes directories. -/
theorem createDirAll (h : Installing t0 target staged shipped done t) {p : List Str}
    (hu : FileTree.createDirAll [] p t = some u) : Installing t0 target staged shipped done u := by
  have hkeep : ∀ {q f}, t.look q = some (FileKind.file f) → u.look q = some (.file f) := by
    intro q f hq
    rcases dirsMade_createDirAll hu q with heq | ⟨hnone, _⟩
    · rw [heq, hq]
    · rw [hq] at hnone; cases hnone
  exact ⟨h.links.trans (linksFrom_createDirAll hu), fun q f hq => hkeep (h.source q f hq),
    fun rel hd f hf => hkeep (h.copied rel hd f hf),
      fun q f hq => h.files q f (hasFile_createDirAll hu hq)⟩

/-- A directory in the place of a shipped file is removed. -/
theorem removeDirAll (hc : Clear t0 target staged shipped)
    (h : Installing t0 target staged shipped done t)
    (hdone : ∀ rel, done rel → rel ∈ shipped) {rel : Rel} (hrel : rel ∈ shipped)
    (hdir : t.look (target ++ rel) = some .dir) (hu : t.removeDirAll (target ++ rel) = some u) :
    Installing t0 target staged shipped done u := by
  have hp : target ++ rel ≠ [] := by simp [hc.target_ne]
  obtain ⟨_, hother⟩ := look_removeDirAll hp (Clear.plain_append hc.plain_target
    (hc.plain rel hrel))
    (noLinkAbove_of_look (by rw [hdir]; simp)) hu
  refine ⟨h.links.trans (linksFrom_removeDirAll hu), fun q f hq => ?_, fun rel' hd f hf => ?_,
    fun q f hq => h.files q f (hasFile_removeDirAll hu hq)⟩
  · rw [hother _ (hc.not_below_staged rel q)]
    exact h.source q f hq
  · rw [hother _ fun hpre => ?_]
    · exact h.copied rel' hd f hf
    · rw [hc.eq_of_below hrel (hdone rel' hd) hpre, h.copied rel' hd f hf] at hdir
      cases hdir

/-- A shipped file is copied, where no link is in its place. -/
theorem copyFile (hc : Clear t0 target staged shipped)
    (h : Installing t0 target staged shipped done t)
    {rel : Rel} (hrel : rel ∈ shipped) (hlast : ∀ l, t.look (target ++ rel) ≠ some (.link l))
    (hu : SkillPack.copyFile (staged ++ rel) (target ++ rel) t = some u) :
    Installing t0 target staged shipped (fun r => done r ∨ r = rel) u := by
  have hp : target ++ rel ≠ [] := by simp [hc.target_ne]
  have hplain := Clear.plain_append hc.plain_target (hc.plain rel hrel)
  have habove := (hc.above rel hrel).mono h.links
  obtain ⟨f0, hf0⟩ := hc.file rel hrel
  rw [SkillPack.copyFile, readFile_of_look (Clear.plain_append hc.plain_staged (hc.plain rel hrel))
    (h.source rel f0 hf0), Option.bind_some] at hu
  obtain ⟨hself, hother⟩ := look_writeFile hp hplain habove hlast hu
  refine ⟨h.links.trans (linksFrom_writeFile hu), fun q f hq => ?_, fun rel' hd f hf => ?_,
    fun q f hq => ?_⟩
  · rw [hother _ fun heq => hc.not_below_staged rel q (heq ▸ List.prefix_refl _)]
    exact h.source q f hq
  · by_cases heq : rel' = rel
    · subst heq
      rw [hself, ← hf0, hf]
    · rw [hother _ (by simpa using heq)]
      exact h.copied rel' (hd.resolve_right heq) f hf
  · rcases hasFile_writeFile hu hq with hold | hnew
    · exact h.files q f hold
    · rcases resolve_of_noLinkAbove true hplain habove (fun _ => hlast) with hr | ⟨hr, _⟩
      · rw [hr] at hnew
        exact Or.inr ⟨rel, hrel, (Option.some.inj hnew).symm⟩
      · rw [hr] at hnew; cases hnew

/-- A file that is not copied is removed. -/
theorem removeFile (hc : Clear t0 target staged shipped)
    (h : Installing t0 target staged shipped done t)
    {key : Rel} (hplain : ∀ part ∈ key, plain part = true) (habove : NoLinkAbove t (target ++ key))
    (hkey : ¬ done key) (hu : t.removeFile (target ++ key) = some u) :
    Installing t0 target staged shipped done u := by
  obtain ⟨_, hother⟩ := look_removeFile (by simp [hc.target_ne])
    (Clear.plain_append hc.plain_target hplain) habove hu
  refine ⟨h.links.trans (linksFrom_removeFile hu), fun q f hq => ?_, fun rel hd f hf => ?_,
    fun q f hq => h.files q f (hasFile_removeFile hu hq)⟩
  · rw [hother _ fun heq => hc.not_below_staged key q (heq ▸ List.prefix_refl _)]
    exact h.source q f hq
  · rw [hother _ fun heq => hkey (by rwa [List.append_cancel_left heq] at hd)]
    exact h.copied rel hd f hf

/-- A directory with nothing in it is removed. -/
theorem removeDir (h : Installing t0 target staged shipped done t) {p : List Str}
    (hu : t.removeDir p = some u) : Installing t0 target staged shipped done u :=
  ⟨h.links.trans (linksFrom_removeDir hu), fun q f hq => look_file_removeDir hu (h.source q f hq),
    fun rel hd f hf => look_file_removeDir hu (h.copied rel hd f hf),
    fun q f hq => h.files q f (hasFile_removeDir hu hq)⟩

end Installing

/-! ## The passes of an install -/

section Passes

variable {t0 : Tree} {shipped : List Rel} {done : Rel → Prop}

/-- With the pack apart from the target, a staged file and its place are not one file, where no link is in
    that place. -/
theorem sameFile_eq_false (hc : Clear t0 target staged shipped) {t : Tree}
    (h : Installing t0 target staged shipped done t) {rel : Rel} (hrel : rel ∈ shipped)
    (hlast : ∀ l, t.look (target ++ rel) ≠ some (.link l)) :
    sameFile (staged ++ rel) (target ++ rel) t = false := by
  obtain ⟨f, hf⟩ := hc.file rel hrel
  have hsource := h.source rel f hf
  rw [sameFile]
  rcases resolve_of_noLinkAbove true (Clear.plain_append hc.plain_staged (hc.plain rel hrel))
    (noLinkAbove_of_look (by rw [hsource]; simp)) (fun _ l => by rw [hsource]; simp) with
    hr | ⟨hr, _⟩
  · rw [hr]
    rcases resolve_of_noLinkAbove true (Clear.plain_append hc.plain_target (hc.plain rel hrel))
      ((hc.above rel hrel).mono h.links) (fun _ => hlast) with hr' | ⟨hr', _⟩
    · rw [hr']
      have hne : (staged ++ rel == target ++ rel) = false := by
        rw [beq_eq_false_iff_ne]
        intro heq
        exact hc.not_below_staged rel rel (heq ▸ List.prefix_refl _)
      dsimp only
      rw [hne, Bool.and_false]
    · rw [hr']
  · rw [hr]

/-- The loop takes the files one by one. -/
theorem copyIncoming_cons (faults : Faults) (target staged : List Str) (rel : Rel) (rels : List Rel) :
    copyIncoming faults target staged (rel :: rels) =
      (copyIncoming faults target staged [rel] >>= fun _ => copyIncoming faults target staged rels) := by
  simp only [copyIncoming, bind_assoc]
  congr 1
  funext same
  cases same with
  | true => simp only [if_true, pure_bind]
  | false =>
    simp only [Bool.false_eq_true, if_false, bind_assoc]
    congr 1
    funext _
    congr 1
    funext found
    split <;> simp only [bind_assoc, pure_bind]

/-- A file goes to a place without a link. -/
private theorem copyIncoming_free (hc : Clear t0 target staged shipped) {rel : Rel}
    (hrel : rel ∈ shipped) (hdone : ∀ r, done r → r ∈ shipped) :
    Ensures (fun t => Installing t0 target staged shipped done t ∧
        ∀ l, t.look (target ++ rel) ≠ some (.link l)) (copyIncoming faults target staged [rel])
      fun _ => Installing t0 target staged shipped fun r => done r ∨ r = rel := by
  have hcopy : Ensures (fun t => Installing t0 target staged shipped done t ∧
      ∀ l, t.look (target ++ rel) ≠ some (.link l)) (do
      writeOp faults target (copyFile (staged ++ rel) (target ++ rel))
      copyIncoming faults target staged [])
      fun _ => Installing t0 target staged shipped fun r => done r ∨ r = rel :=
    .bind (.writeOp fun t u h hu => h.1.copyFile hc hrel h.2 hu) fun _ => .pure fun _ h => h
  rw [copyIncoming, join_of_plain (hc.plain rel hrel), join_of_plain (hc.plain rel hrel)]
  refine .bind (.probe _ _ _) fun same => ?_
  split
  · -- The place of the file would have to be the staged file itself.
    rename_i hsame
    intro w b w' hw hrun
    rw [hsame, sameFile_eq_false hc hw.1.1 hrel hw.1.2] at hw
    cases hw.2 with
    | inl hw => cases hw
    | inr hw => cases hw
  · refine .bind (Q := fun _ t => Installing t0 target staged shipped done t ∧
      ∀ l, t.look (target ++ rel) ≠ some (.link l)) (.writeOp fun t u h hu =>
        ⟨h.1.1.createDirAll hu, fun l hl => h.1.2 l (linksFrom_createDirAll hu _ l hl)⟩) fun _ => ?_
    refine .bind (.probe _ _ _) fun found => ?_
    have hstat : ∀ t, Installing t0 target staged shipped done t →
        t.lstat (target ++ rel) = t.look (target ++ rel) := fun t h =>
      lstat_of_noLinkAbove (Clear.plain_append hc.plain_target (hc.plain rel hrel))
        ((hc.above rel hrel).mono h.links)
    split
    · refine .bind (.writeOp fun t u h hu => ?_) fun _ => hcopy
      rcases h.2 with hdir | hdir
      · rw [hstat t h.1.1] at hdir
        exact ⟨h.1.1.removeDirAll hc hdone hrel hdir.symm hu,
          fun l hl => h.1.2 l (linksFrom_removeDirAll hu _ l hl)⟩
      · cases hdir
    · intro w b w' hw hrun
      rcases hw.2 with hlink | hlink
      · rw [hstat _ hw.1.1] at hlink
        exact absurd hlink.symm (hw.1.2 _)
      · cases hlink
    · exact hcopy.mono (fun _ h => h.1) fun _ _ h => h

/-- A file goes to the place of a link, which is removed. -/
private theorem copyIncoming_link (hc : Clear t0 target staged shipped) {rel : Rel}
    (hrel : rel ∈ shipped) {w w' : World} {b : Unit}
    (h : Installing t0 target staged shipped done w.tree) {l : List Str}
    (hlink : w.tree.look (target ++ rel) = some (.link l))
    (hskipped : sameFile (staged ++ rel) (target ++ rel) w.tree = true → faults w.ops ≠ none)
    (hseen : faults (w.ops + 2) = none)
    (hrun : copyIncoming faults target staged [rel] w = .ok b w') :
    Installing t0 target staged shipped (fun r => done r ∨ r = rel) w'.tree := by
  obtain ⟨f, hf⟩ := hc.file rel hrel
  have hplain := Clear.plain_append hc.plain_target (hc.plain rel hrel)
  rw [copyIncoming, join_of_plain (hc.plain rel hrel), join_of_plain (hc.plain rel hrel)] at hrun
  obtain ⟨same, w1, hprobe, hrun⟩ := bind_ok hrun
  obtain ⟨same', hsame, hval⟩ := @probe_run _ faults (sameFile (staged ++ rel) (target ++ rel)) false w
  obtain ⟨rfl, rfl⟩ : same' = same ∧ { w with ops := w.ops + 1 } = w1 := by
    rw [hsame] at hprobe
    cases hprobe
    exact ⟨rfl, rfl⟩
  have hfalse : same' = false := by
    cases hs : sameFile (staged ++ rel) (target ++ rel) w.tree with
    | false => exact hval.elim (fun heq => heq.trans hs) And.right
    | true =>
      cases hfault : faults w.ops with
      | none => exact absurd hfault (hskipped hs)
      | some left =>
        rw [probe, hfault] at hsame
        cases hsame
        rfl
  subst hfalse
  rw [if_neg (by simp)] at hrun
  obtain ⟨_, w2, hmake, hrun⟩ := bind_ok hrun
  obtain ⟨found, w3, hlook, hrun⟩ := bind_ok hrun
  have hmade := writeOp_ok hmake
  have h2 := h.createDirAll hmade
  have hlink2 : w2.tree.look (target ++ rel) = some (.link l) := by
    rcases dirsMade_createDirAll hmade (target ++ rel) with heq | ⟨hnone, -⟩
    · exact heq.trans hlink
    · rw [hlink] at hnone
      cases hnone
  have habove := (hc.above rel hrel).mono h2.links
  -- The look at the place does not fail, and so it finds the link.
  rw [probe, writeOp_ops hmake, hseen, lstat_of_noLinkAbove hplain habove, hlink2] at hlook
  cases hlook
  obtain ⟨_, w4, hremove, hrun⟩ := bind_ok hrun
  have hnew : ¬ done rel := by
    intro hd
    rw [h.copied rel hd f hf] at hlink
    cases hlink
  have h4 := h2.removeFile hc (hc.plain rel hrel) habove hnew (writeOp_ok hremove)
  have hgone := (look_removeFile (by simp [hc.target_ne]) hplain habove (writeOp_ok hremove)).1
  obtain ⟨_, w5, hcopy, hend⟩ := bind_ok hrun
  cases hend
  exact h4.copyFile hc hrel (by simp [hgone]) (writeOp_ok hcopy)

/-- When the loop comes to a link in the place of a file, it does not take it for the staged file itself, and
    its look at the place does not fail. -/
def LinksTaken (faults : Faults) (target staged : List Str) : List Rel → World → Prop
  | [], _ => True
  | rel :: rels, w =>
    (∀ l, w.tree.look (target ++ rel) = some (.link l) →
      (sameFile (staged ++ rel) (target ++ rel) w.tree = true → faults w.ops ≠ none) ∧
        faults (w.ops + 2) = none) ∧
    ∀ w', copyIncoming faults target staged [rel] w = .ok () w' → LinksTaken faults target staged rels w'

/-- One file of the pack is put in its place. -/
theorem copyIncoming_one (hc : Clear t0 target staged shipped) {rel : Rel} {rels : List Rel}
    (hrel : rel ∈ shipped) (hdone : ∀ r, done r → r ∈ shipped) {w w' : World}
    (h : Installing t0 target staged shipped done w.tree)
    (htaken : LinksTaken faults target staged (rel :: rels) w)
    (hrun : copyIncoming faults target staged [rel] w = .ok () w') :
    Installing t0 target staged shipped (fun r => done r ∨ r = rel) w'.tree := by
  by_cases hlink : ∃ l, w.tree.look (target ++ rel) = some (.link l)
  · obtain ⟨l, hl⟩ := hlink
    obtain ⟨hskipped, hseen⟩ := htaken.1 l hl
    exact copyIncoming_link hc hrel h hl hskipped hseen hrun
  · exact copyIncoming_free hc hrel hdone _ _ _ ⟨h, fun l hl => hlink ⟨l, hl⟩⟩ hrun

/-- The first loop puts the files of the pack in their places. -/
theorem copyIncoming_installing (hc : Clear t0 target staged shipped) :
    ∀ (rels : List Rel) (done : Rel → Prop) {w w' : World},
    (∀ r ∈ rels, r ∈ shipped) → (∀ r, done r → r ∈ shipped) →
    Installing t0 target staged shipped done w.tree → LinksTaken faults target staged rels w →
    copyIncoming faults target staged rels w = .ok () w' →
    Installing t0 target staged shipped (fun r => done r ∨ r ∈ rels) w'.tree
  | [], done, w, w', _, _, h, _, hrun => by
    cases hrun
    simpa using h
  | rel :: rels, done, w, w', hrels, hdone, h, htaken, hrun => by
    have hrel := hrels rel List.mem_cons_self
    rw [copyIncoming_cons] at hrun
    obtain ⟨_, w1, hone, hrest⟩ := bind_ok hrun
    have hnext := copyIncoming_installing hc rels (fun r => done r ∨ r = rel)
      (fun r hr => hrels r (List.mem_cons_of_mem _ hr)) (fun r hr => hr.elim (hdone r) fun heq => heq ▸ hrel)
      (copyIncoming_one hc hrel hdone h htaken hone) (htaken.2 w1 hone) hrest
    simpa only [List.mem_cons, or_assoc] using hnext

/-- Where no place has a link, none is in the way of the loop. -/
theorem linksTaken_of_noLink (hc : Clear t0 target staged shipped)
    (hlast : ∀ rel ∈ shipped, ∀ l, t0.look (target ++ rel) ≠ some (.link l)) :
    ∀ (rels : List Rel) (done : Rel → Prop) {w : World},
    (∀ r ∈ rels, r ∈ shipped) → (∀ r, done r → r ∈ shipped) →
    Installing t0 target staged shipped done w.tree → LinksTaken faults target staged rels w
  | [], _, _, _, _, _ => trivial
  | rel :: rels, done, w, hrels, hdone, h => by
    have hrel := hrels rel List.mem_cons_self
    have hfree : ∀ l, w.tree.look (target ++ rel) ≠ some (.link l) :=
      fun l hl => hlast rel hrel l (h.links _ l hl)
    refine ⟨fun l hl => absurd hl (hfree l), fun w1 hone => ?_⟩
    exact linksTaken_of_noLink hc hlast rels (fun r => done r ∨ r = rel)
      (fun r hr => hrels r (List.mem_cons_of_mem _ hr)) (fun r hr => hr.elim (hdone r) fun heq => heq ▸ hrel)
      (copyIncoming_free hc hrel hdone _ _ _ ⟨h, hfree⟩ hone)

theorem pruneEmptyAncestors_installing : ∀ dir : List Str,
    Keeps (Installing t0 target staged shipped done) (pruneEmptyAncestors faults target dir)
  | [] => .pure _ _
  | name :: above => by
    rw [pruneEmptyAncestors]
    split
    · exact .pure _ _
    · refine .bind (.probe _ _ _) fun entries => ?_
      split
      · refine .bind (.attempt fun t u hu h => h.removeDir hu) fun removed => ?_
        split
        · exact pruneEmptyAncestors_installing above
        · exact .pure _ _
      · exact .pure _ _

theorem dropStale_ensures (hc : Clear t0 target staged shipped) (incoming : List Rel) :
    ∀ keys : List Rel,
    (∀ key ∈ keys, (∀ part ∈ key, plain part = true) ∧ NoLinkAbove t0 (target ++ key)) →
    Ensures (Installing t0 target staged shipped (· ∈ incoming))
      (dropStale faults target incoming keys)
      fun _ => Installing t0 target staged shipped (· ∈ incoming)
  | [], _ => .pure fun _ h => h
  | key :: keys, hkeys => by
    obtain ⟨hplain, habove⟩ := hkeys key List.mem_cons_self
    have hrest := dropStale_ensures hc incoming keys
      fun k hk => hkeys k (List.mem_cons_of_mem _ hk)
    rw [dropStale, join_of_plain hplain]
    split
    · exact hrest
    · rename_i hnew
      refine .bind (.probe _ _ _) fun found => ?_
      split
      · refine .bind (.writeOp fun t u h hu => ?_) fun _ =>
          .bind (pruneEmptyAncestors_installing _).ensures fun _ => hrest
        exact h.1.removeFile hc hplain (habove.mono h.1.links)
          (fun hin => hnew (by simpa using hin)) hu
      · exact hrest.mono (fun _ h => h.1) fun _ _ h => h

end Passes

/-! ## A whole install -/

/-- The directories of a commit in a file system: apart, with plain names, and no link is on the
    way to either. -/
structure Layout (t : Tree) (target staged : List Str) : Prop where
  target_ne : target ≠ []
  plain_target : ∀ part ∈ target, plain part = true
  plain_staged : ∀ part ∈ staged, plain part = true
  apart : ¬ target <+: staged ∧ ¬ staged <+: target
  noLinkTo : NoLinkTo target t
  staged_dir : t.look staged = some .dir
  proper : t.proper = true

/-- On the way of an install there is no link: above the places of the managed files, at and above
    that of the origin, above those of the recorded baseline, whose paths are plain, and at the
    ignore file of the pack.  The origin of the pack is a file in it. -/
structure Straight (env : PackEnv) (t : Tree) (target staged : List Str) (managed : List Rel) :
    Prop where
  origin : ∃ f, t.look (originFile staged) = some (.file f)
  ignore : ∀ l, t.look (staged ++ [ignoreFile]) ≠ some (.link l)
  above : ∀ rel ∈ managed, NoLinkAbove t (target ++ rel)
  place : NoLinkTo (target ++ originRel) t
  baseline : ∀ o ∈ readOrigin env t target, ∀ files ∈ o.files, ∀ e ∈ files,
    (∀ part ∈ e.1, plain part = true) ∧ NoLinkAbove t (target ++ e.1)

section Install

variable {t0 : Tree} {managed : List Rel}

private theorem exists_entries {t : Tree} {p : List Str} (h : t.look p = some .dir) :
    ∃ entries, t.get p = some (.dir entries) := by
  rw [look] at h
  cases hg : t.get p with
  | none => rw [hg] at h; cases h
  | some s =>
    rw [hg] at h
    cases s with
    | dir entries => exact ⟨entries, rfl⟩
    | file f => cases h
    | link l => cases h

/-- The paths that a commit ships are those of staged files with plain parts. -/
theorem clear_of_layout (hl : Layout t0 target staged) (hs : Straight env t0 target staged managed)
    (hmanaged : listManagedPaths env t0 staged = some managed) :
    Clear t0 target staged (managed ++ [originRel]) := by
  obtain ⟨entries, hget⟩ := exists_entries hl.staged_dir
  have hfile : ∀ rel ∈ managed, (∃ f, t0.look (staged ++ rel) = some (.file f)) ∧
      ∀ part ∈ rel, plain part = true := by
    intro rel hrel
    obtain ⟨_, f, hf⟩ := mem_listManagedPaths hl.plain_staged hget hmanaged hrel
    obtain ⟨hlook, hplain⟩ := (HasFile.of_get hget hf).look hl.proper
    exact ⟨⟨f, hlook⟩, fun part hp => hplain part (List.mem_append_right _ hp)⟩
  have hcases : ∀ {motive : Rel → Prop}, (∀ rel ∈ managed, motive rel) → motive originRel →
      ∀ rel ∈ managed ++ [originRel], motive rel := by
    intro motive hm ho rel hrel
    rcases List.mem_append.mp hrel with h | h
    · exact hm rel h
    · rw [List.mem_singleton.mp h]; exact ho
  exact {
    target_ne := hl.target_ne
    plain_target := hl.plain_target
    plain_staged := hl.plain_staged
    apart := hl.apart
    plain := hcases (fun rel hrel => (hfile rel hrel).2) (by decide)
    file := hcases (fun rel hrel => (hfile rel hrel).1) hs.origin
    above := hcases hs.above hs.place.above }

/-- The listing of a pack that stays is the same. -/
theorem listManagedPaths_congr {t u : Tree} {dir : List Str}
    (hplain : ∀ part ∈ dir, plain part = true)
    (hdir : t.look dir = some .dir) (hignore : ∀ l, t.look (dir ++ [ignoreFile]) ≠ some (.link l))
    (hget : u.get dir = t.get dir) : listManagedPaths env u dir = listManagedPaths env t dir := by
  obtain ⟨entries, ht⟩ := exists_entries hdir
  have hlook : ∀ q, u.look (dir ++ q) = t.look (dir ++ q) := fun q => by
    rw [look, look, get_append, get_append, hget]
  have habove : ∀ v : Tree, v.look dir = some .dir → NoLinkAbove v (dir ++ [ignoreFile]) := by
    intro v hv q l hq hne hlink
    rcases List.prefix_concat_iff.mp hq with heq | hq
    · exact hne heq
    · by_cases heq : q = dir
      · rw [heq, hv] at hlink; cases hlink
      · rw [look_dir_above hq heq (by rw [hv]; simp)] at hlink; cases hlink
  have hfile : u.readFile (dir ++ [ignoreFile]) = t.readFile (dir ++ [ignoreFile]) := by
    have hname : ∀ part ∈ [ignoreFile], plain part = true := by decide
    have hplain' := Clear.plain_append hplain hname
    have hu : u.look dir = some .dir := by rw [look, hget, ht]; rfl
    rw [readFile, readFile, stat_of_noLinkAbove hplain' (habove u hu)
      (by rw [hlook]; exact hignore),
      stat_of_noLinkAbove hplain' (habove t hdir) hignore, hlook]
  have hignored : isIgnored env u dir = isIgnored env t dir := by
    funext rel isDir
    rw [isIgnored, isIgnored, hfile]
  rw [listManagedPaths_eq hplain ht, listManagedPaths_eq hplain (hget.trans ht), hignored]

/-- The swap up to its first loop: the target is made and the pack is listed. -/
def listPack (env : PackEnv) (faults : Faults) (target staged : List Str) : FileIo (List Rel) := do
  writeOp faults target (FileTree.createDirAll [] target)
  readOp faults fun t => listManagedPaths env t staged

/-- What the swap has listed, and what it leaves before its first loop. -/
theorem listPack_ensures (hl : Layout t0 target staged) (hs : Straight env t0 target staged managed)
    (hmanaged : listManagedPaths env t0 staged = some managed) :
    Ensures (· = t0) (listPack env faults target staged) fun listed t =>
      listed = managed ∧ Installing t0 target staged (managed ++ [originRel]) (fun _ => False) t := by
  refine .bind (Q := fun _ t => Installing t0 target staged (managed ++ [originRel]) (fun _ => False) t ∧
    t.get staged = t0.get staged) (.writeOp fun t u h hu => ?_) fun _ => ?_
  · subst h
    refine ⟨(Installing.start _ _ _ _).createDirAll hu, ?_⟩
    exact get_createDirAll hl.plain_target hl.noLinkTo.above hu (by rw [hl.staged_dir]; simp) hl.apart.2
  · refine (Ensures.readOp _ _).mono (fun _ h => h) fun listed t h => ⟨?_, h.1.1⟩
    rw [listManagedPaths_congr hl.plain_staged hl.staged_dir hs.ignore h.1.2, hmanaged] at h
    exact (Option.some.inj h.2).symm

/-- An install whose first loop takes the links in its way leaves every shipped file in its place. -/
theorem install_installing (hl : Layout t0 target staged) (hs : Straight env t0 target staged managed)
    (hmanaged : listManagedPaths env t0 staged = some managed) {baseline : Option FileManifest}
    (hbaseline : ∀ files ∈ baseline, ∃ o ∈ readOrigin env t0 target, o.files = some files)
    {w w' : World} (htree : w.tree = t0)
    (htaken : ∀ w1, listPack env faults target staged w = .ok managed w1 →
      LinksTaken faults target staged managed w1)
    (hrun : install env faults target staged baseline w = .ok () w') :
    Installing t0 target staged (managed ++ [originRel]) (· ∈ managed ++ [originRel]) w'.tree := by
  have hc := clear_of_layout hl hs hmanaged
  have hcopyOrigin : Ensures (Installing t0 target staged (managed ++ [originRel]) (· ∈ managed))
      (copyOrigin faults target staged)
      fun _ => Installing t0 target staged (managed ++ [originRel]) (· ∈ managed ++ [originRel]) := by
    refine .bind (.writeOp fun t u h hu => h.createDirAll hu) fun _ => .writeOp fun t u h hu => ?_
    have hput := h.copyFile hc (List.mem_append_right _ List.mem_cons_self)
      (fun l => (hs.place.mono h.links) _ l (List.prefix_refl _)) hu
    simpa only [List.mem_append, List.mem_singleton] using hput
  obtain ⟨_, w4, hswap, horigin⟩ := bind_ok hrun
  refine hcopyOrigin _ _ _ ?_ horigin
  obtain ⟨_, w1, hmake, hswap⟩ := bind_ok hswap
  obtain ⟨listed, w2, hread, hswap⟩ := bind_ok hswap
  obtain ⟨_, w3, hcopy, hdrop⟩ := bind_ok hswap
  have hlist : listPack env faults target staged w = .ok listed w2 := by
    change EStateM.bind _ _ w = _
    rw [EStateM.bind, hmake]
    exact hread
  obtain ⟨rfl, hstart⟩ := listPack_ensures hl hs hmanaged _ _ _ htree hlist
  have hafter := copyIncoming_installing hc listed (fun _ => False)
    (fun r hr => List.mem_append_left _ hr) (fun _ h => h.elim) hstart (htaken w2 hlist) hcopy
  simp only [false_or] at hafter
  cases baseline with
  | none =>
    cases hdrop
    exact hafter
  | some files =>
    obtain ⟨o, ho, hfiles⟩ := hbaseline files rfl
    refine dropStale_ensures hc listed _ (fun key hkey => ?_) _ _ _ hafter hdrop
    obtain ⟨e, he, rfl⟩ := List.mem_map.mp hkey
    exact hs.baseline o ho files hfiles e he

end Install

/-! ## The inspection after an install -/

/-- Clean, or dirty only by files that were in the target before and are not of the pack. -/
def OnlyAdded (before : Tree) (target : List Str) (managed : List Rel) : DirtyState → Prop
  | .clean => True
  | .dirty modified deleted added => modified = [] ∧ deleted = [] ∧ added ≠ [] ∧
    ∀ rel ∈ added, rel ∉ managed ∧ ∃ f, before.look (target ++ rel) = some (.file f)
  | .unmanaged => managed = []

section Inspect

variable {t0 t1 : Tree} {managed : List Rel}

/-- The manifest of the staged files has an entry for each managed path. -/
theorem mem_buildManifestFor (hc : Clear t0 target staged (managed ++ [originRel]))
    (times : Rel → Nat)
    {rel : Rel} (hrel : rel ∈ managed) {f : PackFile}
    (hf : t0.look (staged ++ rel) = some (.file f)) :
    (rel,
      { sha256 := env.sha256 f.bytes, size := f.bytes.length, mtimeMs := times rel, exec := f.exec }) ∈
      buildManifestFor env times t0 staged managed := by
  have hplain := hc.plain rel (List.mem_append_left _ hrel)
  refine List.mem_filterMap.mpr ⟨rel, hrel, ?_⟩
  rw [join_of_plain hplain, lstat_of_noLinkAbove (Clear.plain_append hc.plain_staged hplain)
    (noLinkAbove_of_look (by rw [hf]; simp)), hf]

/-- An entry of the manifest is of a managed file. -/
theorem of_mem_buildManifestFor (hc : Clear t0 target staged (managed ++ [originRel]))
    {times : Rel → Nat}
    {e : Rel × ManagedFile} (he : e ∈ buildManifestFor env times t0 staged managed) :
    e.1 ∈ managed ∧ ∃ f, t0.look (staged ++ e.1) = some (.file f) ∧
      e.2.sha256 = env.sha256 f.bytes ∧ e.2.exec = f.exec := by
  obtain ⟨rel, hrel, hentry⟩ := List.mem_filterMap.mp he
  have hplain := hc.plain rel (List.mem_append_left _ hrel)
  obtain ⟨f, hf⟩ := hc.file rel (List.mem_append_left _ hrel)
  rw [join_of_plain hplain, lstat_of_noLinkAbove (Clear.plain_append hc.plain_staged hplain)
    (noLinkAbove_of_look (by rw [hf]; simp)), hf] at hentry
  cases hentry
  exact ⟨hrel, f, hf, rfl, rfl⟩

/-- A managed file in its place is kept. -/
theorem entryState_eq_kept (hc : Clear t0 target staged (managed ++ [originRel]))
    (h : Installing t0 target staged (managed ++ [originRel]) (· ∈ managed ++ [originRel]) t1)
    {times times' : Rel → Nat} {e : Rel × ManagedFile}
    (he : e ∈ buildManifestFor env times t0 staged managed) :
    entryState env times' t1 target e.1 e.2 = .kept := by
  obtain ⟨hrel, f, hf, hsha, hexec⟩ := of_mem_buildManifestFor hc he
  have hin : e.1 ∈ managed ++ [originRel] := List.mem_append_left _ hrel
  have hplain := hc.plain e.1 hin
  have hplain' := Clear.plain_append hc.plain_target hplain
  have hlook := h.copied e.1 hin f hf
  rw [entryState, join_of_plain hplain, lstat_of_noLinkAbove hplain'
    (noLinkAbove_of_look (by rw [hlook]; simp)),
    hlook, readFile_of_look hplain' hlook]
  simp only [hsha, hexec, ne_eq, not_true_eq_false, if_false, if_true, ite_self]

/-- A listed file that is not in the manifest was in the target before. -/
private theorem added_installed (hl : Layout t0 target staged)
    (hc : Clear t0 target staged (managed ++ [originRel]))
    (h : Installing t0 target staged (managed ++ [originRel]) (· ∈ managed ++ [originRel]) t1)
    {times : Rel → Nat} {rel : Rel}
    (hrel : rel ∈ addedPaths env t1 target (buildManifestFor env times t0 staged managed)) :
    rel ∉ managed ∧ ∃ f, t0.look (target ++ rel) = some (.file f) := by
  have horigin : originRel ∈ managed ++ [originRel] := List.mem_append_right _ List.mem_cons_self
  obtain ⟨f0, hf0⟩ := hc.file originRel horigin
  have hdir : t1.look target = some .dir :=
    look_dir_above (List.prefix_append target originRel) (by simp [originRel])
      (by rw [h.copied _ horigin f0 hf0]; simp)
  obtain ⟨entries, hget⟩ := exists_entries hdir
  have hlist : listManagedPaths env t1 target = some _ := listManagedPaths_eq hl.plain_target hget
  rw [addedPaths, hlist] at hrel
  obtain ⟨hmem, hnew⟩ := List.mem_filter.mp hrel
  obtain ⟨hne, f, hfile⟩ := mem_listManagedPaths hl.plain_target hget hlist hmem
  have hunmanaged : rel ∉ managed := by
    intro hin
    obtain ⟨g, hg⟩ := hc.file rel (List.mem_append_left _ hin)
    have hany : (buildManifestFor env times t0 staged managed).any (fun e => e.1 == rel) = true :=
      List.any_eq_true.mpr ⟨_, mem_buildManifestFor hc times hin hg, beq_self_eq_true rel⟩
    rw [hany] at hnew
    cases hnew
  refine ⟨hunmanaged, ?_⟩
  rcases h.files _ f (HasFile.of_get hget hfile) with hold | ⟨rel', hrel', heq⟩
  · exact ⟨f, (hold.look hl.proper).1⟩
  · rw [List.append_cancel_left heq] at hunmanaged hne
    rcases List.mem_append.mp hrel' with hin | hin
    · exact absurd hin hunmanaged
    · exact absurd (List.mem_singleton.mp hin) hne

theorem inspect_installed (hl : Layout t0 target staged)
    (hs : Straight env t0 target staged managed)
    (hmanaged : listManagedPaths env t0 staged = some managed)
    (h : Installing t0 target staged (managed ++ [originRel]) (· ∈ managed ++ [originRel]) t1)
    (times times' : Rel → Nat) :
    OnlyAdded t0 target managed
      (inspect env times' t1 target (some (buildManifestFor env times t0 staged managed))) := by
  have hc := clear_of_layout hl hs hmanaged
  cases hb : buildManifestFor env times t0 staged managed with
  | nil =>
    cases hm : managed with
    | nil => rfl
    | cons rel rels =>
      subst hm
      obtain ⟨f, hf⟩ := hc.file rel (List.mem_append_left _ List.mem_cons_self)
      have hmem : _ ∈ buildManifestFor env times t0 staged (rel :: rels) :=
        mem_buildManifestFor hc times List.mem_cons_self hf
      rw [hb] at hmem
      cases hmem
  | cons e es =>
    rw [← hb]
    have hfound : ∀ state, state ≠ EntryState.kept →
        (buildManifestFor env times t0 staged managed).filter
          (fun e => entryState env times' t1 target e.1 e.2 = state) = [] := by
      intro state hstate
      refine List.filter_eq_nil_iff.mpr fun e he => ?_
      rw [entryState_eq_kept hc h he]
      simpa using hstate.symm
    rw [inspect]
    · dsimp only
      split
      · trivial
      · rename_i hdirty
        have hmodified := congrArg (List.map Prod.fst) (hfound .modified (by simp))
        have hdeleted := congrArg (List.map Prod.fst) (hfound .deleted (by simp))
        exact ⟨hmodified, hdeleted, fun hnone => hdirty ⟨hmodified, hdeleted, hnone⟩,
          fun rel hrel => added_installed hl hc h hrel⟩
    · intro heq; rw [hb] at heq; cases heq

end Inspect

/-! ## A commit is whole or not at all -/

/-- A commit up to the first loop of the swap. -/
def beforeCopy (env : PackEnv) (faults : Faults) (target staged : List Str) : FileIo (List Rel) := do
  let _ ← probe faults (fun t => (t.readFile (originFile staged)).isSome) false
  let _ ← snapshotTree faults target
  let _ ← probe faults (fun t => (readOrigin env t target).bind SkillOrigin.files) none
  listPack env faults target staged

theorem commit_ok {w w' : World} {b : Unit}
    (h : commitStagedPack env faults target staged w = .ok b w') :
    ∃ w1 baseline, w1.tree = w.tree ∧
      (∀ files ∈ baseline, ∃ o ∈ readOrigin env w.tree target, o.files = some files) ∧
      install env faults target staged baseline w1 = .ok () w' ∧
      beforeCopy env faults target staged w = listPack env faults target staged w1 := by
  obtain ⟨complete, w1, h1, h2⟩ := bind_ok h
  have htree1 := (@Ensures.probe _ faults (fun t => t = w.tree) _ _ w complete w1 rfl h1).1
  -- the staged directory is complete, and the snapshot and the reading of the baseline change nothing
  cases complete with
  | false => cases h2
  | true =>
    obtain ⟨snapshot, w2, h3, h4⟩ := bind_ok h2
    have htree2 := (snapshotTree_keeps (fun t => t = w.tree)).ensures _ _ _ htree1 h3
    obtain ⟨baseline, w3, h5, h6⟩ := bind_ok h4
    obtain ⟨htree3, hbaseline⟩ := @Ensures.probe _ faults (fun t => t = w.tree) _ _ w2 baseline w3
      htree2 h5
    refine ⟨w3, baseline, htree3, fun files hfiles => ?_, ?_, ?_⟩
    · rcases hbaseline with heq | heq
      · rw [heq, htree3] at hfiles
        exact Option.bind_eq_some_iff.mp hfiles
      · rw [heq] at hfiles; cases hfiles
    · rw [installOrRestore] at h6
      cases hi : install env faults target staged baseline w3 with
      | ok _ w4 => rw [hi] at h6; cases h6; rfl
      | error e w4 =>
        rw [hi] at h6
        dsimp only at h6
        split at h6 <;> cases h6
    · rw [beforeCopy, bind_eq_of_ok h1, bind_eq_of_ok h3, bind_eq_of_ok h5]

/-- A commit that fails, with the test of the target answered and the restore successful, leaves
    the target as it was, up to its links.  One that succeeds where no link is on its way, and takes
    those in the places of managed files, leaves the staged origin and every managed file, and an
    inspection finds nothing modified or deleted, and nothing added but older files. -/
theorem commit_whole_or_not (env : PackEnv) (faults : Faults) {target staged : List Str}
    {w w' : World}
    (hl : Layout w.tree target staged) :
    (∀ e, commitStagedPack env faults target staged w = .error e w' → faults (w.ops + 1) = none →
      (∀ c r, e ≠ .restoreFailed c r) →
      (w'.tree.get target).map dropLinks = (w.tree.get target).map dropLinks ∧
      ∀ t, w.tree.get target = some t → t.linkFree = true → w'.tree.get target = some t) ∧
    ∀ managed, commitStagedPack env faults target staged w = .ok () w' →
      listManagedPaths env w.tree staged = some managed →
        Straight env w.tree target staged managed →
        (∀ w1, beforeCopy env faults target staged w = .ok managed w1 →
          LinksTaken faults target staged managed w1) →
      w'.tree.look (originFile target) = w.tree.look (originFile staged) ∧
      (∀ rel ∈ managed, ∃ f, w.tree.look (staged ++ rel) = some (.file f) ∧
        w'.tree.look (target ++ rel) = some (.file f)) ∧
      ∀ o times times', readOrigin env w.tree staged = some o →
        o.files = some (buildManifestFor env times w.tree staged managed) →
        readOrigin env w'.tree target = some o ∧
        OnlyAdded w.tree target managed (inspect env times' w'.tree target o.files) := by
  constructor
  · intro e h hthere hrestored
    rcases commit_error env hl.target_ne hl.plain_target hl.noLinkTo hthere h hrestored with heq |
      heq
    · exact ⟨by rw [heq], fun t ht _ => heq.trans ht⟩
    · refine ⟨?_, fun t ht hfree => ?_⟩
      · rw [heq, Option.map_map]
        congr 1
        funext t
        exact dropLinks_dropLinks t
      · rw [heq, ht, Option.map_some, dropLinks_of_linkFree t hfree]
  · intro managed h hmanaged hs htaken
    obtain ⟨w1, baseline, htree, hbaseline, hinstall, hbefore⟩ := commit_ok h
    have hc := clear_of_layout hl hs hmanaged
    have hend := install_installing hl hs hmanaged hbaseline htree
      (fun w2 hlist => htaken w2 (hbefore.trans hlist)) hinstall
    -- the record is the last file of the pack
    obtain ⟨f, hf⟩ := hs.origin
    have horigin := hend.copied originRel (List.mem_append_right _ List.mem_cons_self) f hf
    refine ⟨horigin.trans hf.symm, fun rel hrel => ?_, fun o times times' ho hfiles => ⟨?_, ?_⟩⟩
    · obtain ⟨g, hg⟩ := hc.file rel (List.mem_append_left _ hrel)
      exact ⟨g, hg, hend.copied rel (List.mem_append_left _ hrel) g hg⟩
    · have hplain : ∀ part ∈ originRel, plain part = true := by decide
      have hstaged : w.tree.readFile (originFile staged) = some f :=
        readFile_of_look (Clear.plain_append hl.plain_staged hplain) hf
      have htarget : w'.tree.readFile (originFile target) = some f :=
        readFile_of_look (Clear.plain_append hl.plain_target hplain) horigin
      rw [readOrigin, hstaged] at ho
      rw [readOrigin, htarget]
      exact ho
    · rw [hfiles]
      exact inspect_installed hl hs hmanaged hend times times'

/-! ### An upgrade of a pack -/

/-- The bytes of an ASCII text. -/
def ascii (text : String) : List UInt8 := text.toList.map fun c => UInt8.ofNat c.toNat

def skillDir : List Str := ["skills".toList, "deploy-check".toList]
def stagedDir : List Str := ["tmp".toList, "staged".toList]
def notes : Str := "NOTES.md".toList

def sha1 : Str :=
  ["2d27fbdf4e8ca207", "afbfa388ca9172fb", "cc6c70e534af2476", "b3b704f87debadcf"].flatMap
    String.toList

def sha2 : Str :=
  ["81db67b6a5702b9b", "68f0016f061c409b", "f3fb16d062fc854d", "1b424bb4e9c28c56"].flatMap
    String.toList

/-- The text of `origin.json` for a version of the pack. -/
def originText (version : String) (sha : Str) : List UInt8 :=
  ["\x7b\"version\":3,", "\"registry\":\"team\",", "\"slug\":\"deploy-check\",",
    "\"installedVersion\":\"",
    version, "\",\"installedAt\":1,", "\"files\":\x7b\"SKILL.md\":\x7b", "\"sha256\":\""].flatMap
      ascii ++
  (sha.map fun c => UInt8.ofNat c.toNat) ++
  ["\",\"size\":3,", "\"mtimeMs\":5,", "\"exec\":false", "\x7d\x7d\x7d"].flatMap ascii

def origin1 : List UInt8 := originText "1" sha1
def origin2 : List UInt8 := originText "2" sha2

def manifestOf (sha : Str) : FileManifest :=
  [([skillMd], { sha256 := sha, size := 3, mtimeMs := 5, exec := false })]

/-- The outside code on these files. -/
def sampleEnv : PackEnv where
  sha256 bytes := if bytes = ascii "v1\n" then sha1 else if bytes = ascii "v2\n" then sha2 else []
  parseOrigin bytes :=
    if bytes = origin1 then some { files := some (manifestOf sha1) }
    else if bytes = origin2 then some { files := some (manifestOf sha2) }
    else none
  matcher _ _ _ := false

/-- A pack directory with more entries. -/
def packTree (body : String) (origin : List UInt8) (more : List (Str × Tree)) : Tree :=
  .dir ([(skillMd, .file { bytes := ascii body }),
    (originDir, .dir [(originJson, .file { bytes := origin })])] ++ more)

/-- The installed first version with more entries, and the staged second one. -/
def upgrade (more stagedMore : List (Str × Tree)) : World :=
  { tree := .dir [("skills".toList, .dir [("deploy-check".toList, packTree "v1\n" origin1 more)]),
      ("tmp".toList, .dir [("staged".toList, packTree "v2\n" origin2 stagedMore)])] }

/-- No operation fails. -/
def noFault : Faults := fun _ => none

/-- One operation fails and changes nothing. -/
def faultAt (n : Nat) : Faults := fun ops =>
  if ops = n then some fun t => match t with
    | some (.dir entries) => some entries
    | _ => none
  else none

/-- An upgrade beside a note of the user. -/
def noted : World := upgrade [(notes, .file { bytes := ascii "mine" })] []

theorem layout_noted : Layout noted.tree skillDir stagedDir where
  target_ne := by decide
  plain_target := by decide +kernel
  plain_staged := by decide +kernel
  apart := by decide +kernel
  noLinkTo := fun q l _ => look_ne_link (by decide +kernel) q l
  staged_dir := by decide +kernel
  proper := by decide +kernel

/-- An upgrade over a link in the place of a managed file. -/
def linked : World :=
  { tree := .dir [("skills".toList, .dir [("deploy-check".toList,
        .dir [(skillMd, .link [notes]), (notes, .file { bytes := ascii "mine" }),
          (originDir, .dir [(originJson, .file { bytes := origin1 })])])]),
      ("tmp".toList, .dir [("staged".toList, packTree "v2\n" origin2 [])])] }

/-- No link leads to what is there and is none. -/
private theorem noLinkTo_of_look {t : Tree} {p : List Str} (h : t.look p ≠ none)
    (hlast : ∀ l, t.look p ≠ some (.link l)) : NoLinkTo p t := by
  intro q l hq
  by_cases heq : q = p
  · exact heq ▸ hlast l
  · rw [look_dir_above hq heq h]
    simp

theorem layout_linked : Layout linked.tree skillDir stagedDir := by
  have hdir : linked.tree.look skillDir = some .dir := by decide +kernel
  exact {
    target_ne := by decide
    plain_target := by decide +kernel
    plain_staged := by decide +kernel
    apart := by decide +kernel
    noLinkTo := noLinkTo_of_look (by rw [hdir]; simp) (fun l => by rw [hdir]; simp)
    staged_dir := by decide +kernel
    proper := by decide +kernel }

theorem straight_linked : Straight sampleEnv linked.tree skillDir stagedDir [[skillMd]] := by
  have hplace : linked.tree.look (skillDir ++ [skillMd]) ≠ none := by decide +kernel
  have horigin : linked.tree.look (skillDir ++ originRel) = some (.file { bytes := origin1 }) := by
    decide +kernel
  have hignore : linked.tree.look (stagedDir ++ [ignoreFile]) = none := by decide +kernel
  refine ⟨⟨{ bytes := origin2 }, by decide +kernel⟩, fun l => by rw [hignore]; simp, fun rel hrel => ?_,
    noLinkTo_of_look (by rw [horigin]; simp) (fun l => by rw [horigin]; simp), ?_⟩
  · rw [List.mem_singleton.mp hrel]
    exact noLinkAbove_of_look hplace
  · have hread : readOrigin sampleEnv linked.tree skillDir = some { files := some (manifestOf sha1) } := by
      decide +kernel
    intro o ho files hfiles e he
    rw [hread] at ho
    cases ho
    cases hfiles
    rw [List.mem_singleton.mp he]
    exact ⟨by decide +kernel, noLinkAbove_of_look hplace⟩

theorem linksTaken_linked {w : World}
    (h : beforeCopy sampleEnv noFault skillDir stagedDir linked = .ok [[skillMd]] w) :
    LinksTaken noFault skillDir stagedDir [[skillMd]] w := by
  have hapart : (match beforeCopy sampleEnv noFault skillDir stagedDir linked with
      | .ok _ w => sameFile (stagedDir ++ [skillMd]) (skillDir ++ [skillMd]) w.tree
      | .error _ _ => false) = false := by decide +kernel
  rw [h] at hapart
  exact ⟨fun l _ => ⟨fun hsame => absurd (hapart.symm.trans hsame) (by simp), rfl⟩, fun _ _ => trivial⟩

/-- The upgrade over a link succeeds beside the note it led to, and the one beside a note fails whole. -/
theorem commit_whole_or_not_noted :
    (∃ w', commitStagedPack sampleEnv noFault skillDir stagedDir linked = .ok () w' ∧
      w'.tree.look (originFile skillDir) = some (.file { bytes := origin2 }) ∧
      w'.tree.look (skillDir ++ [skillMd]) = some (.file { bytes := ascii "v2\n" }) ∧
      OnlyAdded linked.tree skillDir [[skillMd]]
        (inspect sampleEnv (fun _ => 9) w'.tree skillDir (some (manifestOf sha2)))) ∧
    ∃ w', commitStagedPack sampleEnv (faultAt 23) skillDir stagedDir noted = .error .os w' ∧
      w'.tree.get skillDir = noted.tree.get skillDir := by
  constructor
  · have hok : (match commitStagedPack sampleEnv noFault skillDir stagedDir linked with
        | .ok _ _ => true
        | .error _ _ => false) = true := by decide +kernel
    cases h : commitStagedPack sampleEnv noFault skillDir stagedDir linked with
    | error e w' => rw [h] at hok; cases hok
    | ok _ w' =>
      obtain ⟨horigin, hfiles, hinspect⟩ := (commit_whole_or_not sampleEnv noFault layout_linked).2
        [[skillMd]] h (by decide +kernel) straight_linked fun w1 hbefore => linksTaken_linked hbefore
      have hstaged : linked.tree.look (stagedDir ++ [skillMd]) = some (.file { bytes := ascii "v2\n" }) := by
        decide +kernel
      refine ⟨w', rfl, horigin.trans (by decide +kernel), ?_, ?_⟩
      · obtain ⟨f, hf, hput⟩ := hfiles [skillMd] List.mem_cons_self
        rw [hput, ← hstaged, hf]
      · exact (hinspect { files := some (manifestOf sha2) } (fun _ => 5) (fun _ => 9)
          (by decide +kernel) (by decide +kernel)).2
  · have herror : (match commitStagedPack sampleEnv (faultAt 23) skillDir stagedDir noted with
        | .error .os _ => true
        | _ => false) = true := by decide +kernel
    cases h : commitStagedPack sampleEnv (faultAt 23) skillDir stagedDir noted with
    | ok _ w' => rw [h] at herror; cases herror
    | error e w' =>
      rw [h] at herror
      cases e with
      | missingOrigin => cases herror
      | restoreFailed c r => cases herror
      | os =>
        refine ⟨w', rfl, ?_⟩
        cases hget : noted.tree.get skillDir with
        | none =>
          have hsome : (noted.tree.get skillDir).isSome = true := by decide +kernel
          rw [hget] at hsome
          cases hsome
        | some t =>
          have hfree : (noted.tree.get skillDir).all linkFree = true := by decide +kernel
          rw [hget] at hfree
          exact ((commit_whole_or_not sampleEnv (faultAt 23) layout_noted).1 .os h (by decide +kernel)
            (fun c r hne => (by cases hne))).2 t hget hfree

/-- What an inspection finds after a commit that succeeds. -/
def inspected (more stagedMore : List (Str × Tree)) (faults : Faults) : Option DirtyState :=
  match commitStagedPack sampleEnv faults skillDir stagedDir (upgrade more stagedMore) with
  | .ok _ w => some (inspect sampleEnv (fun _ => 9) w.tree skillDir
      ((readOrigin sampleEnv w.tree skillDir).bind SkillOrigin.files))
  | .error _ _ => none

/-- What is at a path of the target after a commit that fails. -/
def leftAt (more stagedMore : List (Str × Tree)) (faults : Faults) (path : List Str) :
    Option (Option (FileKind PackFile)) :=
  match commitStagedPack sampleEnv faults skillDir stagedDir (upgrade more stagedMore) with
  | .ok _ _ => none
  | .error _ w => some (w.tree.look (skillDir ++ path))

/-- What is read at a path of the target after a commit that succeeds. -/
def readAt (more stagedMore : List (Str × Tree)) (path : List Str) : Option PackFile :=
  match commitStagedPack sampleEnv noFault skillDir stagedDir (upgrade more stagedMore) with
  | .ok _ w => w.tree.readFile (skillDir ++ path)
  | .error _ _ => none

/-- An upgrade beside a note of the user succeeds and is not clean; one that fails loses a link;
    one in which only the test of the target fails, and a file is in the way of a directory, loses
    the target; and one through a link from one directory of the pack to another succeeds with one
    file in the place of two. -/
theorem commit_not_whole :
    inspected [(notes, .file { bytes := ascii "mine" })] [] noFault = some
    (.dirty [] [] [[notes]]) ∧
    (upgrade [(notes, .link [skillMd])] []).tree.look (skillDir ++ [notes]) = some
    (.link [skillMd]) ∧
    leftAt [(notes, .link [skillMd])] [] (faultAt 22) [notes] = some none ∧
    leftAt [(notes, .file { bytes := ascii "mine" })]
      [(notes, .dir [(skillMd, .file { bytes := ascii "v2" })])] (faultAt 1) [] = some none ∧
    readAt [(['a'], .link [['b']]), (['b'], .dir [])]
      [(['a'], .dir [(notes, .file { bytes := ascii "a" })]),
        (['b'], .dir [(notes, .file { bytes := ascii "b" })])]
      [['a'], notes] = some { bytes := ascii "b" } := by
  decide +kernel

end TeamClu.SkillPack
