import TeamClu.Native.SkillPack

/-!
# A commit that fails

Runs of file operations have two rules: `Keeps` is a property of the tree that a run keeps however
it ends, and `Ensures` is what holds after a run that succeeds.  A snapshot is the target without
its links (`copyTree_yields`), no install puts a link on the way to the target (`install_keeps`),
and so the restore puts the copy of the snapshot in its place: `commit_error` says what a commit
that fails leaves.
-/

namespace TeamClu.SkillPack

open FileTree

variable {β γ : Type}

/-! ## Runs of file operations -/

/-- The file system after a run. -/
def after (x : FileIo β) (w : World) : Tree :=
  match x w with
  | .ok _ w => w.tree
  | .error _ w => w.tree

/-- However it ends, the run keeps it. -/
def Keeps (P : Tree → Prop) (x : FileIo β) : Prop := ∀ w, P w.tree → P (after x w)

/-- What holds after a run that succeeds. -/
def Ensures (P : Tree → Prop) (x : FileIo β) (Q : β → Tree → Prop) : Prop :=
  ∀ w b w', P w.tree → x w = .ok b w' → Q b w'.tree

theorem bind_eq_of_ok {x : FileIo β} {f : β → FileIo γ} {w w' : World} {b : β}
    (h : x w = .ok b w') : (x >>= f) w = f b w' := by
  change EStateM.bind x f w = _
  rw [EStateM.bind, h]

theorem bind_ok {x : FileIo β} {f : β → FileIo γ} {w w' : World} {c : γ}
    (h : (x >>= f) w = .ok c w') :
    ∃ b w1, x w = .ok b w1 ∧ f b w1 = .ok c w' := by
  change EStateM.bind x f w = _ at h
  rw [EStateM.bind] at h
  cases hx : x w with
  | ok b w1 => rw [hx] at h; exact ⟨b, w1, rfl, h⟩
  | error e w1 => rw [hx] at h; cases h

theorem bind_error {x : FileIo β} {f : β → FileIo γ} {w w' : World} {e : IoError}
    (h : (x >>= f) w = .error e w') :
    x w = .error e w' ∨ ∃ b w1, x w = .ok b w1 ∧ f b w1 = .error e w' := by
  change EStateM.bind x f w = _ at h
  rw [EStateM.bind] at h
  cases hx : x w with
  | ok b w1 => rw [hx] at h; exact Or.inr ⟨b, w1, rfl, h⟩
  | error e1 w1 => rw [hx] at h; cases h; exact Or.inl rfl

theorem Keeps.pure (P : Tree → Prop) (b : β) : Keeps P (pure b : FileIo β) := fun _ h => h

theorem Keeps.bind {P : Tree → Prop} {x : FileIo β} {f : β → FileIo γ} (hx : Keeps P x)
    (hf : ∀ b, Keeps P (f b)) : Keeps P (x >>= f) := by
  intro w h
  have h1 := hx w h
  rw [after] at h1
  change P (match EStateM.bind x f w with | .ok _ w => w.tree | .error _ w => w.tree)
  rw [EStateM.bind]
  cases hxw : x w with
  | ok b w1 => rw [hxw] at h1; exact hf b w1 h1
  | error e w1 => rw [hxw] at h1; exact h1

theorem Ensures.bind {P : Tree → Prop} {Q : β → Tree → Prop} {R : γ → Tree → Prop} {x : FileIo β}
    {f : β → FileIo γ} (hx : Ensures P x Q) (hf : ∀ b, Ensures (Q b) (f b) R) :
    Ensures P (x >>= f) R := by
  intro w c w' h hrun
  obtain ⟨b, w1, h1, h2⟩ := bind_ok hrun
  exact hf b w1 c w' (hx w b w1 h h1) h2

theorem Ensures.pure {P : Tree → Prop} {Q : β → Tree → Prop} {b : β} (h : ∀ t, P t → Q b t) :
    Ensures P (pure b : FileIo β) Q := by
  intro w c w' hP hrun
  cases hrun
  exact h _ hP

variable {faults : Faults} {target : List Str}

theorem readOp_ok {f : Tree → Option β} {w w' : World} {b : β} (h : readOp faults f w = .ok b w') :
    f w.tree = some b ∧ w'.tree = w.tree := by
  rw [readOp] at h
  split at h
  · rename_i hf
    cases h
    exact ⟨hf, rfl⟩
  · cases h

theorem after_readOp (f : Tree → Option β) (w : World) : after (readOp faults f) w = w.tree := by
  unfold after readOp
  cases faults w.ops <;> cases f w.tree <;> rfl

theorem probe_run (f : Tree → β) (failed : β) (w : World) :
    ∃ b, probe faults f failed w = .ok b { w with ops := w.ops + 1 } ∧
      (b = f w.tree ∨ faults w.ops ≠ none ∧ b = failed) := by
  unfold probe
  cases h : faults w.ops with
  | none => exact ⟨_, rfl, Or.inl rfl⟩
  | some left => exact ⟨_, rfl, Or.inr ⟨by simp, rfl⟩⟩

theorem after_probe (f : Tree → β) (failed : β) (w : World) :
    after (probe faults f failed) w = w.tree := by
  unfold after probe
  cases faults w.ops <;> rfl

theorem writeOp_ops {f : Tree → Option Tree} {w w' : World} {b : Unit}
    (h : writeOp faults target f w = .ok b w') : w'.ops = w.ops + 1 := by
  rw [writeOp] at h
  split at h
  · cases h
  · split at h
    · cases h
      rfl
    · cases h

theorem writeOp_ok {f : Tree → Option Tree} {w w' : World} {b : Unit}
    (h : writeOp faults target f w = .ok b w') : f w.tree = some w'.tree := by
  rw [writeOp] at h
  split at h
  · cases h
  · split at h
    · rename_i hf
      cases h
      exact hf
    · cases h

theorem Keeps.ensures {P : Tree → Prop} {x : FileIo β} (h : Keeps P x) :
    Ensures P x fun _ => P := by
  intro w b w' hP hrun
  have hkept := h w hP
  rw [after, hrun] at hkept
  exact hkept

theorem Ensures.mono {P P' : Tree → Prop} {Q Q' : β → Tree → Prop} {x : FileIo β}
    (h : Ensures P' x Q')
    (hP : ∀ t, P t → P' t) (hQ : ∀ b t, Q' b t → Q b t) : Ensures P x Q :=
  fun w b w' hw hrun => hQ b _ (h w b w' (hP _ hw) hrun)

/-- The answer of a probe is what is there, or that of a failure. -/
theorem Ensures.probe (P : Tree → Prop) (f : Tree → β) (failed : β) :
    Ensures P (probe faults f failed) fun b t => P t ∧ (b = f t ∨ b = failed) := by
  intro w b w' hP hrun
  obtain ⟨b', hb, hval⟩ := @probe_run _ faults f failed w
  rw [hb] at hrun
  cases hrun
  exact ⟨hP, hval.imp_right And.right⟩

theorem Ensures.writeOp {P Q : Tree → Prop} {f : Tree → Option Tree}
    (hf : ∀ t u, P t → f t = some u → Q u) : Ensures P (writeOp faults target f) fun _ => Q :=
  fun _ _ _ hP hrun => hf _ _ hP (writeOp_ok hrun)

theorem Ensures.readOp (P : Tree → Prop) (f : Tree → Option β) :
    Ensures P (readOp faults f) fun b t => P t ∧ f t = some b := by
  intro w b w' hP hrun
  obtain ⟨hf, htree⟩ := readOp_ok hrun
  rw [htree]
  exact ⟨hP, hf⟩

/-! ## The snapshot -/

/-- The run changes nothing, and if it succeeds it is with this result. -/
def Yields (x : FileIo β) (b : β) : Prop :=
  ∀ w, after x w = w.tree ∧ ∀ c w', x w = .ok c w' → c = b

theorem Yields.pure (b : β) : Yields (Pure.pure b : FileIo β) b :=
  fun _ => ⟨rfl, fun c w' h => by cases h; rfl⟩

theorem Yields.throw (e : IoError) (b : β) : Yields (MonadExcept.throw e : FileIo β) b :=
  fun _ => ⟨rfl, fun c w' h => by cases h⟩

theorem Yields.tick : Yields (tick faults) () :=
  fun w => ⟨after_readOp _ w, fun _ _ _ => rfl⟩

theorem Yields.bind {x : FileIo β} {f : β → FileIo γ} {b : β} {c : γ} (hx : Yields x b)
    (hf : Yields (f b) c) : Yields (x >>= f) c := by
  intro w
  obtain ⟨htree, hres⟩ := hx w
  rw [after] at htree
  constructor
  · change (match EStateM.bind x f w with | .ok _ w => w.tree | .error _ w => w.tree) = _
    rw [EStateM.bind]
    cases hxw : x w with
    | ok b' w1 =>
      rw [hxw] at htree
      rw [hres b' w1 hxw, ← htree]
      exact (hf w1).1
    | error e w1 => rw [hxw] at htree; exact htree
  · intro c' w' h
    obtain ⟨b', w1, h1, h2⟩ := bind_ok h
    rw [hres b' w1 h1] at h2
    exact (hf w1).2 c' w' h2

mutual

/-- A copy is the tree without its links. -/
theorem copyTree_yields : ∀ t : Tree, Yields (copyTree faults t) t.dropLinks
  | .file f => by rw [copyTree]; exacts [.throw _ _, fun _ h => (by cases h)]
  | .link l => by rw [copyTree]; exacts [.throw _ _, fun _ h => (by cases h)]
  | .dir entries => by
    rw [copyTree, dropLinks]
    exact .bind .tick (.bind .tick (.bind (copyEntries_yields entries) (.pure _)))

theorem copyEntries_yields : ∀ entries : List (Str × Tree),
    Yields (copyEntries faults entries) (dropLinksIn entries)
  | [] => by rw [copyEntries]; exact .pure _
  | (name, .link l) :: entries => by
    rw [copyEntries.eq_def, dropLinksIn]
    exact .bind .tick (copyEntries_yields entries)
  | (name, .file f) :: entries => by
    rw [copyEntries.eq_def, dropLinksIn, dropLinks]
    exact .bind .tick (.bind .tick (.bind (copyEntries_yields entries) (.pure _)))
  | (name, .dir below) :: entries => by
    rw [copyEntries.eq_def, dropLinksIn]
    exact .bind .tick (.bind (copyTree_yields (.dir below))
      (.bind (copyEntries_yields entries) (.pure _)))

end

theorem Keeps.readOp (P : Tree → Prop) (f : Tree → Option β) : Keeps P (readOp faults f) :=
  fun w h => by rwa [after_readOp]

theorem Keeps.probe (P : Tree → Prop) (f : Tree → β) (failed : β) :
    Keeps P (probe faults f failed) :=
  fun w h => by rwa [after_probe]

theorem Yields.keeps {x : FileIo β} {b : β} (h : Yields x b) (P : Tree → Prop) : Keeps P x :=
  fun w hP => by rwa [(h w).1]

theorem snapshotTree_keeps (P : Tree → Prop) : Keeps P (snapshotTree faults target) := by
  refine .bind (.probe P _ _) fun there => ?_
  cases there with
  | false => exact .pure P _
  | true =>
    refine .bind (.readOp P _) fun _ => .bind (.readOp P _) fun live => ?_
    exact .bind ((copyTree_yields live).keeps P) fun _ => .pure P _

/-- What the snapshot of a target is, if the test whether the target is there does not fail. -/
theorem snapshotTree_ok {w w' : World} {snapshot : Option Tree} (hthere : faults w.ops = none)
    (h : snapshotTree faults target w = .ok snapshot w') :
    (snapshot = none ∧ w.tree.stat target = none) ∨
      ∃ p live, FileTree.resolve w.tree true target = some p ∧ w.tree.get p = some live ∧
        snapshot = some live.dropLinks := by
  obtain ⟨there, w1, h1, h2⟩ := bind_ok h
  obtain ⟨b, hb, hval⟩ := @probe_run _ faults (fun t => (t.stat target).isSome) false w
  rw [hb] at h1
  cases h1
  obtain rfl := hval.resolve_right fun hf => hf.1 hthere
  cases hs : w.tree.stat target with
  | none =>
    rw [hs] at h2
    cases h2
    exact Or.inl ⟨rfl, rfl⟩
  | some k =>
    rw [hs] at h2
    obtain ⟨_, w2, h3, h4⟩ := bind_ok h2
    obtain ⟨live, w3, h5, h6⟩ := bind_ok h4
    obtain ⟨backup, w4, h7, h8⟩ := bind_ok h6
    cases h8
    obtain ⟨hlive, _⟩ := readOp_ok h5
    rw [(readOp_ok h3).2] at hlive
    cases hr : FileTree.resolve w.tree true target with
    | none => rw [hr] at hlive; cases hlive
    | some p =>
      rw [hr] at hlive
      exact Or.inr ⟨p, live, rfl, hlive, by rw [((copyTree_yields live) w3).2 _ _ h7]⟩

/-! ## The way to the target -/

/-- No link is at the target or on the way to it. -/
def NoLinkTo (target : List Str) (t : Tree) : Prop :=
  ∀ q l, q <+: target → t.look q ≠ some (.link l)

theorem NoLinkTo.above {t : Tree} (h : NoLinkTo target t) : NoLinkAbove t target :=
  fun q l hq _ => h q l hq

theorem NoLinkTo.mono {t u : Tree} (h : NoLinkTo target t) (hu : LinksFrom t u) :
    NoLinkTo target u :=
  fun q l hq hl => h q l hq (hu q l hl)

/-- A directory or nothing is put at the target. -/
private theorem noLinkTo_alter {t : Tree} (h : NoLinkTo target t) (htarget : target ≠ [])
    (left : Option (List (Str × Tree))) : NoLinkTo target (t.alter target (left.map .dir)) := by
  intro q l hq
  by_cases heq : q = target
  · subst heq
    by_cases hdir : t.look q.dropLast = some .dir
    · rw [look, get_alter_self htarget hdir]
      cases left <;> simp [kind]
    · intro hlink
      have hparent := look_parent htarget (t := t.alter q (left.map .dir)) (by rw [hlink]; simp)
      rw [look_alter (fun hpre => ?_)] at hparent
      · exact hdir hparent
      · have hlen := hpre.length_le
        have hpos := List.length_pos_iff.mpr htarget
        rw [List.length_dropLast] at hlen
        omega
  · rw [look_alter fun hpre => heq (List.IsPrefix.eq_of_length_le hq hpre.length_le)]
    exact h q l hq

theorem Keeps.writeOp {f : Tree → Option Tree} (htarget : target ≠ [])
    (hf : ∀ t u, f t = some u → LinksFrom t u) :
    Keeps (NoLinkTo target) (writeOp faults target f) := by
  intro w h
  unfold after SkillPack.writeOp
  cases hfault : faults w.ops with
  | some left => exact noLinkTo_alter h htarget _
  | none =>
    dsimp only
    cases hw : f w.tree with
    | none => exact h
    | some u => exact h.mono (hf _ _ hw)

theorem Keeps.attempt {P : Tree → Prop} {f : Tree → Option Tree}
    (hf : ∀ t u, f t = some u → P t → P u) :
    Keeps P (attempt faults f) := by
  intro w h
  unfold after SkillPack.attempt
  cases faults w.ops with
  | some left => exact h
  | none =>
    cases hw : f w.tree with
    | none => exact h
    | some u => exact hf _ _ hw h

private theorem linksFrom_copyFile {source dest : List Str} {t u : Tree}
    (h : copyFile source dest t = some u) : LinksFrom t u := by
  rw [copyFile] at h
  cases hr : t.readFile source with
  | none => rw [hr] at h; cases h
  | some f => rw [hr] at h; exact linksFrom_writeFile h

/-! ## The install puts no link on the way to the target -/

private theorem pruneEmptyAncestors_keeps : ∀ dir : List Str,
    Keeps (NoLinkTo target) (pruneEmptyAncestors faults target dir)
  | [] => .pure _ _
  | name :: above => by
    rw [pruneEmptyAncestors]
    split
    · exact .pure _ _
    · refine .bind (.probe _ _ _) fun entries => ?_
      split
      · refine .bind (.attempt fun t u hu ht => ht.mono (linksFrom_removeDir hu)) fun removed => ?_
        split
        · exact pruneEmptyAncestors_keeps above
        · exact .pure _ _
      · exact .pure _ _

private theorem dropStale_keeps (htarget : target ≠ []) (incoming : List Rel) : ∀ rels : List Rel,
    Keeps (NoLinkTo target) (dropStale faults target incoming rels)
  | [] => .pure _ _
  | rel :: rels => by
    rw [dropStale]
    split
    · exact dropStale_keeps htarget incoming rels
    · refine .bind (.probe _ _ _) fun found => ?_
      have hrest := dropStale_keeps htarget incoming rels
      split
      · exact .bind (.writeOp htarget fun _ _ => linksFrom_removeFile) fun _ =>
          .bind (pruneEmptyAncestors_keeps _) fun _ => hrest
      · exact hrest

private theorem copyIncoming_keeps (htarget : target ≠ []) (staged : List Str) : ∀ rels : List Rel,
    Keeps (NoLinkTo target) (copyIncoming faults target staged rels)
  | [] => .pure _ _
  | rel :: rels => by
    rw [copyIncoming]
    have hrest := copyIncoming_keeps htarget staged rels
    have hcopy : Keeps (NoLinkTo target) (do
        SkillPack.writeOp faults target (copyFile (join staged rel) (join target rel))
        copyIncoming faults target staged rels) :=
      .bind (.writeOp htarget fun _ _ => linksFrom_copyFile) fun _ => hrest
    refine .bind (.probe _ _ _) fun same => ?_
    split
    · exact hrest
    · refine .bind (.writeOp htarget fun _ _ => linksFrom_createDirAll) fun _ => ?_
      refine .bind (.probe _ _ _) fun found => ?_
      split
      · exact .bind (.writeOp htarget fun _ _ => linksFrom_removeDirAll) fun _ => hcopy
      · exact .bind (.writeOp htarget fun _ _ => linksFrom_removeFile) fun _ => hcopy
      · exact hcopy

theorem install_keeps (env : PackEnv) (htarget : target ≠ []) (staged : List Str)
    (baseline : Option FileManifest) :
    Keeps (NoLinkTo target) (install env faults target staged baseline) := by
  refine .bind (.bind (.writeOp htarget fun _ _ => linksFrom_createDirAll) fun _ => ?_) fun _ => ?_
  · refine .bind (.readOp _ _) fun incoming => .bind (copyIncoming_keeps htarget staged incoming)
      fun _ => ?_
    cases baseline with
    | none => exact .pure _ _
    | some baseline => exact dropStale_keeps htarget incoming _
  · exact .bind (.writeOp htarget fun _ _ => linksFrom_createDirAll) fun _ =>
      .writeOp htarget fun _ _ => linksFrom_copyFile

/-! ## The restore -/

theorem get_none_of_look {t : Tree} {p : List Str} (h : t.look p = none) : t.get p = none :=
  Option.map_eq_none_iff.mp h

private theorem copyBack_ok (htarget : target ≠ []) (hplain : ∀ part ∈ target, plain part = true)
    {backup : Option Tree} {w w' : World} {b : Unit} (hlinks : NoLinkTo target w.tree)
    (hgone : w.tree.look target = none) (h : copyBack (fun _ => none) target backup w = .ok b w') :
    w'.tree.get target = backup.map dropLinks := by
  cases backup with
  | none => cases h; exact get_none_of_look hgone
  | some backup =>
    obtain ⟨_, w1, h1, h2⟩ := bind_ok h
    obtain ⟨copy, w2, h3, h4⟩ := bind_ok h2
    have hmade := writeOp_ok h1
    have hput := writeOp_ok h4
    obtain ⟨htree, hcopy⟩ := @copyTree_yields (fun _ => none) backup w1
    rw [after, h3] at htree
    dsimp only at htree
    rw [hcopy _ _ h3, htree] at hput
    -- The target is a new directory now, and its path leads to itself.
    have hlinks1 : NoLinkTo target w1.tree := hlinks.mono (linksFrom_createDirAll hmade)
    have hlast : ∀ l, w1.tree.look target ≠ some (.link l) :=
      fun l => hlinks1 target l (List.prefix_refl _)
    have hdir : w1.tree.look target = some .dir :=
      look_of_isDir hplain hlinks1.above hlast (isDir_createDirAll hmade)
    rcases resolve_of_noLinkAbove true hplain hlinks1.above (fun _ => hlast) with hr | ⟨_, hn⟩
    · rw [hr] at hput
      rw [← Option.some.inj hput, get_alter_self htarget (look_parent htarget (by rw [hdir]; simp))]
      rfl
    · rw [hdir] at hn; cases hn

/-- After a restore the target is the copy of the snapshot. -/
theorem restoreTree_ok (htarget : target ≠ []) (hplain : ∀ part ∈ target, plain part = true)
    {backup : Option Tree} {w w' : World} {b : Unit} (hlinks : NoLinkTo target w.tree)
    (h : restoreTree (fun _ => none) target backup w = .ok b w') :
    w'.tree.get target = backup.map dropLinks := by
  obtain ⟨there, w1, h1, h2⟩ := bind_ok h
  obtain ⟨b', hb, hval⟩ := @probe_run _ (fun _ => none) (fun t => (t.stat target).isSome) false w
  rw [hb] at h1
  cases h1
  obtain rfl := hval.resolve_right fun hf => hf.1 rfl
  have hlast : ∀ l, w.tree.look target ≠ some (.link l) :=
    fun l => hlinks target l (List.prefix_refl _)
  cases hs : w.tree.stat target with
  | none =>
    rw [hs] at h2
    rw [stat_of_noLinkAbove hplain hlinks.above hlast] at hs
    exact copyBack_ok (w := { w with ops := w.ops + 1 }) htarget hplain hlinks hs h2
  | some k =>
    rw [hs] at h2
    obtain ⟨_, w2, h3, h4⟩ := bind_ok h2
    have hremoved := writeOp_ok h3
    exact copyBack_ok htarget hplain (hlinks.mono (linksFrom_removeDirAll hremoved))
      ((look_removeDirAll htarget hplain hlinks.above hremoved).1 _ (List.prefix_refl _)) h4

/-! ## A commit that fails -/

/-- The target after a commit that fails, up to its links. -/
theorem commit_error (env : PackEnv) {staged : List Str} {w w' : World} {e : IoError}
    (htarget : target ≠ [])
    (hplain : ∀ part ∈ target, plain part = true) (hlinks : NoLinkTo target w.tree)
    (hthere : faults (w.ops + 1) = none)
    (h : commitStagedPack env faults target staged w = .error e w')
    (hrestored : ∀ c r, e ≠ .restoreFailed c r) :
    w'.tree.get target = w.tree.get target ∨
      w'.tree.get target = (w.tree.get target).map dropLinks := by
  obtain ⟨complete, hc, _⟩ := @probe_run _ faults
    (fun t => (t.readFile (originFile staged)).isSome) false w
  rcases bind_error h with h1 | ⟨_, w1, h1, h2⟩
  · rw [hc] at h1; cases h1
  rw [hc] at h1
  cases h1
  cases complete with
  | false => cases h2; exact Or.inl rfl
  | true =>
    have htree : after (snapshotTree faults target) { w with ops := w.ops + 1 } = w.tree :=
      snapshotTree_keeps (fun t => t = w.tree) { w with ops := w.ops + 1 } rfl
    rw [after] at htree
    rcases bind_error h2 with h3 | ⟨snapshot, w2, h3, h4⟩
    · rw [h3] at htree
      exact Or.inl (congrArg (FileTree.get target) htree)
    rw [h3] at htree
    dsimp only at htree
    obtain ⟨baseline, hb, _⟩ := @probe_run _ faults
      (fun t => (readOrigin env t target).bind SkillOrigin.files) none w2
    rcases bind_error h4 with h5 | ⟨_, w3, h5, h6⟩
    · rw [hb] at h5; cases h5
    rw [hb] at h5
    cases h5
    rw [installOrRestore] at h6
    have hkept := @install_keeps faults target env htarget staged baseline
      { w2 with ops := w2.ops + 1 }
      (by rw [← htree] at hlinks; exact hlinks)
    rw [after] at hkept
    cases hi : install env faults target staged baseline { w2 with ops := w2.ops + 1 } with
    | ok _ w4 => rw [hi] at h6; cases h6
    | error e4 w4 =>
      rw [hi] at h6 hkept
      dsimp only at h6
      cases hr : restoreTree (fun _ => none) target snapshot w4 with
      | error r w5 => rw [hr] at h6; cases h6; exact absurd rfl (hrestored _ _)
      | ok _ w5 =>
        rw [hr] at h6
        cases h6
        rw [restoreTree_ok htarget hplain hkept hr]
        have hlast : ∀ l, w.tree.look target ≠ some (.link l) :=
          fun l => hlinks target l (List.prefix_refl _)
        rcases snapshotTree_ok hthere h3 with ⟨rfl, hs⟩ | ⟨p, live, hp, hlive, rfl⟩
        · rw [stat_of_noLinkAbove hplain hlinks.above hlast] at hs
          exact Or.inl (get_none_of_look hs).symm
        · rcases resolve_of_noLinkAbove true hplain hlinks.above (fun _ => hlast) with
            hr' | ⟨hr', _⟩
          · rw [hr'] at hp
            cases hp
            rw [hlive, Option.map_some, Option.map_some, dropLinks_dropLinks]
            exact Or.inr rfl
          · rw [hr'] at hp; cases hp

end TeamClu.SkillPack
