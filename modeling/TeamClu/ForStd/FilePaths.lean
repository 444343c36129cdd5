import TeamClu.ForStd.FileTree

/-!
# Paths and operations of a file system

`resolve` is the walk of a path as the system does it: empty parts and `.` stay, `..` goes up, a
link on the way is followed.  Where no link is on the way a path resolves to itself
(`resolve_of_noLinkAbove`), and what an operation changes is said by `look` (`look_writeFile` and
the others).  No operation makes a link, and only `writeFile` makes a file.
-/

namespace TeamClu

namespace FileTree

variable {α : Type}

/-! ## The walk of a path -/

/-- Where the walk along the parts of a path stops. -/
inductive Stop where
  | found (path : List Str)
  /-- A link, in a directory, with the parts that are left behind it. -/
  | jump (base text rest : List Str)
  | lost

/-- The walk from a directory up to the next link.  A link as the last part is followed if that is
    asked for. -/
def stride (t : FileTree α) (followLast : Bool) : List Str → List Str → Stop
  | done, [] => .found done
  | done, part :: rest =>
    if part = [] ∨ part = ['.'] then stride t followLast done rest
    else if part = ['.', '.'] then stride t followLast done.dropLast rest
    else
      match t.look (done ++ [part]) with
      | some .dir => stride t followLast (done ++ [part]) rest
      | some (.link l) =>
        if rest = [] ∧ followLast = false then .found (done ++ [part]) else .jump done l rest
      | _ => if rest = [] then .found (done ++ [part]) else .lost

/-- The walk of a path that follows at most so many links. -/
def walk (t : FileTree α) (followLast : Bool) : Nat → List Str → List Str → Option (List Str)
  | 0, done, parts =>
    match stride t followLast done parts with
    | .found path => some path
    | _ => none
  | links + 1, done, parts =>
    match stride t followLast done parts with
    | .found path => some path
    | .lost => none
    | .jump _ ([] :: part :: text) rest => walk t followLast links [] (part :: text ++ rest)
    | .jump base text rest => walk t followLast links base (text ++ rest)

/-- The place that a path names, from the root. -/
def resolve (t : FileTree α) (followLast : Bool) (parts : List Str) : Option (List Str) :=
  walk t followLast 40 [] parts

/-- What is at a path, without following a link there. -/
def lstat (t : FileTree α) (parts : List Str) : Option (FileKind α) :=
  (resolve t false parts).bind t.look

/-- What a path leads to. -/
def stat (t : FileTree α) (parts : List Str) : Option (FileKind α) :=
  (resolve t true parts).bind t.look

/-- No link is on the way to a path. -/
def NoLinkAbove (t : FileTree α) (p : List Str) : Prop :=
  ∀ q l, q <+: p → q ≠ p → t.look q ≠ some (.link l)

theorem NoLinkAbove.mono {t u : FileTree α} (h : LinksFrom t u) {p : List Str}
    (hp : NoLinkAbove t p) :
    NoLinkAbove u p := fun q l hq hne hl => hp q l hq hne (h q l hl)

/-- Without a link on the way, a walk arrives, or nothing is there. -/
private theorem stride_of_noLinkAbove {t : FileTree α} {followLast : Bool} {done todo : List Str}
    (hplain : ∀ part ∈ todo, plain part = true) (habove : NoLinkAbove t (done ++ todo))
    (hlast : followLast = true → ∀ l, t.look (done ++ todo) ≠ some (.link l)) :
    stride t followLast done todo = .found (done ++ todo) ∨
      (stride t followLast done todo = .lost ∧ t.look (done ++ todo) = none) := by
  induction todo generalizing done with
  | nil => rw [List.append_nil]; exact Or.inl rfl
  | cons part rest ih =>
    have hpart : plain part = true := hplain part List.mem_cons_self
    simp only [plain, Bool.not_eq_true', Bool.or_eq_false_iff, beq_eq_false_iff_ne] at hpart
    obtain ⟨⟨hp1, hp2⟩, hp3⟩ := hpart
    have hsplit : done ++ part :: rest = (done ++ [part]) ++ rest := by simp
    have hpre : done ++ [part] <+: done ++ part :: rest := hsplit ▸ List.prefix_append _ _
    rw [stride, if_neg (by simp [hp1, hp2]), if_neg hp3]
    -- Only a directory lets the walk go on, and a link stops it only as the last part.
    cases hl : t.look (done ++ [part]) with
    | none =>
      by_cases hr : rest = []
      · subst hr; exact Or.inl rfl
      · refine Or.inr ⟨by simp only [if_neg hr], ?_⟩
        by_contra hne
        have hdir := look_dir_above hpre (by rw [hsplit]; simpa using fun h => hr h) hne
        rw [hl] at hdir; cases hdir
    | some k =>
      cases k with
      | dir =>
        rw [hsplit] at habove hlast ⊢
        exact ih (fun p hp => hplain p (List.mem_cons_of_mem _ hp)) habove hlast
      | file content =>
        by_cases hr : rest = []
        · subst hr; exact Or.inl rfl
        · refine Or.inr ⟨by simp only [if_neg hr], ?_⟩
          by_contra hne
          have hdir := look_dir_above hpre (by rw [hsplit]; simpa using fun h => hr h) hne
          rw [hl] at hdir; cases hdir
      | link l =>
        by_cases hr : rest = []
        · subst hr
          cases followLast with
          | false => exact Or.inl rfl
          | true => exact absurd hl (hlast rfl l)
        · exact absurd hl (habove _ l hpre (by rw [hsplit]; simpa using fun h => hr h))

/-- Without a link on the way a path resolves to itself, or nothing is there. -/
theorem resolve_of_noLinkAbove {t : FileTree α} (followLast : Bool) {p : List Str}
    (hplain : ∀ part ∈ p, plain part = true) (habove : NoLinkAbove t p)
    (hlast : followLast = true → ∀ l, t.look p ≠ some (.link l)) :
    resolve t followLast p = some p ∨ (resolve t followLast p = none ∧ t.look p = none) := by
  rw [resolve, walk]
  rcases @stride_of_noLinkAbove _ t followLast [] p hplain habove hlast with h | ⟨h, hnone⟩
  · rw [h]; exact Or.inl rfl
  · rw [h]; exact Or.inr ⟨rfl, hnone⟩

theorem lstat_of_noLinkAbove {t : FileTree α} {p : List Str}
    (hplain : ∀ part ∈ p, plain part = true)
    (habove : NoLinkAbove t p) : t.lstat p = t.look p := by
  rw [lstat]
  rcases resolve_of_noLinkAbove false hplain habove (fun h => (by cases h)) with h | ⟨h, hnone⟩
  · rw [h]; rfl
  · rw [h, hnone]; rfl

/-- Without a link on the way and at its end, the status of a path is what is there. -/
theorem stat_of_noLinkAbove {t : FileTree α} {p : List Str} (hplain : ∀ part ∈ p, plain part = true)
    (habove : NoLinkAbove t p) (hlast : ∀ l, t.look p ≠ some (.link l)) : t.stat p = t.look p := by
  rw [stat]
  rcases resolve_of_noLinkAbove true hplain habove (fun _ => hlast) with h | ⟨h, hnone⟩
  · rw [h]; rfl
  · rw [h, hnone]; rfl

/-! ## The operations of the file system -/

/-- A directory is at the path. -/
def dirAt (t : FileTree α) (p : List Str) : Bool :=
  match t.look p with
  | some .dir => true
  | _ => false

/-- `mkdir`. -/
def mkdir (t : FileTree α) (parts : List Str) : Option (FileTree α) :=
  match resolve t false parts with
  | some p =>
    if (t.look p).isNone && t.dirAt p.dropLast then some (alter p (some (.dir [])) t) else none
  | none => none

/-- The path is a directory, through links too. -/
def isDir (t : FileTree α) (parts : List Str) : Bool := (resolve t true parts).any t.dirAt

/-- `create_dir_all`: every directory on the way that is missing is made. -/
def createDirAll (done : List Str) : List Str → FileTree α → Option (FileTree α)
  | [], t => if t.isDir done then some t else none
  | part :: rest, t =>
    if t.isDir (done ++ [part]) then createDirAll (done ++ [part]) rest t
    else
      match t.mkdir (done ++ [part]) with
      | some u => createDirAll (done ++ [part]) rest u
      | none => none

/-- `remove_dir_all`: a directory with all that is in it, or a link. -/
def removeDirAll (t : FileTree α) (parts : List Str) : Option (FileTree α) :=
  match resolve t false parts with
  | some p =>
    match t.look p with
    | some .dir | some (.link _) => some (alter p none t)
    | _ => none
  | none => none

/-- `remove_file`: a file or a link. -/
def removeFile (t : FileTree α) (parts : List Str) : Option (FileTree α) :=
  match resolve t false parts with
  | some p =>
    match t.look p with
    | some (.file _) | some (.link _) => some (alter p none t)
    | _ => none
  | none => none

/-- `read_dir`: the entries of a directory. -/
def readDir (t : FileTree α) (parts : List Str) : Option (List (Str × FileTree α)) :=
  match (resolve t true parts).bind fun p => t.get p with
  | some (.dir entries) => some entries
  | _ => none

/-- `remove_dir`: a directory with nothing in it. -/
def removeDir (t : FileTree α) (parts : List Str) : Option (FileTree α) :=
  match resolve t false parts with
  | some p =>
    match t.get p with
    | some (.dir []) => some (alter p none t)
    | _ => none
  | none => none

/-- The file that a path leads to. -/
def readFile (t : FileTree α) (parts : List Str) : Option α :=
  match t.stat parts with
  | some (.file content) => some content
  | _ => none

/-- Writes a file in a directory that is there, over a file or as a new one. -/
def writeFile (t : FileTree α) (parts : List Str) (content : α) : Option (FileTree α) :=
  match resolve t true parts with
  | some p =>
    match t.look p with
    | some (.file _) => some (alter p (some (.file content)) t)
    | none => if t.dirAt p.dropLast then some (alter p (some (.file content)) t) else none
    | _ => none
  | none => none

/-! ## What the operations change -/

theorem dirAt_iff {t : FileTree α} {p : List Str} : t.dirAt p = true ↔ t.look p = some .dir := by
  rw [dirAt]
  split <;> simp_all

private theorem links_none (e : FileTree α) (he : e ∈ (none : Option (FileTree α)))
    (q l : List Str) :
    e.look q ≠ some (.link l) := by cases he

private theorem links_emptyDir (e : FileTree α) (he : e ∈ some (dir ([] : List (Str × FileTree α))))
    (q l : List Str) : e.look q ≠ some (.link l) := by
  cases he
  cases q <;> simp [look, get, kind]

private theorem links_file (content : α) (e : FileTree α) (he : e ∈ some (file content))
    (q l : List Str) :
    e.look q ≠ some (.link l) := by
  cases he
  cases q <;> simp [look, get, kind]

theorem linksFrom_mkdir {t u : FileTree α} {parts : List Str} (h : t.mkdir parts = some u) :
    LinksFrom t u := by
  rw [mkdir] at h
  split at h
  · split at h
    · rw [← Option.some.inj h]; exact linksFrom_alter links_emptyDir _ _
    · cases h
  · cases h

theorem linksFrom_createDirAll {t u : FileTree α} {done rest : List Str}
    (h : createDirAll done rest t = some u) : LinksFrom t u := by
  induction rest generalizing done t with
  | nil =>
    rw [createDirAll] at h
    split at h
    · rw [← Option.some.inj h]; exact .refl t
    · cases h
  | cons part rest ih =>
    rw [createDirAll] at h
    split at h
    · exact ih h
    · split at h
      · rename_i v hv
        exact (linksFrom_mkdir hv).trans (ih h)
      · cases h

theorem linksFrom_removeDirAll {t u : FileTree α} {parts : List Str}
    (h : t.removeDirAll parts = some u) :
    LinksFrom t u := by
  rw [removeDirAll] at h
  split at h
  · split at h
    · rw [← Option.some.inj h]; exact linksFrom_alter links_none _ _
    · rw [← Option.some.inj h]; exact linksFrom_alter links_none _ _
    · cases h
  · cases h

theorem linksFrom_removeFile {t u : FileTree α} {parts : List Str}
    (h : t.removeFile parts = some u) :
    LinksFrom t u := by
  rw [removeFile] at h
  split at h
  · split at h
    · rw [← Option.some.inj h]; exact linksFrom_alter links_none _ _
    · rw [← Option.some.inj h]; exact linksFrom_alter links_none _ _
    · cases h
  · cases h

theorem linksFrom_removeDir {t u : FileTree α} {parts : List Str} (h : t.removeDir parts = some u) :
    LinksFrom t u := by
  rw [removeDir] at h
  split at h
  · split at h
    · rw [← Option.some.inj h]; exact linksFrom_alter links_none _ _
    · cases h
  · cases h

theorem linksFrom_writeFile {t u : FileTree α} {parts : List Str} {content : α}
    (h : t.writeFile parts content = some u) : LinksFrom t u := by
  rw [writeFile] at h
  split at h
  · split at h
    · rw [← Option.some.inj h]; exact linksFrom_alter (links_file content) _ _
    · split at h
      · rw [← Option.some.inj h]; exact linksFrom_alter (links_file content) _ _
      · cases h
    · cases h
  · cases h

/-- Nothing else than new directories. -/
def DirsMade (t u : FileTree α) : Prop :=
  ∀ q, u.look q = t.look q ∨ (t.look q = none ∧ u.look q = some .dir)

theorem dirsMade_mkdir {t u : FileTree α} {parts : List Str} (h : t.mkdir parts = some u) :
    DirsMade t u := by
  rw [mkdir] at h
  split at h
  · rename_i p _
    split at h
    · rename_i hfree
      rw [Bool.and_eq_true, Option.isNone_iff_eq_none, dirAt_iff] at hfree
      have hp : p ≠ [] := by
        rintro rfl
        exact absurd hfree.1 (by simp)
      rw [← Option.some.inj h]
      intro q
      by_cases hq : p <+: q
      · obtain ⟨r, rfl⟩ := hq
        have hnone : t.look (p ++ r) = none := by
          cases r with
          | nil => rw [List.append_nil]; exact hfree.1
          | cons name r =>
            exact look_below (by rw [hfree.1]; simp) (List.prefix_append _ _) (by simp)
        rw [look_alter_below hp hfree.2, hnone]
        cases r with
        | nil => exact Or.inr ⟨rfl, rfl⟩
        | cons name r => exact Or.inl rfl
      · exact Or.inl (look_alter hq _ t)
    · cases h
  · cases h

theorem dirsMade_createDirAll {t u : FileTree α} {done rest : List Str}
    (h : createDirAll done rest t = some u) : DirsMade t u := by
  induction rest generalizing done t with
  | nil =>
    rw [createDirAll] at h
    split at h
    · rw [← Option.some.inj h]; exact fun q => Or.inl rfl
    · cases h
  | cons part rest ih =>
    rw [createDirAll] at h
    split at h
    · exact ih h
    · split at h
      · rename_i v hv
        intro q
        rcases dirsMade_mkdir hv q with h1 | ⟨h1, h1'⟩
        · rw [← h1]; exact ih h q
        · rcases ih h q with h2 | ⟨h2, _⟩
          · exact Or.inr ⟨h1, by rw [h2, h1']⟩
          · rw [h1'] at h2; cases h2
      · cases h

/-- After `create_dir_all` the path is a directory. -/
theorem isDir_createDirAll {t u : FileTree α} {done rest : List Str}
    (h : createDirAll done rest t = some u) : u.isDir (done ++ rest) = true := by
  induction rest generalizing done t with
  | nil =>
    rw [createDirAll] at h
    rw [List.append_nil]
    split at h
    · rename_i hdir; rw [← Option.some.inj h]; exact hdir
    · cases h
  | cons part rest ih =>
    rw [createDirAll] at h
    rw [show done ++ part :: rest = (done ++ [part]) ++ rest by simp]
    split at h
    · exact ih h
    · split at h
      · exact ih h
      · cases h

theorem look_of_isDir {t : FileTree α} {p : List Str} (hplain : ∀ part ∈ p, plain part = true)
    (habove : NoLinkAbove t p) (hlast : ∀ l, t.look p ≠ some (.link l)) (h : t.isDir p = true) :
    t.look p = some .dir := by
  rw [isDir] at h
  rcases resolve_of_noLinkAbove true hplain habove (fun _ => hlast) with hr | ⟨hr, _⟩
  · rw [hr] at h; exact dirAt_iff.mp h
  · rw [hr] at h; cases h

section Place

variable {t u : FileTree α} {p : List Str}

/-- What `alter` changes at a path under which nothing is. -/
private theorem look_alter_flat (hp : p ≠ []) (hparent : t.look p.dropLast = some .dir)
    {entry : Option (FileTree α)} (hentry : ∀ e ∈ entry, ∀ q, q ≠ [] → e.look q = none)
    (hflat : ∀ q, q ≠ [] → t.look (p ++ q) = none) {q : List Str} (hq : q ≠ p) :
    (alter p entry t).look q = t.look q := by
  by_cases hpre : p <+: q
  · obtain ⟨r, rfl⟩ := hpre
    have hr : r ≠ [] := by rintro rfl; simp at hq
    rw [look_alter_below hp hparent, hflat r hr]
    cases entry with
    | none => rfl
    | some e => exact hentry e rfl r hr
  · exact look_alter hpre _ t

private theorem flat_of_not_dir (h : t.look p ≠ some .dir) (q : List Str) (hq : q ≠ []) :
    t.look (p ++ q) = none :=
  look_below h (List.prefix_append _ _) (by simpa using hq)

/-- A file is written where no link is on the way. -/
theorem look_writeFile (hp : p ≠ []) (hplain : ∀ part ∈ p, plain part = true)
    (habove : NoLinkAbove t p)
    (hlast : ∀ l, t.look p ≠ some (.link l)) {content : α} (h : t.writeFile p content = some u) :
    u.look p = some (.file content) ∧ ∀ q, q ≠ p → u.look q = t.look q := by
  have hleaf : ∀ e ∈ some (file content), ∀ q, q ≠ [] → e.look q = none := by
    rintro e he q hq
    cases he
    cases q with
    | nil => exact absurd rfl hq
    | cons name q => rfl
  -- In both cases that write, the parent is a directory and nothing is below the path.
  have hput : ∀ (hparent : t.look p.dropLast = some .dir) (hfile : t.look p ≠ some .dir),
      some (alter p (some (file content)) t) = some u →
      u.look p = some (.file content) ∧ ∀ q, q ≠ p → u.look q = t.look q := by
    intro hparent hfile hu
    rw [← Option.some.inj hu]
    refine ⟨?_, fun q hq => look_alter_flat hp hparent hleaf (flat_of_not_dir hfile) hq⟩
    have := look_alter_below hp hparent (some (file content)) []
    rwa [List.append_nil] at this
  rw [writeFile] at h
  rcases resolve_of_noLinkAbove true hplain habove (fun _ => hlast) with hr | ⟨hr, _⟩
  · rw [hr] at h
    dsimp only at h
    split at h
    · rename_i hfile
      exact hput (look_parent hp (by rw [hfile]; simp)) (by rw [hfile]; simp) h
    · rename_i hnone
      split at h
      · rename_i hdir
        exact hput (dirAt_iff.mp hdir) (by rw [hnone]; simp) h
      · cases h
    · cases h
  · rw [hr] at h; cases h

/-- A file is removed where no link is on the way. -/
theorem look_removeFile (hp : p ≠ []) (hplain : ∀ part ∈ p, plain part = true)
    (habove : NoLinkAbove t p)
    (h : t.removeFile p = some u) : u.look p = none ∧ ∀ q, q ≠ p → u.look q = t.look q := by
  have hput : ∀ (hsome : t.look p ≠ none) (hfile : t.look p ≠ some .dir),
      some (alter p none t) = some u →
      u.look p = none ∧ ∀ q, q ≠ p → u.look q = t.look q := by
    intro hsome hfile hu
    rw [← Option.some.inj hu]
    have hparent := look_parent hp hsome
    refine ⟨?_, fun q hq => look_alter_flat hp hparent (fun e he => (by cases he))
      (flat_of_not_dir hfile) hq⟩
    have := look_alter_below hp hparent none []
    rwa [List.append_nil] at this
  rw [removeFile] at h
  rcases resolve_of_noLinkAbove false hplain habove (fun h => (by cases h)) with hr | ⟨hr, _⟩
  · rw [hr] at h
    dsimp only at h
    split at h
    · rename_i hfile; exact hput (by rw [hfile]; simp) (by rw [hfile]; simp) h
    · rename_i hfile; exact hput (by rw [hfile]; simp) (by rw [hfile]; simp) h
    · cases h
  · rw [hr] at h; cases h

/-- A directory goes with all that is below it, and nothing else goes. -/
theorem look_removeDirAll (hp : p ≠ []) (hplain : ∀ part ∈ p, plain part = true)
    (habove : NoLinkAbove t p)
    (h : t.removeDirAll p = some u) :
    (∀ q, p <+: q → u.look q = none) ∧ ∀ q, ¬ p <+: q → u.look q = t.look q := by
  have hput : ∀ (hsome : t.look p ≠ none), some (alter p none t) = some u →
      (∀ q, p <+: q → u.look q = none) ∧ ∀ q, ¬ p <+: q → u.look q = t.look q := by
    intro hsome hu
    rw [← Option.some.inj hu]
    refine ⟨?_, fun q hq => look_alter hq none t⟩
    rintro q ⟨r, rfl⟩
    exact look_alter_below hp (look_parent hp hsome) none r
  rw [removeDirAll] at h
  rcases resolve_of_noLinkAbove false hplain habove (fun h => (by cases h)) with hr | ⟨hr, _⟩
  · rw [hr] at h
    dsimp only at h
    split at h
    · rename_i hdir; exact hput (by rw [hdir]; simp) h
    · rename_i hlink; exact hput (by rw [hlink]; simp) h
    · cases h
  · rw [hr] at h; cases h

end Place

/-! ## The files after an operation -/

theorem hasFile_createDirAll {t u : FileTree α} {done rest q : List Str} {content : α}
    (h : createDirAll done rest t = some u) (hq : HasFile q content u) : HasFile q content t := by
  induction rest generalizing done t with
  | nil =>
    rw [createDirAll] at h
    split at h
    · cases h; exact hq
    · cases h
  | cons part rest ih =>
    rw [createDirAll] at h
    split at h
    · exact ih h
    · split at h
      · rename_i v hv
        have hv' := ih h
        rw [mkdir] at hv
        split at hv
        · split at hv
          · rw [← Option.some.inj hv] at hv'
            exact hasFile_of_alter (fun e he r => by cases he; exact not_hasFile_emptyDir) hv'
          · cases hv
        · cases hv
      · cases h

theorem hasFile_removeDirAll {t u : FileTree α} {parts q : List Str} {content : α}
    (h : t.removeDirAll parts = some u) (hq : HasFile q content u) : HasFile q content t := by
  rw [removeDirAll] at h
  split at h
  · split at h
    · cases h; exact hasFile_of_alter (no_entry content) hq
    · cases h; exact hasFile_of_alter (no_entry content) hq
    · cases h
  · cases h

theorem hasFile_removeFile {t u : FileTree α} {parts q : List Str} {content : α}
    (h : t.removeFile parts = some u) (hq : HasFile q content u) : HasFile q content t := by
  rw [removeFile] at h
  split at h
  · split at h
    · cases h; exact hasFile_of_alter (no_entry content) hq
    · cases h; exact hasFile_of_alter (no_entry content) hq
    · cases h
  · cases h

theorem hasFile_removeDir {t u : FileTree α} {parts q : List Str} {content : α}
    (h : t.removeDir parts = some u) (hq : HasFile q content u) : HasFile q content t := by
  rw [removeDir] at h
  split at h
  · split at h
    · cases h; exact hasFile_of_alter (no_entry content) hq
    · cases h
  · cases h

theorem hasFile_writeFile {t u : FileTree α} {parts q : List Str} {c content : α}
    (h : t.writeFile parts c = some u) (hq : HasFile q content u) :
    HasFile q content t ∨ resolve t true parts = some q := by
  have hput : ∀ p, HasFile q content (alter p (some (file c)) t) →
      HasFile q content t ∨ some p = some q := by
    intro p hp
    rcases hasFile_alter hp with hold | ⟨r, e, rfl, he, hr⟩
    · exact Or.inl hold
    · cases he
      rw [hasFile_file hr, List.append_nil]
      exact Or.inr rfl
  rw [writeFile] at h
  split at h
  · rename_i p hp
    rw [hp]
    split at h
    · cases h; exact hput p hq
    · split at h
      · cases h; exact hput p hq
      · cases h
    · cases h
  · cases h

/-- A removed directory takes no file with it. -/
theorem look_file_removeDir {t u : FileTree α} {parts q : List Str} {content : α}
    (h : t.removeDir parts = some u) (hq : t.look q = some (.file content)) :
    u.look q = some (.file content) := by
  rw [removeDir] at h
  split at h
  · rename_i p _
    split at h
    · rename_i hget
      cases h
      rw [look_alter, hq]
      rintro ⟨r, rfl⟩
      rw [look, get_append, hget] at hq
      cases r with
      | nil => cases hq
      | cons name r => cases hq
    · cases h
  · cases h

/-- `create_dir_all` leaves an entry that is not above its path. -/
theorem get_createDirAll {t u : FileTree α} {done rest : List Str}
    (hplain : ∀ part ∈ done ++ rest, plain part = true) (habove : NoLinkAbove t (done ++ rest))
    (h : createDirAll done rest t = some u) {q : List Str} (hq : t.look q ≠ none)
    (hapart : ¬ q <+: done ++ rest) : u.get q = t.get q := by
  induction rest generalizing done t with
  | nil =>
    rw [createDirAll] at h
    split at h
    · cases h; rfl
    · cases h
  | cons part rest ih =>
    have hsplit : done ++ part :: rest = (done ++ [part]) ++ rest := by simp
    have hpre : done ++ [part] <+: done ++ part :: rest := hsplit ▸ List.prefix_append _ _
    rw [createDirAll] at h
    rw [hsplit] at hplain habove hapart
    split at h
    · exact ih hplain habove h hq hapart
    · split at h
      · rename_i v hv
        have hlinks := linksFrom_mkdir hv
        -- The new directory is at its own path, where nothing was.
        have hv' : v.get q = t.get q := by
          rw [mkdir] at hv
          have hplain' : ∀ p ∈ done ++ [part], plain p = true :=
            fun p hp => hplain p (List.mem_append_left rest hp)
          have habove' : NoLinkAbove t (done ++ [part]) := by
            intro r l hr hne
            refine habove r l (hr.trans (List.prefix_append _ _)) fun heq => hne ?_
            exact List.IsPrefix.eq_of_length_le hr (by rw [heq]; simp)
          rcases resolve_of_noLinkAbove false hplain' habove' (fun h => (by cases h)) with
            hr | ⟨hr, _⟩
          · rw [hr] at hv
            dsimp only at hv
            split at hv
            · rename_i hfree
              rw [Bool.and_eq_true, Option.isNone_iff_eq_none] at hfree
              cases hv
              refine get_alter_apart (fun hpq => ?_)
                (fun hqp => hapart (hqp.trans (List.prefix_append _ _))) _ _
              by_cases heq : done ++ [part] = q
              · rw [heq] at hfree; exact hq hfree.1
              · exact hq (look_below (by rw [hfree.1]; simp) hpq heq)
            · cases hv
          · rw [hr] at hv; cases hv
        rw [ih hplain (habove.mono hlinks) h (by rw [look, hv']; exact hq) hapart, hv']
      · cases h

end FileTree

end TeamClu
