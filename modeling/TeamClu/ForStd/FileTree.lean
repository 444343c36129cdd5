import TeamClu.ForStd.Text

/-!
# File trees

A file system as a tree of files, symbolic links and directories, with files of any kind.  `get`
is the entry at a path of names and `look` what kind of entry it is; `alter` puts or removes an
entry, and `look_alter` says that every path that is not at or below it looks the
same.  `LinksFrom` compares the links of two trees, `dropLinks` is a tree without its links, and
`HasFile` lists its files.
-/

namespace TeamClu

/-- A file, a symbolic link with the parts of its text, or a directory. -/
inductive FileTree (α : Type) where
  | file (content : α)
  | link (text : List Str)
  | dir (entries : List (Str × FileTree α))

/-- What is at a path, without what is below it. -/
inductive FileKind (α : Type) where
  | file (content : α)
  | link (text : List Str)
  | dir
  deriving DecidableEq

namespace FileTree

variable {α : Type}

/-! ## Reading and writing entries -/

/-- The kind of an entry. -/
def kind : FileTree α → FileKind α
  | .file content => .file content
  | .link text => .link text
  | .dir _ => .dir

/-- The entry at a path of names. -/
def get : List Str → FileTree α → Option (FileTree α)
  | [], t => some t
  | name :: path, .dir entries =>
    match entries.lookup name with
    | some t => get path t
    | none => none
  | _ :: _, _ => none

/-- The kind of the entry at a path. -/
def look (t : FileTree α) (path : List Str) : Option (FileKind α) := (t.get path).map kind

/-- The entries of a directory with one of them put or removed. -/
def setEntry (name : Str) (entry : Option (FileTree α)) (entries : List (Str × FileTree α)) :
    List (Str × FileTree α) :=
  entries.filter (fun e => e.1 != name) ++ (entry.map (Prod.mk name)).toList

/-- The tree with the entry at a path put or removed; nothing changes if its parent is not a
    directory. -/
def alter : List Str → Option (FileTree α) → FileTree α → FileTree α
  | [], entry, t => entry.getD t
  | [name], entry, .dir entries => .dir (setEntry name entry entries)
  | name :: next :: path, entry, .dir entries =>
    match entries.lookup name with
    | some t => .dir (setEntry name (some (alter (next :: path) entry t)) entries)
    | none => .dir entries
  | _ :: _, _, t => t

theorem lookup_setEntry_self (name : Str) (entry : Option (FileTree α))
    (entries : List (Str × FileTree α)) :
    (setEntry name entry entries).lookup name = entry := by
  have hnone : (entries.filter fun e => e.1 != name).lookup name = none := by
    refine List.lookup_eq_none_iff.mpr fun e he => ?_
    exact bne_iff_ne.mpr (bne_iff_ne.mp (List.mem_filter.mp he).2).symm
  rw [setEntry, List.lookup_append, hnone]
  cases entry <;> simp

theorem lookup_setEntry_of_ne {name other : Str} (h : other ≠ name) (entry : Option (FileTree α))
    (entries : List (Str × FileTree α)) :
    (setEntry name entry entries).lookup other = entries.lookup other := by
  have hkeep : (entries.filter fun e => e.1 != name).lookup other = entries.lookup other := by
    induction entries with
    | nil => rfl
    | cons e entries ih =>
      obtain ⟨n, t⟩ := e
      by_cases hn : n = name
      · subst hn
        have hne : (other == n) = false := by simpa using h
        simp [List.lookup_cons, hne, ih]
      · have hne : (n != name) = true := by simpa using hn
        simp only [List.filter_cons, hne, if_true, List.lookup_cons]
        split <;> simp_all
  rw [setEntry, List.lookup_append, hkeep]
  cases entry with
  | none => simp
  | some t =>
    have hne : (other == name) = false := by simpa using h
    cases entries.lookup other <;> simp [List.lookup_cons, hne]

@[simp] theorem look_nil (t : FileTree α) : t.look [] = some t.kind := rfl

theorem look_cons_dir (name : Str) (path : List Str) (entries : List (Str × FileTree α)) :
    (dir entries).look (name :: path) = (entries.lookup name).bind fun t => t.look path := by
  rw [look, get]
  cases entries.lookup name <;> rfl

theorem get_append (p q : List Str) (t : FileTree α) :
    t.get (p ++ q) = (t.get p).bind fun s => s.get q := by
  induction p generalizing t with
  | nil => rfl
  | cons name p ih =>
    cases t with
    | dir entries =>
      rw [List.cons_append, get, get]
      cases entries.lookup name with
      | none => rfl
      | some s => exact ih s
    | file content => rfl
    | link text => rfl

/-- What is above an entry is a directory. -/
theorem look_dir_above {t : FileTree α} {p q : List Str} (hq : q <+: p) (hne : q ≠ p)
    (h : t.look p ≠ none) : t.look q = some .dir := by
  obtain ⟨r, rfl⟩ := hq
  rw [look, get_append] at h
  cases hg : t.get q with
  | none => rw [hg] at h; exact absurd rfl h
  | some s =>
    rw [hg] at h
    rw [look, hg]
    cases s with
    | dir entries => rfl
    | file content =>
      cases r with
      | nil => simp at hne
      | cons name r => exact absurd rfl h
    | link text =>
      cases r with
      | nil => simp at hne
      | cons name r => exact absurd rfl h

theorem look_parent {t : FileTree α} {p : List Str} (hp : p ≠ []) (h : t.look p ≠ none) :
    t.look p.dropLast = some .dir := by
  refine look_dir_above (List.dropLast_prefix p) (fun heq => ?_) h
  have hlen := congrArg List.length heq
  rw [List.length_dropLast] at hlen
  have := List.length_pos_iff.mpr hp
  omega

/-- Nothing is below what is not a directory. -/
theorem look_below {t : FileTree α} {p q : List Str} (hp : t.look p ≠ some .dir) (hq : p <+: q)
    (hne : p ≠ q) :
    t.look q = none := by
  by_contra h
  exact hp (look_dir_above hq hne h)

/-- The entry put at a path whose parent is a directory. -/
theorem get_alter_self {t : FileTree α} {p : List Str} (hp : p ≠ [])
    (hdir : t.look p.dropLast = some .dir) (entry : Option (FileTree α)) :
    (alter p entry t).get p = entry := by
  induction p generalizing t with
  | nil => exact absurd rfl hp
  | cons name p ih =>
    cases t with
    | file content => cases p <;> simp [look, get, kind] at hdir
    | link text => cases p <;> simp [look, get, kind] at hdir
    | dir entries =>
      cases p with
      | nil =>
        rw [alter, get, lookup_setEntry_self]
        cases entry <;> rfl
      | cons next path =>
        rw [List.dropLast_cons_cons, look_cons_dir] at hdir
        rw [alter]
        cases hl : entries.lookup name with
        | none => rw [hl] at hdir; cases hdir
        | some s =>
          rw [hl] at hdir
          rw [get, lookup_setEntry_self]
          exact ih (List.cons_ne_nil _ _) hdir

/-- A path that is not at or below the altered one looks the same. -/
theorem look_alter {p q : List Str} (h : ¬ p <+: q) (entry : Option (FileTree α)) (t : FileTree α) :
    (alter p entry t).look q = t.look q := by
  induction p generalizing q t with
  | nil => exact absurd List.nil_prefix h
  | cons name p ih =>
    cases t with
    | file content => cases p <;> rfl
    | link text => cases p <;> rfl
    | dir entries =>
      cases q with
      | nil =>
        cases p with
        | nil => rfl
        | cons next path => rw [alter]; cases entries.lookup name <;> rfl
      | cons other q =>
        by_cases hn : other = name
        · subst hn
          have hpq : ¬ p <+: q := fun hpre => h (List.cons_prefix_cons.mpr ⟨rfl, hpre⟩)
          cases p with
          | nil => exact absurd List.nil_prefix hpq
          | cons next path =>
            rw [alter]
            cases hl : entries.lookup other with
            | none => rfl
            | some s =>
              rw [look_cons_dir, look_cons_dir, lookup_setEntry_self, hl]
              exact ih hpq s
        · cases p with
          | nil => rw [alter, look_cons_dir, look_cons_dir, lookup_setEntry_of_ne hn]
          | cons next path =>
            rw [alter]
            cases hl : entries.lookup name with
            | none => rfl
            | some s => rw [look_cons_dir, look_cons_dir, lookup_setEntry_of_ne hn]

/-- What is at and below an altered path whose parent is a directory. -/
theorem look_alter_below {t : FileTree α} {p : List Str} (hp : p ≠ [])
    (hdir : t.look p.dropLast = some .dir) (entry : Option (FileTree α)) (q : List Str) :
    (alter p entry t).look (p ++ q) = entry.bind fun e => e.look q := by
  rw [look, get_append, get_alter_self hp hdir]
  cases entry <;> rfl

/-- An entry that is neither above nor below the altered path stays. -/
theorem get_alter_apart {p q : List Str} (hpq : ¬ p <+: q) (hqp : ¬ q <+: p)
    (entry : Option (FileTree α))
    (t : FileTree α) : (alter p entry t).get q = t.get q := by
  induction p generalizing q t with
  | nil => exact absurd List.nil_prefix hpq
  | cons name p ih =>
    cases q with
    | nil => exact absurd List.nil_prefix hqp
    | cons other q =>
      cases t with
      | file content => cases p <;> rfl
      | link text => cases p <;> rfl
      | dir entries =>
        by_cases hn : other = name
        · subst hn
          have hpq' : ¬ p <+: q := fun h => hpq (List.cons_prefix_cons.mpr ⟨rfl, h⟩)
          have hqp' : ¬ q <+: p := fun h => hqp (List.cons_prefix_cons.mpr ⟨rfl, h⟩)
          cases p with
          | nil => exact absurd List.nil_prefix hpq'
          | cons next path =>
            rw [alter]
            cases hl : entries.lookup other with
            | none => rfl
            | some s =>
              rw [get, get, lookup_setEntry_self, hl]
              exact ih hpq' hqp' s
        · cases p with
          | nil => rw [alter, get, get, lookup_setEntry_of_ne hn]
          | cons next path =>
            rw [alter]
            cases hl : entries.lookup name with
            | none => rfl
            | some s => rw [get, get, lookup_setEntry_of_ne hn]

/-! ## Trees with no new links -/

/-- Every link of the second tree is in the first. -/
def LinksFrom (t u : FileTree α) : Prop :=
  ∀ q l, u.look q = some (.link l) → t.look q = some (.link l)

theorem LinksFrom.refl (t : FileTree α) : LinksFrom t t := fun _ _ h => h

theorem LinksFrom.trans {t u v : FileTree α} (h : LinksFrom t u) (h' : LinksFrom u v) :
    LinksFrom t v :=
  fun q l hl => h q l (h' q l hl)

/-- An entry without links brings none. -/
theorem linksFrom_alter {entry : Option (FileTree α)}
    (hentry : ∀ e ∈ entry, ∀ q l, e.look q ≠ some (.link l)) (p : List Str) (t : FileTree α) :
    LinksFrom t (alter p entry t) := by
  intro q l h
  induction p generalizing q t with
  | nil =>
    cases entry with
    | none => exact h
    | some e => exact absurd h (hentry e rfl q l)
  | cons name p ih =>
    cases t with
    | file content => cases p <;> exact h
    | link text => cases p <;> exact h
    | dir entries =>
      cases p with
      | nil =>
        cases q with
        | nil => exact h
        | cons other q =>
          rw [alter, look_cons_dir] at h
          by_cases hn : other = name
          · subst hn
            rw [lookup_setEntry_self] at h
            cases entry with
            | none => cases h
            | some e => exact absurd h (hentry e rfl q l)
          · rw [lookup_setEntry_of_ne hn] at h
            rw [look_cons_dir, h]
      | cons next path =>
        rw [alter] at h
        cases hl : entries.lookup name with
        | none => rw [hl] at h; exact h
        | some s =>
          rw [hl] at h
          cases q with
          | nil => exact h
          | cons other q =>
            rw [look_cons_dir] at h ⊢
            by_cases hn : other = name
            · subst hn
              rw [lookup_setEntry_self] at h
              rw [hl]
              exact ih s q h
            · rwa [lookup_setEntry_of_ne hn] at h

/-! ## Trees without their links -/

/-- The entry is a link. -/
def isLink : FileTree α → Bool
  | .link _ => true
  | _ => false

mutual

/-- A tree with every link that is in a directory left out. -/
def dropLinks : FileTree α → FileTree α
  | .file content => .file content
  | .link text => .link text
  | .dir entries => .dir (dropLinksIn entries)

/-- The entries of a directory without the links. -/
def dropLinksIn : List (Str × FileTree α) → List (Str × FileTree α)
  | [] => []
  | (name, t) :: entries => (if t.isLink then [] else [(name, dropLinks t)]) ++ dropLinksIn entries

end

mutual

/-- No link is in the tree. -/
def linkFree : FileTree α → Bool
  | .file _ => true
  | .link _ => false
  | .dir entries => linkFreeIn entries

/-- No link is among or below the entries. -/
def linkFreeIn : List (Str × FileTree α) → Bool
  | [] => true
  | (_, t) :: entries => linkFree t && linkFreeIn entries

end

theorem isLink_dropLinks (t : FileTree α) : t.dropLinks.isLink = t.isLink := by
  cases t with
  | file content => rw [dropLinks]
  | link text => rw [dropLinks]
  | dir entries => rw [dropLinks]; rfl

mutual

theorem dropLinks_dropLinks : ∀ t : FileTree α, t.dropLinks.dropLinks = t.dropLinks
  | .file content => by rw [dropLinks, dropLinks]
  | .link text => by rw [dropLinks, dropLinks]
  | .dir entries => by rw [dropLinks, dropLinks, dropLinksIn_dropLinksIn entries]

private theorem dropLinksIn_dropLinksIn : ∀ entries : List (Str × FileTree α),
    dropLinksIn (dropLinksIn entries) = dropLinksIn entries
  | [] => rfl
  | (name, t) :: entries => by
    rw [dropLinksIn]
    cases h : t.isLink with
    | true => exact dropLinksIn_dropLinksIn entries
    | false =>
      rw [if_neg (by simp), List.singleton_append, dropLinksIn, isLink_dropLinks, h,
        dropLinks_dropLinks t, dropLinksIn_dropLinksIn entries]
      rfl

end

theorem isLink_of_linkFree {t : FileTree α} (h : t.linkFree = true) : t.isLink = false := by
  cases t with
  | link text => rw [linkFree] at h; cases h
  | file content => rfl
  | dir entries => rfl

mutual

theorem dropLinks_of_linkFree : ∀ t : FileTree α, t.linkFree = true → t.dropLinks = t
  | .file content, _ => by rw [dropLinks]
  | .link text, _ => by rw [dropLinks]
  | .dir entries, h => by rw [dropLinks, dropLinksIn_of_linkFree entries (by rwa [linkFree] at h)]

private theorem dropLinksIn_of_linkFree : ∀ entries : List (Str × FileTree α),
    linkFreeIn entries = true → dropLinksIn entries = entries
  | [], _ => rfl
  | (name, t) :: entries, h => by
    rw [linkFreeIn, Bool.and_eq_true] at h
    rw [dropLinksIn, isLink_of_linkFree h.1, dropLinks_of_linkFree t h.1,
      dropLinksIn_of_linkFree entries h.2]
    rfl

end

private theorem linkFree_of_mem {e : Str × FileTree α} {entries : List (Str × FileTree α)}
    (h : linkFreeIn entries = true) (he : e ∈ entries) : linkFree e.2 = true := by
  induction entries with
  | nil => cases he
  | cons first entries ih =>
    rw [linkFreeIn, Bool.and_eq_true] at h
    rcases List.mem_cons.mp he with rfl | he
    · exact h.1
    · exact ih h.2 he

/-- At no path of a tree without links is a link. -/
theorem look_ne_link {t : FileTree α} (h : t.linkFree = true) (q l : List Str) :
    t.look q ≠ some (.link l) := by
  induction q generalizing t with
  | nil =>
    cases t with
    | file content => simp [look, get, kind]
    | link text => rw [linkFree] at h; cases h
    | dir entries => simp [look, get, kind]
  | cons name q ih =>
    cases t with
    | file content => simp [look, get]
    | link text => simp [look, get]
    | dir entries =>
      rw [look_cons_dir]
      cases hl : entries.lookup name with
      | none => simp
      | some s =>
        obtain ⟨before, behind, rfl, _⟩ := List.lookup_eq_some_iff.mp hl
        exact ih (linkFree_of_mem (e := (name, s)) (by rwa [linkFree] at h) (by simp))

/-! ## The files of a tree -/

/-- A part that names an entry. -/
def plain (part : Str) : Bool := !(part == [] || part == ['.'] || part == ['.', '.'])

/-- A file is at the path, with this content. -/
inductive HasFile : List Str → α → FileTree α → Prop where
  | here (content : α) : HasFile [] content (.file content)
  | inside {name : Str} {q : List Str} {content : α} {t : FileTree α}
    {entries : List (Str × FileTree α)} :
      (name, t) ∈ entries → HasFile q content t → HasFile (name :: q) content (.dir entries)

theorem mem_of_lookup {name : Str} {t : FileTree α} {entries : List (Str × FileTree α)}
    (h : entries.lookup name = some t) : (name, t) ∈ entries := by
  obtain ⟨l, r, rfl, _⟩ := List.lookup_eq_some_iff.mp h
  simp

theorem mem_setEntry {name : Str} {entry : Option (FileTree α)} {entries : List (Str × FileTree α)}
    {e : Str × FileTree α} (h : e ∈ setEntry name entry entries) :
    e ∈ entries ∨ ∃ t, entry = some t ∧ e = (name, t) := by
  rw [setEntry, List.mem_append] at h
  rcases h with h | h
  · exact Or.inl (List.mem_filter.mp h).1
  · cases entry with
    | none => cases h
    | some t => exact Or.inr ⟨t, rfl, List.mem_singleton.mp h⟩

/-- The files after an alteration are from before or in the new entry. -/
theorem hasFile_alter {p q : List Str} {content : α} {entry : Option (FileTree α)} {t : FileTree α}
    (h : HasFile q content (alter p entry t)) :
    HasFile q content t ∨ ∃ r e, q = p ++ r ∧ entry = some e ∧ HasFile r content e := by
  induction p generalizing q t with
  | nil =>
    cases entry with
    | none => exact Or.inl h
    | some e => exact Or.inr ⟨q, e, rfl, rfl, h⟩
  | cons name p ih =>
    cases t with
    | file c => cases p <;> exact Or.inl h
    | link l => cases p <;> exact Or.inl h
    | dir entries =>
      cases p with
      | nil =>
        rw [alter] at h
        cases h with
        | inside hmem hfile =>
          rcases mem_setEntry hmem with hold | ⟨t, rfl, heq⟩
          · exact Or.inl (.inside hold hfile)
          · cases heq
            exact Or.inr ⟨_, _, rfl, rfl, hfile⟩
      | cons next path =>
        rw [alter] at h
        cases hl : entries.lookup name with
        | none => rw [hl] at h; exact Or.inl h
        | some s =>
          rw [hl] at h
          cases h with
          | inside hmem hfile =>
            rcases mem_setEntry hmem with hold | ⟨t, ht, heq⟩
            · exact Or.inl (.inside hold hfile)
            · cases ht
              cases heq
              rcases ih hfile with hold | ⟨r, e, rfl, he, hr⟩
              · exact Or.inl (.inside (mem_of_lookup hl) hold)
              · exact Or.inr ⟨r, e, rfl, he, hr⟩

/-- A file below an entry is a file of the tree. -/
theorem HasFile.of_get {p q : List Str} {content : α} {t s : FileTree α} (hs : t.get p = some s)
    (h : HasFile q content s) : HasFile (p ++ q) content t := by
  induction p generalizing t with
  | nil => cases hs; exact h
  | cons name p ih =>
    cases t with
    | file c => cases hs
    | link l => cases hs
    | dir entries =>
      rw [get] at hs
      cases hl : entries.lookup name with
      | none => rw [hl] at hs; cases hs
      | some u => rw [hl] at hs; exact .inside (mem_of_lookup hl) (ih hs)

mutual

/-- Each directory has distinct names, and they are plain. -/
def proper : FileTree α → Bool
  | .file _ => true
  | .link _ => true
  | .dir entries => decide (entries.map Prod.fst).Nodup && properIn entries

/-- The names are plain, and the entries proper. -/
def properIn : List (Str × FileTree α) → Bool
  | [] => true
  | (name, t) :: entries => plain name && proper t && properIn entries

end

private theorem proper_of_mem {e : Str × FileTree α} {entries : List (Str × FileTree α)}
    (h : properIn entries = true) (he : e ∈ entries) : plain e.1 = true ∧ proper e.2 = true := by
  induction entries with
  | nil => cases he
  | cons first entries ih =>
    rw [properIn, Bool.and_eq_true, Bool.and_eq_true] at h
    rcases List.mem_cons.mp he with rfl | he
    · exact h.1
    · exact ih h.2 he

private theorem lookup_of_mem {name : Str} {t : FileTree α} {entries : List (Str × FileTree α)}
    (hnodup : (entries.map Prod.fst).Nodup) (h : (name, t) ∈ entries) :
    entries.lookup name = some t := by
  induction entries with
  | nil => cases h
  | cons e entries ih =>
    rw [List.map_cons, List.nodup_cons] at hnodup
    rcases List.mem_cons.mp h with rfl | hmem
    · rw [List.lookup_cons_self]
    · have hne : (name == e.1) = false := by
        rw [beq_eq_false_iff_ne]
        rintro rfl
        exact hnodup.1 (List.mem_map.mpr ⟨_, hmem, rfl⟩)
      obtain ⟨n, s⟩ := e
      rw [List.lookup_cons, hne]
      exact ih hnodup.2 hmem

/-- In a proper tree what is at the path of a file is the file, and the path is plain. -/
theorem HasFile.look {t : FileTree α} {q : List Str} {content : α} (h : HasFile q content t)
    (ht : t.proper = true) : t.look q = some (.file content) ∧ ∀ part ∈ q, plain part = true := by
  induction h with
  | here content => exact ⟨rfl, fun part hp => (by cases hp)⟩
  | @inside name q content s entries hmem hfile ih =>
    rw [proper, Bool.and_eq_true, decide_eq_true_eq] at ht
    obtain ⟨hplain, hs⟩ := proper_of_mem ht.2 hmem
    obtain ⟨h1, h2⟩ := ih hs
    refine ⟨by rw [look_cons_dir, lookup_of_mem ht.1 hmem]; exact h1, fun part hp => ?_⟩
    rcases List.mem_cons.mp hp with rfl | hp
    · exact hplain
    · exact h2 part hp

theorem not_hasFile_emptyDir {q : List Str} {content : α} : ¬ HasFile q content (dir []) := by
  intro h
  cases h with
  | inside hmem _ => cases hmem

theorem hasFile_file {q : List Str} {content c : α} (h : HasFile q content (file c)) : q = [] := by
  cases h
  rfl

/-- An alteration that puts no file. -/
theorem hasFile_of_alter {p q : List Str} {content : α} {entry : Option (FileTree α)}
    {t : FileTree α}
    (hentry : ∀ e ∈ entry, ∀ r, ¬ HasFile r content e) (h : HasFile q content (alter p entry t)) :
    HasFile q content t := by
  rcases hasFile_alter h with hold | ⟨r, e, _, he, hr⟩
  · exact hold
  · exact absurd hr (hentry e he r)

theorem no_entry (content : α) (e : FileTree α) (he : e ∈ (none : Option (FileTree α)))
    (r : List Str) :
    ¬ HasFile r content e := by cases he

end FileTree

end TeamClu
