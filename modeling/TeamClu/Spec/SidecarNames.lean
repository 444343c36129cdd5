import TeamClu.ForStd.Lines
import TeamClu.Spec.ConflictNames
import TeamClu.Spec.PathValidatorsAgree

/-!
# Reading a sidecar name back

`originalFromConflict` undoes `conflictRelPath` for most documents.  The encoder cuts a file name at
its last dot, the decoder cuts at the first marker and keeps what follows the last dot behind it, so
a file name has to be free of the marker and must not end in a dot (`originalName_iff`).  The encoder
adds one `.conflicts` segment, the decoder drops every one that follows the name of a sync prefix, so
no such pair may stand below the root (`stripParts_eq_self_iff`).
-/

namespace TeamClu.Sync

/-! ## Documents whose sidecars can be read back -/

/-- A file name that does not end in a dot and has no marker. -/
def PlainName (filename : Str) : Prop :=
  filename.getLast? ≠ some '.' ∧ ¬ ".conflict.".toList <:+: filename

/-- No `.conflicts` right after the name of a sync prefix. -/
def NoStrippedPair (parts : List Str) : Prop :=
  parts.IsChain fun part next => ¬ (isPrefixName part = true ∧ next = CONFLICTS_DIR)

/-- The file name is plain, and the directories below the root have no pair that is stripped. -/
def ReadsBack (p : Str) : Prop :=
  ∃ dir filename, Str.rsplitOnce '/' p = some (dir, filename) ∧ PlainName filename ∧
    NoStrippedPair (dir.splitOn '/').tail

/-- What is asked of the sidecar of one document. -/
structure Reverses (p : Str) (ts : Nat) (hash : Str) : Prop where
  original : originalFromConflict (conflictRelPath p ts hash) = some p
  timestamp : conflictTimestamp (conflictRelPath p ts hash) = some ts
  isSidecar : isConflictFile (conflictRelPath p ts hash) = true
  isUnder : isUnderConflictsDir (conflictRelPath p ts hash) = true

/-- A non-empty text of lowercase hex digits. -/
def IsHexHash (hash : Str) : Prop :=
  hash ≠ [] ∧ ∀ c ∈ hash, c.isDigit = true ∨ ('a' ≤ c ∧ c ≤ 'f')

/-! ## The marker -/

/-- Where two markers overlap, they share one dot. -/
private theorem marker_overlap {t u v : Str} (ht : t ≠ []) (hu : u ≠ [])
    (h : ".conflict.".toList = t ++ u) (h' : ".conflict.".toList = u ++ v) : u = ['.'] := by
  have hborder : ∀ k ∈ List.range' 1 9,
      (".conflict.".toList.drop k).isPrefixOf ".conflict.".toList = true → k = 9 := by decide
  have hlen := congrArg List.length h
  have hupos := List.length_pos_iff.mpr hu
  have htpos := List.length_pos_iff.mpr ht
  rw [List.length_append, show ".conflict.".toList.length = 10 from rfl] at hlen
  have hdrop : ".conflict.".toList.drop t.length = u := by
    rw [h, List.drop_left]
  have hk := hborder t.length (by simp; omega)
    (by rw [hdrop]; exact List.isPrefixOf_iff_prefix.mpr ⟨v, h'.symm⟩)
  rw [hk] at hdrop
  rw [← hdrop]
  decide

/-- An occurrence that starts before a marker ends within the text before it and one dot. -/
private theorem infix_of_early {stem post before after : Str}
    (h : stem ++ ".conflict.".toList ++ post = before ++ ".conflict.".toList ++ after)
    (hlt : before.length < stem.length) : ".conflict.".toList <:+: stem ++ ['.'] := by
  rw [List.append_assoc, List.append_assoc] at h
  rcases List.append_eq_append_iff.mp h with ⟨t, rfl, -⟩ | ⟨t, rfl, hrest⟩
  · simp only [List.length_append] at hlt
    omega
  have ht : t ≠ [] := by
    rintro rfl
    simp at hlt
  rcases List.append_eq_append_iff.mp hrest with ⟨u, rfl, -⟩ | ⟨u, hmarker, hpost⟩
  · -- the occurrence ends within the text before
    exact ⟨before, u ++ ['.'], by simp⟩
  by_cases hu : u = []
  · rw [hu, List.append_nil] at hmarker
    exact ⟨before, ['.'], by rw [hmarker]⟩
  -- the occurrence overlaps with the marker
  have hprefix : u <+: ".conflict.".toList := by
    refine List.prefix_of_prefix_length_le ⟨after, hpost.symm⟩ ⟨post, rfl⟩ ?_
    rw [hmarker, List.length_append]
    omega
  obtain ⟨v, hv⟩ := hprefix
  have hdot := marker_overlap ht hu hmarker hv.symm
  rw [hdot] at hmarker
  exact ⟨before, [], by rw [hmarker]; simp⟩

/-- The first cut of a name with a marker in it: behind the stem exactly when the stem and a dot have
    no marker. -/
private theorem splitOnce_marker (stem post : Str) :
    ∃ before after, Str.splitOnce ".conflict.".toList (stem ++ ".conflict.".toList ++ post) =
        some (before, after) ∧
      (¬ ".conflict.".toList <:+: stem ++ ['.'] → before = stem ∧ after = post) ∧
      (".conflict.".toList <:+: stem ++ ['.'] → before.length < stem.length) ∧
      before.length ≤ stem.length ∧
      stem ++ ".conflict.".toList ++ post = before ++ ".conflict.".toList ++ after := by
  cases hsplit : Str.splitOnce ".conflict.".toList (stem ++ ".conflict.".toList ++ post) with
  | none => exact absurd ⟨stem, post, rfl⟩ (Str.splitOnce_eq_none hsplit)
  | some cut =>
    obtain ⟨before, after⟩ := cut
    obtain ⟨hcut, hfirst⟩ := Str.splitOnce_eq_some hsplit
    have hle := hfirst stem post rfl
    refine ⟨before, after, rfl, fun hno => ?_, fun hoccurs => ?_, hle, hcut⟩
    · have hlen : stem.length = before.length := by
        by_contra hne
        exact hno (infix_of_early hcut (by omega))
      rw [List.append_assoc, List.append_assoc] at hcut
      obtain ⟨hstem, hpost⟩ := List.append_inj hcut hlen
      exact ⟨hstem.symm, (List.append_cancel_left hpost).symm⟩
    · obtain ⟨x, y, hxy⟩ := hoccurs
      have hlen := congrArg List.length hxy
      simp only [List.length_append, List.length_singleton,
        show ".conflict.".toList.length = 10 from rfl] at hlen
      have hocc : stem ++ ".conflict.".toList ++ post =
          x ++ ".conflict.".toList ++ (y ++ "conflict.".toList ++ post) := by
        calc stem ++ ".conflict.".toList ++ post
            = (stem ++ ['.']) ++ ("conflict.".toList ++ post) := by simp
          _ = x ++ ".conflict.".toList ++ (y ++ "conflict.".toList ++ post) := by
              rw [← hxy]
              simp
      have := hfirst x _ hocc
      omega

/-! ## File names -/

/-- The name of a sidecar: the stem, the marker and a suffix of two or three parts. -/
private theorem conflictFileName_eq {filename hash : Str} (ts : Nat) :
    (∃ stem ext, Str.rsplitOnce '.' filename = some (stem, ext) ∧ ext ≠ [] ∧
      conflictFileName filename ts hash = stem ++ ".conflict.".toList ++
        (Nat.toDigits 10 ts ++ '.' :: (hash.take 8 ++ '.' :: ext))) ∨
    (∃ stem, (Str.rsplitOnce '.' filename = some (stem, []) ∨
        (Str.rsplitOnce '.' filename = none ∧ filename = stem)) ∧
      conflictFileName filename ts hash = stem ++ ".conflict.".toList ++
        (Nat.toDigits 10 ts ++ '.' :: hash.take 8)) := by
  unfold conflictFileName
  cases hsplit : Str.rsplitOnce '.' filename with
  | none =>
    right
    exact ⟨filename, Or.inr ⟨rfl, rfl⟩, by simp⟩
  | some cut =>
    obtain ⟨stem, ext⟩ := cut
    cases ext with
    | nil =>
      right
      exact ⟨stem, Or.inl rfl, by simp⟩
    | cons c ext =>
      left
      exact ⟨stem, c :: ext, rfl, List.cons_ne_nil _ _, by simp⟩

/-- The marker is in a name exactly when it ends at or before the last dot. -/
private theorem marker_infix_iff {stem ext : Str} (hext : '.' ∉ ext) :
    ".conflict.".toList <:+: stem ++ '.' :: ext ↔ ".conflict.".toList <:+: stem ++ ['.'] := by
  constructor
  · rintro ⟨x, y, h⟩
    have hend : ".conflict.".toList = ".conflict".toList ++ ['.'] := by decide
    rw [hend] at h ⊢
    have hcut : (x ++ ".conflict".toList) ++ '.' :: y = stem ++ '.' :: ext := by
      rw [← h]
      simp
    rcases List.append_eq_append_iff.mp hcut with ⟨t, hstem, hrest⟩ | ⟨t, hx, hrest⟩
    · cases t with
      | nil => exact ⟨x, [], by simp [hstem]⟩
      | cons c t =>
        obtain rfl : '.' = c := (List.cons.inj hrest).1
        exact ⟨x, t ++ ['.'], by simp [hstem]⟩
    · cases t with
      | nil =>
        rw [List.append_nil] at hx
        exact ⟨x, [], by simp [← hx]⟩
      | cons c t =>
        -- a dot behind the last dot
        refine absurd ?_ hext
        rw [(List.cons.inj hrest).2]
        simp
  · rintro ⟨x, y, h⟩
    exact ⟨x, y ++ ext, by rw [← List.append_assoc, h]; simp⟩

/-- A name without dots has no marker, not even with a dot behind it. -/
private theorem not_marker_of_no_dot {f : Str} (h : '.' ∉ f) :
    ¬ ".conflict.".toList <:+: f ++ ['.'] := by
  intro hoccurs
  have hcount := hoccurs.sublist.count_le '.'
  rw [List.count_append, List.count_eq_zero.mpr h, show ".conflict.".toList.count '.' = 2 by decide]
    at hcount
  simp at hcount

/-- The digits of a number hold no separator. -/
private theorem notMem_toDigits {c : Char} (hc : c.isDigit = false) (n : Nat) :
    c ∉ Nat.toDigits 10 n := by
  intro hmem
  rw [Nat.isDigit_of_mem_toDigits (by decide) (by decide) hmem] at hc
  cases hc

/-- Where the first marker of a sidecar name is the one that was written, the document's name is read
    back, and the suffix starts with the timestamp and the hash. -/
private theorem splitOnce_of_plain {f hash : Str} (hf : PlainName f) (hhash : '.' ∉ hash) (ts : Nat) :
    ∃ stem suffix, Str.splitOnce ".conflict.".toList (conflictFileName f ts hash) = some (stem, suffix) ∧
      ((suffix.splitOn '.' = [Nat.toDigits 10 ts, hash.take 8] ∧ f = stem) ∨
        ∃ ext, suffix.splitOn '.' = [Nat.toDigits 10 ts, hash.take 8, ext] ∧
          f = stem ++ '.' :: ext) := by
  have hdigits := @notMem_toDigits '.' (by decide) ts
  have hshort : '.' ∉ hash.take 8 := fun h => hhash (List.mem_of_mem_take h)
  rcases @conflictFileName_eq f hash ts with ⟨stem, ext, hcut, hne, hname⟩ | ⟨stem, hcut, hname⟩
  · obtain ⟨rfl, hext⟩ := Str.rsplitOnce_eq_some hcut
    obtain ⟨before, after, hsplit, hplain, -⟩ := splitOnce_marker stem
      (Nat.toDigits 10 ts ++ '.' :: (hash.take 8 ++ '.' :: ext))
    obtain ⟨rfl, rfl⟩ := hplain fun h => hf.2 ((marker_infix_iff hext).mpr h)
    refine ⟨_, _, hname ▸ hsplit, Or.inr ⟨ext, ?_, rfl⟩⟩
    rw [List.splitOn_append_cons_self_of_not_mem hdigits,
      List.splitOn_append_cons_self_of_not_mem hshort, List.splitOn_eq_singleton hext]
  · rcases hcut with hcut | ⟨hcut, rfl⟩
    · -- a name that ends in a dot is not plain
      rw [(Str.rsplitOnce_eq_some hcut).1] at hf
      exact absurd (by simp) hf.1
    · obtain ⟨before, after, hsplit, hplain, -⟩ := splitOnce_marker f
        (Nat.toDigits 10 ts ++ '.' :: hash.take 8)
      obtain ⟨rfl, rfl⟩ := hplain (not_marker_of_no_dot (Str.rsplitOnce_eq_none.mp hcut))
      refine ⟨_, _, hname ▸ hsplit, Or.inl ⟨?_, rfl⟩⟩
      rw [List.splitOn_append_cons_self_of_not_mem hdigits, List.splitOn_eq_singleton hshort]

/-- What the decoder makes of a cut. -/
private theorem originalName_cases {filename stem suffix name : Str}
    (hsplit : Str.splitOnce ".conflict.".toList filename = some (stem, suffix))
    (h : originalName filename = some name) :
    (name = stem ∧ (suffix.splitOn '.').length = 2) ∨
      ∃ ext ∈ suffix.splitOn '.', name = stem ++ '.' :: ext ∧ (suffix.splitOn '.').length ≠ 2 := by
  unfold originalName at h
  rw [hsplit] at h
  simp only at h
  split at h
  · cases h
  · cases h
  · next hlen => exact Or.inl ⟨(Option.some.inj h).symm, hlen⟩
  · next hlen =>
    refine Or.inr ⟨(suffix.splitOn '.').getLastD [], ?_, (Option.some.inj h).symm, hlen⟩
    rw [List.getLastD_eq_getLast?, List.getLast?_eq_some_getLast (List.splitOn_ne_nil _ _)]
    exact List.getLast_mem _

/-- The document's name is read back from the sidecar's exactly when it is plain. -/
theorem originalName_iff {f hash : Str} (hhash : '.' ∉ hash) (ts : Nat) :
    originalName (conflictFileName f ts hash) = some f ↔ PlainName f := by
  constructor
  · intro h
    rcases @conflictFileName_eq f hash ts with ⟨stem, ext, hcut, hne, hname⟩ | ⟨stem, hcut, hname⟩
    · obtain ⟨rfl, hext⟩ := Str.rsplitOnce_eq_some hcut
      refine ⟨?_, fun hoccurs => ?_⟩
      · -- the last character is that of the extension
        intro hlast
        rw [List.getLast?_append, List.getLast?_cons, List.getLast?_eq_some_getLast hne] at hlast
        refine hext (?_ : '.' ∈ ext)
        have := List.getLast_mem hne
        simp only [Option.getD_some, Option.some_or, Option.some.injEq] at hlast
        rwa [hlast] at this
      · obtain ⟨before, after, hsplit, -, hshorter, -⟩ := splitOnce_marker stem
          (Nat.toDigits 10 ts ++ '.' :: (hash.take 8 ++ '.' :: ext))
        have hlt := hshorter ((marker_infix_iff hext).mp hoccurs)
        rcases originalName_cases (hname ▸ hsplit) h with ⟨heq, -⟩ | ⟨ext', hmem, heq, -⟩
        · have := congrArg List.length heq
          simp only [List.length_append, List.length_cons] at this
          omega
        · obtain ⟨rfl, -⟩ := Str.append_sep_inj hext (Lines.not_mem_of_mem_splitOn hmem) heq
          exact absurd hlt (Nat.lt_irrefl _)
    · rcases hcut with hcut | ⟨hcut, rfl⟩
      · -- a name that ends in a dot is read back without it
        obtain ⟨rfl, -⟩ := Str.rsplitOnce_eq_some hcut
        obtain ⟨before, after, hsplit, -, -, hle, hsame⟩ := splitOnce_marker stem
          (Nat.toDigits 10 ts ++ '.' :: hash.take 8)
        rcases originalName_cases (hname ▸ hsplit) h with ⟨heq, -⟩ | ⟨ext', hmem, heq, hlen⟩
        · have := congrArg List.length heq
          simp only [List.length_append, List.length_cons] at this
          omega
        · obtain ⟨rfl, -⟩ := Str.append_sep_inj List.not_mem_nil (Lines.not_mem_of_mem_splitOn hmem) heq
          refine absurd ?_ hlen
          rw [List.append_assoc, List.append_assoc] at hsame
          rw [← List.append_cancel_left (List.append_cancel_left hsame),
            List.splitOn_append_cons_self_of_not_mem (notMem_toDigits (by decide) ts),
            List.splitOn_eq_singleton fun hmem => hhash (List.mem_of_mem_take hmem)]
          rfl
      · have hdot := Str.rsplitOnce_eq_none.mp hcut
        refine ⟨fun hlast => hdot (List.mem_of_getLast? hlast), fun hoccurs => ?_⟩
        exact not_marker_of_no_dot hdot (hoccurs.trans (List.prefix_append _ _).isInfix)
  · intro hf
    obtain ⟨stem, suffix, hsplit, ⟨hparts, rfl⟩ | ⟨ext, hparts, rfl⟩⟩ := splitOnce_of_plain hf hhash ts
    · unfold originalName
      rw [hsplit]
      simp [hparts]
    · unfold originalName
      rw [hsplit]
      simp [hparts]

/-- The digits of a timestamp are read back. -/
theorem parseU64_toDigits {ts : Nat} (hts : ts < 2 ^ 64) : parseU64 (Nat.toDigits 10 ts) = some ts := by
  have hall : (Nat.toDigits 10 ts).all Char.isDigit = true :=
    List.all_eq_true.mpr fun c hc => Nat.isDigit_of_mem_toDigits (by decide) (by decide) hc
  have hplus : (Nat.toDigits 10 ts).head? ≠ some '+' := fun h =>
    notMem_toDigits (by decide) ts (List.mem_of_head? h)
  unfold parseU64
  rw [if_neg hplus]
  simp only [Nat.toDigits_ne_nil, hall, Bool.not_true, decide_false, Bool.or_self, Bool.false_eq_true,
    if_false, Nat.ofDigitChars_ten_toDigits, if_pos hts]

/-- The timestamp and the hash of a plain name's sidecar are read back. -/
private theorem suffix_reads {f hash stem suffix : Str} (hhash : hash ≠ []) {ts : Nat}
    (hts : ts < 2 ^ 64) (hsplit : Str.splitOnce ".conflict.".toList f = some (stem, suffix))
    {rest : List Str} (hparts : suffix.splitOn '.' = Nat.toDigits 10 ts :: hash.take 8 :: rest) :
    (suffix.splitOn '.').head?.bind parseU64 = some ts ∧ hasConflictInfix f = true := by
  have hall : (Nat.toDigits 10 ts).all Char.isDigit = true :=
    List.all_eq_true.mpr fun c hc => Nat.isDigit_of_mem_toDigits (by decide) (by decide) hc
  have hne : Nat.toDigits 10 ts ≠ [] := Nat.toDigits_ne_nil
  constructor
  · rw [hparts, List.head?_cons, Option.bind_some, parseU64_toDigits hts]
  · unfold hasConflictInfix
    rw [hsplit]
    simp [hparts, hne, hall, hhash]

/-! ## Directories -/

/-- Leaving pairs out does not lengthen the path. -/
private theorem length_stripParts_le (parts : List Str) :
    (stripParts parts).length ≤ parts.length := by
  fun_induction stripParts parts with
  | case1 part next rest _ ih =>
    simp only [List.length_cons]
    omega
  | case2 part next rest _ ih => simpa using ih
  | case3 parts => exact le_refl _

/-- Nothing is left out exactly when there is no pair. -/
theorem stripParts_eq_self_iff (parts : List Str) : stripParts parts = parts ↔ NoStrippedPair parts := by
  unfold NoStrippedPair
  fun_induction stripParts parts with
  | case1 part next rest hpair ih =>
    have hpair' : isPrefixName part = true ∧ next = CONFLICTS_DIR := by simpa using hpair
    refine iff_of_false (fun h => ?_) (fun h => ?_)
    · have hlen := congrArg List.length h
      have := length_stripParts_le rest
      simp only [List.length_cons] at hlen
      omega
    · exact (List.isChain_cons_cons.mp h).1 hpair'
  | case2 part next rest hpair ih =>
    have hpair' : ¬ (isPrefixName part = true ∧ next = CONFLICTS_DIR) := by simpa using hpair
    rw [List.isChain_cons_cons, ← ih]
    simp [hpair']
  | case3 parts hshort =>
    refine iff_of_true rfl ?_
    match parts, hshort with
    | [], _ => exact .nil
    | [part], _ => exact .singleton part
    | part :: next :: rest, hshort => exact absurd rfl (hshort part next rest)

/-- Joined parts are taken apart again. -/
private theorem parts_inj {parts parts' : List Str} (h : ∀ l ∈ parts, '/' ∉ l)
    (h' : ∀ l ∈ parts', '/' ∉ l) (hne : parts ≠ []) (hne' : parts' ≠ [])
    (heq : ['/'].intercalate parts = ['/'].intercalate parts') : parts = parts' := by
  rw [← List.splitOn_intercalate '/' h hne, heq, List.splitOn_intercalate '/' h' hne']

/-- The parts that are kept are parts. -/
private theorem mem_of_mem_stripParts {part : Str} {parts : List Str} (h : part ∈ stripParts parts) :
    part ∈ parts := by
  fun_induction stripParts parts with
  | case1 first next rest _ ih =>
    rcases List.mem_cons.mp h with rfl | h
    · exact List.mem_cons_self
    · exact List.mem_cons_of_mem _ (List.mem_cons_of_mem _ (ih h))
  | case2 first next rest _ ih =>
    rcases List.mem_cons.mp h with rfl | h
    · exact List.mem_cons_self
    · exact List.mem_cons_of_mem _ (ih h)
  | case3 parts => exact h

/-- A sidecar name is one component. -/
private theorem slash_notMem_conflictFileName {filename hash : Str} (hname : '/' ∉ filename)
    (hhash : '/' ∉ hash) (ts : Nat) : '/' ∉ conflictFileName filename ts hash := by
  have hmarker : '/' ∉ ".conflict.".toList := by decide
  have hdigits := @notMem_toDigits '/' (by decide) ts
  have hshort : '/' ∉ hash.take 8 := fun h => hhash (List.mem_of_mem_take h)
  rcases @conflictFileName_eq filename hash ts with ⟨stem, ext, hcut, -, heq⟩ | ⟨stem, hcut, heq⟩
  · rw [(Str.rsplitOnce_eq_some hcut).1, List.mem_append, List.mem_cons, not_or, not_or] at hname
    rw [heq]
    simp only [List.mem_append, List.mem_cons, not_or]
    exact ⟨⟨hname.1, hmarker⟩, hdigits, by decide, hshort, by decide, hname.2.2⟩
  · have hstem : '/' ∉ stem := by
      rcases hcut with hcut | ⟨-, rfl⟩
      · rw [(Str.rsplitOnce_eq_some hcut).1, List.mem_append, not_or] at hname
        exact hname.1
      · exact hname
    rw [heq]
    simp only [List.mem_append, List.mem_cons, not_or]
    exact ⟨⟨hstem, hmarker⟩, hdigits, by decide, hshort⟩

/-- A name that is read back from one component is one component. -/
private theorem slash_notMem_originalName {filename name : Str} (hname : '/' ∉ filename)
    (h : originalName filename = some name) : '/' ∉ name := by
  cases hsplit : Str.splitOnce ".conflict.".toList filename with
  | none =>
    unfold originalName at h
    rw [hsplit] at h
    cases h
  | some cut =>
    obtain ⟨stem, suffix⟩ := cut
    have hcut := (Str.splitOnce_eq_some hsplit).1
    rw [hcut, List.mem_append, List.mem_append, not_or, not_or] at hname
    rcases originalName_cases hsplit h with ⟨rfl, -⟩ | ⟨ext, hext, rfl, -⟩
    · exact hname.1.1
    · rw [List.mem_append, List.mem_cons, not_or, not_or]
      exact ⟨hname.1.1, by decide, fun hmem => hname.2 (Lines.mem_of_mem_splitOn hext hmem)⟩

/-- A document, by its root, the directories below it and its file name. -/
private structure Document (p base : Str) (below : List Str) (filename : Str) : Prop where
  cut : Str.rsplitOnce '/' p = some (['/'].intercalate (base :: below), filename)
  isPrefix : isPrefixName base = true
  named : ∀ part ∈ base :: below, part ≠ [] ∧ '/' ∉ part

variable {p base filename : Str} {below : List Str} {ts : Nat}

/-- A path that `validate` accepts under a synced prefix is a document. -/
private theorem exists_document (hvalid : validate p = .ok) (hallowed : isAllowed p = true) :
    ∃ base below filename, Document p base below filename := by
  obtain ⟨dir, filename, hcut⟩ : ∃ dir filename, Str.rsplitOnce '/' p = some (dir, filename) := by
    cases hsplit : Str.rsplitOnce '/' p with
    | none =>
      obtain ⟨a, -, -, -, rest, rfl⟩ := exists_base_of_isAllowed hallowed
      exact absurd (List.mem_append_right _ List.mem_cons_self) (Str.rsplitOnce_eq_none.mp hsplit)
    | some cut => exact ⟨cut.1, cut.2, rfl⟩
  obtain ⟨rfl, -⟩ := Str.rsplitOnce_eq_some hcut
  obtain ⟨a, hmem, -, below, hsplit⟩ := splitOn_dir_of_isAllowed hallowed
  have hjoin : ['/'].intercalate (trimSlash a :: below) = dir := by
    rw [← hsplit, List.intercalate_splitOn]
  refine ⟨trimSlash a, below, filename, hjoin.symm ▸ hcut, ?_, fun part hpart => ?_⟩
  · exact List.any_eq_true.mpr ⟨a, hmem, beq_self_eq_true _⟩
  · rw [← hsplit] at hpart
    have hseg : part ∈ (dir ++ '/' :: filename).splitOn '/' := by
      rw [List.splitOn_append_cons_self]
      exact List.mem_append_left _ hpart
    exact ⟨(((validate_ok_iff _).mp hvalid).1.segments part hseg).1, Lines.not_mem_of_mem_splitOn hpart⟩

namespace Document

variable (doc : Document p base below filename)
include doc

/-- The directory of a document, taken apart. -/
private theorem splitOn_dir : (['/'].intercalate (base :: below)).splitOn '/' = base :: below :=
  List.splitOn_intercalate '/' (fun part hpart => (doc.named part hpart).2) (List.cons_ne_nil _ _)

/-- What reading a sidecar of the document back asks for. -/
theorem readsBack_iff : ReadsBack p ↔ PlainName filename ∧ NoStrippedPair below := by
  unfold ReadsBack
  rw [doc.cut]
  constructor
  · rintro ⟨dir, name, heq, hplain, hpairs⟩
    obtain ⟨rfl, rfl⟩ := Prod.mk.inj (Option.some.inj heq)
    rw [doc.splitOn_dir] at hpairs
    exact ⟨hplain, hpairs⟩
  · rintro ⟨hplain, hpairs⟩
    exact ⟨_, _, rfl, hplain, by rw [doc.splitOn_dir]; exact hpairs⟩

/-- The sidecar of a document. -/
theorem conflictRelPath_eq (ts : Nat) (hash : Str) : conflictRelPath p ts hash =
    ['/'].intercalate (base :: CONFLICTS_DIR :: below) ++ '/' :: conflictFileName filename ts hash := by
  have hparts : (base :: below).filter (· ≠ []) = base :: below :=
    List.filter_eq_self.mpr fun part hpart => by simpa using (doc.named part hpart).1
  have hidx : (base :: below).findIdx? (fun part => ALLOWED_PREFIXES.any fun a => part == trimSlash a) =
      some 0 :=
    List.findIdx?_cons.trans (if_pos doc.isPrefix)
  unfold conflictRelPath insertConflictsRel
  rw [doc.cut]
  simp only [doc.splitOn_dir, hparts, hidx, Option.map_some]
  rfl

/-- What the decoder makes of the sidecar of a document. -/
theorem originalFromConflict_eq {hash : Str} (hname : '/' ∉ conflictFileName filename ts hash) :
    originalFromConflict (conflictRelPath p ts hash) =
      (originalName (conflictFileName filename ts hash)).map
        fun name => ['/'].intercalate (base :: stripParts below) ++ '/' :: name := by
  have hnamed : ∀ part ∈ base :: CONFLICTS_DIR :: below, part ≠ [] ∧ '/' ∉ part := by
    intro part hpart
    rcases List.mem_cons.mp hpart with rfl | hpart
    · exact doc.named _ List.mem_cons_self
    rcases List.mem_cons.mp hpart with rfl | hpart
    · decide
    · exact doc.named part (List.mem_cons_of_mem _ hpart)
  have hsplit : (['/'].intercalate (base :: CONFLICTS_DIR :: below)).splitOn '/' =
      base :: CONFLICTS_DIR :: below :=
    List.splitOn_intercalate '/' (fun part hpart => (hnamed part hpart).2) (List.cons_ne_nil _ _)
  have hfilter : (base :: CONFLICTS_DIR :: below).filter (· ≠ []) = base :: CONFLICTS_DIR :: below :=
    List.filter_eq_self.mpr fun part hpart => by simpa using (hnamed part hpart).1
  have hstrip : stripConflictsSegment (['/'].intercalate (base :: CONFLICTS_DIR :: below)) =
      ['/'].intercalate (base :: stripParts below) := by
    rw [stripConflictsSegment, hsplit, hfilter, stripParts, if_pos (by simp [doc.isPrefix])]
  have hne : ['/'].intercalate (base :: stripParts below) ≠ [] := by
    obtain ⟨c, cs, hbase⟩ := List.exists_cons_of_ne_nil (doc.named base List.mem_cons_self).1
    cases stripParts below with
    | nil => simp [hbase]
    | cons part parts => simp [hbase, List.intercalate_cons_cons]
  unfold originalFromConflict
  rw [doc.conflictRelPath_eq, Str.rsplitOnce_append _ hname]
  simp only [hstrip, if_neg hne]

/-- The document is read back from its sidecar exactly when its name and its directories are. -/
theorem original_iff {hash : Str} (hdot : '.' ∉ hash) (hslash : '/' ∉ hash) (ts : Nat) :
    originalFromConflict (conflictRelPath p ts hash) = some p ↔ ReadsBack p := by
  obtain ⟨hp, hfilename⟩ := Str.rsplitOnce_eq_some doc.cut
  have hname := slash_notMem_conflictFileName hfilename hslash ts
  rw [doc.originalFromConflict_eq hname, doc.readsBack_iff, ← originalName_iff hdot ts,
    ← stripParts_eq_self_iff]
  constructor
  · intro h
    obtain ⟨name, hread, heq⟩ := Option.map_eq_some_iff.mp h
    rw [hp] at heq
    obtain ⟨hdirs, rfl⟩ := Str.append_sep_inj (slash_notMem_originalName hname hread) hfilename heq
    have hkept : ∀ part ∈ base :: stripParts below, '/' ∉ part := by
      intro part hpart
      rcases List.mem_cons.mp hpart with rfl | hpart
      · exact (doc.named _ List.mem_cons_self).2
      · exact (doc.named part (List.mem_cons_of_mem _ (mem_of_mem_stripParts hpart))).2
    have hparts := parts_inj hkept (fun part hpart => (doc.named part hpart).2) (List.cons_ne_nil _ _)
      (List.cons_ne_nil _ _) hdirs
    exact ⟨hread, (List.cons.inj hparts).2⟩
  · rintro ⟨hread, hdirs⟩
    rw [hread, hdirs, Option.map_some, ← hp]

end Document

/-! ## Every document -/

/-- A hex digit is neither a dot nor a slash. -/
private theorem IsHexHash.separators {hash : Str} (h : IsHexHash hash) : '.' ∉ hash ∧ '/' ∉ hash := by
  constructor
  · intro hmem
    rcases h.2 _ hmem with hdigit | ⟨hle, -⟩
    · exact absurd hdigit (by decide)
    · exact absurd hle (by decide)
  · intro hmem
    rcases h.2 _ hmem with hdigit | ⟨hle, -⟩
    · exact absurd hdigit (by decide)
    · exact absurd hle (by decide)

/-- The sidecar of one document reverses exactly when the document can be read back. -/
theorem reverses_iff {hash : Str} (hvalid : validate p = .ok) (hallowed : isAllowed p = true)
    (hts : ts < 2 ^ 64) (hhash : IsHexHash hash) : Reverses p ts hash ↔ ReadsBack p := by
  obtain ⟨base, below, filename, doc⟩ := exists_document hvalid hallowed
  obtain ⟨hdot, hslash⟩ := hhash.separators
  refine ⟨fun h => (doc.original_iff hdot hslash ts).mp h.original, fun h => ?_⟩
  have hname := slash_notMem_conflictFileName (Str.rsplitOnce_eq_some doc.cut).2 hslash ts
  obtain ⟨stem, suffix, hsplit, hparts⟩ := splitOnce_of_plain (doc.readsBack_iff.mp h).1 hdot ts
  obtain ⟨rest, hparts⟩ : ∃ rest, suffix.splitOn '.' = Nat.toDigits 10 ts :: hash.take 8 :: rest := by
    rcases hparts with ⟨hparts, -⟩ | ⟨ext, hparts, -⟩
    · exact ⟨[], hparts⟩
    · exact ⟨[ext], hparts⟩
  obtain ⟨hstamp, hoccurs⟩ := suffix_reads hhash.1 hts hsplit hparts
  refine ⟨(doc.original_iff hdot hslash ts).mpr h, ?_, ?_,
    isUnderConflictsDir_conflictRelPath hallowed ts hash⟩
  · unfold conflictTimestamp
    rw [doc.conflictRelPath_eq, Str.rsplitOnce_append _ hname]
    simp only [hsplit]
    exact hstamp
  · unfold isConflictFile
    rw [doc.conflictRelPath_eq, Str.rsplitOnce_append _ hname]
    exact hoccurs

/-- Two documents' sidecars reverse, and are two paths if the documents are, exactly when both
    documents can be read back. -/
theorem sidecars_reverse_iff {q hash : Str} (hp : validate p = .ok) (hpAllowed : isAllowed p = true)
    (hq : validate q = .ok) (hqAllowed : isAllowed q = true) (hts : ts < 2 ^ 64)
    (hhash : IsHexHash hash) :
    (Reverses p ts hash ∧ Reverses q ts hash ∧
        (conflictRelPath p ts hash = conflictRelPath q ts hash → p = q)) ↔
      ReadsBack p ∧ ReadsBack q := by
  rw [reverses_iff hp hpAllowed hts hhash, reverses_iff hq hqAllowed hts hhash]
  refine ⟨fun h => ⟨h.1, h.2.1⟩, fun h => ⟨h.1, h.2, fun heq => ?_⟩⟩
  -- both are what the decoder makes of the one sidecar
  have hread := ((reverses_iff hp hpAllowed hts hhash).mpr h.1).original
  rw [heq, ((reverses_iff hq hqAllowed hts hhash).mpr h.2).original] at hread
  exact (Option.some.inj hread).symm

/-- Two friendly documents. -/
theorem sidecars_reverse_notes :
    Reverses "knowledge/a/foo.md".toList 1748332800 "abc123def".toList ∧
      Reverses "knowledge/Makefile".toList 1748332800 "abc123def".toList := by
  have hplain : ReadsBack "knowledge/a/foo.md".toList :=
    ⟨_, _, rfl, ⟨by decide, by decide⟩, (stripParts_eq_self_iff _).mp (by decide)⟩
  have hplain' : ReadsBack "knowledge/Makefile".toList :=
    ⟨_, _, rfl, ⟨by decide, by decide⟩, (stripParts_eq_self_iff _).mp (by decide)⟩
  have h := (@sidecars_reverse_iff "knowledge/a/foo.md".toList 1748332800 "knowledge/Makefile".toList
    "abc123def".toList (by decide) (by decide) (by decide) (by decide) (by decide)
    ⟨by decide, by simp⟩).mpr ⟨hplain, hplain'⟩
  exact ⟨h.1, h.2.1⟩

/-- A file name that ends in a dot shares its sidecar with the name without it. -/
theorem sidecar_of_trailing_dot :
    ¬ ∀ (p : Str) (ts : Nat) (hash : Str), validate p = .ok → isAllowed p = true →
      isUnderConflictsDir p = false → ts < 2 ^ 64 → IsHexHash hash → Reverses p ts hash := by
  intro h
  have hreverses := h "knowledge/foo.".toList 7 "ab".toList (by decide) (by decide) (by decide)
    (by decide) ⟨by decide, by simp⟩
  exact absurd hreverses.original (by decide)

end TeamClu.Sync
