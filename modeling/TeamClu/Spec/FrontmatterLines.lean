import TeamClu.ForStd.Lines
import TeamClu.Native.SkillFrontmatter

/-!
# The lines of a frontmatter

What `write_frontmatter` emits for a key is read back line by line.  A text of one line comes back as
it was (`unquote_inlineText`), a block comes back unless a line of it is white space only, or starts
or ends in the wrong place (`BlockText`), and a list comes back unless an item is empty or has several
lines (`reread_eq_self_iff`).  The reader stands at the next key afterwards (`assignments_entry`).
-/

namespace TeamClu.Skills

/-! ## Newlines -/

/-- What the normalization makes of a terminated line. -/
def withoutCr (line : Str) : Str := if line.getLast? = some '\r' then line.dropLast else line

@[simp] theorem withoutCr_nil : withoutCr [] = [] := rfl

/-- A line that does not end in `\r` stays. -/
theorem withoutCr_eq_self {line : Str} (h : line.getLast? ≠ some '\r') : withoutCr line = line :=
  if_neg h

theorem withoutCr_isPrefix (line : Str) : withoutCr line <+: line := by
  unfold withoutCr
  split
  · exact List.dropLast_prefix line
  · exact List.prefix_rfl

/-- A line that ends in `\r` is that line and the `\r`. -/
private theorem eq_append_cr {line : Str} (h : line.getLast? = some '\r') :
    line = withoutCr line ++ ['\r'] := by
  have hne : line ≠ [] := List.ne_nil_of_mem (List.mem_of_getLast? h)
  have hlast : line.getLast hne = '\r' :=
    Option.some.inj ((List.getLast?_eq_some_getLast hne).symm.trans h)
  rw [withoutCr, if_pos h, ← hlast, List.dropLast_append_getLast hne]

/-- The `\r` is white space, and is no indent. -/
theorem trim_withoutCr (line : Str) : Str.trim (withoutCr line) = Str.trim line := by
  by_cases h : line.getLast? = some '\r'
  · conv => rhs; rw [eq_append_cr h]
    rw [Str.trim, Str.trim, List.rdropWhile_concat_pos _ _ _ (by decide)]
  · rw [withoutCr_eq_self h]

theorem indentOf_withoutCr (line : Str) : indentOf (withoutCr line) = indentOf line := by
  by_cases h : line.getLast? = some '\r'
  · conv => rhs; rw [eq_append_cr h]
    rw [indentOf, indentOf, List.takeWhile_append]
    split
    · rw [List.takeWhile_cons_of_neg (by decide), List.append_nil]
      assumption
    · rfl
  · rw [withoutCr_eq_self h]

/-- Nothing happens at a character that does not start a `\r\n`. -/
theorem normalizeNewlines_cons {c : Char} {rest : Str}
    (h : c = '\r' → rest.head? ≠ some '\n') :
    normalizeNewlines (c :: rest) = c :: normalizeNewlines rest := by
  refine normalizeNewlines.eq_2 c rest fun rest' hc hrest => ?_
  exact h hc (by rw [hrest]; rfl)

/-- A terminated line is normalized on its own. -/
theorem normalizeNewlines_line {line : Str} (hline : '\n' ∉ line) (rest : Str) :
    normalizeNewlines (line ++ '\n' :: rest) = withoutCr line ++ '\n' :: normalizeNewlines rest := by
  induction line with
  | nil => rfl
  | cons c line ih =>
    rw [List.mem_cons, not_or] at hline
    cases line with
    | nil =>
      by_cases hc : c = '\r'
      · subst hc
        rfl
      · rw [List.singleton_append, normalizeNewlines_cons fun h => absurd h hc,
          withoutCr_eq_self (by simpa using hc)]
        rfl
    | cons d line =>
      have hd : d ≠ '\n' := fun h => hline.2 (h ▸ List.mem_cons_self)
      rw [List.cons_append, normalizeNewlines_cons fun _ => by simpa using hd, ih hline.2]
      unfold withoutCr
      rw [List.getLast?_cons_cons]
      split <;> simp

/-- So are all of them. -/
theorem normalizeNewlines_unlines {lines : List Str} (hlines : ∀ l ∈ lines, '\n' ∉ l) (tail : Str) :
    normalizeNewlines (Lines.unlines '\n' lines ++ tail) =
      Lines.unlines '\n' (lines.map withoutCr) ++ normalizeNewlines tail := by
  induction lines with
  | nil => rfl
  | cons l ls ih =>
    rw [Lines.unlines_cons, List.append_assoc, List.cons_append,
      normalizeNewlines_line (hlines l List.mem_cons_self),
      ih fun m hm => hlines m (List.mem_cons_of_mem _ hm), List.map_cons, Lines.unlines_cons,
      List.append_assoc, List.cons_append]

theorem length_normalizeNewlines_le (s : Str) : (normalizeNewlines s).length ≤ s.length := by
  induction s using normalizeNewlines.induct with
  | case1 rest ih =>
    rw [normalizeNewlines]
    simp only [List.length_cons]
    omega
  | case2 c rest hne ih =>
    rw [normalizeNewlines_cons fun hc hhead => ?_]
    · simpa using ih
    · obtain ⟨rest', rfl⟩ := List.head?_eq_some_iff.mp hhead
      exact hne rest' hc rfl
  | case3 => exact Nat.le_refl _

/-- A text that has no `\r\n` is normalized, and no other. -/
theorem normalizeNewlines_eq_self_iff (s : Str) :
    normalizeNewlines s = s ↔ Str.contains s "\r\n".toList = false := by
  induction s using normalizeNewlines.induct with
  | case1 rest ih =>
    refine iff_of_false (fun h => ?_) (by simp [Str.contains])
    have hlen := congrArg List.length h
    have := length_normalizeNewlines_le rest
    rw [normalizeNewlines] at hlen
    simp only [List.length_cons] at hlen
    omega
  | case2 c rest hne ih =>
    have hhead : "\r\n".toList.isPrefixOf (c :: rest) = false := by
      rw [Bool.eq_false_iff]
      intro h
      obtain ⟨t, ht⟩ := List.isPrefixOf_iff_prefix.mp h
      exact hne t (List.cons.inj ht).1.symm (List.cons.inj ht).2.symm
    rw [normalizeNewlines.eq_2 c rest hne, List.cons.injEq, and_iff_right rfl, ih]
    simp only [Str.contains, List.tails_cons, List.any_cons, hhead, Bool.false_or]
  | case3 => simp [normalizeNewlines, Str.contains]

/-! ## Trimming -/

/-- A text is trimmed when it neither starts nor ends with white space. -/
theorem trim_eq_self_iff {s : Str} :
    Str.trim s = s ↔ (∀ c ∈ s.head?, Str.isWhiteSpace c = false) ∧
      ∀ c ∈ s.getLast?, Str.isWhiteSpace c = false := by
  have hright : s.rdropWhile Str.isWhiteSpace = s ↔
      ∀ c ∈ s.getLast?, Str.isWhiteSpace c = false := by
    rw [List.rdropWhile_eq_self_iff]
    cases hs : s.getLast? with
    | none => simp [List.getLast?_eq_none_iff.mp hs]
    | some c =>
      have hne : s ≠ [] := List.ne_nil_of_mem (List.mem_of_getLast? hs)
      rw [List.getLast?_eq_some_getLast hne, Option.some.injEq] at hs
      simp [hne, hs]
  have hleft : s.dropWhile Str.isWhiteSpace = s ↔ ∀ c ∈ s.head?, Str.isWhiteSpace c = false := by
    cases s with
    | nil => simp
    | cons c s =>
      rw [List.dropWhile_eq_self_iff]
      simp
  rw [← hright, ← hleft]
  constructor
  · intro h
    have hkeep : s.rdropWhile Str.isWhiteSpace = s := by
      refine List.IsPrefix.eq_of_length (List.rdropWhile_prefix _ _) ?_
      have hle := (List.dropWhile_suffix (p := Str.isWhiteSpace)
        (l := s.rdropWhile Str.isWhiteSpace)).length_le
      have hle' := (List.rdropWhile_prefix Str.isWhiteSpace s).length_le
      rw [Str.trim] at h
      rw [h] at hle
      omega
    rw [Str.trim, hkeep] at h
    exact ⟨h, hkeep⟩
  · rintro ⟨hl, hr⟩
    rw [Str.trim, hr, hl]

/-- White space at the start is trimmed away. -/
theorem trim_append {w : Str} (hw : ∀ c ∈ w, Str.isWhiteSpace c = true) (s : Str) :
    Str.trim (w ++ s) = Str.trim s := by
  unfold Str.trim
  by_cases hs : s.rdropWhile Str.isWhiteSpace = []
  · have hall : (w ++ s).rdropWhile Str.isWhiteSpace = [] := by
      rw [List.rdropWhile_eq_nil_iff] at hs ⊢
      intro c hc
      exact (List.mem_append.mp hc).elim (hw c) (hs c)
    rw [hs, hall]
  · have hsplit : (w ++ s).rdropWhile Str.isWhiteSpace = w ++ s.rdropWhile Str.isWhiteSpace := by
      unfold List.rdropWhile at hs ⊢
      rw [List.reverse_append, List.dropWhile_append, if_neg (by simpa using hs),
        List.reverse_append, List.reverse_reverse]
    rw [hsplit, List.dropWhile_append_of_pos hw]

/-! ## A value on one line -/

/-- The text of a value without newlines. -/
def inlineText (v : Str) : Str := if needsQuoting v then '"' :: escape v ++ ['"'] else v

theorem serializeScalar_eq_inlineText {v : Str} (hv : '\n' ∉ v) :
    serializeScalar v = inlineText v :=
  if_neg (by simpa using hv)

private theorem unescape_cons {c : Char} (hc : c ≠ '\\') (s : Str) :
    unescape (c :: s) = c :: unescape s :=
  unescape.eq_2 c s fun _ _ h => absurd h hc

/-- The escapes are undone. -/
theorem unescape_escape (v : Str) : unescape (escape v) = v := by
  induction v with
  | nil => rfl
  | cons c v ih =>
    have hcons : escape (c :: v) = (if c = '\\' || c = '"' then ['\\', c] else [c]) ++ escape v :=
      rfl
    rw [hcons]
    by_cases hc : c = '\\' ∨ c = '"'
    · rw [if_pos (by simpa using hc)]
      change unescape ('\\' :: c :: escape v) = _
      rw [unescape, if_pos (by simpa using hc.symm), ih]
    · rw [if_neg (by simpa using hc), List.singleton_append,
        unescape_cons (fun h => hc (Or.inl h)), ih]

/-- A value that needs no quotes is trimmed. -/
private theorem trim_eq_of_not_needsQuoting {v : Str} (h : needsQuoting v = false) :
    Str.trim v = v := by
  simp only [needsQuoting, Bool.or_eq_false_iff, decide_eq_false_iff_not, not_not] at h
  exact h.1.1.1.symm

/-- It does not start with a character that means something. -/
private theorem head_of_not_needsQuoting {v : Str} (h : needsQuoting v = false) {c : Char}
    (hc : v.head? = some c) : c ∉ "[]\x7b\x7d>|*&!%@`'\"".toList := by
  simp only [needsQuoting, Bool.or_eq_false_iff, hc, Option.any_some] at h
  intro hmem
  rw [List.contains_iff_mem.mpr hmem] at h
  exact absurd h.1.1.2 (by simp)

/-- The text of a value is trimmed. -/
theorem trim_inlineText (v : Str) : Str.trim (inlineText v) = inlineText v := by
  unfold inlineText
  cases hq : needsQuoting v with
  | false => exact trim_eq_of_not_needsQuoting hq
  | true =>
    rw [if_pos rfl, trim_eq_self_iff, List.getLast?_concat]
    constructor <;> rintro c ⟨⟩ <;> rfl

/-- The text of a value is read back as the value. -/
theorem unquote_inlineText (v : Str) : daemonReading.unquote (inlineText v) = v := by
  have htrim : daemonReading.trim (inlineText v) = inlineText v := trim_inlineText v
  unfold Reading.unquote
  simp only [htrim]
  cases hq : needsQuoting v with
  | true =>
    have htext : inlineText v = '"' :: escape v ++ ['"'] := if_pos hq
    rw [htext, if_pos (by rw [List.getLast?_concat]; simp), List.cons_append, List.tail_cons,
      List.dropLast_concat]
    exact unescape_escape v
  | false =>
    have htext : inlineText v = v := if_neg (by simp [hq])
    have hhead : ∀ c, v.head? = some c → c ≠ '"' ∧ c ≠ '\'' := fun c hc =>
      have hmem := head_of_not_needsQuoting hq hc
      ⟨fun h => hmem (by rw [h]; decide), fun h => hmem (by rw [h]; decide +kernel)⟩
    have hnot : ∀ q : Char, q = '"' ∨ q = '\'' →
        ¬ (2 ≤ v.length && v.head? = some q && v.getLast? = some q) = true := by
      intro q hq h
      simp only [Bool.and_eq_true, decide_eq_true_eq] at h
      exact hq.elim (hhead q h.1.2).1 (hhead q h.1.2).2
    rw [htext, if_neg (hnot _ (Or.inl rfl)), if_neg (hnot _ (Or.inr rfl))]

/-- Only the empty value has no text. -/
theorem inlineText_eq_nil {v : Str} : inlineText v = [] ↔ v = [] := by
  unfold inlineText
  cases hq : needsQuoting v with
  | false => simp
  | true =>
    have hne : v ≠ [] := fun h => absurd hq (by rw [h]; decide)
    simp [hne]

/-- The text starts with none of the marks of blocks and lists. -/
theorem head_inlineText {v : Str} {c : Char} (hc : (inlineText v).head? = some c) :
    c ≠ '|' ∧ c ≠ '>' ∧ c ≠ '[' := by
  unfold inlineText at hc
  cases hq : needsQuoting v with
  | true =>
    rw [if_pos hq] at hc
    obtain rfl := Option.some.inj hc
    decide
  | false =>
    rw [if_neg (by simp [hq])] at hc
    have hmem := head_of_not_needsQuoting hq hc
    exact ⟨fun h => hmem (by rw [h]; decide), fun h => hmem (by rw [h]; decide +kernel),
      fun h => hmem (by rw [h]; decide)⟩

/-- The text has no newline when the value has none. -/
theorem newline_not_mem_inlineText {v : Str} (hv : '\n' ∉ v) : '\n' ∉ inlineText v := by
  unfold inlineText
  split
  · have hescape : '\n' ∉ escape v := by
      simp only [escape, List.mem_flatMap, not_exists, not_and]
      intro c hc
      have hne : '\n' ≠ c := fun h => hv (h ▸ hc)
      split <;> simp [hne]
    simpa using hescape
  · exact hv

/-! ## The lines of an entry -/

/-- A line of a block, indented. -/
def blockLine (line : Str) : Str := if line = [] then [] else "  ".toList ++ line

/-- The lines of a list item. -/
def itemLines (item : Str) : List Str :=
  if '\n' ∈ item then "  - |".toList :: (item.splitOn '\n').map blockLine
  else ["  - ".toList ++ inlineText item]

/-- What the first line of an entry has behind the colon. -/
def entryText : FrontmatterValue → Str
  | .scalar v => if '\n' ∈ v then " |".toList else ' ' :: inlineText v
  | .list [] => " []".toList
  | .list (_ :: _) => []

/-- The other lines of an entry. -/
def entryTail : FrontmatterValue → List Str
  | .scalar v => if '\n' ∈ v then (v.splitOn '\n').map blockLine else []
  | .list items => items.flatMap itemLines

/-- The lines of an entry. -/
def entryLines (key : Str) (value : FrontmatterValue) : List Str :=
  (key ++ ':' :: entryText value) :: entryTail value

/-- A text with newlines, behind a bar. -/
private theorem serializeScalar_block {v : Str} (hv : '\n' ∈ v) :
    serializeScalar v ++ ['\n'] =
      '|' :: '\n' :: Lines.unlines '\n' ((v.splitOn '\n').map blockLine) := by
  have hne : (v.splitOn '\n').map blockLine ≠ [] := by simp
  rw [serializeScalar, if_pos (by simpa using hv), ← Lines.intercalate_append_sep '\n' hne]
  rfl

/-- The lines of an item. -/
private theorem serializeScalar_item (item : Str) :
    "  - ".toList ++ serializeScalar item ++ ['\n'] = Lines.unlines '\n' (itemLines item) := by
  unfold itemLines
  split
  · next h =>
    rw [List.append_assoc, serializeScalar_block h, Lines.unlines_cons]
    rfl
  · next h =>
    rw [serializeScalar_eq_inlineText h]
    simp

/-- What is written for a key are the lines of its entry. -/
theorem serializeEntry_eq (key : Str) (value : FrontmatterValue) :
    serializeEntry key value = Lines.unlines '\n' (entryLines key value) := by
  unfold entryLines
  rw [Lines.unlines_cons]
  match value with
  | .scalar v =>
    simp only [serializeEntry, entryText, entryTail]
    rw [List.append_assoc]
    split
    · next h =>
      rw [serializeScalar_block h]
      simp
    · next h =>
      rw [serializeScalar_eq_inlineText h]
      simp
  | .list [] => simp [serializeEntry, entryText, entryTail]
  | .list (item :: items) =>
    have hitems : ∀ l : List Str,
        (l.flatMap fun item => "  - ".toList ++ serializeScalar item ++ ['\n']) =
          Lines.unlines '\n' (l.flatMap itemLines) := by
      intro l
      induction l with
      | nil => rfl
      | cons x l ih =>
        rw [List.flatMap_cons, List.flatMap_cons, Lines.unlines_append, ih, serializeScalar_item]
    simp only [serializeEntry, entryText, entryTail]
    rw [hitems]
    simp

private theorem newline_not_mem_blockLine {v l : Str} (hl : l ∈ (v.splitOn '\n').map blockLine) :
    '\n' ∉ l := by
  obtain ⟨m, hm, rfl⟩ := List.mem_map.mp hl
  have hm : '\n' ∉ m := Lines.not_mem_of_mem_splitOn hm
  unfold blockLine
  split <;> simp [hm]

/-- No line of an entry has a newline. -/
theorem newline_not_mem_entryLines {key : Str} (hkey : '\n' ∉ key) {value : FrontmatterValue} {l : Str}
    (hl : l ∈ entryLines key value) : '\n' ∉ l := by
  rcases List.mem_cons.mp hl with rfl | hl
  · have htext : '\n' ∉ entryText value := by
      unfold entryText
      split
      · split
        · decide
        · next h => simpa using newline_not_mem_inlineText h
      · decide
      · simp
    simp [hkey, htext]
  · unfold entryTail at hl
    split at hl
    · split at hl
      · exact newline_not_mem_blockLine hl
      · exact absurd hl List.not_mem_nil
    · obtain ⟨item, -, hitem⟩ := List.mem_flatMap.mp hl
      unfold itemLines at hitem
      split at hitem
      · rcases List.mem_cons.mp hitem with rfl | hitem
        · decide
        · exact newline_not_mem_blockLine hitem
      · next h =>
        rw [List.mem_singleton.mp hitem]
        simpa using newline_not_mem_inlineText h

/-- Lines that a reader skips between two entries: empty ones, and indented ones. -/
def Indented (line : Str) : Prop := ∀ c ∈ line.head?, c = ' '

/-- The other lines of an entry are indented. -/
theorem indented_entryTail {value : FrontmatterValue} {l : Str} (hl : l ∈ entryTail value) :
    Indented l := by
  have hblock : ∀ v : Str, l ∈ (v.splitOn '\n').map blockLine → Indented l := by
    intro v hl c hc
    obtain ⟨m, -, rfl⟩ := List.mem_map.mp hl
    unfold blockLine at hc
    split at hc
    · cases hc
    · exact (Option.some.inj hc).symm
  unfold entryTail at hl
  split at hl
  · split at hl
    · exact hblock _ hl
    · exact absurd hl List.not_mem_nil
  · obtain ⟨item, -, hitem⟩ := List.mem_flatMap.mp hl
    unfold itemLines at hitem
    split at hitem
    · rcases List.mem_cons.mp hitem with rfl | hitem
      · exact fun c hc => (Option.some.inj hc).symm
      · exact hblock _ hitem
    · rw [List.mem_singleton.mp hitem]
      exact fun c hc => (Option.some.inj hc).symm

/-! ## Reading the lines of an entry -/

/-- What follows the lines of an entry: the first line of another one, or nothing. -/
def StartsKey (lines : List Str) : Prop := ∀ line ∈ lines.head?, ∃ c ∈ line.head?, isKeyStart c = true

/-- Keys start with an ASCII letter or an underscore. -/
theorem toNat_of_isKeyStart {c : Char} (h : isKeyStart c = true) :
    (65 ≤ c.toNat ∧ c.toNat ≤ 90) ∨ (97 ≤ c.toNat ∧ c.toNat ≤ 122) ∨ c.toNat = 95 := by
  delta isKeyStart Char.isAlpha Char.isUpper Char.isLower at h
  simp only [Bool.or_eq_true, decide_eq_true_eq, Bool.and_eq_true] at h
  rcases h with (⟨h1, h2⟩ | ⟨h1, h2⟩) | rfl
  · exact Or.inl ⟨h1, h2⟩
  · exact Or.inr (Or.inl ⟨h1, h2⟩)
  · exact Or.inr (Or.inr rfl)

/-- A character that starts a key means nothing else. -/
theorem not_special_of_isKeyStart {c : Char} (h : isKeyStart c = true) :
    Str.isWhiteSpace c = false ∧ c ≠ '#' ∧ c ≠ '-' ∧ c ≠ ' ' ∧ c ≠ '\t' := by
  have hcases := toNat_of_isKeyStart h
  refine ⟨?_, ?_, ?_, ?_, ?_⟩
  · simp [Str.isWhiteSpace]
    omega
  all_goals
    rintro rfl
    revert hcases
    decide

/-- The first line of an entry is neither blank nor an item, and it is not indented. -/
private theorem keyLine_facts {line : Str} {c : Char} (hc : line.head? = some c)
    (hkey : isKeyStart c = true) :
    Str.trim line ≠ [] ∧ indentOf line = 0 ∧ "- ".toList.isPrefixOf (Str.trim line) = false := by
  obtain ⟨rest, rfl⟩ := List.head?_eq_some_iff.mp hc
  obtain ⟨hspace, -, hdash, hblank, htab⟩ := not_special_of_isKeyStart hkey
  have hne : Str.trim (c :: rest) ≠ [] := Str.trim_ne_nil List.mem_cons_self hspace
  refine ⟨hne, by simp [indentOf, hblank, htab], ?_⟩
  -- the trimmed line still starts with the key
  have htrim : ∃ t, Str.trim (c :: rest) = c :: t := by
    have hpre : (c :: rest).rdropWhile Str.isWhiteSpace <+: c :: rest := List.rdropWhile_prefix _ _
    unfold Str.trim at hne ⊢
    cases hr : (c :: rest).rdropWhile Str.isWhiteSpace with
    | nil => exact absurd (by rw [hr]; rfl) hne
    | cons d t =>
      rw [hr] at hpre
      obtain rfl : d = c := (List.cons_prefix_cons.mp hpre).1
      exact ⟨t, by rw [List.dropWhile_cons_of_neg (by simp [hspace])]⟩
  obtain ⟨t, ht⟩ := htrim
  rw [ht, Bool.eq_false_iff]
  intro h
  exact hdash (List.cons_prefix_cons.mp (List.isPrefixOf_iff_prefix.mp h)).1.symm

/-- A block ends before the next key. -/
theorem collectBlock_append {rest : List Str} (hrest : StartsKey rest) (lines : List Str)
    {base : Option Nat} (hbase : ∀ b ∈ base, 0 < b) :
    daemonReading.collectBlock base (lines ++ rest) = daemonReading.collectBlock base lines := by
  induction lines generalizing base with
  | nil =>
    cases rest with
    | nil => rfl
    | cons line rest =>
      obtain ⟨c, hc, hkey⟩ := hrest line rfl
      obtain ⟨hblank, hindent, -⟩ := keyLine_facts hc hkey
      have hblank : daemonReading.trim line ≠ [] := hblank
      have hpos : 0 < base.getD 1 := by
        cases base with
        | none => exact Nat.one_pos
        | some b => exact hbase b rfl
      rw [List.nil_append, Reading.collectBlock.eq_2, if_neg hblank]
      simp only [hindent]
      rw [if_pos hpos]
      rfl
  | cons line lines ih =>
    rw [List.cons_append, Reading.collectBlock, Reading.collectBlock, ih hbase]
    split
    · rfl
    · simp only
      split
      · rfl
      · next hnot =>
        rw [ih fun b hb => ?_]
        obtain rfl := Option.some.inj hb
        cases base with
        | none =>
          rw [Option.getD_none] at hnot ⊢
          omega
        | some b => exact hbase b rfl

/-- A list ends before the next key. -/
theorem listItems_append {rest : List Str} (hrest : StartsKey rest) (lines : List Str) :
    daemonReading.listItems (lines ++ rest) = daemonReading.listItems lines := by
  induction lines with
  | nil =>
    cases rest with
    | nil => rfl
    | cons line rest =>
      obtain ⟨c, hc, hkey⟩ := hrest line rfl
      have hitem : "- ".toList.isPrefixOf (daemonReading.trim line) = false :=
        (keyLine_facts hc hkey).2.2
      rw [List.nil_append, Reading.listItems.eq_2, hitem]
      rfl
  | cons line lines ih => rw [List.cons_append, Reading.listItems, Reading.listItems, ih]

/-- A value ends before the next key. -/
theorem readValue_append {rest : List Str} (hrest : StartsKey rest) (text : Str) (lines : List Str) :
    daemonReading.readValue text (lines ++ rest) = daemonReading.readValue text lines := by
  unfold Reading.readValue Reading.readBlock
  rw [collectBlock_append hrest lines (fun _ h => (by cases h)), listItems_append hrest]

theorem collectBlock_snd_le (base : Option Nat) (lines : List Str) :
    (daemonReading.collectBlock base lines).2 ≤ lines.length := by
  induction lines generalizing base with
  | nil => exact Nat.le_refl 0
  | cons line lines ih =>
    unfold Reading.collectBlock
    split
    · exact Nat.succ_le_succ (ih _)
    · simp only
      split
      · exact Nat.zero_le _
      · exact Nat.succ_le_succ (ih _)

theorem length_listItems_le (lines : List Str) :
    (daemonReading.listItems lines).length ≤ lines.length := by
  induction lines with
  | nil => exact Nat.le_refl 0
  | cons line lines ih =>
    unfold Reading.listItems
    split
    · exact Nat.succ_le_succ ih
    · exact Nat.zero_le _

theorem readValue_snd_le (text : Str) (lines : List Str) :
    (daemonReading.readValue text lines).2 ≤ lines.length := by
  unfold Reading.readValue
  split
  · exact collectBlock_snd_le none lines
  split
  · have := length_listItems_le lines
    split
    · exact Nat.zero_le _
    · exact this
  split <;> exact Nat.zero_le _

/-- Indented lines between two entries are skipped. -/
theorem assignments_indented {lines : List Str} (hlines : ∀ l ∈ lines, Indented l) (rest : List Str)
    (n : Nat) (hn : n ≤ lines.length) :
    daemonReading.assignments n (lines ++ rest) = daemonReading.assignments 0 rest := by
  induction lines generalizing n with
  | nil =>
    obtain rfl : n = 0 := Nat.le_zero.mp hn
    rfl
  | cons line lines ih =>
    have ih := ih fun l hl => hlines l (List.mem_cons_of_mem _ hl)
    cases n with
    | succ n => exact ih n (Nat.le_of_succ_le_succ hn)
    | zero =>
      rw [List.cons_append, Reading.assignments]
      split
      · exact ih 0 (Nat.zero_le _)
      · next hblank =>
        -- the line is not empty, so its key would start with a blank
        have hsplit : daemonReading.splitKey line = none := by
          cases line with
          | nil => exact absurd rfl hblank
          | cons c line =>
            obtain rfl : c = ' ' := hlines _ List.mem_cons_self c rfl
            change splitKey (' ' :: line) = none
            rw [splitKey, Str.splitOnce, if_neg (by simp)]
            cases Str.splitOnce ":".toList line with
            | none => rfl
            | some parts => rfl
        rw [hsplit]
        exact ih 0 (Nat.zero_le _)

theorem Indented.withoutCr {line : Str} (h : Indented line) : Indented (withoutCr line) := by
  intro c hc
  obtain ⟨t, ht⟩ := withoutCr_isPrefix line
  refine h c ?_
  rw [← ht]
  exact List.head?_append_of_ne_nil _ (List.ne_nil_of_mem (List.mem_of_mem_head? hc)) ▸ hc

/-- The first line of an entry does not end in `\r`. -/
theorem getLast_entryText (key : Str) (value : FrontmatterValue) :
    (key ++ ':' :: entryText value).getLast? ≠ some '\r' := by
  rw [List.getLast?_append_cons]
  unfold entryText
  split
  · next v =>
    split
    · decide
    · by_cases hnil : inlineText v = []
      · rw [hnil]
        decide
      · rw [List.getLast?_cons_cons, List.getLast?_cons_of_ne_nil hnil]
        intro hlast
        have := (trim_eq_self_iff.mp (trim_inlineText v)).2 _ hlast
        exact absurd this (by decide)
  · decide
  · decide

/-- What is read where a value was written. -/
def reread (value : FrontmatterValue) : FrontmatterValue :=
  (daemonReading.readValue (Str.trim (entryText value)) ((entryTail value).map withoutCr)).1

/-- The key of a line is what stands before the colon. -/
theorem splitKey_append {key : Str} (hkey : isKey key = true) (text : Str) :
    splitKey (key ++ ':' :: text) = some (key, Str.trim text) := by
  have hcolon : ':' ∉ key := by
    cases key with
    | nil => exact List.not_mem_nil
    | cons c key =>
      simp only [isKey, Bool.and_eq_true, List.all_eq_true] at hkey
      rintro (_ | ⟨_, hmem⟩)
      · exact absurd hkey.1 (by decide)
      · exact absurd (hkey.2 _ hmem) (by decide)
  have hsplit : ∀ k : Str, ':' ∉ k → Str.splitOnce ":".toList (k ++ ':' :: text) = some (k, text) := by
    intro k hk
    induction k with
    | nil => simp [Str.splitOnce]
    | cons c k ih =>
      rw [List.mem_cons, not_or] at hk
      rw [List.cons_append, Str.splitOnce, if_neg (by simpa using hk.1), ih hk.2]
      rfl
  rw [splitKey, hsplit key hcolon]
  exact if_pos hkey

/-- The lines of an entry are read as one value, with the rest of the region behind it. -/
theorem assignments_entry {key : Str} (hkey : isKey key = true) (value : FrontmatterValue)
    {rest : List Str} (hrest : StartsKey rest) :
    daemonReading.assignments 0 ((entryLines key value).map withoutCr ++ rest) =
      (key, reread value) :: daemonReading.assignments 0 rest := by
  have hhead : ∃ c t, key = c :: t ∧ isKeyStart c = true := by
    cases key with
    | nil => exact absurd hkey (by decide)
    | cons c t =>
      simp only [isKey, Bool.and_eq_true] at hkey
      exact ⟨c, t, rfl, hkey.1⟩
  obtain ⟨c, t, hct, hstart⟩ := hhead
  obtain ⟨hspace, hhash, -⟩ := not_special_of_isKeyStart hstart
  have hblank : ¬ (daemonReading.trim (key ++ ':' :: entryText value) = [] ||
      ((key ++ ':' :: entryText value).dropWhile daemonReading.isSpace).head? = some '#') = true := by
    have hne : daemonReading.trim (key ++ ':' :: entryText value) ≠ [] :=
      Str.trim_ne_nil (c := c) (by simp [hct]) hspace
    have hdrop : (key ++ ':' :: entryText value).dropWhile daemonReading.isSpace =
        key ++ ':' :: entryText value := by
      rw [hct, List.cons_append, List.dropWhile_cons_of_neg]
      exact Bool.not_eq_true _ ▸ hspace
    have hfirst : (key ++ ':' :: entryText value).head? = some c := by rw [hct]; rfl
    rw [hdrop, hfirst]
    simp [hne, hhash]
  have hsplit : daemonReading.splitKey (key ++ ':' :: entryText value) =
      some (key, Str.trim (entryText value)) := splitKey_append hkey _
  rw [entryLines, List.map_cons, withoutCr_eq_self (getLast_entryText key value), List.cons_append,
    Reading.assignments, if_neg hblank, hsplit]
  simp only
  rw [readValue_append hrest, assignments_indented ?_ rest _ (readValue_snd_le _ _)]
  · rfl
  · intro l hl
    obtain ⟨m, hm, rfl⟩ := List.mem_map.mp hl
    exact (indented_entryTail hm).withoutCr

/-! ## The values that are read back -/

/-- The lines of a text that a block brings back: none is white space only or ends in `\r`, the first
    one that is not empty is not indented, and the last one is not empty. -/
def BlockText (lines : List Str) : Prop :=
  (∀ l ∈ lines, l = [] ∨ (Str.trim l ≠ [] ∧ l.getLast? ≠ some '\r')) ∧
    (∀ l ∈ lines.find? (· ≠ []), indentOf l = 0) ∧ lines.getLast? ≠ some []

/-- The values that come back: texts of one line, texts of several lines that a block can hold, and
    lists of texts of one line that are not empty. -/
def Writable : FrontmatterValue → Prop
  | .scalar v => '\n' ∈ v → BlockText (v.splitOn '\n')
  | .list items => ∀ item ∈ items, item ≠ [] ∧ '\n' ∉ item

private theorem trim_blockLine (l : Str) : Str.trim (blockLine l) = Str.trim l := by
  unfold blockLine
  split
  · next h => rw [h]
  · exact trim_append (List.all_eq_true.mp (by decide)) l

/-- A line of a block comes back when as much is cut as was put before it. -/
private theorem drop_blockLine {l : Str} (hne : l ≠ []) {n : Nat} (hn : 2 ≤ n) :
    (withoutCr (blockLine l)).drop n = l ↔ n = 2 ∧ l.getLast? ≠ some '\r' := by
  have hline : blockLine l = ' ' :: ' ' :: l := if_neg hne
  have hlast : (blockLine l).getLast? = l.getLast? := by
    rw [hline, List.getLast?_cons_cons, List.getLast?_cons_of_ne_nil hne]
  constructor
  · intro h
    have hlen := congrArg List.length h
    have hpos := List.length_pos_iff.mpr hne
    by_cases hcr : l.getLast? = some '\r'
    · rw [withoutCr, if_pos (hlast.trans hcr), hline] at hlen
      simp only [List.length_drop, List.length_dropLast, List.length_cons] at hlen
      omega
    · rw [withoutCr_eq_self (hlast ▸ hcr), hline] at hlen
      simp only [List.length_drop, List.length_cons] at hlen
      exact ⟨by omega, hcr⟩
  · rintro ⟨rfl, hcr⟩
    rw [withoutCr_eq_self (hlast ▸ hcr), hline]
    rfl

/-- The lines of a block come back when its indent is the one they were written with. -/
private theorem collectBlock_blockLines (lines : List Str) {base : Option Nat}
    (hbase : ∀ b ∈ base, 2 ≤ b) :
    (daemonReading.collectBlock base (lines.map fun l => withoutCr (blockLine l))).1 = lines ↔
      (∀ l ∈ lines, l = [] ∨ (Str.trim l ≠ [] ∧ l.getLast? ≠ some '\r')) ∧
        ∀ l ∈ lines.find? (· ≠ []), base.getD (2 + indentOf l) = 2 := by
  induction lines generalizing base with
  | nil => simp [Reading.collectBlock]
  | cons l ls ih =>
    rw [List.map_cons, Reading.collectBlock.eq_2]
    by_cases hblank : Str.trim l = []
    · -- a blank line is read as an empty one
      have htrim : daemonReading.trim (withoutCr (blockLine l)) = [] :=
        (trim_withoutCr _).trans ((trim_blockLine l).trans hblank)
      rw [if_pos htrim, List.forall_mem_cons]
      simp only [List.cons.injEq, ih hbase]
      by_cases hl : l = []
      · rw [List.find?_cons_of_neg (by simp [hl])]
        simp [hl]
      · simp [hl, hblank, Ne.symm hl]
    · have htrim : ¬ daemonReading.trim (withoutCr (blockLine l)) = [] := by
        change Str.trim _ ≠ []
        rwa [trim_withoutCr, trim_blockLine]
      have hne : l ≠ [] := fun h => hblank (by rw [h]; rfl)
      have hindent : indentOf (withoutCr (blockLine l)) = 2 + indentOf l := by
        rw [indentOf_withoutCr, blockLine, if_neg hne]
        simp only [indentOf]
        rw [List.takeWhile_append_of_pos (List.all_eq_true.mp (by decide)), List.length_append]
        rfl
      rw [if_neg htrim, List.find?_cons_of_pos (by simpa using hne)]
      simp only [hindent]
      split
      · next hbreak =>
        -- the block ends here, as its indent is larger
        refine iff_of_false (by simp) fun h => ?_
        have := h.2 l rfl
        cases base with
        | none =>
          rw [Option.getD_none] at hbreak
          omega
        | some b =>
          rw [Option.getD_some] at hbreak this
          omega
      · have hle : 2 ≤ base.getD (2 + indentOf l) := by
          cases base with
          | none => exact Nat.le_add_right 2 _
          | some b => exact hbase b rfl
        simp only [List.cons.injEq, drop_blockLine hne hle,
          ih fun b hb => Option.some.inj hb ▸ hle, Option.getD_some, List.forall_mem_cons]
        have hfirst : ∀ m : Str, m ∈ some l ↔ l = m := fun m => by simp
        simp only [hfirst, forall_eq', hne, false_or, and_iff_right hblank]
        constructor
        · rintro ⟨⟨hb, hcr⟩, hlines, -⟩
          exact ⟨⟨hcr, hlines⟩, hb⟩
        · rintro ⟨⟨hcr, hlines⟩, hb⟩
          exact ⟨⟨hb, hcr⟩, hlines, fun _ _ => hb⟩

private theorem mem_of_mem_trim {s : Str} {c : Char} (h : c ∈ Str.trim s) : c ∈ s :=
  (List.rdropWhile_prefix _ _).subset ((List.dropWhile_suffix _).subset h)

private theorem mem_of_mem_unescape {s : Str} {c : Char} (h : c ∈ unescape s) : c ∈ s := by
  induction s using unescape.induct with
  | case1 d rest hd ih =>
    rw [unescape, if_pos (by simpa using hd)] at h
    rcases List.mem_cons.mp h with rfl | h
    · simp
    · exact List.mem_cons_of_mem _ (List.mem_cons_of_mem _ (ih h))
  | case2 d rest hd ih =>
    rw [unescape, if_neg (by simpa using hd)] at h
    rcases List.mem_cons.mp h with rfl | h
    · simp
    rcases List.mem_cons.mp h with rfl | h
    · simp
    · exact List.mem_cons_of_mem _ (List.mem_cons_of_mem _ (ih h))
  | case3 d rest hne ih =>
    rw [unescape.eq_2 d rest hne] at h
    rcases List.mem_cons.mp h with rfl | h
    · exact List.mem_cons_self
    · exact List.mem_cons_of_mem _ (ih h)
  | case4 => exact h

private theorem mem_of_mem_unquote {s : Str} {c : Char} (h : c ∈ daemonReading.unquote s) : c ∈ s := by
  have hinner : ∀ t : Str, c ∈ t.tail.dropLast → c ∈ t := fun t ht =>
    List.mem_of_mem_tail (List.mem_of_mem_dropLast ht)
  refine mem_of_mem_trim ?_
  unfold Reading.unquote at h
  simp only at h
  split at h
  · exact hinner _ (mem_of_mem_unescape h)
  split at h
  · exact hinner _ h
  · exact h

/-- What is read from a block has no newline in a line, and no more lines than there were. -/
private theorem collectBlock_facts {lines : List Str} (hlines : ∀ l ∈ lines, '\n' ∉ l)
    (base : Option Nat) :
    (∀ l ∈ (daemonReading.collectBlock base lines).1, '\n' ∉ l) ∧
      (daemonReading.collectBlock base lines).1.length ≤ lines.length := by
  induction lines generalizing base with
  | nil => simp [Reading.collectBlock]
  | cons line lines ih =>
    have ih := ih fun l hl => hlines l (List.mem_cons_of_mem _ hl)
    unfold Reading.collectBlock
    split
    · refine ⟨?_, Nat.succ_le_succ (ih base).2⟩
      rw [List.forall_mem_cons]
      exact ⟨List.not_mem_nil, (ih base).1⟩
    · simp only
      split
      · simp
      · refine ⟨?_, Nat.succ_le_succ (ih _).2⟩
        rw [List.forall_mem_cons]
        exact ⟨fun h => hlines line List.mem_cons_self (List.mem_of_mem_drop h), (ih _).1⟩

private theorem rdropWhile_empty_iff {lines : List Str} :
    lines.rdropWhile (· = []) = lines ↔ lines.getLast? ≠ some [] := by
  rw [List.rdropWhile_eq_self_iff]
  cases h : lines.getLast? with
  | none => simp [List.getLast?_eq_none_iff.mp h]
  | some l =>
    have hne : lines ≠ [] := List.ne_nil_of_mem (List.mem_of_getLast? h)
    rw [List.getLast?_eq_some_getLast hne, Option.some.injEq] at h
    simp [hne, h]

/-- A text of several lines comes back when a block can hold it. -/
theorem reread_block {v : Str} (hv : '\n' ∈ v) :
    reread (.scalar v) = .scalar v ↔ BlockText (v.splitOn '\n') := by
  have hlines : ∀ l ∈ (v.splitOn '\n').map fun l => withoutCr (blockLine l), '\n' ∉ l := by
    intro l hl hmem
    obtain ⟨m, hm, rfl⟩ := List.mem_map.mp hl
    exact newline_not_mem_blockLine (List.mem_map_of_mem hm) ((withoutCr_isPrefix _).subset hmem)
  obtain ⟨hfree, hlen⟩ := collectBlock_facts hlines none
  have hreread : reread (.scalar v) = .scalar (['\n'].intercalate
      ((daemonReading.collectBlock none
        ((v.splitOn '\n').map fun l => withoutCr (blockLine l))).1.rdropWhile (· = []))) := by
    have htext : Str.trim (entryText (.scalar v)) = "|".toList := by
      rw [entryText, if_pos hv]
      decide
    rw [reread, htext, entryTail, if_pos hv, List.map_map]
    rfl
  have hcollect := @collectBlock_blockLines (v.splitOn '\n') none (fun _ h => (by cases h))
  have hfirst : ∀ n : Nat, 2 + n = 2 ↔ n = 0 := fun n => by omega
  simp only [Option.getD_none, hfirst] at hcollect
  rw [hreread, FrontmatterValue.scalar.injEq]
  generalize (daemonReading.collectBlock none
    ((v.splitOn '\n').map fun l => withoutCr (blockLine l))).1 = collected at *
  have hpre : collected.rdropWhile (· = []) <+: collected := List.rdropWhile_prefix _ _
  constructor
  · intro h
    -- the lines that are read are those of the text, so none is missing
    have hne : collected.rdropWhile (· = []) ≠ [] := by
      intro hnil
      rw [hnil] at h
      rw [← h] at hv
      exact absurd hv List.not_mem_nil
    have hsplit : collected.rdropWhile (· = []) = v.splitOn '\n' := by
      rw [← h, List.splitOn_intercalate '\n' (fun l hl => hfree l (hpre.subset hl)) hne]
    have hall : collected.rdropWhile (· = []) = collected := by
      refine hpre.eq_of_length (Nat.le_antisymm hpre.length_le ?_)
      rw [hsplit]
      simpa using hlen
    rw [hall] at hsplit
    rw [hsplit] at hall
    exact ⟨(hcollect.mp hsplit).1, (hcollect.mp hsplit).2, rdropWhile_empty_iff.mp hall⟩
  · rintro ⟨hlines, hfirst, hlast⟩
    rw [hcollect.mpr ⟨hlines, hfirst⟩, rdropWhile_empty_iff.mpr hlast, List.intercalate_splitOn]

private theorem newline_not_mem_listItems {lines : List Str} (hlines : ∀ l ∈ lines, '\n' ∉ l) :
    ∀ item ∈ daemonReading.listItems lines, '\n' ∉ item := by
  induction lines with
  | nil => exact fun _ h => absurd h List.not_mem_nil
  | cons line lines ih =>
    unfold Reading.listItems
    split
    · rw [List.forall_mem_cons]
      refine ⟨fun h => hlines line List.mem_cons_self ?_,
        ih fun l hl => hlines l (List.mem_cons_of_mem _ hl)⟩
      exact mem_of_mem_trim (List.mem_of_mem_drop (mem_of_mem_unquote h))
    · exact fun _ h => absurd h List.not_mem_nil

/-- The line of an item is read as the item, unless the item is empty. -/
private theorem listItems_itemLine {item : Str} (hitem : '\n' ∉ item) (lines : List Str) :
    daemonReading.listItems ((itemLines item).map withoutCr ++ lines) =
      if item = [] then [] else item :: daemonReading.listItems lines := by
  rw [itemLines, if_neg hitem, List.map_singleton, List.singleton_append, Reading.listItems]
  by_cases hnil : item = []
  · subst hnil
    rw [if_pos rfl, if_neg (by decide)]
  · have htext : inlineText item ≠ [] := fun h => hnil (inlineText_eq_nil.mp h)
    obtain ⟨-, hlast⟩ := trim_eq_self_iff.mp (trim_inlineText item)
    have hline : ("  - ".toList ++ inlineText item).getLast? = (inlineText item).getLast? :=
      List.getLast?_append_of_ne_nil _ htext
    have hcr : ("  - ".toList ++ inlineText item).getLast? ≠ some '\r' := by
      intro h
      exact absurd (hlast _ (hline ▸ h)) (by decide)
    have htrim : daemonReading.trim ("  - ".toList ++ inlineText item) =
        "- ".toList ++ inlineText item := by
      change Str.trim ("  ".toList ++ ("- ".toList ++ inlineText item)) = _
      rw [trim_append (List.all_eq_true.mp (by decide)), trim_eq_self_iff,
        List.getLast?_append_of_ne_nil _ htext]
      refine ⟨?_, hlast⟩
      rintro c ⟨⟩
      rfl
    rw [withoutCr_eq_self hcr, htrim, if_pos (by simp), if_neg hnil]
    exact congrArg (· :: _) (unquote_inlineText item)

/-- A list comes back when its items are texts of one line that are not empty. -/
theorem reread_list (items : List Str) :
    reread (.list items) = .list items ↔ Writable (.list items) := by
  cases items with
  | nil => exact iff_of_true (by decide) (fun _ h => absurd h List.not_mem_nil)
  | cons first items =>
    -- texts of one line come back up to the first empty one
    have hread : ∀ l : List Str, (∀ item ∈ l, '\n' ∉ item) →
        (daemonReading.listItems ((l.flatMap itemLines).map withoutCr) = l ↔
          ∀ item ∈ l, item ≠ []) := by
      intro l hl
      induction l with
      | nil => simp [Reading.listItems]
      | cons item l ih =>
        rw [List.flatMap_cons, List.map_append, listItems_itemLine (hl item List.mem_cons_self),
          List.forall_mem_cons]
        by_cases hnil : item = []
        · simp [hnil]
        · rw [if_neg hnil, List.cons.injEq, and_iff_right rfl,
            ih fun i hi => hl i (List.mem_cons_of_mem _ hi), and_iff_right hnil]
    have hreread : reread (.list (first :: items)) = .list (first :: items) ↔
        daemonReading.listItems (((first :: items).flatMap itemLines).map withoutCr) =
          first :: items := by
      have htext : Str.trim (entryText (.list (first :: items))) = [] := rfl
      rw [reread, htext, entryTail, Reading.readValue, if_neg (by decide), if_pos rfl]
      cases daemonReading.listItems (((first :: items).flatMap itemLines).map withoutCr) <;> simp
    rw [hreread]
    constructor
    · intro h
      have hlines : ∀ l ∈ ((first :: items).flatMap itemLines).map withoutCr, '\n' ∉ l := by
        intro l hl hmem
        obtain ⟨m, hm, rfl⟩ := List.mem_map.mp hl
        have hentry : m ∈ entryLines [] (.list (first :: items)) := List.mem_cons_of_mem _ hm
        exact newline_not_mem_entryLines List.not_mem_nil hentry ((withoutCr_isPrefix m).subset hmem)
      have hfree : ∀ item ∈ first :: items, '\n' ∉ item := by
        intro item hitem
        rw [← h] at hitem
        exact newline_not_mem_listItems hlines item hitem
      exact fun item hitem => ⟨(hread _ hfree).mp h item hitem, hfree item hitem⟩
    · intro h
      exact (hread _ fun item hitem => (h item hitem).2).mpr fun item hitem => (h item hitem).1

/-- A text of one line comes back. -/
theorem reread_inline {v : Str} (hv : '\n' ∉ v) : reread (.scalar v) = .scalar v := by
  have htext : Str.trim (entryText (.scalar v)) = inlineText v := by
    rw [entryText, if_neg hv]
    exact (trim_append (w := [' ']) (List.all_eq_true.mp (by decide)) _).trans (trim_inlineText v)
  rw [reread, htext, entryTail, if_neg hv, List.map_nil, Reading.readValue]
  cases hhead : inlineText v with
  | nil =>
    rw [inlineText_eq_nil.mp hhead]
    rfl
  | cons c t =>
    obtain ⟨hbar, hfold, hlist⟩ := head_inlineText (v := v) (c := c) (by rw [hhead]; rfl)
    rw [if_neg (by simp [hbar, hfold]), if_neg (List.cons_ne_nil c t), if_neg (by simp [hlist]),
      ← hhead, unquote_inlineText]

/-- The values that come back are the writable ones. -/
theorem reread_eq_self_iff (value : FrontmatterValue) : reread value = value ↔ Writable value := by
  cases value with
  | list items => exact reread_list items
  | scalar v =>
    by_cases hv : '\n' ∈ v
    · rw [reread_block hv, Writable]
      exact ⟨fun h _ => h, fun h => h hv⟩
    · exact iff_of_true (reread_inline hv) fun h => absurd h hv

end TeamClu.Skills
