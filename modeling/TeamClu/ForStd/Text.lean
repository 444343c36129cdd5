import Mathlib.Algebra.GroupWithZero.Nat
import Mathlib.Data.List.DropRight
import Mathlib.Data.List.Infix

/-!
# Text as a list of Unicode scalar values

A string is the list of its `Char`s.  What a language measures on it differs: Rust counts
UTF-8 bytes, JavaScript counts UTF-16 code units.  Both lengths, the byte slice `&s[..n]` that
fails inside a character, and whitespace trimming are defined here on the same list.
-/

/-- A string, as the list of its Unicode scalar values. -/
abbrev Str := List Char

instance instLawfulBEqStr : LawfulBEq Str := inferInstance

namespace Str

/-- `s.len()` of a Rust string: the number of UTF-8 bytes. -/
def utf8Len (s : Str) : Nat := (s.map Char.utf8Size).sum

/-- The UTF-16 code units of one character: a surrogate pair outside the basic plane. -/
def utf16Units (c : Char) : List UInt16 :=
  if c.toNat < 0x10000 then [UInt16.ofNat c.toNat]
  else [UInt16.ofNat (0xD800 + (c.toNat - 0x10000) / 0x400),
        UInt16.ofNat (0xDC00 + (c.toNat - 0x10000) % 0x400)]

/-- A JavaScript string: the UTF-16 code units of the text. -/
def utf16 (s : Str) : List UInt16 := s.flatMap utf16Units

/-- `s.length` of a JavaScript string: the number of UTF-16 code units. -/
def utf16Len (s : Str) : Nat := (utf16 s).length

/-- Rust's `&s[..n]`: the first `n` bytes, `none` (a panic) when `n` is past the end or inside a
    character. -/
def sliceTo : Str → Nat → Option Str
  | _, 0 => some []
  | [], _ + 1 => none
  | c :: cs, n + 1 =>
    if c.utf8Size ≤ n + 1 then (sliceTo cs (n + 1 - c.utf8Size)).map (c :: ·) else none

/-- `&s[start..]`, where `start` is the last character boundary at or before byte `n`. -/
def dropBytes : Nat → Str → Str
  | _, [] => []
  | n, c :: cs => if c.utf8Size ≤ n then dropBytes (n - c.utf8Size) cs else c :: cs

/-- The Unicode `White_Space` property, which Rust's `str::trim` strips. -/
def isWhiteSpace (c : Char) : Bool :=
  (0x09 ≤ c.toNat && c.toNat ≤ 0x0D) || c.toNat == 0x20 || c.toNat == 0x85 || c.toNat == 0xA0 ||
  c.toNat == 0x1680 || (0x2000 ≤ c.toNat && c.toNat ≤ 0x200A) || c.toNat == 0x2028 ||
  c.toNat == 0x2029 || c.toNat == 0x202F || c.toNat == 0x205F || c.toNat == 0x3000

/-- `str::trim`: drop white space at both ends. -/
def trim (s : Str) : Str := s.rdropWhile isWhiteSpace |>.dropWhile isWhiteSpace

/-- White space of JavaScript's `trim`: the line terminators, the space separators and the byte order
    mark. -/
def isJsWhiteSpace (c : Char) : Bool := (isWhiteSpace c && c ≠ '\x85') || c.toNat == 0xFEFF

/-- JavaScript's `trim`. -/
def jsTrim (s : Str) : Str := (s.rdropWhile isJsWhiteSpace).dropWhile isJsWhiteSpace

/-- JavaScript's `toLowerCase`, where the result is compared with ASCII texts: the capital letters of
    ASCII and the Kelvin sign, the only other character with an ASCII lower case. -/
def jsLowerCase (s : Str) : Str := s.map fun c => if c = '\u212A' then 'k' else c.toLower

/-- Whether `needle` occurs in `s` (`str::contains`). -/
def contains (s needle : Str) : Bool := s.tails.any needle.isPrefixOf

/-- `s.split_once(needle)`: the text before and after the first occurrence of `needle`. -/
def splitOnce (needle : Str) : Str → Option (Str × Str)
  | [] => if needle = [] then some ([], []) else none
  | c :: cs =>
    if needle.isPrefixOf (c :: cs) then some ([], (c :: cs).drop needle.length)
    else (splitOnce needle cs).map fun (before, after) => (c :: before, after)

/-- `s.rsplit_once(sep)`: the text before and after the last `sep`. -/
def rsplitOnce (sep : Char) : Str → Option (Str × Str)
  | [] => none
  | c :: cs =>
    match rsplitOnce sep cs with
    | some (before, after) => some (c :: before, after)
    | none => if c = sep then some ([], cs) else none

@[simp] theorem utf8Len_nil : utf8Len [] = 0 := rfl

@[simp] theorem utf8Len_cons (c : Char) (s : Str) : utf8Len (c :: s) = c.utf8Size + utf8Len s := by
  simp [utf8Len]

@[simp] theorem utf8Len_append (s t : Str) : utf8Len (s ++ t) = utf8Len s + utf8Len t := by
  simp [utf8Len]

/-- What starts after the first `n` bytes starts after those of a prefix. -/
theorem dropBytes_append (s t : Str) (n : Nat) :
    dropBytes (utf8Len s + n) (s ++ t) = dropBytes n t := by
  induction s with
  | nil => simp
  | cons c s ih =>
    rw [List.cons_append, dropBytes, utf8Len_cons, if_pos (by omega), ← ih]
    congr 1
    omega

/-- Nothing is left after all bytes. -/
theorem dropBytes_eq_nil {n : Nat} {s : Str} (h : utf8Len s ≤ n) : dropBytes n s = [] := by
  obtain ⟨k, rfl⟩ := Nat.exists_eq_add_of_le h
  have := dropBytes_append s [] k
  rwa [List.append_nil] at this

theorem dropBytes_length_le (n : Nat) (s : Str) : (dropBytes n s).length ≤ s.length := by
  induction s generalizing n with
  | nil => exact le_refl _
  | cons c s ih =>
    unfold dropBytes
    split
    · exact (ih _).trans (Nat.le_succ _)
    · exact le_refl _

/-- A slice is a prefix of so many bytes, and behind it stands what is left without them. -/
theorem sliceTo_eq_some {s p : Str} {n : Nat} (h : sliceTo s n = some p) :
    s = p ++ dropBytes n s ∧ utf8Len p = n := by
  induction s generalizing n p with
  | nil =>
    cases n with
    | zero => exact ⟨by rw [← Option.some.inj h]; rfl, by rw [← Option.some.inj h]; rfl⟩
    | succ n => cases h
  | cons c s ih =>
    cases n with
    | zero =>
      have hpos := c.utf8Size_pos
      rw [← Option.some.inj h, dropBytes, if_neg (by omega)]
      exact ⟨rfl, rfl⟩
    | succ n =>
      rw [sliceTo] at h
      split at h
      · next hle =>
        obtain ⟨q, hq, rfl⟩ := Option.map_eq_some_iff.mp h
        obtain ⟨hs, hlen⟩ := ih hq
        refine ⟨?_, by rw [utf8Len_cons, hlen]; omega⟩
        rw [dropBytes, if_pos hle, List.cons_append, ← hs]
      · cases h

/-- The bytes of a prefix are a slice. -/
theorem sliceTo_append (s t : Str) : sliceTo (s ++ t) (utf8Len s) = some s := by
  induction s with
  | nil => cases t <;> rfl
  | cons c s ih =>
    have hpos := c.utf8Size_pos
    obtain ⟨n, hn⟩ := Nat.exists_eq_succ_of_ne_zero (show utf8Len (c :: s) ≠ 0 by simp; omega)
    rw [hn, List.cons_append, sliceTo]
    rw [utf8Len_cons] at hn
    rw [if_pos (by omega), show n + 1 - c.utf8Size = utf8Len s by omega, ih]
    rfl

/-- The first character is longer than `n` bytes. -/
def startsAfter (n : Nat) : Str → Bool
  | [] => true
  | c :: _ => n < c.utf8Size

/-- Nothing is dropped exactly when the first character does not fit. -/
theorem dropBytes_length_eq_iff {n : Nat} {s : Str} :
    (dropBytes n s).length = s.length ↔ startsAfter n s = true := by
  cases s with
  | nil => simp [dropBytes, startsAfter]
  | cons c s =>
    have := dropBytes_length_le (n - c.utf8Size) s
    unfold dropBytes startsAfter
    split
    · simp only [List.length_cons, decide_eq_true_eq]
      omega
    · next hlong => exact iff_of_true rfl (by simpa using hlong)

theorem dropBytes_eq_self {n : Nat} {s : Str} (h : startsAfter n s = true) : dropBytes n s = s := by
  cases s with
  | nil => rfl
  | cons c s =>
    rw [dropBytes, if_neg]
    simpa [startsAfter] using h

@[simp] theorem trim_nil : trim [] = [] := rfl

/-- Dropping white space keeps a character that is none. -/
private theorem mem_dropWhile_of_not {p : Char → Bool} {s : Str} {c : Char} (hmem : c ∈ s)
    (hc : p c = false) : c ∈ s.dropWhile p := by
  rw [← List.takeWhile_append_dropWhile (p := p) (l := s), List.mem_append] at hmem
  refine hmem.resolve_left fun htake => ?_
  rw [List.mem_takeWhile_imp htake] at hc
  cases hc

/-- A character that is no white space stays when both ends are trimmed. -/
private theorem mem_trimWhile_of_not {p : Char → Bool} {s : Str} {c : Char} (hmem : c ∈ s)
    (hc : p c = false) : c ∈ (s.rdropWhile p).dropWhile p :=
  mem_dropWhile_of_not (List.mem_reverse.mpr (mem_dropWhile_of_not (List.mem_reverse.mpr hmem) hc)) hc

/-- A text with a character that is no white space is not trimmed away. -/
theorem trim_ne_nil {s : Str} {c : Char} (hmem : c ∈ s) (hc : isWhiteSpace c = false) :
    trim s ≠ [] := List.ne_nil_of_mem (mem_trimWhile_of_not hmem hc)

/-- What is left after trimming is not trimmed away. -/
theorem jsTrim_jsTrim_eq_nil {s : Str} : jsTrim (jsTrim s) = [] ↔ jsTrim s = [] := by
  refine ⟨fun h => ?_, fun h => by rw [h]; rfl⟩
  by_contra hne
  obtain ⟨c, cs, hcs⟩ := List.exists_cons_of_ne_nil hne
  have hc : isJsWhiteSpace c = false := by
    have hhead := List.head?_dropWhile_not isJsWhiteSpace (s.rdropWhile isJsWhiteSpace)
    rw [show (s.rdropWhile isJsWhiteSpace).dropWhile isJsWhiteSpace = c :: cs from hcs] at hhead
    simpa using hhead
  have hmem : c ∈ jsTrim (jsTrim s) := by
    refine mem_trimWhile_of_not ?_ hc
    rw [hcs]
    exact List.mem_cons_self
  rw [h] at hmem
  cases hmem

/-- Trimming takes white space off the two ends and nothing else. -/
theorem exists_append_trim (s : Str) :
    ∃ lead trail, s = lead ++ trim s ++ trail ∧ ∀ c ∈ lead ++ trail, isWhiteSpace c = true := by
  let kept := s.rdropWhile isWhiteSpace
  have hkept : s = kept ++ (s.reverse.takeWhile isWhiteSpace).reverse := by
    rw [← List.reverse_inj, List.reverse_append, List.reverse_reverse]
    exact (by simp [kept, List.rdropWhile] :
      s.reverse = s.reverse.takeWhile isWhiteSpace ++ kept.reverse)
  refine ⟨kept.takeWhile isWhiteSpace, (s.reverse.takeWhile isWhiteSpace).reverse, ?_, ?_⟩
  · rw [show trim s = kept.dropWhile isWhiteSpace from rfl, List.takeWhile_append_dropWhile, ← hkept]
  · intro c hc
    rw [List.mem_append, List.mem_reverse] at hc
    exact hc.elim List.mem_takeWhile_imp List.mem_takeWhile_imp

/-- Without a separator there is nothing to split. -/
theorem rsplitOnce_eq_none {sep : Char} {s : Str} : rsplitOnce sep s = none ↔ sep ∉ s := by
  induction s with
  | nil => simp [rsplitOnce]
  | cons c cs ih =>
    cases hcs : rsplitOnce sep cs with
    | some parts =>
      have hmem : sep ∈ cs := by_contra fun hmem => by simp [ih.mpr hmem] at hcs
      simp [rsplitOnce, hcs, hmem]
    | none =>
      have hmem : sep ∉ cs := ih.mp hcs
      simp [rsplitOnce, hcs, hmem, eq_comm]

/-- What `rsplit_once` finds: the text is cut at its last separator. -/
theorem rsplitOnce_eq_some {sep : Char} {s before after : Str}
    (h : rsplitOnce sep s = some (before, after)) : s = before ++ sep :: after ∧ sep ∉ after := by
  induction s generalizing before with
  | nil => exact nomatch h
  | cons c cs ih =>
    unfold rsplitOnce at h
    cases hcs : rsplitOnce sep cs with
    | some parts =>
      obtain ⟨before', after'⟩ := parts
      rw [hcs] at h
      obtain ⟨rfl, rfl⟩ := Prod.mk.inj (Option.some.inj h)
      exact ⟨congrArg (c :: ·) (ih hcs).1, (ih hcs).2⟩
    | none =>
      rw [hcs] at h
      simp only at h
      split_ifs at h with hc
      obtain ⟨rfl, rfl⟩ := Prod.mk.inj (Option.some.inj h)
      exact ⟨congrArg (· :: cs) hc, rsplitOnce_eq_none.mp hcs⟩

/-- `rsplit_once` finds the last separator. -/
theorem rsplitOnce_append {sep : Char} (before : Str) {after : Str} (h : sep ∉ after) :
    rsplitOnce sep (before ++ sep :: after) = some (before, after) := by
  induction before with
  | nil => simp [rsplitOnce, rsplitOnce_eq_none.mpr h]
  | cons c before ih => simp [rsplitOnce, ih]

/-- Two cuts at the last separator are the same. -/
theorem append_sep_inj {sep : Char} {a b x y : Str} (hx : sep ∉ x) (hy : sep ∉ y)
    (h : a ++ sep :: x = b ++ sep :: y) : a = b ∧ x = y := by
  have hcut := rsplitOnce_append a hx
  rw [h, rsplitOnce_append b hy] at hcut
  obtain ⟨rfl, rfl⟩ := Prod.mk.inj (Option.some.inj hcut)
  exact ⟨rfl, rfl⟩

/-- Without an occurrence there is nothing to split. -/
theorem splitOnce_eq_none {needle s : Str} (h : splitOnce needle s = none) : ¬ needle <:+: s := by
  induction s with
  | nil =>
    unfold splitOnce at h
    split at h
    · cases h
    · next hne => exact fun hinfix => hne (List.infix_nil.mp hinfix)
  | cons c cs ih =>
    unfold splitOnce at h
    split at h
    · cases h
    · next hprefix =>
      rw [List.infix_cons_iff, not_or]
      exact ⟨fun hp => hprefix (List.isPrefixOf_iff_prefix.mpr hp), ih (Option.map_eq_none_iff.mp h)⟩

/-- What `split_once` finds: the text is cut at an occurrence, and none starts earlier. -/
theorem splitOnce_eq_some {needle s before after : Str} (h : splitOnce needle s = some (before, after)) :
    s = before ++ needle ++ after ∧
      ∀ before' after', s = before' ++ needle ++ after' → before.length ≤ before'.length := by
  induction s generalizing before with
  | nil =>
    unfold splitOnce at h
    split at h
    · next hnil =>
      obtain ⟨rfl, rfl⟩ := Prod.mk.inj (Option.some.inj h)
      exact ⟨by simp [hnil], fun _ _ _ => Nat.zero_le _⟩
    · cases h
  | cons c cs ih =>
    unfold splitOnce at h
    split at h
    · next hprefix =>
      obtain ⟨rfl, rfl⟩ := Prod.mk.inj (Option.some.inj h)
      obtain ⟨rest, hrest⟩ := List.isPrefixOf_iff_prefix.mp hprefix
      exact ⟨by simp [← hrest], fun _ _ _ => Nat.zero_le _⟩
    · next hprefix =>
      obtain ⟨⟨tail, after'⟩, hsplit, heq⟩ := Option.map_eq_some_iff.mp h
      obtain ⟨rfl, rfl⟩ := Prod.mk.inj heq
      obtain ⟨hcut, hfirst⟩ := ih hsplit
      refine ⟨congrArg (c :: ·) hcut, fun before' after'' hcut' => ?_⟩
      cases before' with
      | nil =>
        -- the occurrence at the start was ruled out
        refine absurd (List.isPrefixOf_iff_prefix.mpr ⟨after'', ?_⟩) hprefix
        rw [hcut', List.nil_append]
      | cons d before' =>
        exact Nat.succ_le_succ (hfirst before' after'' (List.cons.inj hcut').2)

/-- Joining two lists of parts. -/
theorem intercalate_append (sep : Str) {l l' : List Str} (hl : l ≠ []) (hl' : l' ≠ []) :
    sep.intercalate (l ++ l') = sep.intercalate l ++ sep ++ sep.intercalate l' := by
  induction l with
  | nil => exact absurd rfl hl
  | cons x l ih =>
    cases l with
    | nil => simp [List.intercalate_cons_of_ne_nil hl']
    | cons y l =>
      rw [List.cons_append, List.cons_append, List.intercalate_cons_cons,
        List.intercalate_cons_cons, ← List.cons_append, ih (List.cons_ne_nil _ _)]
      simp only [List.append_assoc]

end Str
