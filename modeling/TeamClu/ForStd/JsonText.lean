import TeamClu.ForStd.Utf8

/-!
# Compact JSON text and its canonical readers

`strText`, `natText` and their companions write a value the way a compact JSON serializer does:
no white space, shortest escapes, control characters as `\u00XX` in lower case.

For each writer there is a reader of exactly that text, which takes the value off the front of its
input.  The reader undoes the writer whatever follows (`readStr_strText` and so on), so a record
written field by field is read back field by field; `readLit` reads the fixed text between the
fields.
-/

namespace JsonText

/-! ## Fixed text -/

/-- A fixed text.  It stays folded in proofs, which only need it to be the same on both sides. -/
@[irreducible] def lit (s : String) : Str := s.toList

/-- Take a fixed text off the front. -/
def readLit (literal s : Str) : Option Str :=
  if literal.isPrefixOf s then some (s.drop literal.length) else none

@[simp] theorem readLit_append (literal s : Str) : readLit literal (literal ++ s) = some s := by
  simp [readLit]

/-! ## Numbers -/

/-- A number in decimal. -/
def natText (n : Nat) : Str := Nat.toDigits 10 n

/-- Take a decimal number off the front: the longest run of digits. -/
def readNat (s : Str) : Option (Nat × Str) :=
  match s.takeWhile Char.isDigit with
  | [] => none
  | ds => some (Nat.ofDigitChars 10 ds 0, s.dropWhile Char.isDigit)

/-- The text does not go on with a digit. -/
def EndsNumber (s : Str) : Prop := ∀ c ∈ s.head?, c.isDigit = false

theorem natText_ne_nil (n : Nat) : natText n ≠ [] := Nat.toDigits_ne_nil

theorem isDigit_of_mem_natText {n : Nat} {c : Char} (h : c ∈ natText n) : c.isDigit = true :=
  Nat.isDigit_of_mem_toDigits (by decide) (by decide) h

theorem readNat_natText (n : Nat) {s : Str} (hs : EndsNumber s) :
    readNat (natText n ++ s) = some (n, s) := by
  have hdigits : ∀ c ∈ natText n, c.isDigit = true := fun c hc => isDigit_of_mem_natText hc
  have htake : (natText n ++ s).takeWhile Char.isDigit = natText n := by
    rw [List.takeWhile_append_of_pos hdigits]
    cases s with
    | nil => simp
    | cons c s => simp [hs c rfl]
  have hdrop : (natText n ++ s).dropWhile Char.isDigit = s := by
    rw [List.dropWhile_append_of_pos hdigits]
    cases s with
    | nil => rfl
    | cons c s => simp [hs c rfl]
  unfold readNat
  rw [htake, hdrop]
  split
  · next h => exact absurd h (natText_ne_nil n)
  · simp [natText]

/-! ## Booleans -/

/-- `true` or `false`. -/
def boolText (b : Bool) : Str := if b then lit "true" else lit "false"

/-- Take a boolean off the front. -/
def readBool (s : Str) : Option (Bool × Str) :=
  match readLit (lit "true") s with
  | some rest => some (true, rest)
  | none => (readLit (lit "false") s).map (false, ·)

@[simp] theorem readBool_boolText (b : Bool) (s : Str) :
    readBool (boolText b ++ s) = some (b, s) := by
  cases b <;> simp [readBool, boolText, readLit, lit]

/-! ## Strings -/

/-- A lower-case hexadecimal digit. -/
def hexDigit (n : Nat) : Char := Nat.digitChar n

/-- One character of a string: escaped when it is a quote, a backslash or a control character. -/
def escapeChar (c : Char) : Str :=
  if c = '"' then ['\\', '"']
  else if c = '\\' then ['\\', '\\']
  else if c = '\n' then ['\\', 'n']
  else if c = '\r' then ['\\', 'r']
  else if c = '\t' then ['\\', 't']
  else if c = '\x08' then ['\\', 'b']
  else if c = '\x0c' then ['\\', 'f']
  else if c.toNat < 32 then
    ['\\', 'u', '0', '0', hexDigit (c.toNat / 16), hexDigit (c.toNat % 16)]
  else [c]

/-- A string in quotes. -/
def strText (s : Str) : Str := '"' :: s.flatMap escapeChar ++ ['"']

/-- The value of a lower-case hexadecimal digit. -/
def hexValue (c : Char) : Nat := if c.isDigit then c.toNat - 48 else c.toNat - 87

/-- The character a one-letter escape stands for. -/
def unescape (c : Char) : Option Char :=
  if c = '"' then some '"'
  else if c = '\\' then some '\\'
  else if c = 'n' then some '\n'
  else if c = 'r' then some '\r'
  else if c = 't' then some '\t'
  else if c = 'b' then some '\x08'
  else if c = 'f' then some '\x0c'
  else none

/-- Read up to the closing quote. -/
def readStrBody : Str → Option (Str × Str)
  | [] => none
  | '"' :: rest => some ([], rest)
  | '\\' :: 'u' :: '0' :: '0' :: high :: low :: rest =>
    (readStrBody rest).map fun (s, rest) =>
      (Char.ofNat (16 * hexValue high + hexValue low) :: s, rest)
  | '\\' :: e :: rest =>
    (unescape e).bind fun c => (readStrBody rest).map fun (s, rest) => (c :: s, rest)
  | c :: rest => (readStrBody rest).map fun (s, rest) => (c :: s, rest)

/-- Take a string in quotes off the front. -/
def readStr : Str → Option (Str × Str)
  | '"' :: rest => readStrBody rest
  | _ => none

/-- The two hexadecimal digits of a control character give it back. -/
private theorem ofNat_hexDigits : ∀ n, n < 32 →
    Char.ofNat (16 * hexValue (hexDigit (n / 16)) + hexValue (hexDigit (n % 16))) =
      Char.ofNat n := by
  decide

/-- Reading one escaped character. -/
private theorem readStrBody_escapeChar (c : Char) (rest : Str) :
    readStrBody (escapeChar c ++ rest) =
      (readStrBody rest).map fun (s, rest) => (c :: s, rest) := by
  unfold escapeChar
  split_ifs with h1 h2 h3 h4 h5 h6 h7 h8
  · subst h1; simp [readStrBody, unescape]
  · subst h2; simp [readStrBody, unescape]
  · subst h3; simp [readStrBody, unescape]
  · subst h4; simp [readStrBody, unescape]
  · subst h5; simp [readStrBody, unescape]
  · subst h6; simp [readStrBody, unescape]
  · subst h7; simp [readStrBody, unescape]
  · -- a control character without a letter of its own
    have hc : Char.ofNat (16 * hexValue (hexDigit (c.toNat / 16)) +
        hexValue (hexDigit (c.toNat % 16))) = c := by
      rw [ofNat_hexDigits c.toNat h8, Char.ofNat_toNat]
    simp only [List.cons_append, List.nil_append, readStrBody, hc]
  · rw [List.cons_append, List.nil_append]
    conv_lhs => unfold readStrBody
    split <;> simp_all

/-- Reading a whole string body. -/
private theorem readStrBody_flatMap (s rest : Str) :
    readStrBody (s.flatMap escapeChar ++ '"' :: rest) = some (s, rest) := by
  induction s with
  | nil => simp [readStrBody]
  | cons c s ih => simp [readStrBody_escapeChar, ih]

@[simp] theorem readStr_strText (s rest : Str) : readStr (strText s ++ rest) = some (s, rest) := by
  simp [strText, readStr, readStrBody_flatMap]

/-- An escaped character is no newline. -/
private theorem newline_not_mem_escapeChar (c : Char) : '\n' ∉ escapeChar c := by
  have hhex : ∀ n, n < 16 → hexDigit n ≠ '\n' := by decide
  unfold escapeChar
  split_ifs with h1 h2 h3 h4 h5 h6 h7 h8 <;> intro hmem <;>
    simp only [List.mem_cons, List.not_mem_nil, or_false] at hmem
  all_goals first
    | exact absurd hmem (by decide)
    | exact h3 hmem.symm
    | skip
  obtain h | h | h | h | h | h := hmem
  · exact absurd h (by decide)
  · exact absurd h (by decide)
  · exact absurd h (by decide)
  · exact absurd h (by decide)
  · exact hhex _ (by omega) h.symm
  · exact hhex _ (by omega) h.symm

theorem newline_not_mem_strText (s : Str) : '\n' ∉ strText s := by
  simp [strText, newline_not_mem_escapeChar]

/-! ## Optional strings -/

/-- `null` or a string. -/
def optStrText : Option Str → Str
  | none => lit "null"
  | some s => strText s

/-- Take `null` or a string off the front. -/
def readOptStr (s : Str) : Option (Option Str × Str) :=
  match readLit (lit "null") s with
  | some rest => some (none, rest)
  | none => (readStr s).map fun (v, rest) => (some v, rest)

@[simp] theorem readOptStr_optStrText (v : Option Str) (rest : Str) :
    readOptStr (optStrText v ++ rest) = some (v, rest) := by
  cases v with
  | none => rw [readOptStr, optStrText, readLit_append]
  | some s =>
    have hlit : readLit (lit "null") (strText s ++ rest) = none := by
      simp [readLit, strText, lit]
    rw [readOptStr, optStrText, hlit]
    simp

/-! ## Arrays of bytes -/

/-- The elements after the first, each with its comma, and the closing bracket. -/
def bytesTail : List UInt8 → Str
  | [] => [']']
  | b :: bs => ',' :: natText b.toNat ++ bytesTail bs

/-- An array of bytes. -/
def bytesText : List UInt8 → Str
  | [] => lit "[]"
  | b :: bs => '[' :: natText b.toNat ++ bytesTail bs

/-- Read elements up to the closing bracket; `fuel` bounds their number. -/
def readBytesTail : Nat → Str → Option (List UInt8 × Str)
  | _, ']' :: rest => some ([], rest)
  | fuel + 1, ',' :: s => do
    let (n, s) ← readNat s
    let (bs, s) ← readBytesTail fuel s
    some (UInt8.ofNat n :: bs, s)
  | _, _ => none

/-- Take an array of bytes off the front. -/
def readBytes : Str → Option (List UInt8 × Str)
  | '[' :: ']' :: rest => some ([], rest)
  | '[' :: s => do
    let (n, rest) ← readNat s
    let (bs, rest) ← readBytesTail s.length rest
    some (UInt8.ofNat n :: bs, rest)
  | _ => none

private theorem endsNumber_bytesTail (bs : List UInt8) (rest : Str) :
    EndsNumber (bytesTail bs ++ rest) := by
  cases bs <;> simp [EndsNumber, bytesTail]

private theorem readBytesTail_bytesTail {fuel : Nat} (bs : List UInt8) (hfuel : bs.length ≤ fuel)
    (rest : Str) : readBytesTail fuel (bytesTail bs ++ rest) = some (bs, rest) := by
  induction bs generalizing fuel with
  | nil => cases fuel <;> rfl
  | cons b bs ih =>
    cases fuel with
    | zero => simp at hfuel
    | succ fuel =>
      have hrest := @ih fuel (by simpa using hfuel)
      simp [bytesTail, readBytesTail, readNat_natText _ (endsNumber_bytesTail bs rest), hrest]

/-- Each element takes a character at least. -/
private theorem length_le_length_bytesTail (bs : List UInt8) : bs.length ≤ (bytesTail bs).length := by
  induction bs with
  | nil => simp
  | cons b bs ih => simp only [bytesTail, List.length_cons, List.cons_append, List.length_append]; omega

@[simp] theorem readBytes_bytesText (bs : List UInt8) (rest : Str) :
    readBytes (bytesText bs ++ rest) = some (bs, rest) := by
  cases bs with
  | nil => simp [bytesText, readBytes, lit]
  | cons b bs =>
    have hnum := readNat_natText b.toNat (endsNumber_bytesTail bs rest)
    have hlen : bs.length ≤ (natText b.toNat ++ (bytesTail bs ++ rest)).length := by
      have := length_le_length_bytesTail bs
      simp only [List.length_append]
      omega
    have htail := readBytesTail_bytesTail bs hlen rest
    -- the array is not empty, since its text goes on with a digit
    obtain ⟨d, ds, hd⟩ := List.exists_cons_of_ne_nil (natText_ne_nil b.toNat)
    have hdigit : d ≠ ']' := by
      rintro rfl
      have hmem : ']' ∈ natText b.toNat := by rw [hd]; exact List.mem_cons_self
      exact absurd (isDigit_of_mem_natText hmem) (by decide)
    rw [hd] at hnum htail
    simp only [List.cons_append, List.length_cons, List.length_append] at hnum htail
    simp [bytesText, hd, readBytes, hdigit, hnum, htail]

/-! ## No line breaks -/

theorem newline_not_mem_natText (n : Nat) : '\n' ∉ natText n :=
  fun h => absurd (isDigit_of_mem_natText h) (by decide)

theorem newline_not_mem_boolText (b : Bool) : '\n' ∉ boolText b := by
  cases b <;> simp [boolText, lit]

theorem newline_not_mem_optStrText (v : Option Str) : '\n' ∉ optStrText v := by
  cases v with
  | none => simp [optStrText, lit]
  | some s => exact newline_not_mem_strText s

theorem newline_not_mem_bytesText (bs : List UInt8) : '\n' ∉ bytesText bs := by
  have htail : ∀ bs, '\n' ∉ bytesTail bs := by
    intro bs
    induction bs with
    | nil => decide
    | cons b bs ih => simp [bytesTail, newline_not_mem_natText, ih]
  cases bs with
  | nil => simp [bytesText, lit]
  | cons b bs => simp [bytesText, newline_not_mem_natText, htail]

/-! ## Lengths -/

/-- A digit is one byte. -/
theorem utf8Size_of_isDigit {c : Char} (h : c.isDigit = true) : c.utf8Size = 1 := by
  simp only [Char.isDigit, Bool.and_eq_true, decide_eq_true_eq] at h
  have hnine := h.2
  rw [Char.utf8Size_eq_one_iff]
  rw [UInt32.le_iff_toNat_le] at hnine ⊢
  exact Nat.le_trans hnine (by decide)

/-- A number below `10 ^ k` takes `k` bytes at most. -/
theorem utf8Len_natText_le {n k : Nat} (hk : 0 < k) (h : n < 10 ^ k) :
    Str.utf8Len (natText n) ≤ k := by
  have hsize : ∀ s : Str, (∀ c ∈ s, c.isDigit = true) → Str.utf8Len s = s.length := by
    intro s hs
    induction s with
    | nil => rfl
    | cons c s ih =>
      rw [Str.utf8Len_cons, utf8Size_of_isDigit (hs c List.mem_cons_self),
        ih fun d hd => hs d (List.mem_cons_of_mem _ hd), List.length_cons, Nat.add_comm]
  rw [hsize _ fun c hc => isDigit_of_mem_natText hc]
  exact (Nat.length_toDigits_le_iff (by decide) hk).mpr h

@[simp] theorem utf8Len_bytesText_replicate_zero (n : Nat) :
    Str.utf8Len (bytesText (List.replicate (n + 1) 0)) = 2 * n + 3 := by
  have htail : ∀ n, Str.utf8Len (bytesTail (List.replicate n 0)) = 2 * n + 1 := by
    intro n
    induction n with
    | zero => rfl
    | succ n ih =>
      simp only [List.replicate_succ, bytesTail, List.cons_append, Str.utf8Len_cons,
        Str.utf8Len_append, ih]
      rw [show Str.utf8Len (natText (0 : UInt8).toNat) = 1 by decide,
        show Char.utf8Size ',' = 1 by decide]
      omega
  simp only [List.replicate_succ, bytesText, List.cons_append, Str.utf8Len_cons,
    Str.utf8Len_append, htail]
  rw [show Str.utf8Len (natText (0 : UInt8).toNat) = 1 by decide,
    show Char.utf8Size '[' = 1 by decide]
  omega

end JsonText
