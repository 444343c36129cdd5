import TeamClu.ForStd.Text

/-!
# UTF-8 bytes of a text

`utf8` encodes a text, `fromUtf8` is Rust's `String::from_utf8`.  Both go through core's
`ByteArray` functions; the lemmas restate those on lists of bytes and add what an encoded prefix
says of the text.
-/

namespace Str

/-- The UTF-8 bytes of a text. -/
def utf8 (s : Str) : List UInt8 := s.flatMap String.utf8EncodeChar

/-- `String::from_utf8`: the text these bytes encode, if they do. -/
def fromUtf8 (bytes : List UInt8) : Option Str :=
  (ByteArray.utf8Decode? bytes.toByteArray).map Array.toList

@[simp] theorem utf8_nil : utf8 [] = [] := rfl

@[simp] theorem utf8_cons (c : Char) (s : Str) : utf8 (c :: s) = String.utf8EncodeChar c ++ utf8 s :=
  rfl

@[simp] theorem utf8_append (s t : Str) : utf8 (s ++ t) = utf8 s ++ utf8 t := by simp [utf8]

/-- The number of bytes is Rust's `len`. -/
@[simp] theorem length_utf8 (s : Str) : (utf8 s).length = utf8Len s := by
  induction s with
  | nil => rfl
  | cons c s ih => simp [ih]

/-- Decoding undoes encoding. -/
@[simp] theorem fromUtf8_utf8 (s : Str) : fromUtf8 (utf8 s) = some s := by
  have h : (utf8 s).toByteArray = s.utf8Encode := rfl
  rw [fromUtf8, h, List.utf8Decode?_utf8Encode]
  rfl

/-- Bytes that decode are the encoding of what they decode to. -/
theorem utf8_of_fromUtf8 {bytes : List UInt8} {s : Str} (h : fromUtf8 bytes = some s) :
    utf8 s = bytes := by
  obtain ⟨chars, hchars, rfl⟩ := Option.map_eq_some_iff.mp h
  have hsome : (ByteArray.utf8Decode? bytes.toByteArray).isSome := by rw [hchars]; rfl
  have henc := ByteArray.utf8Encode_get_utf8Decode? (h := hsome)
  simp only [hchars, Option.get_some] at henc
  have hdata := congrArg (fun b : ByteArray => b.data.toList) henc
  simpa [List.utf8Encode, utf8] using hdata

/-- The first character of an encoded text is determined by its first bytes. -/
private theorem char_eq_of_encode_append {c d : Char} {s t : List UInt8}
    (h : String.utf8EncodeChar c ++ s = String.utf8EncodeChar d ++ t) : c = d := by
  have hc := ByteArray.utf8DecodeChar?_utf8EncodeChar_append (b := s.toByteArray) (c := c)
  have hd := ByteArray.utf8DecodeChar?_utf8EncodeChar_append (b := t.toByteArray) (c := d)
  rw [← List.toByteArray_append, h, List.toByteArray_append, hd] at hc
  exact (Option.some.inj hc).symm

/-- A text whose bytes begin the bytes of another begins that other. -/
theorem prefix_of_utf8_prefix {s t : Str} (h : utf8 s <+: utf8 t) : s <+: t := by
  induction s generalizing t with
  | nil => exact List.nil_prefix
  | cons c s ih =>
    obtain ⟨rest, hrest⟩ := h
    cases t with
    | nil =>
      have hlen := congrArg List.length hrest
      have := c.utf8Size_pos
      simp at hlen
      omega
    | cons d t =>
      simp only [utf8_cons, List.append_assoc] at hrest
      obtain rfl := char_eq_of_encode_append hrest
      exact List.cons_prefix_cons.mpr ⟨rfl, ih ⟨rest, List.append_cancel_left hrest⟩⟩

/-- Two texts with the same bytes are the same. -/
theorem utf8_injective {s t : Str} (h : utf8 s = utf8 t) : s = t := by
  have hs := fromUtf8_utf8 s
  rw [h, fromUtf8_utf8] at hs
  exact (Option.some.inj hs).symm

/-- Where every character is one byte, a number of bytes is a number of characters. -/
theorem take_utf8 {s : Str} (h : ∀ c ∈ s, c.utf8Size = 1) (n : Nat) :
    (utf8 s).take n = utf8 (s.take n) := by
  induction s generalizing n with
  | nil => simp
  | cons c s ih =>
    cases n with
    | zero => simp
    | succ n =>
      have hlen : (String.utf8EncodeChar c).length = 1 := by
        rw [String.length_utf8EncodeChar, h c List.mem_cons_self]
      have hrest := ih (fun d hd => h d (List.mem_cons_of_mem _ hd)) n
      rw [utf8_cons, List.take_succ_cons, utf8_cons, List.take_append, hlen, Nat.add_sub_cancel,
        hrest, List.take_of_length_le (by omega)]

/-- The newline byte occurs in the encoding of the newline only. -/
private theorem newline_mem_encode {c : Char} (h : 10 ∈ String.utf8EncodeChar c) : c = '\n' := by
  have hval : ∀ n : Nat, n < 256 → (10 : UInt8) = UInt8.ofNat n → n = 10 := by
    intro n hn heq
    have := congrArg UInt8.toNat heq
    rw [UInt8.toNat_ofNat_of_lt' (by simpa using hn)] at this
    simpa using this.symm
  have hc : c.toNat = 10 := by
    unfold String.utf8EncodeChar at h
    simp only [← Char.toNat_val] at *
    split_ifs at h <;> simp only [List.mem_cons, List.not_mem_nil, or_false] at h
    · exact hval _ (by omega) h
    · rcases h with h | h <;> have := hval _ (by omega) h <;> omega
    · rcases h with h | h | h <;> have := hval _ (by omega) h <;> omega
    · rcases h with h | h | h | h <;> have := hval _ (by omega) h <;> omega
  exact Char.ext (UInt32.toNat_inj.mp hc)

/-- A text without a newline has no newline byte. -/
theorem newline_not_mem_utf8 {s : Str} (h : '\n' ∉ s) : 10 ∉ utf8 s := by
  intro hmem
  obtain ⟨c, hc, hbyte⟩ := List.mem_flatMap.mp hmem
  exact h (newline_mem_encode hbyte ▸ hc)

end Str
