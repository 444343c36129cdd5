import Mathlib.Data.List.Infix

/-!
# Masking tokens in a text

A scanner walks over a text.  Where its head stands, it asks how long the token is that begins there.
A token is written as a marker and the scan goes on behind it; everything else is copied.  What is
said about the result: a piece without the marker's first character was in the text already, and a
piece that begins with a head begins where the scan stood.
-/

namespace Redact

variable {α : Type} [DecidableEq α]

/-- The text with a marker for each token, where the first `skip` characters are passed over.  Behind
    a head that begins no token the scan goes on. -/
def maskFrom (head marker : List α) (ends : List α → Option Nat) : Nat → List α → List α
  | 0, [] => []
  | _ + 1, [] => []
  | skip + 1, _ :: cs => maskFrom head marker ends skip cs
  | 0, c :: cs =>
    if head.isPrefixOf (c :: cs) then
      match ends (c :: cs) with
      | some n => marker ++ maskFrom head marker ends (n - 1) cs
      | none => head ++ maskFrom head marker ends (head.length - 1) cs
    else c :: maskFrom head marker ends 0 cs

/-- The text with a marker for each token. -/
def mask (head marker : List α) (ends : List α → Option Nat) (s : List α) : List α :=
  maskFrom head marker ends 0 s

/-- How long the token is that begins the text. -/
def token (head : List α) (ends : List α → Option Nat) (s : List α) : Option Nat :=
  if head.isPrefixOf s then ends s else none

theorem token_eq_some {head : List α} {ends : List α → Option Nat} {s : List α} {n : Nat} :
    token head ends s = some n ↔ head <+: s ∧ ends s = some n := by
  unfold token
  split
  · next h => simp [List.isPrefixOf_iff_prefix.mp h]
  · next h => simpa using fun hp => absurd (List.isPrefixOf_iff_prefix.mpr hp) h

theorem ends_of_token_eq_none {head : List α} {ends : List α → Option Nat} {s : List α}
    (h : token head ends s = none) (hs : head <+: s) : ends s = none := by
  rwa [token, if_pos (List.isPrefixOf_iff_prefix.mpr hs)] at h

section Scan

variable {a : α} {as marker : List α} {ends : List α → Option Nat}

@[simp] theorem mask_nil {head : List α} : mask head marker ends [] = [] := rfl

/-- Characters that are passed over are not looked at. -/
theorem maskFrom_eq_mask_drop {head : List α} (skip : Nat) (s : List α) :
    maskFrom head marker ends skip s = mask head marker ends (s.drop skip) := by
  induction skip generalizing s with
  | zero => rfl
  | succ skip ih =>
    cases s with
    | nil => rfl
    | cons c cs => rw [maskFrom, ih, List.drop_succ_cons]

/-- A text in which no head begins is copied. -/
theorem mask_append_of_notMem {t : List α} (ht : a ∉ t) (s : List α) :
    mask (a :: as) marker ends (t ++ s) = t ++ mask (a :: as) marker ends s := by
  induction t with
  | nil => rfl
  | cons c t ih =>
    rw [List.mem_cons, not_or] at ht
    have hhead : ((a :: as).isPrefixOf (c :: (t ++ s))) = false := by
      simp [List.isPrefixOf, ht.1]
    rw [List.cons_append, mask, maskFrom, hhead]
    exact congrArg (c :: ·) (ih ht.2)

/-- Where no token begins, one character is copied. -/
theorem mask_cons_of_none (hhead : a ∉ as) {c : α} {cs : List α}
    (h : token (a :: as) ends (c :: cs) = none) :
    mask (a :: as) marker ends (c :: cs) = c :: mask (a :: as) marker ends cs := by
  rw [mask, maskFrom]
  unfold token at h
  split
  · next hpre =>
    rw [if_pos hpre] at h
    rw [h, maskFrom_eq_mask_drop]
    -- the head is copied whole, and none begins inside it
    obtain ⟨rest, hrest⟩ := List.isPrefixOf_iff_prefix.mp hpre
    rw [List.cons_append, List.cons.injEq] at hrest
    obtain ⟨rfl, rfl⟩ := hrest
    rw [mask_append_of_notMem hhead]
    simp
  · rfl

/-- Where a token begins, the marker is written and the scan goes on behind the token. -/
theorem mask_of_token (hends : ∀ s n, ends s = some n → 0 < n) {s : List α} {n : Nat}
    (h : token (a :: as) ends s = some n) :
    mask (a :: as) marker ends s = marker ++ mask (a :: as) marker ends (s.drop n) := by
  obtain ⟨hpre, hsome⟩ := token_eq_some.mp h
  cases s with
  | nil => simp at hpre
  | cons c cs =>
    obtain ⟨n, rfl⟩ := Nat.exists_eq_succ_of_ne_zero (hends _ _ hsome).ne'
    rw [mask, maskFrom, if_pos (List.isPrefixOf_iff_prefix.mpr hpre), hsome]
    exact congrArg (marker ++ ·) (maskFrom_eq_mask_drop n cs)

/-- Behind a token the text is shorter. -/
theorem length_drop_lt {s : List α} {n : Nat} (h : token (a :: as) ends s = some n) (hn : 0 < n) :
    (s.drop n).length < s.length := by
  have hne : s ≠ [] := by
    rintro rfl
    simp [token] at h
  have hpos := List.length_pos_iff.mpr hne
  rw [List.length_drop]
  omega

/-- What a scan can do next. -/
theorem mask_cases (marker : List α) (hhead : a ∉ as) (hends : ∀ s n, ends s = some n → 0 < n) (s : List α) :
    s = [] ∨
    (∃ n, token (a :: as) ends s = some n ∧ 0 < n ∧
      mask (a :: as) marker ends s = marker ++ mask (a :: as) marker ends (s.drop n)) ∨
    ∃ c cs, s = c :: cs ∧ token (a :: as) ends s = none ∧
      mask (a :: as) marker ends s = c :: mask (a :: as) marker ends cs := by
  cases s with
  | nil => exact .inl rfl
  | cons c cs =>
    cases h : token (a :: as) ends (c :: cs) with
    | some n =>
      exact .inr (.inl ⟨n, rfl, hends _ _ (token_eq_some.mp h).2, mask_of_token hends h⟩)
    | none => exact .inr (.inr ⟨c, cs, rfl, rfl, mask_cons_of_none hhead h⟩)

/-- A text in which no token begins is copied. -/
theorem mask_eq_self (hhead : a ∉ as) {s : List α}
    (h : ∀ r, r <:+ s → token (a :: as) ends r = none) : mask (a :: as) marker ends s = s := by
  induction s with
  | nil => rfl
  | cons c cs ih =>
    rw [mask_cons_of_none hhead (h _ (List.suffix_refl _)),
      ih fun r hr => h r (hr.trans (List.suffix_cons c cs))]

/-! ## What the result was before -/

variable {o : α} {closing : List α}

/-- Where the result does not begin with a marker, no token begins. -/
theorem token_eq_none_of_mask_eq (hhead : a ∉ as) (hends : ∀ s n, ends s = some n → 0 < n)
    {s : List α} {c : α} {b : List α} (h : mask (a :: as) (o :: closing) ends s = c :: b)
    (hc : c ≠ o) :
    ∃ cs, s = c :: cs ∧ token (a :: as) ends s = none ∧
      mask (a :: as) (o :: closing) ends cs = b := by
  rcases mask_cases (o :: closing) hhead hends s with
    rfl | ⟨n, hn, hpos, hmask⟩ | ⟨d, cs, rfl, hnone, hmask⟩
  · simp at h
  · rw [h, List.cons_append, List.cons.injEq] at hmask
    exact absurd hmask.1 hc
  · rw [h, List.cons.injEq] at hmask
    exact ⟨cs, by rw [hmask.1], hnone, hmask.2.symm⟩

/-- A piece that begins the result and has no marker in it began the text. -/
theorem eq_append_of_mask_eq (hhead : a ∉ as) (hends : ∀ s n, ends s = some n → 0 < n)
    {s t b : List α} (h : mask (a :: as) (o :: closing) ends s = t ++ b) (ht : o ∉ t) :
    ∃ s', s = t ++ s' ∧ mask (a :: as) (o :: closing) ends s' = b := by
  induction t generalizing s with
  | nil => exact ⟨s, rfl, h⟩
  | cons c t ih =>
    rw [List.mem_cons, not_or] at ht
    obtain ⟨cs, rfl, -, hcs⟩ := token_eq_none_of_mask_eq hhead hends h (Ne.symm ht.1)
    obtain ⟨s', rfl, hs'⟩ := ih hcs ht.2
    exact ⟨s', rfl, hs'⟩

/-- A result without a marker is the text. -/
theorem mask_eq_self_of_notMem (hhead : a ∉ as) (hends : ∀ s n, ends s = some n → 0 < n)
    {s : List α} (h : o ∉ mask (a :: as) (o :: closing) ends s) :
    mask (a :: as) (o :: closing) ends s = s := by
  obtain ⟨s', hs, hs'⟩ := eq_append_of_mask_eq hhead hends (List.append_nil _).symm h
  rcases mask_cases (o :: closing) hhead hends s' with
    rfl | ⟨n, -, -, hmask⟩ | ⟨d, cs, rfl, -, hmask⟩
  · rw [List.append_nil] at hs
    exact hs.symm
  · simp [hmask] at hs'
  · simp [hmask] at hs'

/-- No text that begins inside the marker begins with the head `g`. -/
def Foreign (g marker : List α) : Prop :=
  ∀ m ∈ marker.tails, m ≠ [] → ¬ m <+: g ∧ ¬ g <+: m

instance (g marker : List α) : Decidable (Foreign g marker) :=
  inferInstanceAs (Decidable (∀ m ∈ marker.tails, m ≠ [] → ¬ m <+: g ∧ ¬ g <+: m))

/-- A place in the result where a head stands is a place in the text. -/
theorem exists_of_suffix_mask (hhead : a ∉ as) (hends : ∀ s n, ends s = some n → 0 < n)
    {g : List α} (hforeign : Foreign g marker) {s y : List α}
    (h : y <:+ mask (a :: as) marker ends s) (hy : g <+: y) :
    ∃ r, r <:+ s ∧ mask (a :: as) marker ends r = y := by
  induction hlen : s.length using Nat.strong_induction_on generalizing s with
  | _ len ih =>
    subst hlen
    rcases mask_cases marker hhead hends s with
      rfl | ⟨n, hn, hpos, hmask⟩ | ⟨c, cs, rfl, hnone, hmask⟩
    · exact ⟨[], List.suffix_refl _, (List.suffix_nil.mp h).symm⟩
    · rw [hmask] at h
      -- behind the marker the scan went on; a place inside it is none where `g` stands
      obtain ⟨front, hfront⟩ := h
      rcases List.append_eq_append_iff.mp hfront with ⟨m, hm, hym⟩ | ⟨m, -, hrest⟩
      · by_cases hnil : m = []
        · subst hnil
          obtain ⟨r, hr, hry⟩ := ih _ (length_drop_lt hn hpos) (hym ▸ List.suffix_refl _) rfl
          exact ⟨r, hr.trans (List.drop_suffix _ _), hry⟩
        · have hmem : m ∈ marker.tails := (List.mem_tails _ _).mpr ⟨front, hm.symm⟩
          rw [hym] at hy
          rcases List.prefix_or_prefix_of_prefix hy (List.prefix_append m _) with hgm | hmg
          · exact absurd hgm (hforeign m hmem hnil).2
          · exact absurd hmg (hforeign m hmem hnil).1
      · obtain ⟨r, hr, hry⟩ := ih _ (length_drop_lt hn hpos) ⟨m, hrest.symm⟩ rfl
        exact ⟨r, hr.trans (List.drop_suffix _ _), hry⟩
    · rw [hmask, List.suffix_cons_iff] at h
      rcases h with rfl | h
      · exact ⟨c :: cs, List.suffix_refl _, hmask⟩
      · obtain ⟨r, hr, hry⟩ := ih cs.length (by simp) h rfl
        exact ⟨r, hr.trans (List.suffix_cons c cs), hry⟩

end Scan

end Redact
