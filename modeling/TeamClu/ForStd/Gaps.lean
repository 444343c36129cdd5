import Mathlib.Data.List.InsertIdx
import Mathlib.Data.List.Perm.Basic

/-!
# Lists with fixed elements and others between them

An element that a filter leaves out can be inserted anywhere without a change to what the filter keeps
(`filter_insertIdx`).  `weave` puts others into the gaps of a list of fixed elements; `exists_around` takes one
gap out, so that it can be changed.
-/

namespace Gaps

variable {α : Type} {q : α → Bool} {l : List α} {a : α}

/-- An inserted element is between the elements before and after its index. -/
theorem insertIdx_eq {i : Nat} (hi : i ≤ l.length) : l.insertIdx i a = l.take i ++ a :: l.drop i := by
  induction l generalizing i with
  | nil =>
    obtain rfl : i = 0 := Nat.le_zero.mp hi
    rfl
  | cons b l ih =>
    cases i with
    | zero => rfl
    | succ i => rw [List.insertIdx_succ_cons, ih (Nat.le_of_succ_le_succ hi)]; rfl

/-- What a filter leaves out can be inserted anywhere. -/
theorem filter_insertIdx {i : Nat} (hi : i ≤ l.length) (ha : q a = false) :
    (l.insertIdx i a).filter q = l.filter q := by
  rw [insertIdx_eq hi, List.filter_append, List.filter_cons_of_neg (by simp [ha]),
    ← List.filter_append, List.take_append_drop]

/-! ## Weaving -/

section Weave

variable {β : Type} {row : β → α} {N : List α} {g : Nat → List β}

/-- The fixed elements with others in the gaps before, between and after them. -/
def weave (row : β → α) : List α → (Nat → List β) → List α
  | [], g => (g 0).map row
  | x :: N, g => (g 0).map row ++ x :: weave row N fun j => g (j + 1)

theorem weave_nil : weave row N (fun _ => []) = N := by
  induction N with
  | nil => rfl
  | cons x N ih => rw [weave, ih]; rfl

/-- The filter of the fixed elements. -/
theorem filter_weave (hN : ∀ x ∈ N, q x = true) (hrow : ∀ b, q (row b) = false) :
    (weave row N g).filter q = N := by
  have hgap (l : List β) : (l.map row).filter q = [] :=
    List.filter_eq_nil_iff.mpr fun a ha => by
      obtain ⟨b, -, rfl⟩ := List.mem_map.mp ha
      simp [hrow b]
  induction N generalizing g with
  | nil => exact hgap _
  | cons x N ih =>
    rw [weave, List.filter_append, hgap, List.nil_append, List.filter_cons_of_pos (hN x List.mem_cons_self),
      ih fun y hy => hN y (List.mem_cons_of_mem _ hy)]

/-- What surrounds a gap. -/
structure Around (q : α → Bool) (row : β → α) (N : List α) (g : Nat → List β) (i : Nat)
    (before after : List α) : Prop where
  eq : ∀ g' : Nat → List β, (∀ j, j ≠ i → g' j = g j) →
    weave row N g' = before ++ ((g' i).map row ++ after)
  filter : before.filter q = N.take i
  last : i ≠ 0 → before.getLast? = N[i - 1]?
  head : ∀ x ∈ after.head?, q x = true
  /-- Without elements in the gaps before it. -/
  start : (∀ j < i, g j = []) → before = N.take i

/-- A gap can be taken out of a weave. -/
theorem exists_around (hN : ∀ x ∈ N, q x = true) (hrow : ∀ b, q (row b) = false) {i : Nat}
    (hi : i ≤ N.length) : ∃ before after, Around q row N g i before after := by
  have hgap (l : List β) : (l.map row).filter q = [] :=
    List.filter_eq_nil_iff.mpr fun a ha => by
      obtain ⟨b, -, rfl⟩ := List.mem_map.mp ha
      simp [hrow b]
  induction N generalizing g i with
  | nil =>
    obtain rfl : i = 0 := Nat.le_zero.mp hi
    exact ⟨[], [], fun g' _ => by simp [weave], rfl, fun h => absurd rfl h, by simp, fun _ => rfl⟩
  | cons x N ih =>
    have hx := hN x List.mem_cons_self
    cases i with
    | zero =>
      refine ⟨[], x :: weave row N fun j => g (j + 1), fun g' hg' => ?_, rfl, fun h => absurd rfl h, ?_,
        fun _ => rfl⟩
      · have hrest : (fun j => g' (j + 1)) = fun j => g (j + 1) :=
          funext fun j => hg' (j + 1) (Nat.succ_ne_zero j)
        rw [weave, hrest, List.nil_append]
      · rintro y hy
        obtain rfl : x = y := by simpa using hy
        exact hx
    | succ i =>
      obtain ⟨before, after, h⟩ := @ih (fun j => g (j + 1))
        (fun y hy => hN y (List.mem_cons_of_mem _ hy)) i (Nat.le_of_succ_le_succ hi)
      refine ⟨(g 0).map row ++ x :: before, after, fun g' hg' => ?_, ?_, fun _ => ?_, h.head,
        fun hempty => ?_⟩
      · rw [weave, hg' 0 (Nat.succ_ne_zero i).symm,
          h.eq (fun j => g' (j + 1)) fun j hj => hg' (j + 1) fun heq => hj (Nat.succ.inj heq)]
        simp
      · rw [List.filter_append, hgap, List.nil_append, List.filter_cons_of_pos hx, h.filter,
          List.take_succ_cons]
      · cases i with
        | zero =>
          have hnil : before = [] := by simpa using h.start (fun j hj => absurd hj (Nat.not_lt_zero j))
          simp [hnil]
        | succ i =>
          have hlast := h.last (Nat.succ_ne_zero i)
          have hlt : i < N.length := Nat.le_of_succ_le_succ hi
          rw [Nat.add_sub_cancel, List.getElem?_eq_getElem hlt] at hlast
          rw [List.getLast?_append, List.getLast?_cons, hlast]
          simp [hlt]
      · rw [hempty 0 (Nat.succ_pos i), h.start fun j hj => hempty (j + 1) (Nat.succ_lt_succ hj),
          List.take_succ_cons, List.map_nil, List.nil_append]

end Weave

end Gaps
