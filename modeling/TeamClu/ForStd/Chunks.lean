import Mathlib.Data.List.Basic

/-!
# Splitting a list into chunks

`chunks n l` is Rust's `l.chunks(n + 1)`: consecutive pieces of `n + 1` elements, the last one
perhaps shorter.  Joining them gives the list back (`flatten_chunks`).
-/

namespace Chunks

variable {α : Type}

/-- The pieces of `n + 1` elements of a list, in order. -/
def chunks (n : Nat) : List α → List (List α)
  | [] => []
  | x :: xs => (x :: xs.take n) :: chunks n (xs.drop n)
termination_by l => l.length
decreasing_by simp only [List.length_drop, List.length_cons]; omega

@[simp] theorem chunks_nil (n : Nat) : chunks n ([] : List α) = [] := by
  rw [chunks]

theorem chunks_cons (n : Nat) (x : α) (xs : List α) :
    chunks n (x :: xs) = (x :: xs.take n) :: chunks n (xs.drop n) := by
  rw [chunks]

/-- The chunks hold the elements of the list, in order. -/
theorem flatten_chunks (n : Nat) (l : List α) : (chunks n l).flatten = l := by
  induction l using chunks.induct n with
  | case1 => rw [chunks_nil, List.flatten_nil]
  | case2 x xs ih =>
    rw [chunks_cons, List.flatten_cons, ih, List.cons_append, List.take_append_drop]

/-- What is in the list is in one of the chunks. -/
theorem mem_chunks {n : Nat} {l : List α} {a : α} : (∃ c ∈ chunks n l, a ∈ c) ↔ a ∈ l := by
  conv_rhs => rw [← flatten_chunks n l]
  rw [List.mem_flatten]

@[simp] theorem chunks_eq_nil {n : Nat} {l : List α} : chunks n l = [] ↔ l = [] := by
  cases l with
  | nil => simp
  | cons x xs => simp [chunks_cons]

/-- The first chunk, when the list begins with a full one. -/
theorem chunks_append {n : Nat} {l : List α} (hl : l.length = n + 1) (r : List α) :
    chunks n (l ++ r) = l :: chunks n r := by
  cases l with
  | nil => cases hl
  | cons x xs =>
    rw [List.length_cons, Nat.add_right_cancel_iff] at hl
    rw [List.cons_append, chunks_cons, ← hl, List.take_left, List.drop_left]

/-- A list that fits into one chunk. -/
theorem chunks_of_length_le {n : Nat} {l : List α} (hne : l ≠ []) (hl : l.length ≤ n + 1) :
    chunks n l = [l] := by
  cases l with
  | nil => exact absurd rfl hne
  | cons x xs =>
    rw [List.length_cons, Nat.add_le_add_iff_right] at hl
    rw [chunks_cons, List.take_of_length_le hl, List.drop_of_length_le hl, chunks_nil]

/-- No chunk is empty, and none is longer than `n + 1`. -/
theorem of_mem_chunks {n : Nat} {l c : List α} (hc : c ∈ chunks n l) : c ≠ [] ∧ c.length ≤ n + 1 := by
  induction l using chunks.induct n with
  | case1 => simp at hc
  | case2 x xs ih =>
    rw [chunks_cons, List.mem_cons] at hc
    rcases hc with rfl | hc
    · exact ⟨List.cons_ne_nil _ _, Nat.succ_le_succ (List.length_take_le ..)⟩
    · exact ih hc

/-- All chunks but the last have `n + 1` elements. -/
theorem length_of_mem_dropLast_chunks {n : Nat} {l c : List α} (hc : c ∈ (chunks n l).dropLast) :
    c.length = n + 1 := by
  induction l using chunks.induct n with
  | case1 => simp at hc
  | case2 x xs ih =>
    rw [chunks_cons] at hc
    by_cases hnil : chunks n (xs.drop n) = []
    · simp [hnil] at hc
    · rw [List.dropLast_cons_of_ne_nil hnil, List.mem_cons] at hc
      rcases hc with rfl | hc
      · rw [chunks_eq_nil, List.drop_eq_nil_iff] at hnil
        rw [List.length_cons, List.length_take]
        omega
      · exact ih hc

/-- Dropping `k` chunks drops the elements that fill them. -/
theorem drop_chunks (n k : Nat) (l : List α) :
    (chunks n l).drop k = chunks n (l.drop (k * (n + 1))) := by
  induction k generalizing l with
  | zero => simp
  | succ k ih =>
    cases l with
    | nil => simp
    | cons x xs =>
      have hmul : (k + 1) * (n + 1) = n + k * (n + 1) + 1 := by
        rw [Nat.add_mul k 1]
        omega
      rw [chunks_cons, List.drop_succ_cons, ih, List.drop_drop, hmul, List.drop_succ_cons]

/-- How many chunks there are. -/
theorem length_chunks_mul (n : Nat) (l : List α) : l.length ≤ (chunks n l).length * (n + 1) := by
  induction l using chunks.induct n with
  | case1 => simp
  | case2 x xs ih =>
    rw [List.length_drop] at ih
    rw [chunks_cons, List.length_cons, List.length_cons, Nat.add_mul]
    omega

end Chunks
