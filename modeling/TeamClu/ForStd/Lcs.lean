import Mathlib.Data.List.Forall2
import Mathlib.Order.Bounds.Basic
import Mathlib.Tactic.Common

/-!
# Longest common subsequences

`lcsLength r as bs` is the greatest length of a common subsequence of two lists, where `r` says which of
their elements are taken for equal (`isGreatest_lcsLength`).  Nothing is asked of `r`.
-/

namespace List

variable {α β : Type} (r : α → β → Bool)

/-- The length of a longest common subsequence, by the usual recurrence. -/
def lcsLength : List α → List β → Nat
  | [], _ => 0
  | _ :: _, [] => 0
  | a :: as, b :: bs =>
    if r a b then lcsLength as bs + 1 else max (lcsLength as (b :: bs)) (lcsLength (a :: as) bs)
  termination_by as bs => as.length + bs.length

@[simp] theorem lcsLength_nil_left (bs : List β) : lcsLength r [] bs = 0 := by rw [lcsLength]

@[simp] theorem lcsLength_nil_right (as : List α) : lcsLength r as [] = 0 := by
  cases as <;> rw [lcsLength]

theorem lcsLength_cons_cons (a : α) (as : List α) (b : β) (bs : List β) :
    lcsLength r (a :: as) (b :: bs) =
      if r a b then lcsLength r as bs + 1
      else max (lcsLength r as (b :: bs)) (lcsLength r (a :: as) bs) := by
  rw [lcsLength]

/-- A part of one list that stands, element for element, for a part of the other. -/
structure CommonSubseq (as : List α) (bs : List β) (xs : List α) (ys : List β) : Prop where
  left : xs <+ as
  right : ys <+ bs
  same : Forall₂ (fun a b => r a b = true) xs ys

variable {r}

private theorem CommonSubseq.nil (as : List α) (bs : List β) : CommonSubseq r as bs [] [] :=
  ⟨nil_sublist as, nil_sublist bs, .nil⟩

/-- There is one of that length. -/
theorem exists_commonSubseq (as : List α) (bs : List β) :
    ∃ xs ys, CommonSubseq r as bs xs ys ∧ xs.length = lcsLength r as bs := by
  fun_induction lcsLength r as bs with
  | case1 bs => exact ⟨[], [], .nil _ _, rfl⟩
  | case2 a as => exact ⟨[], [], .nil _ _, rfl⟩
  | case3 a as b bs hab ih =>
    obtain ⟨xs, ys, h, hlen⟩ := ih
    exact ⟨a :: xs, b :: ys, ⟨h.left.cons_cons a, h.right.cons_cons b, .cons hab h.same⟩,
      by rw [length_cons, hlen]⟩
  | case4 a as b bs hab ihLeft ihRight =>
    obtain ⟨xs, ys, h, hlen⟩ := ihLeft
    obtain ⟨xs', ys', h', hlen'⟩ := ihRight
    by_cases hle : xs.length ≤ xs'.length
    · exact ⟨xs', ys', ⟨h'.left, h'.right.cons b, h'.same⟩, by omega⟩
    · exact ⟨xs, ys, ⟨h.left.cons a, h.right, h.same⟩, by omega⟩

/-- There is none longer. -/
theorem CommonSubseq.length_le {as : List α} {bs : List β} {xs : List α} {ys : List β}
    (h : CommonSubseq r as bs xs ys) : xs.length ≤ lcsLength r as bs := by
  fun_induction lcsLength r as bs generalizing xs ys with
  | case1 bs => rw [sublist_nil.mp h.left, length_nil]
  | case2 a as => rw [h.same.length_eq, sublist_nil.mp h.right, length_nil]
  | case3 a as b bs hab ih =>
    -- Without the first pair it is one of the tails.
    cases h.same with
    | nil => exact Nat.zero_le _
    | cons hxy hrest =>
      have hlen := ih ⟨h.left.tail, h.right.tail, hrest⟩
      exact Nat.succ_le_succ hlen
  | case4 a as b bs hab ihLeft ihRight =>
    -- It cannot use both first elements, for they would be its first pair.
    rcases sublist_cons_iff.mp h.left with hleft | ⟨xs', rfl, hleft⟩
    · exact (ihLeft ⟨hleft, h.right, h.same⟩).trans (Nat.le_max_left _ _)
    · rcases sublist_cons_iff.mp h.right with hright | ⟨ys', rfl, hright⟩
      · exact (ihRight ⟨h.left, hright, h.same⟩).trans (Nat.le_max_right _ _)
      · cases h.same with
        | cons hsame _ => exact absurd hsame hab

/-- `lcsLength` is the greatest length of a common subsequence. -/
theorem isGreatest_lcsLength (as : List α) (bs : List β) :
    IsGreatest {n | ∃ xs ys, CommonSubseq r as bs xs ys ∧ xs.length = n} (lcsLength r as bs) :=
  ⟨exists_commonSubseq as bs, fun _ ⟨_, _, h, hlen⟩ => hlen ▸ h.length_le⟩

end List
