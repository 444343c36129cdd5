import Mathlib.Data.List.Basic
import Mathlib.Order.Defs.LinearOrder
import Mathlib.Order.Lattice

/-!
# Stable sorting by a key

Sorting by a key leaves the elements of one key in their order: `filter_mergeSort`.  So what holds of every
two elements of the same key in the order of the list holds of them in the sorted list
(`pairwise_mergeSort_of_key`).  Two lists are sorted to the same list exactly when they have the same
elements of each key in the same order (`mergeSort_eq_iff`).
-/

namespace StableSort

variable {α κ : Type} [LinearOrder κ] {key : α → κ}

/-- The comparison of two elements by their keys. -/
def keyLe (key : α → κ) (a b : α) : Bool := key a ≤ key b

/-- The elements of one key keep their order. -/
theorem filter_mergeSort (l : List α) (k : κ) :
    (l.mergeSort (keyLe key)).filter (key · = k) = l.filter (key · = k) := by
  have hsorted : (l.filter (key · = k)).Pairwise fun a b => keyLe key a b = true := by
    refine List.pairwise_of_forall_mem_list fun a ha b hb => ?_
    rw [List.mem_filter, decide_eq_true_eq] at ha hb
    simp [keyLe, ha.2, hb.2]
  have hsub : (l.filter (key · = k)).Sublist (l.mergeSort (keyLe key)) := by
    refine List.sublist_mergeSort ?_ ?_ hsorted List.filter_sublist
    · simp only [keyLe, decide_eq_true_eq]
      exact fun a b c => le_trans
    · simp only [keyLe, Bool.or_eq_true, decide_eq_true_eq]
      exact fun a b => le_total _ _
  have hfilter := hsub.filter (key · = k)
  rw [List.filter_filter] at hfilter
  simp only [Bool.and_self] at hfilter
  exact (hfilter.eq_of_length (((List.mergeSort_perm l _).filter _).length_eq.symm)).symm

/-- A relation of the elements of each key is one of the elements of all keys. -/
theorem pairwise_key_iff {R : α → α → Prop} {l : List α} :
    l.Pairwise (fun a b => key a = key b → R a b) ↔ ∀ k, (l.filter (key · = k)).Pairwise R := by
  simp only [List.pairwise_filter, decide_eq_true_eq]
  constructor
  · exact fun h k => h.imp fun hab ha hb => hab (ha.trans hb.symm)
  · intro h
    induction l with
    | nil => exact List.Pairwise.nil
    | cons a l ih =>
      simp only [List.pairwise_cons] at h ⊢
      exact ⟨fun b hb hkey => (h (key a)).1 b hb rfl hkey.symm, ih fun k => (h k).2⟩

/-- Sorting by a key keeps what holds of the elements of the same key, and adds nothing to it. -/
theorem pairwise_mergeSort_of_key {R : α → α → Prop} {l : List α} :
    ((l.mergeSort (keyLe key)).Pairwise fun a b => key a = key b → R a b) ↔
      l.Pairwise fun a b => key a = key b → R a b := by
  rw [pairwise_key_iff, pairwise_key_iff]
  exact forall_congr' fun k => by rw [filter_mergeSort l k]

/-! ## Equal results -/

/-- Sorted lists with the same elements of each key are equal. -/
private theorem eq_of_filter_eq {l l' : List α} (hl : l.Pairwise fun a b => key a ≤ key b)
    (hl' : l'.Pairwise fun a b => key a ≤ key b)
    (h : ∀ k, l.filter (key · = k) = l'.filter (key · = k)) : l = l' := by
  induction l generalizing l' with
  | nil =>
    cases l' with
    | nil => rfl
    | cons b l' => simpa using h (key b)
  | cons a l ih =>
    cases l' with
    | nil => simpa using h (key a)
    | cons b l' =>
      rw [List.pairwise_cons] at hl hl'
      have hmem (c : α) : c ∈ a :: l ↔ c ∈ b :: l' := by
        have hc := congrArg (c ∈ ·) (h (key c))
        simpa only [List.mem_filter, decide_true, and_true, eq_iff_iff] using hc
      -- the first elements have the least key of all
      have hle : key b ≤ key a := by
        rcases List.mem_cons.mp ((hmem a).mp List.mem_cons_self) with rfl | ha
        · exact le_rfl
        · exact hl'.1 a ha
      have hge : key a ≤ key b := by
        rcases List.mem_cons.mp ((hmem b).mpr List.mem_cons_self) with rfl | hb
        · exact le_rfl
        · exact hl.1 b hb
      have hkey : key a = key b := le_antisymm hge hle
      have hfirst := h (key a)
      rw [List.filter_cons_of_pos (by simp), List.filter_cons_of_pos (by simp [hkey]),
        List.cons.injEq] at hfirst
      obtain ⟨rfl, -⟩ := hfirst
      congr 1
      refine ih hl.2 hl'.2 fun k => ?_
      have hk := h k
      by_cases ha : key a = k
      · rw [List.filter_cons_of_pos (by simpa using ha), List.filter_cons_of_pos (by simpa using ha)]
          at hk
        exact (List.cons.inj hk).2
      · rwa [List.filter_cons_of_neg (by simpa using ha), List.filter_cons_of_neg (by simpa using ha)]
          at hk

theorem pairwise_mergeSort (l : List α) :
    (l.mergeSort (keyLe key)).Pairwise fun a b => key a ≤ key b := by
  have hsorted := @List.pairwise_mergeSort _ (keyLe key)
    (by simpa only [keyLe, decide_eq_true_eq] using fun a b c => le_trans)
    (by simpa only [keyLe, Bool.or_eq_true, decide_eq_true_eq] using fun a b => le_total _ _) l
  exact hsorted.imp fun h => by simpa [keyLe] using h

/-- Sorting gives the same list exactly when the elements of each key are the same. -/
theorem mergeSort_eq_iff {l l' : List α} :
    l.mergeSort (keyLe key) = l'.mergeSort (keyLe key) ↔
      ∀ k, l.filter (key · = k) = l'.filter (key · = k) := by
  constructor
  · intro h k
    rw [← filter_mergeSort l k, h, filter_mergeSort l' k]
  · intro h
    refine eq_of_filter_eq (pairwise_mergeSort l) (pairwise_mergeSort l') fun k => ?_
    rw [filter_mergeSort, filter_mergeSort, h]

/-- A list with at most one element has no other order. -/
theorem eq_of_perm_of_length_le_one {l l' : List α} (h : l.Perm l') (hlen : l.length ≤ 1) :
    l = l' := by
  cases l with
  | nil => exact h.nil_eq
  | cons a l =>
    obtain rfl : l = [] := List.eq_nil_of_length_eq_zero (by rw [List.length_cons] at hlen; omega)
    exact h.singleton_eq

/-- Elements of different keys are sorted to the same list in whatever order they come. -/
theorem mergeSort_eq_of_perm {l l' : List α} (h : l.Perm l') (hkey : (l.map key).Nodup) :
    l.mergeSort (keyLe key) = l'.mergeSort (keyLe key) := by
  rw [mergeSort_eq_iff]
  intro k
  refine eq_of_perm_of_length_le_one (h.filter _) ?_
  have hone : ((l.filter (key · = k)).map key).Nodup := hkey.sublist (List.filter_sublist.map key)
  rw [List.eq_replicate_of_mem (fun k' hk' => by
    obtain ⟨a, ha, rfl⟩ := List.mem_map.mp hk'
    simpa using (List.mem_filter.mp ha).2 : ∀ k' ∈ (l.filter (key · = k)).map key, k' = k)] at hone
  simpa using List.nodup_replicate.mp hone

/-- Where those that satisfy a test come first, the first of a list do if there are enough of them. -/
theorem forall_mem_take_of_le {p : α → Bool} {l : List α}
    (hl : l.Pairwise fun a b => p b = true → p a = true) {n : Nat} (hn : n ≤ (l.filter p).length) :
    ∀ x ∈ l.take n, p x = true := by
  induction l generalizing n with
  | nil => simp
  | cons a rest ih =>
    obtain ⟨ha, hrest⟩ := List.pairwise_cons.mp hl
    cases n with
    | zero => simp
    | succ n =>
      cases hpa : p a with
      | true =>
        rw [List.filter_cons_of_pos hpa, List.length_cons] at hn
        intro x hx
        rcases List.mem_cons.mp hx with rfl | hx
        · exact hpa
        · exact ih hrest (Nat.le_of_succ_le_succ hn) x hx
      | false =>
        -- none of the rest satisfies it either
        have hnone : rest.filter p = [] := List.filter_eq_nil_iff.mpr fun b hb hpb =>
          Bool.false_ne_true (hpa.symm.trans (ha b hb hpb))
        rw [List.filter_cons_of_neg (by simp [hpa]), hnone] at hn
        simp at hn

end StableSort
