import TeamClu.ForStd.Text

/-!
# Association lists

What a lookup finds is in the list (`mem_of_lookup`), and the other way round where the keys are different
(`lookup_of_mem`).  A filter takes a key away, `update` changes what is under it, and `put` sets it: in
its place, or at the end.
-/

namespace Assoc

variable {α β : Type} [BEq α] [LawfulBEq α] {l : List (α × β)} {a a' : α}

theorem mem_of_lookup {b : β} (h : l.lookup a = some b) : (a, b) ∈ l := by
  obtain ⟨before, after, rfl, -⟩ := List.lookup_eq_some_iff.mp h
  simp

theorem lookup_of_mem (hnodup : (l.map (·.1)).Nodup) {b : β} (h : (a, b) ∈ l) :
    l.lookup a = some b := by
  induction l with
  | nil => cases h
  | cons e l ih =>
    obtain ⟨hnot, hrest⟩ := List.nodup_cons.mp hnodup
    rcases List.mem_cons.mp h with rfl | hmem
    · exact List.lookup_cons_self
    · have hne : a ≠ e.1 := by
        rintro rfl
        exact hnot (List.mem_map.mpr ⟨_, hmem, rfl⟩)
      obtain ⟨a', b'⟩ := e
      rw [List.lookup_cons, beq_false_of_ne hne]
      exact ih hrest hmem

/-- Where the keys are different, a key has at most one entry. -/
theorem filter_eq_lookup [DecidableEq α] (hnodup : (l.map (·.1)).Nodup) (a : α) :
    l.filter (·.1 = a) = (l.lookup a).toList.map (a, ·) := by
  induction l with
  | nil => rfl
  | cons e l ih =>
    obtain ⟨k, b⟩ := e
    obtain ⟨hnot, hrest⟩ := List.nodup_cons.mp hnodup
    by_cases hk : k = a
    · subst hk
      rw [List.filter_cons_of_pos (by simp), List.lookup_cons_self]
      rw [List.filter_eq_nil_iff.mpr]
      · rfl
      · intro e he heq
        exact hnot (List.mem_map.mpr ⟨e, he, by simpa using heq⟩)
    · rw [List.filter_cons_of_neg (by simpa using hk), List.lookup_cons,
        beq_false_of_ne (Ne.symm hk)]
      exact ih hrest

/-- A list without a key does not find it. -/
theorem lookup_eq_none (h : a ∉ l.map (·.1)) : l.lookup a = none :=
  List.lookup_eq_none_iff.mpr fun e he => by
    rw [bne_iff_ne]
    rintro rfl
    exact h (List.mem_map_of_mem he)

/-- A lookup behind the first entry. -/
theorem lookup_cons_of_ne {e : α × β} (h : a ≠ e.1) : (e :: l).lookup a = l.lookup a := by
  obtain ⟨k, b⟩ := e
  rw [List.lookup_cons, beq_false_of_ne h]

theorem lookup_filter_self : (l.filter (·.1 != a)).lookup a = none :=
  List.lookup_eq_none_iff.mpr fun e he => by
    have hne : e.1 ≠ a := bne_iff_ne.mp (List.mem_filter.mp he).2
    exact bne_iff_ne.mpr hne.symm

theorem lookup_filter_of_ne (h : a' ≠ a) : (l.filter (·.1 != a)).lookup a' = l.lookup a' := by
  induction l with
  | nil => rfl
  | cons e l ih =>
    by_cases hk : e.1 = a
    · rw [List.filter_cons_of_neg (by simp [hk]), ih, lookup_cons_of_ne (hk ▸ h)]
    · rw [List.filter_cons_of_pos (by simpa using hk)]
      by_cases hk' : a' = e.1
      · obtain ⟨k, b⟩ := e
        subst hk'
        rw [List.lookup_cons_self, List.lookup_cons_self]
      · rw [lookup_cons_of_ne hk', lookup_cons_of_ne hk', ih]

/-- The list with a change of what is under a key. -/
def update (a : α) (f : β → β) (l : List (α × β)) : List (α × β) :=
  l.map fun e => if e.1 == a then (e.1, f e.2) else e

omit [LawfulBEq α] in
theorem keys_update (a : α) (f : β → β) (l : List (α × β)) :
    (update a f l).map (·.1) = l.map (·.1) := by
  rw [update, List.map_map]
  refine List.map_congr_left fun e _ => ?_
  simp only [Function.comp_apply]
  split <;> rfl

theorem lookup_update_self (f : β → β) : (update a f l).lookup a = (l.lookup a).map f := by
  induction l with
  | nil => rfl
  | cons e l ih =>
    rw [update, List.map_cons, ← update]
    by_cases hk : a = e.1
    · obtain ⟨k, b⟩ := e
      subst hk
      simp
    · rw [if_neg (by simpa using Ne.symm hk), lookup_cons_of_ne hk, lookup_cons_of_ne hk, ih]

theorem lookup_update_of_ne (h : a' ≠ a) (f : β → β) :
    (update a f l).lookup a' = l.lookup a' := by
  induction l with
  | nil => rfl
  | cons e l ih =>
    rw [update, List.map_cons, ← update]
    by_cases hk : e.1 = a
    · rw [if_pos (by simpa using hk), lookup_cons_of_ne (hk ▸ h), lookup_cons_of_ne (hk ▸ h), ih]
    · rw [if_neg (by simpa using hk)]
      by_cases hk' : a' = e.1
      · obtain ⟨k, b⟩ := e
        subst hk'
        rw [List.lookup_cons_self, List.lookup_cons_self]
      · rw [lookup_cons_of_ne hk', lookup_cons_of_ne hk', ih]

/-- The list with a value under a key: in the place of the key, or at the end. -/
def put (a : α) (b : β) : List (α × β) → List (α × β)
  | [] => [(a, b)]
  | e :: l => if e.1 == a then (a, b) :: l else e :: put a b l

@[simp] theorem lookup_put_self (b : β) : (put a b l).lookup a = some b := by
  induction l with
  | nil => exact List.lookup_cons_self
  | cons e l ih =>
    rw [put]
    split
    · exact List.lookup_cons_self
    · next hne => rw [lookup_cons_of_ne (by simpa using fun h : a = e.1 => hne (by simp [h])), ih]

theorem lookup_put_of_ne (h : a' ≠ a) (b : β) : (put a b l).lookup a' = l.lookup a' := by
  induction l with
  | nil => exact lookup_cons_of_ne h
  | cons e l ih =>
    rw [put]
    split
    · next heq =>
      rw [lookup_cons_of_ne h, lookup_cons_of_ne (by rw [beq_iff_eq.mp heq]; exact h)]
    · by_cases hk : a' = e.1
      · obtain ⟨k, v⟩ := e
        subst hk
        rw [List.lookup_cons_self, List.lookup_cons_self]
      · rw [lookup_cons_of_ne hk, lookup_cons_of_ne hk, ih]

theorem lookup_put [DecidableEq α] (b : β) :
    (put a b l).lookup a' = if a' = a then some b else l.lookup a' := by
  split
  · next h => rw [h, lookup_put_self]
  · next h => exact lookup_put_of_ne h b

/-- A key that is there keeps its place, and a new one is the last. -/
theorem keys_put (a : α) (b : β) (l : List (α × β)) :
    (put a b l).map (·.1) = if a ∈ l.map (·.1) then l.map (·.1) else l.map (·.1) ++ [a] := by
  induction l with
  | nil => rfl
  | cons e l ih =>
    rw [put]
    split
    · next heq => simp [← beq_iff_eq.mp heq]
    · next hne =>
      have hne' : ¬ a = e.1 := fun h => hne (by simp [h])
      rw [List.map_cons, ih, List.map_cons]
      by_cases hmem : a ∈ l.map (·.1)
      · rw [if_pos hmem, if_pos (List.mem_cons_of_mem _ hmem)]
      · rw [if_neg hmem, if_neg (by simpa [hne'] using hmem), List.cons_append]

theorem nodup_put (h : (l.map (·.1)).Nodup) (b : β) : ((put a b l).map (·.1)).Nodup := by
  rw [keys_put]
  split
  · exact h
  · next hnot =>
    refine List.nodup_append.mpr ⟨h, by simp, fun x hx y hy hxy => hnot ?_⟩
    rw [← List.mem_singleton.mp hy, ← hxy]
    exact hx

theorem mem_keys_put (b : β) : a' ∈ (put a b l).map (·.1) ↔ a' = a ∨ a' ∈ l.map (·.1) := by
  rw [keys_put]
  split
  · next hmem => exact ⟨.inr, fun h => h.elim (fun h => h ▸ hmem) id⟩
  · simp [or_comm]

/-- A key is in the list if the list finds it. -/
theorem isSome_lookup_iff : (l.lookup a).isSome = true ↔ a ∈ l.map (·.1) := by
  rw [← not_iff_not, Bool.not_eq_true, Option.isSome_eq_false_iff, Option.isNone_iff_eq_none]
  refine ⟨fun h hmem => ?_, lookup_eq_none⟩
  obtain ⟨e, he, rfl⟩ := List.mem_map.mp hmem
  have := List.lookup_eq_none_iff.mp h e he
  simp at this

end Assoc
