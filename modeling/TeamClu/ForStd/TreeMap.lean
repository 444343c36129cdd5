import Std.Data.ExtTreeMap
import Mathlib.Algebra.Order.BigOperators.Group.List
import Mathlib.Algebra.Order.Ring.Nat
import Mathlib.Data.List.Perm.Subperm

/-!
# Tree maps and their lists

A tree map is rebuilt from its list of entries (`foldl_insert_toList`), and a sum over the entries
grows by at most what is inserted (`sum_toList_insert_le`).  The `get_` lemmas say what an update
does to a lookup, with keys compared by equality.  A list made of the entries, at most one element
from each, is searched by key through the map (`find?_filterMap_toList`).
-/

namespace TreeMap

variable {α β : Type} {cmp : α → α → Ordering} [Std.TransCmp cmp] [Std.LawfulEqCmp cmp]

/-- Inserting the entries of a map into the empty map gives the map back. -/
theorem foldl_insert_toList [BEq α] [Std.LawfulBEqCmp cmp] (m : Std.ExtTreeMap α β cmp) :
    m.toList.foldl (fun acc entry => acc.insert entry.1 entry.2) ∅ = m := by
  have hfold : m.toList.foldl (fun acc entry => acc.insert entry.1 entry.2) ∅ =
      Std.ExtTreeMap.ofList m.toList cmp := by
    rw [Std.ExtTreeMap.ofList_eq_insertMany_empty, Std.ExtTreeMap.insertMany_list_eq_foldl]
  rw [hfold]
  refine Std.ExtTreeMap.ext_getElem? fun k => ?_
  cases hk : m[k]? with
  | some v =>
    exact Std.ExtTreeMap.getElem?_ofList_of_mem Std.ReflCmp.compare_self
      Std.ExtTreeMap.distinct_keys_toList (Std.ExtTreeMap.mem_toList_iff_getElem?_eq_some.mpr hk)
  | none =>
    refine Std.ExtTreeMap.getElem?_ofList_of_contains_eq_false ?_
    rw [Std.ExtTreeMap.map_fst_toList_eq_keys, Std.ExtTreeMap.contains_keys,
      Std.ExtTreeMap.contains_eq_isSome_getElem?, hk]
    rfl

/-- The list of entries has no duplicates. -/
theorem nodup_toList (m : Std.ExtTreeMap α β cmp) : m.toList.Nodup := by
  refine Std.ExtTreeMap.distinct_keys_toList.imp fun {a b} hne => ?_
  rintro rfl
  exact hne Std.ReflCmp.compare_self

/-- Inserting adds at most the new entry to a sum over all entries. -/
theorem sum_toList_insert_le (f : β → Nat) (m : Std.ExtTreeMap α β cmp) (k : α) (v : β) :
    ((m.insert k v).toList.map fun e => f e.2).sum ≤ (m.toList.map fun e => f e.2).sum + f v := by
  have hsub : (m.insert k v).toList ⊆ (k, v) :: m.toList := by
    rintro ⟨k', v'⟩ hmem
    rw [Std.ExtTreeMap.mem_toList_iff_getElem?_eq_some, Std.ExtTreeMap.getElem?_insert] at hmem
    split_ifs at hmem with hk
    · obtain rfl := Std.LawfulEqCmp.eq_of_compare hk
      rw [Option.some.inj hmem]
      exact List.mem_cons_self
    · exact List.mem_cons_of_mem _ (Std.ExtTreeMap.mem_toList_iff_getElem?_eq_some.mpr hmem)
  obtain ⟨l, hperm, hsublist⟩ := List.subperm_of_subset (nodup_toList (m.insert k v)) hsub
  calc ((m.insert k v).toList.map fun e => f e.2).sum
      = (l.map fun e => f e.2).sum := ((hperm.map _).sum_eq).symm
    _ ≤ (((k, v) :: m.toList).map fun e => f e.2).sum :=
        (hsublist.map _).sum_le_sum fun _ _ => Nat.zero_le _
    _ = (m.toList.map fun e => f e.2).sum + f v := by
        rw [List.map_cons, List.sum_cons, Nat.add_comm]

/-! ## Lookups after updates -/

section Lookup

variable [DecidableEq α]

theorem get_insert (m : Std.ExtTreeMap α β cmp) (k k' : α) (v : β) :
    (m.insert k v)[k']? = if k = k' then some v else m[k']? := by
  simp only [Std.ExtTreeMap.getElem?_insert, Std.LawfulEqCmp.compare_eq_iff_eq]

theorem get_erase (m : Std.ExtTreeMap α β cmp) (k k' : α) :
    (m.erase k)[k']? = if k = k' then none else m[k']? := by
  simp only [Std.ExtTreeMap.getElem?_erase, Std.LawfulEqCmp.compare_eq_iff_eq]

theorem get_modify (m : Std.ExtTreeMap α β cmp) (k k' : α) (f : β → β) :
    (m.modify k f)[k']? = if k = k' then m[k']?.map f else m[k']? := by
  simp only [Std.ExtTreeMap.getElem?_modify, Std.LawfulEqCmp.compare_eq_iff_eq]
  split_ifs with h
  · rw [h]
  · rfl

end Lookup

/-- An entry of the list is a lookup. -/
theorem mem_toList {m : Std.ExtTreeMap α β cmp} {k : α} {v : β} :
    (k, v) ∈ m.toList ↔ m[k]? = some v :=
  Std.ExtTreeMap.mem_toList_iff_getElem?_eq_some

/-- The entries of one key, in whatever order the entries of the map come. -/
theorem filter_of_perm_toList [DecidableEq α] {m : Std.ExtTreeMap α β cmp} {l : List (α × β)}
    (h : l.Perm m.toList) (k : α) : l.filter (·.1 = k) = (m[k]?).toList.map (k, ·) := by
  have hmem (e : α × β) : e ∈ l ↔ m[e.1]? = some e.2 := h.mem_iff.trans mem_toList
  cases hk : m[k]? with
  | none =>
    refine List.filter_eq_nil_iff.mpr fun e he heq => ?_
    rw [decide_eq_true_eq] at heq
    rw [hmem, heq, hk] at he
    cases he
  | some v =>
    have hnodup : (l.filter (·.1 = k)).Nodup := (h.nodup_iff.mpr (nodup_toList m)).filter _
    refine List.perm_singleton.mp ((List.perm_ext_iff_of_nodup hnodup (by simp)).mpr
      fun e => ?_)
    obtain ⟨k', v'⟩ := e
    rw [List.mem_filter, hmem, decide_eq_true_eq, List.mem_singleton, Prod.mk.injEq]
    constructor
    · rintro ⟨hget, rfl⟩
      exact ⟨rfl, Option.some.inj (hget.symm.trans hk)⟩
    · rintro ⟨rfl, rfl⟩
      exact ⟨hk, rfl⟩

/-! ## Lists made of the entries -/

section Scans

variable {γ : Type} {g : α → β → Option γ} {key : γ → α}

/-- A list made of the entries of a map, at most one element from each, which has the key of its
    entry: no two elements have the same key. -/
theorem nodup_filterMap_toList (hkey : ∀ k v x, g k v = some x → key x = k)
    (m : Std.ExtTreeMap α β cmp) :
    ((m.toList.filterMap fun e => g e.1 e.2).map key).Nodup := by
  rw [List.Nodup, List.pairwise_map, List.pairwise_filterMap]
  refine Std.ExtTreeMap.distinct_keys_toList.imp fun {a b} hne x hx y hy heq => hne ?_
  rw [← hkey _ _ _ hx, ← hkey _ _ _ hy, heq]
  exact Std.ReflCmp.compare_self

/-- Looking an element up by its key in such a list. -/
theorem find?_filterMap_toList [BEq α] [LawfulBEq α] (hkey : ∀ k v x, g k v = some x → key x = k)
    (m : Std.ExtTreeMap α β cmp) (k : α) :
    (m.toList.filterMap fun e => g e.1 e.2).find? (key · == k) = m[k]?.bind (g k) := by
  cases hfind : (m.toList.filterMap fun e => g e.1 e.2).find? (key · == k) with
  | some x =>
    obtain ⟨⟨k', v⟩, hmem, hx⟩ := List.mem_filterMap.mp (List.mem_of_find?_eq_some hfind)
    have hk : key x = k := by simpa using List.find?_some hfind
    obtain rfl : k' = k := (hkey _ _ _ hx).symm.trans hk
    rw [Std.ExtTreeMap.mem_toList_iff_getElem?_eq_some.mp hmem]
    exact hx.symm
  | none =>
    cases hget : m[k]? with
    | none => rfl
    | some v =>
      cases hx : g k v with
      | none => exact hx.symm
      | some x =>
        have hmem : x ∈ m.toList.filterMap fun e => g e.1 e.2 :=
          List.mem_filterMap.mpr ⟨(k, v), Std.ExtTreeMap.mem_toList_iff_getElem?_eq_some.mpr hget, hx⟩
        exact absurd (beq_iff_eq.mpr (hkey _ _ _ hx)) (List.find?_eq_none.mp hfind x hmem)

end Scans

end TreeMap
