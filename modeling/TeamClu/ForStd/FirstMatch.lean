import Mathlib.Data.List.Basic
import Mathlib.Data.List.Nodup
import Mathlib.Data.List.Perm.Basic

/-!
# Changing the first element that fits

`modifyFirst` changes the first element with a property.  Elsewhere the list is as it was: what a filter keeps
is changed in the same way (`filter_modifyFirst`), and what the change does not touch stays (`map_modifyFirst`).
After several changes an element has gone through those that found it first (`getElem?_foldl_modifyFirst`).

`takeOut` leaves out the elements at some indices; `takeOut_perm` is the account of what is left.
-/

namespace FirstMatch

variable {α β : Type} {p : α → Bool} {f : α → α} {l : List α}

/-- The list with its first element that fits changed. -/
def modifyFirst (p : α → Bool) (f : α → α) : List α → List α
  | [] => []
  | a :: l => if p a then f a :: l else a :: modifyFirst p f l

/-- Changing the element at the index of the first one that fits. -/
theorem modify_of_findIdx? {i : Nat} (h : l.findIdx? p = some i) :
    l.modify i f = modifyFirst p f l := by
  induction l generalizing i with
  | nil => cases h
  | cons a l ih =>
    rw [List.findIdx?_cons] at h
    by_cases ha : p a
    · rw [if_pos ha] at h
      cases h
      simp [modifyFirst, ha]
    · rw [if_neg ha] at h
      obtain ⟨j, hj, rfl⟩ := Option.map_eq_some_iff.mp h
      simp [modifyFirst, ha, ih hj]

theorem modifyFirst_of_none (h : ∀ a ∈ l, p a = false) : modifyFirst p f l = l := by
  induction l with
  | nil => rfl
  | cons a l ih =>
    rw [modifyFirst, if_neg (by simp [h a]), ih fun b hb => h b (List.mem_cons_of_mem _ hb)]

/-- A filter keeps the element, changed or not. -/
theorem filter_modifyFirst {q : α → Bool} (hpq : ∀ a, p a → q a) (hq : ∀ a, q (f a) = q a) :
    (modifyFirst p f l).filter q = modifyFirst p f (l.filter q) := by
  induction l with
  | nil => rfl
  | cons a l ih =>
    by_cases ha : p a
    · have hqa := hpq a ha
      simp [modifyFirst, ha, hqa, hq]
    · by_cases hqa : q a <;> simp [modifyFirst, ha, hqa, ih]

/-- What the change does not touch stays. -/
theorem map_modifyFirst {g : α → β} (hg : ∀ a, g (f a) = g a) :
    (modifyFirst p f l).map g = l.map g := by
  induction l with
  | nil => rfl
  | cons a l ih =>
    by_cases ha : p a <;> simp [modifyFirst, ha, hg, ih]

/-- A change that adds an element to what each one holds adds it once. -/
theorem flatMap_modifyFirst {g : α → List β} {b : β} (hg : ∀ a, p a → (g (f a)).Perm (g a ++ [b]))
    (h : ∃ a ∈ l, p a) : ((modifyFirst p f l).flatMap g).Perm (l.flatMap g ++ [b]) := by
  induction l with
  | nil =>
    obtain ⟨a, ha, -⟩ := h
    cases ha
  | cons a l ih =>
    by_cases ha : p a
    · rw [modifyFirst, if_pos ha, List.flatMap_cons, List.flatMap_cons, List.append_assoc]
      refine ((hg a ha).append_right _).trans ?_
      rw [List.append_assoc]
      exact List.perm_append_comm.append_left _
    · obtain ⟨c, hc, hpc⟩ := h
      rcases List.mem_cons.mp hc with rfl | hmem
      · exact absurd hpc ha
      · rw [modifyFirst, if_neg ha, List.flatMap_cons, List.flatMap_cons, List.append_assoc]
        exact (ih ⟨c, hmem, hpc⟩).append_left _

/-- The element at the index of the first one that fits. -/
theorem getElem?_of_findIdx? {i : Nat} (h : l.findIdx? p = some i) :
    l[i]? = l.find? p ∧ (l.find? p).isSome := by
  induction l generalizing i with
  | nil => cases h
  | cons a l ih =>
    rw [List.findIdx?_cons] at h
    by_cases ha : p a
    · rw [if_pos ha] at h
      cases h
      simp [ha]
    · rw [if_neg ha] at h
      obtain ⟨j, hj, rfl⟩ := Option.map_eq_some_iff.mp h
      simpa [List.find?_cons_of_neg ha] using ih hj

theorem getElem?_modifyFirst (i : Nat) : (modifyFirst p f l)[i]? =
    if l.findIdx? p = some i then l[i]?.map f else l[i]? := by
  induction l generalizing i with
  | nil => simp [modifyFirst]
  | cons a l ih =>
    rw [List.findIdx?_cons, modifyFirst]
    by_cases ha : p a
    · cases i <;> simp [ha]
    · cases i with
      | zero => simp [ha]
      | succ i => simp [ha, ih]

/-- A change that does not touch another property does not change what is found first. -/
theorem findIdx?_modifyFirst {q : α → Bool} (hq : ∀ a, q (f a) = q a) :
    (modifyFirst p f l).findIdx? q = l.findIdx? q := by
  induction l with
  | nil => rfl
  | cons a l ih =>
    by_cases ha : p a <;> simp [modifyFirst, ha, List.findIdx?_cons, hq, ih]

/-- After several changes an element has gone through those that found it first. -/
theorem getElem?_foldl_modifyFirst {γ : Type} {p : γ → α → Bool} {f : γ → α → α}
    (hp : ∀ c d a, p c (f d a) = p c a) (cs : List γ) (l : List α) (i : Nat) :
    (cs.foldl (fun l c => modifyFirst (p c) (f c) l) l)[i]? =
      l[i]?.map fun a =>
        (cs.filter fun c => l.findIdx? (p c) == some i).foldl (fun a c => f c a) a := by
  induction cs generalizing l with
  | nil => simp
  | cons c cs ih =>
    rw [List.foldl_cons, ih, getElem?_modifyFirst]
    have hfind (d : γ) : (modifyFirst (p c) (f c) l).findIdx? (p d) = l.findIdx? (p d) :=
      findIdx?_modifyFirst (hp d c)
    simp only [hfind]
    by_cases hi : l.findIdx? (p c) = some i
    · cases l[i]? <;> simp [hi]
    · cases l[i]? <;> simp [hi]

/-- An element that takes up more takes it up once. -/
theorem flatMap_set {g : α → List β} {b : α} {extra : List β} {i : Nat} (hi : i < l.length)
    (hg : (g b).Perm (g l[i] ++ extra)) : ((l.set i b).flatMap g).Perm (l.flatMap g ++ extra) := by
  induction l generalizing i with
  | nil => simp at hi
  | cons a l ih =>
    cases i with
    | zero =>
      rw [List.set_cons_zero, List.flatMap_cons, List.flatMap_cons, List.append_assoc]
      refine (hg.append_right _).trans ?_
      rw [List.append_assoc]
      exact List.perm_append_comm.append_left _
    | succ i =>
      rw [List.set_cons_succ, List.flatMap_cons, List.flatMap_cons, List.append_assoc]
      exact (ih (by simpa using hi) hg).append_left _

/-- What an element held goes, and what the new one holds comes. -/
theorem flatMap_set_exchange {g : α → List β} {a b : α} {i : Nat} (h : l[i]? = some a) :
    (g a ++ (l.set i b).flatMap g).Perm (g b ++ l.flatMap g) := by
  induction l generalizing i with
  | nil => cases h
  | cons c l ih =>
    cases i with
    | zero =>
      obtain rfl : c = a := Option.some.inj h
      rw [List.set_cons_zero, List.flatMap_cons, List.flatMap_cons, ← List.append_assoc, ← List.append_assoc]
      exact List.perm_append_comm.append_right _
    | succ i =>
      rw [List.set_cons_succ, List.flatMap_cons, List.flatMap_cons]
      refine (List.perm_append_comm_assoc _ _ _).trans (((ih h).append_left _).trans ?_)
      exact List.perm_append_comm_assoc _ _ _

/-! ## Leaving out indices -/

/-- The list without the elements at some indices. -/
def takeOut (is : List Nat) (l : List α) : List α :=
  (l.zipIdx.filter fun entry => entry.2 ∉ is).map (·.1)

/-- What is left out and what stays are the whole list. -/
theorem takeOut_perm {is : List Nat} (hnodup : is.Nodup) :
    (takeOut is l ++ is.filterMap (l[·]?)).Perm l := by
  have hsplit : (l.zipIdx.filter (fun entry => entry.2 ∉ is) ++
      l.zipIdx.filter fun entry => entry.2 ∈ is).Perm l.zipIdx := by
    refine (List.perm_append_comm.trans ?_)
    have hperm := List.filter_append_perm (fun entry : α × Nat => decide (entry.2 ∈ is)) l.zipIdx
    simpa using hperm
  have hout : (l.zipIdx.filter fun entry => entry.2 ∈ is).Perm
      (is.filterMap fun i => l[i]?.map (·, i)) := by
    refine (List.perm_ext_iff_of_nodup ?_ ?_).mpr fun entry => ?_
    · have hsnd : (l.zipIdx.map (·.2)).Nodup := by
        rw [List.zipIdx_map_snd]
        exact List.nodup_range'
      exact (List.Nodup.of_map _ hsnd).filter _
    · refine List.Nodup.filterMap (fun i j e hi hj => ?_) hnodup
      obtain ⟨a, -, rfl⟩ := Option.map_eq_some_iff.mp hi
      obtain ⟨b, -, hb⟩ := Option.map_eq_some_iff.mp hj
      exact (Prod.mk.inj hb).2.symm
    · obtain ⟨a, i⟩ := entry
      simp [List.mem_zipIdx_iff_getElem?]
      tauto
  have hmap := (hsplit.symm.trans (hout.append_left _)).map (·.1)
  rw [List.map_append, List.map_filterMap] at hmap
  simpa [takeOut, Function.comp_def, Option.map_map] using hmap.symm

private theorem map_takeOut_from {γ : Type} {is : List Nat} {l : List α} {l' : List β} {g : α → γ}
    {g' : β → γ} {q : β → Bool} {n : Nat} (h : l.map g = l'.map g')
    (hq : ∀ i b, l'[i]? = some b → (n + i ∈ is ↔ q b = true)) :
    (((l.zipIdx n).filter fun entry => entry.2 ∉ is).map (·.1)).map g = (l'.filter (!q ·)).map g' := by
  induction l generalizing l' n with
  | nil =>
    cases l' with
    | nil => rfl
    | cons b l' => cases h
  | cons a l ih =>
    cases l' with
    | nil => cases h
    | cons b l' =>
      obtain ⟨hab, hrest⟩ := List.cons.inj h
      have hhead : n ∈ is ↔ q b = true := hq 0 b rfl
      have htail := @ih l' (n + 1) hrest fun i b hb => by
        rw [Nat.add_assoc, Nat.add_comm 1 i]
        exact hq (i + 1) b hb
      by_cases hb : q b = true
      · simpa [List.zipIdx_cons, hb, hhead] using htail
      · simpa [List.zipIdx_cons, hb, hhead, hab] using htail

/-- What stays, in the words of a list that is read the same way. -/
theorem map_takeOut {γ : Type} {is : List Nat} {l' : List β} {g : α → γ} {g' : β → γ} {q : β → Bool}
    (h : l.map g = l'.map g') (hq : ∀ i b, l'[i]? = some b → (i ∈ is ↔ q b = true)) :
    (takeOut is l).map g = (l'.filter (!q ·)).map g' :=
  map_takeOut_from h fun i b hb => by
    rw [Nat.zero_add]
    exact hq i b hb

end FirstMatch
