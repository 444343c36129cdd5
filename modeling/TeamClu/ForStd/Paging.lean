import Mathlib.Data.List.Basic
import Mathlib.Data.Prod.Lex

/-!
# Listings that are read page by page

A page comes with a cursor to the next one, or with none when it is the last (`Paged`).  Where a page is always the
front of what is left, and its cursor stands for the rest, the pages together are the whole listing
(`exists_paged`).  A listing that is ordered by a key with no two rows of one key can be cut at the key of any of
its rows (`filter_lt_of_pairwise`).
-/

namespace Paging

/-! ## Following the cursors -/

section Paged

variable {α κ : Type} {fetch : Option κ → List α × Option κ}

/-- The pages from a cursor on, until one has no next cursor. -/
inductive Paged (fetch : Option κ → List α × Option κ) : Option κ → List (List α) → Prop
  | last {c : Option κ} : (fetch c).2 = none → Paged fetch c [(fetch c).1]
  | more {c : Option κ} {next : κ} {pages : List (List α)} : (fetch c).2 = some next →
      Paged fetch (some next) pages → Paged fetch c ((fetch c).1 :: pages)

/-- There is one way to follow the cursors. -/
theorem Paged.unique {c : Option κ} {pages pages' : List (List α)} (h : Paged fetch c pages)
    (h' : Paged fetch c pages') : pages = pages' := by
  induction h generalizing pages' with
  | last hnone =>
    cases h' with
    | last => rfl
    | more hsome => simp [hnone] at hsome
  | more hsome _ ih =>
    cases h' with
    | last hnone => simp [hnone] at hsome
    | more hsome' hrest =>
      obtain rfl := Option.some.inj (hsome.symm.trans hsome')
      rw [ih hrest]

/-- Where each page is the front of what is left, and its cursor stands for what is behind it, the pages are what
    is left. -/
theorem exists_paged {limit : Nat} (hlimit : 1 ≤ limit) {Rest : Option κ → List α → Prop}
    (hfetch : ∀ c rest, Rest c rest → (fetch c).1 = rest.take limit ∧
      ((fetch c).2 = none ∧ rest.length < limit ∨
        ∃ next, (fetch c).2 = some next ∧ limit ≤ rest.length ∧ Rest (some next) (rest.drop limit)))
    {c : Option κ} {rest : List α} (hrest : Rest c rest) :
    ∃ pages, Paged fetch c pages ∧ pages.flatten = rest := by
  induction hn : rest.length using Nat.strong_induction_on generalizing c rest with
  | _ n ih =>
    subst hn
    obtain ⟨hpage, ⟨hnone, hlt⟩ | ⟨next, hnext, hle, hnew⟩⟩ := hfetch c rest hrest
    · refine ⟨_, .last hnone, ?_⟩
      rw [hpage, List.take_of_length_le hlt.le]
      simp
    · have hshort : (rest.drop limit).length < rest.length := by
        rw [List.length_drop]
        omega
      obtain ⟨pages, hpages, hflat⟩ := ih _ hshort hnew rfl
      refine ⟨_, .more hnext hpages, ?_⟩
      rw [List.flatten_cons, hflat, hpage, List.take_append_drop]

end Paged

/-! ## Newest first -/

section Newest

variable {α κ : Type} [LinearOrder κ] (key : α → κ)

/-- The rows in the descending order of their keys. -/
def newestFirst (rows : List α) : List α := rows.mergeSort fun a b => key b ≤ key a

theorem newestFirst_perm (rows : List α) : (newestFirst key rows).Perm rows := List.mergeSort_perm _ _

theorem pairwise_newestFirst (rows : List α) : (newestFirst key rows).Pairwise fun a b => key b ≤ key a := by
  have hsorted := @List.pairwise_mergeSort _ (fun a b : α => decide (key b ≤ key a))
    (fun a b c hab hbc => by
      simp only [decide_eq_true_eq] at *
      exact hbc.trans hab)
    (fun a b => by
      simp only [Bool.or_eq_true, decide_eq_true_eq]
      exact le_total _ _) rows
  exact hsorted.imp fun h => by simpa using h

variable {key}

/-- Rows that are in order stay as they are. -/
theorem newestFirst_of_pairwise {rows : List α} (h : rows.Pairwise fun a b => key b ≤ key a) :
    newestFirst key rows = rows :=
  List.mergeSort_of_pairwise (h.imp fun hle => by simpa using hle)

/-- With no two rows of one key the order is strict. -/
theorem pairwise_lt_newestFirst {rows : List α} (hkey : rows.Pairwise fun a b => key a ≠ key b) :
    (newestFirst key rows).Pairwise fun a b => key b < key a := by
  have hne := ((newestFirst_perm key rows).pairwise_iff fun hab => hab.symm).mpr hkey
  exact (pairwise_newestFirst key rows).imp₂ (fun _ _ hle hne => lt_of_le_of_ne hle hne.symm) hne

/-- It does not matter whether rows are dropped before or after they are ordered. -/
theorem newestFirst_filter {rows : List α} (hkey : rows.Pairwise fun a b => key a ≠ key b) (p : α → Bool) :
    newestFirst key (rows.filter p) = (newestFirst key rows).filter p := by
  refine @List.Perm.eq_of_pairwise _ (fun a b => key b < key a) _ _ ?_
    (pairwise_lt_newestFirst (hkey.filter p)) ((pairwise_lt_newestFirst hkey).filter p)
    ((newestFirst_perm key _).trans ((newestFirst_perm key rows).filter p).symm)
  exact fun a b _ _ hab hba => absurd hab hba.asymm

/-- The rows below the key of a row are those behind it. -/
theorem filter_lt_of_pairwise {front rest : List α} {row : α}
    (h : (front ++ row :: rest).Pairwise fun a b => key b < key a) :
    (front ++ row :: rest).filter (key · < key row) = rest := by
  rw [List.pairwise_append, List.pairwise_cons] at h
  obtain ⟨-, ⟨hrest, -⟩, hfront⟩ := h
  have hnone : front.filter (key · < key row) = [] :=
    List.filter_eq_nil_iff.mpr fun a ha => by simpa using (hfront a ha row List.mem_cons_self).le
  have hall : rest.filter (key · < key row) = rest :=
    List.filter_eq_self.mpr fun a ha => by simpa using hrest a ha
  rw [List.filter_append, List.filter_cons, hnone, hall]
  simp

end Newest

end Paging
