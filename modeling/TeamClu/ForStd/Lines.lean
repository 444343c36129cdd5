import Mathlib.Data.List.Infix

/-!
# Lines with a terminator

`unlines sep lines` is the text of terminated lines.  A text made of terminated lines and an
unterminated tail determines its lines: what stands before its first terminator is the first line
(`eq_cons_of_append_sep`), and text without a terminator is within it (`prefix_of_append`).
-/

namespace Lines

variable {α : Type}

/-- The terminated lines, one after another. -/
def unlines (sep : α) (lines : List (List α)) : List α := lines.flatMap (· ++ [sep])

@[simp] theorem unlines_nil (sep : α) : unlines sep [] = [] := rfl

@[simp] theorem unlines_cons (sep : α) (l : List α) (ls : List (List α)) :
    unlines sep (l :: ls) = l ++ sep :: unlines sep ls := by simp [unlines]

@[simp] theorem unlines_append (sep : α) (ls ms : List (List α)) :
    unlines sep (ls ++ ms) = unlines sep ls ++ unlines sep ms := by simp [unlines]

/-- Two texts with a terminator agree before it when neither has one earlier. -/
theorem append_sep_inj {sep : α} {a b x y : List α} (ha : sep ∉ a) (hb : sep ∉ b)
    (h : a ++ sep :: x = b ++ sep :: y) : a = b ∧ x = y := by
  induction a generalizing b with
  | nil =>
    cases b with
    | nil => exact ⟨rfl, List.cons.inj h |>.2⟩
    | cons c b => exact absurd (List.cons.inj h |>.1 ▸ List.mem_cons_self) hb
  | cons c a ih =>
    cases b with
    | nil => exact absurd ((List.cons.inj h).1 ▸ List.mem_cons_self) ha
    | cons d b =>
      rw [List.cons_append, List.cons_append] at h
      obtain ⟨rfl, hrest⟩ := List.cons.inj h
      obtain ⟨rfl, rfl⟩ := ih (fun hm => ha (List.mem_cons_of_mem _ hm))
        (fun hm => hb (List.mem_cons_of_mem _ hm)) hrest
      exact ⟨rfl, rfl⟩

/-- What stands before the first terminator is the first line. -/
theorem eq_cons_of_append_sep {sep : α} {a x tail : List α} {lines : List (List α)}
    (hlines : ∀ l ∈ lines, sep ∉ l) (htail : sep ∉ tail) (ha : sep ∉ a)
    (h : a ++ sep :: x = unlines sep lines ++ tail) :
    ∃ ls, lines = a :: ls ∧ x = unlines sep ls ++ tail := by
  cases lines with
  | nil =>
    rw [unlines_nil, List.nil_append] at h
    exact absurd (h ▸ List.mem_append_right a List.mem_cons_self) htail
  | cons l ls =>
    rw [unlines_cons, List.append_assoc, List.cons_append] at h
    obtain ⟨rfl, rfl⟩ := append_sep_inj ha (hlines l List.mem_cons_self) h
    exact ⟨ls, rfl, rfl⟩

/-- Text without a terminator is within the first line. -/
theorem prefix_of_append {sep : α} {a x y l : List α} (ha : sep ∉ a)
    (h : a ++ x = l ++ sep :: y) : a <+: l := by
  rcases List.append_eq_append_iff.mp h with ⟨c, rfl, -⟩ | ⟨c, rfl, hc⟩
  · exact List.prefix_append a c
  · cases c with
    | nil => simp
    | cons d c =>
      have hd : sep = d := (List.cons.inj hc).1
      exact absurd (hd ▸ List.mem_append_right l List.mem_cons_self) ha

/-- Without a terminator in the whole there is no terminated line. -/
theorem eq_nil_of_not_mem {sep : α} {a tail : List α} {lines : List (List α)} (ha : sep ∉ a)
    (h : a = unlines sep lines ++ tail) : lines = [] ∧ tail = a := by
  cases lines with
  | nil => exact ⟨rfl, h.symm⟩
  | cons l ls => exact absurd (h ▸ by simp) ha

/-- Splitting at the terminator gives the lines, and those of the tail. -/
theorem splitOn_unlines [BEq α] [LawfulBEq α] {sep : α} {lines : List (List α)}
    (hlines : ∀ l ∈ lines, sep ∉ l) (tail : List α) :
    (unlines sep lines ++ tail).splitOn sep = lines ++ tail.splitOn sep := by
  induction lines with
  | nil => rfl
  | cons l ls ih =>
    rw [unlines_cons, List.append_assoc, List.cons_append,
      List.splitOn_append_cons_self_of_not_mem (hlines l List.mem_cons_self),
      ih fun m hm => hlines m (List.mem_cons_of_mem _ hm), List.cons_append]

/-- No line of a text contains the terminator. -/
theorem not_mem_of_mem_splitOn [BEq α] [LawfulBEq α] {sep : α} {s l : List α}
    (hl : l ∈ s.splitOn sep) : sep ∉ l := by
  induction s generalizing l with
  | nil =>
    rw [List.splitOn_nil, List.mem_singleton] at hl
    simp [hl]
  | cons x s ih =>
    rw [List.splitOn_cons_eq_if_modifyHead] at hl
    split at hl
    · rcases List.mem_cons.mp hl with rfl | hl
      · exact List.not_mem_nil
      · exact ih hl
    · next hne =>
      obtain ⟨m, ms, hms⟩ := List.exists_cons_of_ne_nil (List.splitOn_ne_nil sep s)
      rw [hms, List.modifyHead_cons] at hl
      rcases List.mem_cons.mp hl with rfl | hl
      · have hx : ¬ sep = x := fun h => hne (by simp [h])
        simpa [hx] using ih (hms ▸ List.mem_cons_self)
      · exact ih (hms ▸ List.mem_cons_of_mem m hl)

/-- What is in a line of a text is in the text. -/
theorem mem_of_mem_splitOn [BEq α] [LawfulBEq α] {sep x : α} {s l : List α}
    (hl : l ∈ s.splitOn sep) (hx : x ∈ l) : x ∈ s := by
  induction s generalizing l with
  | nil =>
    rw [List.splitOn_nil, List.mem_singleton] at hl
    rwa [hl] at hx
  | cons y s ih =>
    rw [List.splitOn_cons_eq_if_modifyHead] at hl
    split at hl
    · rcases List.mem_cons.mp hl with rfl | hl
      · cases hx
      · exact List.mem_cons_of_mem _ (ih hl hx)
    · obtain ⟨m, ms, hms⟩ := List.exists_cons_of_ne_nil (List.splitOn_ne_nil sep s)
      rw [hms, List.modifyHead_cons] at hl
      rcases List.mem_cons.mp hl with rfl | hl
      · rcases List.mem_cons.mp hx with rfl | hx
        · exact List.mem_cons_self
        · exact List.mem_cons_of_mem _ (ih (hms ▸ List.mem_cons_self) hx)
      · exact List.mem_cons_of_mem _ (ih (hms ▸ List.mem_cons_of_mem m hl) hx)

/-- Joining lines and terminating the last one terminates them all. -/
theorem intercalate_append_sep (sep : α) {lines : List (List α)} (hne : lines ≠ []) :
    [sep].intercalate lines ++ [sep] = unlines sep lines := by
  induction lines with
  | nil => exact absurd rfl hne
  | cons l ls ih =>
    cases ls with
    | nil => simp
    | cons m ls =>
      rw [List.intercalate_cons_cons, List.append_assoc, List.append_assoc,
        ih (List.cons_ne_nil _ _), unlines_cons sep l]
      rfl

/-- A text of terminated lines and a tail is empty when there is neither. -/
theorem append_eq_nil_iff {sep : α} {tail : List α} {lines : List (List α)} :
    unlines sep lines ++ tail = [] ↔ lines = [] ∧ tail = [] := by
  cases lines <;> simp

end Lines
