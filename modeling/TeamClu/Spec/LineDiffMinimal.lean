import TeamClu.ForStd.Lcs
import TeamClu.ForStd.Lines
import TeamClu.Native.LineDiff

/-!
# The line diff is minimal

The lines of a text are those that its newlines end, with or without a newline behind the last one
(`splitLines_isLines`).  A cell of the table is the length of a longest common subsequence (`cellAt_lcsTable`), so
the walk keeps as many lines as can be kept, and no script from one text to the other adds and removes fewer
(`diff_minimal`).
-/

namespace TeamClu.LineDiff

variable (eq : TextEquality)

/-- The lines of the old side: what is left without the inserted ones. -/
def oldSide (lines : List Line) : List Str := (lines.filter (·.kind != .insert)).map (·.text)

/-- The lines of the new side: what is left without the deleted ones. -/
def newSide (lines : List Line) : List Str := (lines.filter (·.kind != .delete)).map (·.text)

/-- How many lines of a script are of a kind. -/
def countOf (kind : Kind) (lines : List Line) : Nat := lines.countP (·.kind == kind)

/-- The lines of a text: their newlines end them, and only the one behind the last line may be missing. -/
structure IsLines (text : Str) (lines : List Str) : Prop where
  noNewline : ∀ line ∈ lines, '\n' ∉ line
  whole : Lines.unlines '\n' lines = if text = [] ∨ text.getLast? = some '\n' then text else text ++ ['\n']

/-- The lines that are kept. -/
def contexts (lines : List Line) : List Str := (lines.filter (·.kind == .context)).map (·.text)

/-- Line by line the same texts. -/
def SameLines (as bs : List Str) : Prop := List.Forall₂ (fun a b => eq.same a b = true) as bs

/-- A script that turns one list of lines into the other. -/
structure IsScript (lines : List Line) (oldLines newLines : List Str) : Prop where
  old : SameLines eq (oldSide lines) oldLines
  new : SameLines eq (newSide lines) newLines

variable {eq}

theorem SameLines.refl (as : List Str) : SameLines eq as as :=
  List.forall₂_same.mpr fun a _ => eq.refl a

/-- Two lists that are the same as a third are the same. -/
private theorem SameLines.common {as bs cs : List Str} (h : SameLines eq cs as)
    (h' : SameLines eq cs bs) : SameLines eq as bs := by
  induction h generalizing bs with
  | nil =>
    cases h'
    exact .nil
  | cons hca _ ih =>
    cases h' with
    | cons hcb hrest => exact .cons (eq.trans _ _ _ (eq.symm _ _ hca) hcb) (ih hrest)

/-! ## Lines -/

/-- The lines of a text are those that its newlines end. -/
theorem splitLines_isLines (text : Str) : IsLines text (splitLines text) := by
  by_cases hempty : text = []
  · subst hempty
    exact ⟨by simp [splitLines], by simp [splitLines]⟩
  have hne : text.splitOn '\n' ≠ [] := List.splitOn_ne_nil '\n' text
  obtain ⟨ls, last, hsplit⟩ : ∃ ls last, text.splitOn '\n' = ls ++ [last] :=
    ⟨_, _, (List.dropLast_append_getLast hne).symm⟩
  have hno : ∀ line ∈ ls ++ [last], '\n' ∉ line :=
    fun line hline => Lines.not_mem_of_mem_splitOn (hsplit ▸ hline)
  have hlines : splitLines text = if last = [] then ls else ls ++ [last] := by
    rw [splitLines, if_neg hempty, hsplit]
    simp
  -- the text before what is behind its last newline
  have htext : text = Lines.unlines '\n' ls ++ last := by
    have hjoin := Lines.intercalate_append_sep '\n' hne
    rw [List.intercalate_splitOn, hsplit, Lines.unlines_append, Lines.unlines_cons, Lines.unlines_nil,
      ← List.append_assoc] at hjoin
    exact List.append_cancel_right hjoin
  rw [hlines]
  split_ifs with hlast
  · subst hlast
    rw [List.append_nil] at htext
    refine ⟨fun line hline => hno line (List.mem_append_left _ hline), ?_⟩
    have hends : text.getLast? = some '\n' := by
      rw [htext]
      cases ls using List.reverseRecOn with
      | nil => exact absurd htext hempty
      | append_singleton ls line _ => simp
    rw [if_pos (.inr hends), ← htext]
  · refine ⟨hno, ?_⟩
    have hends : ¬ (text = [] ∨ text.getLast? = some '\n') := by
      rintro (hnil | hlast')
      · exact hempty hnil
      · rw [htext, List.getLast?_append_of_ne_nil _ hlast] at hlast'
        exact hno last (by simp) (List.mem_of_getLast? hlast')
    rw [if_neg hends, Lines.unlines_append, Lines.unlines_cons, Lines.unlines_nil, ← List.append_assoc, ← htext]

/-! ## The table -/

/-- A row of the table from the row below. -/
private theorem lcsRow_eq (line : Str) (oldLines newLines : List Str) :
    lcsRow eq line newLines (newLines.tails.map (List.lcsLength eq.same oldLines)) =
      newLines.tails.map (List.lcsLength eq.same (line :: oldLines)) := by
  induction newLines with
  | nil => simp [lcsRow]
  | cons new newLines ih =>
    have hhead : ∀ lines : List Str,
        (newLines.tails.map (List.lcsLength eq.same lines)).headD 0 =
          List.lcsLength eq.same lines newLines := by
      intro lines
      cases newLines <;> simp
    rw [List.tails_cons, List.map_cons, List.map_cons, lcsRow]
    simp only [List.tail_cons, List.headD_cons]
    rw [ih, hhead, hhead, List.lcsLength_cons_cons]

/-- The table holds the lengths for all pairs of ends of the two lists. -/
private theorem lcsTable_eq (newLines oldLines : List Str) : lcsTable eq newLines oldLines =
    oldLines.tails.map fun old => newLines.tails.map (List.lcsLength eq.same old) := by
  induction oldLines with
  | nil =>
    have hzero : List.lcsLength eq.same ([] : List Str) = fun _ : List Str => 0 := by
      funext new
      exact List.lcsLength_nil_left eq.same new
    simp [lcsTable, hzero, List.map_const']
  | cons old oldLines ih =>
    have hhead : (oldLines.tails.map fun old => newLines.tails.map (List.lcsLength eq.same old)).headD []
        = newLines.tails.map (List.lcsLength eq.same oldLines) := by cases oldLines <;> simp
    rw [lcsTable, ih, hhead, lcsRow_eq, List.tails_cons, List.map_cons]

theorem cellAt_lcsTable (newLines oldLines : List Str) {i j : Nat} (hi : i ≤ oldLines.length)
    (hj : j ≤ newLines.length) : cellAt (lcsTable eq newLines oldLines) i j =
      List.lcsLength eq.same (oldLines.drop i) (newLines.drop j) := by
  have hi' : i < oldLines.tails.length := by simpa using Nat.lt_succ_of_le hi
  have hj' : j < newLines.tails.length := by simpa using Nat.lt_succ_of_le hj
  have hold : oldLines.tails[i]? = some (oldLines.drop i) := by
    rw [List.getElem?_eq_getElem hi', List.getElem_tails]
  have hnew : newLines.tails[j]? = some (newLines.drop j) := by
    rw [List.getElem?_eq_getElem hj', List.getElem_tails]
  simp [cellAt, lcsTable_eq, List.getD_eq_getElem?_getD, hold, hnew]

/-! ## The walk -/

/-- What the walk gives for the rest of the two lists. -/
structure Walked (lines : List Line) (oldLines newLines : List Str) : Prop where
  old : oldSide lines = oldLines
  new : SameLines eq (newSide lines) newLines
  longest : (contexts lines).length = List.lcsLength eq.same oldLines newLines

/-- Lines that are deleted and lines that are inserted. -/
private theorem sides_replace (as bs : List Str) :
    oldSide (as.map (⟨.delete, ·⟩) ++ bs.map (⟨.insert, ·⟩)) = as ∧
      newSide (as.map (⟨.delete, ·⟩) ++ bs.map (⟨.insert, ·⟩)) = bs ∧
      contexts (as.map (⟨.delete, ·⟩) ++ bs.map (⟨.insert, ·⟩)) = [] := by
  have hdelete : ∀ l : List Str, oldSide (l.map (⟨.delete, ·⟩)) = l ∧
      newSide (l.map (⟨.delete, ·⟩)) = [] ∧ contexts (l.map (⟨.delete, ·⟩)) = [] := by
    intro l
    induction l <;> simp_all [oldSide, newSide, contexts]
  have hinsert : ∀ l : List Str, oldSide (l.map (⟨.insert, ·⟩)) = [] ∧
      newSide (l.map (⟨.insert, ·⟩)) = l ∧ contexts (l.map (⟨.insert, ·⟩)) = [] := by
    intro l
    induction l <;> simp_all [oldSide, newSide, contexts]
  obtain ⟨hold, hnew, hkept⟩ := hdelete as
  obtain ⟨hold', hnew', hkept'⟩ := hinsert bs
  simp only [oldSide, newSide, contexts, List.filter_append, List.map_append] at *
  rw [hold, hnew, hkept, hold', hnew', hkept']
  simp

theorem walk_walked (oldLines newLines : List Str) (i j : Nat) (hi : i ≤ oldLines.length)
    (hj : j ≤ newLines.length) :
    @Walked eq (walk eq oldLines newLines (lcsTable eq newLines oldLines) i j)
      (oldLines.drop i) (newLines.drop j) := by
  fun_induction walk eq oldLines newLines (lcsTable eq newLines oldLines) i j with
  | case1 i j h hsame ih =>
    obtain ⟨hold, hnew, hlongest⟩ := ih h.1 h.2
    rw [List.drop_eq_getElem_cons h.1, List.drop_eq_getElem_cons h.2]
    refine ⟨congrArg (oldLines[i] :: ·) hold, .cons hsame hnew, ?_⟩
    rw [List.lcsLength_cons_cons, if_pos hsame, ← hlongest]
    rfl
  | case2 i j h hsame hle ih =>
    obtain ⟨hold, hnew, hlongest⟩ := ih h.1 hj
    rw [cellAt_lcsTable _ _ h.1 hj, cellAt_lcsTable _ _ hi h.2] at hle
    refine ⟨?_, hnew, ?_⟩
    · rw [List.drop_eq_getElem_cons h.1]
      exact congrArg (oldLines[i] :: ·) hold
    · -- The side that keeps more loses nothing.
      rw [List.drop_eq_getElem_cons h.1, List.drop_eq_getElem_cons h.2, List.lcsLength_cons_cons,
        if_neg hsame, ← List.drop_eq_getElem_cons h.1, ← List.drop_eq_getElem_cons h.2,
        Nat.max_eq_left hle]
      exact hlongest
  | case3 i j h hsame hlt ih =>
    obtain ⟨hold, hnew, hlongest⟩ := ih hi h.2
    rw [cellAt_lcsTable _ _ h.1 hj, cellAt_lcsTable _ _ hi h.2] at hlt
    refine ⟨hold, ?_, ?_⟩
    · rw [List.drop_eq_getElem_cons h.2]
      exact .cons (eq.refl _) hnew
    · rw [List.drop_eq_getElem_cons h.1, List.drop_eq_getElem_cons h.2, List.lcsLength_cons_cons,
        if_neg hsame, ← List.drop_eq_getElem_cons h.1, ← List.drop_eq_getElem_cons h.2,
        Nat.max_eq_right (Nat.le_of_lt (Nat.lt_of_not_le hlt))]
      exact hlongest
  | case4 i j h =>
    obtain ⟨hold, hnew, hkept⟩ := sides_replace (oldLines.drop i) (newLines.drop j)
    refine ⟨hold, hnew.symm ▸ SameLines.refl _, ?_⟩
    -- One of the two lists is at its end.
    have hend : oldLines.drop i = [] ∨ newLines.drop j = [] := by
      simp only [List.drop_eq_nil_iff]
      omega
    rw [hkept]
    rcases hend with hend | hend <;> simp [hend]

/-! ## Counting -/

/-- The counts are those of the inserted and of the deleted lines. -/
theorem stats_eq (lines : List Line) : stats lines = (countOf .insert lines, countOf .delete lines) := by
  have hfold : ∀ (lines : List Line) (counts : Nat × Nat), lines.foldl countLine counts =
      (counts.1 + countOf .insert lines, counts.2 + countOf .delete lines) := by
    intro lines
    induction lines with
    | nil => exact fun counts => rfl
    | cons line lines ih =>
      intro counts
      rw [List.foldl_cons, ih]
      obtain ⟨kind, text⟩ := line
      cases kind <;> simp [countLine, countOf] <;> omega
  rw [stats, hfold, Nat.zero_add, Nat.zero_add]

/-- The deleted lines are those of the old side that are not kept, the inserted ones those of the new. -/
private theorem countOf_spec (lines : List Line) :
    countOf .delete lines + (contexts lines).length = (oldSide lines).length ∧
      countOf .insert lines + (contexts lines).length = (newSide lines).length := by
  induction lines with
  | nil => exact ⟨rfl, rfl⟩
  | cons line lines ih =>
    obtain ⟨hdeleted, hinserted⟩ := ih
    simp only [contexts, oldSide, newSide, countOf, List.length_map] at hdeleted hinserted ⊢
    obtain ⟨kind, text⟩ := line
    cases kind <;> simp <;> omega

/-- A part of a list stands for a part of any list that is the same element for element. -/
private theorem sublist_same {as bs xs : List Str} (h : List.Sublist xs as) (hsame : SameLines eq as bs) :
    ∃ ys, List.Sublist ys bs ∧ SameLines eq xs ys := by
  induction h generalizing bs with
  | slnil => exact ⟨[], List.nil_sublist bs, .nil⟩
  | cons a _ ih =>
    cases hsame with
    | cons hab hrest =>
      obtain ⟨ys, hys, hsame⟩ := ih hrest
      exact ⟨ys, hys.cons _, hsame⟩
  | cons_cons a _ ih =>
    cases hsame with
    | cons hab hrest =>
      obtain ⟨ys, hys, hsame⟩ := ih hrest
      exact ⟨_ :: ys, hys.cons_cons _, .cons hab hsame⟩

/-- The lines that a script keeps are a part of both sides. -/
private theorem contexts_sublist (lines : List Line) :
    List.Sublist (contexts lines) (oldSide lines) ∧
      List.Sublist (contexts lines) (newSide lines) := by
  induction lines with
  | nil => exact ⟨.slnil, .slnil⟩
  | cons line lines ih =>
    obtain ⟨kind, text⟩ := line
    cases kind with
    | context => exact ⟨ih.1.cons_cons _, ih.2.cons_cons _⟩
    | insert => exact ⟨ih.1, ih.2.cons _⟩
    | delete => exact ⟨ih.1.cons _, ih.2⟩

/-- A script keeps no more lines than the two sides have in common. -/
private theorem IsScript.contexts_le {lines : List Line} {oldLines newLines : List Str}
    (h : IsScript eq lines oldLines newLines) :
    (contexts lines).length ≤ List.lcsLength eq.same oldLines newLines := by
  obtain ⟨xs, hxs, hold⟩ := sublist_same (contexts_sublist lines).1 h.old
  obtain ⟨ys, hys, hnew⟩ := sublist_same (contexts_sublist lines).2 h.new
  have hcommon : List.CommonSubseq eq.same oldLines newLines xs ys := ⟨hxs, hys, hold.common hnew⟩
  exact hold.length_eq ▸ hcommon.length_le

/-! ## The diff -/

/-- The diff is a script from one text to the other, and the counts are those of its inserted and deleted lines.
    Within the cap it keeps a longest common subsequence of the lines, and the counts add up to the least that any
    script inserts and deletes. -/
theorem diff_minimal (old new : Str) (maxLines : Int) :
    (IsLines old (splitLines old) ∧ IsLines new (splitLines new)) ∧
    oldSide (diff eq old new maxLines) = splitLines old ∧
    SameLines eq (newSide (diff eq old new maxLines)) (splitLines new) ∧
    stats (diff eq old new maxLines) =
      (countOf .insert (diff eq old new maxLines), countOf .delete (diff eq old new maxLines)) ∧
    ((splitLines old).length ≤ maxLines → (splitLines new).length ≤ maxLines →
      IsGreatest {n | ∃ xs ys, List.CommonSubseq eq.same (splitLines old) (splitLines new) xs ys ∧
        xs.length = n} (contexts (diff eq old new maxLines)).length ∧
      IsLeast {n | ∃ lines, IsScript eq lines (splitLines old) (splitLines new) ∧
        countOf .insert lines + countOf .delete lines = n}
        ((stats (diff eq old new maxLines)).1 + (stats (diff eq old new maxLines)).2)) := by
  refine ⟨⟨splitLines_isLines old, splitLines_isLines new⟩, ?_⟩
  rw [stats_eq, diff]
  split
  · next hcap =>
    obtain ⟨hold, hnew, hlongest⟩ :=
      @walk_walked eq (splitLines old) (splitLines new) 0 0 (Nat.zero_le _) (Nat.zero_le _)
    rw [List.drop_zero, List.drop_zero] at *
    refine ⟨hold, hnew, rfl, fun _ _ => ⟨?_, ?_, ?_⟩⟩
    · rw [hlongest]
      exact List.isGreatest_lcsLength _ _
    · exact ⟨_, ⟨hold.symm ▸ SameLines.refl _, hnew⟩, rfl⟩
    · -- Both scripts have the same sides, and this one keeps no less.
      rintro n ⟨lines, hlines, rfl⟩
      have hkept := hlines.contexts_le
      rw [← hlongest] at hkept
      have hcounts := countOf_spec lines
      rw [hlines.old.length_eq, hlines.new.length_eq] at hcounts
      have hcounts' := countOf_spec (walk eq (splitLines old) (splitLines new)
        (lcsTable eq (splitLines new) (splitLines old)) 0 0)
      rw [hold, hnew.length_eq] at hcounts'
      omega
  · next hcap =>
    obtain ⟨hold, hnew, -⟩ := sides_replace (splitLines old) (splitLines new)
    exact ⟨hold, hnew.symm ▸ SameLines.refl _, rfl, fun hle hle' => absurd ⟨hle, hle'⟩ hcap⟩

end TeamClu.LineDiff
