import TeamClu.ForStd.Text

/-!
# The line diff

`LineDiff.diff`, `stats` and `splitLines` of `AMUXCore/Timeline/LineDiff.swift`.  Swift compares strings
by canonical equivalence; the comparison is a parameter with the laws of an equivalence.
-/

namespace TeamClu.LineDiff

/-- When two strings are equal. -/
structure TextEquality where
  same : Str → Str → Bool
  refl : ∀ a, same a a = true
  symm : ∀ a b, same a b = true → same b a = true
  trans : ∀ a b c, same a b = true → same b c = true → same a c = true

inductive Kind where
  | context
  | insert
  | delete
  deriving DecidableEq, Repr

structure Line where
  kind : Kind
  text : Str
  deriving DecidableEq, Repr

/-- `splitLines`: no phantom empty line behind a trailing newline, and no line for the empty text. -/
def splitLines (text : Str) : List Str :=
  if text = [] then []
  else
    let lines := text.splitOn '\n'
    if lines.getLast? = some [] then lines.dropLast else lines

variable (eq : TextEquality)

/-- One row of the table, from its right end, above the row `below`. -/
def lcsRow (line : Str) : List Str → List Nat → List Nat
  | [], _ => [0]
  | new :: newLines, below =>
    let row := lcsRow line newLines below.tail
    let cell :=
      if eq.same line new then below.tail.headD 0 + 1 else max (below.headD 0) (row.headD 0)
    cell :: row

/-- The table: `lcs[i][j]` is the length of a longest common subsequence of the lines from `i` and from
    `j` on. -/
def lcsTable (newLines : List Str) : List Str → List (List Nat)
  | [] => [List.replicate (newLines.length + 1) 0]
  | old :: oldLines =>
    let table := lcsTable newLines oldLines
    lcsRow eq old newLines (table.headD []) :: table

/-- `lcs[i][j]`. -/
def cellAt (lcs : List (List Nat)) (i j : Nat) : Nat := ((lcs.getD i []).getD j 0)

/-- The walk from `i` and `j` on: a common line where the lines are equal, else the side that keeps more,
    and at the end of one side what is left of the other. -/
def walk (oldLines newLines : List Str) (lcs : List (List Nat)) (i j : Nat) : List Line :=
  if h : i < oldLines.length ∧ j < newLines.length then
    if eq.same oldLines[i] newLines[j] then
      ⟨.context, oldLines[i]⟩ :: walk oldLines newLines lcs (i + 1) (j + 1)
    else if cellAt lcs (i + 1) j ≥ cellAt lcs i (j + 1) then
      ⟨.delete, oldLines[i]⟩ :: walk oldLines newLines lcs (i + 1) j
    else ⟨.insert, newLines[j]⟩ :: walk oldLines newLines lcs i (j + 1)
  else (oldLines.drop i).map (⟨.delete, ·⟩) ++ (newLines.drop j).map (⟨.insert, ·⟩)
  termination_by (oldLines.length - i) + (newLines.length - j)

/-- `LineDiff.diff`. -/
def diff (old new : Str) (maxLines : Int) : List Line :=
  let oldLines := splitLines old
  let newLines := splitLines new
  if oldLines.length ≤ maxLines ∧ newLines.length ≤ maxLines then
    walk eq oldLines newLines (lcsTable eq newLines oldLines) 0 0
  else oldLines.map (⟨.delete, ·⟩) ++ newLines.map (⟨.insert, ·⟩)

/-- The added and the removed lines with one more line. -/
def countLine (counts : Nat × Nat) (line : Line) : Nat × Nat :=
  match line.kind with
  | .insert => (counts.1 + 1, counts.2)
  | .delete => (counts.1, counts.2 + 1)
  | .context => counts

/-- `LineDiff.stats`: the added and the removed lines. -/
def stats (lines : List Line) : Nat × Nat := lines.foldl countLine (0, 0)

end TeamClu.LineDiff
