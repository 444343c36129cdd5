import TeamClu.ForStd.Text

/-!
# The segments of a WeCom answer

`split_markdown_segments`, `split_char_boundary` and `pack_segments` of
`crates/teamclu-gateway/src/wecom_delivery.rs`.  Lengths count UTF-8 bytes.  A slice that does not end at
a character boundary panics, which is the result none.
-/

namespace TeamClu.WeCom

/-- `text.split("\n\n")`. -/
def splitParagraphs : Str → List Str
  | [] => [[]]
  | c :: rest =>
    match c, rest with
    | '\n', '\n' :: rest => [] :: splitParagraphs rest
    | c, rest =>
      match splitParagraphs rest with
      | [] => [[c]]
      | para :: paras => (c :: para) :: paras

/-- `is_char_boundary`. -/
def isCharBoundary (s : Str) (n : Nat) : Bool := (Str.sliceTo s n).isSome

/-- The loop of `split_char_boundary` that goes back to a boundary. -/
def boundaryBefore (s : Str) : Nat → Nat
  | 0 => 0
  | n + 1 => if isCharBoundary s (n + 1) then n + 1 else boundaryBefore s n

/-- Where a text that starts with `c` is cut: at a boundary, and at least behind the first character. -/
def cutAt (c : Char) (cs : Str) (maxBytes : Nat) : Nat :=
  if boundaryBefore (c :: cs) maxBytes = 0 then c.utf8Size else boundaryBefore (c :: cs) maxBytes

/-- A boundary that is not the start is behind the first character. -/
theorem utf8Size_le_of_isCharBoundary {c : Char} {cs : Str} {n : Nat} (hn : n ≠ 0)
    (h : isCharBoundary (c :: cs) n = true) : c.utf8Size ≤ n := by
  obtain ⟨n, rfl⟩ := Nat.exists_eq_succ_of_ne_zero hn
  rw [isCharBoundary, Str.sliceTo] at h
  split at h
  · assumption
  · cases h

theorem boundaryBefore_spec (s : Str) (n : Nat) : boundaryBefore s n ≤ n ∧
    (boundaryBefore s n ≠ 0 → isCharBoundary s (boundaryBefore s n) = true) ∧
    ∀ m, boundaryBefore s n < m → m ≤ n → isCharBoundary s m = false := by
  induction n with
  | zero => exact ⟨Nat.le_refl _, fun h => absurd rfl h, fun m h h' => absurd h (Nat.not_lt.mpr h')⟩
  | succ n ih =>
    rw [boundaryBefore]
    split
    · next hboundary =>
      exact ⟨Nat.le_refl _, fun _ => hboundary, fun m h h' => absurd h (Nat.not_lt.mpr h')⟩
    · next hnot =>
      refine ⟨Nat.le_succ_of_le ih.1, ih.2.1, fun m h h' => ?_⟩
      rcases Nat.lt_or_eq_of_le h' with hlt | rfl
      · exact ih.2.2 m h (Nat.le_of_lt_succ hlt)
      · exact Bool.eq_false_iff.mpr hnot

theorem utf8Size_le_cutAt (c : Char) (cs : Str) (maxBytes : Nat) :
    c.utf8Size ≤ cutAt c cs maxBytes := by
  rw [cutAt]
  split
  · exact Nat.le_refl _
  · next hne =>
    exact utf8Size_le_of_isCharBoundary hne ((boundaryBefore_spec (c :: cs) maxBytes).2.1 hne)

/-- `split_char_boundary`. -/
def splitCharBoundary (maxBytes : Nat) : Str → Option (List Str)
  | [] => some []
  | c :: cs =>
    if Str.utf8Len (c :: cs) ≤ maxBytes then some [c :: cs]
    else
      match Str.sliceTo (c :: cs) (cutAt c cs maxBytes) with
      | none => none
      | some piece =>
        (splitCharBoundary maxBytes (Str.dropBytes (cutAt c cs maxBytes) (c :: cs))).map (piece :: ·)
  termination_by s => s.length
  decreasing_by
    rw [Str.dropBytes, if_pos (utf8Size_le_cutAt c cs maxBytes)]
    exact Nat.lt_succ_of_le (Str.dropBytes_length_le _ _)

/-- The pieces of a paragraph: the paragraph, or its lines, and over-long lines in pieces. -/
def splitParagraph (maxBytes : Nat) (para : Str) : Option (List Str) :=
  if para = [] then some []
  else if Str.utf8Len para ≤ maxBytes then some [para]
  else
    ((para.splitOn '\n').mapM fun line =>
      if Str.utf8Len line ≤ maxBytes then some [line] else splitCharBoundary maxBytes line).map
      List.flatten

/-- The loop of `pack_segments`, with the segments that are done and the one that is filled. -/
def packLoop (maxBytes : Nat) : List Str → List Str → Str → List Str
  | [], packed, current => if current = [] then packed else packed ++ [current]
  | part :: parts, packed, current =>
    if current = [] then packLoop maxBytes parts packed part
    else if Str.utf8Len current + 1 + Str.utf8Len part ≤ maxBytes then
      packLoop maxBytes parts packed (current ++ '\n' :: part)
    else packLoop maxBytes parts (packed ++ [current]) part

/-- `pack_segments`. -/
def packSegments (parts : List Str) (maxBytes : Nat) : List Str := packLoop maxBytes parts [] []

/-- The numbering line of the segment at an index. -/
def numberLine (i total : Nat) : Str :=
  "（".toList ++ Nat.toDigits 10 (i + 1) ++ "/".toList ++ Nat.toDigits 10 total ++ "）\n".toList

/-- The segments with their numbering lines, when there are several. -/
def numbered (packed : List Str) : List Str :=
  if packed.length ≤ 1 then packed
  else packed.mapIdx fun i body => numberLine i packed.length ++ body

/-- `split_markdown_segments`. -/
def splitMarkdownSegments (text : Str) (maxBytes : Nat) : Option (List Str) :=
  if text = [] then some []
  else if maxBytes = 0 then some [text]
  else if Str.utf8Len text ≤ maxBytes then some [text]
  else
    match (splitParagraphs text).mapM (splitParagraph maxBytes) with
    | none => none
    | some raw =>
      let raw := raw.flatten
      (if raw = [] then splitCharBoundary maxBytes text else some raw).map fun raw =>
        numbered (packSegments raw maxBytes)

end TeamClu.WeCom
