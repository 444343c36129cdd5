import Mathlib.Data.List.Chain
import Mathlib.Tactic.Common
import TeamClu.ForStd.Lines
import TeamClu.Native.WeComSegments

/-!
# The segments of a WeCom answer are the answer

Read line by line, without the blank ones, the segments are the lines of the text, where only a line that
is too long is in pieces, and the i-th of several is numbered as such (`splitMarkdownSegments_whole`).  The pieces
of a line and the packing of parts each keep the limit and leave no two neighbours that would fit.
-/

namespace TeamClu.WeCom

/-- The lines of texts one after another, without the blank ones. -/
def textLines (texts : List Str) : List Str := (texts.flatMap (·.splitOn '\n')).filter (· ≠ [])

/-- What the bodies of the segments should be. -/
structure Segmented (text : Str) (maxBytes : Nat) (bodies : List Str) : Prop where
  fits : ∀ body ∈ bodies, body ≠ [] ∧ Str.utf8Len body ≤ maxBytes
  /-- Nothing but newlines is lost, and the order is kept. -/
  keeps : bodies.flatten.filter (· ≠ '\n') = text.filter (· ≠ '\n')
  /-- Only a line that is too long is divided. -/
  lines : ∃ pieces : Str → List Str,
    (∀ line ∈ text.splitOn '\n', (pieces line).flatten = line ∧
      (Str.utf8Len line ≤ maxBytes → pieces line = [line])) ∧
    textLines bodies = ((text.splitOn '\n').flatMap pieces).filter (· ≠ [])
  /-- No two neighbours would have fitted in one segment. -/
  neighbours : bodies.IsChain fun a b => maxBytes < Str.utf8Len a + 1 + Str.utf8Len b

/-- The segments are the bodies, each behind its number where there are several. -/
structure Numbered (segments bodies : List Str) : Prop where
  single : bodies.length ≤ 1 → segments = bodies
  count : segments.length = bodies.length
  number : 1 < bodies.length → ∀ (i : Nat) (body : Str), bodies[i]? = some body →
    segments[i]? = some ("（".toList ++ Nat.toDigits 10 (i + 1) ++ "/".toList ++ Nat.toDigits 10 bodies.length ++
      "）\n".toList ++ body)

/-! ## Lines -/

theorem textLines_append (as bs : List Str) : textLines (as ++ bs) = textLines as ++ textLines bs := by
  simp [textLines]

/-- Blank texts add nothing. -/
private theorem flatten_filter_ne_nil (l : List Str) : (l.filter (· ≠ [])).flatten = l.flatten := by
  induction l with
  | nil => rfl
  | cons s l ih => cases s <;> simp_all

/-- The lines of a text are the text without newlines. -/
private theorem flatten_splitOn (s : Str) : (s.splitOn '\n').flatten = s.filter (· ≠ '\n') := by
  induction s with
  | nil => simp
  | cons c s ih =>
    obtain ⟨m, ms, hms⟩ := List.exists_cons_of_ne_nil (List.splitOn_ne_nil '\n' s)
    rw [List.splitOn_cons_eq_if_modifyHead, List.filter_cons]
    by_cases hc : c = '\n'
    · simp [hc, ih]
    · rw [if_neg (by simpa using hc), if_pos (by simpa using hc), ← ih, hms]
      simp

/-- The lines of texts are the texts without newlines. -/
theorem flatten_textLines (texts : List Str) :
    (textLines texts).flatten = texts.flatten.filter (· ≠ '\n') := by
  rw [textLines, flatten_filter_ne_nil]
  induction texts with
  | nil => rfl
  | cons s texts ih =>
    rw [List.flatMap_cons, List.flatten_append, ih, flatten_splitOn, List.flatten_cons,
      List.filter_append]

/-- A text with a newline is two texts. -/
theorem textLines_newline (a b : Str) : textLines [a ++ '\n' :: b] = textLines [a, b] := by
  simp [textLines, List.splitOn_append_cons_self]

/-- A blank text has no line. -/
theorem textLines_nil_cons (texts : List Str) : textLines ([] :: texts) = textLines texts := by
  simp [textLines]

/-! ## Packing -/

variable {maxBytes : Nat}

/-- Segments that are neither empty nor too long, and of which no two neighbours would fit in one. -/
structure Packed (maxBytes : Nat) (packed : List Str) : Prop where
  fits : ∀ body ∈ packed, body ≠ [] ∧ Str.utf8Len body ≤ maxBytes
  chain : packed.IsChain fun a b => maxBytes < Str.utf8Len a + 1 + Str.utf8Len b

/-- One more segment. -/
private theorem Packed.push {packed : List Str} {current : Str} (h : Packed maxBytes packed)
    (hne : current ≠ []) (hle : Str.utf8Len current ≤ maxBytes)
    (hlast : ∀ body ∈ packed.getLast?, maxBytes < Str.utf8Len body + 1 + Str.utf8Len current) :
    Packed maxBytes (packed ++ [current]) where
  fits body hbody := by
    rcases List.mem_append.mp hbody with hbody | hbody
    · exact h.fits body hbody
    · rw [List.mem_singleton.mp hbody]
      exact ⟨hne, hle⟩
  chain := by
    refine List.isChain_append.mpr ⟨h.chain, List.isChain_singleton _, fun a ha b hb => ?_⟩
    rw [List.head?_cons, Option.mem_some_iff] at hb
    exact hb ▸ hlast a ha

/-- Packing keeps the lines of parts that fit. -/
theorem packLoop_spec {parts packed : List Str} {current : Str}
    (hparts : ∀ part ∈ parts, Str.utf8Len part ≤ maxBytes) (hcurrent : Str.utf8Len current ≤ maxBytes)
    (hpacked : Packed maxBytes packed)
    (hlast : ∀ body ∈ packed.getLast?, maxBytes < Str.utf8Len body + 1 + Str.utf8Len current) :
    Packed maxBytes (packLoop maxBytes parts packed current) ∧
      textLines (packLoop maxBytes parts packed current) = textLines (packed ++ current :: parts) := by
  induction parts generalizing packed current with
  | nil =>
    rw [packLoop]
    split
    · next hnil =>
      refine ⟨hpacked, ?_⟩
      rw [hnil, textLines_append, textLines_nil_cons]
      exact (List.append_nil _).symm
    · next hne => exact ⟨hpacked.push hne hcurrent hlast, rfl⟩
  | cons part parts ih =>
    obtain ⟨hpart, hparts⟩ := List.forall_mem_cons.mp hparts
    rw [packLoop]
    split
    · -- An empty segment is given up for the next part.
      next hnil =>
      subst hnil
      obtain ⟨hout, hlines⟩ := ih hparts hpart hpacked fun body hbody => by
        have hlong := hlast body hbody
        simp only [Str.utf8Len_nil] at hlong
        omega
      refine ⟨hout, ?_⟩
      rw [hlines, textLines_append, textLines_append, textLines_nil_cons]
    · next hne =>
      split
      · next hfits =>
        have hlen : Str.utf8Len (current ++ '\n' :: part) =
            Str.utf8Len current + 1 + Str.utf8Len part := by
          have hnewline : Char.utf8Size '\n' = 1 := by decide
          rw [Str.utf8Len_append, Str.utf8Len_cons, hnewline]
          omega
        obtain ⟨hout, hlines⟩ := ih hparts (hlen ▸ hfits) hpacked fun body hbody => by
          have hlong := hlast body hbody
          omega
        refine ⟨hout, ?_⟩
        have hsplit : textLines ((current ++ '\n' :: part) :: parts) =
            textLines (current :: part :: parts) := by
          have happend := textLines_append [current ++ '\n' :: part] parts
          rw [textLines_newline, ← textLines_append] at happend
          exact happend
        rw [hlines, textLines_append, textLines_append, hsplit]
      · next hlong =>
        obtain ⟨hout, hlines⟩ := ih hparts hpart (hpacked.push hne hcurrent hlast) fun body hbody => by
          rw [List.getLast?_concat, Option.mem_some_iff] at hbody
          subst hbody
          omega
        refine ⟨hout, ?_⟩
        rw [hlines, List.append_assoc]
        rfl

theorem packSegments_spec {parts : List Str} (hparts : ∀ part ∈ parts, Str.utf8Len part ≤ maxBytes) :
    Packed maxBytes (packSegments parts maxBytes) ∧
      textLines (packSegments parts maxBytes) = textLines parts := by
  obtain ⟨hout, hlines⟩ := @packLoop_spec maxBytes parts [] [] hparts (Nat.zero_le _)
    ⟨fun _ h => (nomatch h), List.isChain_nil⟩ fun _ h => nomatch h
  exact ⟨hout, hlines.trans (textLines_nil_cons parts)⟩

/-! ## Pieces -/

/-- A text is cut within the limit, and what comes behind the cut does not fit before it. -/
private theorem cutAt_spec {c : Char} {cs : Str} (hmax : 4 ≤ maxBytes) :
    ∃ p t, c :: cs = p ++ t ∧ Str.sliceTo (c :: cs) (cutAt c cs maxBytes) = some p ∧
      Str.dropBytes (cutAt c cs maxBytes) (c :: cs) = t ∧ p ≠ [] ∧ Str.utf8Len p ≤ maxBytes := by
  obtain ⟨hle, hboundary, hmaximal⟩ := boundaryBefore_spec (c :: cs) maxBytes
  have hsize : c.utf8Size ≤ maxBytes := c.utf8Size_le_four.trans hmax
  -- The end of the first character is a boundary within the limit.
  have hne : boundaryBefore (c :: cs) maxBytes ≠ 0 := by
    intro hzero
    have hfirst := hmaximal c.utf8Size (by rw [hzero]; exact c.utf8Size_pos) hsize
    have hslice : Str.sliceTo (c :: cs) c.utf8Size = some [c] := by
      simpa using Str.sliceTo_append [c] cs
    rw [isCharBoundary, hslice] at hfirst
    cases hfirst
  have hcut : cutAt c cs maxBytes = boundaryBefore (c :: cs) maxBytes := if_neg hne
  obtain ⟨p, hp⟩ := Option.isSome_iff_exists.mp (hboundary hne)
  obtain ⟨hs, hlen⟩ := Str.sliceTo_eq_some hp
  rw [hcut]
  refine ⟨p, _, hs, hp, rfl, ?_, hlen ▸ hle⟩
  rintro rfl
  exact hne hlen.symm

/-- The pieces of a text are within the limit, none is empty, and together they are the text. -/
theorem splitCharBoundary_spec (hmax : 4 ≤ maxBytes) (s : Str) :
    ∃ pieces, splitCharBoundary maxBytes s = some pieces ∧ pieces.flatten = s ∧
      ∀ piece ∈ pieces, piece ≠ [] ∧ Str.utf8Len piece ≤ maxBytes := by
  fun_induction splitCharBoundary maxBytes s with
  | case1 => exact ⟨[], rfl, rfl, fun _ h => nomatch h⟩
  | case2 c cs hle =>
    refine ⟨[c :: cs], rfl, by simp, fun piece hpiece => ?_⟩
    rw [List.mem_singleton.mp hpiece]
    exact ⟨List.cons_ne_nil c cs, hle⟩
  | case3 c cs hlong hslice =>
    obtain ⟨p, t, -, hp, -⟩ := cutAt_spec (c := c) hmax
    rw [hp] at hslice
    cases hslice
  | case4 c cs hlong piece hslice ih =>
    obtain ⟨p, t, hs, hp, hdrop, hne, hle⟩ := cutAt_spec (c := c) hmax
    obtain ⟨pieces, hpieces, hflatten, hfits⟩ := ih
    rw [hp] at hslice
    obtain rfl := Option.some.inj hslice
    refine ⟨p :: pieces, by rw [hpieces]; rfl, ?_, List.forall_mem_cons.mpr ⟨⟨hne, hle⟩, hfits⟩⟩
    rw [List.flatten_cons, hflatten, hdrop, hs]

/-- The pieces of a line: the line, if it fits. -/
def piecesOf (maxBytes : Nat) (line : Str) : List Str :=
  if Str.utf8Len line ≤ maxBytes then [line] else (splitCharBoundary maxBytes line).getD []

/-- The pieces of a line are the line, and they fit. -/
theorem piecesOf_spec (hmax : 4 ≤ maxBytes) (line : Str) : (piecesOf maxBytes line).flatten = line ∧
    (∀ piece ∈ piecesOf maxBytes line, Str.utf8Len piece ≤ maxBytes) ∧
    (if Str.utf8Len line ≤ maxBytes then some [line] else splitCharBoundary maxBytes line) =
      some (piecesOf maxBytes line) := by
  rw [piecesOf]
  split
  · next hle =>
    refine ⟨by simp, fun piece hpiece => ?_, rfl⟩
    rwa [List.mem_singleton.mp hpiece]
  · obtain ⟨pieces, hpieces, hflatten, hfits⟩ := splitCharBoundary_spec hmax line
    rw [hpieces]
    exact ⟨hflatten, fun piece hpiece => (hfits piece hpiece).2, rfl⟩

private theorem piecesOf_ne_nil (hmax : 4 ≤ maxBytes) (line : Str) : piecesOf maxBytes line ≠ [] := by
  intro hnil
  have hline := (piecesOf_spec hmax line).1
  rw [hnil, List.flatten_nil] at hline
  rw [← hline, piecesOf, Str.utf8Len_nil, if_pos (Nat.zero_le _)] at hnil
  exact List.cons_ne_nil _ _ hnil

/-- The pieces of blank lines are blank. -/
private theorem flatMap_piecesOf_filter (lines : List Str) :
    (lines.flatMap (piecesOf maxBytes)).filter (· ≠ []) =
      ((lines.filter (· ≠ [])).flatMap (piecesOf maxBytes)).filter (· ≠ []) := by
  induction lines with
  | nil => rfl
  | cons line lines ih =>
    rw [List.flatMap_cons, List.filter_append, ih]
    by_cases hline : line = []
    · simp [hline, piecesOf]
    · rw [List.filter_cons_of_pos (by simpa using hline), List.flatMap_cons, List.filter_append]

/-! ## Paragraphs -/

/-- A result for each element is a result for all. -/
private theorem mapM_eq_some {α β : Type} {f : α → Option β} {g : α → β} {l : List α}
    (h : ∀ a ∈ l, f a = some (g a)) : l.mapM f = some (l.map g) := by
  induction l with
  | nil => rfl
  | cons a l ih =>
    rw [List.mapM_cons, h a List.mem_cons_self, ih fun b hb => h b (List.mem_cons_of_mem a hb)]
    rfl

/-- The paragraphs have the lines of the text. -/
theorem textLines_splitParagraphs (text : Str) : textLines (splitParagraphs text) = textLines [text] := by
  have hne : ∀ text, splitParagraphs text ≠ [] := by
    intro text
    fun_cases splitParagraphs text <;> simp_all
  -- the paragraphs are the text, cut at blank lines
  have hjoin : "\n\n".toList.intercalate (splitParagraphs text) = text := by
    fun_induction splitParagraphs text with
    | case1 => rfl
    | case2 rest ih =>
      obtain ⟨para, paras, hparas⟩ := List.exists_cons_of_ne_nil (hne rest)
      rw [hparas] at ih ⊢
      rw [List.intercalate_cons_cons, ih]
      rfl
    | case3 c rest hnot hparas ih => exact absurd hparas (hne rest)
    | case4 c rest hnot para paras hparas ih =>
      rw [hparas] at ih
      cases paras with
      | nil => rw [← ih]; simp
      | cons next paras =>
        rw [List.intercalate_cons_cons] at ih ⊢
        rw [← ih]
        rfl
  -- a blank line is no line of the text
  have hlines : ∀ paras : List Str, paras ≠ [] →
      textLines ["\n\n".toList.intercalate paras] = textLines paras := by
    intro paras hparas
    induction paras with
    | nil => exact absurd rfl hparas
    | cons para paras ih =>
      cases paras with
      | nil => simp
      | cons next paras =>
        have hblank : para ++ "\n\n".toList ++ "\n\n".toList.intercalate (next :: paras) =
            para ++ '\n' :: ([] ++ '\n' :: "\n\n".toList.intercalate (next :: paras)) := by simp
        have happend : ∀ a b : Str, textLines [a, b] = textLines [a] ++ textLines [b] :=
          fun a b => textLines_append [a] [b]
        rw [List.intercalate_cons_cons, hblank, textLines_newline, happend, textLines_newline,
          textLines_nil_cons, ih (List.cons_ne_nil _ _), ← textLines_append]
        rfl
  rw [← hlines _ (hne text), hjoin]

/-- A line of a text is no longer than the text. -/
private theorem utf8Len_le_of_mem_splitOn {s line : Str} (h : line ∈ s.splitOn '\n') :
    Str.utf8Len line ≤ Str.utf8Len s := by
  induction s generalizing line with
  | nil =>
    rw [List.splitOn_nil, List.mem_singleton] at h
    rw [h]
  | cons c s ih =>
    rw [List.splitOn_cons_eq_if_modifyHead] at h
    rw [Str.utf8Len_cons]
    split at h
    · rcases List.mem_cons.mp h with rfl | h
      · exact Nat.zero_le _
      · exact (ih h).trans (Nat.le_add_left _ _)
    · obtain ⟨m, ms, hms⟩ := List.exists_cons_of_ne_nil (List.splitOn_ne_nil '\n' s)
      rw [hms, List.modifyHead_cons] at h
      rcases List.mem_cons.mp h with rfl | h
      · rw [Str.utf8Len_cons]
        exact Nat.add_le_add_left (ih (hms ▸ List.mem_cons_self)) _
      · exact (ih (hms ▸ List.mem_cons_of_mem m h)).trans (Nat.le_add_left _ _)

/-- The parts of a paragraph. -/
structure Parts (maxBytes : Nat) (text : Str) (parts : List Str) : Prop where
  fits : ∀ part ∈ parts, Str.utf8Len part ≤ maxBytes
  lines : textLines parts = ((text.splitOn '\n').flatMap (piecesOf maxBytes)).filter (· ≠ [])
  nonempty : text ≠ [] → parts ≠ []

theorem splitParagraph_spec (hmax : 4 ≤ maxBytes) (para : Str) :
    ∃ parts, splitParagraph maxBytes para = some parts ∧ Parts maxBytes para parts := by
  rw [splitParagraph]
  split
  · next hnil =>
    refine ⟨[], rfl, ⟨fun _ h => (nomatch h), ?_, absurd hnil⟩⟩
    simp [hnil, textLines, piecesOf]
  · next hne =>
    split
    · next hfits =>
      refine ⟨[para], rfl, fun part hpart => ?_, ?_, fun _ => List.cons_ne_nil _ _⟩
      · rwa [List.mem_singleton.mp hpart]
      · -- Every line of the paragraph fits.
        have hpieces : ∀ line ∈ para.splitOn '\n', piecesOf maxBytes line = [line] := fun line hline =>
          if_pos ((utf8Len_le_of_mem_splitOn hline).trans hfits)
        rw [List.flatMap_congr hpieces]
        simp [textLines]
    · have hall := mapM_eq_some (l := para.splitOn '\n') fun line _ => (piecesOf_spec hmax line).2.2
      rw [hall]
      refine ⟨_, rfl, fun part hpart => ?_, ?_, fun _ hnil => ?_⟩
      · obtain ⟨line, -, hpart⟩ := List.mem_flatMap.mp (List.flatMap_def ▸ hpart)
        exact (piecesOf_spec hmax line).2.1 part hpart
      · -- A piece of a line has no newline.
        rw [← List.flatMap_def]
        have hpiece : ∀ piece ∈ (para.splitOn '\n').flatMap (piecesOf maxBytes),
            piece.splitOn '\n' = [piece] := by
          intro piece hpiece
          obtain ⟨line, hline, hpiece⟩ := List.mem_flatMap.mp hpiece
          refine List.splitOn_eq_singleton fun hmem => Lines.not_mem_of_mem_splitOn hline ?_
          rw [← (piecesOf_spec hmax line).1]
          exact List.mem_flatten.mpr ⟨piece, hpiece, hmem⟩
        rw [textLines, List.flatMap_congr hpiece]
        simp
      · obtain ⟨line, lines, hlines⟩ := List.exists_cons_of_ne_nil (List.splitOn_ne_nil '\n' para)
        rw [hlines, List.map_cons, List.flatten_cons, List.append_eq_nil_iff] at hnil
        exact piecesOf_ne_nil hmax line hnil.1

/-! ## The answer -/

/-- Where nothing but newlines is kept, there are no lines. -/
private theorem textLines_eq_nil {texts : List Str} (h : texts.flatten.filter (· ≠ '\n') = []) :
    textLines texts = [] := by
  have hflatten := (flatten_textLines texts).trans h
  refine List.eq_nil_iff_forall_not_mem.mpr fun line hline => ?_
  have hne := (List.mem_filter.mp hline).2
  rw [List.flatten_eq_nil_iff] at hflatten
  simp [hflatten line hline] at hne

/-- Texts with the lines of a text, in their pieces, are its segments when they are packed. -/
private theorem Packed.segmented (hmax : 4 ≤ maxBytes) {text : Str} {bodies : List Str}
    (h : Packed maxBytes bodies) (hlines : textLines bodies =
      ((text.splitOn '\n').flatMap (piecesOf maxBytes)).filter (· ≠ [])) :
    Segmented text maxBytes bodies where
  fits := h.fits
  keeps := by
    have hpieces : ∀ lines : List Str, (lines.flatMap (piecesOf maxBytes)).flatten = lines.flatten := by
      intro lines
      induction lines with
      | nil => rfl
      | cons line lines ih =>
        rw [List.flatMap_cons, List.flatten_append, ih, (piecesOf_spec hmax line).1, List.flatten_cons]
    rw [← flatten_textLines, hlines, flatten_filter_ne_nil, hpieces, flatten_splitOn]
  lines := ⟨piecesOf maxBytes, fun line _ => ⟨(piecesOf_spec hmax line).1, fun h => if_pos h⟩, hlines⟩
  neighbours := h.chain

/-- The segments are the bodies with their numbers. -/
private theorem numbered_numbered (bodies : List Str) : Numbered (numbered bodies) bodies where
  single h := if_pos h
  count := by
    rw [numbered]
    split
    · rfl
    · exact List.length_mapIdx
  number h i body hbody := by
    rw [numbered, if_neg (Nat.not_le.mpr h), List.getElem?_mapIdx, hbody]
    rfl

/-- What the segments are the numbered bodies of. -/
theorem exists_bodies (text : Str) (hmax : 4 ≤ maxBytes) :
    ∃ bodies, splitMarkdownSegments text maxBytes = some (numbered bodies) ∧
      Segmented text maxBytes bodies := by
  rw [splitMarkdownSegments]
  split
  · next hnil =>
    refine ⟨[], rfl, Packed.segmented hmax ⟨fun _ h => (nomatch h), List.isChain_nil⟩ ?_⟩
    simp [hnil, textLines, piecesOf]
  · next hne =>
    rw [if_neg (by omega)]
    split
    · next hfits =>
      refine ⟨[text], rfl, Packed.segmented hmax ⟨fun body hbody => ?_, List.isChain_singleton _⟩ ?_⟩
      · rw [List.mem_singleton.mp hbody]
        exact ⟨hne, hfits⟩
      · have hpieces : ∀ line ∈ text.splitOn '\n', piecesOf maxBytes line = [line] := fun line hline =>
          if_pos ((utf8Len_le_of_mem_splitOn hline).trans hfits)
        rw [List.flatMap_congr hpieces]
        simp [textLines]
    · -- The parts of the paragraphs, one after another.
      choose partsOf hpartsOf hparts using fun para => @splitParagraph_spec maxBytes hmax para
      have hall := mapM_eq_some (l := splitParagraphs text) fun para _ => hpartsOf para
      have hlines : textLines ((splitParagraphs text).map partsOf).flatten =
          ((text.splitOn '\n').flatMap (piecesOf maxBytes)).filter (· ≠ []) := by
        have hparas : ∀ paras : List Str, textLines (paras.map partsOf).flatten =
            ((paras.flatMap (·.splitOn '\n')).flatMap (piecesOf maxBytes)).filter (· ≠ []) := by
          intro paras
          induction paras with
          | nil => rfl
          | cons para paras ih =>
            rw [List.map_cons, List.flatten_cons, textLines_append, ih, (hparts para).lines,
              List.flatMap_cons, List.flatMap_append, List.filter_append]
        have htext := textLines_splitParagraphs text
        rw [textLines, textLines, List.flatMap_singleton] at htext
        rw [hparas, flatMap_piecesOf_filter, htext, ← flatMap_piecesOf_filter]
      rw [hall]
      simp only
      by_cases hraw : ((splitParagraphs text).map partsOf).flatten = []
      · -- The text is of newlines only.
        have hblank : text.filter (· ≠ '\n') = [] := by
          have hnone := textLines_splitParagraphs text
          have hparas : ∀ para ∈ splitParagraphs text, para = [] := fun para hpara => by
            refine Classical.byContradiction fun hne => (hparts para).nonempty hne ?_
            exact List.flatten_eq_nil_iff.mp hraw _ (List.mem_map_of_mem hpara)
          have hflatten : (splitParagraphs text).flatten = [] := List.flatten_eq_nil_iff.mpr hparas
          have htext := flatten_textLines [text]
          rw [← hnone, flatten_textLines, hflatten] at htext
          simpa using htext.symm
        obtain ⟨pieces, hpieces, hflatten, hfits⟩ := splitCharBoundary_spec hmax text
        obtain ⟨hpacked, hpackedLines⟩ := packSegments_spec fun part hpart => (hfits part hpart).2
        rw [if_pos hraw, hpieces]
        refine ⟨_, rfl, hpacked.segmented hmax ?_⟩
        rw [hpackedLines, textLines_eq_nil (by rw [hflatten, hblank]), ← hlines, hraw]
        rfl
      · have hfits : ∀ part ∈ ((splitParagraphs text).map partsOf).flatten,
            Str.utf8Len part ≤ maxBytes := by
          intro part hpart
          obtain ⟨parts, hmem, hpart⟩ := List.mem_flatten.mp hpart
          obtain ⟨para, -, rfl⟩ := List.mem_map.mp hmem
          exact (hparts para).fits part hpart
        obtain ⟨hpacked, hpackedLines⟩ := packSegments_spec hfits
        rw [if_neg hraw]
        exact ⟨_, rfl, hpacked.segmented hmax (hpackedLines.trans hlines)⟩

/-- The segments of a text are its text, each with its number. -/
theorem splitMarkdownSegments_whole (text : Str) (hmax : 4 ≤ maxBytes) :
    ∃ segments bodies, splitMarkdownSegments text maxBytes = some segments ∧
      Segmented text maxBytes bodies ∧ Numbered segments bodies := by
  obtain ⟨bodies, hsegments, hbodies⟩ := exists_bodies text hmax
  exact ⟨_, bodies, hsegments, hbodies, numbered_numbered bodies⟩

/-- A text of three lines in segments of eight bytes. -/
theorem splitMarkdownSegments_whole_letters :
    ∃ segments bodies, splitMarkdownSegments "ab\n\ncdefghijkl\nm".toList 8 = some segments ∧
      Segmented "ab\n\ncdefghijkl\nm".toList 8 bodies ∧ Numbered segments bodies :=
  splitMarkdownSegments_whole _ (by decide)

end TeamClu.WeCom
