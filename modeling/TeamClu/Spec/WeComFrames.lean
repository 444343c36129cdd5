import TeamClu.Native.WeComFrames
import TeamClu.Spec.SegmentsWhole

/-!
# What a chat shows of a WeCom bubble

The client reads `<think>` and `</think>` in any letter case, and folds what is between them.  `tags` is what
it reads.  Texts that come from outside (steps of the agent, answers, notices, questions) have no tag left
when they reach a frame, so no text can open a block, or close the one that it is in.

Key results:
- `tags_escapeThinkTags`, `visible_escapeThinkTags`: an escaped text has no tag and reads the same.
- `frames_tagged`: every frame of every run.
- `finish_whole`: the last frame has the whole answer wherever it fits, within the limit of the API.
-/

namespace TeamClu.WeCom

/-! ## Tags -/

/-- A tag of a thought block. -/
inductive Tag
  | opening | closing
  deriving DecidableEq, Repr

/-- The tag at the start of a text. -/
def tagAt (s : Str) : Option Tag :=
  if startsLower "<think>" s then some .opening
  else if startsLower "</think>" s then some .closing
  else none

/-- The tags of a text, in their order. -/
def tags : Str → List Tag
  | [] => []
  | c :: s => (tagAt (c :: s)).toList ++ tags s

theorem startsLower_iff {pattern : String} {s : Str} :
    startsLower pattern s = true ↔ pattern.toList <+: s.map Char.toLower := List.isPrefixOf_iff_prefix

/-- Lower case makes letters only. -/
theorem eq_of_toLower {c d : Char} (hd : d.toNat < 97) (h : c.toLower = d) : c = d := by
  unfold Char.toLower at h
  split at h
  · next hupper =>
    have hval := congrArg (fun c : Char => c.val.toNat) h
    have hlow : 65 ≤ c.val.toNat := UInt32.le_iff_toNat_le.mp hupper.1
    have hhigh : c.val.toNat ≤ 90 := UInt32.le_iff_toNat_le.mp hupper.2
    change d.val.toNat < 97 at hd
    have hshift : ('a'.val - 'A'.val).toNat = 32 := rfl
    simp only [UInt32.toNat_add] at hval
    omega
  · exact h

/-- Only a `<` starts a tag. -/
theorem tagAt_cons_of_ne {c : Char} (hc : c ≠ '<') (s : Str) : tagAt (c :: s) = none := by
  have hnot (pattern : Str) : ¬ '<' :: pattern <+: (c :: s).map Char.toLower := by
    rw [List.map_cons, List.cons_prefix_cons]
    exact fun h => hc (eq_of_toLower (by decide) h.1.symm)
  have hopening : ¬ startsLower "<think>" (c :: s) = true := fun h => hnot _ (startsLower_iff.mp h)
  have hclosing : ¬ startsLower "</think>" (c :: s) = true := fun h => hnot _ (startsLower_iff.mp h)
  rw [tagAt, if_neg hopening, if_neg hclosing]

/-- No tag goes across a character that is not inside one. -/
private theorem startsLower_append {pattern : String} {c : Char} (hc : c.toLower ∉ pattern.toList.tail)
    {u : Str} (hu : u ≠ []) (s : Str) : startsLower pattern (u ++ c :: s) = startsLower pattern u := by
  rw [Bool.eq_iff_iff, startsLower_iff, startsLower_iff, List.map_append]
  refine ⟨fun h => ?_, fun h => h.trans (List.prefix_append _ _)⟩
  rcases List.prefix_or_prefix_of_prefix h (List.prefix_append _ _) with hpre | ⟨rest, hrest⟩
  · exact hpre
  · rw [← hrest, List.prefix_append_right_inj] at h
    cases rest with
    | nil => rw [← hrest, List.append_nil]
    | cons d rest =>
      obtain ⟨x, xs, hxs⟩ := List.exists_cons_of_ne_nil (List.map_eq_nil_iff.not.mpr hu)
      refine absurd ?_ hc
      rw [← hrest, hxs, (List.cons_prefix_cons.mp h).1, List.cons_append, List.tail_cons]
      exact List.mem_append_right _ List.mem_cons_self

/-- The tags of a text are those of its parts, where the second does not start inside a tag. -/
theorem tags_append {c : Char} (hc : c = '<' ∨ c = '\n') (u s : Str) :
    tags (u ++ c :: s) = tags u ++ tags (c :: s) := by
  have hopening : c.toLower ∉ "<think>".toList.tail := by rcases hc with rfl | rfl <;> decide
  have hclosing : c.toLower ∉ "</think>".toList.tail := by rcases hc with rfl | rfl <;> decide
  induction u with
  | nil => rfl
  | cons d u ih =>
    have hat : tagAt (d :: u ++ c :: s) = tagAt (d :: u) := by
      rw [tagAt, tagAt, startsLower_append hopening (List.cons_ne_nil _ _),
        startsLower_append hclosing (List.cons_ne_nil _ _)]
    rw [List.cons_append, tags, tags, ← List.cons_append, hat, ih, List.append_assoc]

/-- Text without a `<` has no tags, and adds none before another. -/
theorem tags_append_of_notMem {u : Str} (h : '<' ∉ u) (s : Str) : tags (u ++ s) = tags s := by
  induction u with
  | nil => rfl
  | cons d u ih =>
    rw [List.mem_cons, not_or] at h
    rw [List.cons_append, tags, tagAt_cons_of_ne (Ne.symm h.1), ih h.2]
    rfl

theorem tags_of_notMem {s : Str} (h : '<' ∉ s) : tags s = [] := by
  rw [← List.append_nil s, tags_append_of_notMem h]
  rfl

/-- A beginning of a text has no other tags. -/
theorem tags_nil_of_isPrefix {p s : Str} (hp : p <+: s) (h : tags s = []) : tags p = [] := by
  induction p generalizing s with
  | nil => rfl
  | cons c p ih =>
    obtain ⟨rest, rfl⟩ := hp
    rw [List.cons_append, tags, List.append_eq_nil_iff] at h
    -- what starts the beginning starts the text as well
    have hpre (pattern : String) (hstart : startsLower pattern (c :: p) = true) :
        startsLower pattern (c :: (p ++ rest)) = true := by
      rw [startsLower_iff] at hstart ⊢
      refine hstart.trans ?_
      rw [← List.cons_append, List.map_append]
      exact List.prefix_append _ _
    have hat : tagAt (c :: p) = none := by
      have hnone : tagAt (c :: (p ++ rest)) = none := by simpa using h.1
      rw [tagAt] at hnone
      split at hnone
      · cases hnone
      · next hopening =>
        split at hnone
        · cases hnone
        · next hclosing =>
          rw [tagAt, if_neg fun hs => hopening (hpre _ hs), if_neg fun hs => hclosing (hpre _ hs)]
    rw [tags, hat, ih (List.prefix_append _ _) h.2]
    rfl

/-- An end of a text has no other tags. -/
private theorem tags_nil_of_isSuffix {p s : Str} (hp : p <:+ s) (h : tags s = []) : tags p = [] := by
  obtain ⟨u, rfl⟩ := hp
  induction u with
  | nil => exact h
  | cons c u ih =>
    rw [List.cons_append, tags, List.append_eq_nil_iff] at h
    exact ih h.2

theorem tags_nil_of_isInfix {p s : Str} (hp : p <:+: s) (h : tags s = []) : tags p = [] := by
  obtain ⟨q, hpre, hsuffix⟩ := List.infix_iff_prefix_suffix.mp hp
  exact tags_nil_of_isPrefix hpre (tags_nil_of_isSuffix hsuffix h)

/-! ## Escaped texts -/

/-- A text as it is read. -/
def visible (text : Str) : Str := text.filter (· ≠ '\u200b')

private theorem visible_cons (c : Char) (s : Str) :
    visible (c :: s) = if c ≠ '\u200b' then c :: visible s else visible s := by
  simp [visible, List.filter_cons]

/-- The escape takes nothing away and adds nothing but zero-width spaces. -/
theorem visible_escapeThinkTags (s : Str) : visible (escapeThinkTags s) = visible s := by
  fun_induction escapeThinkTags s with
  | case1 => rfl
  | case2 c rest h ih => simp only [visible_cons, ih]; rfl
  | case3 c _ h => rfl
  | case4 c slash rest _ h ih => simp only [visible_cons, ih]; rfl
  | case5 c rest h h' ih => simp only [visible_cons, ih]

/-- Where a pattern without a `<` starts an escaped text, it starts the text. -/
private theorem startsLower_escape {p : Str} (hp : '<' ∉ p) (s : Str)
    (h : p <+: (escapeThinkTags s).map Char.toLower) : p <+: s.map Char.toLower := by
  induction p generalizing s with
  | nil => exact List.nil_prefix
  | cons d p ih =>
    rw [List.mem_cons, not_or] at hp
    cases s with
    | nil => exact h
    | cons c s =>
      -- escaping changes a text only at a `<`, which the pattern has not
      have hc : c ≠ '<' := by
        rintro rfl
        refine hp.1 ?_
        rw [escapeThinkTags.eq_def] at h
        dsimp only at h
        split at h
        · exact (List.cons_prefix_cons.mp h).1.symm
        · split at h
          · split at h <;> exact (List.cons_prefix_cons.mp h).1.symm
          · exact (List.cons_prefix_cons.mp h).1.symm
      rw [escapeThinkTags.eq_def] at h
      dsimp only at h
      rw [if_neg fun h => hc h.1, if_neg fun h => hc h.1, List.map_cons, List.cons_prefix_cons] at h
      rw [List.map_cons, List.cons_prefix_cons]
      exact ⟨h.1, ih hp.2 s h.2⟩

/-- What starts as a tag does. -/
private theorem startsLower_cons {pattern rest : String} {p c : Char}
    (hpattern : pattern.toList = p :: rest.toList) (s : Str) :
    startsLower pattern (c :: s) = true ↔ c.toLower = p ∧ startsLower rest s = true := by
  rw [startsLower_iff, startsLower_iff, hpattern, List.map_cons, List.cons_prefix_cons, eq_comm]

private theorem tagAt_cons (c : Char) (s : Str) : tagAt (c :: s) = none ↔
    (c = '<' → startsLower "think>" s = false ∧ startsLower "/think>" s = false) := by
  by_cases hc : c = '<'
  · subst hc
    have hopening := @startsLower_cons "<think>" "think>" '<' '<' rfl s
    have hclosing := @startsLower_cons "</think>" "/think>" '<' '<' rfl s
    rw [tagAt]
    by_cases h : startsLower "think>" s = true
    · rw [if_pos (hopening.mpr ⟨rfl, h⟩)]
      simp [h]
    · rw [if_neg fun h' => h (hopening.mp h').2]
      by_cases h' : startsLower "/think>" s = true
      · rw [if_pos (hclosing.mpr ⟨rfl, h'⟩)]
        simp [h']
      · rw [if_neg fun h'' => h' (hclosing.mp h'').2]
        simp [h, h']
  · simp [tagAt_cons_of_ne hc, hc]

/-- An escaped text has no tag. -/
theorem tags_escapeThinkTags (s : Str) : tags (escapeThinkTags s) = [] := by
  -- behind a `<` of a tag stands a space of no width, which starts no tag
  have hspace (s : Str) : startsLower "think>" ('\u200b' :: s) = false ∧
      startsLower "/think>" ('\u200b' :: s) = false := by
    rw [← Bool.not_eq_true, ← Bool.not_eq_true, @startsLower_cons "think>" "hink>" 't' _ rfl,
      @startsLower_cons "/think>" "think>" '/' _ rfl]
    exact ⟨fun h => absurd h.1 (by decide), fun h => absurd h.1 (by decide)⟩
  fun_induction escapeThinkTags s with
  | case1 => rfl
  | case2 c rest h ih =>
    rw [tags, (tagAt_cons c _).mpr fun _ => hspace _, tags, tagAt_cons_of_ne (by decide), ih]
    rfl
  | case3 c _ h =>
    cases h.2
  | case4 c slash rest _ h ih =>
    obtain ⟨hslash, -⟩ := (@startsLower_cons "/think>" "think>" '/' _ rfl rest).mp h.2
    obtain rfl := eq_of_toLower (by decide) hslash
    have hat : tagAt (c :: '/' :: '\u200b' :: escapeThinkTags rest) = none := by
      refine (tagAt_cons c _).mpr fun _ => ?_
      rw [← Bool.not_eq_true, ← Bool.not_eq_true, @startsLower_cons "think>" "hink>" 't' _ rfl,
        @startsLower_cons "/think>" "think>" '/' _ rfl, (hspace _).1]
      exact ⟨fun h => absurd h.1 (by decide), fun h => by cases h.2⟩
    rw [tags, hat, tags, tagAt_cons_of_ne (by decide), tags, tagAt_cons_of_ne (by decide), ih]
    rfl
  | case5 c rest h h' ih =>
    have hat : tagAt (c :: escapeThinkTags rest) = none := by
      refine (tagAt_cons c _).mpr fun hc => ?_
      rw [← Bool.not_eq_true, ← Bool.not_eq_true, startsLower_iff, startsLower_iff]
      exact ⟨fun hp => h ⟨hc, startsLower_iff.mpr (startsLower_escape (by decide) rest hp)⟩,
        fun hp => h' ⟨hc, startsLower_iff.mpr (startsLower_escape (by decide) rest hp)⟩⟩
    rw [tags, hat, ih]
    rfl

/-! ## Frames -/

/-- No line has a tag. -/
def Tagless (lines : List Str) : Prop := ∀ line ∈ lines, tags line = []

/-- The tags of lines are those of each line. -/
theorem tags_joinLines_eq (lines : List Str) : tags (joinLines lines) = lines.flatMap tags := by
  induction lines with
  | nil => rfl
  | cons line lines ih =>
    cases lines with
    | nil => simp [joinLines, List.intercalate]
    | cons next lines =>
      have hjoin : joinLines (line :: next :: lines) = line ++ '\n' :: joinLines (next :: lines) := by
        simp [joinLines, List.intercalate, List.intersperse]
      rw [hjoin, tags_append (.inr rfl), tags, tagAt_cons_of_ne (by decide), ih]
      rfl

theorem tags_joinLines {lines : List Str} (h : Tagless lines) : tags (joinLines lines) = [] := by
  rw [tags_joinLines_eq, List.flatMap_eq_nil_iff]
  exact h

theorem Tagless.append {a b : List Str} (ha : Tagless a) (hb : Tagless b) : Tagless (a ++ b) :=
  fun line hline => (List.mem_append.mp hline).elim (ha line) (hb line)

private theorem tagless_singleton {line : Str} (h : tags line = []) : Tagless [line] :=
  fun _ hl => (List.mem_singleton.mp hl) ▸ h

theorem Tagless.recentSteps {steps : List Str} (h : Tagless steps) : Tagless (recentSteps steps) :=
  fun line hline => h line (List.mem_of_mem_drop hline)

theorem tagless_nonBlank {line : Option Str} (h : ∀ l ∈ line, tags l = []) : Tagless (nonBlank line) := by
  intro l hl
  rw [nonBlank, Option.mem_toList, Option.filter_eq_some_iff] at hl
  exact h l hl.1

/-- The opening tag, and what is behind it. -/
private theorem tags_think (s : Str) : tags ("<think>".toList ++ s) = .opening :: tags s := by
  have hat : tagAt ("<think>".toList ++ s) = some .opening := by
    rw [tagAt, if_pos (startsLower_iff.mpr ?_)]
    rw [List.map_append]
    exact List.prefix_append "<think>".toList _
  change tags ('<' :: ("think>".toList ++ s)) = _
  rw [tags]
  change (tagAt ("<think>".toList ++ s)).toList ++ _ = _
  rw [hat, tags_append_of_notMem (by decide)]
  rfl

private theorem tags_closing (s : Str) : tags ("</think>".toList ++ s) = .closing :: tags s := by
  have hat : tagAt ("</think>".toList ++ s) = some .closing := by
    rw [tagAt, if_neg ?_, if_pos (startsLower_iff.mpr ?_)]
    · rw [List.map_append]
      exact List.prefix_append "</think>".toList _
    · rw [show "</think>".toList ++ s = '<' :: '/' :: ("think>".toList ++ s) from rfl,
        @startsLower_cons "<think>" "think>" '<' _ rfl, @startsLower_cons "think>" "hink>" 't' _ rfl]
      exact fun h => absurd h.2.1 (by decide)
  change tags ('<' :: ("/think>".toList ++ s)) = _
  rw [tags]
  change (tagAt ("</think>".toList ++ s)).toList ++ _ = _
  rw [hat, tags_append_of_notMem (by decide)]
  rfl

private theorem tags_append_closing (u s : Str) :
    tags (u ++ ("</think>".toList ++ s)) = tags u ++ .closing :: tags s := by
  have hcons : "</think>".toList ++ s = '<' :: ("/think>".toList ++ s) := rfl
  rw [hcons, tags_append (.inl rfl), ← hcons, tags_closing]

private theorem closedBlock_eq (lines : List Str) (body : Str) : closedBlock lines body =
    "<think>".toList ++ (joinLines lines ++ ("</think>".toList ++ ("\n\n".toList ++ body))) := by
  unfold closedBlock
  rw [List.append_assoc, List.append_assoc]
  exact Eq.refl _

/-- A closed block has its two tags, in front of its body. -/
theorem tags_closedBlock {lines : List Str} (h : Tagless lines) {body : Str} (hbody : tags body = []) :
    tags (closedBlock lines body) = [.opening, .closing] := by
  rw [closedBlock_eq, tags_think, tags_append_closing, tags_joinLines h, tags_append_of_notMem (by decide),
    hbody, List.nil_append]

theorem tags_thinkClosedWith {steps : List Str} (hsteps : Tagless steps) {closingLine body : Str}
    (hclosing : tags closingLine = []) (hbody : tags body = []) :
    tags (thinkClosedWith steps closingLine body) = [.opening, .closing] := by
  rw [thinkClosedWith]
  split
  · exact tags_closedBlock (hsteps.recentSteps.append (tagless_singleton hclosing)) hbody
  · exact tags_closedBlock (tagless_singleton hclosing) hbody

/-- Digits and units. -/
private theorem lt_notMem_formatElapsed (elapsed : UInt64) : '<' ∉ formatElapsed elapsed := by
  have hdigits (n : Nat) : '<' ∉ JsonText.natText n := fun h =>
    absurd (JsonText.isDigit_of_mem_natText h) (by decide)
  rw [formatElapsed]
  split
  · simp [hdigits]
  · simp [hdigits]

private theorem tags_elapsed {head : Str} (h : '<' ∉ head) (elapsed : UInt64) :
    tags (head ++ formatElapsed elapsed) = [] := by
  rw [tags_append_of_notMem h]
  exact tags_of_notMem (lt_notMem_formatElapsed elapsed)

private theorem tags_progressFrame (elapsed : UInt64) : tags (progressFrame elapsed) = [] := by
  rw [progressFrame]
  exact tags_elapsed (by decide) elapsed

private theorem progressThinkFrame_eq (steps : List Str) (elapsed : UInt64) (notice waiting : Option Str) :
    progressThinkFrame steps elapsed notice waiting = "<think>".toList ++
      joinLines (recentSteps steps ++ nonBlank waiting ++ [progressFrame elapsed] ++ nonBlank notice) := by
  unfold progressThinkFrame
  exact Eq.refl _

/-- A progress frame has one tag, the first. -/
theorem tags_progressThinkFrame {steps : List Str} (hsteps : Tagless steps) (elapsed : UInt64)
    {notice waiting : Option Str} (hnotice : ∀ l ∈ notice, tags l = [])
    (hwaiting : ∀ l ∈ waiting, tags l = []) :
    tags (progressThinkFrame steps elapsed notice waiting) = [.opening] := by
  have htime : Tagless [progressFrame elapsed] := tagless_singleton (tags_progressFrame elapsed)
  have hlines := ((hsteps.recentSteps.append (tagless_nonBlank hwaiting)).append htime).append
    (tagless_nonBlank hnotice)
  rw [progressThinkFrame_eq, tags_think, tags_joinLines hlines]

/-! ## The limit of the API -/

/-- A truncated text is within the limit; it is the longest beginning of the text that is. -/
theorem truncateWecomContent_spec (text : Str) : truncateWecomContent text <+: text ∧
    Str.utf8Len (truncateWecomContent text) ≤ WECOM_CONTENT_MAX_BYTES ∧
    ∀ head, head <+: text → Str.utf8Len head ≤ WECOM_CONTENT_MAX_BYTES → head <+: truncateWecomContent text := by
  rw [truncateWecomContent]
  split
  · next hfits => exact ⟨List.prefix_rfl, hfits, fun _ h _ => h⟩
  · obtain ⟨hle, hboundary, hmaximal⟩ := boundaryBefore_spec text WECOM_CONTENT_MAX_BYTES
    generalize boundaryBefore text WECOM_CONTENT_MAX_BYTES = n at hle hboundary hmaximal
    have hslice : (Str.sliceTo text n).isSome = true := by
      by_cases hn : n = 0
      · rw [hn, Str.sliceTo.eq_def]
        rfl
      · exact hboundary hn
    obtain ⟨p, hp⟩ := Option.isSome_iff_exists.mp hslice
    obtain ⟨htext, hlen⟩ := Str.sliceTo_eq_some hp
    rw [hp, Option.getD_some]
    have hpre : p <+: text := ⟨_, htext.symm⟩
    refine ⟨hpre, hlen ▸ hle, fun head hhead hfits => ?_⟩
    -- The end of `head` is a boundary within the limit, so the cut is not before it.
    have hnot : ¬ n < Str.utf8Len head := by
      intro hlt
      obtain ⟨rest, rfl⟩ := hhead
      have hfalse := hmaximal _ hlt hfits
      rw [isCharBoundary, Str.sliceTo_append] at hfalse
      cases hfalse
    rcases List.prefix_or_prefix_of_prefix hhead hpre with h | ⟨rest, rfl⟩
    · exact h
    · cases rest with
      | nil => rw [List.append_nil]
      | cons c rest =>
        rw [Str.utf8Len_append, Str.utf8Len_cons, hlen] at hnot
        have := c.utf8Size_pos
        omega

private theorem utf8Len_formatElapsed (elapsed : UInt64) : Str.utf8Len (formatElapsed elapsed) ≤ 46 := by
  have hlt : elapsed.toNat < 10 ^ 20 := elapsed.toNat_lt.trans (by decide)
  have hm := @JsonText.utf8Len_natText_le (elapsed.toNat / 60) 20 (by decide) (by omega)
  have hs := @JsonText.utf8Len_natText_le (elapsed.toNat % 60) 20 (by decide) (by omega)
  have hunits : '秒'.utf8Size = 3 ∧ '分'.utf8Size = 3 := by decide
  rw [formatElapsed]
  split
  · simp only [Str.utf8Len_append, Str.utf8Len_cons, Str.utf8Len_nil, hunits]
    omega
  · simp only [Str.utf8Len_append, Str.utf8Len_cons, Str.utf8Len_nil, hunits]
    omega

private theorem closedBlock_append (lines : List Str) (body : Str) :
    closedBlock lines body = closedBlock lines [] ++ body := by
  unfold closedBlock
  rw [List.append_nil]

/-- A truncated block is the block with the longest beginning of its body that fits. -/
private theorem truncate_closedBlock {lines : List Str} {body : Str}
    (h : Str.utf8Len (closedBlock lines []) ≤ WECOM_CONTENT_MAX_BYTES) :
    ∃ shown, truncateWecomContent (closedBlock lines body) = closedBlock lines shown ∧ shown <+: body ∧
      ∀ s, s <+: body → Str.utf8Len (closedBlock lines s) ≤ WECOM_CONTENT_MAX_BYTES → s <+: shown := by
  rw [closedBlock_append lines body]
  obtain ⟨hpre, -, hlongest⟩ := truncateWecomContent_spec (closedBlock lines [] ++ body)
  obtain ⟨shown, hshown⟩ := hlongest _ (List.prefix_append _ _) h
  rw [← hshown, List.prefix_append_right_inj] at hpre
  refine ⟨shown, by rw [closedBlock_append lines shown, hshown], hpre, fun s hs hfits => ?_⟩
  rw [closedBlock_append] at hfits
  have hlong := hlongest _ ((List.prefix_append_right_inj _).mpr hs) hfits
  rwa [← hshown, List.prefix_append_right_inj] at hlong

/-- What a finishing frame has: the closing line, the recent steps above it if all fits, and below it the
    longest beginning of the body that fits. -/
structure Finishes (content : Str) (steps : List Str) (line body : Str) (lines : List Str) (shown : Str) :
    Prop where
  content_eq : content = closedBlock lines shown
  bounded : Str.utf8Len content ≤ WECOM_CONTENT_MAX_BYTES
  lines_eq : lines = if Str.utf8Len (closedBlock (recentSteps steps ++ [line]) body) ≤ WECOM_CONTENT_MAX_BYTES
    then recentSteps steps ++ [line] else [line]
  shown_isPrefix : shown <+: body
  longest : ∀ s, s <+: body → Str.utf8Len (closedBlock [line] s) ≤ WECOM_CONTENT_MAX_BYTES → s <+: shown

/-- The frame with its closing line alone is within the limit. -/
private theorem utf8Len_closedBlock_line {line : Str} (h : Str.utf8Len line ≤ 100) :
    Str.utf8Len (closedBlock [line] []) ≤ WECOM_CONTENT_MAX_BYTES := by
  have hjoin : joinLines [line] = line := by simp [joinLines, List.intercalate]
  have htags : Str.utf8Len "<think>".toList = 7 ∧ Str.utf8Len "</think>".toList = 8 ∧
      Str.utf8Len "\n\n".toList = 2 := by decide
  rw [closedBlock_eq, hjoin]
  simp only [Str.utf8Len_append, Str.utf8Len_nil, htags, WECOM_CONTENT_MAX_BYTES]
  omega

private theorem exists_finishes {line : Str} (h : Str.utf8Len line ≤ 100) (steps : List Str) (body : Str) :
    ∃ lines shown,
      Finishes (truncateWecomContent (thinkClosedWith steps line body)) steps line body lines shown := by
  have hbounded := (truncateWecomContent_spec (thinkClosedWith steps line body)).2.1
  rw [thinkClosedWith] at hbounded ⊢
  split
  · next hfits =>
    have hwhole (full : Str) (hfull : Str.utf8Len full ≤ WECOM_CONTENT_MAX_BYTES) :
        truncateWecomContent full = full := if_pos hfull
    rw [if_pos hfits] at hbounded
    exact ⟨_, body, hwhole _ hfits, hbounded, (if_pos hfits).symm, List.prefix_rfl, fun _ hs _ => hs⟩
  · next hlong =>
    rw [if_neg hlong] at hbounded
    obtain ⟨shown, hcontent, hshown, hlongest⟩ := truncate_closedBlock (utf8Len_closedBlock_line h)
    exact ⟨_, shown, hcontent, hbounded, (if_neg hlong).symm, hshown, hlongest⟩

/-- The closing line of the end of a turn. -/
def closingLine (turnEnd : TurnEnd) (elapsed : UInt64) : Str :=
  match turnEnd with
  | .noAnswer => "⏹️ 已停止 · ".toList ++ formatElapsed elapsed
  | .answered => elapsedClosingLine elapsed

/-- The body below it. -/
def closingBody (turnEnd : TurnEnd) (text : Str) : Str :=
  match turnEnd with
  | .noAnswer => PROGRESS_CANCELLED
  | .answered => answerBody text

private theorem utf8Len_closingLine (turnEnd : TurnEnd) (elapsed : UInt64) :
    Str.utf8Len (closingLine turnEnd elapsed) ≤ 100 := by
  have helapsed := utf8Len_formatElapsed elapsed
  have hhead (head : Str) (h : Str.utf8Len head ≤ 50) : Str.utf8Len (head ++ formatElapsed elapsed) ≤ 100 := by
    rw [Str.utf8Len_append]
    omega
  cases turnEnd with
  | answered => exact hhead "✅ 用时 ".toList (by decide)
  | noAnswer => exact hhead "⏹️ 已停止 · ".toList (by decide)

private theorem tags_closingLine (turnEnd : TurnEnd) (elapsed : UInt64) :
    tags (closingLine turnEnd elapsed) = [] := by
  cases turnEnd with
  | answered => exact tags_elapsed (by decide) elapsed
  | noAnswer => exact tags_elapsed (by decide) elapsed

private theorem tags_closingBody (turnEnd : TurnEnd) (text : Str) : tags (closingBody turnEnd text) = [] := by
  cases turnEnd with
  | answered =>
    rw [closingBody, answerBody]
    split
    · exact @tags_of_notMem PROGRESS_DONE (by decide)
    · exact tags_escapeThinkTags _
  | noAnswer => exact @tags_of_notMem PROGRESS_CANCELLED (by decide)

private theorem exists_streamFinish (turnEnd : TurnEnd) (text : Str) (steps : List Str) (elapsed : UInt64) :
    ∃ lines shown, Finishes (streamFinishContent turnEnd text steps elapsed) steps (closingLine turnEnd elapsed)
      (closingBody turnEnd text) lines shown := by
  have hfinish := exists_finishes (utf8Len_closingLine turnEnd elapsed) steps (closingBody turnEnd text)
  cases turnEnd with
  | answered => exact hfinish
  | noAnswer => exact hfinish

private theorem Finishes.tags_eq {content : Str} {steps : List Str} {line body : Str} {lines : List Str}
    {shown : Str} (h : Finishes content steps line body lines shown) (hsteps : Tagless steps)
    (hline : tags line = []) (hbody : tags body = []) : tags content = [.opening, .closing] := by
  have hlines : Tagless lines := by
    rw [h.lines_eq]
    split
    · exact hsteps.recentSteps.append (tagless_singleton hline)
    · exact tagless_singleton hline
  rw [h.content_eq]
  exact tags_closedBlock hlines (tags_nil_of_isPrefix h.shown_isPrefix hbody)

/-! ## Segments of an answer -/

/-- The tags of a text are those of its lines. -/
private theorem tags_splitOn (s : Str) : tags s = (s.splitOn '\n').flatMap tags := by
  have hjoin : joinLines (s.splitOn '\n') = s := List.intercalate_splitOn '\n'
  rw [← tags_joinLines_eq, hjoin]

/-- No body of an answer without tags has one. -/
private theorem Segmented.tagless {text : Str} {maxBytes : Nat} {bodies : List Str}
    (h : Segmented text maxBytes bodies) (htext : tags text = []) : Tagless bodies := by
  obtain ⟨pieces, hpieces, hlines⟩ := h.lines
  intro body hbody
  rw [tags_splitOn, List.flatMap_eq_nil_iff]
  intro line hline
  by_cases hempty : line = []
  · rw [hempty]
    rfl
  · have hmem : line ∈ textLines bodies :=
      List.mem_filter.mpr ⟨List.mem_flatMap.mpr ⟨body, hbody, hline⟩, by simpa using hempty⟩
    rw [hlines] at hmem
    obtain ⟨whole, hwhole, hpiece⟩ := List.mem_flatMap.mp (List.mem_filter.mp hmem).1
    rw [tags_splitOn, List.flatMap_eq_nil_iff] at htext
    refine tags_nil_of_isInfix (List.infix_of_mem_flatten hpiece) ?_
    rw [(hpieces whole hwhole).1]
    exact htext whole hwhole

/-- No segment of an answer without tags has one. -/
private theorem tagless_segments {text : Str} (h : tags text = []) :
    Tagless ((splitMarkdownSegments text MARKDOWN_SEGMENT_MAX_BYTES).getD []) := by
  obtain ⟨bodies, heq, hsegmented⟩ := @exists_bodies MARKDOWN_SEGMENT_MAX_BYTES text (by decide)
  have hbodies := hsegmented.tagless h
  have hdigits (n : Nat) : '<' ∉ Nat.toDigits 10 n := fun h =>
    absurd (JsonText.isDigit_of_mem_natText h) (by decide)
  rw [heq, Option.getD_some, numbered]
  split
  · exact hbodies
  · intro segment hsegment
    obtain ⟨i, hi, rfl⟩ := List.mem_mapIdx.mp hsegment
    have hnumber : '<' ∉ numberLine i bodies.length := by simp [numberLine, hdigits]
    rw [tags_append_of_notMem hnumber]
    exact hbodies _ (List.getElem_mem hi)

/-! ## Runs -/

/-- The frame opens a block if it is one of progress, has a closed block if it is the last of its stream, and
    has no block if it is a message of its own. -/
def Frame.Tagged : Frame → Prop
  | .stream content false => tags content = [.opening]
  | .stream content true => tags content = [.opening, .closing]
  | .markdown text => tags text = []

/-- No text of the reply has a tag. -/
structure InFlightReply.Clean (r : InFlightReply) : Prop where
  steps : Tagless r.steps
  notice : ∀ l ∈ r.pendingNotice, tags l = []
  waiting : ∀ l ∈ r.waiting, tags l = []

/-- The invariant of a run. -/
structure Bubble.Clean (b : Bubble) : Prop where
  reply : ∀ r ∈ b.reply, r.Clean
  frames : ∀ f ∈ b.frames, f.Tagged
  followups : ∀ segments ∈ b.followups, Tagless segments

private theorem Bubble.Clean.send {b b' : Bubble} (h : b.Clean) {f : Frame} (hf : f.Tagged)
    (hreply : b'.reply = b.reply) (hframes : b'.frames = b.frames ++ [f])
    (hfollowups : b'.followups = b.followups) : b'.Clean := by
  refine ⟨hreply ▸ h.reply, fun g hg => ?_, hfollowups ▸ h.followups⟩
  rcases List.mem_append.mp (hframes ▸ hg) with hg | hg
  · exact h.frames g hg
  · rw [List.mem_singleton.mp hg]
    exact hf

private theorem Bubble.Clean.gone {b b' : Bubble} (h : b.Clean) (hreply : b'.reply = none)
    (hframes : b'.frames = b.frames) (hfollowups : b'.followups = b.followups) : b'.Clean := by
  refine ⟨fun r hr => ?_, hframes ▸ h.frames, hfollowups ▸ h.followups⟩
  rw [hreply] at hr
  cases hr

private theorem tags_stillRunning (elapsed : UInt64) {notice : Option Str} (h : ∀ l ∈ notice, tags l = []) :
    tags (stillRunningCloseWithNotice elapsed notice) = [] := by
  have hdigits (n : Nat) : '<' ∉ JsonText.natText n := fun h =>
    absurd (JsonText.isDigit_of_mem_natText h) (by decide)
  have happend (a b c : Str) (ha : '<' ∉ a) (hb : '<' ∉ b) (hc : '<' ∉ c) : '<' ∉ a ++ b ++ c := by
    simp [ha, hb, hc]
  have htext : '<' ∉ stillRunningCloseText elapsed := happend _ _ _ (by decide) (hdigits _) (by decide)
  rw [stillRunningCloseWithNotice]
  split
  · next n _ heq =>
    have hn : tags n = [] := tagless_nonBlank h n (by rw [heq]; exact List.mem_cons_self)
    rw [List.append_assoc, tags_append_of_notMem htext, tags_append_of_notMem (by decide), hn]
  · exact tags_of_notMem htext

theorem Bubble.Clean.refreshProgress {b : Bubble} (h : b.Clean) (now : Nat) : (refreshProgress b now).Clean := by
  rw [WeCom.refreshProgress]
  split
  · exact h
  · next r hr =>
    have hclean := h.reply r (by rw [hr]; rfl)
    split
    · exact h
    · split
      · have hline : tags ("⏳ 已用时 ".toList ++ formatElapsed (r.elapsed now)) = [] :=
          tags_elapsed (by decide) _
        have hclosing := tags_thinkClosedWith hclean.steps hline (tags_stillRunning (r.elapsed now) hclean.notice)
        exact @Bubble.Clean.send _ _ h (.stream _ true) hclosing rfl rfl rfl
      · have hopen := tags_progressThinkFrame hclean.steps (r.elapsed now) hclean.notice hclean.waiting
        exact @Bubble.Clean.send _ _ h (.stream _ false) hopen rfl rfl rfl

private theorem Bubble.Clean.changeOpen {b : Bubble} (h : b.Clean) {f : InFlightReply → InFlightReply}
    (hf : ∀ r : InFlightReply, r.Clean → (f r).Clean) (now : Nat) : (changeOpen b f now).Clean := by
  rw [WeCom.changeOpen]
  split
  · next r hr =>
    split
    · exact h
    · have hchanged : ({ b with reply := some (f r) } : Bubble).Clean := by
        refine ⟨fun r' hr' => ?_, h.frames, h.followups⟩
        rw [← Option.some.inj hr']
        exact hf r (h.reply r (by rw [hr]; rfl))
      exact hchanged.refreshProgress now
  · exact h

private theorem Bubble.Clean.sendSegment {b : Bubble} (h : b.Clean) {segments : List Str}
    (hsegments : Tagless segments) : (sendSegment b segments).Clean := by
  cases segments with
  | nil => exact h
  | cons segment rest =>
    refine ⟨h.reply, fun f hf => ?_, fun more hmore => ?_⟩
    · rcases List.mem_append.mp hf with hf | hf
      · exact h.frames f hf
      · rw [List.mem_singleton.mp hf]
        exact hsegments segment List.mem_cons_self
    · rcases List.mem_append.mp hmore with hmore | hmore
      · exact h.followups more hmore
      · rw [List.mem_singleton.mp hmore]
        exact fun l hl => hsegments l (List.mem_cons_of_mem _ hl)

private theorem Bubble.Clean.sendAnswerFollowup {b : Bubble} (h : b.Clean) (text : Str) :
    (sendAnswerFollowup b text).Clean :=
  h.sendSegment (tagless_segments (tags_escapeThinkTags text))

/-- A segment is followed by the next one, or by the fallback notice. -/
private theorem Bubble.Clean.segmentSent {b : Bubble} (h : b.Clean) (i : Nat) (ok : Bool) :
    (segmentSent b i ok).Clean := by
  rw [WeCom.segmentSent]
  split
  · exact h
  · next rest hrest =>
    have herased : ({ b with followups := b.followups.eraseIdx i } : Bubble).Clean :=
      ⟨h.reply, h.frames, fun more hmore => h.followups more (List.mem_of_mem_eraseIdx hmore)⟩
    dsimp only
    split
    · exact herased.sendSegment (h.followups rest (List.mem_of_getElem? hrest))
    · have hfallback : (Frame.markdown FALLBACK_SEE_SESSION).Tagged :=
        @tags_of_notMem FALLBACK_SEE_SESSION (by decide)
      exact herased.send hfallback rfl rfl rfl

theorem Bubble.Clean.finishReply {b : Bubble} (h : b.Clean) (turnEnd : TurnEnd) (text : Str) (now : Nat) :
    (finishReply b turnEnd text now).Clean := by
  have hgone : ({ b with reply := none } : Bubble).Clean := h.gone rfl rfl rfl
  rw [WeCom.finishReply]
  split
  · exact h
  · next r hr =>
    have hclean := h.reply r (by rw [hr]; rfl)
    split
    · cases turnEnd with
      | noAnswer =>
        have hcancelled : (Frame.markdown PROGRESS_CANCELLED).Tagged :=
          @tags_of_notMem PROGRESS_CANCELLED (by decide)
        exact hgone.send hcancelled rfl rfl rfl
      | answered =>
        dsimp only
        split
        · exact hgone
        · exact hgone.sendAnswerFollowup text
    · -- an open bubble is finished by one frame, and the message waits for its ack
      obtain ⟨lines, shown, hfinish⟩ := exists_streamFinish turnEnd text r.steps (r.elapsed now)
      have hclosed := hfinish.tags_eq hclean.steps (tags_closingLine _ _) (tags_closingBody _ _)
      exact @Bubble.Clean.send _ _ h (.stream _ true) hclosed rfl rfl rfl

/-- A line of the agent has no tag. -/
private theorem tags_progressStepLine {step line : Str} (h : progressStepLine step = some line) :
    tags line = [] := by
  rw [progressStepLine] at h
  split at h
  · cases h
  · rw [← Option.some.inj h]
    exact tags_escapeThinkTags _

/-- One input keeps the invariant. -/
theorem Bubble.Clean.step {b : Bubble} (h : b.Clean) (i : BubbleInput) : (b.step i).Clean := by
  cases i with
  | addStep step now =>
    rw [Bubble.step]
    split
    · exact h
    · next line hline =>
      split
      · exact h
      · have hadd (r : InFlightReply) (hr : r.Clean) :
            InFlightReply.Clean { r with steps := r.steps ++ [line], waiting := none } := by
          refine ⟨hr.steps.append (tagless_singleton (tags_progressStepLine hline)), hr.notice, ?_⟩
          intro l hl
          cases hl
        exact h.changeOpen hadd now
  | setWaiting question now =>
    have hset (r : InFlightReply) (hr : r.Clean) :
        InFlightReply.Clean { r with waiting := question.map fun q => waitingLine q.1 q.2 } := by
      refine ⟨hr.steps, hr.notice, fun l hl => ?_⟩
      obtain ⟨q, -, rfl⟩ := Option.map_eq_some_iff.mp hl
      exact tags_escapeThinkTags _
    exact h.changeOpen hset now
  | piggybackNotice text now =>
    have hset (r : InFlightReply) (hr : r.Clean) :
        InFlightReply.Clean { r with pendingNotice := some (escapeThinkTags text) } := by
      refine ⟨hr.steps, fun l hl => ?_, hr.waiting⟩
      rw [← Option.some.inj hl]
      exact tags_escapeThinkTags _
    exact h.changeOpen hset now
  | refresh now => exact h.refreshProgress now
  -- a closed bubble keeps its texts for the message that may follow
  | closed =>
    rw [Bubble.step]
    split
    · exact h
    · refine ⟨fun r hr => ?_, h.frames, h.followups⟩
      obtain ⟨r₀, hr₀, rfl⟩ := Option.map_eq_some_iff.mp hr
      have hclean := h.reply r₀ hr₀
      exact ⟨hclean.steps, hclean.notice, hclean.waiting⟩
  | finish turnEnd text now => exact h.finishReply turnEnd text now
  | finished acked =>
    rw [Bubble.step]
    split
    · exact h
    · have hgone (rest : List Str) : ({ b with reply := none, finishing := rest } : Bubble).Clean :=
        h.gone rfl rfl rfl
      dsimp only
      split
      · exact hgone _
      · exact (hgone _).sendAnswerFollowup _
  | sent i ok => exact h.segmentSent i ok

/-- Whatever the agent, the questions and the notices say, each frame has its own tags and no others: the open
    block of a bubble at work, the closed block of its last frame, none in a message of its own. -/
theorem frames_tagged (openedAt deadline : Nat) (inputs : List BubbleInput) :
    ∀ f ∈ ((bubble openedAt deadline).run inputs).frames, f.Tagged := by
  have hnone (l : Str) (hl : l ∈ (none : Option Str)) : tags l = [] := by cases hl
  have hfirst : firstFrame.Tagged := tags_progressThinkFrame (List.forall_mem_nil _) 0 hnone hnone
  have hinit : (bubble openedAt deadline).init.Clean := by
    refine ⟨fun r hr => ?_, fun f hf => ?_, List.forall_mem_nil _⟩
    · rw [← Option.some.inj hr]
      exact ⟨List.forall_mem_nil _, hnone, hnone⟩
    · rw [List.mem_singleton.mp hf]
      exact hfirst
  have hstep (b : Bubble) (i : BubbleInput) (h : b.Clean) (_ : True) :
      ((bubble openedAt deadline).step b i).Clean := Bubble.Clean.step h i
  exact (Machine.invariant_runFrom hstep hinit ((bubble openedAt deadline).steps_true _ inputs)).frames

/-- The frame that shows a notice with a tag in it. -/
theorem frames_tagged_notice :
    Frame.Tagged (.stream (progressThinkFrame [] 2 (some (escapeThinkTags "</THINK> it".toList)) none) false) :=
  frames_tagged 0 1000000 [.piggybackNotice "</THINK> it".toList 2000] _
    (List.mem_cons_of_mem _ List.mem_cons_self)

/-- What is there to read at the end of a turn. -/
def answerOf (turnEnd : TurnEnd) (text : Str) : Str :=
  match turnEnd with
  | .noAnswer => PROGRESS_CANCELLED
  | .answered => if Str.trim text = [] then PROGRESS_DONE else Str.trim text

private theorem visible_closingBody (turnEnd : TurnEnd) (text : Str) :
    visible (closingBody turnEnd text) = visible (answerOf turnEnd text) := by
  cases turnEnd with
  | noAnswer => rfl
  | answered =>
    rw [closingBody, answerOf, answerBody]
    split
    · rfl
    · exact visible_escapeThinkTags _

/-- A bubble ends with a closed block that is within the limit of the API, its closing line at the end.  The
    answer is below it: the whole of it wherever it fits below the closing line, else a beginning. -/
theorem finish_whole (turnEnd : TurnEnd) (text : Str) (steps : List Str) (elapsed : UInt64) :
    ∃ lines shown, Finishes (streamFinishContent turnEnd text steps elapsed) steps (closingLine turnEnd elapsed)
      (closingBody turnEnd text) lines shown ∧ visible shown <+: visible (answerOf turnEnd text) ∧
      (Str.utf8Len (closedBlock [closingLine turnEnd elapsed] (closingBody turnEnd text)) ≤
        WECOM_CONTENT_MAX_BYTES → visible shown = visible (answerOf turnEnd text)) := by
  obtain ⟨lines, shown, hfinish⟩ := exists_streamFinish turnEnd text steps elapsed
  rw [← visible_closingBody]
  refine ⟨lines, shown, hfinish, hfinish.shown_isPrefix.filter _, fun hfits => ?_⟩
  rw [hfinish.shown_isPrefix.eq_of_length_le (hfinish.longest _ List.prefix_rfl hfits).length_le]

end TeamClu.WeCom
