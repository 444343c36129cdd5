import Mathlib.Data.List.Chain
import TeamClu.ForStd.Chunks
import TeamClu.Native.SeaTalkStream

/-!
# A streamed reply is shown whole and once

While every text extends the one before it, the closed messages hold full chunks of the reply and the open
message the rest (`Synced`); a call that fails leaves a beginning of the reply on screen, which is what
`shown` says.  The plain text at the end is what is missing.

A frame is longer than the limit exactly when a text has at most as many chunks as messages are closed and
does not fit into one: then the whole text is sent as one frame.

## Key results

- `splitAt_eq_chunks`: `split_at` is the division into chunks of `limit` characters
- `sendFrames_spec`: how far the frames of a text bring the thread, whichever call fails
- `showPreview_fine`, `showFinal_whole`: what one preview keeps, and what the end shows
- `reply_whole_iff`: when a reply is shown whole and in frames that keep the limit
-/

namespace TeamClu.SeaTalk

variable {answers : Answers} {limit : Nat}

/-! ## Chunks -/

/-- The loop of `split_at`, when `current` is what has been read since the last cut. -/
private theorem splitLoop_eq_chunks {n : Nat} (text : Str) :
    ∀ {k : Nat} {current : Str}, current.length ≤ n + 1 → (current = [] → k = 0) →
      splitLoop (n + 1) (k * (n + 1) + current.length) current text =
        Chunks.chunks n (current ++ text) := by
  induction text with
  | nil =>
    intro k current hlen _
    rw [splitLoop, List.append_nil]
    split
    · next hnil => rw [hnil, Chunks.chunks_nil]
    · next hne => rw [Chunks.chunks_of_length_le hne hlen]
  | cons c cs ih =>
    intro k current hlen hnil
    rw [splitLoop, Nat.mul_add_mod_self_right]
    split
    · next hcut =>
      -- A cut: `current` is full.
      have hfull : current.length = n + 1 := by
        by_contra hne
        rw [Nat.mod_eq_of_lt (by omega), List.length_eq_zero_iff] at hcut
        have hk := hnil hcut.2
        simp [hk, hcut.2] at hcut
      have hnext := @ih (k + 1) [c] (by simp) (by simp)
      have hcount : (k + 1) * (n + 1) + [c].length = k * (n + 1) + current.length + 1 := by
        rw [Nat.add_mul k 1, hfull, Nat.one_mul, List.length_singleton]
      rw [Chunks.chunks_append hfull, ← hcount]
      exact congrArg (current :: ·) hnext
    · next hcut =>
      have hshort : current.length < n + 1 := by
        refine Nat.lt_of_le_of_ne hlen fun hfull => hcut ⟨by omega, ?_⟩
        rw [hfull, Nat.mod_self]
      have hnext := @ih k (current ++ [c])
        (by rw [List.length_append, List.length_singleton]; exact hshort) (by simp)
      have hsplit : current ++ c :: cs = current ++ [c] ++ cs := by simp
      rw [hsplit, ← hnext, List.length_append, List.length_singleton, ← Nat.add_assoc]

/-- `split_at` divides a text into chunks of `limit` characters. -/
theorem splitAt_eq_chunks (text : Str) (hlimit : 1 ≤ limit) :
    splitAt text limit = Chunks.chunks (limit - 1) text := by
  obtain ⟨n, rfl⟩ : ∃ n, limit = n + 1 := ⟨limit - 1, by omega⟩
  have h := @splitLoop_eq_chunks n text 0 [] (Nat.zero_le _) fun _ => rfl
  rw [splitAt, if_neg (Nat.succ_ne_zero n), Nat.add_sub_cancel, ← List.nil_append text, ← h]
  simp

/-! ## The frames of one text -/

/-- `Visible` holds what the thread shows. -/
structure Tracked (visible : Visible) (thread : Thread) : Prop where
  closed : visible.closed = thread.messages.flatten
  opened : visible.opened = thread.opened.getD []

theorem Tracked.full {visible : Visible} {thread : Thread} (h : Tracked visible thread) :
    visible.full = thread.visible := by
  rw [Visible.full, Thread.visible, h.closed, h.opened]

/-- A frame that is sent shows nothing yet. -/
@[simp] theorem Thread.visible_send (thread : Thread) (frame : Frame) :
    (thread.send frame).visible = thread.visible := rfl

theorem Tracked.send {visible : Visible} {thread : Thread} (h : Tracked visible thread)
    (frame : Frame) : Tracked visible (thread.send frame) := ⟨h.closed, h.opened⟩

/-- The frames that are to be sent, of the chunks `rest` of a text, the thread and the worker agree. -/
structure Sending (limit : Nat) (text : Str) (finish : Bool) (rest : List Str) (closed : Nat)
    (snapshot : Str) (stream : Option Stream) (visible : Visible) (advanced : Bool) (live : Live)
    (thread : Thread) : Prop where
  stream : stream.isSome = true
  tracked : Tracked visible thread
  whole : thread.messages.flatten ++ rest.flatten = text
  shown : thread.visible <+: text
  /-- The open message holds the snapshot, or the placeholder is still open. -/
  opened : thread.opened = some snapshot ∨
    thread.opened = none ∧ (finish = true ∨ rest ≠ [snapshot])
  remembered : advanced = false → live.shown = thread.visible
  pending : rest ≠ []
  full : thread.messages.flatten.length = closed * limit
  chunks : ∀ chunk ∈ rest.dropLast, chunk.length = limit
  nonempty : ∀ chunk ∈ rest, chunk ≠ []

/-- What sending the frames of a text ends with. -/
def Sent (limit : Nat) (text : Str) (finish : Bool) (plan : Plan) (before : Live × Thread) :
    Except Str (Option Stream) × Live × Thread → Prop
  | (.error _, live, thread) =>
    live.stream = none ∧ live.shown = thread.visible ∧ thread.visible <+: text ∧
      thread.plain = before.2.plain
  | (.ok stream, live, thread) =>
    live.broken = before.1.broken ∧ thread.visible = text ∧ thread.plain = before.2.plain ∧
      (finish = false → stream.isSome = true ∧ thread.opened = some plan.snapshot ∧
        plan.snapshot ≠ [] ∧ thread.messages.flatten.length = plan.closed * limit)

/-- A call that fails leaves the reply as far as it got. -/
private theorem sent_failed {text : Str} {finish advanced : Bool} {plan : Plan} {before : Live × Thread}
    {error : Str} {live : Live} {visible : Visible} {thread : Thread} (htracked : Tracked visible thread)
    (hshown : thread.visible <+: text) (hremembered : advanced = false → live.shown = thread.visible)
    (hplain : thread.plain = before.2.plain) :
    Sent limit text finish plan before (.error error, rememberPartial live visible advanced, thread) := by
  cases advanced with
  | false => exact ⟨rfl, hremembered rfl, hshown, hplain⟩
  | true => exact ⟨rfl, htracked.full, hshown, hplain⟩

/-- Sending the frames of a text: all of it is shown, or the call that fails leaves a beginning of it,
    which the worker remembers. -/
theorem sendFrames_spec (answers : Answers) {text : Str} {finish : Bool} (rest : List Str) :
    ∀ {closed : Nat} {snapshot : Str} {stream : Option Stream} {visible : Visible} {advanced : Bool}
      {live : Live} {thread : Thread},
      Sending limit text finish rest closed snapshot stream visible advanced live thread →
      Sent limit text finish (framesFrom finish closed snapshot rest) (live, thread)
        (sendFrames answers (framesFrom finish closed snapshot rest).frames stream visible advanced live
          thread) := by
  induction rest with
  | nil => exact fun h => absurd rfl h.pending
  | cons chunk rest ih =>
    intro closed snapshot stream visible advanced live thread h
    obtain ⟨active, rfl⟩ := Option.isSome_iff_exists.mp h.stream
    cases rest with
    | nil =>
      have htext : thread.messages.flatten ++ chunk = text := by simpa using h.whole
      have hne : chunk ≠ [] := h.nonempty chunk List.mem_cons_self
      rw [framesFrom]
      dsimp only
      split
      · next hpush =>
        -- The last chunk replaces the open message.
        rw [sendFrames]
        cases answers thread.calls with
        | error error => exact sent_failed (h.tracked.send _) h.shown h.remembered rfl
        | ok ids =>
          cases finish with
          | true =>
            refine ⟨rfl, ?_, rfl, fun hfalse => nomatch hfalse⟩
            simpa [Thread.visible, Thread.apply, Thread.send] using htext
          | false => exact ⟨rfl, htext, rfl, fun _ => ⟨rfl, rfl, hne, h.full⟩⟩
      · next hpush =>
        -- The open message holds the last chunk already.
        rw [not_or, not_not, Bool.not_eq_true] at hpush
        obtain ⟨rfl, rfl⟩ := hpush
        have hopened : thread.opened = some chunk := by
          rcases h.opened with hopened | ⟨-, hfalse | hne⟩
          · exact hopened
          · cases hfalse
          · exact absurd rfl hne
        refine ⟨rfl, ?_, rfl, fun _ => ⟨rfl, hopened, hne, h.full⟩⟩
        rw [Thread.visible, hopened]
        exact htext
    | cons next rest =>
      rw [framesFrom]
      dsimp only
      rw [sendFrames]
      cases answers thread.calls with
      | error error => exact sent_failed (h.tracked.send _) h.shown h.remembered rfl
      | ok ids =>
        -- The open message is closed with its chunk; now the next one is opened.
        let closedThread := (thread.send (.update chunk true)).apply (.update chunk true)
        have hflatten : closedThread.messages.flatten = thread.messages.flatten ++ chunk := by
          simp [closedThread, Thread.apply, Thread.send]
        have htracked : Tracked (visible.apply (.update chunk true)) closedThread :=
          ⟨by rw [hflatten, ← h.tracked.closed]; rfl, rfl⟩
        have hvisible : closedThread.visible = thread.messages.flatten ++ chunk :=
          (List.append_nil _).trans hflatten
        have hshown : closedThread.visible <+: text := by
          rw [hvisible, ← h.whole, List.flatten_cons, ← List.append_assoc]
          exact List.prefix_append _ _
        have hfailed : ∀ error, Sent limit text finish
            (framesFrom finish closed snapshot (chunk :: next :: rest)) (live, thread)
            (.error error, rememberPartial
              { live with replyIds := noteFinishId live.replyIds ids.head? true }
              (visible.apply (.update chunk true)) true, closedThread.send (.init next)) :=
          fun error => sent_failed (htracked.send _) hshown (fun hfalse => nomatch hfalse) rfl
        change Sent _ _ _ _ _ (sendFrames answers (.init next :: _) none _ true _ closedThread)
        rw [sendFrames]
        cases hinit : answers closedThread.calls with
        | error error => exact hfailed error
        | ok ids' =>
          cases ids' with
          | nil => exact hfailed _
          | cons id ids' =>
            let opened := (closedThread.send (.init next)).apply (.init next)
            have hmessages : opened.messages.flatten = thread.messages.flatten ++ chunk := by
              rw [← hflatten]
              simp [opened, closedThread, Thread.apply, Thread.send]
            have hnext := @ih (closed + 1) next (some ⟨id, 0⟩)
              ((visible.apply (.update chunk true)).apply (.init next)) true
              { live with replyIds := noteFinishId live.replyIds ids.head? true } opened
              { stream := rfl
                tracked := ⟨by rw [hmessages, ← hflatten]; exact htracked.closed, rfl⟩
                whole := by rw [hmessages, ← h.whole, List.append_assoc]; rfl
                shown := ?_
                opened := .inl rfl
                remembered := fun hfalse => nomatch hfalse
                pending := List.cons_ne_nil _ _
                full := ?_
                chunks := fun c hc => h.chunks c (List.mem_cons_of_mem _ hc)
                nonempty := fun c hc => h.nonempty c (List.mem_cons_of_mem _ hc) }
            · exact hnext
            · rw [Thread.visible, hmessages, ← h.whole, List.flatten_cons, List.flatten_cons]
              exact ⟨rest.flatten, by simp [opened, Thread.apply]⟩
            · rw [hmessages, List.length_append, h.full, h.chunks chunk List.mem_cons_self, Nat.add_mul,
                Nat.one_mul]

/-! ## One text -/

/-- The worker with an open stream: the closed messages are full, and what is shown is what the thread
    shows. -/
structure Synced (limit : Nat) (live : Live) (thread : Thread) : Prop where
  stream : live.stream.isSome = true
  unbroken : live.broken = false
  visible : thread.visible = live.shown
  full : thread.messages.flatten.length = live.closed * limit
  opened : thread.opened = some live.snapshot ∧ live.snapshot ≠ [] ∨
    thread.opened = none ∧ thread.messages = []

/-- What the worker remembers of the screen is what the thread shows. -/
theorem Synced.tracked {live : Live} {thread : Thread} (h : Synced limit live thread) :
    Tracked (Visible.fromShown live.shown live.snapshot) thread := by
  rw [Visible.fromShown, ← h.visible, Thread.visible]
  rcases h.opened with ⟨hopened, hne⟩ | ⟨hopened, hmessages⟩
  · have hsuffix : live.snapshot.isSuffixOf (thread.messages.flatten ++ live.snapshot) = true :=
      List.isSuffixOf_iff_suffix.mpr (List.suffix_append _ _)
    simp only [hopened, Option.getD_some]
    rw [if_neg (by simp [hne]), if_pos hsuffix]
    refine ⟨?_, by rw [hopened]; rfl⟩
    rw [List.length_append, Nat.add_sub_cancel, List.take_left]
  · rw [hopened, hmessages]
    exact ⟨by simp [hmessages], by simp [hopened]⟩

/-- The chunks of a longer text are the messages already closed and those still to be sent. -/
private theorem Synced.framesFor {live : Live} {thread : Thread} {text : Str} (finish : Bool)
    (h : Synced limit live thread) (hlimit : 1 ≤ limit) (htext : live.shown <+: text) (hne : text ≠ []) :
    ∃ rest, framesFor live.closed live.snapshot text finish limit =
        framesFrom finish live.closed live.snapshot rest ∧ rest ≠ [] ∧
      thread.messages.flatten ++ rest.flatten = text ∧
      (∀ chunk ∈ rest.dropLast, chunk.length = limit) ∧ ∀ chunk ∈ rest, chunk ≠ [] := by
  obtain ⟨n, rfl⟩ : ∃ n, limit = n + 1 := ⟨limit - 1, by omega⟩
  have hchunks := splitAt_eq_chunks text hlimit
  rw [Nat.add_sub_cancel] at hchunks
  -- The closed messages are the beginning of the text.
  have hclosed : thread.messages.flatten <+: text :=
    (h.visible ▸ List.prefix_append _ _ : thread.messages.flatten <+: live.shown).trans htext
  have hshort : live.closed * (n + 1) < text.length := by
    rw [← h.full]
    rcases h.opened with ⟨hopened, hsnapshot⟩ | ⟨-, hmessages⟩
    · have hlen := htext.length_le
      rw [← h.visible, Thread.visible, hopened, Option.getD_some, List.length_append] at hlen
      have := List.length_pos_iff.mpr hsnapshot
      omega
    · simpa [hmessages] using List.length_pos_iff.mpr hne
  have hcount : live.closed < (splitAt text (n + 1)).length := by
    rw [hchunks]
    exact Nat.lt_of_mul_lt_mul_right (hshort.trans_le (Chunks.length_chunks_mul n text))
  have hdrop : (splitAt text (n + 1)).drop live.closed =
      Chunks.chunks n (text.drop (live.closed * (n + 1))) := by
    rw [hchunks, Chunks.drop_chunks]
  refine ⟨(splitAt text (n + 1)).drop live.closed, ?_, ?_, ?_, ?_, ?_⟩
  · rw [SeaTalk.framesFor]
    dsimp only
    rw [if_neg (List.length_pos_iff.mp (Nat.zero_lt_of_lt hcount)), Nat.min_eq_left hcount.le,
      if_neg (Nat.not_le.mpr hcount)]
  · exact fun hnil => absurd (List.drop_eq_nil_iff.mp hnil) (Nat.not_le.mpr hcount)
  · rw [hdrop, Chunks.flatten_chunks, ← h.full]
    obtain ⟨t, rfl⟩ := hclosed
    rw [List.drop_left]
  · rw [hdrop]
    exact fun chunk hchunk => Chunks.length_of_mem_dropLast_chunks hchunk
  · rw [hdrop]
    exact fun chunk hchunk => (Chunks.of_mem_chunks hchunk).1

/-- What publishing a text ends with. -/
def Published (limit : Nat) (text : Str) (finish : Bool) (before : Live × Thread) :
    Except Str Unit × Live × Thread → Prop
  | (.error _, live, thread) =>
    live.stream = none ∧ live.shown = thread.visible ∧ thread.visible <+: text ∧
      thread.plain = before.2.plain
  | (.ok (), live, thread) =>
    live.shown = text ∧ thread.visible = text ∧ thread.plain = before.2.plain ∧
      (finish = false → Synced limit live thread)

/-- Publishing a text that extends what is shown. -/
theorem publish_spec (answers : Answers) {live : Live} {thread : Thread} {text : Str} (finish : Bool)
    (h : Synced limit live thread) (hlimit : 1 ≤ limit) (htext : live.shown <+: text) (hne : text ≠ [])
    (hchanged : finish = true ∨ text ≠ live.snapshot) :
    Published limit text finish (live, thread) (publish answers limit live thread text finish) := by
  obtain ⟨rest, hframes, hrest, hwhole, hchunks, hnonempty⟩ := h.framesFor finish hlimit htext hne
  have hsending : Sending limit text finish rest live.closed live.snapshot live.stream
      (Visible.fromShown live.shown live.snapshot) false { live with stream := none } thread :=
    { stream := h.stream
      tracked := h.tracked
      whole := hwhole
      shown := h.visible ▸ htext
      opened := by
        rcases h.opened with ⟨hopened, -⟩ | ⟨hopened, hmessages⟩
        · exact .inl hopened
        · refine .inr ⟨hopened, hchanged.imp_right fun hchanged hrest => hchanged ?_⟩
          rw [← hwhole, hmessages, hrest]
          simp
      remembered := fun _ => h.visible.symm
      pending := hrest
      full := h.full
      chunks := hchunks
      nonempty := hnonempty }
  have hsent := sendFrames_spec answers rest hsending
  rw [publish, hframes]
  revert hsent
  generalize sendFrames answers _ _ _ _ _ _ = result
  obtain ⟨(error | stream), live', thread'⟩ := result
  · exact id
  · rintro ⟨hbroken, hvisible, hplain, hopened⟩
    refine ⟨rfl, hvisible, hplain, fun hfinish => ?_⟩
    obtain ⟨hstream, hopen, hsnapshot, hfull⟩ := hopened hfinish
    exact
      { stream := hstream
        unbroken := hbroken.trans h.unbroken
        visible := hvisible
        full := hfull
        opened := .inl ⟨hopen, hsnapshot⟩ }

/-! ## Previews -/

/-- The worker between two texts: the stream is open and in step, or a call has failed and the worker knows
    what is on screen.  `text` is the last text. -/
structure InStep (limit : Nat) (reply : Live × Thread) (text : Str) : Prop where
  state : Synced limit reply.1 reply.2 ∨
    reply.1.stream = none ∧ reply.1.broken = true ∧ reply.2.visible = reply.1.shown
  shown : reply.1.shown <+: text
  plain : reply.2.plain = []

/-- The thread shows what the worker has noted. -/
theorem InStep.visible {reply : Live × Thread} {text : Str} (h : InStep limit reply text) :
    reply.2.visible = reply.1.shown := h.state.elim (·.visible) (·.2.2)

/-- At the start only the placeholder is open. -/
theorem startReply_inStep (stream : Stream) (thinking : Str) :
    InStep limit (startReply stream thinking) [] where
  state := .inl
    { stream := rfl
      unbroken := rfl
      visible := rfl
      full := by simp [startReply]
      opened := .inr ⟨rfl, rfl⟩ }
  shown := List.prefix_rfl
  plain := rfl

/-- The empty text is blank. -/
@[simp] theorem isBlank_nil : isBlank [] = true := rfl

/-- A preview that extends the text before it keeps worker and thread in step. -/
theorem showPreview_inStep {reply : Live × Thread} {before text : Str} (hlimit : 1 ≤ limit)
    (h : InStep limit reply before) (hextends : before <+: text) :
    InStep limit (showPreview answers limit reply text) text := by
  have hshown := h.shown.trans hextends
  rw [showPreview]
  split
  · exact ⟨h.state, hshown, h.plain⟩
  · next hskips =>
    simp only [skips, Bool.or_eq_true, beq_iff_eq, not_or, Bool.not_eq_true] at hskips
    obtain ⟨⟨hunbroken, hblank⟩, hchanged⟩ := hskips
    have hne : text ≠ [] := by
      rintro rfl
      cases hblank
    have hsynced : Synced limit reply.1 reply.2 := by
      refine h.state.resolve_right fun hbroken => ?_
      rw [hunbroken] at hbroken
      cases hbroken.2.1
    have hpublished := publish_spec answers false hsynced hlimit hshown hne (.inr hchanged)
    revert hpublished
    generalize publish answers limit reply.1 reply.2 text false = result
    obtain ⟨(error | ⟨⟩), live, thread⟩ := result
    · rintro ⟨-, hvisible, htext, hplain⟩
      exact ⟨.inr ⟨rfl, rfl, hvisible.symm⟩, hvisible ▸ htext, hplain.trans h.plain⟩
    · rintro ⟨htext, -, hplain, hsynced⟩
      exact ⟨.inl (hsynced rfl), htext ▸ List.prefix_rfl, hplain.trans h.plain⟩

/-- Previews that extend each other keep worker and thread in step. -/
theorem showPreviews_inStep (answers : Answers) {reply : Live × Thread} {before : Str} {texts : List Str} (hlimit : 1 ≤ limit)
    (h : InStep limit reply before) (hchain : List.IsChain (· <+: ·) (before :: texts)) :
    InStep limit (showPreviews answers limit reply texts) (texts.getLastD before) := by
  induction texts generalizing reply before with
  | nil => exact h
  | cons text texts ih =>
    rw [List.isChain_cons_cons] at hchain
    rw [List.getLastD_cons]
    exact ih (showPreview_inStep hlimit h hchain.1) hchain.2

/-! ## The end of a reply -/

/-- `text` is what is shown and then what is sent, but for white space around what is sent. -/
def Joined (shown sent text : Str) : Prop :=
  ∃ lead trail, text = shown ++ lead ++ sent ++ trail ∧ ∀ c ∈ lead ++ trail, Str.isWhiteSpace c = true

/-- What a reply ends with: the thread shows what the worker has noted, a beginning of the text, and when
    the end succeeds then the plain text is the rest of it. -/
structure Ended (text : Str) (result : Except Str Unit × Live × Thread) : Prop where
  visible : result.2.2.visible = result.2.1.shown
  shown : result.2.1.shown <+: text
  joined : result.1 = .ok () → Joined result.2.2.visible result.2.2.plain.flatten text

/-- The plain text is what is missing. -/
theorem sendPlain_ended {live : Live} {thread : Thread} {text : Str} (hvisible : thread.visible = live.shown)
    (hshown : live.shown <+: text) (hplain : thread.plain = []) :
    Ended text (sendPlain answers live thread text) := by
  have hjoined : ∀ rest, unsentReply live.shown text = rest →
      Joined live.shown (rest.getD []) text := by
    rintro rest rfl
    obtain ⟨tail, rfl⟩ := hshown
    rw [unsentReply]
    split
    · next hnil => exact ⟨[], [], by simp [hnil], by simp⟩
    · rw [if_pos (List.isPrefixOf_iff_prefix.mpr (List.prefix_append _ _)), List.drop_left]
      obtain ⟨lead, trail, htail, hwhite⟩ := Str.exists_append_trim tail
      refine ⟨lead, trail, ?_, hwhite⟩
      dsimp only
      split
      · next hnil =>
        rw [hnil] at htail
        rw [htail]
        simp
      · rw [Option.getD_some, List.append_assoc live.shown, List.append_assoc live.shown, ← htail]
  rw [sendPlain]
  split
  · next hrest =>
    refine ⟨hvisible, hshown, fun _ => ?_⟩
    rw [hplain, hvisible]
    exact hjoined none hrest
  · next rest hrest =>
    dsimp only
    split
    · exact ⟨hvisible, hshown, fun hok => by cases hok⟩
    · refine ⟨hvisible, hshown, fun _ => ?_⟩
      have hsent : (thread.plain ++ [rest]).flatten = rest := by simp [hplain]
      change Joined thread.visible (thread.plain ++ [rest]).flatten text
      rw [hsent, hvisible]
      exact hjoined (some rest) hrest

/-- The final text extends what is shown, whether it is blank or not. -/
private theorem prefix_finalText (finished : Str) {shown text : Str} (h : shown <+: text) :
    shown <+: finalText finished shown text := by
  rw [finalText]
  split
  · split
    · next hnil => exact hnil ▸ List.nil_prefix
    · exact List.prefix_rfl
  · exact h

/-- Publishing the empty text sends nothing. -/
private theorem publish_nil {live : Live} {thread : Thread} (finish : Bool) (hlimit : 1 ≤ limit) :
    publish answers limit live thread [] finish = (.ok (), { live with shown := [] }, thread) := by
  have hchunks : splitAt [] limit = [] := by rw [splitAt_eq_chunks [] hlimit, Chunks.chunks_nil]
  rw [publish, framesFor, hchunks]
  rfl

/-- The end of a reply whose final text extends the previews. -/
theorem showFinal_ended {reply : Live × Thread} {before final : Str} (finished : Str) (hlimit : 1 ≤ limit)
    (h : InStep limit reply before) (hextends : before <+: final) :
    Ended (finalText finished reply.1.shown final)
      (showFinal answers limit finished reply final) := by
  have hshown := prefix_finalText finished (h.shown.trans hextends)
  rw [showFinal]
  generalize finalText finished reply.1.shown final = text at hshown ⊢
  split
  · next hstream =>
    have hsynced : Synced limit reply.1 reply.2 := by
      refine h.state.resolve_right fun hbroken => ?_
      rw [hbroken.1] at hstream
      cases hstream
    by_cases hnil : text = []
    · -- Nothing to show: nothing has been shown either.
      subst hnil
      have hvisible : reply.2.visible = [] := by rw [h.visible, List.prefix_nil.mp hshown]
      rw [publish_nil true hlimit]
      refine ⟨hvisible, List.prefix_rfl, fun _ => ⟨[], [], ?_, by simp⟩⟩
      simp [hvisible, h.plain]
    · have hpublished :=
        publish_spec answers true hsynced hlimit hshown hnil (.inl rfl)
      revert hpublished
      generalize publish answers limit reply.1 reply.2 text true = result
      obtain ⟨(error | ⟨⟩), live, thread⟩ := result
      · rintro ⟨-, hvisible, htext, hplain⟩
        exact sendPlain_ended hvisible.symm (hvisible ▸ htext) (hplain.trans h.plain)
      · rintro ⟨htext, hvisible, hplain, -⟩
        refine ⟨hvisible.trans htext.symm, htext ▸ List.prefix_rfl, fun _ => ⟨[], [], ?_, by simp⟩⟩
        simp [hvisible, hplain, h.plain]
  · exact sendPlain_ended h.visible hshown h.plain

/-! ## The frame limit -/

/-- Every frame that was sent keeps the limit. -/
def KeepsLimit (limit : Nat) (thread : Thread) : Prop := ∀ frame ∈ thread.frames, frame.length ≤ limit

/-- On an open stream, the text has more chunks than messages are closed, or it fits into one frame. -/
def Fits (limit : Nat) (live : Live) (text : Str) : Prop :=
  live.stream.isSome = true → live.closed < (splitAt text limit).length ∨ text.length ≤ limit

instance (limit : Nat) (live : Live) (text : Str) : Decidable (Fits limit live text) :=
  inferInstanceAs (Decidable (_ → _))

/-- The frames of the chunks are these chunks, and the first of them is an update. -/
private theorem framesFrom_texts {finish : Bool} (rest : List Str) :
    ∀ {closed : Nat} {snapshot : Str},
      (∀ frame ∈ (framesFrom finish closed snapshot rest).frames, frame.text ∈ rest) ∧
        ∀ chunk frames, (framesFrom finish closed snapshot rest).frames ≠ .init chunk :: frames := by
  induction rest with
  | nil => simp [framesFrom]
  | cons chunk rest ih =>
    intro closed snapshot
    cases rest with
    | nil =>
      rw [framesFrom]
      dsimp only
      split <;> simp [Frame.text]
    | cons next rest =>
      rw [framesFrom]
      refine ⟨fun frame hframe => ?_, fun _ _ h => by simp at h⟩
      dsimp only at hframe
      rw [List.mem_cons, List.mem_cons] at hframe
      rcases hframe with rfl | rfl | hframe
      · exact List.mem_cons_self
      · exact List.mem_cons_of_mem _ List.mem_cons_self
      · exact List.mem_cons_of_mem _ (ih.1 frame hframe)

/-- The frames of a text begin with an update. -/
private theorem framesFor_ne_init {closed : Nat} {snapshot text : Str} {finish : Bool} (chunk : Str)
    (frames : List Frame) : (framesFor closed snapshot text finish limit).frames ≠ .init chunk :: frames := by
  rw [framesFor]
  dsimp only
  split
  · simp
  · split
    · split <;> simp
    · exact (framesFrom_texts _).2 chunk frames

/-- The frames of a text with more chunks than messages are closed keep the limit. -/
private theorem framesFor_keeps {closed : Nat} {snapshot text : Str} {finish : Bool} (hlimit : 1 ≤ limit)
    (hfits : closed < (splitAt text limit).length ∨ text.length ≤ limit) :
    ∀ frame ∈ (framesFor closed snapshot text finish limit).frames, frame.text.length ≤ limit := by
  rw [framesFor]
  dsimp only
  split
  · simp
  · split
    · next hle =>
      have hshort : text.length ≤ limit := by
        refine hfits.resolve_left fun hlt => ?_
        omega
      split
      · intro frame hframe
        rw [List.mem_singleton.mp hframe]
        exact hshort
      · simp
    · intro frame hframe
      have hmem := List.mem_of_mem_drop ((framesFrom_texts _).1 frame hframe)
      rw [splitAt_eq_chunks text hlimit] at hmem
      have := (Chunks.of_mem_chunks hmem).2
      omega

/-- A frame that arrives was sent before. -/
@[simp] theorem Thread.frames_apply (thread : Thread) (frame : Frame) :
    (thread.apply frame).frames = thread.frames := by
  rcases frame with ⟨_, _ | _⟩ | _ <;> rfl

/-- What is sent is a beginning of the frames. -/
private theorem sendFrames_frames (answers : Answers) (frames : List Frame) :
    ∀ (stream : Option Stream) (visible : Visible) (advanced : Bool) (live : Live) (thread : Thread),
      ∃ sent, sent <+: frames.map Frame.text ∧
        (sendFrames answers frames stream visible advanced live thread).2.2.frames =
          thread.frames ++ sent := by
  induction frames with
  | nil => exact fun _ _ _ _ _ => ⟨[], List.prefix_rfl, by simp [sendFrames]⟩
  | cons frame frames ih =>
    intro stream visible advanced live thread
    have hfailed : ∃ sent, sent <+: (frame :: frames).map Frame.text ∧
        (thread.send frame).frames = thread.frames ++ sent :=
      ⟨[frame.text], by simp, rfl⟩
    have hsent : ∀ {stream : Option Stream} {visible : Visible} {live : Live},
        ∃ sent, sent <+: (frame :: frames).map Frame.text ∧
          (sendFrames answers frames stream visible true live ((thread.send frame).apply frame)).2.2.frames =
            thread.frames ++ sent := by
      intro stream visible live
      obtain ⟨sent, hsent, heq⟩ := ih stream visible true live ((thread.send frame).apply frame)
      refine ⟨frame.text :: sent, List.cons_prefix_cons.mpr ⟨rfl, hsent⟩, heq.trans ?_⟩
      simp [Thread.send]
    rcases frame with ⟨chunk, finish⟩ | chunk
    · cases stream with
      | none => exact ⟨[], List.nil_prefix, by simp [sendFrames]⟩
      | some active =>
        rw [sendFrames]
        cases answers thread.calls with
        | error error => cases advanced <;> exact hfailed
        | ok ids => exact hsent
    · rw [sendFrames]
      cases answers thread.calls with
      | error error => cases advanced <;> exact hfailed
      | ok ids =>
        cases ids with
        | nil => cases advanced <;> exact hfailed
        | cons id ids => exact hsent

/-- The thread after publishing is the one after sending the frames. -/
private theorem publish_thread (live : Live) (thread : Thread) (text : Str) (finish : Bool) :
    (publish answers limit live thread text finish).2.2 =
      (sendFrames answers (framesFor live.closed live.snapshot text finish limit).frames live.stream
        (Visible.fromShown live.shown live.snapshot) false { live with stream := none } thread).2.2 := by
  rw [publish]
  split <;> simp_all

/-- Without a stream nothing is sent. -/
private theorem publish_none {live : Live} (thread : Thread) (text : Str) (finish : Bool)
    (hstream : live.stream = none) : (publish answers limit live thread text finish).2.2 = thread := by
  rw [publish_thread, hstream]
  cases hframes : (framesFor live.closed live.snapshot text finish limit).frames with
  | nil => rfl
  | cons frame frames =>
    cases frame with
    | update chunk finish => rfl
    | init chunk => exact absurd hframes (framesFor_ne_init chunk frames)

/-- A text that does not fit is sent as one frame. -/
private theorem framesFor_overlong {closed : Nat} {snapshot text : Str} {finish : Bool} (hlimit : 1 ≤ limit)
    (hclosed : (splitAt text limit).length ≤ closed) (hlong : limit < text.length)
    (hchanged : finish = true ∨ text ≠ snapshot) :
    (framesFor closed snapshot text finish limit).frames = [.update text finish] := by
  have hchunks : splitAt text limit ≠ [] := by
    rw [splitAt_eq_chunks text hlimit, Ne, Chunks.chunks_eq_nil]
    rintro rfl
    simp at hlong
  rw [framesFor]
  dsimp only
  rw [if_neg hchunks, Nat.min_eq_right hclosed, if_pos (Nat.le_refl _), if_pos hchanged.symm]

/-- A text keeps the limit exactly when it fits. -/
theorem publish_keepsLimit (answers : Answers) {live : Live} (thread : Thread) (text : Str) (finish : Bool)
    (hlimit : 1 ≤ limit) (hchanged : finish = true ∨ text ≠ live.snapshot) :
    KeepsLimit limit (publish answers limit live thread text finish).2.2 ↔
      KeepsLimit limit thread ∧ Fits limit live text := by
  cases hstream : live.stream with
  | none => rw [publish_none thread text finish hstream, Fits, hstream]; simp
  | some active =>
    rw [publish_thread, hstream]
    obtain ⟨sent, hsent, hframes⟩ := sendFrames_frames answers
      (framesFor live.closed live.snapshot text finish limit).frames (some active)
      (Visible.fromShown live.shown live.snapshot) false { live with stream := none } thread
    constructor
    · intro hkeeps
      refine ⟨fun frame hframe => hkeeps frame (hframes ▸ List.mem_append_left sent hframe), fun _ => ?_⟩
      by_contra hfits
      rw [not_or, Nat.not_lt, Nat.not_le] at hfits
      -- The whole text is the one frame.
      rw [framesFor_overlong hlimit hfits.1 hfits.2 hchanged, sendFrames] at hkeeps
      refine absurd (hkeeps text ?_) (Nat.not_le.mpr hfits.2)
      cases answers thread.calls <;> simp [sendFrames, Thread.send, Frame.text]
    · rintro ⟨hkeeps, hfits⟩ frame hframe
      rw [hframes, List.mem_append] at hframe
      rcases hframe with hframe | hframe
      · exact hkeeps frame hframe
      · obtain ⟨frame, hmem, rfl⟩ := List.mem_map.mp (hsent.subset hframe)
        exact framesFor_keeps hlimit (hfits (by rw [hstream]; rfl)) frame hmem

/-- Whether a preview keeps the limit. -/
theorem showPreview_keepsLimit {reply : Live × Thread} {text : Str} (hlimit : 1 ≤ limit) :
    KeepsLimit limit (showPreview answers limit reply text).2 ↔
      KeepsLimit limit reply.2 ∧ (skips reply.1 text = false → Fits limit reply.1 text) := by
  rw [showPreview]
  split
  · next hskips => simp [hskips]
  · next hskips =>
    rw [Bool.not_eq_true] at hskips
    have hchanged : text ≠ reply.1.snapshot := by
      rintro rfl
      simp [skips] at hskips
    have hpublish := publish_keepsLimit answers reply.2 text false hlimit (.inr hchanged)
    rw [imp_iff_right hskips, ← hpublish]
    split <;> simp_all

/-- Plain text is no frame. -/
@[simp] theorem frames_sendPlain (live : Live) (thread : Thread) (text : Str) :
    (sendPlain answers live thread text).2.2.frames = thread.frames := by
  rw [sendPlain]
  split
  · rfl
  · dsimp only
    split <;> rfl

/-- Whether the end of a reply keeps the limit. -/
theorem showFinal_keepsLimit {reply : Live × Thread} {final finished : Str} (hlimit : 1 ≤ limit) :
    KeepsLimit limit (showFinal answers limit finished reply final).2.2 ↔
      KeepsLimit limit reply.2 ∧ Fits limit reply.1 (finalText finished reply.1.shown final) := by
  rw [showFinal]
  generalize finalText finished reply.1.shown final = text
  split
  · have hpublish := publish_keepsLimit answers reply.2 text true hlimit
      (.inl rfl : true = true ∨ text ≠ reply.1.snapshot)
    rw [← hpublish]
    split <;> simp_all [KeepsLimit]
  · next hstream =>
    have hfits : Fits limit reply.1 text := fun hsome => absurd hsome hstream
    simp [KeepsLimit, hfits]

/-! ## Whole replies -/

/-- The texts of a run fit, each in the state before it. -/
def PreviewsFit (answers : Answers) (limit : Nat) : Live × Thread → List Str → Prop
  | _, [] => True
  | reply, text :: texts =>
    (skips reply.1 text = false → Fits limit reply.1 text) ∧
      PreviewsFit answers limit (showPreview answers limit reply text) texts

instance instDecidablePreviewsFit :
    ∀ (reply : Live × Thread) (texts : List Str), Decidable (PreviewsFit answers limit reply texts)
  | _, [] => isTrue trivial
  | reply, text :: texts =>
    have := instDecidablePreviewsFit (showPreview answers limit reply text) texts
    inferInstanceAs (Decidable (_ ∧ _))

/-- The previews and the final text fit, each in the state before it. -/
def ReplyFits (answers : Answers) (limit : Nat) (finished : Str) (reply : Live × Thread)
    (texts : List Str) (final : Str) : Prop :=
  PreviewsFit answers limit reply texts ∧
    Fits limit (showPreviews answers limit reply texts).1
      (finalText finished (showPreviews answers limit reply texts).1.shown final)

instance (finished : Str) (reply : Live × Thread) (texts : List Str) (final : Str) :
    Decidable (ReplyFits answers limit finished reply texts final) :=
  inferInstanceAs (Decidable (_ ∧ _))

/-- The reply is shown whole and once: every frame keeps the limit, and if each text extends the one before
    it, then what is shown is at every moment what `shown` says, a beginning of the current text, and after
    an end that succeeds it is, with the plain text, the final text. -/
structure ShownWhole (answers : Answers) (limit : Nat) (finished : Str) (reply : Live × Thread)
    (texts : List Str) (final : Str) : Prop where
  keepsLimit : KeepsLimit limit
    (showFinal answers limit finished (showPreviews answers limit reply texts) final).2.2
  previews : List.IsChain (· <+: ·) (texts ++ [final]) → ∀ before after, texts = before ++ after →
    let moment := showPreviews answers limit reply before
    moment.2.visible = moment.1.shown ∧ moment.1.shown <+: before.getLastD []
  ended : List.IsChain (· <+: ·) (texts ++ [final]) →
    let reply := showPreviews answers limit reply texts
    Ended (finalText finished reply.1.shown final) (showFinal answers limit finished reply final)

/-- A run of previews keeps the limit exactly when every preview fits. -/
theorem showPreviews_keepsLimit {reply : Live × Thread} {texts : List Str} (hlimit : 1 ≤ limit) :
    KeepsLimit limit (showPreviews answers limit reply texts).2 ↔
      KeepsLimit limit reply.2 ∧ PreviewsFit answers limit reply texts := by
  induction texts generalizing reply with
  | nil => simp [showPreviews, PreviewsFit]
  | cons text texts ih =>
    have hih := @ih (showPreview answers limit reply text)
    rw [showPreview_keepsLimit hlimit, and_assoc] at hih
    exact hih

/-- The empty text before the first one. -/
private theorem isChain_nil_cons {texts : List Str} (h : List.IsChain (· <+: ·) texts) :
    List.IsChain (· <+: ·) ([] :: texts) := by
  cases texts with
  | nil => exact List.isChain_singleton _
  | cons text texts => exact List.isChain_cons_cons.mpr ⟨List.nil_prefix, h⟩

/-- A reply is shown whole and in frames that keep the limit exactly when, at every text of it, the text has
    more chunks than messages are closed or fits into one frame. -/
theorem reply_whole_iff (answers : Answers) (limit : Nat) (finished thinking : Str) (stream : Stream)
    (texts : List Str) (final : Str) (hlimit : 1 ≤ limit) :
    ShownWhole answers limit finished (startReply stream thinking) texts final ↔
      ReplyFits answers limit finished (startReply stream thinking) texts final := by
  have hkeeps : KeepsLimit limit (showFinal answers limit finished
        (showPreviews answers limit (startReply stream thinking) texts) final).2.2 ↔
      ReplyFits answers limit finished (startReply stream thinking) texts final := by
    have hstart : KeepsLimit limit (startReply stream thinking).2 := fun _ h => nomatch h
    rw [showFinal_keepsLimit hlimit, showPreviews_keepsLimit hlimit, and_iff_right hstart]
    rfl
  refine ⟨fun h => hkeeps.mp h.keepsLimit, fun h => ⟨hkeeps.mpr h, ?_, ?_⟩⟩
  · rintro hchain before after rfl
    have hbefore : List.IsChain (· <+: ·) ([] :: before) := by
      have hjoined : List.IsChain (· <+: ·) (([] :: before) ++ (after ++ [final])) := by
        rw [List.cons_append, ← List.append_assoc]
        exact isChain_nil_cons hchain
      exact hjoined.left_of_append
    have hinStep := showPreviews_inStep answers hlimit (startReply_inStep stream thinking) hbefore
    exact ⟨hinStep.visible, hinStep.shown⟩
  · intro hchain
    have hall : List.IsChain (· <+: ·) (([] :: texts) ++ [final]) := isChain_nil_cons hchain
    have hinStep := showPreviews_inStep answers hlimit (startReply_inStep stream thinking)
      hall.left_of_append
    refine showFinal_ended finished hlimit hinStep ?_
    refine (List.isChain_append.mp hall).2.2 _ ?_ final rfl
    simp [List.getLast?_cons]

/-- A reply of five characters in messages of at most two, whose last preview cannot be sent. -/
theorem reply_whole_five :
    ShownWhole (fun n => if n = 4 then .error [] else .ok ["m".toList]) 2 "done".toList
      (startReply ⟨"s".toList, 0⟩ "Thinking".toList) ["abc".toList, "abcd".toList] "abcde".toList :=
  (reply_whole_iff _ 2 _ _ _ _ _ (by decide)).mpr (by decide)

/-- After a preview in three messages, a final text of three characters is sent as one frame of at most
    two. -/
theorem rewritten_reply_overlong :
    ¬ ∀ (answers : Answers) (limit : Nat) (finished thinking : Str) (stream : Stream) (texts : List Str)
      (final : Str), 1 ≤ limit →
        ShownWhole answers limit finished (startReply stream thinking) texts final := by
  intro h
  have hkeeps := (h (fun _ => .ok ["m".toList]) 2 "done".toList "Thinking".toList ⟨"s".toList, 0⟩
    ["abcde".toList] "vwx".toList (by decide)).keepsLimit
  exact absurd (hkeeps "vwx".toList (by decide)) (by decide)

end TeamClu.SeaTalk
