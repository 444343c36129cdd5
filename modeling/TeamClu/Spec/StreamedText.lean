import TeamClu.ForStd.TreeMap
import TeamClu.Native.PiTranslate

/-!
# Streamed text equals persisted text

The text of a content block reaches the client by deltas, by the end event of the block, or by the
replay after a crash.  Bytes are counted by kind and index, and an index is used again by every message
of a run, so a block can find its text counted already: what it loses is the part that the count covers
beyond its own deltas.  A crash is a run without the unseen deltas whose ends come from the replay.
-/

namespace TeamClu.Runtime

/-! ## Streams of a run -/

/-- A content block with its place in the message and the deltas that are streamed of it. -/
structure Piece where
  kind : BlockKind
  index : Nat
  content : Str
  deltas : List Str
  deriving DecidableEq

namespace Piece

/-- The text of the deltas. -/
def streamed (p : Piece) : Str := p.deltas.flatten

/-- The deltas are the beginning of the content. -/
def Streams (p : Piece) : Prop := p.streamed <+: p.content

/-- What no delta brings. -/
def rest (p : Piece) : Str := p.content.drop p.streamed.length

/-- The events of a block: its deltas, then its end. -/
def events (p : Piece) : List PiEvent :=
  p.deltas.map (.delta p.kind p.index) ++ [.blockEnd p.kind p.index p.content]

theorem Streams.content_eq {p : Piece} (h : p.Streams) : p.content = p.streamed ++ p.rest := by
  obtain ⟨t, ht⟩ := h
  rw [rest, ← ht, List.drop_left]

end Piece

/-- The piece of a block; one that is neither text nor thinking has none. -/
def blockPiece : (EntryBlock × List Str) × Nat → Option Piece
  | ((.text content, deltas), index) => some { kind := .text, index, content, deltas }
  | ((.thinking content, deltas), index) => some { kind := .thinking, index, content, deltas }
  | ((.other, _), _) => none

/-- The pieces of a run of messages. -/
def pieces (run : List (List (EntryBlock × List Str))) : List Piece :=
  run.flatMap fun message => message.zipIdx.filterMap blockPiece

/-- The pieces as far as the first `n` events show them. -/
def cutAt : Nat → List Piece → List Piece
  | _, [] => []
  | n, p :: ps => { p with deltas := p.deltas.take n } :: cutAt (n - (p.deltas.length + 1)) ps

/-- The event is part of the text stream. -/
def PiEvent.isUpdate : PiEvent → Bool
  | .delta _ _ _ | .blockEnd _ _ _ => true
  | _ => false

/-- The text of the given kind that the events carry. -/
def textOf (kind : BlockKind) (out : List AcpEvent) : Str :=
  out.flatMap fun e =>
    match kind, e with
    | .text, .output text => text
    | .thinking, .thinking text => text
    | _, _ => []

/-- The text of the given kind that the pieces hold. -/
def contentOf (kind : BlockKind) (ps : List Piece) : Str :=
  ps.flatMap fun p => if p.kind = kind then p.content else []

/-! ## Counts -/

/-- The counts of the text stream. -/
abbrev Counts := BlockKind → Int → Nat

/-- One count set. -/
def Counts.set (c : Counts) (kind : BlockKind) (index : Int) (n : Nat) : Counts :=
  fun k i => if k = kind ∧ i = index then n else c k i

/-- The counts after the deltas of a piece. -/
def Counts.afterDeltas (c : Counts) (p : Piece) : Counts :=
  c.set p.kind p.index (c p.kind p.index + Str.utf8Len p.streamed)

/-- The counts after an end, live or replayed. -/
def Counts.afterEnd (c : Counts) (p : Piece) : Counts :=
  c.set p.kind p.index (max (c p.kind p.index) (Str.utf8Len p.content))

/-- The counts after a whole piece. -/
def Counts.after (c : Counts) (p : Piece) : Counts := (c.afterDeltas p).afterEnd p

/-- What is said of every piece: its deltas, and the part of the rest that is not counted. -/
def Counts.said (c : Counts) : List Piece → List (Piece × Str)
  | [] => []
  | p :: ps => (p, p.streamed ++ Str.dropBytes (c p.kind p.index) p.rest) :: (c.after p).said ps

/-- The text of the given kind that is said. -/
def saidOf (kind : BlockKind) (parts : List (Piece × Str)) : Str :=
  parts.flatMap fun (p, said) => if p.kind = kind then said else []

/-- Every piece keeps its text: the bytes that were counted at its place before it do not reach past
    the first character that its deltas leave. -/
def KeepsText : Counts → List Piece → Prop
  | _, [] => True
  | c, p :: ps => Str.startsAfter (c p.kind p.index) p.rest = true ∧
      KeepsText (c.after p) ps

instance decidableKeepsText : ∀ c ps, Decidable (KeepsText c ps)
  | _, [] => isTrue trivial
  | c, p :: ps =>
    have := decidableKeepsText (c.after p) ps
    inferInstanceAs (Decidable (_ ∧ KeepsText (c.after p) ps))

/-! ## What single steps emit -/

theorem textOf_append (kind : BlockKind) (out out' : List AcpEvent) :
    textOf kind (out ++ out') = textOf kind out ++ textOf kind out' := List.flatMap_append

theorem textOf_textEvent (kind kind' : BlockKind) (text : Str) :
    textOf kind [textEvent kind' text] = if kind' = kind then text else [] := by
  cases kind <;> cases kind' <;> simp [textOf, textEvent]

theorem emitAll_nil {α : Type} (step : TranslateState → α → TranslateState × List AcpEvent)
    (st : TranslateState) : emitAll step st [] = (st, []) := rfl

theorem emitAll_concat {α : Type} (step : TranslateState → α → TranslateState × List AcpEvent)
    (st : TranslateState) (xs : List α) (x : α) :
    emitAll step st (xs ++ [x]) = ((step (emitAll step st xs).1 x).1,
      (emitAll step st xs).2 ++ (step (emitAll step st xs).1 x).2) := by
  simp [emitAll, List.foldl_append]

/-- Steps in two parts. -/
theorem emitAll_append {α : Type} (step : TranslateState → α → TranslateState × List AcpEvent)
    (st : TranslateState) (xs ys : List α) :
    emitAll step st (xs ++ ys) = ((emitAll step (emitAll step st xs).1 ys).1,
      (emitAll step st xs).2 ++ (emitAll step (emitAll step st xs).1 ys).2) := by
  induction ys using List.reverseRecOn with
  | nil => simp [emitAll_nil]
  | append_singleton ys y ih =>
    rw [← List.append_assoc, emitAll_concat, emitAll_concat, ih, List.append_assoc]

theorem emitAll_cons {α : Type} (step : TranslateState → α → TranslateState × List AcpEvent)
    (st : TranslateState) (x : α) (xs : List α) :
    emitAll step st (x :: xs) = ((emitAll step (step st x).1 xs).1,
      (step st x).2 ++ (emitAll step (step st x).1 xs).2) := by
  rw [← List.singleton_append, emitAll_append]
  simp [emitAll]

theorem onDelta_emitted (st : TranslateState) (kind : BlockKind) (index : Int) (delta : Str) :
    (onDelta st kind index delta).1.emitted =
      Counts.set st.emitted kind index (st.emitted kind index + Str.utf8Len delta) := by
  unfold onDelta
  split
  · next h =>
    funext k i
    simp only [Counts.set, h, Str.utf8Len_nil, Nat.add_zero]
    split
    · next hk => rw [hk.1, hk.2]
    · rfl
  · rfl

theorem onDelta_text (st : TranslateState) (kind kind' : BlockKind) (index : Int) (delta : Str) :
    textOf kind (onDelta st kind' index delta).2 = if kind' = kind then delta else [] := by
  unfold onDelta
  split
  · next h => simp [textOf, h]
  · exact textOf_textEvent kind kind' delta

theorem onBlockEnd_emitted (st : TranslateState) (kind : BlockKind) (index : Int) (content : Str) :
    (onBlockEnd st kind index content).1.emitted =
      Counts.set st.emitted kind index (max (st.emitted kind index) (Str.utf8Len content)) := by
  unfold onBlockEnd
  split
  · next h =>
    rw [Nat.max_eq_right h.le]
    rfl
  · next h =>
    funext k i
    simp only [Counts.set, Nat.max_eq_left (Nat.le_of_not_lt h)]
    split
    · next hk => rw [hk.1, hk.2]
    · rfl

theorem onBlockEnd_text (st : TranslateState) (kind kind' : BlockKind) (index : Int) (content : Str) :
    textOf kind (onBlockEnd st kind' index content).2 =
      if kind' = kind then Str.dropBytes (st.emitted kind' index) content else [] := by
  unfold onBlockEnd
  split
  · exact textOf_textEvent kind kind' _
  · next h => simp [textOf, Str.dropBytes_eq_nil (Nat.le_of_not_lt h)]

/-! ## What is said of the pieces -/

theorem contentOf_cons (kind : BlockKind) (p : Piece) (ps : List Piece) :
    contentOf kind (p :: ps) = (if p.kind = kind then p.content else []) ++ contentOf kind ps := rfl

theorem saidOf_cons (kind : BlockKind) (p : Piece) (said : Str) (parts : List (Piece × Str)) :
    saidOf kind ((p, said) :: parts) = (if p.kind = kind then said else []) ++ saidOf kind parts :=
  rfl

theorem said_length_le {p : Piece} (h : p.Streams) (n : Nat) :
    (p.streamed ++ Str.dropBytes n p.rest).length ≤ p.content.length := by
  conv_rhs => rw [h.content_eq]
  rw [List.length_append, List.length_append]
  exact Nat.add_le_add_left (Str.dropBytes_length_le n p.rest) _

/-- No more is said than the content. -/
theorem saidOf_length_le (kind : BlockKind) (c : Counts) {ps : List Piece} (h : ∀ p ∈ ps, p.Streams) :
    (saidOf kind (c.said ps)).length ≤ (contentOf kind ps).length := by
  induction ps generalizing c with
  | nil => exact le_refl _
  | cons p ps ih =>
    rw [List.forall_mem_cons] at h
    have hp := said_length_le h.1 (c p.kind p.index)
    have hps := ih (c.after p) h.2
    rw [Counts.said, saidOf_cons, contentOf_cons, List.length_append, List.length_append]
    split <;> simp_all only [List.length_nil] <;> omega

private theorem eq_of_append_eq {s t s' t' : Str} (h : s ++ t = s' ++ t')
    (hs : s.length ≤ s'.length) (ht : t.length ≤ t'.length) : s = s' := by
  have hlens := congrArg List.length h
  rw [List.length_append, List.length_append] at hlens
  exact (List.append_inj h (by omega)).1

/-- All text is said exactly when every piece keeps its text. -/
theorem saidOf_eq_iff (c : Counts) {ps : List Piece} (h : ∀ p ∈ ps, p.Streams) :
    (∀ kind, saidOf kind (c.said ps) = contentOf kind ps) ↔ KeepsText c ps := by
  induction ps generalizing c with
  | nil => exact iff_of_true (fun _ => rfl) trivial
  | cons p ps ih =>
    rw [List.forall_mem_cons] at h
    -- one piece: its text is whole exactly if the count is not beyond the rest
    have hsaid : p.streamed ++ Str.dropBytes (c p.kind p.index) p.rest = p.content ↔
        Str.startsAfter (c p.kind p.index) p.rest = true := by
      rw [← Str.dropBytes_length_eq_iff]
      constructor
      · intro heq
        conv_rhs at heq => rw [h.1.content_eq]
        rw [List.append_cancel_left heq]
      · intro hlen
        conv_rhs => rw [h.1.content_eq]
        rw [Str.dropBytes_eq_self (Str.dropBytes_length_eq_iff.mp hlen)]
    rw [KeepsText, ← hsaid, ← ih (c.after p) h.2]
    simp only [Counts.said, saidOf_cons, contentOf_cons]
    constructor
    · intro hall
      -- lengths at the kind of the piece force its own text, and cancelling leaves the others
      have hown : p.streamed ++ Str.dropBytes (c p.kind p.index) p.rest = p.content := by
        have heq := hall p.kind
        rw [if_pos rfl, if_pos rfl] at heq
        have hle := said_length_le h.1 (c p.kind p.index)
        have hles := saidOf_length_le p.kind (c.after p) h.2
        exact eq_of_append_eq heq hle hles
      refine ⟨hown, fun kind => ?_⟩
      have heq := hall kind
      rw [hown] at heq
      exact List.append_cancel_left heq
    · rintro ⟨hown, hall⟩ kind
      rw [hown, hall]

/-! ## Runs of events -/

/-- Deltas of one piece are said as they are. -/
theorem deltas_text (kind : BlockKind) (st : TranslateState) (p : Piece) :
    textOf kind (emitAll translateEvent st (p.deltas.map (.delta p.kind p.index))).2 =
        (if p.kind = kind then p.streamed else []) ∧
      (emitAll translateEvent st (p.deltas.map (.delta p.kind p.index))).1.emitted =
        Counts.afterDeltas st.emitted p := by
  -- the counts grow by the bytes of the deltas, one after the other
  obtain ⟨pkind, index, content, deltas⟩ := p
  simp only [Piece.streamed, Counts.afterDeltas]
  induction deltas using List.reverseRecOn with
  | nil =>
    refine ⟨by simp [emitAll_nil, textOf], ?_⟩
    funext k i
    simp only [List.map_nil, emitAll_nil, Counts.set, List.flatten_nil, Str.utf8Len_nil,
      Nat.add_zero]
    split
    · next hk => rw [hk.1, hk.2]
    · rfl
  | append_singleton deltas delta ih =>
    rw [List.map_append, List.map_singleton, emitAll_concat, textOf_append, ih.1, translateEvent,
      onDelta_text, onDelta_emitted, ih.2]
    constructor
    · -- the text is that of the deltas so far, with the new one behind it
      split <;> simp
    · funext k i
      simp only [Counts.set, and_self, if_true, List.flatten_append, List.flatten_singleton,
        Str.utf8Len_append]
      split
      · next hk => omega
      · rfl

/-- A piece replayed after the deltas that were seen says what its end event would have said. -/
theorem replayPiece_text (kind : BlockKind) (st : TranslateState) {p : Piece} (h : p.Streams)
    (c : Counts) (hst : st.emitted = c.afterDeltas p) :
    textOf kind (onBlockEnd st p.kind p.index p.content).2 =
        (if p.kind = kind then Str.dropBytes (c p.kind p.index) p.rest else []) ∧
      (onBlockEnd st p.kind p.index p.content).1.emitted = c.after p := by
  rw [onBlockEnd_text, onBlockEnd_emitted, hst]
  refine ⟨?_, rfl⟩
  congr 1
  conv_lhs => rw [h.content_eq]
  rw [Counts.afterDeltas, Counts.set, if_pos ⟨rfl, rfl⟩, Nat.add_comm, Str.dropBytes_append]

/-- The deltas and the end of one piece. -/
theorem events_text (kind : BlockKind) (st : TranslateState) {p : Piece} (h : p.Streams) :
    textOf kind (emitAll translateEvent st p.events).2 =
        (if p.kind = kind then p.streamed ++ Str.dropBytes (st.emitted p.kind p.index) p.rest
          else []) ∧
      (emitAll translateEvent st p.events).1.emitted = Counts.after st.emitted p := by
  obtain ⟨hdeltas, hcounts⟩ := deltas_text kind st p
  obtain ⟨hend, hafter⟩ := replayPiece_text kind _ h st.emitted hcounts
  rw [Piece.events, emitAll_concat, textOf_append, translateEvent, hdeltas, hend]
  refine ⟨?_, hafter⟩
  split <;> rfl

/-- The live text of whole pieces. -/
theorem live_text (kind : BlockKind) (st : TranslateState) {ps : List Piece}
    (h : ∀ p ∈ ps, p.Streams) :
    textOf kind (emitAll translateEvent st (ps.flatMap Piece.events)).2 =
      saidOf kind (Counts.said st.emitted ps) := by
  induction ps generalizing st with
  | nil => rfl
  | cons p ps ih =>
    rw [List.forall_mem_cons] at h
    obtain ⟨htext, hcounts⟩ := events_text kind st h.1
    rw [List.flatMap_cons, emitAll_append, textOf_append, htext, ih _ h.2, hcounts, Counts.said,
      saidOf_cons]

/-- No event lowers a count. -/
theorem translateEvent_mono (st : TranslateState) (event : PiEvent) (kind : BlockKind) (index : Int) :
    st.emitted kind index ≤ (translateEvent st event).1.emitted kind index := by
  cases event with
  | delta kind' index' delta =>
    rw [translateEvent, onDelta_emitted, Counts.set]
    split
    · -- a delta adds to its own count
      next hk => rw [hk.1, hk.2]; exact Nat.le_add_right _ _
    · exact le_refl _
  | blockEnd kind' index' content =>
    rw [translateEvent, onBlockEnd_emitted, Counts.set]
    -- an end raises its own count to the bytes of the block
    split
    · next hk => rw [hk.1, hk.2]; exact Nat.le_max_left _ _
    · exact le_refl _
  | messageEnd role stopReason errorMessage =>
    -- an error or an abort says something and counts nothing
    simp only [translateEvent, onMessageEnd]
    split
    · split
      · split <;> exact le_refl _
      · split <;> exact le_refl _
    · exact le_refl _
  | _ => exact le_refl _

/-- No run of steps lowers a count that no step lowers. -/
theorem emitAll_mono {α : Type} {step : TranslateState → α → TranslateState × List AcpEvent}
    (h : ∀ st x kind index, st.emitted kind index ≤ (step st x).1.emitted kind index)
    (st : TranslateState) (xs : List α) (kind : BlockKind) (index : Int) :
    st.emitted kind index ≤ (emitAll step st xs).1.emitted kind index := by
  induction xs using List.reverseRecOn with
  | nil => exact le_refl _
  | append_singleton xs x ih =>
    rw [emitAll_concat]
    exact ih.trans (h _ x kind index)

/-! ## Replay -/

/-- The replay of a piece. -/
def replayPiece (st : TranslateState) (p : Piece) : TranslateState × List AcpEvent :=
  onBlockEnd st p.kind p.index p.content

theorem contentOf_cutAt (kind : BlockKind) (n : Nat) (ps : List Piece) :
    contentOf kind (cutAt n ps) = contentOf kind ps := by
  induction ps generalizing n with
  | nil => rfl
  | cons p ps ih => rw [cutAt, contentOf_cons, contentOf_cons, ih]

theorem streams_cutAt {ps : List Piece} (h : ∀ p ∈ ps, p.Streams) (n : Nat) :
    ∀ p ∈ cutAt n ps, p.Streams := by
  induction ps generalizing n with
  | nil => exact fun _ hp => absurd hp List.not_mem_nil
  | cons p ps ih =>
    rw [List.forall_mem_cons] at h
    rw [cutAt, List.forall_mem_cons]
    refine ⟨?_, ih h.2 _⟩
    have htake : (p.deltas.take n).flatten <+: p.deltas.flatten := by
      conv_rhs => rw [← List.take_append_drop n p.deltas, List.flatten_append]
      exact List.prefix_append _ _
    exact htake.trans h.1

/-- The live text up to the cut and the replayed text are what is said of the pieces that were seen:
    pieces that were seen whole are not replayed, and the others end in the replay. -/
theorem cut_text (kind : BlockKind) (st : TranslateState) {ps : List Piece}
    (h : ∀ p ∈ ps, p.Streams) (n : Nat) :
    textOf kind (emitAll translateEvent st ((ps.flatMap Piece.events).take n)).2 ++
        textOf kind (emitAll replayPiece
          (emitAll translateEvent st ((ps.flatMap Piece.events).take n)).1 ps).2 =
      saidOf kind (Counts.said st.emitted (cutAt n ps)) := by
  -- over the pieces: `n` is what is left of the cut when a piece begins
  induction ps generalizing st n with
  | nil => simp [emitAll_nil, cutAt, Counts.said, saidOf, textOf]
  | cons p ps ih =>
    have hcut := streams_cutAt h n
    rw [cutAt, List.forall_mem_cons] at hcut
    rw [List.forall_mem_cons] at h
    rw [cutAt, Counts.said, saidOf_cons, List.flatMap_cons]
    rcases Nat.lt_or_ge p.deltas.length n with hn | hn
    · -- the piece was seen whole
      have hlen : p.events.length = p.deltas.length + 1 := by simp [Piece.events]
      obtain ⟨htext, hcounts⟩ := events_text kind st h.1
      have hall : p.deltas.take n = p.deltas := List.take_of_length_le hn.le
      rw [List.take_append, List.take_of_length_le (by omega), hlen, emitAll_append, textOf_append,
        htext, emitAll_cons]
      simp only [hall]
      -- its replay finds the count at the whole content, and sends nothing
      have hend : replayPiece (emitAll translateEvent (emitAll translateEvent st p.events).1
          (List.take (n - (p.deltas.length + 1)) (ps.flatMap Piece.events))).1 p =
          ((emitAll translateEvent (emitAll translateEvent st p.events).1
            (List.take (n - (p.deltas.length + 1)) (ps.flatMap Piece.events))).1, []) := by
        refine if_neg (Nat.not_lt.mpr (le_trans ?_ (emitAll_mono translateEvent_mono _ _ _ _)))
        rw [hcounts, Counts.after, Counts.afterEnd, Counts.set, if_pos ⟨rfl, rfl⟩]
        exact Nat.le_max_right _ _
      rw [hend, List.nil_append, List.append_assoc, ih _ h.2, hcounts]
    · -- the cut falls into the piece or before it
      have htake : (p.events ++ ps.flatMap Piece.events).take n =
          (p.deltas.take n).map (.delta p.kind p.index) := by
        rw [Piece.events, List.append_assoc, List.take_append_of_le_length (by simpa using hn),
          List.map_take]
      obtain ⟨hdeltas, hcounts⟩ := deltas_text kind st { p with deltas := p.deltas.take n }
      obtain ⟨hend, hafter⟩ := replayPiece_text kind _ hcut.1 st.emitted hcounts
      have hrest := ih (replayPiece (emitAll translateEvent st
        ((p.deltas.take n).map (.delta p.kind p.index))).1 p).1 h.2 (n - (p.deltas.length + 1))
      rw [Nat.sub_eq_zero_of_le (by omega)] at hrest ⊢
      -- nothing of the later pieces was seen
      rw [List.take_zero, emitAll_nil] at hrest
      rw [htake, hdeltas, emitAll_cons, textOf_append, replayPiece, hend, ← List.append_assoc]
      have hrest' : textOf kind (emitAll replayPiece (replayPiece (emitAll translateEvent st
          ((p.deltas.take n).map (.delta p.kind p.index))).1 p).1 ps).2 =
          saidOf kind (Counts.said (Counts.after st.emitted { p with deltas := p.deltas.take n })
            (cutAt 0 ps)) := by
        rw [← hafter]
        exact hrest
      rw [replayPiece] at hrest'
      rw [hrest']
      congr 1
      split <;> rfl

/-- Steps whose text and counts depend on the counts only, from states with the same counts. -/
theorem emitAll_congr {α : Type} {step : TranslateState → α → TranslateState × List AcpEvent}
    {kind : BlockKind}
    (h : ∀ st st' x, st.emitted = st'.emitted →
      textOf kind (step st x).2 = textOf kind (step st' x).2 ∧
        (step st x).1.emitted = (step st' x).1.emitted)
    {st st' : TranslateState} (hst : st.emitted = st'.emitted) (xs : List α) :
    textOf kind (emitAll step st xs).2 = textOf kind (emitAll step st' xs).2 ∧
      (emitAll step st xs).1.emitted = (emitAll step st' xs).1.emitted := by
  induction xs using List.reverseRecOn with
  | nil => exact ⟨rfl, hst⟩
  | append_singleton xs x ih =>
    obtain ⟨htext, hcounts⟩ := h _ _ x ih.2
    rw [emitAll_concat, emitAll_concat, textOf_append, textOf_append, ih.1, htext]
    exact ⟨rfl, hcounts⟩

theorem replayPiece_congr {kind : BlockKind} (st st' : TranslateState) (p : Piece)
    (h : st.emitted = st'.emitted) :
    textOf kind (replayPiece st p).2 = textOf kind (replayPiece st' p).2 ∧
      (replayPiece st p).1.emitted = (replayPiece st' p).1.emitted := by
  simp only [replayPiece, onBlockEnd_text, onBlockEnd_emitted, h, and_self]

/-- An event outside the text stream has no text and counts nothing. -/
theorem translateEvent_of_not_update (kind : BlockKind) (st : TranslateState) {event : PiEvent}
    (h : event.isUpdate = false) :
    textOf kind (translateEvent st event).2 = [] ∧
      (translateEvent st event).1.emitted = st.emitted := by
  cases event with
  | delta | blockEnd => cases h
  | messageEnd role stopReason errorMessage =>
    simp only [translateEvent, onMessageEnd]
    (repeat' split) <;> cases kind <;> exact ⟨rfl, rfl⟩
  | _ => cases kind <;> exact ⟨rfl, rfl⟩

/-- The other events leave no trace in the text. -/
theorem text_filter (kind : BlockKind) (st : TranslateState) (events : List PiEvent) :
    textOf kind (emitAll translateEvent st events).2 =
        textOf kind (emitAll translateEvent st (events.filter PiEvent.isUpdate)).2 ∧
      (emitAll translateEvent st events).1.emitted =
        (emitAll translateEvent st (events.filter PiEvent.isUpdate)).1.emitted := by
  induction events using List.reverseRecOn with
  | nil => exact ⟨rfl, rfl⟩
  | append_singleton events event ih =>
    rw [List.filter_append, emitAll_concat, textOf_append]
    cases hup : event.isUpdate with
    | false =>
      -- an event that is no update says nothing and counts nothing
      obtain ⟨htext, hcounts⟩ := translateEvent_of_not_update kind
        (emitAll translateEvent st events).1 hup
      rw [htext, hcounts, List.filter_cons_of_neg (by simp [hup]), List.filter_nil,
        List.append_nil, List.append_nil]
      exact ih
    | true =>
      rw [List.filter_cons_of_pos hup, List.filter_nil, emitAll_concat, textOf_append, ih.1]
      cases event with
      | delta kind' index delta =>
        simp only [translateEvent, onDelta_text, onDelta_emitted, ih.2, and_self]
      | blockEnd kind' index content =>
        simp only [translateEvent, onBlockEnd_text, onBlockEnd_emitted, ih.2, and_self]
      | _ => cases hup

/-- The contents of the persisted assistant messages. -/
def persisted (entries : List Entry) : List (List EntryBlock) :=
  entries.filterMap fun
    | .assistant content => some content
    | _ => none

/-- The blocks of a persisted message are replayed as its pieces. -/
theorem replayBlocks_eq (st : TranslateState) (message : List (EntryBlock × List Str)) (k : Nat) :
    emitAll (fun st (block, index) => replayBlock st block index) st
        ((message.map Prod.fst).zipIdx k) =
      emitAll replayPiece st ((message.zipIdx k).filterMap blockPiece) := by
  induction message generalizing st k with
  | nil => rfl
  | cons b message ih =>
    obtain ⟨block, deltas⟩ := b
    rw [List.map_cons, List.zipIdx_cons, List.zipIdx_cons, emitAll_cons, ih]
    cases block with
    | text content => rw [List.filterMap_cons_some (by rfl), emitAll_cons]; rfl
    | thinking content => rw [List.filterMap_cons_some (by rfl), emitAll_cons]; rfl
    | other => rw [List.filterMap_cons_none (by rfl)]; rfl

/-- Persisted entries are replayed as the pieces of their messages. -/
theorem replayEntries_text (kind : BlockKind) {st st' : TranslateState}
    (hst : st.emitted = st'.emitted) {entries : List Entry}
    {run : List (List (EntryBlock × List Str))}
    (h : persisted entries = run.map (List.map Prod.fst)) :
    textOf kind (replayEntries st entries).2 =
      textOf kind (emitAll replayPiece st' (pieces run)).2 := by
  induction entries generalizing st st' run with
  | nil =>
    rw [List.map_eq_nil_iff.mp h.symm]
    rfl
  | cons entry entries ih =>
    unfold replayEntries at ih ⊢
    rw [emitAll_cons, textOf_append]
    cases entry with
    -- the blocks of a persisted message are replayed as its pieces
    | assistant content =>
      cases run with
      | nil => cases h
      | cons message run =>
        obtain ⟨rfl, hrest⟩ := List.cons.inj h
        obtain ⟨htext, hcounts⟩ := emitAll_congr replayPiece_congr
          hst (message.zipIdx.filterMap blockPiece)
        rw [pieces, List.flatMap_cons, emitAll_append, textOf_append, replayEntry, replayBlocks_eq,
          htext, ih hcounts hrest, pieces]
    -- a tool result may close a call; the counts stay
    | toolResult id isError summary message =>
      have hst' : (replayEntry st (.toolResult id isError summary message)).1.emitted =
          st'.emitted := by
        rw [replayEntry, ← hst]
        split <;> rfl
      rw [ih hst' h, replayEntry]
      split <;> cases kind <;> rfl
    | other => exact ih hst h

/-! ## The second replay -/

/-- After the steps all that they did is done. -/
theorem emitAll_allDone {α : Type} {step : TranslateState → α → TranslateState × List AcpEvent}
    {Done : TranslateState → α → Prop} (hdone : ∀ st x, Done (step st x).1 x)
    (hkeep : ∀ st x y, Done st x → Done (step st y).1 x) (st : TranslateState) (xs : List α) :
    ∀ x ∈ xs, Done (emitAll step st xs).1 x := by
  induction xs using List.reverseRecOn with
  | nil => exact fun _ hx => absurd hx List.not_mem_nil
  | append_singleton xs y ih =>
    intro x hx
    rw [emitAll_concat]
    rcases List.mem_append.mp hx with hx | hx
    · exact hkeep _ x y (ih x hx)
    · rw [List.mem_singleton.mp hx]
      exact hdone _ y

/-- What is done emits nothing. -/
theorem emitAll_done {α : Type} {step : TranslateState → α → TranslateState × List AcpEvent}
    {Done : TranslateState → α → Prop} (hquiet : ∀ st x, Done st x → step st x = (st, []))
    {st : TranslateState} {xs : List α} (h : ∀ x ∈ xs, Done st x) :
    emitAll step st xs = (st, []) := by
  induction xs with
  | nil => rfl
  | cons x xs ih =>
    rw [List.forall_mem_cons] at h
    rw [emitAll_cons, hquiet st x h.1, ih h.2]
    rfl

/-- The block is counted whole. -/
def BlockDone (st : TranslateState) : EntryBlock × Nat → Prop
  | (.text text, index) => Str.utf8Len text ≤ st.emitted .text index
  | (.thinking thinking, index) => Str.utf8Len thinking ≤ st.emitted .thinking index
  | (.other, _) => True

/-- The entry has nothing that is unseen. -/
def EntryDone (st : TranslateState) : Entry → Prop
  | .assistant content => ∀ b ∈ content.zipIdx, BlockDone st b
  | .toolResult toolId _ _ _ => toolId = [] ∨ toolId ∉ st.toolNames
  | .other => True

/-- One state has counted as much and has as few calls open. -/
def Further (st st' : TranslateState) : Prop :=
  (∀ kind index, st.emitted kind index ≤ st'.emitted kind index) ∧
    ∀ id, id ∈ st'.toolNames → id ∈ st.toolNames

theorem Further.trans {st st' st'' : TranslateState} (h : Further st st') (h' : Further st' st'') :
    Further st st'' :=
  ⟨fun kind index => (h.1 kind index).trans (h'.1 kind index), fun id hid => h.2 id (h'.2 id hid)⟩

theorem Further.blockDone {st st' : TranslateState} (h : Further st st') {b : EntryBlock × Nat}
    (hb : BlockDone st b) : BlockDone st' b := by
  obtain ⟨block, index⟩ := b
  cases block with
  | text text => exact le_trans hb (h.1 .text index)
  | thinking thinking => exact le_trans hb (h.1 .thinking index)
  | other => trivial

theorem Further.entryDone {st st' : TranslateState} (h : Further st st') {entry : Entry}
    (he : EntryDone st entry) : EntryDone st' entry := by
  cases entry with
  | assistant content => exact fun b hb => h.blockDone (he b hb)
  | toolResult toolId isError summary message => exact he.imp_right fun hnot hid => hnot (h.2 _ hid)
  | other => trivial

theorem onBlockEnd_further (st : TranslateState) (kind : BlockKind) (index : Int) (content : Str) :
    Further st (onBlockEnd st kind index content).1 := by
  constructor
  · exact translateEvent_mono st (.blockEnd kind index content)
  · unfold onBlockEnd
    split <;> exact fun _ h => h

theorem replayBlock_further (st : TranslateState) (b : EntryBlock × Nat) :
    Further st (replayBlock st b.1 b.2).1 := by
  obtain ⟨block, index⟩ := b
  cases block with
  | text text => exact onBlockEnd_further st .text index text
  | thinking thinking => exact onBlockEnd_further st .thinking index thinking
  | other => exact ⟨fun _ _ => le_refl _, fun _ h => h⟩

theorem replayBlock_done (st : TranslateState) (b : EntryBlock × Nat) :
    BlockDone (replayBlock st b.1 b.2).1 b := by
  obtain ⟨block, index⟩ := b
  cases block with
  | other => trivial
  | _ content =>
    simp only [BlockDone, replayBlock, onBlockEnd_emitted, Counts.set, and_self, if_true]
    exact Nat.le_max_right _ _

theorem replayBlock_quiet (st : TranslateState) (b : EntryBlock × Nat) (h : BlockDone st b) :
    replayBlock st b.1 b.2 = (st, []) := by
  obtain ⟨block, index⟩ := b
  cases block with
  | other => rfl
  | _ content => exact if_neg (Nat.not_lt.mpr h)

theorem emitAll_further {α : Type} {step : TranslateState → α → TranslateState × List AcpEvent}
    (h : ∀ st x, Further st (step st x).1) (st : TranslateState) (xs : List α) :
    Further st (emitAll step st xs).1 := by
  induction xs using List.reverseRecOn with
  | nil => exact ⟨fun _ _ => le_refl _, fun _ h => h⟩
  | append_singleton xs x ih =>
    rw [emitAll_concat]
    exact ih.trans (h _ x)

theorem replayEntry_further (st : TranslateState) (entry : Entry) :
    Further st (replayEntry st entry).1 := by
  cases entry with
  | assistant content => exact emitAll_further replayBlock_further st content.zipIdx
  | toolResult toolId isError summary message =>
    rw [replayEntry]
    split
    · exact ⟨fun _ _ => le_refl _, fun _ h => h⟩
    · exact ⟨fun _ _ => le_refl _, fun id hid => Std.ExtTreeMap.mem_of_mem_erase hid⟩
  | other => exact ⟨fun _ _ => le_refl _, fun _ h => h⟩

theorem replayEntry_done (st : TranslateState) (entry : Entry) :
    EntryDone (replayEntry st entry).1 entry := by
  cases entry with
  | assistant content =>
    exact emitAll_allDone replayBlock_done (fun st b b' => (replayBlock_further st b').blockDone) st
      content.zipIdx
  | toolResult toolId isError summary message =>
    rw [replayEntry]
    split
    · next h => exact h
    · exact Or.inr (by simp)
  | other => trivial

theorem replayEntry_quiet (st : TranslateState) (entry : Entry) (h : EntryDone st entry) :
    replayEntry st entry = (st, []) := by
  cases entry with
  | assistant content => exact emitAll_done replayBlock_quiet h
  | toolResult toolId isError summary message => exact if_pos h
  | other => rfl

/-- A second replay of the same entries emits nothing. -/
theorem replayEntries_twice (st : TranslateState) (entries : List Entry) :
    replayEntries (replayEntries st entries).1 entries = ((replayEntries st entries).1, []) :=
  emitAll_done replayEntry_quiet
    (emitAll_allDone replayEntry_done (fun st _ e' => (replayEntry_further st e').entryDone) st entries)

/-! ## Tool calls -/

/-- The call whose result the event reports. -/
def AcpEvent.resultOf : AcpEvent → Option Str
  | .toolResult r => some r.toolId
  | _ => none

/-- The call whose result the entry holds. -/
def Entry.resultOf : Entry → Option Str
  | .toolResult toolId _ _ _ => some toolId
  | _ => none

/-- The call was started and its end was not seen. -/
def unfinished (id : Str) (before : Prop) (events : List PiEvent) : Prop :=
  events.foldl (fun started event =>
    match event with
    | .toolExecutionStart toolId _ _ => toolId = id ∨ started
    | .toolExecutionEnd toolId _ _ _ => toolId ≠ id ∧ started
    | _ => started) before

theorem mem_toolNames_iff (id : Str) (st : TranslateState) (events : List PiEvent) :
    -- an id is open from its start to its end
    id ∈ (emitAll translateEvent st events).1.toolNames ↔
      unfinished id (id ∈ st.toolNames) events := by
  induction events using List.reverseRecOn with
  | nil => exact Iff.rfl
  | append_singleton events event ih =>
    rw [emitAll_concat, unfinished, List.foldl_append]
    cases event with
    | toolExecutionStart toolId toolName args =>
      simp [translateEvent, ih, unfinished]
    | toolExecutionEnd toolId isError summary result =>
      simp [translateEvent, ih, unfinished]
    | delta kind index delta =>
      simp only [translateEvent, onDelta]
      split <;> exact ih
    | blockEnd kind index content =>
      simp only [translateEvent, onBlockEnd]
      split <;> exact ih
    | messageEnd role stopReason errorMessage =>
      simp only [translateEvent, onMessageEnd]
      (repeat' split) <;> exact ih
    | _ => exact ih

private theorem onBlockEnd_tools (st : TranslateState) (kind : BlockKind) (index : Int)
    (content : Str) :
    (onBlockEnd st kind index content).2.filterMap AcpEvent.resultOf = [] ∧
      (onBlockEnd st kind index content).1.toolNames = st.toolNames := by
  unfold onBlockEnd
  split
  · cases kind <;> exact ⟨rfl, rfl⟩
  · exact ⟨rfl, rfl⟩

/-- The blocks of a message open and close no call. -/
theorem replayBlocks_tools (st : TranslateState) (blocks : List (EntryBlock × Nat)) :
    (emitAll (fun st (block, index) => replayBlock st block index) st blocks).2.filterMap
        AcpEvent.resultOf = [] ∧
      (emitAll (fun st (block, index) => replayBlock st block index) st blocks).1.toolNames =
        st.toolNames := by
  induction blocks using List.reverseRecOn with
  | nil => exact ⟨rfl, rfl⟩
  | append_singleton blocks b ih =>
    obtain ⟨block, index⟩ := b
    rw [emitAll_concat, List.filterMap_append, ih.1, List.nil_append, ← ih.2]
    cases block with
    | text text => exact onBlockEnd_tools _ .text index text
    | thinking thinking => exact onBlockEnd_tools _ .thinking index thinking
    | other => exact ⟨rfl, rfl⟩

/-- One persisted result reports its own call, if that is open. -/
private theorem replayResult_tools {id : Str} (hid : id ≠ []) (st : TranslateState) (toolId : Str)
    (isError : Bool) (summary message : Str) :
    ((replayEntry st (.toolResult toolId isError summary message)).2.filterMap
        AcpEvent.resultOf).count id = (if toolId = id ∧ id ∈ st.toolNames then 1 else 0) ∧
      (id ∈ (replayEntry st (.toolResult toolId isError summary message)).1.toolNames ↔
        toolId ≠ id ∧ id ∈ st.toolNames) := by
  rw [replayEntry]
  by_cases htool : toolId = id
  · subst htool
    by_cases hopen : toolId ∈ st.toolNames <;> simp [hid, hopen, AcpEvent.resultOf]
  · split <;> simp [htool, AcpEvent.resultOf]

/-- The result of an open call is replayed once, and closes the call. -/
theorem replayEntries_tools {id : Str} (hid : id ≠ []) (st : TranslateState) (entries : List Entry) :
    ((replayEntries st entries).2.filterMap AcpEvent.resultOf).count id =
        (if id ∈ st.toolNames ∧ some id ∈ entries.map Entry.resultOf then 1 else 0) ∧
      (id ∈ (replayEntries st entries).1.toolNames ↔
        id ∈ st.toolNames ∧ some id ∉ entries.map Entry.resultOf) := by
  unfold replayEntries
  induction entries using List.reverseRecOn with
  | nil => simp [emitAll_nil]
  | append_singleton entries entry ih =>
    -- the replay of an entry closes the calls whose result it holds
    rw [emitAll_concat, List.filterMap_append, List.count_append, ih.1, List.map_append,
      List.map_singleton]
    cases entry with
    | assistant content =>
      obtain ⟨hnone, hnames⟩ := replayBlocks_tools (emitAll replayEntry st entries).1 content.zipIdx
      simp only [replayEntry, hnone, hnames, ih.2]
      simp [Entry.resultOf]
    | toolResult toolId isError summary message =>
      obtain ⟨hcount, hnames⟩ := replayResult_tools hid (emitAll replayEntry st entries).1 toolId
        isError summary message
      have hown : (some id = (Entry.toolResult toolId isError summary message).resultOf) ↔
          toolId = id := by simp [Entry.resultOf, eq_comm]
      simp only [hcount, hnames, ih.2, List.mem_append, List.mem_singleton, hown]
      -- a first result of an open call is sent, and the call is open no more
      by_cases htool : toolId = id <;> by_cases hopen : id ∈ st.toolNames <;>
        by_cases hseen : some id ∈ entries.map Entry.resultOf <;> simp [htool, hopen, hseen]
    | other =>
      simp only [replayEntry, ih.2]
      simp [Entry.resultOf]

/-! ## Whole runs -/

theorem pieces_append (run run' : List (List (EntryBlock × List Str))) :
    pieces (run ++ run') = pieces run ++ pieces run' := List.flatMap_append

theorem cutAt_of_length_le {n : Nat} {ps : List Piece} (h : (ps.flatMap Piece.events).length ≤ n) :
    cutAt n ps = ps := by
  induction ps generalizing n with
  | nil => rfl
  | cons p ps ih =>
    have hlen : p.events.length = p.deltas.length + 1 := by simp [Piece.events]
    rw [List.flatMap_cons, List.length_append, hlen] at h
    rw [cutAt, ih (by omega), List.take_of_length_le (by omega)]

/-- Pieces that are counted whole are not replayed. -/
theorem replayPieces_done {st : TranslateState} {ps : List Piece}
    (h : ∀ p ∈ ps, Str.utf8Len p.content ≤ st.emitted p.kind p.index) :
    emitAll replayPiece st ps = (st, []) :=
  @emitAll_done _ replayPiece (fun st p => Str.utf8Len p.content ≤ st.emitted p.kind p.index)
    (fun _ _ hp => if_neg (Nat.not_lt.mpr hp)) st ps h

/-- After their events pieces are counted whole. -/
theorem counted_of_events (st : TranslateState) {ps : List Piece} (h : ∀ p ∈ ps, p.Streams) :
    ∀ p ∈ ps, Str.utf8Len p.content ≤
      (emitAll translateEvent st (ps.flatMap Piece.events)).1.emitted p.kind p.index := by
  induction ps generalizing st with
  | nil => exact fun _ hp => absurd hp List.not_mem_nil
  | cons p ps ih =>
    rw [List.forall_mem_cons] at h
    rw [List.flatMap_cons, emitAll_append, List.forall_mem_cons]
    refine ⟨le_trans ?_ (emitAll_mono translateEvent_mono _ _ _ _), ih _ h.2⟩
    rw [(events_text .text st h.1).2, Counts.after, Counts.afterEnd, Counts.set, if_pos ⟨rfl, rfl⟩]
    exact Nat.le_max_right _ _

/-- A cut within the persisted messages: all their text arrives exactly when the pieces, as far as
    they were seen, keep it. -/
theorem cut_eq_iff (st : TranslateState) {ps : List Piece} (h : ∀ p ∈ ps, p.Streams) (n : Nat) :
    (∀ kind, textOf kind (emitAll translateEvent st ((ps.flatMap Piece.events).take n)).2 ++
        textOf kind (emitAll replayPiece
          (emitAll translateEvent st ((ps.flatMap Piece.events).take n)).1 ps).2 =
      contentOf kind ps) ↔ KeepsText st.emitted (cutAt n ps) := by
  rw [← saidOf_eq_iff st.emitted (streams_cutAt h n)]
  exact forall_congr' fun kind => by rw [cut_text kind st h n, contentOf_cutAt]

/-- A cut behind the persisted messages: nothing is replayed, and nothing but their text was emitted
    if what was emitted is a prefix of it. -/
theorem cut_behind (st : TranslateState) {ps : List Piece} (h : ∀ p ∈ ps, p.Streams)
    (hkeeps : KeepsText st.emitted ps) (more : List PiEvent)
    -- what was sent behind the pieces can only be empty, as the text is complete without it
    (hpre : ∀ kind, textOf kind (emitAll translateEvent st (ps.flatMap Piece.events ++ more)).2 <+:
      contentOf kind ps) (kind : BlockKind) :
    textOf kind (emitAll translateEvent st (ps.flatMap Piece.events ++ more)).2 ++
        textOf kind (emitAll replayPiece
          (emitAll translateEvent st (ps.flatMap Piece.events ++ more)).1 ps).2 =
      contentOf kind ps := by
  have hpre := hpre kind
  rw [emitAll_append] at hpre ⊢
  rw [replayPieces_done fun p hp => (counted_of_events st h p hp).trans
    (emitAll_mono translateEvent_mono _ _ _ _)]
  rw [textOf_append, live_text kind st h, (saidOf_eq_iff st.emitted h).mpr hkeeps kind] at hpre ⊢
  have hnil : textOf kind (emitAll translateEvent
      (emitAll translateEvent st (ps.flatMap Piece.events)).1 more).2 = [] := by
    have hlen := hpre.length_le
    rw [List.length_append] at hlen
    exact List.eq_nil_of_length_eq_zero (by omega)
  rw [hnil]
  simp [textOf]

/-- A run streams its text whole exactly when its pieces keep their text; and so it does up to a cut
    together with the replay of the persisted messages.  The replay holds the result of a call exactly
    if its end was not seen, and a second one is empty. -/
theorem streamed_eq_persisted (st : TranslateState) (run : List (List (EntryBlock × List Str)))
    (hrun : ∀ p ∈ pieces run, p.Streams) :
    (∀ events : List PiEvent,
      events.filter PiEvent.isUpdate = (pieces run).flatMap Piece.events →
      ((∀ kind, textOf kind (emitAll translateEvent st.resetTurn events).2 =
          contentOf kind (pieces run)) ↔ KeepsText (fun _ _ => 0) (pieces run))) ∧
    ∀ (events : List PiEvent) (n k : Nat) (entries : List Entry),
      events.filter PiEvent.isUpdate = ((pieces run).flatMap Piece.events).take n →
      persisted entries = (run.take k).map (List.map Prod.fst) →
      let live := emitAll translateEvent st.resetTurn events
      let replay := replayEntries live.1 entries
      let saved := pieces (run.take k)
      (n ≤ (saved.flatMap Piece.events).length →
        ((∀ kind, textOf kind live.2 ++ textOf kind replay.2 = contentOf kind saved) ↔
          KeepsText (fun _ _ => 0) (cutAt n saved))) ∧
      ((∀ kind, textOf kind live.2 <+: contentOf kind saved) →
        KeepsText (fun _ _ => 0) (cutAt n saved) →
        ∀ kind, textOf kind live.2 ++ textOf kind replay.2 = contentOf kind saved) ∧
      (∀ id, id ≠ [] →
        (unfinished id (id ∈ st.toolNames) events ∧ some id ∈ entries.map Entry.resultOf →
          (replay.2.filterMap AcpEvent.resultOf).count id = 1) ∧
        (¬(unfinished id (id ∈ st.toolNames) events ∧ some id ∈ entries.map Entry.resultOf) →
          (replay.2.filterMap AcpEvent.resultOf).count id = 0)) ∧
      (replayEntries replay.1 entries).2 = [] := by
  constructor
  · -- the live text is that of the updates, whatever came between them
    intro events hev
    rw [← saidOf_eq_iff _ hrun]
    exact forall_congr' fun kind => by
      rw [(text_filter kind st.resetTurn events).1, hev, live_text kind _ hrun]
      rfl
  intro events n k entries hev hsaved live replay saved
  -- the persisted messages are a first part of the run
  have hsplit : pieces run = saved ++ pieces (run.drop k) := by
    rw [← pieces_append, List.take_append_drop]
  have hstreams : ∀ p ∈ saved, p.Streams := fun p hp =>
    hrun p (hsplit ▸ List.mem_append_left _ hp)
  have hlive : ∀ kind, textOf kind live.2 = textOf kind (emitAll translateEvent st.resetTurn
      (((pieces run).flatMap Piece.events).take n)).2 := fun kind => by
    rw [← hev, ← (text_filter kind st.resetTurn events).1]
  have hreplay : ∀ kind, textOf kind replay.2 = textOf kind (emitAll replayPiece
      (emitAll translateEvent st.resetTurn (((pieces run).flatMap Piece.events).take n)).1
        saved).2 := fun kind => by
    refine replayEntries_text kind ?_ hsaved
    rw [← hev, ← (text_filter kind st.resetTurn events).2]
  rw [hsplit, List.flatMap_append] at hlive hreplay
  -- the cut is within what was persisted
  have hiff : n ≤ (saved.flatMap Piece.events).length →
      ((∀ kind, textOf kind live.2 ++ textOf kind replay.2 = contentOf kind saved) ↔
        KeepsText (fun _ _ => 0) (cutAt n saved)) := by
    intro hn
    rw [List.take_append_of_le_length hn] at hlive hreplay
    exact Iff.trans (forall_congr' fun kind => by rw [hlive, hreplay])
      (cut_eq_iff st.resetTurn hstreams n)
  refine ⟨hiff, ?_, ?_, ?_⟩
  · intro hpre hkeeps kind
    rcases Nat.le_total n (saved.flatMap Piece.events).length with hn | hn
    · exact (hiff hn).mpr hkeeps kind
    · -- the persisted messages were streamed whole, and maybe more
      rw [List.take_append, List.take_of_length_le hn] at hlive hreplay
      rw [cutAt_of_length_le hn] at hkeeps
      rw [hlive, hreplay]
      exact cut_behind st.resetTurn hstreams hkeeps _ (fun kind => hlive kind ▸ hpre kind) kind
  · intro id hid
    -- a result is sent once if its call was still open, and not at all otherwise
    have hcount := (replayEntries_tools hid live.1 entries).1
    have hopen : id ∈ live.1.toolNames ↔ unfinished id (id ∈ st.toolNames) events :=
      mem_toolNames_iff id st.resetTurn events
    rw [← hopen]
    exact ⟨fun h => by rw [hcount, if_pos h], fun h => by rw [hcount, if_neg h]⟩
  · exact congrArg Prod.snd (replayEntries_twice live.1 entries)

instance decidableStreams (p : Piece) : Decidable p.Streams :=
  inferInstanceAs (Decidable (p.streamed <+: p.content))

/-- Two messages, each with one block of index 0; of the second one three characters are streamed. -/
private def greetings : List (List (EntryBlock × List Str)) :=
  [[(.text "Hello".toList, ["Hello".toList])], [(.text "Bye now".toList, ["Bye".toList])]]

/-- The end of the second block, live or replayed, finds eight bytes counted and emits nothing. -/
theorem streamed_loses_text :
    (∀ p ∈ pieces greetings, p.Streams) ∧
      textOf .text (emitAll translateEvent (TranslateState.resetTurn {})
          ((pieces greetings).flatMap Piece.events)).2 = "HelloBye".toList ∧
      contentOf .text (pieces greetings) = "HelloBye now".toList ∧
      textOf .text (emitAll translateEvent (TranslateState.resetTurn {})
          (((pieces greetings).flatMap Piece.events).take 3)).2 = "HelloBye".toList ∧
      (replayEntries (emitAll translateEvent (TranslateState.resetTurn {})
          (((pieces greetings).flatMap Piece.events).take 3)).1
        [.assistant [.text "Hello".toList], .assistant [.text "Bye now".toList]]).2 = [] := by
  decide +kernel

/-- A message whose blocks are of different kinds, the second one without deltas. -/
theorem streamed_eq_persisted_twoKinds :
    textOf .text (emitAll translateEvent (TranslateState.resetTurn {})
        ((pieces [[(.thinking "Hm".toList, ["H".toList]), (.text "Yes".toList, [])]]).flatMap
          Piece.events)).2 =
      contentOf .text (pieces [[(.thinking "Hm".toList, ["H".toList]), (.text "Yes".toList, [])]]) :=
  ((streamed_eq_persisted {} [[(.thinking "Hm".toList, ["H".toList]), (.text "Yes".toList, [])]]
    (by decide +kernel)).1 _ (by decide +kernel)).mpr (by decide +kernel) .text

end TeamClu.Runtime
