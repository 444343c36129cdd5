import TeamClu.ForStd.Machine
import TeamClu.Spec.TimelineEntries

/-!
# One bubble for each message

A message reaches the timeline as a local prompt, as a live message and as a row of the history.  Each
message has exactly one bubble, its own, in every run whose steps merge (`Merges`): a message that
has a bubble already is recognized by its id, and a row of the history meets no bubble of the same text
that waits for its row (`one_bubble_each`).  A live message behind its row of the history is the run
that gives two bubbles (`two_bubbles`).
-/

namespace TeamClu.Timeline

/-- A message of a person. -/
structure HumanMessage where
  messageID : Str
  sender : Str
  content : Str
  deriving DecidableEq

/-- An entry stands for the message with this id. -/
def represents (messageID : Str) (e : TimelineEntry) : Bool :=
  e.id = some messageID || e.clientID = some messageID || e.outboxMessageID = some messageID ||
    e.supabaseMessageID = some messageID

/-- The input brings the message: its live message, its row of the history or its local prompt. -/
def Brings (m : HumanMessage) : TimelineInput → Prop
  | .liveMessage l => l.messageID = m.messageID ∧ l.senderActorID = m.sender ∧
      l.content = m.content ∧ ∀ c ∈ l.clientLocalID, c = m.messageID
  | .historyMessage h => h.supabaseMessageID = m.messageID ∧ h.senderActorID = some m.sender ∧
      h.content = m.content ∧ h.isOutput = false
  | .localPrompt p => p.clientID = m.messageID ∧ p.senderActorID = m.sender ∧ p.content = m.content
  | _ => False

/-- The message has exactly one bubble, which carries its sender and its content. -/
def OneBubble (m : HumanMessage) (s : TimelineState) : Prop :=
  ∃ e, s.entries.filter (represents m.messageID) = [e] ∧ e.eventType = .userPrompt ∧
    e.senderActorID = some m.sender ∧ e.text = some m.content

/-- The step recognizes the message.  When it has a bubble, a live message finds its own id or the
    local prompt that it echoes, and a local prompt finds itself; when it has none, a row of the history
    finds no bubble of the same text without a row. -/
def Merges (T : SwiftText) (s : TimelineState) : TimelineInput → Bool
  | .liveMessage l =>
    !s.entries.any (represents l.messageID) || s.entries.any (·.id = some l.messageID) ||
      l.clientLocalID.any fun c => s.entries.any (·.clientID = some c)
  | .historyMessage h =>
    s.entries.any (represents h.supabaseMessageID) || !s.entries.any (isSameText T h)
  | .localPrompt p =>
    !s.entries.any (represents p.clientID) || s.entries.any (·.clientID = some p.clientID)
  | _ => true

/-- The reducer, from the empty timeline on. -/
def reducer (T : SwiftText) : Machine TimelineState TimelineInput where
  init := {}
  step s input := apply T input s

/-! ## The invariant -/

/-- A bubble of the message. -/
structure Bubble (m : HumanMessage) (e : TimelineEntry) : Prop where
  eventType : e.eventType = .userPrompt
  sender : e.senderActorID = some m.sender
  text : e.text = some m.content
  /-- All ids of the entry are the message's. -/
  id : ∀ x ∈ e.id, x = m.messageID
  clientID : ∀ x ∈ e.clientID, x = m.messageID ∧ e.outboxMessageID = some x
  outboxMessageID : ∀ x ∈ e.outboxMessageID, x = m.messageID
  supabaseMessageID : ∀ x ∈ e.supabaseMessageID, x = m.messageID
  /-- It has one. -/
  represents : represents m.messageID e = true

/-- Every entry is the bubble of a message, and no message has two. -/
structure Bubbles (msgs : List HumanMessage) (s : TimelineState) : Prop where
  bubble : ∀ e ∈ s.entries, ∃ m ∈ msgs, Bubble m e
  once : ∀ messageID, s.entries.countP (represents messageID) ≤ 1
  pending : s.pendingPersistedReplies = []

/-- A bubble stands for its message only. -/
theorem Bubble.represents_iff {m : HumanMessage} {e : TimelineEntry} (h : Bubble m e) (x : Str) :
    Timeline.represents x e = true ↔ x = m.messageID := by
  constructor
  · intro hx
    simp only [Timeline.represents, Bool.or_eq_true, decide_eq_true_eq] at hx
    rcases hx with ((hx | hx) | hx) | hx
    · exact h.id x hx
    · exact (h.clientID x hx).1
    · exact h.outboxMessageID x hx
    · exact h.supabaseMessageID x hx
  · rintro rfl
    exact h.represents

theorem Bubble.represents_eq {m : HumanMessage} {e e' : TimelineEntry} (h : Bubble m e)
    (h' : Bubble m e') (x : Str) : Timeline.represents x e' = Timeline.represents x e := by
  rw [Bool.eq_iff_iff, h.represents_iff, h'.represents_iff]

section

variable {msgs : List HumanMessage} (hmsgs : (msgs.map HumanMessage.messageID).Nodup)

include hmsgs

/-- The messages are told apart by their ids. -/
private theorem eq_of_messageID {m m' : HumanMessage} (hm : m ∈ msgs) (hm' : m' ∈ msgs)
    (h : m.messageID = m'.messageID) : m = m' :=
  List.inj_on_of_nodup_map hmsgs hm hm' h

/-- The invariant is what the run should keep. -/
theorem Bubbles.oneBubble {s : TimelineState} (h : Bubbles msgs s) {m : HumanMessage} (hm : m ∈ msgs)
    (hrep : s.entries.any (represents m.messageID) = true) : OneBubble m s := by
  obtain ⟨e, he, hrep⟩ := List.any_eq_true.mp hrep
  have hfilter : e ∈ s.entries.filter (represents m.messageID) := List.mem_filter.mpr ⟨he, hrep⟩
  have hle := h.once m.messageID
  rw [List.countP_eq_length_filter] at hle
  obtain ⟨m', hm', hbubble⟩ := h.bubble e he
  obtain rfl := eq_of_messageID hmsgs hm hm' ((hbubble.represents_iff _).mp hrep)
  refine ⟨e, ?_, hbubble.eventType, hbubble.sender, hbubble.text⟩
  match hlist : s.entries.filter (represents m.messageID) with
  | [] =>
    rw [hlist] at hfilter
    exact absurd hfilter List.not_mem_nil
  | [x] =>
    rw [hlist, List.mem_singleton] at hfilter
    rw [hfilter]
  | x :: y :: l =>
    rw [hlist] at hle
    simp at hle

omit hmsgs in
/-- A bubble of the message is changed into a bubble of the message. -/
theorem Bubbles.update {s : TimelineState} (h : Bubbles msgs s) {p : TimelineEntry → Bool}
    {f : TimelineEntry → TimelineEntry}
    (hf : ∀ m ∈ msgs, ∀ e ∈ s.entries, p e = true → Bubble m e → Bubble m (f e)) :
    Bubbles msgs { s with entries := updateFirst p f s.entries } where
  bubble := forall_updateFirst h.bubble fun e he hp => by
    obtain ⟨m, hm, hbubble⟩ := h.bubble e he
    exact ⟨m, hm, hf m hm e he hp hbubble⟩
  once := fun x => by
    rw [countP_updateFirst fun e he hp => ?_]
    · exact h.once x
    · obtain ⟨m, hm, hbubble⟩ := h.bubble e he
      exact hbubble.represents_eq (hf m hm e he hp hbubble) x
  pending := h.pending

omit hmsgs in
/-- The bubble of a message that has none is added. -/
theorem Bubbles.add {s : TimelineState} (h : Bubbles msgs s) {m : HumanMessage} (hm : m ∈ msgs)
    (hnew : s.entries.any (represents m.messageID) = false) {e : TimelineEntry} (he : Bubble m e)
    {entries : List TimelineEntry} (hperm : entries.Perm (s.entries ++ [e])) :
    Bubbles msgs { s with entries } where
  bubble := fun x hx => by
    rcases List.mem_append.mp (hperm.mem_iff.mp hx) with hx | hx
    · exact h.bubble x hx
    · obtain rfl := List.mem_singleton.mp hx
      exact ⟨m, hm, he⟩
  once := fun x => by
    rw [hperm.countP_eq, List.countP_append, List.countP_singleton]
    split
    · next hrep =>
      obtain rfl := (he.represents_iff x).mp hrep
      rw [List.countP_eq_zero.mpr fun y hy => by
        simpa using List.any_eq_false.mp hnew y hy]
    · exact h.once x
  pending := h.pending

end

/-! ## Steps -/

private theorem any_iff_countP {q : TimelineEntry → Bool} {es : List TimelineEntry} :
    es.any q = true ↔ 0 < es.countP q := by
  rw [List.any_eq_true, List.countP_pos_iff]

/-- What a step does to the messages that have a bubble: the message that it brings has one, and the
    others keep theirs. -/
def Shows (m : HumanMessage) (s s' : TimelineState) : Prop :=
  s'.entries.any (represents m.messageID) = true ∧
    ∀ x, s.entries.any (represents x) = true → s'.entries.any (represents x) = true

section Steps

variable {T : SwiftText} {msgs : List HumanMessage}
  (hmsgs : (msgs.map HumanMessage.messageID).Nodup) {s : TimelineState} (h : Bubbles msgs s)
  {m : HumanMessage} (hm : m ∈ msgs)

include h in
/-- A changed bubble still stands for its message. -/
private theorem any_represents_update {p : TimelineEntry → Bool} {f : TimelineEntry → TimelineEntry}
    (hf : ∀ m ∈ msgs, ∀ e ∈ s.entries, p e = true → Bubble m e → Bubble m (f e)) (x : Str) :
    (updateFirst p f s.entries).any (represents x) = s.entries.any (represents x) := by
  rw [Bool.eq_iff_iff, any_iff_countP, any_iff_countP, countP_updateFirst fun e he hp => ?_]
  obtain ⟨m, hm, hbubble⟩ := h.bubble e he
  exact hbubble.represents_eq (hf m hm e he hp hbubble) x

include h hmsgs hm

/-- A step that changes a bubble of the message. -/
private theorem update_shows {p : TimelineEntry → Bool} {f : TimelineEntry → TimelineEntry}
    (hany : s.entries.any p = true)
    (hp : ∀ e, p e = true → represents m.messageID e = true)
    (hf : ∀ e, p e = true → Bubble m e → Bubble m (f e)) :
    Bubbles msgs { s with entries := updateFirst p f s.entries } ∧
      Shows m s { s with entries := updateFirst p f s.entries } := by
  have hf' : ∀ m' ∈ msgs, ∀ e ∈ s.entries, p e = true → Bubble m' e → Bubble m' (f e) := by
    intro m' hm' e he hpe hbubble
    obtain rfl := eq_of_messageID hmsgs hm hm' ((hbubble.represents_iff _).mp (hp e hpe))
    exact hf e hpe hbubble
  refine ⟨h.update hf', ?_, fun x hx => ?_⟩
  · obtain ⟨e, he, hpe⟩ := List.any_eq_true.mp hany
    rw [any_represents_update h hf']
    exact List.any_eq_true.mpr ⟨e, he, hp e hpe⟩
  · rw [any_represents_update h hf']
    exact hx

omit hmsgs in
/-- A step that adds the bubble of the message. -/
private theorem add_shows (hnew : s.entries.any (represents m.messageID) = false)
    {e : TimelineEntry} (he : Bubble m e) {entries : List TimelineEntry}
    (hperm : entries.Perm (s.entries ++ [e])) :
    Bubbles msgs { s with entries } ∧ Shows m s { s with entries } := by
  have hany : ∀ x, entries.any (represents x) =
      (s.entries.any (represents x) || represents x e) := by
    intro x
    rw [hperm.any_eq, List.any_append, List.any_cons, List.any_nil, Bool.or_false]
  refine ⟨h.add hm hnew he hperm, ?_, fun x hx => ?_⟩
  · rw [hany, he.represents, Bool.or_true]
  · rw [hany, hx, Bool.true_or]

/-- A live message. -/
private theorem live_shows {l : LiveMessageInput} (hx : Brings m (.liveMessage l))
    (hmerge : Merges T s (.liveMessage l) = true) :
    Bubbles msgs (applyLive l s).1 ∧ Shows m s (applyLive l s).1 := by
  obtain ⟨hid, hsender, hcontent, hclient⟩ := hx
  unfold applyLive
  split
  · next hseen =>
    -- the bubble has the id of the message already
    refine ⟨h, ?_, fun _ hx => hx⟩
    obtain ⟨e, he, hide⟩ := List.any_eq_true.mp hseen
    refine List.any_eq_true.mpr ⟨e, he, ?_⟩
    simp only [represents, ← hid, hide, Bool.true_or]
  next hseen =>
  simp only
  split
  · next hlocal =>
    -- the echo of the local prompt
    refine update_shows hmsgs h hm hlocal (fun e he => ?_) (fun e he hbubble => ?_)
    · obtain ⟨c, hc, hce⟩ := (Option.any_eq_true _ _).mp he
      rw [hclient c hc, decide_eq_true_eq] at hce
      simp [represents, hce]
    · have hid' : (some l.messageID : Option Str) = some m.messageID := congrArg some hid
      refine { hbubble with id := ?_, clientID := ?_, represents := ?_ }
      · rintro x hx
        exact Option.some.inj (hx.symm.trans hid')
      · exact fun x hx => (by cases hx)
      · simp [Timeline.represents, hid]
  · next hlocal =>
    have hnew : s.entries.any (represents m.messageID) = false := by
      simp only [Merges, hid, Bool.or_eq_true, Bool.not_eq_true'] at hmerge
      rcases hmerge with (hnew | hid') | hc
      · exact hnew
      · exact absurd (hid ▸ hid') hseen
      · refine absurd ?_ hlocal
        obtain ⟨c, hcl, hc⟩ := (Option.any_eq_true _ _).mp hc
        obtain ⟨e, he, hce⟩ := List.any_eq_true.mp hc
        exact List.any_eq_true.mpr ⟨e, he, (Option.any_eq_true _ _).mpr ⟨c, hcl, hce⟩⟩
    refine add_shows h hm hnew ⟨rfl, ?_, ?_, ?_, ?_, ?_, ?_, ?_⟩ (List.Perm.refl _)
    · exact congrArg some hsender
    · exact congrArg some hcontent
    · rintro x hx
      exact (Option.some.inj hx).symm.trans hid
    · exact fun x hx => (by cases hx)
    · exact fun x hx => (by cases hx)
    · exact fun x hx => (by cases hx)
    · simp [Timeline.represents, hid]

omit hmsgs in
/-- A local prompt. -/
private theorem local_shows {p : LocalPromptInput} (hx : Brings m (.localPrompt p))
    (hmerge : Merges T s (.localPrompt p) = true) :
    Bubbles msgs (applyLocal p s).1 ∧ Shows m s (applyLocal p s).1 := by
  obtain ⟨hid, hsender, hcontent⟩ := hx
  unfold applyLocal
  split
  · next hseen =>
    refine ⟨h, ?_, fun _ hx => hx⟩
    obtain ⟨e, he, hide⟩ := List.any_eq_true.mp hseen
    rw [decide_eq_true_eq, hid] at hide
    exact List.any_eq_true.mpr ⟨e, he, by simp [represents, hide]⟩
  · next hseen =>
    have hnew : s.entries.any (represents m.messageID) = false := by
      simp only [Merges, hid, Bool.or_eq_true, Bool.not_eq_true'] at hmerge
      exact hmerge.resolve_right (hid ▸ hseen)
    refine add_shows h hm hnew ⟨rfl, ?_, ?_, ?_, ?_, ?_, ?_, ?_⟩ (List.Perm.refl _)
    · exact congrArg some hsender
    · exact congrArg some hcontent
    · exact fun x hx => (by cases hx)
    · rintro x ⟨⟩
      exact ⟨hid, rfl⟩
    · rintro x ⟨⟩
      exact hid
    · exact fun x hx => (by cases hx)
    · simp [Timeline.represents, hid]

/-- A row of the history. -/
private theorem history_shows {input : HistoryInput} (hx : Brings m (.historyMessage input))
    (hmerge : Merges T s (.historyMessage input) = true) :
    Bubbles msgs (applyHistory T input s).1 ∧ Shows m s (applyHistory T input s).1 := by
  obtain ⟨hid, hsender, hcontent, hkind⟩ := hx
  have hrow : (applyHistory T input s).1 = { s with entries := applyHistoryRow T input s.entries } := by
    unfold applyHistory
    simp [hkind]
  -- a bubble of the message keeps all that makes it one when its row is known
  have hclaim : ∀ e t, Bubble m e → Bubble m
      { backfill input e with
        supabaseMessageID := some input.supabaseMessageID, timestamp := t } := by
    intro e t hbubble
    refine { hbubble with supabaseMessageID := ?_, represents := ?_ }
    · rintro x ⟨⟩
      exact hid
    · simp [Timeline.represents, hid]
  rw [hrow]
  unfold applyHistoryRow
  simp only [hkind, Bool.false_and, Bool.false_eq_true, if_false]
  split
  · next hseen =>
    refine update_shows hmsgs h hm hseen (fun e he => ?_) (fun e _ hbubble => ?_)
    · rw [hasSupabaseID, decide_eq_true_eq, hid] at he
      simp [represents, he]
    · exact { hbubble with }
  next hseen =>
  split
  · next hown =>
    refine update_shows hmsgs h hm hown (fun e he => ?_) (fun e _ hbubble => hclaim e _ hbubble)
    simp only [isOwnBubble, hid, Bool.or_eq_true, decide_eq_true_eq] at he
    rcases he with he | he <;> simp [represents, he]
  next hown =>
  -- so the message has no bubble
  have hnew : s.entries.any (represents m.messageID) = false := by
    rw [Bool.eq_false_iff]
    intro hany
    obtain ⟨e, he, hrep⟩ := List.any_eq_true.mp hany
    obtain ⟨m', -, hbubble⟩ := h.bubble e he
    simp only [represents, Bool.or_eq_true, decide_eq_true_eq] at hrep
    rcases hrep with ((hrep | hrep) | hrep) | hrep
    · exact hown (List.any_eq_true.mpr ⟨e, he, by simp [isOwnBubble, hid, hrep]⟩)
    · have hbox := (hbubble.clientID _ hrep).2
      exact hown (List.any_eq_true.mpr ⟨e, he, by simp [isOwnBubble, hid, hbox]⟩)
    · exact hown (List.any_eq_true.mpr ⟨e, he, by simp [isOwnBubble, hid, hrep]⟩)
    · exact hseen (List.any_eq_true.mpr ⟨e, he, by simp [hasSupabaseID, hid, hrep]⟩)
  have hsame : s.entries.any (isSameText T input) = false := by
    simpa [Merges, hid, hnew] using hmerge
  rw [if_neg (by simp [hsame])]
  refine add_shows h hm hnew ?_ (List.perm_insertionSort _ _)
  refine ⟨?_, hsender, congrArg some hcontent, ?_, ?_, ?_, ?_, ?_⟩
  · simp [HistoryInput.eventType, hkind]
  · exact fun x hx => (by cases hx)
  · exact fun x hx => (by cases hx)
  · exact fun x hx => (by cases hx)
  · rintro x ⟨⟩
    exact hid
  · simp [Timeline.represents, hid]

/-- A step that merges keeps one bubble a message. -/
theorem Bubbles.step {input : TimelineInput} (hx : Brings m input)
    (hmerge : Merges T s input = true) :
    Bubbles msgs (apply T input s) ∧ Shows m s (apply T input s) := by
  cases input with
  | liveMessage l =>
    have hstep := live_shows hmsgs h hm hx hmerge
    have heq : apply T (.liveMessage l) s = (applyLive l s).1 := claim_of_pending_nil T hstep.1.pending
    rwa [heq]
  | historyMessage r =>
    have hstep := history_shows hmsgs h hm hx hmerge
    have heq : apply T (.historyMessage r) s = (applyHistory T r s).1 := claim_of_pending_nil T hstep.1.pending
    rwa [heq]
  | localPrompt p =>
    have hstep := local_shows h hm hx hmerge
    have heq : apply T (.localPrompt p) s = (applyLocal p s).1 := claim_of_pending_nil T hstep.1.pending
    rwa [heq]
  | acp | permissionResolution | persistedReply => exact absurd hx id

end Steps

/-! ## Runs -/

/-- What the run should give: each message has one bubble, and no bubble stands for two messages. -/
def OneBubbleEach (msgs : List HumanMessage) (s : TimelineState) : Prop :=
  (∀ m ∈ msgs, OneBubble m s) ∧ ∀ e ∈ s.entries, ∀ m ∈ msgs, ∀ m' ∈ msgs,
    represents m.messageID e = true → represents m'.messageID e = true → m = m'

/-- In a run that brings messages and whose steps merge, every message that was brought has exactly
    one bubble. -/
theorem one_bubble_each (T : SwiftText) (msgs : List HumanMessage)
    (hmsgs : (msgs.map HumanMessage.messageID).Nodup) (inputs : List TimelineInput)
    (hinputs : ∀ input ∈ inputs, ∃ m ∈ msgs, Brings m input)
    (hbrought : ∀ m ∈ msgs, ∃ input ∈ inputs, Brings m input)
    (hmerge : (reducer T).Steps (fun s input => Merges T s input = true) (reducer T).init inputs) :
    OneBubbleEach msgs ((reducer T).run inputs) := by
  -- the invariant, and the messages that have a bubble
  have hrun : ∀ (is : List TimelineInput) (s : TimelineState), Bubbles msgs s →
      (∀ input ∈ is, ∃ m ∈ msgs, Brings m input) →
      (reducer T).Steps (fun s input => Merges T s input = true) s is →
        Bubbles msgs ((reducer T).runFrom s is) ∧
        ∀ m ∈ msgs, (s.entries.any (represents m.messageID) = true ∨
          ∃ input ∈ is, Brings m input) →
            ((reducer T).runFrom s is).entries.any (represents m.messageID) = true := by
    intro is
    induction is with
    | nil =>
      refine fun s hs _ _ => ⟨hs, fun m _ hm => hm.elim id fun ⟨_, hmem, _⟩ => ?_⟩
      exact absurd hmem List.not_mem_nil
    | cons input is ih =>
      intro s hs his hsteps
      rw [List.forall_mem_cons] at his
      obtain ⟨m, hm, hbrings⟩ := his.1
      obtain ⟨hnext, hshows⟩ := hs.step hmsgs hm hbrings hsteps.1
      obtain ⟨hend, hkept⟩ := ih _ hnext his.2 hsteps.2
      refine ⟨hend, fun m' hm' hcase => hkept m' hm' ?_⟩
      rcases hcase with hrep | ⟨input', hmem, hbrings'⟩
      · exact Or.inl (hshows.2 _ hrep)
      rcases List.mem_cons.mp hmem with rfl | hmem
      · -- an input brings one message
        have hsame : m'.messageID = m.messageID := by
          cases input' with
          | liveMessage => exact hbrings'.1.symm.trans hbrings.1
          | historyMessage => exact hbrings'.1.symm.trans hbrings.1
          | localPrompt => exact hbrings'.1.symm.trans hbrings.1
          | acp | permissionResolution | persistedReply => exact absurd hbrings id
        exact Or.inl (hsame ▸ hshows.1)
      · exact Or.inr ⟨input', hmem, hbrings'⟩
  have hinit : Bubbles msgs (reducer T).init :=
    ⟨fun _ he => absurd he List.not_mem_nil, fun _ => Nat.zero_le 1, rfl⟩
  obtain ⟨hend, hrep⟩ := hrun inputs (reducer T).init hinit hinputs hmerge
  refine ⟨fun m hm => hend.oneBubble hmsgs hm (hrep m hm (Or.inr (hbrought m hm))), ?_⟩
  intro e he m hm m' hm' hrep hrep'
  obtain ⟨m'', hm'', hbubble⟩ := hend.bubble e he
  refine eq_of_messageID hmsgs hm hm' ?_
  rw [(hbubble.represents_iff _).mp hrep, (hbubble.represents_iff _).mp hrep']

/-- One's own message, sent, echoed and loaded, between two deliveries of another's. -/
def sampleMessages : List HumanMessage :=
  [{ messageID := "m1".toList, sender := "ann".toList, content := "hi".toList },
    { messageID := "m2".toList, sender := "bob".toList, content := "hi".toList }]

/-- Their deliveries: `m1` as a local prompt, live and from the history, `m2` live and from the
    history. -/
def sampleInputs : List TimelineInput :=
  [.localPrompt { clientID := "m1".toList, senderActorID := "ann".toList, content := "hi".toList
                  createdAt := 5, replyToMessageID := none },
    .liveMessage { messageID := "m2".toList, clientLocalID := none, senderActorID := "bob".toList
                   content := "hi".toList, createdAt := 6, replyToMessageID := none },
    .liveMessage { messageID := "m1".toList, clientLocalID := some "m1".toList
                   senderActorID := "ann".toList, content := "hi".toList, createdAt := 4
                   replyToMessageID := none },
    .historyMessage { supabaseMessageID := "m1".toList, isOutput := false
                      senderActorID := some "ann".toList, content := "hi".toList, createdAt := 4
                      model := none, turnID := none, sequence := 0, closesTurn := false
                      attachments := [], replyToMessageID := none },
    .historyMessage { supabaseMessageID := "m2".toList, isOutput := false
                      senderActorID := some "bob".toList, content := "hi".toList, createdAt := 6
                      model := none, turnID := none, sequence := 0, closesTurn := false
                      attachments := [], replyToMessageID := none }]

private theorem sample_brings :
    (∀ input ∈ sampleInputs, ∃ m ∈ sampleMessages, Brings m input) ∧
      ∀ m ∈ sampleMessages, ∃ input ∈ sampleInputs, Brings m input := by
  simp [sampleInputs, sampleMessages, Brings]

/-- Two messages of the same text, each with one bubble. -/
theorem one_bubble_each_sample :
    (sampleMessages.map HumanMessage.messageID).Nodup ∧
      (reducer plainText).Steps (fun s input => Merges plainText s input = true)
        (reducer plainText).init sampleInputs ∧
      OneBubbleEach sampleMessages ((reducer plainText).run sampleInputs) :=
  ⟨by decide, by decide +kernel,
    one_bubble_each plainText sampleMessages (by decide) sampleInputs sample_brings.1
      sample_brings.2 (by decide)⟩

/-- A live message behind its row of the history has two bubbles. -/
theorem two_bubbles :
    ¬ ∀ (msgs : List HumanMessage) (inputs : List TimelineInput),
      (msgs.map HumanMessage.messageID).Nodup →
      (∀ input ∈ inputs, ∃ m ∈ msgs, Brings m input) →
      (∀ m ∈ msgs, ∃ input ∈ inputs, Brings m input) →
        OneBubbleEach msgs ((reducer plainText).run inputs) := by
  intro h
  obtain ⟨hone, -⟩ := h [{ messageID := "m".toList, sender := "ann".toList, content := "hi".toList }]
    [.historyMessage { supabaseMessageID := "m".toList, isOutput := false
                       senderActorID := some "ann".toList, content := "hi".toList, createdAt := 4
                       model := none, turnID := none, sequence := 0, closesTurn := false
                       attachments := [], replyToMessageID := none },
      .liveMessage { messageID := "m".toList, clientLocalID := none, senderActorID := "ann".toList
                     content := "hi".toList, createdAt := 4, replyToMessageID := none }]
    (by decide) (by simp [Brings]) (by simp [Brings])
  obtain ⟨e, he, -⟩ := hone _ List.mem_cons_self
  have hlen := (congrArg List.length he).trans (List.length_singleton (a := e))
  revert hlen
  decide

end TeamClu.Timeline
