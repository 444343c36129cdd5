import TeamClu.Native.SeaTalkCursor
import Mathlib.Tactic.Common

/-!
# The read cursor loses and repeats no message

A cursor remembers exactly what was read at or after its watermark (`Tracks`), which every mark and every
noted reply keeps.  So a message at or after the watermark is unread exactly when it was in no mark and
is no noted reply (`cursor_exact`).
-/

namespace TeamClu.SeaTalk

/-- The watermark of a thread. -/
def watermark (cursors : Cursors) (key : Str) : Int :=
  ((cursors key).map (·.sentTime)).getD minTime

/-- The cursor is that of a thread in which these messages were read. -/
structure Tracks (mailbox : Mailbox) (read : List Str) (cursor : StoredCursor) : Prop where
  ids : ∀ id ∈ cursor.messageIds, id ∈ read
  ahead : ∀ item ∈ cursor.readAhead, item.messageId ∈ read
  aheadTime : ∀ item ∈ cursor.readAhead, ∀ id : MessageId, id.val = item.messageId →
    (mailbox.message id).sentTime = item.sentTime
  /-- A read message is passed, or at the watermark, or ahead of it. -/
  passed : ∀ id : MessageId, id.val ∈ read → (mailbox.message id).sentTime < cursor.sentTime ∨
    ((mailbox.message id).sentTime = cursor.sentTime ∧ id.val ∈ cursor.messageIds) ∨
    ∃ item ∈ cursor.readAhead, item.messageId = id.val

/-- A thread without a cursor has nothing read. -/
def TracksThread (mailbox : Mailbox) (read : List Str) : Option StoredCursor → Prop
  | none => read = []
  | some cursor => Tracks mailbox read cursor

variable {mailbox : Mailbox} {read : List Str} {cursor : StoredCursor}

/-! ## Ids -/

theorem mem_pushId {ids : List Str} {id x : Str} : x ∈ pushId ids id ↔ x ∈ ids ∨ x = id := by
  rw [pushId]
  split
  · next hmem =>
    exact ⟨.inl, fun h => h.elim (fun hx => hx) fun heq => heq ▸ hmem⟩
  · simp

theorem mem_foldl_pushId {new ids : List Str} {x : Str} :
    x ∈ new.foldl pushId ids ↔ x ∈ ids ∨ x ∈ new := by
  induction new generalizing ids with
  | nil => simp
  | cons id new ih =>
    rw [List.foldl_cons, ih, mem_pushId, List.mem_cons]
    exact or_assoc

/-! ## Marks -/

/-- The mark is that of these messages. -/
structure Marks (mark : ReadMark) (considered : List (Int × Str)) : Prop where
  newest : ∀ m ∈ considered, m.1 < mark.sentTime ∨ (m.1 = mark.sentTime ∧ m.2 ∈ mark.messageIds)
  ids : ∀ id ∈ mark.messageIds, ∃ m ∈ considered, m.2 = id
  reached : ∃ m ∈ considered, m.1 = mark.sentTime

/-- One more message is considered. -/
theorem Marks.consider {mark : ReadMark} {considered : List (Int × Str)} (h : Marks mark considered)
    (sentTime : Int) (id : Str) :
    ∃ mark', SeaTalk.consider (some mark) sentTime id = some mark' ∧
      Marks mark' (considered ++ [(sentTime, id)]) := by
  rw [SeaTalk.consider]
  split
  · -- A newer message is the only one at its time.
    next hnewer =>
    refine ⟨_, rfl, ?_, ?_, ⟨_, List.mem_append_right _ List.mem_cons_self, rfl⟩⟩
    · intro m hm
      rcases List.mem_append.mp hm with hm | hm
      · have hle : m.1 ≤ mark.sentTime := by rcases h.newest m hm with hlt | ⟨heq, -⟩ <;> omega
        exact .inl (Int.lt_of_le_of_lt hle hnewer)
      · rw [List.mem_singleton.mp hm]
        exact .inr ⟨rfl, List.mem_cons_self⟩
    · intro x hx
      rw [List.mem_singleton.mp hx]
      exact ⟨_, List.mem_append_right _ List.mem_cons_self, rfl⟩
  · next hnot =>
    obtain ⟨r, hr, hreached⟩ := h.reached
    split
    · next heq =>
      refine ⟨_, rfl, ?_, ?_, ⟨r, List.mem_append_left _ hr, hreached⟩⟩
      · intro m hm
        rcases List.mem_append.mp hm with hm | hm
        · exact (h.newest m hm).imp_right fun ⟨htime, hmem⟩ => ⟨htime, mem_pushId.mpr (.inl hmem)⟩
        · rw [List.mem_singleton.mp hm]
          exact .inr ⟨heq, mem_pushId.mpr (.inr rfl)⟩
      · intro x hx
        rcases mem_pushId.mp hx with hx | rfl
        · obtain ⟨m, hm, rfl⟩ := h.ids x hx
          exact ⟨m, List.mem_append_left _ hm, rfl⟩
        · exact ⟨_, List.mem_append_right _ List.mem_cons_self, rfl⟩
    · next hne =>
      refine ⟨_, rfl, ?_, ?_, ⟨r, List.mem_append_left _ hr, hreached⟩⟩
      · intro m hm
        rcases List.mem_append.mp hm with hm | hm
        · exact h.newest m hm
        · rw [List.mem_singleton.mp hm]
          exact .inl (by simp only; omega)
      · intro x hx
        obtain ⟨m, hm, rfl⟩ := h.ids x hx
        exact ⟨m, List.mem_append_left _ hm, rfl⟩

/-- The mark of a message with a batch. -/
theorem nextReadMark_marks (currentId : Str) (currentSent : Int) (included : List HistoryMessage) :
    ∃ mark, nextReadMark currentId (some currentSent) included = some mark ∧
      Marks mark ((currentSent, currentId) :: included.map fun m => (m.sentTime, m.messageId)) := by
  have hfold : ∀ (included : List HistoryMessage) (mark : ReadMark) (considered : List (Int × Str)),
      Marks mark considered → ∃ mark',
        included.foldl (fun best m => consider best m.sentTime m.messageId) (some mark) = some mark' ∧
        Marks mark' (considered ++ included.map fun m => (m.sentTime, m.messageId)) := by
    intro included
    induction included with
    | nil =>
      intro mark considered h
      exact ⟨mark, rfl, by simpa using h⟩
    | cons m included ih =>
      intro mark considered h
      obtain ⟨mark', hmark', h'⟩ := h.consider m.sentTime m.messageId
      obtain ⟨mark'', hmark'', h''⟩ := ih mark' _ h'
      refine ⟨mark'', ?_, ?_⟩
      · rw [List.foldl_cons, hmark', hmark'']
      · rw [List.append_assoc] at h''
        exact h''
  refine hfold included { sentTime := currentSent, messageIds := [currentId] }
    [(currentSent, currentId)] ⟨?_, ?_, ⟨_, List.mem_cons_self, rfl⟩⟩
  · intro m hm
    rw [List.mem_singleton.mp hm]
    exact .inr ⟨rfl, List.mem_cons_self⟩
  · intro id hid
    rw [List.mem_singleton.mp hid]
    exact ⟨_, List.mem_cons_self, rfl⟩

/-! ## Reads -/

/-- Reading more does not hide what was tracked. -/
private theorem Tracks.record {new : List Str} (h : Tracks mailbox read cursor)
    (hnew : ∀ id : MessageId, id.val ∈ new → (mailbox.message id).sentTime < cursor.sentTime ∨
      ((mailbox.message id).sentTime = cursor.sentTime ∧ id.val ∈ cursor.messageIds) ∨
      ∃ item ∈ cursor.readAhead, item.messageId = id.val) :
    Tracks mailbox (read ++ new) cursor where
  ids id hid := List.mem_append_left _ (h.ids id hid)
  ahead item hitem := List.mem_append_left _ (h.ahead item hitem)
  aheadTime := h.aheadTime
  passed id hid := (List.mem_append.mp hid).elim (h.passed id) (hnew id)

/-- A new cursor tracks nothing. -/
theorem TracksThread.getD {thread : Option StoredCursor} (h : TracksThread mailbox read thread) :
    Tracks mailbox read (thread.getD newCursor) := by
  cases thread with
  | none =>
    have hread : read = [] := h
    subst hread
    exact ⟨fun _ h => (nomatch h), fun _ h => (nomatch h), fun _ h => (nomatch h),
      fun _ h => (nomatch h)⟩
  | some cursor => exact h

theorem Tracks.fold (h : Tracks mailbox read cursor) :
    Tracks mailbox read (foldReadAhead cursor) where
  ids id hid := by
    rw [foldReadAhead] at hid
    rcases mem_foldl_pushId.mp hid with hid | hid
    · exact h.ids id hid
    · obtain ⟨item, hitem, rfl⟩ := List.mem_map.mp hid
      exact h.ahead item (List.mem_of_mem_filter hitem)
  ahead item hitem := h.ahead item (List.mem_of_mem_filter hitem)
  aheadTime item hitem := h.aheadTime item (List.mem_of_mem_filter hitem)
  passed id hid := by
    rcases h.passed id hid with hlt | ⟨heq, hmem⟩ | ⟨item, hitem, hid⟩
    · exact .inl hlt
    · exact .inr (.inl ⟨heq, mem_foldl_pushId.mpr (.inl hmem)⟩)
    · -- An item is passed, moves to the ids at the watermark, or stays ahead.
      have htime := h.aheadTime item hitem id hid.symm
      rcases Int.lt_trichotomy item.sentTime cursor.sentTime with hlt | heq | hgt
      · exact .inl (htime ▸ hlt)
      · refine .inr (.inl ⟨htime.trans heq, mem_foldl_pushId.mpr (.inr ?_)⟩)
        exact List.mem_map.mpr ⟨item, List.mem_filter.mpr ⟨hitem, by simpa using heq⟩, hid⟩
      · exact .inr (.inr ⟨item, List.mem_filter.mpr ⟨hitem, by simpa using hgt⟩, hid⟩)

/-- A mark is taken in: what was read, and what is marked, is tracked. -/
theorem Tracks.advance {mark : ReadMark} {considered : List (Int × Str)}
    (h : Tracks mailbox read cursor) (hmark : Marks mark considered)
    (htimes : ∀ id : MessageId, id.val ∈ considered.map (·.2) →
      ((mailbox.message id).sentTime, id.val) ∈ considered) :
    Tracks mailbox (read ++ considered.map (·.2))
      (foldReadAhead
        (if mark.sentTime > cursor.sentTime then
          { cursor with sentTime := mark.sentTime, messageIds := mark.messageIds }
        else if mark.sentTime = cursor.sentTime then
          { cursor with messageIds := mark.messageIds.foldl pushId cursor.messageIds }
        else cursor)) := by
  apply Tracks.fold
  have hconsidered : ∀ id ∈ mark.messageIds, id ∈ considered.map (·.2) := fun id hid =>
    let ⟨m, hm, hmid⟩ := hmark.ids id hid
    List.mem_map.mpr ⟨m, hm, hmid⟩
  split
  · next hnewer =>
    refine ⟨fun id hid => List.mem_append_right _ (hconsidered id hid),
      fun item hitem => List.mem_append_left _ (h.ahead item hitem), h.aheadTime, fun id hid => ?_⟩
    rcases List.mem_append.mp hid with hid | hid
    · -- The old watermark is passed.
      rcases h.passed id hid with hlt | ⟨heq, -⟩ | hahead
      · exact .inl (Int.lt_trans hlt hnewer)
      · exact .inl (heq ▸ hnewer)
      · exact .inr (.inr hahead)
    · exact (hmark.newest _ (htimes id hid)).imp_right .inl
  · next hnot =>
    split
    · next heq =>
      refine ⟨fun id hid => ?_, fun item hitem => List.mem_append_left _ (h.ahead item hitem),
        h.aheadTime, fun id hid => ?_⟩
      · rcases mem_foldl_pushId.mp hid with hid | hid
        · exact List.mem_append_left _ (h.ids id hid)
        · exact List.mem_append_right _ (hconsidered id hid)
      · rcases List.mem_append.mp hid with hid | hid
        · exact (h.passed id hid).imp_right fun hrest => hrest.imp_left fun ⟨hsame, hmem⟩ =>
            ⟨hsame, mem_foldl_pushId.mpr (.inl hmem)⟩
        · refine (hmark.newest _ (htimes id hid)).imp (fun hlt => heq ▸ hlt) fun ⟨hsame, hmem⟩ => ?_
          exact .inl ⟨hsame.trans heq, mem_foldl_pushId.mpr (.inr hmem)⟩
    · -- The mark is behind the watermark.
      refine h.record fun id hid => .inl ?_
      have hle : (mailbox.message id).sentTime ≤ mark.sentTime := by
        rcases hmark.newest _ (htimes id hid) with hlt | ⟨heq, -⟩
        · exact Int.le_of_lt hlt
        · exact Int.le_of_eq heq
      omega

/-- A reply is noted: it is tracked too. -/
theorem TracksThread.noteReply {cursors : Cursors} {key : Str}
    (h : TracksThread mailbox read (cursors key)) (id : MessageId) :
    TracksThread mailbox (read ++ [id.val])
      (SeaTalk.noteReply cursors key (mailbox.message id).sentTime id.val key) := by
  have hguard : ¬ ((mailbox.message id).sentTime ≤ 0 ∨ id.val = []) :=
    not_or.mpr ⟨Int.not_le.mpr (mailbox.sent_pos id), id.property⟩
  rw [SeaTalk.noteReply, if_neg hguard]
  split
  · -- The cursor has the reply, or has passed it.
    next hhas =>
    cases hcursor : cursors key with
    | none =>
      rw [hcursor] at hhas
      cases hhas
    | some cursor =>
      rw [hcursor] at h hhas
      refine h.record fun x hx => ?_
      have hxid : x = id := Subtype.ext (List.mem_singleton.mp hx)
      subst hxid
      have hhas : cursor.hasReply (mailbox.message x).sentTime x.val = true := hhas
      simp only [StoredCursor.hasReply, Bool.or_eq_true, decide_eq_true_eq, List.any_eq_true,
        beq_iff_eq, Bool.and_eq_true] at hhas
      rcases hhas with (hlt | hahead) | ⟨heq, y, hy, rfl⟩
      · exact .inl hlt
      · exact .inr (.inr hahead)
      · exact .inr (.inl ⟨heq, hy⟩)
  · have htracks := h.getD
    simp only
    by_cases hsame : (mailbox.message id).sentTime = ((cursors key).getD newCursor).sentTime
    · rw [if_pos hsame, Cursors.set, if_pos rfl]
      refine ⟨fun x hx => ?_, fun item hitem => List.mem_append_left _ (htracks.ahead item hitem),
        htracks.aheadTime, fun x hx => ?_⟩
      · rcases List.mem_append.mp hx with hx | hx
        · exact List.mem_append_left _ (htracks.ids x hx)
        · exact List.mem_append_right _ hx
      · rcases List.mem_append.mp hx with hx | hx
        · exact (htracks.passed x hx).imp_right fun hrest => hrest.imp_left fun ⟨heq, hmem⟩ =>
            ⟨heq, List.mem_append_left _ hmem⟩
        · have hxid : x = id := Subtype.ext (List.mem_singleton.mp hx)
          exact .inr (.inl ⟨hxid ▸ hsame, List.mem_append_right _ hx⟩)
    · rw [if_neg hsame, Cursors.set, if_pos rfl]
      refine ⟨fun x hx => List.mem_append_left _ (htracks.ids x hx), fun item hitem => ?_,
        fun item hitem x hx => ?_, fun x hx => ?_⟩
      · rcases List.mem_append.mp hitem with hitem | hitem
        · exact List.mem_append_left _ (htracks.ahead item hitem)
        · rw [List.mem_singleton.mp hitem]
          exact List.mem_append_right _ List.mem_cons_self
      · rcases List.mem_append.mp hitem with hitem | hitem
        · exact htracks.aheadTime item hitem x hx
        · rw [List.mem_singleton.mp hitem] at hx ⊢
          rw [Subtype.ext hx]
      · rcases List.mem_append.mp hx with hx | hx
        · refine (htracks.passed x hx).imp_right fun hrest => hrest.imp_right ?_
          exact fun ⟨item, hitem, hid⟩ => ⟨item, List.mem_append_left _ hitem, hid⟩
        · exact .inr (.inr ⟨_, List.mem_append_right _ List.mem_cons_self,
            (List.mem_singleton.mp hx).symm⟩)

/-! ## Threads -/

/-- A change of a thread's cursor changes no other. -/
theorem advance_of_ne (cursors : Cursors) {key other : Str} (h : other ≠ key) (sentTime : Int)
    (ids : List Str) : advance cursors key sentTime ids other = cursors other :=
  if_neg h

theorem noteReply_of_ne (cursors : Cursors) {key other : Str} (h : other ≠ key) (sentTime : Int)
    (id : Str) : noteReply cursors key sentTime id other = cursors other := by
  rw [noteReply]
  split
  · rfl
  · split
    · rfl
    · simp only
      split <;> exact if_neg h

/-- A mark does not lower the watermark, and a reply leaves it. -/
theorem watermark_le_advance (cursors : Cursors) (key : Str) (sentTime : Int) (ids : List Str) :
    watermark cursors key ≤ watermark (advance cursors key sentTime ids) key := by
  have hbefore : watermark cursors key = ((cursors key).getD newCursor).sentTime := by
    rw [watermark]
    cases cursors key <;> rfl
  rw [hbefore, watermark, advance, Cursors.set, if_pos rfl, Option.map_some, Option.getD_some]
  show _ ≤ StoredCursor.sentTime (if _ then _ else _)
  split
  · next hnewer => exact Int.le_of_lt hnewer
  · split <;> exact Int.le_refl _

theorem watermark_noteReply (cursors : Cursors) (key : Str) (sentTime : Int) (id : Str) :
    watermark (noteReply cursors key sentTime id) key = watermark cursors key := by
  have hbefore : watermark cursors key = ((cursors key).getD newCursor).sentTime := by
    rw [watermark]
    cases cursors key <;> rfl
  rw [noteReply]
  split
  · rfl
  · split
    · rfl
    · rw [hbefore]
      simp only
      split <;> rw [watermark, Cursors.set, if_pos rfl] <;> rfl

/-- The chosen messages are of the page. -/
theorem mem_of_mem_selectUnread {page : List HistoryMessage} {seen : Option StoredCursor}
    {exclude : List Str} {limit : Nat} {m : HistoryMessage}
    (h : m ∈ selectUnread page seen exclude limit) : m ∈ page := by
  have hsort := List.mem_of_mem_drop h
  rw [List.mem_mergeSort] at hsort
  exact List.mem_of_mem_filter hsort

/-! ## Runs -/

/-- What the cursors of all the threads remember. -/
def TracksAll (mailbox : Mailbox) (s : Threads) : Prop :=
  ∀ key, TracksThread mailbox (s.read key) (s.cursors key)

/-- Whether a message is unread in a thread. -/
def unreadIn (mailbox : Mailbox) (s : Threads) (key : Str) (id : MessageId) : Bool :=
  isUnread (mailbox.message id) (s.cursors key)

/-- A step tracks what it reads in its own thread. -/
theorem TracksAll.step {s : Threads} (h : TracksAll mailbox s) (input : CursorInput) :
    TracksAll mailbox (cursorStep mailbox s input) := by
  intro key
  cases input with
  | mark k current seen page exclude limit =>
    obtain ⟨mark, hmark, hmarks⟩ := nextReadMark_marks (mailbox.message current).messageId
      (mailbox.message current).sentTime (selectUnread (page.map mailbox.message) seen exclude limit)
    simp only [cursorStep, hmark, Threads.record]
    by_cases hkey : key = k
    · subst hkey
      rw [if_pos rfl, advance, Cursors.set, if_pos rfl]
      have htracks := (h key).getD.advance hmarks ?_
      · rwa [List.map_cons, List.map_map] at htracks
      · -- Every message of the mark is one of the mailbox.
        intro id hid
        rw [List.map_cons, List.map_map, List.mem_cons] at hid
        rcases hid with hid | hid
        · have heq : id = current := Subtype.ext (hid.trans (mailbox.message_id current))
          rw [heq, mailbox.message_id]
          exact List.mem_cons_self
        · obtain ⟨m, hm, hmid⟩ := List.mem_map.mp hid
          obtain ⟨id', -, rfl⟩ := List.mem_map.mp (mem_of_mem_selectUnread hm)
          have heq : id = id' := Subtype.ext (hmid.symm.trans (mailbox.message_id id'))
          refine List.mem_cons_of_mem _ (List.mem_map.mpr ⟨_, hm, ?_⟩)
          rw [heq, mailbox.message_id]
    · rw [if_neg hkey, advance_of_ne _ hkey]
      exact h key
  | reply k id =>
    simp only [cursorStep, Threads.record]
    by_cases hkey : key = k
    · subst hkey
      rw [if_pos rfl, mailbox.message_id]
      exact (h key).noteReply id
    · rw [if_neg hkey, noteReply_of_ne _ hkey]
      exact h key

theorem tracks_run (mailbox : Mailbox) (inputs : List CursorInput) :
    TracksAll mailbox ((cursorMachine mailbox).run inputs) :=
  Machine.invariant_runFrom (G := fun _ _ => True) (fun _ input h _ => h.step input) (fun _ => rfl)
    ((cursorMachine mailbox).steps_true _ inputs)

/-- A tracked thread has the messages unread that were not read and are not behind the watermark. -/
theorem TracksThread.unread_iff {thread : Option StoredCursor} (h : TracksThread mailbox read thread)
    (id : MessageId) : isUnread (mailbox.message id) thread = true ↔
      id.val ∉ read ∧ (thread.map (·.sentTime)).getD minTime ≤ (mailbox.message id).sentTime := by
  cases thread with
  | none =>
    have hread : read = [] := h
    have hpos := mailbox.sent_pos id
    have hmin : minTime ≤ (mailbox.message id).sentTime := by
      have hneg : minTime ≤ 0 := by decide
      omega
    simp [isUnread, hread, hmin]
  | some cursor =>
    have h : Tracks mailbox read cursor := h
    have hany : ∀ l : List ReadAhead, l.any (·.messageId == (mailbox.message id).messageId) = true ↔
        ∃ item ∈ l, item.messageId = id.val := by simp [mailbox.message_id]
    have hat : cursor.messageIds.any (· == (mailbox.message id).messageId) = true ↔
        id.val ∈ cursor.messageIds := by simp [mailbox.message_id]
    simp only [isUnread, Option.map_some, Option.getD_some]
    by_cases hahead : ∃ item ∈ cursor.readAhead, item.messageId = id.val
    · obtain ⟨item, hitem, hid⟩ := hahead
      rw [if_pos ((hany _).mpr ⟨item, hitem, hid⟩)]
      have hread : id.val ∈ read := hid ▸ h.ahead item hitem
      simp [hread]
    · rw [if_neg (mt (hany _).mp hahead)]
      rcases Int.lt_trichotomy cursor.sentTime (mailbox.message id).sentTime with hlt | heq | hgt
      · have hread : id.val ∉ read := fun hread => by
          rcases h.passed id hread with hpassed | ⟨hsame, -⟩ | hitem
          · omega
          · omega
          · exact hahead hitem
        rw [if_pos hlt]
        simp [hread, Int.le_of_lt hlt]
      · rw [if_neg (by omega), if_pos heq.symm, Bool.not_eq_true', Bool.eq_false_iff, Ne, hat]
        constructor
        · refine fun hnot => ⟨fun hread => ?_, Int.le_of_eq heq⟩
          rcases h.passed id hread with hpassed | ⟨-, hmem⟩ | hitem
          · omega
          · exact hnot hmem
          · exact hahead hitem
        · exact fun ⟨hread, _⟩ hmem => hread (h.ids _ hmem)
      · rw [if_neg (by omega), if_neg (by omega)]
        simp [hgt]

/-- What a run keeps and what it reads. -/
structure CursorExact (mailbox : Mailbox) (s : Threads) : Prop where
  /-- Unread are the messages at or after the watermark that were in no mark and are no noted reply. -/
  unread : ∀ key id, unreadIn mailbox s key id = true ↔
    id.val ∉ s.read key ∧ watermark s.cursors key ≤ (mailbox.message id).sentTime
  /-- No step lowers a watermark, and a step on another thread leaves the cursor as it is. -/
  own : ∀ input key, watermark s.cursors key ≤ watermark (cursorStep mailbox s input).cursors key ∧
    (key ≠ input.key → (cursorStep mailbox s input).cursors key = s.cursors key)
  /-- A noted reply moves no watermark. -/
  replies : ∀ k id key,
    watermark (cursorStep mailbox s (.reply k id)).cursors key = watermark s.cursors key
  /-- What was read is not unread again, whatever comes later. -/
  never : ∀ key id, id.val ∈ s.read key → ∀ later,
    unreadIn mailbox ((cursorMachine mailbox).runFrom s later) key id = false

/-- A step on the cursors of one thread: a mark or a reply. -/
private theorem cursorStep_cursors (mailbox : Mailbox) (s : Threads) (input : CursorInput) :
    (cursorStep mailbox s input).cursors = s.cursors ∨
    (∃ sentTime ids, (cursorStep mailbox s input).cursors = advance s.cursors input.key sentTime ids) ∨
    ∃ sentTime id, (cursorStep mailbox s input).cursors = noteReply s.cursors input.key sentTime id := by
  cases input with
  | mark key current seen page exclude limit =>
    simp only [cursorStep, CursorInput.key]
    split
    · exact .inl rfl
    · exact .inr (.inl ⟨_, _, rfl⟩)
  | reply key id => exact .inr (.inr ⟨_, _, rfl⟩)

/-- A step leaves the cursors of other threads as they are. -/
private theorem cursorStep_of_ne (mailbox : Mailbox) (s : Threads) {input : CursorInput} {key : Str}
    (h : key ≠ input.key) : (cursorStep mailbox s input).cursors key = s.cursors key := by
  rcases cursorStep_cursors mailbox s input with heq | ⟨sentTime, ids, heq⟩ | ⟨sentTime, id, heq⟩
  · rw [heq]
  · rw [heq, advance_of_ne _ h]
  · rw [heq, noteReply_of_ne _ h]

private theorem watermark_of_cursor_eq {cursors cursors' : Cursors} {key : Str}
    (h : cursors' key = cursors key) : watermark cursors' key = watermark cursors key := by
  rw [watermark, watermark, h]

/-- What was read stays read. -/
private theorem read_run (mailbox : Mailbox) {s : Threads} {key : Str} {x : Str} (h : x ∈ s.read key)
    (later : List CursorInput) : x ∈ ((cursorMachine mailbox).runFrom s later).read key := by
  refine Machine.invariant_runFrom (M := cursorMachine mailbox) (G := fun _ _ => True)
    (I := fun s => x ∈ s.read key) (fun s input h _ => ?_) h ((cursorMachine mailbox).steps_true s later)
  have hrecord : ∀ k ids, x ∈ (s.record k ids).read key := by
    intro k ids
    rw [Threads.record]
    simp only
    split
    · exact List.mem_append_left _ h
    · exact h
  cases input with
  | mark k current seen page exclude limit =>
    simp only [cursorMachine, cursorStep]
    split <;> exact hrecord _ _
  | reply k id => exact hrecord _ _

/-- Every run of marks and noted replies is exact. -/
theorem cursor_exact (mailbox : Mailbox) (inputs : List CursorInput) :
    CursorExact mailbox ((cursorMachine mailbox).run inputs) where
  unread key id := (tracks_run mailbox inputs key).unread_iff id
  own input key := by
    refine ⟨?_, cursorStep_of_ne mailbox _⟩
    by_cases hkey : key = input.key
    · subst hkey
      rcases cursorStep_cursors mailbox ((cursorMachine mailbox).run inputs) input with
        heq | ⟨sentTime, ids, heq⟩ | ⟨sentTime, id, heq⟩
      · exact Int.le_of_eq (watermark_of_cursor_eq (congrFun heq _)).symm
      · rw [heq]
        exact watermark_le_advance _ _ _ _
      · rw [heq]
        exact Int.le_of_eq (watermark_noteReply _ _ _ _).symm
    · exact Int.le_of_eq (watermark_of_cursor_eq (cursorStep_of_ne mailbox _ hkey)).symm
  replies k id key := by
    by_cases hkey : key = k
    · subst hkey
      exact watermark_noteReply _ _ _ _
    · exact watermark_of_cursor_eq (noteReply_of_ne _ hkey _ _)
  never key id hread later := by
    have hunread := (tracks_run mailbox (inputs ++ later) key).unread_iff id
    have hstill := read_run mailbox hread later
    rw [Machine.run, Machine.runFrom_append] at hunread
    refine Bool.eq_false_iff.mpr fun htrue => ?_
    exact (hunread.mp htrue).1 hstill

end TeamClu.SeaTalk
