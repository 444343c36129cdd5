import TeamClu.ForStd.Machine
import TeamClu.Native.DurableMqttStore
import TeamClu.Spec.LoggedQueue

/-!
# The store and its logs

`StoreLogged` says that each of the four logs of the store replays to the queue or the index it
belongs to.  Here is what each operation does to a store of that kind, one lemma an operation:
what it returns, what it does to the pending items and to the dedup keys, and that it keeps the logs
in step.  Everything else about runs of the store is derived from these.

The lemmas hold for either line limit.  An operation that puts a record keeps the limit when the
record is below it.
-/

namespace TeamClu.Mqtt

open DurableQueue JsonText

/-- Every log of the store replays to what the store holds. -/
structure StoreLogged (limit : Nat) (s : DurableMqttStore) : Prop where
  inbox : Logged DurableInbound.text limit s.inbox
  outbox : Logged DurablePublish.text limit s.outbox
  deadLetter : Logged DurableDeadLetter.text limit s.deadLetter
  dedup : s.inboundDedup.LoggedKeys

/-- The item a message is kept as. -/
def IncomingFrame.toInbound (frame : IncomingFrame) (messageId : Option Str) : DurableInbound :=
  { topic := frame.topic, payload := frame.payload, retained := frame.retained, messageId }

/-- An id is pending when an item is kept under it. -/
def Pending (s : DurableMqttStore) (id : Nat) (item : DurableInbound) : Prop :=
  s.inbox.entries[id]? = some item

/-! ## Lengths and keys -/

/-- A dedup record is shorter than the inbox record of the message it is for. -/
theorem fits_key {limit id : Nat} {item : DurableInbound} {key : Str} (hlimit : IsLimit limit)
    (hitem : Below (LogRecord.text DurableInbound.text) limit (.put id item))
    (hkey : item.key = some key) : Fits DedupRecord.text (.insert key) := by
  -- the key is the topic and the id, with a colon between them
  obtain ⟨messageId, hid, rfl⟩ := Option.map_eq_some_iff.mp hkey
  have hflat : ((dedupKey item.topic messageId).flatMap escapeChar) =
      item.topic.flatMap escapeChar ++ (':' :: messageId.flatMap escapeChar) := by
    have hcolon : escapeChar ':' = [':'] := by decide
    simp [dedupKey, hcolon]
  -- the record of the item fits, and its JSON is longer than that of the key
  have hle : limit ≤ MAX_DURABLE_LOG_LINE_BYTES + 1 := by
    rcases hlimit with rfl | rfl <;> omega
  have hquote : Char.utf8Size '"' = 1 := by decide
  have hcolon : Char.utf8Size ':' = 1 := by decide
  -- the lengths of the fixed parts of both records
  have h1 : Str.utf8Len (lit "\x7b\"Insert\":\x7b\"key\":") = 17 := by rw [lit]; decide
  have h2 : Str.utf8Len (lit "\x7d\x7d") = 2 := by rw [lit]; decide
  have h3 : Str.utf8Len (lit "\x7b\"Put\":\x7b\"id\":") = 13 := by rw [lit]; decide
  have h4 : Str.utf8Len (lit ",\"item\":") = 8 := by rw [lit]; decide
  simp only [Below, encode, LogRecord.text, DurableInbound.text, hid, Str.length_utf8,
    Str.utf8Len_append, strText, optStrText, Str.utf8Len_cons, List.cons_append, Str.utf8Len_nil,
    hquote, h2, h3, h4] at hitem
  simp only [Fits, encode, DedupRecord.text, Str.length_utf8, Str.utf8Len_append, strText,
    Str.utf8Len_cons, List.cons_append, Str.utf8Len_nil, hquote, hcolon, hflat, h1, h2]
  omega

/-! ## The dedup keys -/

/-- What taking out a key does to the store. -/
private theorem removeKey_spec {limit : Nat} {s : DurableMqttStore} (h : StoreLogged limit s)
    (key : Option Str) :
    ∃ s', s.removeKey key = (s', .ok ()) ∧ StoreLogged limit s' ∧ s'.inbox = s.inbox ∧
      s'.outbox = s.outbox ∧ s'.deadLetter = s.deadLetter ∧
      ∀ k, k ∈ s'.inboundDedup.keys ↔ key ≠ some k ∧ k ∈ s.inboundDedup.keys := by
  cases key with
  | none => exact ⟨s, rfl, h, rfl, rfl, rfl, fun k => ⟨fun hk => ⟨nofun, hk⟩, fun hk => hk.2⟩⟩
  | some key =>
    obtain ⟨d, hd, hlogged, hkeys⟩ := h.dedup.remove key
    refine ⟨{ s with inboundDedup := d }, by simp only [DurableMqttStore.removeKey, hd],
      ⟨h.inbox, h.outbox, h.deadLetter, hlogged⟩, rfl, rfl, rfl, fun k => ?_⟩
    rw [hkeys, ne_eq, ne_eq, Option.some.injEq, eq_comm]

/-! ## Acknowledging -/

/-- `s'` is `s` without the pending item of this id and its key, dead letters aside. -/
structure InboxErased (limit : Nat) (s s' : DurableMqttStore) (id : Nat) : Prop where
  logged : StoreLogged limit s'
  entries : s'.inbox.entries = s.inbox.entries.erase id
  nextId : s'.inbox.nextId = s.inbox.nextId
  outbox : s'.outbox = s.outbox
  keys : ∀ k, k ∈ s'.inboundDedup.keys ↔
    s.inbox.entries[id]?.bind DurableInbound.key ≠ some k ∧ k ∈ s.inboundDedup.keys

/-- Acknowledging in the inbox and taking out the item's key, the common end of `ack_inbound` and
    `dead_letter_inbound`. -/
private theorem erase_spec {limit : Nat} (hlimit : IsLimit limit) {s : DurableMqttStore}
    (h : StoreLogged limit s) (id : Nat) :
    ∃ inbox s', s.inbox.ack DurableInbound.text id = .ok inbox ∧
      DurableMqttStore.removeKey { s with inbox } (s.inbox.entries[id]?.bind DurableInbound.key) =
        (s', .ok ()) ∧ InboxErased limit s s' id ∧ s'.deadLetter = s.deadLetter := by
  obtain ⟨inbox, hack, hlogged, hentries, hnext⟩ := h.inbox.ack hlimit id
  have hs : StoreLogged limit { s with inbox } := ⟨hlogged, h.outbox, h.deadLetter, h.dedup⟩
  obtain ⟨s', hs', h1, h2, h3, h4, h5⟩ :=
    removeKey_spec hs (s.inbox.entries[id]?.bind DurableInbound.key)
  exact ⟨inbox, s', hack, hs',
    ⟨h1, by rw [h2]; exact hentries, by rw [h2]; exact hnext, h3, h5⟩, h4⟩

/-- An acknowledgement always succeeds. -/
theorem ackInbound_spec {limit : Nat} (hlimit : IsLimit limit) {s : DurableMqttStore}
    (h : StoreLogged limit s) (id : Nat) :
    ∃ s', s.ackInbound id = (s', .ok ()) ∧ InboxErased limit s s' id ∧
      s'.deadLetter = s.deadLetter := by
  obtain ⟨inbox, s', hack, hs', herased, hdead⟩ := erase_spec hlimit h id
  exact ⟨s', by simp only [DurableMqttStore.ackInbound, hack, hs'], herased, hdead⟩

/-! ## Admitting -/

/-- Whether the inbox holds a message of this topic and id. -/
theorem hasPending_iff {s : DurableMqttStore} {topic messageId : Str} :
    s.hasPending topic messageId = true ↔
      ∃ id item, Pending s id item ∧ item.topic = topic ∧ item.messageId = some messageId := by
  simp only [DurableMqttStore.hasPending, DurableQueue.values, List.any_eq_true, Bool.and_eq_true,
    beq_iff_eq, Prod.exists, Std.ExtTreeMap.mem_toList_iff_getElem?_eq_some, Pending]

/-- A message is refused when its key is pending, or too long to write, or else kept under the next
    id with its key in the index. -/
theorem enqueueInbound_spec {limit : Nat} {s : DurableMqttStore} (h : StoreLogged limit s)
    (frame : IncomingFrame) (messageId : Option Str) :
    (s.enqueueInbound frame messageId = (s, .ok none) ∧
      ((∃ key, (frame.toInbound messageId).key = some key ∧ key ∈ s.inboundDedup.keys) ∨
        messageId.isSome ∧ ∃ id item, Pending s id item ∧ item.topic = frame.topic ∧
          item.messageId = messageId)) ∨
    (s.enqueueInbound frame messageId = (s, .error .recordTooLong) ∧
      (encode (LogRecord.text DurableInbound.text)
        (.put s.inbox.nextId (frame.toInbound messageId))).length > MAX_DURABLE_LOG_LINE_BYTES ∧
      ∀ key, (frame.toInbound messageId).key = some key → key ∉ s.inboundDedup.keys) ∨
    (∃ s', s.enqueueInbound frame messageId = (s', .ok (some s.inbox.nextId)) ∧
      (encode (LogRecord.text DurableInbound.text)
        (.put s.inbox.nextId (frame.toInbound messageId))).length ≤ MAX_DURABLE_LOG_LINE_BYTES ∧
      s'.inbox = s.inbox.afterPut DurableInbound.text (frame.toInbound messageId) ∧
      s'.outbox = s.outbox ∧ s'.deadLetter = s.deadLetter ∧ s'.inboundDedup.LoggedKeys ∧
      (∀ key, (frame.toInbound messageId).key = some key → key ∉ s.inboundDedup.keys) ∧
      ∀ k, k ∈ s'.inboundDedup.keys ↔
        (frame.toInbound messageId).key = some k ∨ k ∈ s.inboundDedup.keys) := by
  have hkey : messageId.map (dedupKey frame.topic) = (frame.toInbound messageId).key := rfl
  unfold DurableMqttStore.enqueueInbound
  simp only [hkey]
  split_ifs with hdup hpend
  · -- the key is in the index
    refine .inl ⟨rfl, .inl ?_⟩
    cases hk : (frame.toInbound messageId).key with
    | none => rw [hk] at hdup; exact absurd hdup Bool.false_ne_true
    | some key =>
      rw [hk, Option.any_some, Std.ExtTreeSet.contains_iff_mem] at hdup
      exact ⟨key, rfl, hdup⟩
  · -- the inbox holds the message
    refine .inl ⟨rfl, .inr ?_⟩
    cases messageId with
    | none => simp at hpend
    | some mid =>
      exact ⟨rfl, hasPending_iff.mp hpend⟩
  · right
    have hfresh : ∀ key, (frame.toInbound messageId).key = some key →
        key ∉ s.inboundDedup.keys := by
      intro key hk hmem
      rw [hk, Option.any_some, Std.ExtTreeSet.contains_iff_mem] at hdup
      exact hdup hmem
    -- `put_eq` with the frame's fields written out
    have hput : DurableQueue.put DurableInbound.text s.inbox
        { topic := frame.topic, payload := frame.payload, retained := frame.retained,
          messageId := messageId } = _ :=
      @put_eq _ DurableInbound.text s.inbox (frame.toInbound messageId)
    by_cases hlen : (encode (LogRecord.text DurableInbound.text)
        (.put s.inbox.nextId (frame.toInbound messageId))).length > MAX_DURABLE_LOG_LINE_BYTES
    · -- the record is too long for a line
      rw [hput, if_pos hlen]
      exact .inl ⟨rfl, hlen, hfresh⟩
    · right
      rw [hput, if_neg hlen]
      have hle : (encode (LogRecord.text DurableInbound.text)
          (.put s.inbox.nextId (frame.toInbound messageId))).length ≤
            MAX_DURABLE_LOG_LINE_BYTES := by omega
      -- without a message id no key is recorded
      cases hk : (frame.toInbound messageId).key with
      | none =>
        exact ⟨_, rfl, hle, rfl, rfl, rfl, h.dedup, fun _ hk => (by cases hk),
          fun k => ⟨.inr, fun hor => hor.resolve_left (Option.some_ne_none k).symm⟩⟩
      | some key =>
        -- the key is no longer than the record that was just written
        have hfits : Fits DedupRecord.text (.insert key) :=
          @fits_key (MAX_DURABLE_LOG_LINE_BYTES + 1) _ _ _ (.inr rfl)
            (Nat.lt_succ_of_le hle) hk
        obtain ⟨d, hd, hlogged, hkeys⟩ := h.dedup.insert hfits
        refine ⟨{ s with inbox := s.inbox.afterPut DurableInbound.text (frame.toInbound messageId)
                         inboundDedup := d }, by simp only [hd], hle, rfl, rfl, rfl, hlogged, ?_, ?_⟩
        · rintro k ⟨rfl⟩
          exact hfresh key hk
        · intro k
          rw [hkeys, Option.some.injEq]
          exact or_congr_left eq_comm

/-- An admitted message keeps the logs in step when its record is below the limit. -/
theorem storeLogged_admit {limit : Nat} {s s' : DurableMqttStore} (h : StoreLogged limit s)
    {item : DurableInbound}
    (hbelow : Below (LogRecord.text DurableInbound.text) limit (.put s.inbox.nextId item))
    (hinbox : s'.inbox = s.inbox.afterPut DurableInbound.text item) (houtbox : s'.outbox = s.outbox)
    (hdead : s'.deadLetter = s.deadLetter) (hdedup : s'.inboundDedup.LoggedKeys) :
    StoreLogged limit s' :=
  ⟨hinbox ▸ h.inbox.afterPut hbelow, houtbox ▸ h.outbox, hdead ▸ h.deadLetter, hdedup⟩

/-! ## Dead letters -/

/-- The eviction loop succeeds and makes room for what could fit at all; it only removes. -/
theorem evict_spec {limit : Nat} (hlimit : IsLimit limit) {dl : DurableQueue DurableDeadLetter}
    (h : Logged DurableDeadLetter.text limit dl) {incoming : Nat}
    (hincoming : incoming ≤ DEAD_LETTER_MAX_BYTES) :
    ∃ dl', DurableMqttStore.evict dl incoming = (dl', .ok ()) ∧
      Logged DurableDeadLetter.text limit dl' ∧ dl'.nextId = dl.nextId ∧
      DurableMqttStore.isFull dl' incoming = false ∧
      ∀ (id : Nat) (letter : DurableDeadLetter), dl'.entries[id]? = some letter →
        dl.entries[id]? = some letter := by
  induction hsize : dl.entries.size using Nat.strong_induction_on generalizing dl with
  | _ n ih =>
  rw [DurableMqttStore.evict]
  split_ifs with hfull
  · -- a full queue gives up its oldest letter, and is one smaller
    split
    · next hvalues =>
      -- an empty queue is not full
      have hempty : dl.entries.size = 0 := by
        rw [← Std.ExtTreeMap.length_toList]
        exact congrArg List.length hvalues
      simp only [DurableMqttStore.isFull, hempty, DurableMqttStore.deadLetterTotal, hvalues,
        List.map_nil, List.sum_nil, Nat.zero_add, Bool.or_eq_true, decide_eq_true_eq] at hfull
      rcases hfull with hfull | hfull
      · exact absurd hfull (by decide)
      · omega
    · next oldest letter rest hvalues =>
      obtain ⟨dl₁, hack, hlogged, hentries, hnext⟩ := h.ack hlimit oldest
      have hlt := DurableMqttStore.size_ack_lt hvalues hack
      split
      · next e herr =>
        rw [hack] at herr
        -- the acknowledgement of a pending letter does not fail
        cases herr
      · next dl₂ hok =>
        rw [hack] at hok
        obtain rfl := Except.ok.inj hok
        obtain ⟨dl', hev, h1, h2, h3, h4⟩ := ih _ (hsize ▸ hlt) hlogged rfl
        refine ⟨dl', hev, h1, h2.trans hnext, h3, fun id l hl => ?_⟩
        -- what is left was there before
        have := h4 id l hl
        rw [hentries, Std.ExtTreeMap.getElem?_erase] at this
        split_ifs at this
        exact this
  · exact ⟨dl, rfl, h, rfl, Bool.eq_false_iff.mpr hfull, fun _ _ hl => hl⟩

/-- The dead letter an inbox item becomes. -/
def letterOf (item : DurableInbound) (reason : Str) : DurableDeadLetter :=
  { inbound := item, reason := truncateReason reason }

/-- Whether the item is retired without a dead letter of its own: there is one already, or it is
    too large to be kept at all. -/
def retiresPlainly (s : DurableMqttStore) (item : DurableInbound) (reason : Str) : Bool :=
  isDeadLettered s.deadLetter item ||
    deadLetterBytes (letterOf item reason) > DEAD_LETTER_MAX_BYTES

/-- The length of the record that `dead_letter_inbound` puts. -/
def letterLength (s : DurableMqttStore) (item : DurableInbound) (reason : Str) : Nat :=
  (encode (LogRecord.text DurableDeadLetter.text)
    (.put s.deadLetter.nextId (letterOf item reason))).length

/-- Without a dead letter of its own, the item is acknowledged. -/
theorem deadLetterInbound_plain {limit : Nat} (hlimit : IsLimit limit) {s : DurableMqttStore}
    (h : StoreLogged limit s) {id : Nat} {item : DurableInbound} (hpend : Pending s id item)
    {reason : Str} (hplain : retiresPlainly s item reason = true) :
    ∃ s', s.deadLetterInbound id reason = (s', .ok ()) ∧ InboxErased limit s s' id ∧
      s'.deadLetter = s.deadLetter := by
  unfold Pending at hpend
  unfold DurableMqttStore.deadLetterInbound
  simp only [hpend]
  split_ifs with hdead hlarge
  · obtain ⟨inbox, s', hack, hs', herased, hdl⟩ := erase_spec hlimit h id
    rw [hpend, Option.bind_some] at hs'
    exact ⟨s', by simp only [hack, hs'], herased, hdl⟩
  · exact ackInbound_spec hlimit h id
  · simp only [retiresPlainly, Bool.or_eq_true, decide_eq_true_eq] at hplain
    exact absurd hplain (not_or.mpr ⟨hdead, hlarge⟩)

/-- With a dead letter of its own, room is made first; then a record that is too long fails, and any
    other is put before the item is acknowledged. -/
theorem deadLetterInbound_put {limit : Nat} (hlimit : IsLimit limit) {s : DurableMqttStore}
    (h : StoreLogged limit s) {id : Nat} {item : DurableInbound} (hpend : Pending s id item)
    {reason : Str} (hplain : retiresPlainly s item reason = false) :
    ∃ dl, Logged DurableDeadLetter.text limit dl ∧ dl.nextId = s.deadLetter.nextId ∧
      DurableMqttStore.isFull dl (deadLetterBytes (letterOf item reason)) = false ∧
      (∀ (i : Nat) (letter : DurableDeadLetter), dl.entries[i]? = some letter →
        s.deadLetter.entries[i]? = some letter) ∧
      (letterLength s item reason > MAX_DURABLE_LOG_LINE_BYTES →
        s.deadLetterInbound id reason = ({ s with deadLetter := dl }, .error .recordTooLong)) ∧
      (letterLength s item reason ≤ MAX_DURABLE_LOG_LINE_BYTES →
        letterLength s item reason < limit →
        ∃ s', s.deadLetterInbound id reason = (s', .ok ()) ∧ InboxErased limit s s' id ∧
          s'.deadLetter = dl.afterPut DurableDeadLetter.text (letterOf item reason)) := by
  unfold Pending at hpend
  simp only [retiresPlainly, Bool.or_eq_false_iff, decide_eq_false_iff_not] at hplain
  obtain ⟨hdead, hlarge⟩ := hplain
  obtain ⟨dl, hev, hlogged, hnext, hroom, hsub⟩ :=
    @evict_spec _ hlimit _ h.deadLetter (deadLetterBytes (letterOf item reason)) (by omega)
  have hput := @put_eq _ DurableDeadLetter.text dl (letterOf item reason)
  rw [hnext] at hput
  refine ⟨dl, hlogged, hnext, hroom, hsub, fun hlong => ?_, fun hle hlt => ?_⟩
  · -- the letter is too long for a line, and nothing is acknowledged
    unfold letterLength at hlong
    rw [if_pos hlong] at hput
    unfold letterOf at hput hev hlarge
    unfold DurableMqttStore.deadLetterInbound
    simp only [hpend, hdead, Bool.false_eq_true, if_false, hlarge, hev, hput]
  · -- the letter is written, and then the item acknowledged
    unfold letterLength at hle hlt
    rw [if_neg (by omega)] at hput
    have hs : StoreLogged limit
        { s with deadLetter := dl.afterPut DurableDeadLetter.text (letterOf item reason) } :=
      ⟨h.inbox, h.outbox, hlogged.afterPut (by rw [hnext]; exact hlt), h.dedup⟩
    obtain ⟨s', hack, herased, hdl⟩ := ackInbound_spec hlimit hs id
    refine ⟨s', ?_, ⟨herased.logged, herased.entries, herased.nextId, herased.outbox,
      herased.keys⟩, hdl⟩
    unfold letterOf at hput hev hlarge hack
    unfold DurableMqttStore.deadLetterInbound
    simp only [hpend, hdead, Bool.false_eq_true, if_false, hlarge, hev, hput, hack]

/-- An id that is not pending: nothing happens. -/
theorem deadLetterInbound_absent {s : DurableMqttStore} {id : Nat}
    (hpend : s.inbox.entries[id]? = none) (reason : Str) :
    s.deadLetterInbound id reason = (s, .ok ()) := by
  simp only [DurableMqttStore.deadLetterInbound, hpend]

/-! ## The outbox -/

/-- A publish is refused as too long or put in the outbox. -/
theorem enqueuePublish_spec {limit : Nat} {s : DurableMqttStore} (h : StoreLogged limit s)
    (publish : DurablePublish) (uuid : Str)
    (hlength : (encode (LogRecord.text DurablePublish.text) (.put s.outbox.nextId
      { publish with eventId := some (publish.eventId.getD uuid) })).length ≤
        MAX_DURABLE_LOG_LINE_BYTES → Below (LogRecord.text DurablePublish.text) limit
          (.put s.outbox.nextId { publish with eventId := some (publish.eventId.getD uuid) })) :
    ∃ s' r, s.enqueuePublish publish uuid = (s', r) ∧ StoreLogged limit s' ∧
      s'.inbox = s.inbox ∧ s'.deadLetter = s.deadLetter ∧ s'.inboundDedup = s.inboundDedup := by
  unfold DurableMqttStore.enqueuePublish
  rw [put_eq]
  split_ifs with hlong
  · exact ⟨s, _, rfl, h, rfl, rfl, rfl⟩
  · exact ⟨_, _, rfl, ⟨h.inbox, h.outbox.afterPut (hlength (by omega)), h.deadLetter, h.dedup⟩,
      rfl, rfl, rfl⟩

/-- An acknowledgement in the outbox. -/
theorem ackPublish_spec {limit : Nat} (hlimit : IsLimit limit) {s : DurableMqttStore}
    (h : StoreLogged limit s) (id : Nat) :
    ∃ s', s.ackPublish id = (s', .ok ()) ∧ StoreLogged limit s' ∧ s'.inbox = s.inbox ∧
      s'.deadLetter = s.deadLetter ∧ s'.inboundDedup = s.inboundDedup := by
  obtain ⟨outbox, hack, hlogged, -, -⟩ := h.outbox.ack hlimit id
  exact ⟨{ s with outbox }, by simp only [DurableMqttStore.ackPublish, hack],
    ⟨h.inbox, hlogged, h.deadLetter, h.dedup⟩, rfl, rfl, rfl⟩

/-! ## Reopening -/

/-- Acknowledging several ids in turn. -/
private theorem foldlM_ack_spec {limit : Nat} (hlimit : IsLimit limit) (ids : List Nat)
    {q : DurableQueue DurableInbound} (h : Logged DurableInbound.text limit q) :
    ∃ q', ids.foldlM (fun (inbox : DurableQueue DurableInbound) id =>
        inbox.ack DurableInbound.text id) q = .ok q' ∧
      Logged DurableInbound.text limit q' ∧ q'.nextId = q.nextId ∧
      ∀ k, q'.entries[k]? = if k ∈ ids then none else q.entries[k]? := by
  induction ids generalizing q with
  | nil => exact ⟨q, rfl, h, rfl, fun k => by simp⟩
  | cons id ids ih =>
    obtain ⟨q₁, hack, hlogged, hentries, hnext⟩ := h.ack hlimit id
    obtain ⟨q', hfold, h1, h2, h3⟩ := ih hlogged
    refine ⟨q', ?_, h1, h2.trans hnext, fun k => ?_⟩
    · rw [List.foldlM_cons, hack]
      exact hfold
    · rw [h3, hentries, Std.ExtTreeMap.getElem?_erase]
      simp only [Std.compare_eq_iff_eq, List.mem_cons, eq_comm (a := id)]
      split_ifs <;> simp_all

/-- The ids whose items have a dead letter. -/
private theorem mem_orphanedInboxIds {inbox : DurableQueue DurableInbound}
    {deadLetter : DurableQueue DurableDeadLetter} {id : Nat} :
    id ∈ orphanedInboxIds inbox deadLetter ↔
      ∃ item, inbox.entries[id]? = some item ∧ isDeadLettered deadLetter item = true := by
  simp only [orphanedInboxIds, DurableQueue.values, List.mem_map, List.mem_filter,
    Prod.exists, exists_and_right, exists_eq_right, Std.ExtTreeMap.mem_toList_iff_getElem?_eq_some]

/-- The keys of the pending items. -/
private theorem mem_pendingKeys {inbox : DurableQueue DurableInbound} {key : Str} :
    key ∈ pendingKeys inbox ↔
      ∃ (id : Nat) (item : DurableInbound),
        inbox.entries[id]? = some item ∧ item.key = some key := by
  simp only [pendingKeys, DurableQueue.values, Std.ExtTreeSet.mem_ofList, List.contains_iff_mem,
    List.mem_filterMap, Prod.exists, Std.ExtTreeMap.mem_toList_iff_getElem?_eq_some]

/-- Reopening fails only when a line has the length that the writer takes and the reader does not.
    Else it gives the store back without the pending items that have a dead letter, and with the
    keys of the others. -/
theorem openAt_spec (serde : StoreSerde) {limit : Nat} (hlimit : IsLimit limit)
    {s : DurableMqttStore} (h : StoreLogged limit s) (sizes : StoreSizes) :
    (limit ≠ MAX_DURABLE_LOG_LINE_BYTES ∧
      ∃ e, DurableMqttStore.openAt serde s.files sizes = .error e) ∨
    ∃ s', DurableMqttStore.openAt serde s.files sizes = .ok s' ∧ StoreLogged limit s' ∧
      s'.inbox.nextId = s.inbox.nextId ∧
      s'.deadLetter = { s.deadLetter with opsSinceCompact := 0 } ∧
      (∀ id item, Pending s' id item ↔
        Pending s id item ∧ isDeadLettered s.deadLetter item = false) ∧
      ∀ key, key ∈ s'.inboundDedup.keys ↔
        ∃ id item, Pending s' id item ∧ item.key = some key := by
  -- the three queues open in the same way
  have hopen {T : Type} {itemText : T → Str} (serde : Serde (LogRecord.text itemText))
      {q : DurableQueue T} (hq : Logged itemText limit q) (sizes : List Nat) :
      (limit ≠ MAX_DURABLE_LOG_LINE_BYTES ∧ ∃ e, DurableQueue.open serde q.file sizes = .error e) ∨
        DurableQueue.open serde q.file sizes = .ok { q with opsSinceCompact := 0 } := by
    by_cases hl : limit = MAX_DURABLE_LOG_LINE_BYTES
    · exact .inr (open_of_readable serde (hl ▸ hq) sizes)
    · rcases open_of_logged serde hq sizes with hok | ⟨n, herr⟩
      · exact .inr hok
      · exact .inl ⟨hl, _, herr⟩
  unfold DurableMqttStore.openAt DurableMqttStore.files
  rcases hopen serde.inbox h.inbox sizes.inbox with ⟨hl, e, he⟩ | hinbox
  · exact .inl ⟨hl, e, by rw [he]; rfl⟩
  rcases hopen serde.outbox h.outbox sizes.outbox with ⟨hl, e, he⟩ | houtbox
  · exact .inl ⟨hl, e, by rw [hinbox, he]; rfl⟩
  rcases hopen serde.deadLetter h.deadLetter sizes.deadLetter with ⟨hl, e, he⟩ | hdead
  · exact .inl ⟨hl, e, by rw [hinbox, houtbox, he]; rfl⟩
  -- all three are open: the orphans are acknowledged, and the index is rebuilt
  right
  obtain ⟨inbox, hfold, hlogged, hnext, hentries⟩ := foldlM_ack_spec hlimit
    (orphanedInboxIds { s.inbox with opsSinceCompact := 0 }
      { s.deadLetter with opsSinceCompact := 0 }) (h.inbox.withOps 0)
  have hdedup := DurableDedup.open_of_loggedKeys serde.dedup serde.legacyKey h.dedup sizes.dedup
  have hkeysFit : ∀ key ∈ pendingKeys inbox, Fits DedupRecord.text (.insert key) := by
    intro key hkey
    obtain ⟨id, item, hitem, hk⟩ := mem_pendingKeys.mp hkey
    exact fits_key hlimit (hlogged.below_entry hitem) hk
  have hd : DurableDedup.LoggedKeys { s.inboundDedup with opsSinceCompact := 0 } :=
    ⟨h.dedup.log, h.dedup.fits_key⟩
  obtain ⟨hrec, hreckeys⟩ := hd.reconcile hkeysFit
  refine ⟨_, by rw [hinbox, houtbox, hdead]; simp only [bind, Except.bind, hfold, hdedup]; rfl,
    ⟨hlogged, h.outbox.withOps 0, h.deadLetter.withOps 0, hrec⟩, hnext, rfl, ?_, ?_⟩
  · intro id item
    unfold Pending
    rw [hentries]
    split_ifs with horphan
    · -- an orphan has a dead letter
      obtain ⟨item', hitem', hdl⟩ := mem_orphanedInboxIds.mp horphan
      refine ⟨nofun, fun hboth => ?_⟩
      have hsame : some item' = some item := hitem'.symm.trans hboth.1
      obtain rfl := Option.some.inj hsame
      rw [show isDeadLettered s.deadLetter item' = true from hdl] at hboth
      exact absurd hboth.2.symm Bool.false_ne_true
    · refine ⟨fun hitem => ⟨hitem, Bool.eq_false_iff.mpr fun hdl => horphan ?_⟩, fun hboth => hboth.1⟩
      exact mem_orphanedInboxIds.mpr ⟨item, hitem, hdl⟩
  · -- the index holds the keys of what is pending
    intro key
    rw [hreckeys]
    exact mem_pendingKeys

/-! ## Runs of the store -/

/-- The four files, the process that has them open, and the messages it has admitted and not been
    told to let go of. -/
structure StoreWorld where
  files : StoreFiles := {}
  store : Option DurableMqttStore := none
  admitted : List (Nat × DurableInbound) := []

/-- What can happen next; all input and output succeeds. -/
inductive StoreEvent where
  /-- The process starts anew and opens the store. -/
  | reopen (sizes : StoreSizes)
  | enqueueInbound (frame : IncomingFrame) (messageId : Option Str)
  | ackInbound (id : Nat)
  | deadLetterInbound (id : Nat) (reason : Str)
  | enqueuePublish (publish : DurablePublish) (uuid : Str)
  | ackPublish (id : Nat)

/-- The world after an operation of its process. -/
def StoreWorld.after (w : StoreWorld) (s : DurableMqttStore) : StoreWorld :=
  { w with files := s.files, store := some s }

/-- Forget an id that is acknowledged or dead-lettered. -/
def StoreWorld.letGo (w : StoreWorld) (id : Nat) : StoreWorld :=
  { w with admitted := w.admitted.filter (·.1 ≠ id) }

/-- One step of a run. -/
def StoreWorld.step (serde : StoreSerde) (w : StoreWorld) (e : StoreEvent) : StoreWorld :=
  match e with
  | .reopen sizes =>
    match DurableMqttStore.openAt serde w.files sizes with
    | .error _ => { w with store := none }
    | .ok s => w.after s
  | .enqueueInbound frame messageId =>
    match w.store with
    | none => w
    | some s =>
      match s.enqueueInbound frame messageId with
      | (s', .ok (some id)) =>
        { w.after s' with admitted := (id, frame.toInbound messageId) :: w.admitted }
      | (s', _) => w.after s'
  | .ackInbound id =>
    match w.store with
    | none => w
    | some s => (w.after (s.ackInbound id).1).letGo id
  | .deadLetterInbound id reason =>
    match w.store with
    | none => w
    | some s => (w.after (s.deadLetterInbound id reason).1).letGo id
  | .enqueuePublish publish uuid =>
    match w.store with
    | none => w
    | some s => w.after (s.enqueuePublish publish uuid).1
  | .ackPublish id =>
    match w.store with
    | none => w
    | some s => w.after (s.ackPublish id).1

/-- The runs of the store, from no file at all. -/
def storeMachine (serde : StoreSerde) : Machine StoreWorld StoreEvent where
  init := {}
  step := StoreWorld.step serde

/-- The store before anything was written. -/
def emptyStore : DurableMqttStore where
  inbox := { file := [], entries := ∅, nextId := 1, opsSinceCompact := 0 }
  outbox := { file := [], entries := ∅, nextId := 1, opsSinceCompact := 0 }
  deadLetter := { file := [], entries := ∅, nextId := 1, opsSinceCompact := 0 }
  inboundDedup := { file := [], keys := ∅, opsSinceCompact := 0 }

theorem storeLogged_empty (limit : Nat) : StoreLogged limit emptyStore :=
  ⟨logged_empty 0, logged_empty 0, logged_empty 0, DurableDedup.loggedKeys_empty 0⟩

end TeamClu.Mqtt
