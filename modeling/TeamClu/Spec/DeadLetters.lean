import TeamClu.Spec.InboxAdmission

/-!
# What is written can be read, and a poison message can be retired

The writer takes records of up to `MAX_DURABLE_LOG_LINE_BYTES`, the reader takes lines of up to that
many bytes with their newline.  So a log of accepted records reads back exactly when none of them
has just that length (`readsBack_iff`).

A dead letter wraps its inbox record, and is longer.  In every store that a run reaches,
`dead_letter_inbound` retires a pending item exactly when it needs no dead letter of its own or the
record of the dead letter is one that the writer takes (`retires_iff`).
-/

namespace TeamClu.Mqtt

open DurableQueue JsonText

/-- A log with these records opens, however it is read, to what they replay to. -/
def ReadsBack {T : Type} {itemText : T → Str} (serde : Serde (LogRecord.text itemText))
    (rs : List (LogRecord T)) (file : Bytes) : Prop :=
  ∀ sizes, ∃ q, DurableQueue.open serde file sizes = .ok q ∧ q.entries = (replay rs).entries ∧
    q.nextId = (replay rs).nextId

/-- A queue whose log has not been written. -/
def newQueue {T : Type} : DurableQueue T :=
  { file := [], entries := ∅, nextId := 1, opsSinceCompact := 0 }

/-- The bounds on the dead letter queue. -/
structure LettersBounded (deadLetter : DurableQueue DurableDeadLetter) : Prop where
  entries : deadLetter.entries.size ≤ DEAD_LETTER_MAX_ENTRIES
  bytes : DurableMqttStore.deadLetterTotal deadLetter ≤ DEAD_LETTER_MAX_BYTES

/-- `dead_letter_inbound` succeeds, takes the item out of the inbox, and keeps the bounds. -/
structure Retires (s : DurableMqttStore) (id : Nat) (reason : Str) : Prop where
  ok : (s.deadLetterInbound id reason).2 = .ok ()
  gone : id ∉ (s.deadLetterInbound id reason).1.inbox.entries
  bounded : LettersBounded (s.deadLetterInbound id reason).1.deadLetter

/-! ## Accepted records -/

section

variable {T : Type} {itemText : T → Str}

/-- Appending accepted records appends their lines. -/
theorem file_of_appendAll {rs : List (LogRecord T)} {q q' : DurableQueue T}
    (h : rs.foldlM (appendRecord itemText) q = .ok q') :
    q'.file = q.file ++ logBytes (LogRecord.text itemText) rs ∧
      ∀ r ∈ rs, (encode (LogRecord.text itemText) r).length ≤ MAX_DURABLE_LOG_LINE_BYTES := by
  induction rs generalizing q with
  | nil =>
    obtain rfl := Except.ok.inj h
    exact ⟨(List.append_nil _).symm, nofun⟩
  | cons r rs ih =>
    rw [List.foldlM_cons] at h
    unfold appendRecord at h
    split_ifs at h with hlen
    · exact nomatch h
    · obtain ⟨hfile, hrs⟩ := ih h
      refine ⟨?_, List.forall_mem_cons.mpr ⟨Nat.le_of_not_lt hlen, hrs⟩⟩
      rw [hfile, ← List.singleton_append, logBytes_append, logBytes_singleton, List.append_assoc]

/-- A record that is not too long is accepted. -/
theorem appendAll_singleton {r : LogRecord T}
    (h : (encode (LogRecord.text itemText) r).length ≤ MAX_DURABLE_LOG_LINE_BYTES) :
    ∃ q, [r].foldlM (appendRecord itemText) newQueue = .ok q := by
  simp only [List.foldlM_cons, List.foldlM_nil, appendRecord]
  rw [if_neg (Nat.not_lt_of_le h)]
  exact ⟨_, rfl⟩

/-- A log of accepted records reads back exactly when none of them has the length that the reader
    refuses. -/
theorem readsBack_iff (serde : Serde (LogRecord.text itemText)) {rs : List (LogRecord T)}
    {q : DurableQueue T} (h : rs.foldlM (appendRecord itemText) newQueue = .ok q) :
    ReadsBack serde rs q.file ↔
      ∀ r ∈ rs, (encode (LogRecord.text itemText) r).length ≠ MAX_DURABLE_LOG_LINE_BYTES := by
  obtain ⟨hfile, hle⟩ := file_of_appendAll h
  rw [newQueue, List.nil_append] at hfile
  constructor
  · intro hread r hr hlen
    obtain ⟨q', hopen, -⟩ := hread []
    obtain ⟨n, hlong⟩ := open_tooLong serde ⟨r, hr, by unfold Fits; omega⟩ []
    rw [hfile, hlong] at hopen
    exact nomatch hopen
  · intro hne sizes
    have hopen := open_log serde (fun r hr => Nat.lt_of_le_of_ne (hle r hr) (hne r hr)) .none sizes
    rw [List.append_nil, List.append_nil] at hopen
    exact ⟨_, hfile ▸ hopen, rfl, rfl⟩

end

/-! ## The bounds -/

/-- A queue with room for one more letter keeps the bounds, with it or without it. -/
theorem lettersBounded_of_not_isFull {dl : DurableQueue DurableDeadLetter} {incoming : Nat}
    (h : DurableMqttStore.isFull dl incoming = false) : LettersBounded dl := by
  simp only [DurableMqttStore.isFull, Bool.or_eq_false_iff, decide_eq_false_iff_not] at h
  exact ⟨by omega, by omega⟩

theorem lettersBounded_afterPut {dl : DurableQueue DurableDeadLetter} {letter : DurableDeadLetter}
    (h : DurableMqttStore.isFull dl (deadLetterBytes letter) = false) :
    LettersBounded (dl.afterPut DurableDeadLetter.text letter) := by
  simp only [DurableMqttStore.isFull, Bool.or_eq_false_iff, decide_eq_false_iff_not] at h
  have hsize : (dl.entries.insert dl.nextId letter).size ≤ dl.entries.size + 1 :=
    Std.ExtTreeMap.size_insert_le
  have hsum : DurableMqttStore.deadLetterTotal (dl.afterPut DurableDeadLetter.text letter) ≤
      DurableMqttStore.deadLetterTotal dl + deadLetterBytes letter :=
    TreeMap.sum_toList_insert_le deadLetterBytes dl.entries dl.nextId letter
  constructor
  · change (dl.entries.insert dl.nextId letter).size ≤ _
    omega
  · omega

/-- In a store whose logs the writer wrote, a pending item is retired exactly when it needs no dead
    letter of its own or the writer takes the record of it. -/
theorem retires_iff {s : DurableMqttStore}
    (h : StoreLogged (MAX_DURABLE_LOG_LINE_BYTES + 1) s) (hbounded : LettersBounded s.deadLetter)
    {id : Nat} {item : DurableInbound} (hpend : Pending s id item) (reason : Str) :
    Retires s id reason ↔
      retiresPlainly s item reason = true ∨
        letterLength s item reason ≤ MAX_DURABLE_LOG_LINE_BYTES := by
  have hlimit : IsLimit (MAX_DURABLE_LOG_LINE_BYTES + 1) := .inr rfl
  have hgone {s' : DurableMqttStore}
      (herased : InboxErased (MAX_DURABLE_LOG_LINE_BYTES + 1) s s' id) :
      id ∉ s'.inbox.entries := by
    rw [herased.entries, Std.ExtTreeMap.mem_erase]
    exact fun h => h.1 Std.ReflCmp.compare_self
  -- a plain retirement acknowledges at once
  cases hplain : retiresPlainly s item reason with
  | true =>
    obtain ⟨s', heq, herased, hdl⟩ := deadLetterInbound_plain hlimit h hpend hplain
    refine ⟨fun _ => .inl rfl, fun _ => ?_⟩
    exact ⟨by rw [heq], by rw [heq]; exact hgone herased, by rw [heq, hdl]; exact hbounded⟩
  | false =>
    obtain ⟨dl, -, -, hroom, -, hlong, hshort⟩ := deadLetterInbound_put hlimit h hpend hplain
    by_cases hle : letterLength s item reason ≤ MAX_DURABLE_LOG_LINE_BYTES
    · -- the letter can be written
      obtain ⟨s', heq, herased, hdl⟩ := hshort hle (by omega)
      refine ⟨fun _ => .inr hle, fun _ => ?_⟩
      exact ⟨by rw [heq], by rw [heq]; exact hgone herased,
        by rw [heq, hdl]; exact lettersBounded_afterPut hroom⟩
    · -- it cannot, and the message stays
      refine ⟨fun hret => ?_, fun hor => absurd hor ?_⟩
      · have := hret.ok
        rw [hlong (by omega)] at this
        exact nomatch this
      · exact not_or.mpr ⟨Bool.false_ne_true, hle⟩

/-! ## Runs -/

/-- What every run preserves: logs of accepted records, and the bounds. -/
def DurableInv (w : StoreWorld) : Prop :=
  ∃ s, w.files = s.files ∧ StoreLogged (MAX_DURABLE_LOG_LINE_BYTES + 1) s ∧
    LettersBounded s.deadLetter ∧ ∀ s', w.store = some s' → s' = s

private theorem DurableInv.after (w : StoreWorld) {s : DurableMqttStore}
    (hlogged : StoreLogged (MAX_DURABLE_LOG_LINE_BYTES + 1) s)
    (hbounded : LettersBounded s.deadLetter) : DurableInv (w.after s) :=
  ⟨s, rfl, hlogged, hbounded, fun _ h => (Option.some.inj h).symm⟩

/-- Every step keeps the invariant. -/
theorem durableInv_step (serde : StoreSerde) {w : StoreWorld} {e : StoreEvent} (h : DurableInv w) :
    DurableInv (w.step serde e) := by
  have hlimit : IsLimit (MAX_DURABLE_LOG_LINE_BYTES + 1) := .inr rfl
  obtain ⟨s, hfiles, hlogged, hbounded, hstore⟩ := h
  cases e with
  | reopen sizes =>
    -- a file that does not open is left as it is
    obtain ⟨-, e, herr⟩ | ⟨s', hopen, hlogged', -, hdl, -⟩ := openAt_spec serde hlimit hlogged sizes
    · simp only [StoreWorld.step, hfiles, herr]
      exact ⟨s, rfl, hlogged, hbounded, fun _ hnone => (by cases hnone)⟩
    · simp only [StoreWorld.step, hfiles, hopen]
      exact .after w hlogged' (hdl ▸ ⟨hbounded.entries, hbounded.bytes⟩)
  | enqueueInbound frame messageId =>
    cases hw : w.store with
    | none => simpa only [StoreWorld.step, hw] using ⟨s, hfiles, hlogged, hbounded, hstore⟩
    | some s₁ =>
      obtain rfl := hstore s₁ hw
      simp only [StoreWorld.step, hw]
      rcases enqueueInbound_spec hlogged frame messageId with
        ⟨heq, -⟩ | ⟨heq, -⟩ | ⟨s', heq, hle, hinbox, hout, hdead, hdedup, -⟩
      · -- a duplicate or a refused record changes nothing
        rw [heq]
        exact .after w hlogged hbounded
      · rw [heq]
        exact .after w hlogged hbounded
      · -- the message is admitted, and its letters are those before
        rw [heq]
        exact ⟨s', rfl, storeLogged_admit hlogged (Nat.lt_succ_of_le hle) hinbox hout hdead hdedup,
          hdead ▸ hbounded, fun _ h => (Option.some.inj h).symm⟩
  | ackInbound id =>
    cases hw : w.store with
    | none => simpa only [StoreWorld.step, hw] using ⟨s, hfiles, hlogged, hbounded, hstore⟩
    | some s₁ =>
      obtain rfl := hstore s₁ hw
      obtain ⟨s', heq, herased, hdl⟩ := ackInbound_spec hlimit hlogged id
      simp only [StoreWorld.step, hw, heq]
      exact .after w herased.logged (hdl ▸ hbounded)
  | deadLetterInbound id reason =>
    cases hw : w.store with
    | none => simpa only [StoreWorld.step, hw] using ⟨s, hfiles, hlogged, hbounded, hstore⟩
    | some s₁ =>
      obtain rfl := hstore s₁ hw
      simp only [StoreWorld.step, hw]
      cases hpend : s₁.inbox.entries[id]? with
      | none =>
        rw [deadLetterInbound_absent hpend]
        exact .after w hlogged hbounded
      | some item =>
        cases hplain : retiresPlainly s₁ item reason with
        | true =>
          obtain ⟨s', heq, herased, hdl⟩ := deadLetterInbound_plain hlimit hlogged hpend hplain
          rw [heq]
          exact .after w herased.logged (hdl ▸ hbounded)
        | false =>
          obtain ⟨dl, hdl, -, hroom, -, hlong, hshort⟩ :=
            deadLetterInbound_put hlimit hlogged hpend hplain
          -- room is made for the letter before it is written
          by_cases hle : letterLength s₁ item reason ≤ MAX_DURABLE_LOG_LINE_BYTES
          · obtain ⟨s', heq, herased, hdl'⟩ := hshort hle (by omega)
            rw [heq]
            exact .after w herased.logged (hdl' ▸ lettersBounded_afterPut hroom)
          · -- the record is refused after room was made for it
            rw [hlong (by omega)]
            exact .after w ⟨hlogged.inbox, hlogged.outbox, hdl, hlogged.dedup⟩
              (lettersBounded_of_not_isFull hroom)
  | enqueuePublish publish uuid =>
    cases hw : w.store with
    | none => simpa only [StoreWorld.step, hw] using ⟨s, hfiles, hlogged, hbounded, hstore⟩
    | some s₁ =>
      obtain rfl := hstore s₁ hw
      obtain ⟨s', r, heq, hlogged', -, hdl, -⟩ := enqueuePublish_spec hlogged publish uuid
        fun hle => Nat.lt_succ_of_le hle
      simp only [StoreWorld.step, hw, heq]
      exact .after w hlogged' (hdl ▸ hbounded)
  | ackPublish id =>
    cases hw : w.store with
    | none => simpa only [StoreWorld.step, hw] using ⟨s, hfiles, hlogged, hbounded, hstore⟩
    | some s₁ =>
      obtain rfl := hstore s₁ hw
      obtain ⟨s', heq, hlogged', -, hdl, -⟩ := ackPublish_spec hlimit hlogged id
      simp only [StoreWorld.step, hw, heq]
      exact .after w hlogged' (hdl ▸ hbounded)

/-- Every run keeps the invariant. -/
theorem durableInv_run (serde : StoreSerde) (events : List StoreEvent) :
    DurableInv ((storeMachine serde).run events) := by
  have hinit : DurableInv {} :=
    ⟨emptyStore, rfl, storeLogged_empty _, ⟨Nat.zero_le _, Nat.zero_le _⟩, nofun⟩
  exact Machine.invariant_runFrom (I := DurableInv) (fun _ _ h _ => durableInv_step serde h)
    hinit ((storeMachine serde).steps_true _ events)

/-- A run that admits a message leaves it pending under the first id, without dead letters. -/
private theorem run_admit {frame : IncomingFrame}
    (hlen : (encode (LogRecord.text DurableInbound.text) (.put 1 (frame.toInbound none))).length ≤
      MAX_DURABLE_LOG_LINE_BYTES) :
    ∃ s, ((storeMachine storeSerde).run [.reopen {}, .enqueueInbound frame none]).store = some s ∧
      Pending s 1 (frame.toInbound none) ∧ s.deadLetter.values = [] ∧ s.deadLetter.nextId = 1 := by
  obtain ⟨hne, -⟩ | ⟨s₁, hopen, hlogged, hnext, hdl, -⟩ :=
    openAt_spec storeSerde (.inl rfl) (storeLogged_empty MAX_DURABLE_LOG_LINE_BYTES) {}
  · -- the empty files open
    exact absurd rfl hne
  have hid : s₁.inbox.nextId = 1 := hnext
  rcases enqueueInbound_spec hlogged frame none with
    ⟨-, ⟨-, ⟨⟩, -⟩ | ⟨⟨⟩, -⟩⟩ | ⟨-, hlong, -⟩ | ⟨s₂, heq, -, hinbox, -, hdead, -⟩
  · -- the record of the frame fits, so it is admitted
    rw [hid] at hlong
    omega
  have hfirst : StoreWorld.step storeSerde {} (.reopen {}) = StoreWorld.after {} s₁ := by
    simp only [StoreWorld.step]
    rw [show ({} : StoreFiles) = emptyStore.files from rfl, hopen]
  refine ⟨s₂, ?_, ?_, by rw [hdead, hdl]; rfl, by rw [hdead, hdl]; rfl⟩
  · change (StoreWorld.step storeSerde (StoreWorld.step storeSerde {} (.reopen {}))
      (.enqueueInbound frame none)).store = some s₂
    rw [hfirst]
    simp only [StoreWorld.step, StoreWorld.after, heq]
  · unfold Pending
    rw [hinbox, afterPut, hid]
    exact Std.ExtTreeMap.getElem?_insert_self

/-- A log of records that the writer accepted reads back exactly when none has the length that the
    reader refuses; and in every store that a run reaches, `dead_letter_inbound` retires a pending
    item exactly when it needs no dead letter of its own or the writer takes the record of it. -/
theorem accepted_records_and_letters (serde : StoreSerde) :
    (∀ (T : Type) (itemText : T → Str) (serde : Serde (LogRecord.text itemText))
      (rs : List (LogRecord T)) (q : DurableQueue T),
      rs.foldlM (appendRecord itemText) newQueue = .ok q →
      (ReadsBack serde rs q.file ↔
        ∀ r ∈ rs, (encode (LogRecord.text itemText) r).length ≠ MAX_DURABLE_LOG_LINE_BYTES)) ∧
    ∀ (events : List StoreEvent) (s : DurableMqttStore) (id : Nat) (item : DurableInbound)
      (reason : Str), ((storeMachine serde).run events).store = some s → Pending s id item →
      (Retires s id reason ↔
        retiresPlainly s item reason = true ∨
          letterLength s item reason ≤ MAX_DURABLE_LOG_LINE_BYTES) := by
  refine ⟨fun T itemText serde rs q h => readsBack_iff serde h,
    fun events s id item reason hs hpend => ?_⟩
  obtain ⟨s', -, hlogged, hbounded, hstore⟩ := durableInv_run serde events
  obtain rfl := hstore s hs
  exact retires_iff hlogged hbounded hpend reason

/-- A small message's record reads back, and the message is retired. -/
theorem accepted_records_and_letters_retained :
    (∃ q, [LogRecord.put 1 ((retainedFrame "a").toInbound none)].foldlM
        (appendRecord DurableInbound.text) newQueue = .ok q ∧
      ReadsBack storeSerde.inbox [.put 1 ((retainedFrame "a").toInbound none)] q.file) ∧
    ∃ s, ((storeMachine storeSerde).run
        [.reopen {}, .enqueueInbound (retainedFrame "a") none]).store = some s ∧
      Retires s 1 ['x'] := by
  obtain ⟨hrecords, hletters⟩ := accepted_records_and_letters storeSerde
  have hlen : (encode (LogRecord.text DurableInbound.text)
      (.put 1 ((retainedFrame "a").toInbound none))).length ≤ MAX_DURABLE_LOG_LINE_BYTES := by
    decide +kernel
  constructor
  · obtain ⟨q, hq⟩ := appendAll_singleton hlen
    exact ⟨q, hq, (hrecords _ _ storeSerde.inbox _ q hq).mpr (by decide +kernel)⟩
  · obtain ⟨s, hrun, hpend, -, hnext⟩ := run_admit hlen
    refine ⟨s, hrun, (hletters _ s 1 _ ['x'] hrun hpend).mpr (.inr ?_)⟩
    rw [letterLength, hnext]
    decide +kernel

/-! ## A message of the largest size -/

/-- A message whose inbox record is as long as the writer takes it. -/
def largestFrame : IncomingFrame :=
  { topic := ['a'], payload := List.replicate (4194261 + 1) 0, retained := false }

/-- The text of the item without the record around it. -/
private theorem utf8Len_largest_text :
    Str.utf8Len (largestFrame.toInbound none).text = MAX_DURABLE_LOG_LINE_BYTES - 24 := by
  have h1 : Str.utf8Len (lit "\x7b\"topic\":") = 9 := by rw [lit]; decide
  have h2 : Str.utf8Len (strText ['a']) = 3 := by decide
  have h3 : Str.utf8Len (lit ",\"payload\":") = 11 := by rw [lit]; decide
  have h4 : Str.utf8Len (lit ",\"retained\":") = 12 := by rw [lit]; decide
  have h5 : Str.utf8Len (boolText false) = 5 := by
    rw [boolText, if_neg Bool.false_ne_true, lit]; decide
  have h6 : Str.utf8Len (lit ",\"message_id\":") = 14 := by rw [lit]; decide
  have h7 : Str.utf8Len (optStrText none) = 4 := by rw [optStrText, lit]; decide
  have h8 : Str.utf8Len (lit "\x7d") = 1 := by rw [lit]; decide
  simp only [DurableInbound.text, IncomingFrame.toInbound, largestFrame, Str.utf8Len_append,
    utf8Len_bytesText_replicate_zero, h1, h2, h3, h4, h5, h6, h7, h8, MAX_DURABLE_LOG_LINE_BYTES]

/-- The bytes of the dead letter of a message without an id, when no reason is given. -/
private theorem deadLetterBytes_toInbound {frame : IncomingFrame}
    (htopic : Str.utf8Len frame.topic = 1) :
    deadLetterBytes (letterOf (frame.toInbound none) []) = 1 + frame.payload.length := by
  have hreason : Str.utf8Len (truncateReason []) = 0 := rfl
  simp only [deadLetterBytes, letterOf, IncomingFrame.toInbound, htopic, hreason, Option.map_none,
    Option.getD_none]
  omega

private theorem deadLetterBytes_largest :
    deadLetterBytes (letterOf (largestFrame.toInbound none) []) ≤ DEAD_LETTER_MAX_BYTES := by
  have htopic : Str.utf8Len largestFrame.topic = 1 := by decide
  have hbytes := deadLetterBytes_toInbound htopic
  have hpayload : largestFrame.payload.length = 4194261 + 1 := List.length_replicate
  unfold DEAD_LETTER_MAX_BYTES
  omega

/-- What the record adds to an item. -/
private theorem length_put_one {T : Type} (itemText : T → Str) (item : T) :
    (encode (LogRecord.text itemText) (.put 1 item)).length = Str.utf8Len (itemText item) + 24 := by
  have h1 : Str.utf8Len (lit "\x7b\"Put\":\x7b\"id\":") = 13 := by rw [lit]; decide
  have h2 : Str.utf8Len (natText 1) = 1 := by decide
  have h3 : Str.utf8Len (lit ",\"item\":") = 8 := by rw [lit]; decide
  have h4 : Str.utf8Len (lit "\x7d\x7d") = 2 := by rw [lit]; decide
  simp only [encode, LogRecord.text, Str.length_utf8, Str.utf8Len_append, h1, h2, h3, h4]
  omega

/-- An item whose inbox record is as long as the writer takes it is not retired when there is no
    dead letter yet. -/
private theorem not_retires_of_largest {s : DurableMqttStore}
    (h : StoreLogged (MAX_DURABLE_LOG_LINE_BYTES + 1) s) (hbounded : LettersBounded s.deadLetter)
    {id : Nat} {item : DurableInbound} (hpend : Pending s id item)
    (hlen : Str.utf8Len item.text = MAX_DURABLE_LOG_LINE_BYTES - 24)
    (hbytes : deadLetterBytes (letterOf item []) ≤ DEAD_LETTER_MAX_BYTES)
    (hvalues : s.deadLetter.values = []) (hnext : s.deadLetter.nextId = 1) :
    ¬ Retires s id [] := by
  intro hret
  rcases (retires_iff h hbounded hpend []).mp hret with hplain | hshort
  · simp only [retiresPlainly, isDeadLettered, hvalues, List.any_nil, Bool.false_or,
      decide_eq_true_eq] at hplain
    omega
  · have h1 : Str.utf8Len (lit "\x7b\"inbound\":") = 11 := by rw [lit]; decide
    rw [letterLength, hnext, length_put_one, DurableDeadLetter.text, letterOf] at hshort
    simp only [Str.utf8Len_append, hlen, h1] at hshort
    unfold MAX_DURABLE_LOG_LINE_BYTES at hshort
    omega

/-- The writer takes its record, and the log no longer opens; and it is pending in a store that a
    run reaches, where it cannot be retired, since the record of its dead letter is too long. -/
theorem largest_not_retired :
    (∃ q, [LogRecord.put 1 (largestFrame.toInbound none)].foldlM
        (appendRecord DurableInbound.text) newQueue = .ok q ∧
      ¬ ReadsBack storeSerde.inbox [.put 1 (largestFrame.toInbound none)] q.file) ∧
    ∃ s, ((storeMachine storeSerde).run [.reopen {}, .enqueueInbound largestFrame none]).store =
        some s ∧ Pending s 1 (largestFrame.toInbound none) ∧ ¬ Retires s 1 [] := by
  have hlen : (encode (LogRecord.text DurableInbound.text)
      (.put 1 (largestFrame.toInbound none))).length = MAX_DURABLE_LOG_LINE_BYTES := by
    rw [length_put_one, utf8Len_largest_text]
    rfl
  constructor
  · obtain ⟨q, hq⟩ := appendAll_singleton (Nat.le_of_eq hlen)
    exact ⟨q, hq, fun hread =>
      (readsBack_iff storeSerde.inbox hq).mp hread _ (List.mem_singleton_self _) hlen⟩
  · obtain ⟨s, hrun, hpend, hvalues, hnext⟩ := run_admit (Nat.le_of_eq hlen)
    obtain ⟨s', -, hlogged, hbounded, hstore⟩ :=
      durableInv_run storeSerde [.reopen {}, .enqueueInbound largestFrame none]
    obtain rfl := hstore s hrun
    exact ⟨s, hrun, hpend, not_retires_of_largest hlogged hbounded hpend utf8Len_largest_text
      deadLetterBytes_largest hvalues hnext⟩

end TeamClu.Mqtt
