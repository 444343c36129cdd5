import TeamClu.Spec.StoreInvariant
import TeamClu.Spec.StoreJson

/-!
# Every accepted message stays, and none is accepted twice

In a run of careful steps `enqueue_inbound` turns a message away exactly when one of the same topic
and id is pending, and a message it has accepted stays pending under its id until that id is
acknowledged or dead-lettered (`inbox_keeps_messages`).

A step is not careful when a pending message has the same dedup key without having the same topic
and id, since a key is the topic and the id with a colon between them, and either may contain one;
when the store is reopened while a pending message has the content of a dead letter, since it is
then taken for that letter's own inbox item; when a record is written that has just the length that
the reader refuses; or when the ids are exhausted.
-/

namespace TeamClu.Mqtt

open DurableQueue

/-- The index holds the keys of the pending messages, and no two of them share one. -/
structure KeysMatch (s : DurableMqttStore) : Prop where
  mem_keys : ∀ key, key ∈ s.inboundDedup.keys ↔
    ∃ id item, Pending s id item ∧ item.key = some key
  inj : ∀ id id' item item' key, Pending s id item → Pending s id' item' →
    item.key = some key → item'.key = some key → id = id'

/-- What careful runs preserve: logs that read back, keys that match, and every admitted message
    pending. -/
def AdmissionInv (w : StoreWorld) : Prop :=
  ∃ s, w.files = s.files ∧ StoreLogged MAX_DURABLE_LOG_LINE_BYTES s ∧ KeysMatch s ∧
    (∀ s', w.store = some s' → s' = s) ∧ (w.store = none → w.admitted = []) ∧
    ∀ p ∈ w.admitted, Pending s p.1 p.2

/-- Whether a pending message has this key for another topic or id. -/
def keyCollides (s : DurableMqttStore) (item : DurableInbound) : Bool :=
  s.inbox.values.any fun (_, pending) =>
    item.key.isSome && pending.key == item.key &&
      !(pending.topic == item.topic && pending.messageId == item.messageId)

/-- The careful steps. -/
def carefulStore (w : StoreWorld) (e : StoreEvent) : Bool :=
  match w.store with
  | none => true
  | some s =>
    match e with
    | .reopen _ => s.inbox.values.all fun (_, item) => !isDeadLettered s.deadLetter item
    | .enqueueInbound frame messageId =>
      s.inbox.nextId < U64_MAX && !keyCollides s (frame.toInbound messageId) &&
        (encode (LogRecord.text DurableInbound.text)
          (.put s.inbox.nextId (frame.toInbound messageId))).length ≠ MAX_DURABLE_LOG_LINE_BYTES
    | .deadLetterInbound id reason =>
      match s.inbox.entries[id]? with
      | none => true
      | some item =>
        retiresPlainly s item reason ||
          letterLength s item reason ≠ MAX_DURABLE_LOG_LINE_BYTES
    | .enqueuePublish publish uuid =>
      (encode (LogRecord.text DurablePublish.text) (.put s.outbox.nextId
        { publish with eventId := some (publish.eventId.getD uuid) })).length ≠
          MAX_DURABLE_LOG_LINE_BYTES
    | _ => true

/-- A message with an id is turned away exactly when one of its topic and id is pending. -/
def DecidesOnce (w : StoreWorld) (e : StoreEvent) : Prop :=
  match e, w.store with
  | .enqueueInbound frame messageId, some s =>
    (s.enqueueInbound frame messageId).2 = .ok none ↔
      messageId.isSome = true ∧ ∃ id item, Pending s id item ∧ item.topic = frame.topic ∧
        item.messageId = messageId
  | _, _ => True

/-- Every admitted message is pending under its id. -/
def KeepsAdmitted (w : StoreWorld) : Prop :=
  ∀ p ∈ w.admitted, ∃ s, w.store = some s ∧ Pending s p.1 p.2

/-- Whether every admitted message is pending can be looked up. -/
theorem keepsAdmitted_iff {w : StoreWorld} :
    KeepsAdmitted w ↔ ∀ p ∈ w.admitted, (w.store.bind fun s => s.inbox.entries[p.1]?) = some p.2 := by
  simp only [KeepsAdmitted, Pending, Option.bind_eq_some_iff]

/-! ## Keys -/

/-- Messages of the same topic and id have the same key. -/
private theorem key_congr {a b : DurableInbound} (htopic : a.topic = b.topic)
    (hid : a.messageId = b.messageId) : a.key = b.key := by
  rw [DurableInbound.key, DurableInbound.key, htopic, hid]

/-- Taking out an item takes out its key. -/
private theorem keysMatch_erase {limit id : Nat} {s s' : DurableMqttStore} (h : KeysMatch s)
    (herased : InboxErased limit s s' id) : KeysMatch s' := by
  -- what is pending loses the one id
  have hpend : ∀ i item, Pending s' i item ↔ id ≠ i ∧ Pending s i item := by
    intro i item
    unfold Pending
    rw [herased.entries, Std.ExtTreeMap.getElem?_erase]
    simp only [Std.compare_eq_iff_eq]
    split_ifs with heq
    · simp [heq]
    · simp [heq]
  constructor
  · intro key
    rw [herased.keys, h.mem_keys]
    constructor
    · -- a key that is left belongs to another item
      rintro ⟨hne, i, item, hi, hk⟩
      refine ⟨i, item, (hpend i item).mpr ⟨?_, hi⟩, hk⟩
      rintro rfl
      exact hne (by rw [hi]; exact hk)
    · rintro ⟨i, item, hi, hk⟩
      obtain ⟨hne, hi⟩ := (hpend i item).mp hi
      refine ⟨fun heq => hne ?_, i, item, hi, hk⟩
      obtain ⟨item', hitem', hk'⟩ := Option.bind_eq_some_iff.mp heq
      exact h.inj id i item' item key hitem' hi hk' hk
  · -- two pending items with one key are one item
    intro i i' item item' key hi hi' hk hk'
    exact h.inj i i' item item' key ((hpend i item).mp hi).2 ((hpend i' item').mp hi').2 hk hk'

/-- Other messages stay when one is taken out. -/
private theorem pending_erase {limit id : Nat} {s s' : DurableMqttStore}
    (herased : InboxErased limit s s' id) {i : Nat} {item : DurableInbound} (hne : i ≠ id)
    (h : Pending s i item) : Pending s' i item := by
  unfold Pending at h ⊢
  rw [herased.entries, Std.ExtTreeMap.getElem?_erase,
    if_neg fun heq => hne (Std.compare_eq_iff_eq.mp heq).symm, h]

/-- Operations on the outbox leave the messages and their keys. -/
private theorem keysMatch_congr {s s' : DurableMqttStore} (h : KeysMatch s)
    (hinbox : s'.inbox = s.inbox) (hdedup : s'.inboundDedup = s.inboundDedup) : KeysMatch s' := by
  constructor
  · intro key
    rw [hdedup, h.mem_keys]
    unfold Pending
    rw [hinbox]
  · unfold Pending
    rw [hinbox]
    exact h.inj

/-! ## Steps -/

/-- The invariant after an operation on an open store. -/
private theorem AdmissionInv.after {w : StoreWorld} {s : DurableMqttStore}
    (hlogged : StoreLogged MAX_DURABLE_LOG_LINE_BYTES s) (hkeys : KeysMatch s)
    (hadmitted : ∀ p ∈ w.admitted, Pending s p.1 p.2) : AdmissionInv (w.after s) :=
  ⟨s, rfl, hlogged, hkeys, fun _ h => (Option.some.inj h).symm, nofun, hadmitted⟩

/-- The invariant after an id was let go of. -/
private theorem AdmissionInv.letGo {w : StoreWorld} {s s' : DurableMqttStore} {id : Nat}
    (hkeys : KeysMatch s) (hadmitted : ∀ p ∈ w.admitted, Pending s p.1 p.2)
    (herased : InboxErased MAX_DURABLE_LOG_LINE_BYTES s s' id) :
    AdmissionInv ((w.after s').letGo id) := by
  refine ⟨s', rfl, herased.logged, keysMatch_erase hkeys herased,
    fun _ h => (Option.some.inj h).symm, nofun, fun p hp => ?_⟩
  obtain ⟨hp, hne⟩ := List.mem_filter.mp hp
  exact pending_erase herased (of_decide_eq_true hne) (hadmitted p hp)

/-- What an admission does to the invariant. -/
private theorem admit_step {w : StoreWorld} {s s' : DurableMqttStore} {item : DurableInbound}
    (hlogged : StoreLogged MAX_DURABLE_LOG_LINE_BYTES s) (hkeys : KeysMatch s)
    (hadmitted : ∀ p ∈ w.admitted, Pending s p.1 p.2) (hid : s.inbox.nextId < U64_MAX)
    (hlogged' : StoreLogged MAX_DURABLE_LOG_LINE_BYTES s')
    (hinbox : s'.inbox = s.inbox.afterPut DurableInbound.text item)
    (hfresh : ∀ key, item.key = some key → key ∉ s.inboundDedup.keys)
    (hmem : ∀ key, key ∈ s'.inboundDedup.keys ↔ item.key = some key ∨ key ∈ s.inboundDedup.keys) :
    AdmissionInv { w.after s' with admitted := (s.inbox.nextId, item) :: w.admitted } := by
  -- the id is new
  have hnew : ∀ i x, Pending s i x → i ≠ s.inbox.nextId := by
    intro i x hi heq
    have hmemi : i ∈ s.inbox.entries := by
      rw [Std.ExtTreeMap.mem_iff_isSome_getElem?, hi]
      rfl
    have := hlogged.inbox.ids.succ_le i hmemi
    unfold saturatingSucc at this
    omega
  -- what is pending gains the one item
  have hpend : ∀ i x, Pending s' i x ↔
      (i = s.inbox.nextId ∧ x = item) ∨ (i ≠ s.inbox.nextId ∧ Pending s i x) := by
    intro i x
    unfold Pending
    rw [hinbox, afterPut, Std.ExtTreeMap.getElem?_insert]
    simp only [Std.compare_eq_iff_eq]
    split_ifs with heq
    · simp [heq, eq_comm]
    · simp [Ne.symm heq]
  refine ⟨s', rfl, hlogged', ⟨fun key => ?_, ?_⟩, fun _ h => (Option.some.inj h).symm,
    fun hnone => (by cases hnone), ?_⟩
  · -- the index gains the key of the item
    rw [hmem, hkeys.mem_keys]
    constructor
    · rintro (hk | ⟨i, x, hi, hk⟩)
      · exact ⟨_, item, (hpend _ _).mpr (.inl ⟨rfl, rfl⟩), hk⟩
      · exact ⟨i, x, (hpend i x).mpr (.inr ⟨hnew i x hi, hi⟩), hk⟩
    · rintro ⟨i, x, hi, hk⟩
      rcases (hpend i x).mp hi with ⟨-, rfl⟩ | ⟨-, hi⟩
      · exact .inl hk
      · exact .inr ⟨i, x, hi, hk⟩
  · intro i i' x x' key hi hi' hk hk'
    -- the key was in the index neither by an old item nor by this one
    have hnot : ∀ j y, Pending s j y → y.key = some key → item.key ≠ some key :=
      fun j y hj hy hitem => hfresh key hitem ((hkeys.mem_keys key).mpr ⟨j, y, hj, hy⟩)
    rcases (hpend i x).mp hi with ⟨rfl, rfl⟩ | ⟨-, hi⟩ <;>
      rcases (hpend i' x').mp hi' with ⟨rfl, rfl⟩ | ⟨-, hi'⟩
    · rfl
    · exact absurd hk (hnot i' x' hi' hk')
    · exact absurd hk' (hnot i x hi hk)
    · exact hkeys.inj i i' x x' key hi hi' hk hk'
  · -- what was admitted is still pending
    intro p hp
    rcases List.mem_cons.mp hp with rfl | hp
    · exact (hpend _ _).mpr (.inl ⟨rfl, rfl⟩)
    · exact (hpend _ _).mpr (.inr ⟨hnew _ _ (hadmitted p hp), hadmitted p hp⟩)

/-- No key collides: a message with the key of a pending one has its topic and id. -/
private theorem same_of_not_keyCollides {s : DurableMqttStore} {item pending : DurableInbound}
    {id : Nat} {key : Str} (h : keyCollides s item = false) (hpend : Pending s id pending)
    (hkey : item.key = some key) (hkey' : pending.key = some key) :
    pending.topic = item.topic ∧ pending.messageId = item.messageId := by
  have hmem : (id, pending) ∈ s.inbox.values :=
    Std.ExtTreeMap.mem_toList_iff_getElem?_eq_some.mpr hpend
  have hnot := List.any_eq_false.mp h _ hmem
  simpa [hkey, hkey'] using hnot

/-- A careful step keeps the invariant and decides once. -/
theorem admissionInv_step (serde : StoreSerde) {w : StoreWorld} {e : StoreEvent}
    (h : AdmissionInv w) (hcareful : carefulStore w e = true) :
    AdmissionInv (w.step serde e) ∧ DecidesOnce w e := by
  have hlimit : IsLimit MAX_DURABLE_LOG_LINE_BYTES := .inl rfl
  obtain ⟨s, hfiles, hlogged, hkeys, hstore, hnone, hadmitted⟩ := h
  cases e with
  | reopen sizes =>
    refine ⟨?_, trivial⟩
    -- the file is readable, so the store opens
    obtain ⟨hne, -⟩ | ⟨s', hopen, hlogged', -, -, hpend, hmem⟩ :=
      openAt_spec serde hlimit hlogged sizes
    · exact absurd rfl hne
    · simp only [StoreWorld.step, hfiles, hopen]
      refine .after hlogged' ⟨hmem, fun id id' item item' key hi hi' hk hk' => ?_⟩ fun p hp => ?_
      · exact hkeys.inj id id' item item' key ((hpend _ _).mp hi).1 ((hpend _ _).mp hi').1 hk hk'
      · -- an admitted message is no orphan
        cases hw : w.store with
        | none => rw [hnone hw] at hp; exact absurd hp List.not_mem_nil
        | some s₁ =>
          obtain rfl := hstore s₁ hw
          simp only [carefulStore, hw, List.all_eq_true, Bool.not_eq_true'] at hcareful
          refine (hpend _ _).mpr ⟨hadmitted p hp, hcareful (p.1, p.2) ?_⟩
          exact Std.ExtTreeMap.mem_toList_iff_getElem?_eq_some.mpr (hadmitted p hp)
  | enqueueInbound frame messageId =>
    cases hw : w.store with
    -- a closed store decides nothing
    | none =>
      simp only [StoreWorld.step, DecidesOnce, hw, and_true]
      exact ⟨s, hfiles, hlogged, hkeys, hstore, hnone, hadmitted⟩
    | some s₁ =>
      obtain rfl := hstore s₁ hw
      simp only [carefulStore, hw, Bool.and_eq_true, decide_eq_true_eq, Bool.not_eq_true'] at hcareful
      obtain ⟨⟨hid, hcollide⟩, hlength⟩ := hcareful
      simp only [StoreWorld.step, DecidesOnce, hw]
      -- a pending message of this topic and id has its key in the index
      have hindexed : (messageId.isSome = true ∧ ∃ id item, Pending s₁ id item ∧
          item.topic = frame.topic ∧ item.messageId = messageId) →
          ∃ key, (frame.toInbound messageId).key = some key ∧ key ∈ s₁.inboundDedup.keys := by
        rintro ⟨hsome, id, item, hitem, htopic, hmid⟩
        obtain ⟨mid, rfl⟩ := Option.isSome_iff_exists.mp hsome
        have hk : item.key = (frame.toInbound (some mid)).key := key_congr htopic hmid
        exact ⟨_, rfl, (hkeys.mem_keys _).mpr ⟨id, item, hitem, hk⟩⟩
      rcases enqueueInbound_spec hlogged frame messageId with
        ⟨heq, hwhy⟩ | ⟨heq, -, hfresh⟩ | ⟨s', heq, hle, hinbox, hout, hdead, hdedup, hfresh, hmem⟩
      · rw [heq]
        refine ⟨.after hlogged hkeys hadmitted, fun _ => ?_, fun _ => rfl⟩
        -- the decision was a duplicate: by its key or by the message itself
        rcases hwhy with ⟨key, hk, hkmem⟩ | hsame
        · obtain ⟨id, item, hitem, hk'⟩ := (hkeys.mem_keys key).mp hkmem
          obtain ⟨htopic, hmid⟩ := same_of_not_keyCollides hcollide hitem hk hk'
          refine ⟨?_, id, item, hitem, htopic, hmid⟩
          obtain ⟨mid, hsome, -⟩ := Option.map_eq_some_iff.mp hk
          exact Option.isSome_iff_exists.mpr ⟨mid, hsome⟩
        · exact hsame
      · -- a record that is too long admits nothing
        rw [heq]
        refine ⟨.after hlogged hkeys hadmitted, nofun, fun hsame => ?_⟩
        obtain ⟨key, hk, hkmem⟩ := hindexed hsame
        exact absurd hkmem (hfresh key hk)
      · -- the message is admitted
        rw [heq]
        have hlogged' := storeLogged_admit hlogged (Nat.lt_of_le_of_ne hle hlength) hinbox hout
          hdead hdedup
        refine ⟨admit_step hlogged hkeys hadmitted hid hlogged' hinbox hfresh hmem, nofun,
          fun hsame => ?_⟩
        obtain ⟨key, hk, hkmem⟩ := hindexed hsame
        exact absurd hkmem (hfresh key hk)
  | ackInbound id =>
    refine ⟨?_, trivial⟩
    cases hw : w.store with
    | none =>
      simp only [StoreWorld.step, hw]
      exact ⟨s, hfiles, hlogged, hkeys, hstore, hnone, hadmitted⟩
    | some s₁ =>
      obtain rfl := hstore s₁ hw
      -- an acknowledged message is let go
      obtain ⟨s', heq, herased, -⟩ := ackInbound_spec hlimit hlogged id
      simp only [StoreWorld.step, hw, heq]
      exact .letGo hkeys hadmitted herased
  | deadLetterInbound id reason =>
    refine ⟨?_, trivial⟩
    cases hw : w.store with
    | none =>
      simp only [StoreWorld.step, hw]
      exact ⟨s, hfiles, hlogged, hkeys, hstore, hnone, hadmitted⟩
    | some s₁ =>
      obtain rfl := hstore s₁ hw
      simp only [StoreWorld.step, hw]
      cases hpend : s₁.inbox.entries[id]? with
      | none =>
        rw [deadLetterInbound_absent hpend]
        -- an unknown id is only forgotten
        refine ⟨s₁, rfl, hlogged, hkeys, fun _ h => (Option.some.inj h).symm, nofun, fun p hp => ?_⟩
        exact hadmitted p (List.mem_filter.mp hp).1
      | some item =>
        simp only [carefulStore, hw, hpend, Bool.or_eq_true, decide_eq_true_eq] at hcareful
        cases hplain : retiresPlainly s₁ item reason with
        | true =>
          -- retired without a letter
          obtain ⟨s', heq, herased, -⟩ := deadLetterInbound_plain hlimit hlogged hpend hplain
          rw [heq]
          exact .letGo hkeys hadmitted herased
        | false =>
          have hlength := hcareful.resolve_left (by rw [hplain]; exact Bool.false_ne_true)
          obtain ⟨dl, hdl, -, -, -, hlong, hshort⟩ :=
            deadLetterInbound_put hlimit hlogged hpend hplain
          by_cases hle : letterLength s₁ item reason ≤ MAX_DURABLE_LOG_LINE_BYTES
          · obtain ⟨s', heq, herased, -⟩ := hshort hle (Nat.lt_of_le_of_ne hle hlength)
            rw [heq]
            exact .letGo hkeys hadmitted herased
          · -- the record is refused: the item stays, only forgotten
            rw [hlong (by omega)]
            refine ⟨_, rfl, ⟨hlogged.inbox, hlogged.outbox, hdl, hlogged.dedup⟩,
              keysMatch_congr hkeys rfl rfl, fun _ h => (Option.some.inj h).symm, nofun,
              fun p hp => ?_⟩
            exact hadmitted p (List.mem_filter.mp hp).1
  | enqueuePublish publish uuid =>
    refine ⟨?_, trivial⟩
    cases hw : w.store with
    | none =>
      simp only [StoreWorld.step, hw]
      exact ⟨s, hfiles, hlogged, hkeys, hstore, hnone, hadmitted⟩
    | some s₁ =>
      obtain rfl := hstore s₁ hw
      simp only [carefulStore, hw, decide_eq_true_eq] at hcareful
      obtain ⟨s', r, heq, hlogged', hinbox, -, hdedup⟩ := enqueuePublish_spec hlogged publish uuid
        fun hle => Nat.lt_of_le_of_ne hle hcareful
      simp only [StoreWorld.step, hw, heq]
      -- the outgoing queue is no part of the admission
      refine .after hlogged' (keysMatch_congr hkeys hinbox hdedup) fun p hp => ?_
      unfold Pending
      rw [hinbox]
      exact hadmitted p hp
  | ackPublish id =>
    refine ⟨?_, trivial⟩
    cases hw : w.store with
    | none =>
      simp only [StoreWorld.step, hw]
      exact ⟨s, hfiles, hlogged, hkeys, hstore, hnone, hadmitted⟩
    | some s₁ =>
      obtain rfl := hstore s₁ hw
      obtain ⟨s', heq, hlogged', hinbox, -, hdedup⟩ := ackPublish_spec hlimit hlogged id
      simp only [StoreWorld.step, hw, heq]
      refine .after hlogged' (keysMatch_congr hkeys hinbox hdedup) fun p hp => ?_
      unfold Pending
      rw [hinbox]
      exact hadmitted p hp

/-- What the invariant says of the admitted messages. -/
private theorem AdmissionInv.keepsAdmitted {w : StoreWorld} (h : AdmissionInv w) :
    KeepsAdmitted w := by
  obtain ⟨s, -, -, -, hstore, hnone, hadmitted⟩ := h
  intro p hp
  cases hw : w.store with
  | none => rw [hnone hw] at hp; exact absurd hp List.not_mem_nil
  | some s₁ =>
    obtain rfl := hstore s₁ hw
    exact ⟨s₁, rfl, hadmitted p hp⟩

private theorem admissionInv_init : AdmissionInv {} := by
  refine ⟨emptyStore, rfl, storeLogged_empty _, ⟨fun key => ⟨nofun, ?_⟩, ?_⟩, nofun, fun _ => rfl,
    nofun⟩
  · rintro ⟨id, item, hitem, -⟩
    simp [Pending, emptyStore] at hitem
  · intro id id' item item' key hitem
    simp [Pending, emptyStore] at hitem

/-- In a run of careful steps a message is turned away exactly when it is pending already, and every
    admitted message is pending until it is let go of. -/
theorem inbox_keeps_messages (serde : StoreSerde) (events : List StoreEvent)
    (hcareful : (storeMachine serde).Steps (fun w e => carefulStore w e = true) {} events) :
    (storeMachine serde).Steps
      (fun w e => DecidesOnce w e ∧ KeepsAdmitted ((storeMachine serde).step w e)) {} events :=
  Machine.Steps.of_invariant (I := AdmissionInv)
    (fun _ _ h hc => (admissionInv_step serde h hc).1)
    (fun _ _ h hc => ⟨(admissionInv_step serde h hc).2,
      (admissionInv_step serde h hc).1.keepsAdmitted⟩)
    admissionInv_init hcareful

/-! ## Runs of the store -/

/-- A retained message without a payload. -/
def retainedFrame (topic : String) : IncomingFrame :=
  { topic := topic.toList, payload := [], retained := true }

/-- Two messages, one of them twice, a dead letter, and a process that dies in between. -/
def carefulStoreRun : List StoreEvent :=
  [.reopen {}, .enqueueInbound (retainedFrame "a") (some ['1']),
    .enqueueInbound (retainedFrame "a") (some ['1']), .enqueueInbound (retainedFrame "b") none,
    .deadLetterInbound 1 ['x'], .enqueueInbound (retainedFrame "c") (some ['1']),
    .reopen { inbox := [7] }, .ackInbound 2]

/-- That run decides once on each message and keeps those it admits. -/
theorem inbox_keeps_messages_carefulStoreRun :
    (storeMachine storeSerde).Steps
      (fun w e => DecidesOnce w e ∧ KeepsAdmitted ((storeMachine storeSerde).step w e)) {}
      carefulStoreRun :=
  inbox_keeps_messages storeSerde carefulStoreRun (by decide +kernel)

/-- Message `b:c` of topic `a` is pending when message `c` of topic `a:b` comes in. -/
def sharedKeyRun : List StoreEvent :=
  [.reopen {}, .enqueueInbound (retainedFrame "a") (some "b:c".toList)]

/-- A message without an id becomes a dead letter, and comes in again. -/
def sameContentRun : List StoreEvent :=
  [.reopen {}, .enqueueInbound (retainedFrame "a") none, .deadLetterInbound 1 ['x'],
    .enqueueInbound (retainedFrame "a") none]

/-- After the first run the new message is turned away although none of its topic and id is pending;
    after the second a reopen loses the message that was admitted under id 2. -/
theorem inbox_loses_messages :
    (∃ s, ((storeMachine storeSerde).run sharedKeyRun).store = some s ∧
      (s.enqueueInbound (retainedFrame "a:b") (some ['c'])).2 = .ok none ∧
      ¬ ∃ id item, Pending s id item ∧ item.topic = (retainedFrame "a:b").topic ∧
        item.messageId = some ['c']) ∧
    KeepsAdmitted ((storeMachine storeSerde).run sameContentRun) ∧
    ¬ KeepsAdmitted ((storeMachine storeSerde).run (sameContentRun ++ [.reopen {}])) := by
  refine ⟨?_, keepsAdmitted_iff.mpr (by decide +kernel), fun h =>
    absurd (keepsAdmitted_iff.mp h) (by decide +kernel)⟩
  have hturned : (((storeMachine storeSerde).run sharedKeyRun).store.map fun s =>
      ((s.enqueueInbound (retainedFrame "a:b") (some ['c'])).2 == .ok none,
        s.hasPending (retainedFrame "a:b").topic ['c'])) = some (true, false) := by decide +kernel
  obtain ⟨s, hs, heq⟩ := Option.map_eq_some_iff.mp hturned
  obtain ⟨hnone, hpend⟩ := Prod.mk.inj heq
  refine ⟨s, hs, beq_iff_eq.mp hnone, fun hsame => ?_⟩
  rw [hasPending_iff.mpr hsame] at hpend
  exact nomatch hpend

end TeamClu.Mqtt
