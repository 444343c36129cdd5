import TeamClu.Native.DurableQueue

/-!
# The durable MQTT store

`DurableMqttStore` of `apps/daemon/src/mqtt/durable_queue.rs`: an inbox, an outbox and a dead letter
queue, and the dedup index of the inbox, each with a log of its own.

An operation may fail after it has changed some of the queues, so its result is the store it leaves
behind together with what it returns.
-/

namespace TeamClu.Mqtt

open JsonText (lit)

/-- Most dead letters kept. -/
def DEAD_LETTER_MAX_ENTRIES : Nat := 1024

/-- Most bytes of dead letters kept. -/
def DEAD_LETTER_MAX_BYTES : Nat := 16 * 1024 * 1024

/-- Most bytes of a dead letter's reason. -/
def DEAD_LETTER_MAX_REASON_BYTES : Nat := 4 * 1024

/-! ## What the queues hold -/

/-- A message received from the broker. -/
structure IncomingFrame where
  topic : Str
  payload : Bytes
  retained : Bool
  deriving DecidableEq

/-- An item of the inbox. -/
structure DurableInbound where
  topic : Str
  payload : Bytes
  retained : Bool
  messageId : Option Str
  deriving DecidableEq

/-- `DurableInbound` as JSON. -/
def DurableInbound.text (item : DurableInbound) : Str :=
  lit "\x7b\"topic\":" ++ (JsonText.strText item.topic ++ (lit ",\"payload\":" ++
    (JsonText.bytesText item.payload ++ (lit ",\"retained\":" ++
      (JsonText.boolText item.retained ++ (lit ",\"message_id\":" ++
        (JsonText.optStrText item.messageId ++ lit "\x7d")))))))

/-- How a publish is delivered. -/
inductive StoredDelivery where
  | atMostOnce
  | atLeastOnce
  | exactlyOnce
  deriving DecidableEq

/-- `StoredDelivery` as JSON. -/
def StoredDelivery.text : StoredDelivery → Str
  | atMostOnce => lit "\"AtMostOnce\""
  | atLeastOnce => lit "\"AtLeastOnce\""
  | exactlyOnce => lit "\"ExactlyOnce\""

/-- An item of the outbox. -/
structure DurablePublish where
  topic : Str
  payload : Bytes
  retain : Bool
  delivery : StoredDelivery
  eventId : Option Str
  deriving DecidableEq

/-- `DurablePublish` as JSON. -/
def DurablePublish.text (item : DurablePublish) : Str :=
  lit "\x7b\"topic\":" ++ (JsonText.strText item.topic ++ (lit ",\"payload\":" ++
    (JsonText.bytesText item.payload ++ (lit ",\"retain\":" ++
      (JsonText.boolText item.retain ++ (lit ",\"delivery\":" ++
        (item.delivery.text ++ (lit ",\"event_id\":" ++
          (JsonText.optStrText item.eventId ++ lit "\x7d")))))))))

/-- An item of the dead letter queue. -/
structure DurableDeadLetter where
  inbound : DurableInbound
  reason : Str
  deriving DecidableEq

/-- `DurableDeadLetter` as JSON. -/
def DurableDeadLetter.text (item : DurableDeadLetter) : Str :=
  lit "\x7b\"inbound\":" ++ (item.inbound.text ++ (lit ",\"reason\":" ++
    (JsonText.strText item.reason ++ lit "\x7d")))

/-- `same_inbound`. -/
def sameInbound (left right : DurableInbound) : Bool :=
  left.topic == right.topic && left.payload == right.payload && left.retained == right.retained &&
    left.messageId == right.messageId

/-- `dead_letter_bytes` of one item. -/
def deadLetterBytes (item : DurableDeadLetter) : Nat :=
  Str.utf8Len item.inbound.topic + item.inbound.payload.length + Str.utf8Len item.reason +
    (item.inbound.messageId.map Str.utf8Len).getD 0

/-- The last character boundary at or below a byte offset: the loop of `truncate_reason`. -/
def charBoundaryAt (s : Str) : Nat → Nat
  | 0 => 0
  | n + 1 => if (Str.sliceTo s (n + 1)).isSome then n + 1 else charBoundaryAt s n

/-- `truncate_reason`. -/
def truncateReason (reason : Str) : Str :=
  if Str.utf8Len reason ≤ DEAD_LETTER_MAX_REASON_BYTES then reason
  else
    (Str.sliceTo reason (charBoundaryAt reason (DEAD_LETTER_MAX_REASON_BYTES - 3))).getD [] ++
      lit "..."

/-- The key of a message in the dedup index: `{topic}:{message_id}`. -/
def dedupKey (topic messageId : Str) : Str := topic ++ ':' :: messageId

/-- The key of an inbox item, if the message has an id. -/
def DurableInbound.key (item : DurableInbound) : Option Str :=
  item.messageId.map (dedupKey item.topic)

/-! ## The store -/

/-- `serde_json` for the four logs, and for the keys that older builds wrote plain. -/
structure StoreSerde where
  inbox : Serde (LogRecord.text DurableInbound.text)
  outbox : Serde (LogRecord.text DurablePublish.text)
  deadLetter : Serde (LogRecord.text DurableDeadLetter.text)
  dedup : Serde DedupRecord.text
  legacyKey : Str → Option Str

/-- The four log files. -/
structure StoreFiles where
  inbox : Bytes := []
  outbox : Bytes := []
  deadLetter : Bytes := []
  dedup : Bytes := []
  deriving DecidableEq

/-- The sizes of the buffers the four files are read in. -/
structure StoreSizes where
  inbox : List Nat := []
  outbox : List Nat := []
  deadLetter : List Nat := []
  dedup : List Nat := []

/-- The open store. -/
structure DurableMqttStore where
  inbox : DurableQueue DurableInbound
  outbox : DurableQueue DurablePublish
  deadLetter : DurableQueue DurableDeadLetter
  inboundDedup : DurableDedup

/-- What the store keeps on disk. -/
def DurableMqttStore.files (store : DurableMqttStore) : StoreFiles :=
  { inbox := store.inbox.file, outbox := store.outbox.file, deadLetter := store.deadLetter.file
    dedup := store.inboundDedup.file }

/-- Whether a dead letter has the content of this inbox item. -/
def isDeadLettered (deadLetter : DurableQueue DurableDeadLetter) (item : DurableInbound) : Bool :=
  deadLetter.values.any fun (_, letter) => sameInbound item letter.inbound

/-- The ids of inbox items whose dead letter is already durable. -/
def orphanedInboxIds (inbox : DurableQueue DurableInbound)
    (deadLetter : DurableQueue DurableDeadLetter) : List Nat :=
  (inbox.values.filter fun (_, inbound) => isDeadLettered deadLetter inbound).map (·.1)

/-- The keys of the pending inbox items. -/
def pendingKeys (inbox : DurableQueue DurableInbound) : Std.ExtTreeSet Str :=
  Std.ExtTreeSet.ofList (inbox.values.filterMap fun (_, item) => item.key) compare

namespace DurableMqttStore

/-- `open_at`. -/
def openAt (serde : StoreSerde) (files : StoreFiles) (sizes : StoreSizes) :
    Except QueueError DurableMqttStore := do
  let inbox ← DurableQueue.open serde.inbox files.inbox sizes.inbox
  let outbox ← DurableQueue.open serde.outbox files.outbox sizes.outbox
  let deadLetter ← DurableQueue.open serde.deadLetter files.deadLetter sizes.deadLetter
  let inbox ← (orphanedInboxIds inbox deadLetter).foldlM
    (fun (inbox : DurableQueue DurableInbound) id => inbox.ack DurableInbound.text id) inbox
  let dedup ← DurableDedup.open serde.dedup serde.legacyKey files.dedup sizes.dedup
  return { inbox, outbox, deadLetter, inboundDedup := dedup.reconcile (pendingKeys inbox) }

/-- Whether the inbox holds a message of this topic and id. -/
def hasPending (store : DurableMqttStore) (topic messageId : Str) : Bool :=
  store.inbox.values.any fun (_, inbound) =>
    inbound.topic == topic && inbound.messageId == some messageId

/-- `enqueue_inbound`. -/
def enqueueInbound (store : DurableMqttStore) (frame : IncomingFrame) (messageId : Option Str) :
    DurableMqttStore × Except QueueError (Option Nat) :=
  let key := messageId.map (dedupKey frame.topic)
  if key.any store.inboundDedup.keys.contains then (store, .ok none)
  else if messageId.any (store.hasPending frame.topic) then (store, .ok none)
  else
    match store.inbox.put DurableInbound.text
        { topic := frame.topic, payload := frame.payload, retained := frame.retained, messageId } with
    | .error e => (store, .error e)
    | .ok (inbox, id) =>
      let store := { store with inbox }
      match key with
      | none => (store, .ok (some id))
      | some key =>
        match store.inboundDedup.insert key with
        | .error e => (store, .error e)
        | .ok inboundDedup => ({ store with inboundDedup }, .ok (some id))

/-- Take a key out of the dedup index, if there is one: the end of `ack_inbound`. -/
def removeKey (store : DurableMqttStore) (key : Option Str) :
    DurableMqttStore × Except QueueError Unit :=
  match key with
  | none => (store, .ok ())
  | some key =>
    match store.inboundDedup.remove key with
    | .error e => (store, .error e)
    | .ok inboundDedup => ({ store with inboundDedup }, .ok ())

/-- `ack_inbound`. -/
def ackInbound (store : DurableMqttStore) (id : Nat) : DurableMqttStore × Except QueueError Unit :=
  let key := store.inbox.entries[id]?.bind DurableInbound.key
  match store.inbox.ack DurableInbound.text id with
  | .error e => (store, .error e)
  | .ok inbox => removeKey { store with inbox } key

/-- The bytes of all dead letters. -/
def deadLetterTotal (deadLetter : DurableQueue DurableDeadLetter) : Nat :=
  (deadLetter.values.map fun (_, item) => deadLetterBytes item).sum

/-- Whether the dead letter queue has no room for `incoming` more bytes. -/
def isFull (deadLetter : DurableQueue DurableDeadLetter) (incoming : Nat) : Bool :=
  deadLetter.entries.size ≥ DEAD_LETTER_MAX_ENTRIES ||
    deadLetterTotal deadLetter + incoming > DEAD_LETTER_MAX_BYTES

/-- An acknowledged entry is gone. -/
theorem size_ack_lt {deadLetter deadLetter' : DurableQueue DurableDeadLetter} {id : Nat}
    {letter : DurableDeadLetter} {rest : List (Nat × DurableDeadLetter)}
    (hvalues : deadLetter.values = (id, letter) :: rest)
    (h : deadLetter.ack DurableDeadLetter.text id = .ok deadLetter') :
    deadLetter'.entries.size < deadLetter.entries.size := by
  have hmem : id ∈ deadLetter.entries := by
    have hlist : (id, letter) ∈ deadLetter.entries.toList := by
      change (id, letter) ∈ deadLetter.values
      rw [hvalues]
      exact List.mem_cons_self
    rw [Std.ExtTreeMap.mem_iff_isSome_getElem?,
      Std.ExtTreeMap.mem_toList_iff_getElem?_eq_some.mp hlist]
    rfl
  have hpos : deadLetter.entries.size ≠ 0 := fun hzero =>
    Std.ExtTreeMap.not_mem_empty (Std.ExtTreeMap.eq_empty_iff_size_eq_zero.mpr hzero ▸ hmem)
  rw [DurableQueue.entries_of_ack hmem h, Std.ExtTreeMap.size_erase,
    if_pos (Std.ExtTreeMap.contains_iff_mem.mpr hmem)]
  omega

/-- The eviction loop of `dead_letter_inbound`: acknowledge the oldest dead letter until there is
    room. -/
def evict (deadLetter : DurableQueue DurableDeadLetter) (incoming : Nat) :
    DurableQueue DurableDeadLetter × Except QueueError Unit :=
  if isFull deadLetter incoming then
    match _hvalues : deadLetter.values with
    | [] => (deadLetter, .ok ())
    | (oldest, _) :: _ =>
      match _hack : deadLetter.ack DurableDeadLetter.text oldest with
      | .error e => (deadLetter, .error e)
      | .ok deadLetter => evict deadLetter incoming
  else (deadLetter, .ok ())
termination_by deadLetter.entries.size
decreasing_by exact size_ack_lt _hvalues _hack

/-- `dead_letter_inbound`. -/
def deadLetterInbound (store : DurableMqttStore) (id : Nat) (reason : Str) :
    DurableMqttStore × Except QueueError Unit :=
  match store.inbox.entries[id]? with
  | none => (store, .ok ())
  | some inbound =>
    if isDeadLettered store.deadLetter inbound then
      match store.inbox.ack DurableInbound.text id with
      | .error e => (store, .error e)
      | .ok inbox => removeKey { store with inbox } inbound.key
    else
      let letter := { inbound, reason := truncateReason reason }
      if deadLetterBytes letter > DEAD_LETTER_MAX_BYTES then store.ackInbound id
      else
        match evict store.deadLetter (deadLetterBytes letter) with
        | (deadLetter, .error e) => ({ store with deadLetter }, .error e)
        | (deadLetter, .ok ()) =>
          match deadLetter.put DurableDeadLetter.text letter with
          | .error e => ({ store with deadLetter }, .error e)
          | .ok (deadLetter, _) => ackInbound { store with deadLetter } id

/-- `enqueue_publish`; `uuid` is the event id drawn when the publish has none. -/
def enqueuePublish (store : DurableMqttStore) (publish : DurablePublish) (uuid : Str) :
    DurableMqttStore × Except QueueError Nat :=
  match store.outbox.put DurablePublish.text
      { publish with eventId := some (publish.eventId.getD uuid) } with
  | .error e => (store, .error e)
  | .ok (outbox, id) => ({ store with outbox }, .ok id)

/-- `ack_publish`. -/
def ackPublish (store : DurableMqttStore) (id : Nat) : DurableMqttStore × Except QueueError Unit :=
  match store.outbox.ack DurablePublish.text id with
  | .error e => (store, .error e)
  | .ok outbox => ({ store with outbox }, .ok ())

end DurableMqttStore

end TeamClu.Mqtt
