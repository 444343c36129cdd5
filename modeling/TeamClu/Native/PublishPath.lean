import Mathlib.Data.List.Sort
import TeamClu.Native.DurableMqttStore

/-!
# The publish path of the MQTT worker

`accept_command`, `flush_pending`, `requeue_publish_attempts`, `ack_publish` and the poll arms for
`Outgoing::Publish`, `PubAck`, `PubComp`, `ConnAck` and errors of `MqttWorker` in
`apps/daemon/src/mqtt/supervisor.rs`, together with the client of `rumqttc`: its requests in the order
in which it accepted them, and the publishes that it has written and the broker has not
acknowledged.
-/

namespace TeamClu.Mqtt

/-- Most items in a durable queue. -/
def DURABLE_QUEUE_CAPACITY : Nat := 4096

/-- Most bytes in a durable queue. -/
def DURABLE_QUEUE_MAX_BYTES : Nat := 64 * 1024 * 1024

/-! ## The client -/

/-- A PUBLISH that the client has accepted. -/
structure PublishRequest where
  topic : Str
  payload : Bytes
  retain : Bool
  qos : StoredDelivery
  /-- Not in the code: the id of the outbox item that it was made from. -/
  source : Option Nat
  deriving DecidableEq

/-- What the client has accepted and not written, and what it has written and the broker has not
    acknowledged, by packet id. -/
structure MqttClient where
  requests : List PublishRequest := []
  unacked : List (Nat × PublishRequest) := []
  deriving DecidableEq

/-- The packet ids that the client may give to the next PUBLISH it writes: 0 exactly for QoS 0, else
    one that no unacknowledged publish has. -/
def MqttClient.mayUse (client : MqttClient) (request : PublishRequest) (pkid : Nat) : Bool :=
  decide (request.qos = .atMostOnce ↔ pkid = 0) && !(client.unacked.map (·.1)).contains pkid

/-! ## The worker -/

/-- A publish that waits for `flush_pending`. -/
structure PendingPublish where
  id : Nat
  publish : DurablePublish
  deriving DecidableEq

/-- The worker's variables on the publish path, its store and its client. -/
structure PublishWorker where
  store : DurableMqttStore
  client : MqttClient := {}
  connected : Bool := false
  generationReady : Bool := false
  pending : List PendingPublish
  publishWaitingForWrite : List Nat := []
  publishInflight : List (Nat × Nat) := []

/-- `DurableMqttStore::outbox_bytes`. -/
def DurableMqttStore.outboxBytes (store : DurableMqttStore) : Nat :=
  (store.outbox.values.map fun (_, item) => Str.utf8Len item.topic + item.payload.length).sum

/-- `load_pending_publishes`. -/
def loadPendingPublishes (store : DurableMqttStore) : List PendingPublish :=
  store.outbox.values.map fun (id, publish) => { id, publish }

/-- A worker that has just opened the store. -/
def PublishWorker.start (store : DurableMqttStore) : PublishWorker :=
  { store, pending := loadPendingPublishes store }

/-- `should_persist_publish`. -/
def shouldPersistPublish (delivery : StoredDelivery) : Bool := delivery ≠ .atMostOnce

/-- A publish command.  `eventId` is what `stable_message_id` reads out of the message and `uuid` the
    event id drawn when there is none; `accepts` tells whether the client has room. -/
structure PublishCommand where
  topic : Str
  payload : Bytes
  retain : Bool
  delivery : StoredDelivery
  eventId : Option Str := none
  uuid : Str := []
  accepts : Bool := true

/-- `PublisherError::Unavailable` with its text, the client's refusal or a failed write. -/
inductive PublisherError where
  | unavailable (message : Str)
  | clientQueueFull
  | couldNotPersist (e : QueueError)

namespace PublishWorker

/-- `accept_command` for a publish: the worker, and what the caller is told. -/
def acceptPublish (w : PublishWorker) (command : PublishCommand) :
    PublishWorker × Except PublisherError Unit :=
  if !shouldPersistPublish command.delivery then
    -- transient: straight to the client
    if w.connected then
      if command.accepts then
        let request : PublishRequest :=
          { topic := command.topic, payload := command.payload, retain := command.retain
            qos := command.delivery, source := none }
        ({ w with client := { w.client with requests := w.client.requests ++ [request] } }, .ok ())
      else (w, .error .clientQueueFull)
    else
      (w, .error (.unavailable
        "MQTT transport is offline; transient publish was dropped".toList))
  else if w.store.outbox.entries.size ≥ DURABLE_QUEUE_CAPACITY ∨
      w.store.outboxBytes + command.payload.length + Str.utf8Len command.topic >
        DURABLE_QUEUE_MAX_BYTES then
    (w, .error (.unavailable "MQTT durable outbox is full".toList))
  else
    let publish : DurablePublish :=
      { topic := command.topic, payload := command.payload, retain := command.retain
        delivery := command.delivery, eventId := command.eventId }
    match w.store.enqueuePublish publish command.uuid with
    | (store, .ok id) => ({ w with store, pending := w.pending ++ [{ id, publish }] }, .ok ())
    | (store, .error e) => ({ w with store }, .error (.couldNotPersist e))

/-- The loop of `flush_pending`, which hands over as many items as the client accepts. -/
def flushLoop : Nat → Nat → PublishWorker → PublishWorker
  | 0, _, w => w
  | turns + 1, accepts, w =>
    match w.pending, accepts with
    | [], _ => w
    | _ :: _, 0 => w
    | pending :: rest, accepts + 1 =>
      let request : PublishRequest :=
        { topic := pending.publish.topic, payload := pending.publish.payload
          retain := pending.publish.retain, qos := pending.publish.delivery
          source := some pending.id }
      flushLoop turns accepts
        { w with pending := rest
                 client := { w.client with requests := w.client.requests ++ [request] }
                 publishWaitingForWrite := w.publishWaitingForWrite ++ [pending.id] }

/-- `flush_pending`, at the head of the loop; the client accepts `accepts` more requests. -/
def flushPending (w : PublishWorker) (accepts : Nat) : PublishWorker :=
  if w.connected && w.generationReady then flushLoop 64 accepts w else w

/-- `requeue_publish_attempts`. -/
def requeuePublishAttempts (w : PublishWorker) : PublishWorker :=
  let ids := (w.publishWaitingForWrite ++ w.publishInflight.map (·.2)).insertionSort (· ≤ ·)
  { w with
    pending := (ids.filterMap fun id => w.store.outbox.entries[id]?.map fun publish =>
      { id, publish }) ++ w.pending
    publishWaitingForWrite := []
    publishInflight := [] }

/-- `ack_publish`: a failed acknowledgement leaves the item. -/
def ackPublish (w : PublishWorker) (id : Nat) : PublishWorker :=
  { w with store := (w.store.ackPublish id).1 }

/-- `Outgoing::Publish(pkid)`. -/
def outgoingPublish (w : PublishWorker) (pkid : Nat) : PublishWorker :=
  match w.publishWaitingForWrite with
  | [] => w
  | id :: rest =>
    if pkid = 0 then ackPublish { w with publishWaitingForWrite := rest } id
    else
      { w with publishWaitingForWrite := rest
               publishInflight := w.publishInflight.filter (·.1 ≠ pkid) ++ [(pkid, id)] }

/-- `PubAck` and `PubComp`. -/
def pubAck (w : PublishWorker) (pkid : Nat) : PublishWorker :=
  match w.publishInflight.find? (·.1 == pkid) with
  | none => w
  | some (_, id) =>
    ackPublish { w with publishInflight := w.publishInflight.filter (·.1 ≠ pkid) } id

/-- `ConnAck`. -/
def connAck (w : PublishWorker) : PublishWorker :=
  { w.requeuePublishAttempts with connected := true, generationReady := false }

/-- A poll error, with which the client drops what it has not written or not been acknowledged. -/
def pollError (w : PublishWorker) : PublishWorker :=
  { w.requeuePublishAttempts with client := {}, connected := false, generationReady := false }

end PublishWorker

end TeamClu.Mqtt
