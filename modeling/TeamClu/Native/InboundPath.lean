import TeamClu.Native.PublishPath

/-!
# The inbound path of the MQTT worker

What `MqttWorker` in `apps/daemon/src/mqtt/supervisor.rs` does with a message from the broker once it is a publish:
the durable inbox, the staging queue, the channel to the daemon and the retries, with
`handle_inbound_disposition`, `flush_due_inbound_retries`, `flush_inbound` and `load_pending_inbound`.  Then what
`run_supervisor` does with a disposition on its way back, and the outcome of the daemon's executor that it is made
from.  Instants and delays are milliseconds.

Left out: a publish whose topic is none of ours, which is ignored, the texts of the log, and a channel whose
receiver is gone, since the daemon keeps it for its whole life.
-/

namespace TeamClu.Mqtt

/-- `MqttInbound`. -/
structure MqttInbound where
  id : Nat
  frame : IncomingFrame
  deriving DecidableEq

/-- `MqttInboundDisposition`. -/
inductive MqttInboundDisposition
  | ack
  | retry
  | deadLetter (reason : Str)
  deriving DecidableEq

/-- Most messages in the channel to the daemon, and most dispositions in the channel from it. -/
def INBOUND_CAPACITY : Nat := 2048

/-- From this many staged messages on, a retry is put off. -/
def INBOUND_STAGING_CAPACITY : Nat := 4096

/-- Most dispositions that wait for the worker, in the supervisor and again in the channel between them. -/
def WORKER_DISPOSITION_CAPACITY : Nat := 2048

/-- The longest delay of a retry. -/
def INBOUND_RETRY_MAX : Nat := 30000

/-- `u32::MAX`, where the attempts stop counting. -/
def U32_MAX : Nat := 2 ^ 32 - 1

/-- `inbound_retry_delay`. -/
def inboundRetryDelay (attempt : Nat) : Nat := min (1000 * 2 ^ min (attempt - 1) 5) INBOUND_RETRY_MAX

/-- `DurableMqttStore::inbox_bytes`. -/
def DurableMqttStore.inboxBytes (store : DurableMqttStore) : Nat :=
  (store.inbox.values.map fun (_, item) => Str.utf8Len item.topic + item.payload.length).sum

/-- `durable_inbox_blocked`. -/
def durableInboxBlocked (store : DurableMqttStore) : Bool :=
  store.inbox.entries.size ≥ DURABLE_QUEUE_CAPACITY || store.inboxBytes ≥ DURABLE_QUEUE_MAX_BYTES

/-- The frame of a stored message. -/
def DurableInbound.toFrame (item : DurableInbound) : IncomingFrame :=
  { topic := item.topic, payload := item.payload, retained := item.retained }

/-- `load_pending_inbound`. -/
def loadPendingInbound (store : DurableMqttStore) : List MqttInbound :=
  store.inbox.values.map fun (id, item) => { id, frame := item.toFrame }

/-! ## The worker -/

/-- The worker's variables on the inbound path, its store and its channel of dispositions. -/
structure InboundWorker where
  store : DurableMqttStore
  inboundStaging : List MqttInbound
  inboundRetryAttempts : Std.ExtTreeMap Nat Nat := ∅
  inboundRetryDeadlines : Std.ExtTreeMap Nat Nat := ∅
  dispositionRx : List (Nat × MqttInboundDisposition) := []
  /-- Whether a failed append has asked for a fresh worker. -/
  forcedRebuild : Bool := false

namespace InboundWorker

/-- A worker that has just opened the store. -/
def start (store : DurableMqttStore) : InboundWorker := { store, inboundStaging := loadPendingInbound store }

/-- A publish of the broker with the message id that was read out of it, and whether it is acknowledged to the
    broker. -/
def incomingPublish (w : InboundWorker) (frame : IncomingFrame) (messageId : Option Str) : InboundWorker × Bool :=
  if durableInboxBlocked w.store ||
      w.store.inboxBytes + Str.utf8Len frame.topic + frame.payload.length > DURABLE_QUEUE_MAX_BYTES then
    (w, false)
  else
    match w.store.enqueueInbound frame messageId with
    | (store, .ok (some id)) =>
      ({ w with store, inboundStaging := w.inboundStaging ++ [{ id, frame }] }, true)
    | (store, .ok none) => ({ w with store }, true)
    | (store, .error _) => ({ w with store, forcedRebuild := true }, false)

/-- `handle_inbound_disposition`; an error is the reason for which the worker exits. -/
def handleInboundDisposition (w : InboundWorker) (id : Nat) (disposition : MqttInboundDisposition) (now : Nat) :
    InboundWorker × Except Str Unit :=
  match disposition with
  | .ack =>
    let w := { w with
      inboundRetryAttempts := w.inboundRetryAttempts.erase id
      inboundRetryDeadlines := w.inboundRetryDeadlines.erase id }
    match w.store.ackInbound id with
    | (store, .error _) => ({ w with store }, .error "durable_store:inbox_ack_failed".toList)
    | (store, .ok ()) => ({ w with store }, .ok ())
  | .retry =>
    let attempt := min (w.inboundRetryAttempts[id]?.getD 0 + 1) U32_MAX
    let deadline := now + min (inboundRetryDelay attempt) INBOUND_RETRY_MAX
    ({ w with
        inboundRetryAttempts := w.inboundRetryAttempts.insert id attempt
        inboundRetryDeadlines := w.inboundRetryDeadlines.insertIfNew id deadline }, .ok ())
  | .deadLetter reason =>
    let w := { w with
      inboundRetryAttempts := w.inboundRetryAttempts.erase id
      inboundRetryDeadlines := w.inboundRetryDeadlines.erase id }
    match w.store.deadLetterInbound id reason with
    | (store, .error _) => ({ w with store }, .error "durable_store:dead_letter_failed".toList)
    | (store, .ok ()) => ({ w with store }, .ok ())

/-- The ids whose deadline has passed. -/
def dueIds (w : InboundWorker) (now : Nat) : List Nat :=
  (w.inboundRetryDeadlines.toList.filter fun (_, deadline) => deadline ≤ now).map (·.1)

/-- One turn of the loop of `flush_due_inbound_retries`. -/
def flushDue (now : Nat) (w : InboundWorker) (id : Nat) : InboundWorker :=
  let w := { w with inboundRetryDeadlines := w.inboundRetryDeadlines.erase id }
  match w.store.inbox.entries[id]? with
  | none => w
  | some item =>
    if w.inboundStaging.length ≥ INBOUND_STAGING_CAPACITY then
      { w with inboundRetryDeadlines := w.inboundRetryDeadlines.insert id (now + INBOUND_RETRY_MAX) }
    else { w with inboundStaging := w.inboundStaging ++ [{ id, frame := item.toFrame }] }

/-- `flush_due_inbound_retries`, which meets the ids that are due in the order `due`. -/
def flushDueInboundRetries (w : InboundWorker) (due : List Nat) (now : Nat) : InboundWorker :=
  due.foldl (flushDue now) w

end InboundWorker

/-- `flush_inbound`: the staged messages that are left, and the channel to the daemon. -/
def flushInbound (staging channel : List MqttInbound) : List MqttInbound × List MqttInbound :=
  match staging with
  | [] => ([], channel)
  | frame :: rest =>
    if channel.length < INBOUND_CAPACITY then flushInbound rest (channel ++ [frame]) else (frame :: rest, channel)

/-! ## The way back -/

/-- `HandlerOutcome`. -/
inductive HandlerOutcome
  | success
  | retryable (reason : Str)
  | permanent (reason : Str)

/-- The disposition that `execute_mqtt` sends for an outcome. -/
def HandlerOutcome.disposition : HandlerOutcome → MqttInboundDisposition
  | .success => .ack
  | .retryable _ => .retry
  | .permanent reason => .deadLetter reason

/-- What `run_supervisor` hands to the worker's channel: what is left to hand over, and the channel. -/
def flushDispositions (pending channel : List (Nat × MqttInboundDisposition)) :
    List (Nat × MqttInboundDisposition) × List (Nat × MqttInboundDisposition) :=
  match pending with
  | [] => ([], channel)
  | disposition :: rest =>
    if channel.length < WORKER_DISPOSITION_CAPACITY then flushDispositions rest (channel ++ [disposition])
    else (disposition :: rest, channel)

end TeamClu.Mqtt
