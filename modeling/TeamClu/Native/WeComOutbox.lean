import Mathlib.Order.Nat
import TeamClu.ForStd.Machine
import TeamClu.ForStd.Text

/-!
# The outbox of proactive WeCom messages

`crates/teamclu-gateway/src/wecom_outbox.rs`, the classification of acks in `wecom_delivery.rs`, and in `wecom.rs`
the functions that send a proactive message: `send_chat_message`, `send_chat_message_attempt`,
`send_json_acked_retry` and `flush_outbox`.

Any number of calls and of flushes run at the same time, since every subscribe spawns a flush of its own.  An attempt
awaits its acks, so that it is two inputs, with others in between.  The map of waiters for acks is left out: the
answer to a frame, or that there is none in time, is an input.
-/

namespace TeamClu.WeCom

/-! ## `wecom_delivery.rs` -/

/-- `SendError`. -/
inductive SendError
  | conflict
  | rateLimited (retryAfterMs : Option Nat)
  | rejected (reason : Str)
  | transport (reason : Str)
  | timeout
  deriving DecidableEq

/-- `CONFLICT_BACKOFF_MS`. -/
def CONFLICT_BACKOFF_MS : List Nat := [100, 300, 1000]

/-- `RATE_LIMIT_RETRY_MS`. -/
def RATE_LIMIT_RETRY_MS : Nat := 2000

/-- `is_rate_limited`. -/
def isRateLimited (code : Int) (errmsg : Str) : Bool :=
  code == 45009 || code == 45011 || code == 45033 || Str.contains errmsg "freq".toList ||
    Str.contains errmsg "limit".toList || Str.contains errmsg "busy".toList || Str.contains errmsg "频".toList

/-- `classify_errcode`. -/
def classifyErrcode (code : Int) (errmsg : Str) : Except SendError Unit :=
  if code = 0 then .ok ()
  else if code = 6000 then .error .conflict
  else if isRateLimited code errmsg then .error (.rateLimited none)
  else .error (.rejected ("errcode=".toList ++ (toString code).toList ++ ' ' :: errmsg))

/-- `should_requeue`. -/
def shouldRequeue (retryCount maxRetries : Nat) (err : SendError) : Bool :=
  if retryCount + 1 ≥ maxRetries then false
  else
    match err with
    | .transport _ | .timeout | .conflict => true
    | .rateLimited _ | .rejected _ => false

/-! ## Sending -/

/-- What comes of one frame: the code and the text of its ack, or no ack. -/
inductive Answer
  | response (code : Int) (errmsg : Str)
  | sendFailed (error : Str)
  | channelClosed
  | elapsed

/-- `send_json_acked`: one frame, and what its answer means. -/
def sendJsonAcked : Answer → Except SendError Unit
  | .response code errmsg => classifyErrcode code errmsg
  | .sendFailed error => .error (.transport ("Failed to send WS request: ".toList ++ error))
  | .channelClosed => .error (.transport "WS response channel closed".toList)
  | .elapsed => .error .timeout

/-- What is left of an attempt: its result, the frames that it sent, and how long it slept between them. -/
structure Sent where
  result : Except SendError Unit
  frames : Nat
  sleptMs : Nat := 0

/-- The loop that sends a frame again after a conflict; `n` frames were sent, `answers` has what comes of each. -/
def resend (answers : Nat → Answer) : List Nat → Nat → Nat → Sent
  | [], n, slept => { result := .error .conflict, frames := n, sleptMs := slept }
  | backoff :: rest, n, slept =>
    match sendJsonAcked (answers n) with
    | .error .conflict => resend answers rest (n + 1) (slept + backoff)
    | result => { result, frames := n + 1, sleptMs := slept + backoff }

/-- `send_json_acked_retry`. -/
def sendJsonAckedRetry (answers : Nat → Answer) : Sent :=
  match sendJsonAcked (answers 0) with
  | .ok () => { result := .ok (), frames := 1 }
  | .error .conflict => resend answers CONFLICT_BACKOFF_MS 1 0
  | .error (.rateLimited retryAfterMs) =>
    { result := sendJsonAcked (answers 1), frames := 2, sleptMs := retryAfterMs.getD RATE_LIMIT_RETRY_MS }
  | .error .timeout => { result := sendJsonAcked (answers 1), frames := 2 }
  | .error e => { result := .error e, frames := 1 }

/-- `send_chat_message_attempt`; without a socket there is nothing to send on. -/
def sendChatMessageAttempt (socket : Bool) (answers : Nat → Answer) : Sent :=
  if socket then sendJsonAckedRetry answers
  else
    { result := .error (.transport
        "WeCom gateway is not connected. Cannot send proactive message.".toList), frames := 0 }

/-- `PendingSend`. -/
structure PendingSend where
  chatid : Str
  chatType : Nat
  text : Str
  retryCount : Nat
  /-- Not in the code: which call of `send_chat_message` it comes from. -/
  call : Nat
  deriving DecidableEq

/-! ## The gateway -/

/-- A `flush_outbox` under way: the items it has yet to send, the one it is sending first, and its limit. -/
structure Flush where
  items : List PendingSend
  maxRetries : Nat

/-- An attempt that has ended, which the code does not keep; the limit is that of its flush. -/
structure Attempt where
  call : Nat
  maxRetries : Option Nat
  sent : Sent

/-- The outbox, and the calls and flushes under way.  The other fields are not in the code: what was asked for, and
    what became of it, by the number of the call. -/
structure Gateway where
  outbox : List PendingSend := []
  sending : List PendingSend := []
  flushes : List Flush := []
  asked : List PendingSend := []
  /-- The open bubble of the chat shows the text. -/
  shown : List Nat := []
  delivered : List Nat := []
  /-- The caller was told of an error. -/
  refused : List Nat := []
  /-- A flush has given the message up. -/
  dropped : List Nat := []
  attempts : List Attempt := []

/-- What can happen next. -/
inductive GatewayEvent
  /-- `send_chat_message` is called; `bubble` tells whether `piggyback_notice` finds an open bubble. -/
  | send (chatid : Str) (chatType : Nat) (text : Str) (bubble : Bool)
  /-- The attempt of a call ends. -/
  | sendEnds (index : Nat) (socket : Bool) (answers : Nat → Answer)
  /-- `flush_outbox` starts, under this setting. -/
  | flush (finalMaxRetries : Nat)
  /-- The attempt of a flush ends. -/
  | flushEnds (index : Nat) (socket : Bool) (answers : Nat → Answer)

namespace Gateway

/-- The start of `send_chat_message`. -/
def send (g : Gateway) (chatid : Str) (chatType : Nat) (text : Str) (bubble : Bool) : Gateway :=
  let item : PendingSend := { chatid, chatType, text, retryCount := 0, call := g.asked.length }
  if Str.trim text ≠ [] ∧ bubble then
    { g with asked := g.asked ++ [item], shown := g.shown ++ [item.call] }
  else { g with asked := g.asked ++ [item], sending := g.sending ++ [item] }

/-- The end of `send_chat_message`, once the attempt has ended. -/
def sendEnds (g : Gateway) (index : Nat) (sent : Sent) : Gateway :=
  match g.sending[index]? with
  | none => g
  | some item =>
    let g : Gateway := { g with
      sending := g.sending.eraseIdx index
      attempts := g.attempts ++ [{ call := item.call, maxRetries := none, sent }] }
    match sent.result with
    | .ok () => { g with delivered := g.delivered ++ [item.call] }
    | .error (.transport _) | .error .timeout | .error .conflict => { g with outbox := g.outbox ++ [item] }
    | .error _ => { g with refused := g.refused ++ [item.call] }

/-- The start of `flush_outbox`, which takes all that is in the outbox. -/
def flush (g : Gateway) (finalMaxRetries : Nat) : Gateway :=
  if g.outbox = [] then g
  else { g with outbox := [], flushes := g.flushes ++ [{ items := g.outbox, maxRetries := max finalMaxRetries 1 }] }

/-- One turn of the loop of `flush_outbox`, once its attempt has ended. -/
def flushEnds (g : Gateway) (index : Nat) (sent : Sent) : Gateway :=
  match g.flushes[index]? with
  | none => g
  | some f =>
    match f.items with
    | [] => g
    | item :: items =>
      let g : Gateway := { g with
        flushes := g.flushes.set index { f with items }
        attempts := g.attempts ++ [{ call := item.call, maxRetries := some f.maxRetries, sent }] }
      match sent.result with
      | .ok () => { g with delivered := g.delivered ++ [item.call] }
      | .error e =>
        if shouldRequeue item.retryCount f.maxRetries e then
          { g with outbox := g.outbox ++ [{ item with retryCount := item.retryCount + 1 }] }
        else { g with dropped := g.dropped ++ [item.call] }

/-- One step. -/
def step (g : Gateway) : GatewayEvent → Gateway
  | .send chatid chatType text bubble => g.send chatid chatType text bubble
  | .sendEnds index socket answers => g.sendEnds index (sendChatMessageAttempt socket answers)
  | .flush finalMaxRetries => g.flush finalMaxRetries
  | .flushEnds index socket answers => g.flushEnds index (sendChatMessageAttempt socket answers)

end Gateway

/-- The runs of the gateway. -/
def gateway : Machine Gateway GatewayEvent where
  init := {}
  step := Gateway.step

end TeamClu.WeCom
