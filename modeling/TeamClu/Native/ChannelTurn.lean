import TeamClu.ForStd.Machine
import TeamClu.Native.TurnAggregator

/-!
# The turn of a channel and of a scheduled job

`apps/daemon/src/runtime/turn_reply.rs` and the two loops that wait for the end of a turn: `run_turn` of
`channels/agent_handle.rs` with `append_to_active_turn`, which hands it another message of the chat, and
`drive_cron_turn` of `daemon/server/cron.rs`.

The loops take turns with the rest of the daemon: a supplement of the chat, the eviction that marks the aggregator
and the removal of the runtime come between two events.  The clock is an input: whether the wait is over, and whether
an update is due.
-/

namespace TeamClu.Runtime

/-! ## `turn_reply.rs` -/

/-- `is_agent_facing_status_notice`. -/
def isAgentFacingStatusNotice (content : Str) : Bool :=
  let trimmed := content.dropWhile Str.isWhiteSpace
  ('[' :: "Turn interrupted by user]".toList).isPrefixOf trimmed ||
    ('[' :: "Permission approval timed out]".toList).isPrefixOf trimmed ||
    ('[' :: "Runtime idle timeout]".toList).isPrefixOf trimmed ||
    ('[' :: "Turn completed with no final reply]".toList).isPrefixOf trimmed ||
    ('[' :: "Skill created in unsupported directory]".toList).isPrefixOf trimmed

/-- `compose_reply`. -/
def composeReply (segments : List Str) (live : Str) : Str :=
  List.intercalate "\n\n".toList (segments ++ if Str.trim live = [] then [] else [live])

/-- `absorb_emitted`: the segments, the live text, and whether a segment was flushed. -/
def absorbEmitted : List EmittedMessage → List Str → Str → List Str × Str × Bool
  | [], segments, live => (segments, live, false)
  | m :: emitted, segments, live =>
    if m.kind = .agentReply then
      let segments :=
        if m.content ≠ [] ∧ isAgentFacingStatusNotice m.content = false then segments ++ [m.content] else segments
      let (segments, live, _) := absorbEmitted emitted segments []
      (segments, live, true)
    else absorbEmitted emitted segments live

/-- `GatewayErrorAction`; `goOn` is `Continue`. -/
inductive GatewayErrorAction
  | goOn
  | returnReply (reply : Str)
  | fail (details : Str)

/-- `acp_error_details`. -/
def acpErrorDetails (err : AcpError) : Str := if err.details = [] then err.message else err.details

/-- `gateway_error_action`. -/
def gatewayErrorAction (err : AcpError) (segments : List Str) (live : Str) : GatewayErrorAction :=
  match classifyAcpError err with
  | .sideChannel => .goOn
  | .userAbort => .fail (acpErrorDetails err)
  | .turnFailure =>
    let acc := composeReply segments live
    if Str.trim acc = [] then .fail (acpErrorDetails err) else .returnReply acc

/-- `final_agent_reply_emitted`. -/
def finalAgentReplyEmitted (segments : List Str) (live : Str) (idleEmitted : List EmittedMessage) : EmittedMessage :=
  let info := (idleEmitted.reverse.find? cloudPersistent).orElse fun _ =>
    idleEmitted.reverse.find? fun m => m.kind = .agentReply
  { kind := .agentReply
    content := composeReply segments live
    metadata := (info.map (·.metadata)).getD .empty
    turnId := (info.map (·.turnId)).getD []
    cloudPersist := true
    attachments := (info.map (·.attachments)).getD []
    attachmentUrls := (info.map (·.attachmentUrls)).getD [] }

/-- `salvage_timeout_emitted`. -/
def salvageTimeoutEmitted (segments : List Str) (live : Str) : Except Str EmittedMessage :=
  let content := composeReply segments live
  if Str.trim content = [] then .error "ACP turn timed out".toList
  else .ok { kind := .agentReply, content, metadata := .turnStatus .interrupted, turnId := [], cloudPersist := true }

/-! ## What both loops keep -/

/-- The variables `segments` and `live`, and the aggregator of the runtime, while the manager has one. -/
structure Collector where
  aggregator : Option TurnAggregator
  segments : List Str := []
  live : Str := []
  /-- Not in the code: the events so far, each with whether there was an aggregator to take it. -/
  absorbed : List (Bool × AcpEvent) := []

namespace Collector

/-- The live text mirrors the reply that the aggregator has not flushed. -/
def pushOutput (live : Str) : AcpEvent → Str
  | .output text => live ++ text
  | _ => live

/-- An event goes to the live text, to the aggregator, and what that emits to the segments.  Both loops have these
    lines. -/
def absorb (uuid : Nat → Str) (parseJson : Str → Option ParsedSessionAttach) (c : Collector) (event : AcpEvent) :
    Collector × List EmittedMessage × Bool :=
  let live := pushOutput c.live event
  let (aggregator, emitted) := match c.aggregator with
    | none => (none, [])
    | some agg =>
      let (agg, emitted) := agg.ingest uuid parseJson event
      (some agg, emitted)
  let (segments, live, flushed) := absorbEmitted emitted c.segments live
  ({ aggregator, segments, live, absorbed := c.absorbed ++ [(c.aggregator.isSome, event)] }, emitted, flushed)

/-- An eviction marks the aggregator. -/
def mark (uuid : Nat → Str) (c : Collector) (approvalPending : Bool) : Collector :=
  { c with aggregator := c.aggregator.map fun agg => agg.markIdleTimeoutDetach uuid approvalPending }

/-- What the channel or the job would be told now. -/
def text (c : Collector) : Str := composeReply c.segments c.live

end Collector

/-! ## `run_turn` -/

/-- `AgentError`, of a turn that was sent. -/
inductive AgentError
  | timeout
  | send (message : Str)

/-- The settlement that ended a turn, which the code does not keep: its stamp, and the supplements by then. -/
structure Settlement where
  stamp : Option Str
  accepted : List Str

/-- The loop of `run_turn`, its `ActiveGatewayTurn`, and the updates that it sent. -/
structure GatewayTurn where
  collector : Collector
  sentUpdate : Str := []
  updates : List Str := []
  expected : Option Str := none
  latestFrame : Option Str := none
  superseded : List (Option Str) := []
  closed : Bool := false
  result : Option (Except AgentError Str) := none
  /-- Not in the code: the supplements that were accepted, by their stamps. -/
  accepted : List Str := []
  settled : Option Settlement := none

/-- What can happen next. -/
inductive TurnInput
  /-- The loop receives an event with its stamp; `due` says that the time since the last update is over, and `room`
      that there is a caller who takes an update. -/
  | frame (event : AcpEvent) (replyTo : Option Str) (due room : Bool)
  /-- The runtime has closed the channel of events. -/
  | channelClosed
  /-- The wait is over. -/
  | elapsed
  /-- After the loop `closed` is set. -/
  | close
  /-- `append_to_active_turn`; `replyTo` is the id of the message, or a new one where it has none, `found` says that
      the session has an agent, and `sent` that the prompt was sent. -/
  | append (replyTo : Str) (found sent : Bool)
  | markIdleTimeoutDetach (approvalPending : Bool)
  /-- The manager drops the aggregator of the runtime. -/
  | removed

/-- `salvage_timeout_reply`. -/
def salvageTimeoutReply (segments : List Str) (live : Str) : Except AgentError Str :=
  let acc := composeReply segments live
  if Str.trim acc = [] then .error .timeout else .ok acc

namespace GatewayTurn

/-- The end of one round of the loop: a progress update. -/
def update (t : GatewayTurn) (due room : Bool) : GatewayTurn :=
  let text := t.collector.text
  if due = true ∧ Str.trim text ≠ [] ∧ text ≠ t.sentUpdate ∧ room = true then
    { t with sentUpdate := text, updates := t.updates ++ [text] }
  else t

/-- The rest of a round, once the event is not an error that ends or skips it. -/
def absorb (uuid : Nat → Str) (parseJson : Str → Option ParsedSessionAttach) (t : GatewayTurn) (event : AcpEvent)
    (replyTo : Option Str) (currentCompletion due room : Bool) : GatewayTurn :=
  let (collector, _, flushed) := t.collector.absorb uuid parseJson event
  let t := { t with collector }
  if event = .statusChange .active .idle ∧ currentCompletion = true then
    -- the lock of the supplements is held until here, so that none comes in between
    { t with
      closed := true
      result := some (.ok collector.text)
      settled := some { stamp := replyTo, accepted := t.accepted } }
  else t.update (flushed || due) room

/-- One round of the loop with an event. -/
def receive (uuid : Nat → Str) (parseJson : Str → Option ParsedSessionAttach) (t : GatewayTurn) (event : AcpEvent)
    (replyTo : Option Str) (due room : Bool) : GatewayTurn :=
  let currentCompletion := decide (replyTo ∉ t.superseded)
  let t := if currentCompletion then { t with latestFrame := replyTo } else t
  match event with
  | .error err =>
    if currentCompletion = false then t
    else
      match gatewayErrorAction err t.collector.segments t.collector.live with
      | .goOn => t.absorb uuid parseJson event replyTo currentCompletion due room
      | .returnReply reply => { t with result := some (.ok reply) }
      | .fail details => { t with result := some (.error (.send ("agent turn failed: ".toList ++ details))) }
  | _ => t.absorb uuid parseJson event replyTo currentCompletion due room

/-- The channel of events is closed. -/
def detach (t : GatewayTurn) : GatewayTurn :=
  match salvageTimeoutReply t.collector.segments t.collector.live with
  | .ok reply => { t with result := some (.ok reply) }
  | .error _ => { t with result := some (.error (.send "agent event channel closed before reply".toList)) }

/-- `append_to_active_turn`. -/
def append (t : GatewayTurn) (replyTo : Str) (found sent : Bool) : GatewayTurn :=
  if t.closed = true ∨ found = false ∨ sent = false then t
  else { t with
    superseded := t.expected :: t.latestFrame :: t.superseded
    expected := some replyTo
    accepted := t.accepted ++ [replyTo] }

/-- One step. -/
def step (uuid : Nat → Str) (parseJson : Str → Option ParsedSessionAttach) (t : GatewayTurn) :
    TurnInput → GatewayTurn
  | .frame event replyTo due room =>
    if t.result.isSome then t else t.receive uuid parseJson event replyTo due room
  | .channelClosed => if t.result.isSome then t else t.detach
  | .elapsed =>
    if t.result.isSome then t
    else { t with result := some (salvageTimeoutReply t.collector.segments t.collector.live) }
  | .close => if t.result.isSome then { t with closed := true } else t
  | .append replyTo found sent => t.append replyTo found sent
  | .markIdleTimeoutDetach approvalPending => { t with collector := t.collector.mark uuid approvalPending }
  | .removed => { t with collector := { t.collector with aggregator := none } }

end GatewayTurn

/-- The runs of a turn of a channel, from an aggregator. -/
def gatewayTurn (uuid : Nat → Str) (parseJson : Str → Option ParsedSessionAttach) (agg : TurnAggregator) :
    Machine GatewayTurn TurnInput where
  init := { collector := { aggregator := some agg } }
  step := GatewayTurn.step uuid parseJson

/-! ## `drive_cron_turn` -/

/-- `CronTurnOutcome`, without its trace. -/
structure CronTurnOutcome where
  reply : EmittedMessage
  timedOut : Bool

/-- The loop of `drive_cron_turn`. -/
structure CronTurn where
  collector : Collector
  result : Option (Except Str CronTurnOutcome) := none

/-- What can happen next. -/
inductive CronInput
  | frame (event : AcpEvent)
  | channelClosed
  | elapsed
  | markIdleTimeoutDetach (approvalPending : Bool)
  | removed

namespace CronTurn

/-- The turn ends with what was said so far, if it was anything. -/
def salvage (t : CronTurn) (timedOut : Bool) : Except Str CronTurnOutcome :=
  (salvageTimeoutEmitted t.collector.segments t.collector.live).map fun reply => { reply, timedOut }

/-- The rest of a round, once the event is not an error that ends it. -/
def absorb (uuid : Nat → Str) (parseJson : Str → Option ParsedSessionAttach) (t : CronTurn) (event : AcpEvent) :
    CronTurn :=
  let (collector, emitted, _) := t.collector.absorb uuid parseJson event
  if event = .statusChange .active .idle then
    { collector
      result := some (.ok
        { reply := finalAgentReplyEmitted collector.segments collector.live emitted, timedOut := false }) }
  else { t with collector }

/-- One round of the loop with an event. -/
def receive (uuid : Nat → Str) (parseJson : Str → Option ParsedSessionAttach) (t : CronTurn) (event : AcpEvent) :
    CronTurn :=
  match event with
  | .error err =>
    match gatewayErrorAction err t.collector.segments t.collector.live with
    | .goOn => t.absorb uuid parseJson event
    | .returnReply _ => { t with result := some (t.salvage false) }
    | .fail details => { t with result := some (.error ("agent turn failed: ".toList ++ details)) }
  | _ => t.absorb uuid parseJson event

/-- The channel of events is closed. -/
def detach (t : CronTurn) : CronTurn :=
  match t.salvage false with
  | .ok outcome => { t with result := some (.ok outcome) }
  | .error _ => { t with result := some (.error "ACP event channel closed before reply".toList) }

/-- One step. -/
def step (uuid : Nat → Str) (parseJson : Str → Option ParsedSessionAttach) (t : CronTurn) : CronInput → CronTurn
  | .frame event => if t.result.isSome then t else t.receive uuid parseJson event
  | .channelClosed => if t.result.isSome then t else t.detach
  | .elapsed => if t.result.isSome then t else { t with result := some (t.salvage true) }
  | .markIdleTimeoutDetach approvalPending => { t with collector := t.collector.mark uuid approvalPending }
  | .removed => { t with collector := { t.collector with aggregator := none } }

end CronTurn

/-- The runs of a turn of a scheduled job, from an aggregator. -/
def cronTurn (uuid : Nat → Str) (parseJson : Str → Option ParsedSessionAttach) (agg : TurnAggregator) :
    Machine CronTurn CronInput where
  init := { collector := { aggregator := some agg } }
  step := CronTurn.step uuid parseJson

end TeamClu.Runtime
