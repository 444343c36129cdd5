import TeamClu.Native.AcpEvents

/-!
# The turn aggregator

`TurnAggregator` of `apps/daemon/src/runtime/turn_aggregator.rs`: it turns the event stream of one
runtime into logical messages.

The ids of turns come from a supply `uuid`, of which the aggregator counts how many it took.  Reading
the JSON that `session_attach_file` answers is a parameter.  The JSON text of a message's metadata is
the value it renders.  `turn_had_reply`, which nothing reads, is left out.
-/

namespace TeamClu.Runtime

/-! ## Messages -/

/-- `MessageKind`, of the messages that an agent sends. -/
inductive MessageKind where
  | agentThinking
  | agentToolCall
  | agentToolResult
  | agentReply
  deriving DecidableEq

/-- `turn_status` in the metadata of a special turn ending. -/
inductive TurnStatus where
  | interrupted
  | approvalTimeout
  | idleTimeout
  | failed
  | noFinalReply
  deriving DecidableEq

/-- What `metadata_json` renders. -/
inductive Metadata where
  | empty
  | toolUse (toolUse : AcpToolUse)
  | toolResult (toolResult : AcpToolResult)
  | turnStatus (status : TurnStatus)
  deriving DecidableEq

/-- `AttachmentRecord`, whose local path is unset here. -/
structure AttachmentRecord where
  filename : Str
  mime : Str
  size : Nat
  bucketPath : Str
  deriving DecidableEq

/-- `ParsedSessionAttach`. -/
structure ParsedSessionAttach where
  record : AttachmentRecord
  publicUrl : Str
  deriving DecidableEq

/-- `EmittedMessage`. -/
structure EmittedMessage where
  kind : MessageKind
  content : Str
  metadata : Metadata := .empty
  turnId : Str
  cloudPersist : Bool := false
  attachments : List AttachmentRecord := []
  attachmentUrls : List Str := []
  deriving DecidableEq

/-- `cloud_persistent`. -/
def cloudPersistent (msg : EmittedMessage) : Bool :=
  msg.kind == .agentReply && msg.cloudPersist &&
    (Str.trim msg.content != [] || msg.attachments != [])

/-- `INTERRUPTED_AGENT_REPLY_CONTENT`. -/
def INTERRUPTED_AGENT_REPLY_CONTENT : Str :=
  '[' ::
    ("Turn interrupted by user] The user stopped this turn before it finished. Do not continue, ".toList ++
      "resume, or retry the interrupted work unless the user explicitly asks again.".toList)

/-- `APPROVAL_TIMEOUT_AGENT_REPLY_CONTENT`. -/
def APPROVAL_TIMEOUT_AGENT_REPLY_CONTENT : Str :=
  '[' ::
    ("Permission approval timed out] The runtime was detached after waiting too long for ".toList ++
      "permission approval. Do not continue the blocked tool action unless the user explicitly ".toList ++
      "asks again.".toList)

/-- `IDLE_TIMEOUT_AGENT_REPLY_CONTENT`. -/
def IDLE_TIMEOUT_AGENT_REPLY_CONTENT : Str :=
  '[' ::
    ("Runtime idle timeout] The runtime was detached after prolonged inactivity. Do not resume ".toList ++
      "the interrupted work unless the user explicitly asks again.".toList)

/-- `NO_FINAL_REPLY_AGENT_CONTENT`. -/
def NO_FINAL_REPLY_AGENT_CONTENT : Str :=
  '[' ::
    ("Turn completed with no final reply] The agent finished this turn without producing a ".toList ++
      "final written answer. Treat the turn as successfully completed. Do not invent a summary, ".toList ++
      "continue earlier narration, or re-run work unless the user explicitly asks.".toList)

/-- `FAILED_AGENT_REPLY_CONTENT`. -/
def FAILED_AGENT_REPLY_CONTENT : Str :=
  '[' ::
    ("Turn failed] The model provider returned an error before this turn produced an answer. ".toList ++
      "The work was not completed. Do not treat it as done and do not invent a summary; if it ".toList ++
      "still matters, the user can retry or switch models.".toList)

/-- The notice of a special turn ending. -/
def noticeOf : TurnStatus → Str
  | .interrupted => INTERRUPTED_AGENT_REPLY_CONTENT
  | .approvalTimeout => APPROVAL_TIMEOUT_AGENT_REPLY_CONTENT
  | .idleTimeout => IDLE_TIMEOUT_AGENT_REPLY_CONTENT
  | .failed => FAILED_AGENT_REPLY_CONTENT
  | .noFinalReply => NO_FINAL_REPLY_AGENT_CONTENT

/-! ## Errors and attachments -/

/-- How an ACP `Error` event should affect the open turn. -/
inductive AcpErrorKind where
  | userAbort
  | sideChannel
  | turnFailure
  deriving DecidableEq

/-- `is_turn_abort_error`. -/
def isTurnAbortError (err : AcpError) : Bool :=
  let message := toAsciiLowercase err.message
  let details := toAsciiLowercase err.details
  Str.contains message "messageaborted".toList || Str.contains details "messageaborted".toList ||
    Str.contains message "turninterrupted".toList || Str.contains details "turninterrupted".toList ||
    isAbortLikeDetail err.details || isAbortLikeDetail err.message

/-- `classify_acp_error`. -/
def classifyAcpError (err : AcpError) : AcpErrorKind :=
  if isTurnAbortError err then .userAbort
  else if err.message == EXTENSION_ERROR_MESSAGE then .sideChannel
  else .turnFailure

def SESSION_ATTACH_TOOL : Str := "session_attach_file".toList

/-- `parse_session_attach_tool_result`: the summary, the raw output and the text blocks are tried in
    turn; `parseJson` is `parse_session_attach_json`. -/
def parseSessionAttachToolResult (parseJson : Str → Option ParsedSessionAttach) (toolName : Str)
    (tr : AcpToolResult) : Option ParsedSessionAttach :=
  if toolName ≠ SESSION_ATTACH_TOOL ∨ !tr.success then none
  else
    (parseJson tr.summary).orElse fun _ =>
      (if tr.rawOutputJson ≠ [] then parseJson tr.rawOutputJson else none).orElse fun _ =>
        tr.content.findSome? fun block =>
          match block with
          | .text text => parseJson text
          | _ => none

/-! ## The aggregator -/

/-- `TurnAggregator`. -/
structure TurnAggregator where
  thinkingBuf : Str := []
  replyBuf : Str := []
  /-- `some` id while inside a turn. -/
  currentTurnId : Option Str := none
  turnHadActivity : Bool := false
  turnWasInterrupted : Bool := false
  turnFailed : Bool := false
  turnSawAbortToolResult : Bool := false
  turnDetachIdleTimeout : Bool := false
  turnDetachApprovalTimeout : Bool := false
  /-- The names of the tool calls, the latest first. -/
  toolNames : List (Str × Str) := []
  turnAttachments : List AttachmentRecord := []
  turnAttachmentUrls : List Str := []
  /-- How many ids were taken. -/
  uuids : Nat := 0
  deriving DecidableEq

namespace TurnAggregator

/-- `ensure_turn_started`: lazy turn open. -/
def ensureTurnStarted (uuid : Nat → Str) (s : TurnAggregator) : TurnAggregator :=
  match s.currentTurnId with
  | some _ => s
  | none => { s with currentTurnId := some (uuid s.uuids), uuids := s.uuids + 1 }

/-- `ensure_turn_started`, for an event that counts as activity. -/
def markActivity (uuid : Nat → Str) (s : TurnAggregator) : TurnAggregator :=
  { s.ensureTurnStarted uuid with turnHadActivity := true }

/-- The id that messages carry. -/
def turnId (s : TurnAggregator) : Str := s.currentTurnId.getD []

/-- `flush_thinking_into`. -/
def flushThinking (s : TurnAggregator) : TurnAggregator × List EmittedMessage :=
  if s.thinkingBuf = [] then (s, [])
  else ({ s with thinkingBuf := [] },
    [{ kind := .agentThinking, content := s.thinkingBuf, turnId := s.turnId }])

/-- `emit_agent_reply`. -/
def emitAgentReply (s : TurnAggregator) (content : Str) (metadata : Metadata) (cloudPersist : Bool) :
    TurnAggregator × List EmittedMessage :=
  ({ s with turnAttachments := [], turnAttachmentUrls := [] },
    [{ kind := .agentReply, content, metadata, turnId := s.turnId, cloudPersist
       attachments := s.turnAttachments, attachmentUrls := s.turnAttachmentUrls }])

/-- `flush_reply_into`. -/
def flushReply (s : TurnAggregator) (cloudPersist : Bool) : TurnAggregator × List EmittedMessage :=
  if s.replyBuf = [] then (s, [])
  else if cloudPersist then { s with replyBuf := [] }.emitAgentReply s.replyBuf .empty true
  else ({ s with replyBuf := [] },
    [{ kind := .agentReply, content := s.replyBuf, turnId := s.turnId }])

/-- Idle to Active: opens a turn, unless one is open. -/
def openTurn (uuid : Nat → Str) (s : TurnAggregator) : TurnAggregator :=
  ensureTurnStarted uuid { s with
    turnHadActivity := false, turnWasInterrupted := false, turnFailed := false
    turnSawAbortToolResult := false, toolNames := [], turnAttachments := [], turnAttachmentUrls := [] }

/-- The status of a turn that ended badly. -/
def badStatus (s : TurnAggregator) : TurnStatus :=
  if s.turnDetachApprovalTimeout then .approvalTimeout
  else if s.turnDetachIdleTimeout then .idleTimeout
  else if s.turnWasInterrupted then .interrupted
  else .failed

/-- The reply of the end of a turn, once the thinking is flushed. -/
def finalReply (s : TurnAggregator) : TurnAggregator × List EmittedMessage :=
  -- a tool phase that was aborted: the abort lives only in the tool result
  let s := if s.turnSawAbortToolResult then { s with turnWasInterrupted := true, turnFailed := false }
    else s
  if (s.turnWasInterrupted || s.turnFailed || s.turnDetachIdleTimeout) && s.turnHadActivity then
    let content := if Str.trim s.replyBuf = [] then noticeOf s.badStatus else s.replyBuf
    { s with replyBuf := [] }.emitAgentReply content (.turnStatus s.badStatus) true
  else
    let hadFinalProse := Str.trim s.replyBuf ≠ []
    let (s, flushed) := s.flushReply true
    if ¬ hadFinalProse ∧ s.turnHadActivity then
      let (s, notice) := s.emitAgentReply (noticeOf .noFinalReply) (.turnStatus .noFinalReply) true
      (s, flushed ++ notice)
    else (s, flushed)

/-- Active to Idle: the turn ends. -/
def closeTurn (s : TurnAggregator) : TurnAggregator × List EmittedMessage :=
  let (s, thinking) := s.flushThinking
  let (s, reply) := s.finalReply
  ({ s with
      turnHadActivity := false, turnWasInterrupted := false, turnFailed := false
      turnSawAbortToolResult := false, turnDetachIdleTimeout := false
      turnDetachApprovalTimeout := false, toolNames := [], turnAttachments := []
      turnAttachmentUrls := [], currentTurnId := none }, thinking ++ reply)

/-- `mark_idle_timeout_detach`. -/
def markIdleTimeoutDetach (uuid : Nat → Str) (s : TurnAggregator) (approvalPending : Bool) :
    TurnAggregator :=
  let s := s.markActivity uuid
  { s with turnDetachIdleTimeout := true
           turnDetachApprovalTimeout := s.turnDetachApprovalTimeout || approvalPending }

/-- `ingest`: feed one event in; the logical messages this triggers. -/
def ingest (uuid : Nat → Str) (parseJson : Str → Option ParsedSessionAttach) (s : TurnAggregator)
    (event : AcpEvent) : TurnAggregator × List EmittedMessage :=
  match event with
  | .thinking text =>
    let s := s.markActivity uuid
    ({ s with thinkingBuf := s.thinkingBuf ++ text }, [])
  | .output text =>
    let s := s.markActivity uuid
    ({ s with replyBuf := s.replyBuf ++ text }, [])
  | .toolUse tu =>
    -- a tool call interrupts: the pending thinking and reply go out first
    let s := s.markActivity uuid
    let (s, thinking) := s.flushThinking
    let (s, reply) := s.flushReply false
    ({ s with toolNames := (tu.toolId, tu.toolName) :: s.toolNames },
      thinking ++ reply ++
        [{ kind := .agentToolCall, content := tu.toolName, metadata := .toolUse tu
           turnId := s.turnId }])
  | .toolResult tr =>
    let s := s.markActivity uuid
    let s := { s with turnSawAbortToolResult :=
      s.turnSawAbortToolResult || (!tr.success && isAbortLikeToolResult tr.summary) }
    let toolName := (s.toolNames.lookup tr.toolId).getD []
    let s := match parseSessionAttachToolResult parseJson toolName tr with
      | none => s
      | some parsed =>
        { s with
          turnAttachments := s.turnAttachments ++ [parsed.record]
          turnAttachmentUrls := s.turnAttachmentUrls ++
            if parsed.publicUrl = [] then [] else [parsed.publicUrl] }
    (s, [{ kind := .agentToolResult, content := tr.summary, metadata := .toolResult tr
           turnId := s.turnId }])
  | .error err =>
    match classifyAcpError err with
    | .sideChannel => (s, [])
    | .userAbort => ({ s.markActivity uuid with turnWasInterrupted := true }, [])
    | .turnFailure => ({ s.markActivity uuid with turnFailed := true }, [])
  | .statusChange .idle .active => (s.openTurn uuid, [])
  | .statusChange .active .idle => s.closeTurn
  | .statusChange _ _ => (s, [])
  | .other => (s, [])

end TurnAggregator

/-! ## Runs -/

/-- What one aggregator is fed. -/
inductive Feed where
  | event (event : AcpEvent)
  | markIdleTimeoutDetach (approvalPending : Bool)
  deriving DecidableEq

/-- One feed. -/
def TurnAggregator.feed (uuid : Nat → Str) (parseJson : Str → Option ParsedSessionAttach)
    (s : TurnAggregator) (f : Feed) : TurnAggregator × List EmittedMessage :=
  match f with
  | .event event => s.ingest uuid parseJson event
  | .markIdleTimeoutDetach approvalPending => (s.markIdleTimeoutDetach uuid approvalPending, [])

/-- All feeds, and the messages in order. -/
def TurnAggregator.feedAll (uuid : Nat → Str) (parseJson : Str → Option ParsedSessionAttach)
    (s : TurnAggregator) (fs : List Feed) : TurnAggregator × List EmittedMessage :=
  fs.foldl (fun (s, out) f => let (s, msgs) := s.feed uuid parseJson f; (s, out ++ msgs)) (s, [])

end TeamClu.Runtime
