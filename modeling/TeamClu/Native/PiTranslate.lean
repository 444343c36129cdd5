import Std.Data.ExtTreeMap
import TeamClu.Native.AcpEvents

/-!
# Translating the events of pi

`translate_event` and `replay_entries` of `apps/daemon/src/runtime/pi_rpc/translate.rs`, over the
fields that they read of an event or of a persisted entry.  The summary of a tool result is the text
that `truncate_tool_summary` leaves of it.
-/

namespace TeamClu.Runtime

/-- `BlockKind`. -/
inductive BlockKind where
  | text
  | thinking
  deriving DecidableEq

/-- An event of pi's stdout. -/
inductive PiEvent where
  /-- `message_update` with `text_delta` or `thinking_delta`. -/
  | delta (kind : BlockKind) (contentIndex : Int) (delta : Str)
  /-- `message_update` with `text_end` or `thinking_end`. -/
  | blockEnd (kind : BlockKind) (contentIndex : Int) (content : Str)
  | toolExecutionStart (toolCallId toolName args : Str)
  | toolExecutionEnd (toolCallId : Str) (isError : Bool) (summary result : Str)
  | messageEnd (role stopReason : Str) (errorMessage : Option Str)
  | extensionError (details : Str)
  | agentStart
  | agentEnd (leafId : Option Str) (willRetry : Bool)
  | agentSettled
  | other
  deriving DecidableEq

/-- A block of an assistant message. -/
inductive EntryBlock where
  | text (text : Str)
  | thinking (thinking : Str)
  /-- A tool call, or anything else. -/
  | other
  deriving DecidableEq

/-- A persisted session entry. -/
inductive Entry where
  | assistant (content : List EntryBlock)
  | toolResult (toolCallId : Str) (isError : Bool) (summary message : Str)
  /-- A message of another role, and an entry that is no message. -/
  | other
  deriving DecidableEq

/-- `TranslateState`; a content block of which nothing was emitted counts 0 bytes. -/
structure TranslateState where
  emitted : BlockKind → Int → Nat := fun _ _ => 0
  toolNames : Std.ExtTreeMap Str Str := ∅
  /-- A failed run's error, held until the run actually ends. -/
  pendingTurnError : Option (Str × Str) := none

namespace TranslateState

/-- `reset_turn`, on `agent_start`. -/
def resetTurn (st : TranslateState) : TranslateState :=
  { st with emitted := fun _ _ => 0, pendingTurnError := none }

/-- `stash_turn_error`. -/
def stashTurnError (st : TranslateState) (message details : Str) : TranslateState :=
  { st with pendingTurnError := some (message, details) }

/-- `take_turn_error`. -/
def takeTurnError (st : TranslateState) : TranslateState × List AcpEvent :=
  ({ st with pendingTurnError := none },
    (st.pendingTurnError.map fun (message, details) => AcpEvent.error { message, details }).toList)

/-- `discard_turn_error`. -/
def discardTurnError (st : TranslateState) : TranslateState := { st with pendingTurnError := none }

/-- The byte count of one block set. -/
def setEmitted (st : TranslateState) (kind : BlockKind) (contentIndex : Int) (n : Nat) :
    TranslateState :=
  { st with emitted := fun k i => if k = kind ∧ i = contentIndex then n else st.emitted k i }

end TranslateState

/-- `text_event`. -/
def textEvent (kind : BlockKind) (text : Str) : AcpEvent :=
  match kind with
  | .text => .output text
  | .thinking => .thinking text

/-- `delta_or_end`, for a delta. -/
def onDelta (st : TranslateState) (kind : BlockKind) (contentIndex : Int) (delta : Str) :
    TranslateState × List AcpEvent :=
  if delta = [] then (st, [])
  else (st.setEmitted kind contentIndex (st.emitted kind contentIndex + Str.utf8Len delta),
    [textEvent kind delta])

/-- `delta_or_end`, for an end: only the unseen suffix of the content. -/
def onBlockEnd (st : TranslateState) (kind : BlockKind) (contentIndex : Int) (content : Str) :
    TranslateState × List AcpEvent :=
  if st.emitted kind contentIndex < Str.utf8Len content then
    (st.setEmitted kind contentIndex (Str.utf8Len content),
      [textEvent kind (Str.dropBytes (st.emitted kind contentIndex) content)])
  else (st, [])

/-- The arm of `translate_event` for the `message_end` of an assistant. -/
def onMessageEnd (st : TranslateState) (stopReason : Str) (errorMessage : Option Str) :
    TranslateState × List AcpEvent :=
  let details := errorMessage.filter (· ≠ [])
  if stopReason = "error".toList then
    let detailsStr := details.getD []
    if isAbortLikeDetail detailsStr then
      (st, [abortedTurnError (if detailsStr = [] then ABORTED_ERROR_DETAILS else detailsStr)])
    else (st.stashTurnError PROVIDER_ERROR_MESSAGE detailsStr, [])
  else if stopReason = "aborted".toList then
    (st, [abortedTurnError (details.getD ABORTED_ERROR_DETAILS)])
  else (st, [])

/-- `translate_event`. -/
def translateEvent (st : TranslateState) (event : PiEvent) : TranslateState × List AcpEvent :=
  match event with
  | .delta kind contentIndex delta => onDelta st kind contentIndex delta
  | .blockEnd kind contentIndex content => onBlockEnd st kind contentIndex content
  | .toolExecutionStart toolId toolName args =>
    ({ st with toolNames := st.toolNames.insert toolId toolName },
      [.toolUse { toolId, toolName, rawInputJson := args }])
  | .toolExecutionEnd toolId isError summary result =>
    ({ st with toolNames := st.toolNames.erase toolId },
      [.toolResult { toolId, success := !isError, summary, rawOutputJson := result }])
  | .extensionError details => (st, [.error { message := EXTENSION_ERROR_MESSAGE, details }])
  | .messageEnd role stopReason errorMessage =>
    if role = "assistant".toList then onMessageEnd st stopReason errorMessage else (st, [])
  | .agentStart | .agentEnd _ _ | .agentSettled | .other => (st, [])

/-- One block of a persisted message, replayed as its end. -/
def replayBlock (st : TranslateState) (block : EntryBlock) (index : Nat) :
    TranslateState × List AcpEvent :=
  match block with
  | .text text => onBlockEnd st .text index text
  | .thinking thinking => onBlockEnd st .thinking index thinking
  | .other => (st, [])

/-- Steps that emit, one after the other. -/
def emitAll {α : Type} (step : TranslateState → α → TranslateState × List AcpEvent)
    (st : TranslateState) (xs : List α) : TranslateState × List AcpEvent :=
  xs.foldl (fun (st, out) x => let (st, events) := step st x; (st, out ++ events)) (st, [])

/-- One entry of `replay_entries`. -/
def replayEntry (st : TranslateState) (entry : Entry) : TranslateState × List AcpEvent :=
  match entry with
  | .assistant content => emitAll (fun st (block, index) => replayBlock st block index) st content.zipIdx
  | .toolResult toolId isError summary message =>
    if toolId = [] ∨ toolId ∉ st.toolNames then (st, [])
    else ({ st with toolNames := st.toolNames.erase toolId },
      [.toolResult { toolId, success := !isError, summary, rawOutputJson := message }])
  | .other => (st, [])

/-- `replay_entries`. -/
def replayEntries (st : TranslateState) (entries : List Entry) : TranslateState × List AcpEvent :=
  emitAll replayEntry st entries

end TeamClu.Runtime
