import TeamClu.ForStd.Text

/-!
# The events of an agent run

The `AcpEvent` messages of `proto/amux.proto` that the translation and the aggregation of a turn read
and write, and the texts of `apps/daemon/src/runtime/pi_rpc/translate.rs` by which an abort is told
from a failure.  Of a tool call the fields stay that one of the two reads.
-/

namespace TeamClu.Runtime

/-- `AgentStatus`. -/
inductive AgentStatus where
  | unknown
  | starting
  | active
  | idle
  | error
  | stopped
  deriving DecidableEq

/-- `AcpError`. -/
structure AcpError where
  message : Str
  details : Str
  deriving DecidableEq

/-- `AcpToolUse`. -/
structure AcpToolUse where
  toolId : Str
  toolName : Str
  rawInputJson : Str := []
  deriving DecidableEq

/-- The payload of an `AcpToolCallContent`. -/
inductive AcpToolCallContent where
  | text (text : Str)
  | diff (path oldText newText : Str)
  | terminal (terminalId : Str)
  | empty
  deriving DecidableEq

/-- `AcpToolResult`. -/
structure AcpToolResult where
  toolId : Str
  success : Bool
  summary : Str
  rawOutputJson : Str := []
  content : List AcpToolCallContent := []
  deriving DecidableEq

/-- `AcpEvent.event`. -/
inductive AcpEvent where
  | thinking (text : Str)
  | output (text : Str)
  | toolUse (toolUse : AcpToolUse)
  | toolResult (toolResult : AcpToolResult)
  | error (err : AcpError)
  | statusChange (oldStatus newStatus : AgentStatus)
  /-- Any other event, and none. -/
  | other
  deriving DecidableEq

/-- `to_ascii_lowercase`. -/
def toAsciiLowercase (s : Str) : Str := s.map Char.toLower

/-- `AcpError.message` for a pi `extension_error` event. -/
def EXTENSION_ERROR_MESSAGE : Str := "pi extension error".toList

/-- `AcpError.message` for a turn whose model call failed outright. -/
def PROVIDER_ERROR_MESSAGE : Str := "model provider error".toList

/-- `AcpError.message` for a turn the model stopped before finishing. -/
def ABORTED_ERROR_MESSAGE : Str := "MessageAbortedError".toList

def ABORTED_ERROR_DETAILS : Str := "Aborted".toList

/-- `is_abort_like_detail`. -/
def isAbortLikeDetail (details : Str) : Bool :=
  let lower := toAsciiLowercase (Str.trim details)
  Str.contains lower "operation was aborted".toList || Str.contains lower "messageaborted".toList ||
    Str.contains lower "request was aborted".toList || Str.contains lower "aborterror".toList ||
    lower == "aborted".toList

/-- `is_abort_like_tool_result`. -/
def isAbortLikeToolResult (summary : Str) : Bool :=
  let lower := toAsciiLowercase (Str.trim summary)
  if lower = [] then false
  else lower == "aborted".toList || lower == "operation aborted".toList ||
    lower == "command aborted".toList || isAbortLikeDetail summary

/-- `aborted_turn_error`. -/
def abortedTurnError (details : Str) : AcpEvent :=
  .error { message := ABORTED_ERROR_MESSAGE, details }

end TeamClu.Runtime
