import TeamClu.ForStd.Machine
import TeamClu.ForStd.Text
import TeamClu.Native.MessageStore

/-!
# Late tool events on a persisted reply

`patchPersistedToolUse` and `patchPersistedToolResult` of `lib/stream/streaming-persist.ts`, over the
message store of `stores/session-message-store.ts` and the merge of
`lib/messages/merge-turn-agent-reply.ts`.  A handler reads the parts of the reply, awaits the write of
its own list of parts, and then stores that list.  What starts and which write finishes is the input.

The parts are kept parsed.  The merges of the reply's text and of its metadata are parameters; they do
not touch the parts.
-/

namespace TeamClu.LateTools

/-- The status of a tool call. -/
inductive ToolStatus where
  | calling
  | waiting
  | completed
  | failed
  deriving DecidableEq, Repr

/-- A tool call; `details` is what no handler changes: its name, its arguments and so on. -/
structure ToolCall where
  id : Str
  details : Str
  status : ToolStatus
  result : Option Str := none
  content : Option Str := none
  rawOutput : Option Str := none
  deriving DecidableEq, Repr

/-- A part of a reply. -/
inductive Part where
  /-- A text or a reasoning part. -/
  | prose (text : Str)
  | toolCall (call : ToolCall)
  deriving DecidableEq, Repr

/-- The id of the tool of a part. -/
def Part.toolId : Part → Option Str
  | .prose _ => none
  | .toolCall call => some call.id

/-- A message of the store; `parts` is its `partsJson`, none when blank. -/
structure Message where
  messageId : Str
  turnId : Str
  senderActorId : Str
  isAgentReply : Bool
  createdAt : Nat
  content : Str
  metadataJson : Str
  attachmentUrls : List Str
  parts : Option (List Part)
  deriving DecidableEq

/-- How the text and the metadata of two replies of a turn are merged. -/
structure Merges where
  reconcileEquivalentAgentReplyText : Str → Str → Str
  mergeMetadataJson : Str → Str → Str

/-! ## The message store -/

/-- `mergeTurnAgentReplyProto`. -/
def mergeTurnAgentReplyProto (merges : Merges) (existing incoming : Message) : Message :=
  { incoming with
    content := merges.reconcileEquivalentAgentReplyText existing.content incoming.content
    metadataJson := merges.mergeMetadataJson existing.metadataJson incoming.metadataJson
    attachmentUrls :=
      if incoming.attachmentUrls ≠ [] then incoming.attachmentUrls else existing.attachmentUrls
    parts := incoming.parts.or existing.parts }

/-- `appendMessage`. -/
def appendMessage (messages : List Message) (message : Message) : List Message :=
  if messages.any (·.messageId == message.messageId) then messages else messages ++ [message]

/-- `insertProtoMessageSorted`. -/
def insertProtoMessageSorted (messages : List Message) (message : Message) : List Message :=
  if messages.any (·.messageId == message.messageId) then messages
  else
    let lo := MessageStore.searchUpperBound (fun row => message.createdAt < row.createdAt) messages 0
      messages.length
    messages.take lo ++ message :: messages.drop lo

/-- Whether the row is an agent reply of the turn. -/
def Message.inTurn (turnId senderActorId : Str) (row : Message) : Bool :=
  row.turnId == turnId && row.senderActorId == senderActorId && row.isAgentReply

/-- `replaceTurnAgentRepliesInStore`: one synthesized reply per turn. -/
def replaceTurnAgentRepliesInStore (merges : Merges) (cur : List Message) (message : Message) :
    List Message :=
  let turnId := Str.jsTrim message.turnId
  let senderActorId := Str.jsTrim message.senderActorId
  if turnId = [] ∨ senderActorId = [] ∨ message.isAgentReply = false then appendMessage cur message
  else
    let existingInTurn := cur.filter (·.inTurn turnId senderActorId)
    let rest := cur.filter (!·.inTurn turnId senderActorId)
    let prior := (existingInTurn.find? (·.parts.isSome)).or existingInTurn.getLast?
    let merged := match prior with
      | some prior => mergeTurnAgentReplyProto merges prior message
      | none => message
    insertProtoMessageSorted (rest.filter (·.messageId != merged.messageId)) merged

/-! ## The handlers -/

/-- A late tool use; `call` has the status calling. -/
structure ToolUse where
  toolId : Str
  details : Str
  content : Option Str := none
  deriving DecidableEq

/-- A late tool result. -/
structure ToolResult where
  toolId : Str
  success : Bool
  summary : Str
  content : Option Str := none
  rawOutput : Option Str := none
  deriving DecidableEq

/-- The tool call of a late tool use. -/
def ToolUse.call (use : ToolUse) : ToolCall :=
  { id := Str.jsTrim use.toolId, details := use.details, status := .calling, content := use.content }

/-- A tool call with its result. -/
def ToolResult.apply (result : ToolResult) (call : ToolCall) : ToolCall :=
  { call with
    status := if result.success then .completed else .failed
    result := some result.summary
    content := result.content.or call.content
    rawOutput := result.rawOutput.or call.rawOutput }

/-- The part with the result, if it is the tool's. -/
def ToolResult.applyPart (result : ToolResult) : Part → Part
  | .toolCall call =>
    if call.id = Str.jsTrim result.toolId then .toolCall (result.apply call) else .toolCall call
  | part => part

/-- `withPatchedToolResult`; none when no part is the tool's. -/
def withPatchedToolResult (parts : List Part) (result : ToolResult) : Option (List Part) :=
  if Str.jsTrim result.toolId = [] then none
  else if parts.any (·.toolId == some (Str.jsTrim result.toolId)) then
    some (parts.map result.applyPart)
  else none

/-- A handler that awaits its write: the message it read, and its list of parts. -/
structure Pending where
  message : Message
  parts : List Part

/-- The messages of the session and the handlers that await their writes; which events were handled is
    kept for the record. -/
structure Session where
  messages : List Message
  pending : List Pending := []
  announced : List ToolUse := []
  results : List ToolResult := []
  /-- The tool outputs that writes have added. -/
  outputs : List (Str × Str) := []

/-- What happens next. -/
inductive LateInput where
  | toolUse (use : ToolUse)
  | toolResult (result : ToolResult)
  /-- The write of a handler fails, or returns its parts with these tool outputs added. -/
  | settle (handler : Nat) (written : Option (List (Str × Str)))

/-- A part with its output, where there is one. -/
def addOutput (outputs : List (Str × Str)) : Part → Part
  | .toolCall call =>
    match outputs.lookup call.id with
    | some output => .toolCall { call with result := some output }
    | none => .toolCall call
  | part => part

/-- The reply that was flushed, if the store has it. -/
def findReply (flushed : Str) (messages : List Message) : Option Message :=
  messages.find? (·.messageId == flushed)

/-- `patchPersistedToolUse` up to its await. -/
def startToolUse (flushed : Str) (s : Session) (use : ToolUse) : Session :=
  let s := { s with announced := s.announced ++ [use] }
  if Str.jsTrim use.toolId = [] then s
  else
    match findReply flushed s.messages with
    | none => s
    | some message =>
      let parts := message.parts.getD []
      if parts.any (·.toolId == some (Str.jsTrim use.toolId)) then s
      else { s with pending := s.pending ++ [{ message, parts := parts ++ [.toolCall use.call] }] }

/-- `patchPersistedToolResult` up to its await. -/
def startToolResult (flushed : Str) (s : Session) (result : ToolResult) : Session :=
  let s := { s with results := s.results ++ [result] }
  match findReply flushed s.messages with
  | none => s
  | some message =>
    let parts := message.parts.getD []
    if parts = [] then s
    else
      match withPatchedToolResult parts result with
      | none => s
      | some patched => { s with pending := s.pending ++ [{ message, parts := patched }] }

/-- One step of the session. -/
def lateStep (merges : Merges) (flushed : Str) (s : Session) : LateInput → Session
  | .toolUse use => startToolUse flushed s use
  | .toolResult result => startToolResult flushed s result
  | .settle i written =>
    match s.pending[i]? with
    | none => s
    | some handler =>
      let outputs := written.getD []
      let updated := { handler.message with parts := some (handler.parts.map (addOutput outputs)) }
      { s with
        messages := replaceTurnAgentRepliesInStore merges s.messages updated
        pending := s.pending.eraseIdx i
        outputs := s.outputs ++ outputs }

/-- The session with the flushed reply, before any late event. -/
def lateMachine (merges : Merges) (flushed : Str) (messages : List Message) :
    Machine Session LateInput where
  init := { messages }
  step := lateStep merges flushed

end TeamClu.LateTools
