import Std.Data.ExtTreeMap
import Mathlib.Data.Finset.Basic
import Mathlib.Data.List.Sort
import TeamClu.ForStd.Text

/-!
# The chat timeline of the iOS app

`ChatTimelineReducer.swift` of `AMUXCore` merges the events of the agents, the live messages, the rows
of the history and the local prompts into the entries of a timeline.  Swift compares texts by canonical
equivalence, so what it says of two texts is a parameter (`SwiftText`); ids and keys are compared as
they are.  An id that is made here (`UUID().uuidString`) is no id of a message.
-/

namespace TeamClu.Timeline

/-- What Swift says of the texts of messages. -/
structure SwiftText where
  /-- `==`. -/
  same : Str → Str → Bool
  /-- `text.hasPrefix(prefix)`. -/
  hasPrefix : Str → Str → Bool
  /-- `text.count`. -/
  count : Str → Nat

/-! ## Entries and inputs -/

/-- `eventType` of an entry. -/
inductive EventType where
  | output
  | thinking
  | toolUse
  | toolResult
  | error
  | permissionRequest
  | planUpdate
  | userPrompt
  deriving DecidableEq

/-- `MessageAttachment`. -/
structure MessageAttachment where
  filename : Str
  mime : Str
  size : Nat
  bucketPath : Option Str
  deriving DecidableEq

/-- `AcpToolCallDiff`. -/
structure Diff where
  path : Str
  oldText : Option Str
  newText : Str
  deriving DecidableEq

/-- `TimelineEntry`. -/
structure TimelineEntry where
  /-- The id of a message; `none` is an id that was made here. -/
  id : Option Str := none
  sequence : Nat := 0
  eventType : EventType
  text : Option Str := none
  toolID : Option Str := none
  toolName : Option Str := none
  isComplete : Bool := false
  success : Option Bool := none
  senderActorID : Option Str := none
  timestamp : Int := 0
  model : Option Str := none
  supabaseMessageID : Option Str := none
  clientID : Option Str := none
  outboxMessageID : Option Str := none
  turnID : Option Str := none
  resultSummary : Option Str := none
  diff : Option Diff := none
  attachments : List MessageAttachment := []
  replyToMessageID : Option Str := none
  deriving DecidableEq

/-- `SlashCommand`. -/
structure SlashCommand where
  name : Str
  description : Str
  inputHint : Str
  deriving DecidableEq

/-- `AcpEvent`.  A content block of a tool call is a diff or something else. -/
inductive AcpEvent where
  | output (text : Str) (isComplete : Bool)
  | thinking (text : Str)
  | toolUse (toolID description toolName : Str) (content : List (Option Diff))
  | toolResult (toolID : Str) (success : Bool) (summary : Str) (content : List (Option Diff))
  | error (message : Str)
  | permissionRequest (requestID description toolName : Str)
  /-- The content and the status of each entry of the plan. -/
  | planUpdate (entries : List (Str × Str))
  | statusChange (idle : Bool)
  | availableCommands (commands : List SlashCommand)
  | raw

/-- `AcpInput`. -/
structure AcpInput where
  envelopeSequence : Nat
  agentBucketKey : Str
  timestamp : Int
  turnID : Option Str
  event : AcpEvent
  /-- The model of the event, empty when it has none. -/
  model : Str

/-- `PersistedReplyInput`. -/
structure PersistedReplyInput where
  messageID : Str
  senderActorID : Str
  content : Str
  turnID : Option Str
  deriving DecidableEq

/-- `LiveMessageInput`. -/
structure LiveMessageInput where
  messageID : Str
  clientLocalID : Option Str
  senderActorID : Str
  content : Str
  createdAt : Int
  replyToMessageID : Option Str

/-- `HistoryInput`; `isOutput` tells its kind. -/
structure HistoryInput where
  supabaseMessageID : Str
  isOutput : Bool
  senderActorID : Option Str
  content : Str
  createdAt : Int
  model : Option Str
  turnID : Option Str
  sequence : Int
  closesTurn : Bool
  attachments : List MessageAttachment
  replyToMessageID : Option Str

/-- `LocalPromptInput`. -/
structure LocalPromptInput where
  clientID : Str
  senderActorID : Str
  content : Str
  createdAt : Int
  replyToMessageID : Option Str

/-- `PermissionResolutionInput`. -/
structure PermissionResolutionInput where
  requestID : Str
  granted : Bool

/-- `TimelineInput`. -/
inductive TimelineInput where
  | acp (input : AcpInput)
  | liveMessage (input : LiveMessageInput)
  | historyMessage (input : HistoryInput)
  | localPrompt (input : LocalPromptInput)
  | permissionResolution (input : PermissionResolutionInput)
  | persistedReply (input : PersistedReplyInput)

/-- `TimelineState`. -/
structure TimelineState where
  entries : List TimelineEntry := []
  pendingPersistedReplies : List PersistedReplyInput := []
  streamingTextByAgent : Std.ExtTreeMap Str Str := ∅
  streamingModelByAgent : Std.ExtTreeMap Str Str := ∅
  streamingAgentSet : Finset Str := ∅
  streamingTurnIDByAgent : Std.ExtTreeMap Str Str := ∅
  availableCommands : List SlashCommand := []

/-- `TimelineReducerEffect`. -/
inductive Effect where
  | noop
  | streamingBufferOnly
  | entriesChanged
  deriving DecidableEq

/-! ## Lists of entries -/

/-- `senderActorID ?? ""`. -/
def TimelineEntry.sender (e : TimelineEntry) : Str := e.senderActorID.getD []

/-- Change the first entry that fits, as found by `firstIndex(where:)`. -/
def updateFirst (p : TimelineEntry → Bool) (f : TimelineEntry → TimelineEntry) :
    List TimelineEntry → List TimelineEntry
  | [] => []
  | e :: es => if p e then f e :: es else e :: updateFirst p f es

/-- Change the last entry that fits, as found by `lastIndex(where:)`. -/
def updateLast (p : TimelineEntry → Bool) (f : TimelineEntry → TimelineEntry)
    (es : List TimelineEntry) : List TimelineEntry := (updateFirst p f es.reverse).reverse

/-- `firstDiff`. -/
def firstDiff (content : List (Option Diff)) : Option Diff := content.findSome? id

/-- `applyDiff` with the first diff of the content. -/
def applyDiff (content : List (Option Diff)) (e : TimelineEntry) : TimelineEntry :=
  { e with diff := (firstDiff content).or e.diff }

namespace TimelineState

variable (s : TimelineState)

/-- `clearStreaming`. -/
def clearStreaming (bucket : Str) : TimelineState :=
  { s with
    streamingAgentSet := s.streamingAgentSet.erase bucket
    streamingTextByAgent := s.streamingTextByAgent.erase bucket
    streamingModelByAgent := s.streamingModelByAgent.erase bucket
    streamingTurnIDByAgent := s.streamingTurnIDByAgent.erase bucket }

/-- The text that an agent streams, as far as it is mid-stream. -/
def bufferedText (bucket : Str) : Str :=
  if bucket ∈ s.streamingAgentSet then s.streamingTextByAgent[bucket]?.getD [] else []

end TimelineState

/-- An output of the agent that is not complete (`incompleteOutputIndex`). -/
def isIncompleteOutput (bucket : Str) (e : TimelineEntry) : Bool :=
  e.eventType = .output && !e.isComplete && e.sender = bucket

/-- A complete output of the agent in a turn (`outputCompleteIndex`). -/
def isCompleteOutput (bucket : Str) (turnID : Option Str) (e : TimelineEntry) : Bool :=
  e.eventType = .output && e.isComplete && e.turnID = turnID && e.sender = bucket

section

variable (T : SwiftText)

/-! ## Events of the agents -/

/-- The model of the event, if it has one. -/
def AcpInput.model? (input : AcpInput) : Option Str := if input.model = [] then none else some input.model

/-- `makeEntry`, with what all entries of an event share. -/
def AcpInput.entry (input : AcpInput) (eventType : EventType) : TimelineEntry :=
  { eventType, sequence := input.envelopeSequence, senderActorID := some input.agentBucketKey
    timestamp := input.timestamp }

/-- A segment of the same text was flushed for the turn. -/
def alreadyFlushed (s : TimelineState) (bucket : Str) (turnID : Option Str) (text : Str) : Bool :=
  s.entries.any fun e => isCompleteOutput bucket turnID e && e.text.any (T.same · text)

/-- The turn of the text in the buffer. -/
def segmentTurnID (s : TimelineState) (input : AcpInput) : Option Str :=
  s.streamingTurnIDByAgent[input.agentBucketKey]?.or input.turnID

/-- The text in the buffer becomes an entry, unless it is empty or was flushed already. -/
def appendSegment (input : AcpInput) (sequence : Nat) (s : TimelineState) : TimelineState :=
  let bucket := input.agentBucketKey
  let text := s.bufferedText bucket
  let turnID := segmentTurnID s input
  if text = [] || alreadyFlushed T s bucket turnID text then s
  else
    { s with entries := s.entries ++ [{ input.entry .output with
        sequence, text := some text, model := s.streamingModelByAgent[bucket]?, isComplete := true,
        turnID }] }

/-- A delta of an output: it starts a stream or goes on with one. -/
def applyDelta (input : AcpInput) (text : Str) (s : TimelineState) : TimelineState × Effect :=
  let bucket := input.agentBucketKey
  -- the delta of another turn ends the stream
  let other := input.turnID.any fun t => t ≠ [] &&
    s.streamingTurnIDByAgent[bucket]?.any fun active => active ≠ [] && active ≠ t
  let s := if other then s.clearStreaming bucket else s
  -- the first delta takes over the text of an output that was saved incomplete
  let saved := if bucket ∈ s.streamingAgentSet then none
    else s.entries.reverse.find? (isIncompleteOutput bucket)
  let s := match saved with
    | none => s
    | some e =>
      { s with
        streamingTextByAgent := s.streamingTextByAgent.insert bucket (e.text.getD [])
        entries := (s.entries.reverse.eraseP (isIncompleteOutput bucket)).reverse }
  let s :=
    { s with
      streamingAgentSet := insert bucket s.streamingAgentSet
      streamingTextByAgent := s.streamingTextByAgent.insert bucket
        (s.streamingTextByAgent[bucket]?.getD [] ++ text)
      streamingModelByAgent := match input.model? with
        | none => s.streamingModelByAgent
        | some model => s.streamingModelByAgent.insert bucket model
      streamingTurnIDByAgent := match input.turnID with
        | none => s.streamingTurnIDByAgent
        | some t => if t = [] then s.streamingTurnIDByAgent else s.streamingTurnIDByAgent.insert bucket t }
  (s, if saved.isSome then .entriesChanged else .streamingBufferOnly)

/-- The whole output: it completes the one that is not complete, or it is an entry of its own. -/
def applyComplete (input : AcpInput) (text : Str) (s : TimelineState) : TimelineState × Effect :=
  let bucket := input.agentBucketKey
  let entries :=
    if s.entries.any (isIncompleteOutput bucket) then
      updateLast (isIncompleteOutput bucket) (fun e =>
        { e with
          text := some text, isComplete := true
          turnID := if input.turnID.any (· ≠ []) then e.turnID.or input.turnID else e.turnID
          model := input.model?.or e.model }) s.entries
    else s.entries ++ [{ input.entry .output with
      text := some text, model := input.model?, isComplete := true, turnID := input.turnID }]
  ({ s with entries }.clearStreaming bucket, .entriesChanged)

/-- Thoughts of the agent go to the last entry, if it is one of its thoughts. -/
def applyThinking (input : AcpInput) (text : Str) (s : TimelineState) : TimelineState :=
  let bucket := input.agentBucketKey
  match s.entries.getLast? with
  | some e =>
    if e.eventType = .thinking && e.sender = bucket then
      { s with entries := s.entries.dropLast ++ [{ e with
          text := some (e.text.getD [] ++ text), model := input.model?.or e.model }] }
    else { s with entries := s.entries ++ [{ input.entry .thinking with
      text := some text, model := input.model?, turnID := input.turnID }] }
  | none => { s with entries := s.entries ++ [{ input.entry .thinking with
      text := some text, model := input.model?, turnID := input.turnID }] }

/-- A row of the tool call. -/
def isToolUse (toolID : Str) (e : TimelineEntry) : Bool :=
  e.eventType = .toolUse && e.toolID = some toolID

/-- A tool call: the text before it is flushed, and its row is added or updated. -/
def applyToolUse (input : AcpInput) (toolID description toolName : Str)
    (content : List (Option Diff)) (s : TimelineState) : TimelineState :=
  let bucket := input.agentBucketKey
  let s := if s.bufferedText bucket = [] then s
    else
      let s := appendSegment T input 0 s
      { s with streamingTextByAgent := s.streamingTextByAgent.erase bucket }
  let entries :=
    if s.entries.any (isToolUse toolID) then
      updateLast (isToolUse toolID) (fun e => applyDiff content
        { e with
          text := if description = [] then e.text else some description
          toolName := if toolName = [] then e.toolName else some toolName }) s.entries
    else s.entries ++ [applyDiff content { input.entry .toolUse with
      text := some description, toolID := some toolID, toolName := some toolName
      turnID := input.turnID }]
  { s with entries }

/-- The result of a tool call goes to its row. -/
def applyToolResult (input : AcpInput) (toolID : Str) (success : Bool) (summary : Str)
    (content : List (Option Diff)) (s : TimelineState) : TimelineState :=
  let entries :=
    if s.entries.any (isToolUse toolID) then
      updateLast (isToolUse toolID) (fun e => applyDiff content
        { e with success := some success, resultSummary := some summary, isComplete := true }) s.entries
    else s.entries ++ [applyDiff content { input.entry .toolResult with
      text := some summary, toolID := some toolID, isComplete := true, success := some success
      turnID := input.turnID }]
  { s with entries }

/-- The row of a permission request. -/
def isPermission (requestID : Str) (e : TimelineEntry) : Bool :=
  e.eventType = .permissionRequest && e.toolID = some requestID

/-- The text of a plan. -/
def planText (entries : List (Str × Str)) : Str :=
  ['\n'].intercalate (entries.map fun (content, status) =>
    let icon := if status = "completed".toList then "done".toList
      else if status = "in_progress".toList then "wip".toList else "todo".toList
    '[' :: icon ++ "] ".toList ++ content)

/-- The plan of the agent. -/
def isPlan (bucket : Str) (e : TimelineEntry) : Bool := e.eventType = .planUpdate && e.sender = bucket

/-- A plan replaces the one before. -/
def applyPlan (input : AcpInput) (plan : List (Str × Str)) (s : TimelineState) : TimelineState :=
  let bucket := input.agentBucketKey
  let text := planText plan
  let entries :=
    if s.entries.any (isPlan bucket) then
      updateLast (isPlan bucket)
        (fun e => { e with text := some text, turnID := e.turnID.or input.turnID }) s.entries
    else s.entries ++ [{ input.entry .planUpdate with text := some text, turnID := input.turnID }]
  { s with entries }

/-- A tool row of the agent that still runs. -/
def isOpenTool (bucket : Str) (e : TimelineEntry) : Bool :=
  e.eventType = .toolUse && !e.isComplete && e.sender = bucket

/-- The agent is idle: its text is flushed, its stream ends and its tool rows are closed. -/
def applyIdle (input : AcpInput) (s : TimelineState) : TimelineState × Effect :=
  let bucket := input.agentBucketKey
  let flushed := (appendSegment T input input.envelopeSequence s).clearStreaming bucket
  let entries := flushed.entries.map fun e =>
    if isOpenTool bucket e then { e with isComplete := true, success := e.success.or (some true) } else e
  let mutated := flushed.entries.length ≠ s.entries.length || s.entries.any (isOpenTool bucket)
  ({ flushed with entries }, if mutated then .entriesChanged else .streamingBufferOnly)

/-- The commands with a name, each name once. -/
def uniqueCommands : List Str → List SlashCommand → List SlashCommand
  | _, [] => []
  | seen, c :: rest =>
    if c.name = [] || seen.contains c.name then uniqueCommands seen rest
    else c :: uniqueCommands (c.name :: seen) rest

/-- The `switch` of `applyAcp`. -/
def applyEvent (input : AcpInput) (s : TimelineState) : TimelineState × Effect :=
  match input.event with
  | .output text isComplete =>
    if isComplete then applyComplete input text s else applyDelta input text s
  | .thinking text => (applyThinking input text s, .entriesChanged)
  | .toolUse toolID description toolName content =>
    (applyToolUse T input toolID description toolName content s, .entriesChanged)
  | .toolResult toolID success summary content =>
    (applyToolResult input toolID success summary content s, .entriesChanged)
  | .error message =>
    ({ s with entries := s.entries ++ [{ input.entry .error with text := some message }] },
      .entriesChanged)
  | .permissionRequest requestID description toolName =>
    if s.entries.any (isPermission requestID) then (s, .noop)
    else
      ({ s with entries := s.entries ++ [{ input.entry .permissionRequest with
          text := some description, toolID := some requestID, toolName := some toolName
          turnID := input.turnID }] }, .entriesChanged)
  | .planUpdate plan => (applyPlan input plan s, .entriesChanged)
  | .statusChange idle => if idle then applyIdle T input s else (s, .noop)
  | .availableCommands commands =>
    let next := uniqueCommands [] commands
    if next ≠ s.availableCommands then ({ s with availableCommands := next }, .streamingBufferOnly)
    else (s, .noop)
  | .raw => (s, .noop)

/-- The text of a whole output that its turn has already, as the first guard of `applyAcp` finds it. -/
def AcpInput.repeatedOutput? (input : AcpInput) (s : TimelineState) : Option Str :=
  match input.event, input.turnID with
  | .output text true, some turnID =>
    if turnID ≠ [] && s.entries.any (isCompleteOutput input.agentBucketKey (some turnID)) then some text
    else none
  | _, _ => none

/-- The envelope has an entry (the second guard). -/
def AcpInput.isSeen (input : AcpInput) (s : TimelineState) : Bool :=
  0 < input.envelopeSequence && s.entries.any fun e =>
    e.sequence = input.envelopeSequence && e.sender = input.agentBucketKey

/-- `applyAcp`. -/
def applyAcp (input : AcpInput) (s : TimelineState) : TimelineState × Effect :=
  match input.repeatedOutput? s with
  | some text =>
    let entries := updateLast (isCompleteOutput input.agentBucketKey input.turnID)
      (fun e => { e with text := some text, model := input.model?.or e.model }) s.entries
    ({ s with entries }.clearStreaming input.agentBucketKey, .entriesChanged)
  | none => if input.isSeen s then (s, .noop) else applyEvent T input s

/-! ## Replies that were persisted -/

/-- An output that a persisted reply can belong to. -/
def isCandidate (reply : PersistedReplyInput) (e : TimelineEntry) : Bool :=
  e.eventType = .output && e.isComplete && e.supabaseMessageID = none &&
    e.sender = reply.senderActorID

/-- A candidate with the text of the reply. -/
def isTextTarget (reply : PersistedReplyInput) (e : TimelineEntry) : Bool :=
  isCandidate reply e && e.text.any (T.same · reply.content)

/-- A candidate of the turn of the reply. -/
def isTurnTarget (reply : PersistedReplyInput) (e : TimelineEntry) : Bool :=
  isCandidate reply e && reply.turnID.any (· ≠ []) && e.turnID = reply.turnID

/-- `adopt`. -/
def adopt (reply : PersistedReplyInput) (e : TimelineEntry) : TimelineEntry :=
  { e with
    supabaseMessageID := some reply.messageID
    turnID := if reply.turnID.any (· ≠ []) then e.turnID.or reply.turnID else e.turnID }

/-- The entries with the reply stamped on its target (`persistedReplyTarget`), if it has one. -/
def stampReply (reply : PersistedReplyInput) (entries : List TimelineEntry) :
    Option (List TimelineEntry) :=
  if entries.any (isTextTarget T reply) then some (updateLast (isTextTarget T reply) (adopt reply) entries)
  else if entries.any (isTurnTarget reply) then
    some (updateLast (isTurnTarget reply) (adopt reply) entries)
  else none

/-- An entry with the id of a stored message. -/
def hasSupabaseID (messageID : Str) (e : TimelineEntry) : Bool := e.supabaseMessageID = some messageID

/-- `applyPersistedReply`. -/
def applyPersistedReply (reply : PersistedReplyInput) (s : TimelineState) : TimelineState × Effect :=
  if s.entries.any (hasSupabaseID reply.messageID) then (s, .noop)
  else
    match stampReply T reply s.entries with
    | some entries => ({ s with entries }, .entriesChanged)
    | none =>
      let pending := s.pendingPersistedReplies.filter (·.messageID ≠ reply.messageID) ++ [reply]
      ({ s with pendingPersistedReplies := if pending.length > 16 then pending.tail else pending },
        .noop)

/-- `claimPendingPersistedReplies`: the entries after the replies, and those that still wait. -/
def claimPending : List PersistedReplyInput → List TimelineEntry →
    List TimelineEntry × List PersistedReplyInput
  | [], entries => (entries, [])
  | reply :: rest, entries =>
    if entries.any (hasSupabaseID reply.messageID) then claimPending rest entries
    else
      match stampReply T reply entries with
      | some entries => claimPending rest entries
      | none =>
        let (entries, waiting) := claimPending rest entries
        (entries, reply :: waiting)

/-! ## Messages of people -/

/-- `applyLive`. -/
def applyLive (input : LiveMessageInput) (s : TimelineState) : TimelineState × Effect :=
  if s.entries.any (·.id = some input.messageID) then (s, .noop)
  else
    let isLocal := fun e : TimelineEntry => input.clientLocalID.any fun c => e.clientID = some c
    if s.entries.any isLocal then
      let entries := updateFirst isLocal (fun e =>
        { e with id := some input.messageID, clientID := none, timestamp := input.createdAt }) s.entries
      ({ s with entries }, .entriesChanged)
    else
      ({ s with entries := s.entries ++ [{
          id := some input.messageID, eventType := .userPrompt, text := some input.content
          isComplete := true, senderActorID := some input.senderActorID, timestamp := input.createdAt
          replyToMessageID := input.replyToMessageID }] }, .entriesChanged)

/-- `applyLocal`. -/
def applyLocal (input : LocalPromptInput) (s : TimelineState) : TimelineState × Effect :=
  if s.entries.any (·.clientID = some input.clientID) then (s, .noop)
  else
    ({ s with entries := s.entries ++ [{
        eventType := .userPrompt, text := some input.content, isComplete := true
        senderActorID := some input.senderActorID, timestamp := input.createdAt
        clientID := some input.clientID, outboxMessageID := some input.clientID
        replyToMessageID := input.replyToMessageID }] }, .entriesChanged)

/-- `applyPermission`. -/
def applyPermission (input : PermissionResolutionInput) (s : TimelineState) : TimelineState × Effect :=
  if s.entries.any (isPermission input.requestID) then
    let entries := updateFirst (isPermission input.requestID)
      (fun e => { e with isComplete := true, success := some input.granted }) s.entries
    ({ s with entries }, .entriesChanged)
  else (s, .noop)

/-! ## Rows of the history -/

/-- The entry that was made for a row, and the row itself (`adoptAttachments`). -/
def adoptAttachments (input : HistoryInput) (e : TimelineEntry) : TimelineEntry :=
  { e with
    replyToMessageID := e.replyToMessageID.or input.replyToMessageID
    attachments := if e.attachments = [] then input.attachments else e.attachments }

/-- What each merge fills in. -/
def backfill (input : HistoryInput) (e : TimelineEntry) : TimelineEntry :=
  adoptAttachments input
    { e with model := e.model.or input.model, turnID := e.turnID.or input.turnID }

/-- The event type of the row. -/
def HistoryInput.eventType (input : HistoryInput) : EventType :=
  if input.isOutput then .output else .userPrompt

/-- The bubble of the outbox or of the live message. -/
def isOwnBubble (input : HistoryInput) (e : TimelineEntry) : Bool :=
  e.outboxMessageID = some input.supabaseMessageID || e.id = some input.supabaseMessageID

/-- An output of the same agent with the same text. -/
def isSameOutput (input : HistoryInput) (e : TimelineEntry) : Bool :=
  e.eventType = input.eventType && e.sender = input.senderActorID.getD [] &&
    e.text.any (T.same · input.content)

/-- A flushed fragment of the reply. -/
def isFragment (input : HistoryInput) (e : TimelineEntry) : Bool :=
  e.eventType = .output && e.supabaseMessageID = none && e.turnID = none &&
    e.sender = input.senderActorID.getD [] &&
    e.text.any (fun text => text ≠ [] && T.count text < T.count input.content &&
      T.hasPrefix input.content text) &&
    input.createdAt ≤ e.timestamp

/-- An entry of the same type and text without a stored id. -/
def isSameText (input : HistoryInput) (e : TimelineEntry) : Bool :=
  e.supabaseMessageID = none && e.eventType = input.eventType && e.text.any (T.same · input.content)

/-- `applyHistoryRow`. -/
def applyHistoryRow (input : HistoryInput) (entries : List TimelineEntry) : List TimelineEntry :=
  let claim := fun e : TimelineEntry =>
    { backfill input e with
      supabaseMessageID := some input.supabaseMessageID
      timestamp := if input.createdAt < e.timestamp then input.createdAt else e.timestamp }
  if entries.any (hasSupabaseID input.supabaseMessageID) then
    updateFirst (hasSupabaseID input.supabaseMessageID)
      (fun e => { backfill input e with timestamp := input.createdAt }) entries
  else if entries.any (isOwnBubble input) then updateFirst (isOwnBubble input) claim entries
  else if input.isOutput && entries.any (isSameOutput T input) then
    updateFirst (isSameOutput T input) (fun e =>
      { backfill input e with
        supabaseMessageID := e.supabaseMessageID.or (some input.supabaseMessageID) }) entries
  else if input.isOutput && entries.any (isFragment T input) then
    updateFirst (isFragment T input) (fun e =>
      { backfill input e with
        text := some input.content, timestamp := input.createdAt
        supabaseMessageID := some input.supabaseMessageID, turnID := input.turnID }) entries
  else if entries.any (isSameText T input) then updateFirst (isSameText T input) claim entries
  else
    let entry : TimelineEntry := {
      sequence := input.sequence.toNat, eventType := input.eventType, text := some input.content
      isComplete := true, senderActorID := input.senderActorID, timestamp := input.createdAt
      model := input.model, supabaseMessageID := some input.supabaseMessageID, turnID := input.turnID
      attachments := input.attachments, replyToMessageID := input.replyToMessageID }
    (entries ++ [entry]).insertionSort fun a b => a.timestamp ≤ b.timestamp

/-- `applyHistory`. -/
def applyHistory (input : HistoryInput) (s : TimelineState) : TimelineState × Effect :=
  let s := { s with entries := applyHistoryRow T input s.entries }
  let bucket := input.senderActorID.getD []
  if !input.isOutput || bucket = [] then (s, .entriesChanged)
  else if input.closesTurn && input.turnID.any (· ≠ []) &&
      s.streamingTurnIDByAgent[bucket]? = input.turnID then
    let entries := s.entries.map fun e =>
      if isOpenTool bucket e && e.turnID = input.turnID then { e with isComplete := true } else e
    ({ s.clearStreaming bucket with entries }, .entriesChanged)
  else
    let saved := s.streamingTextByAgent[bucket]?.getD []
    (if saved = [] || T.hasPrefix input.content saved then s.clearStreaming bucket else s,
      .entriesChanged)

/-! ## The reducer -/

/-- `ChatTimelineReducer.apply`. -/
def apply (input : TimelineInput) (s : TimelineState) : TimelineState :=
  let claim := fun (r : TimelineState × Effect) =>
    if r.2 = .entriesChanged then
      let (entries, waiting) := claimPending T r.1.pendingPersistedReplies r.1.entries
      { r.1 with entries, pendingPersistedReplies := waiting }
    else r.1
  match input with
  | .acp input => claim (applyAcp T input s)
  | .liveMessage input => claim (applyLive input s)
  | .historyMessage input => claim (applyHistory T input s)
  | .localPrompt input => claim (applyLocal input s)
  | .permissionResolution input => claim (applyPermission input s)
  | .persistedReply input => (applyPersistedReply T input s).1

end

end TeamClu.Timeline
