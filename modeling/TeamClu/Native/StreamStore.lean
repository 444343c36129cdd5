import TeamClu.ForStd.Assoc
import TeamClu.ForStd.Machine
import TeamClu.ForStd.Text

/-!
# The live transcript

The streaming store of `stores/v2-streaming-store.ts` as far as a turn streams into it, the parts of
`stores/v2-stream-parts.ts`, the prefix stripping of `lib/agent/agent-reply-transcript.ts` and the delta
buffer of `lib/stream/stream-delta-buffer.ts`.  Deltas are appended as they come (`mergeOverlap` is
false).

The times, the ids of text parts, the errors of an entry and the streams of subagents are left out:
nothing below reads them.
-/

namespace TeamClu.StreamStore

/-! ## Equivalent texts -/

/-- `text.replace(/\s+/g, " ")`; the flag is that the character before was white space. -/
def collapseWhiteSpace (inRun : Bool) : Str → Str
  | [] => []
  | c :: cs =>
    if Str.isJsWhiteSpace c then
      if inRun then collapseWhiteSpace true cs else ' ' :: collapseWhiteSpace true cs
    else c :: collapseWhiteSpace false cs

/-- `normalizeAgentReplyText`. -/
def normalizeAgentReplyText (text : Str) : Str := Str.jsTrim (collapseWhiteSpace false text)

/-- The punctuation that two bodies may differ by at the end. -/
def lightPunctuation : Str := ".,;:!?、。，；：！？…".toList

/-- `agentReplyTextsEquivalent`. -/
def agentReplyTextsEquivalent (a b : Str) : Bool :=
  if a = b then true
  else
    let na := normalizeAgentReplyText a
    let nb := normalizeAgentReplyText b
    if na = [] ∧ nb = [] then true
    else if na = [] ∨ nb = [] then false
    else if na = nb then true
    else
      let longer := if nb.length ≤ na.length then na else nb
      let shorter := if nb.length ≤ na.length then nb else na
      if shorter.isPrefixOf longer then
        (longer.drop shorter.length).all fun c => Str.isJsWhiteSpace c || decide (c ∈ lightPunctuation)
      else false

/-! ## Parts -/

/-- The status of a tool call. -/
inductive ToolStatus where
  | calling
  | waiting
  | completed
  | failed
  deriving DecidableEq, Repr

/-- A tool call; the structured values that are only passed on are kept as texts. -/
structure ToolCall where
  id : Str
  name : Str
  toolKind : Option Str := none
  acpStatus : Option Str := none
  content : Option Str := none
  locations : Option Str := none
  rawInput : Option Str := none
  rawOutput : Option Str := none
  status : ToolStatus
  arguments : List (Str × Str)
  result : Option Str := none
  deriving DecidableEq, Repr

/-- A part of a transcript; `other` stands for the kinds that a turn does not stream. -/
inductive MessagePart where
  | text (text : Str)
  | reasoning (text : Str)
  | toolCall (toolCallId : Str) (toolCall : ToolCall)
  | other (body : Str)
  deriving DecidableEq, Repr

/-- Whether the part is a tool call. -/
def MessagePart.isToolCall : MessagePart → Bool
  | .toolCall .. => true
  | _ => false

/-- `priorTextBodiesBeforeLastTool`. -/
def priorTextBodiesBeforeLastTool (parts : List MessagePart) : List Str :=
  let bodies := (parts.rdropWhile (!·.isToolCall)).filterMap fun
    | .text text => some (Str.jsTrim text)
    | _ => none
  bodies.filter (· ≠ [])

/-- `text.replace(/^\s*\n+\s*/, "")`. -/
def dropLeadingNewlines (text : Str) : Str :=
  if '\n' ∈ text.takeWhile Str.isJsWhiteSpace then text.dropWhile Str.isJsWhiteSpace else text

/-- The loop of `stripPriorTranscriptTextPrefix`: the text and whether a prefix was stripped; none is its
    early return of the empty text. -/
def stripPriors : List Str → Str → Bool → Option (Str × Bool)
  | [], text, strippedPrefix => some (text, strippedPrefix)
  | prior :: priorTexts, text, strippedPrefix =>
    if text = prior || agentReplyTextsEquivalent text prior then none
    else if prior.isPrefixOf text then
      stripPriors priorTexts (dropLeadingNewlines (text.drop prior.length)) true
    else stripPriors priorTexts text strippedPrefix

/-- `stripPriorTranscriptTextPrefix`. -/
def stripPriorTranscriptTextPrefix (parts : List MessagePart) (candidate : Str) : Str :=
  if candidate = [] then []
  else
    let priorTexts := priorTextBodiesBeforeLastTool parts
    if priorTexts = [] then candidate
    else
      let trimmed := Str.jsTrim candidate
      if trimmed = [] then []
      else
        match stripPriors priorTexts trimmed false with
        | none => []
        | some (text, strippedPrefix) =>
          let joinedPrior := "\n\n".toList.intercalate priorTexts
          if joinedPrior ≠ [] ∧ joinedPrior.isPrefixOf text then
            dropLeadingNewlines (text.drop joinedPrior.length)
          else if strippedPrefix then text
          else candidate

/-- `appendTextPart`. -/
def appendTextPart (parts : List MessagePart) (delta : Str) : List MessagePart :=
  match parts.getLast? with
  | some (.text text) => parts.dropLast ++ [.text (text ++ delta)]
  | _ => parts ++ [.text delta]

/-- `appendOutputToParts`. -/
def appendOutputToParts (parts : List MessagePart) (delta : Str) : List MessagePart :=
  let segmentDelta := stripPriorTranscriptTextPrefix parts delta
  if segmentDelta = [] then parts else appendTextPart parts segmentDelta

/-- `appendReasoningPart`. -/
def appendReasoningPart (parts : List MessagePart) (delta : Str) : List MessagePart :=
  match parts.getLast? with
  | some (.reasoning text) => parts.dropLast ++ [.reasoning (text ++ delta)]
  | _ => parts ++ [.reasoning delta]

/-- A tool use event. -/
structure ToolUse where
  toolId : Str
  toolName : Str := []
  description : Str := []
  params : List (Str × Str) := []
  toolKind : Option Str := none
  content : Option Str := none
  locations : Option Str := none
  acpStatus : Option Str := none
  rawInput : Option Str := none
  deriving DecidableEq

/-- A tool result event. -/
structure ToolResult where
  toolId : Str
  success : Bool
  summary : Str
  content : Option Str := none
  rawOutput : Option Str := none
  deriving DecidableEq

/-- A text that is not empty, as `||` picks it. -/
def truthy (text : Option Str) : Option Str := text.filter (· ≠ [])

/-- An object with the fields of a second one, which win. -/
def spread (fields later : List (Str × Str)) : List (Str × Str) :=
  fields.filter (fun field => !later.any (·.1 == field.1)) ++ later

/-- `toolUseArguments`. -/
def toolUseArguments (params : List (Str × Str)) (description : Str) : List (Str × Str) :=
  if description = [] then params else spread params [("_description".toList, description)]

/-- The tool call of the first use of a tool. -/
def ToolUse.newToolCall (use : ToolUse) : ToolCall :=
  { id := use.toolId
    name := if use.toolName = [] then "unknown".toList else use.toolName
    toolKind := truthy use.toolKind
    acpStatus := use.acpStatus
    content := use.content
    locations := use.locations
    rawInput := use.rawInput
    status := .calling
    arguments := toolUseArguments use.params use.description }

/-- `mergeToolUse`. -/
def mergeToolUse (existing : ToolCall) (use : ToolUse) : ToolCall :=
  let incomingName := Str.jsTrim use.toolName
  { existing with
    name :=
      if incomingName ≠ [] ∧ incomingName ≠ "unknown".toList then incomingName
      else if existing.name = [] then "unknown".toList else existing.name
    toolKind := (truthy use.toolKind).or existing.toolKind
    acpStatus := (truthy use.acpStatus).or existing.acpStatus
    content := use.content.or existing.content
    locations := use.locations.or existing.locations
    rawInput := use.rawInput.or existing.rawInput
    arguments := spread existing.arguments (toolUseArguments use.params use.description) }

/-- A tool call with its result. -/
def ToolResult.complete (result : ToolResult) (toolCall : ToolCall) : ToolCall :=
  { toolCall with
    status := if result.success then .completed else .failed
    result := some result.summary
    content := result.content.or toolCall.content
    rawOutput := result.rawOutput.or toolCall.rawOutput }

/-- `withCompletedTool`. -/
def withCompletedTool (toolCalls : List ToolCall) (result : ToolResult) : List ToolCall :=
  toolCalls.map fun tc => if tc.id = result.toolId then result.complete tc else tc

/-- `completedToolPlaceholder`. -/
def completedToolPlaceholder (result : ToolResult) : ToolCall :=
  { id := result.toolId
    name := "unknown".toList
    status := if result.success then .completed else .failed
    arguments := []
    result := some result.summary }

/-- `toolCallPart`. -/
def toolCallPart (toolCall : ToolCall) : MessagePart := .toolCall toolCall.id toolCall

/-- The last of the tool calls with the id, as a `Map` of them has it. -/
def byId (toolCalls : List ToolCall) (id : Str) : Option ToolCall :=
  toolCalls.reverse.find? (·.id == id)

/-- `syncToolParts`. -/
def syncToolParts (parts : List MessagePart) (toolCalls : List ToolCall) : List MessagePart :=
  parts.map fun
    | .toolCall toolCallId toolCall =>
      if toolCallId = [] then .toolCall toolCallId toolCall
      else .toolCall toolCallId ((byId toolCalls toolCallId).getD toolCall)
    | part => part

/-! ## The store -/

/-- A session and an actor. -/
abbrev Actor := Str × Str

/-- The key of an actor: `${sessionId}::${actorId}`. -/
def keyOf (actor : Actor) : Str := actor.1 ++ "::".toList ++ actor.2

/-- `AgentStreamEntry`. -/
structure Entry where
  actor : Actor
  outputText : Str := []
  thinkingText : Str := []
  parts : List MessagePart := []
  toolCalls : List ToolCall := []
  planEntries : List Str := []
  pendingPermissions : List (Str × Str) := []
  active : Bool := true
  deriving DecidableEq

/-- What kind of text a delta is of. -/
inductive StreamDeltaKind where
  | output
  | thinking
  deriving DecidableEq, Repr

/-- What arrives for the live entry of an actor, for the record. -/
inductive Arrival where
  | delta (kind : StreamDeltaKind) (text : Str)
  /-- A tool that the entry did not have. -/
  | tool (toolId : Str)
  /-- The result of a tool; new is one that the entry did not have. -/
  | result (toolId : Str) (isNew : Bool)
  deriving DecidableEq, Repr

/-- The store and the buffered deltas. -/
structure State where
  byKey : Str → Option Entry
  archived : List Entry
  /-- The buffered deltas by key, in the order in which the keys came. -/
  pending : List (Str × List (StreamDeltaKind × Str)) := []
  /-- What has arrived, in order. -/
  arrived : List (Actor × Arrival) := []

/-- `prepareMutation`: the entry to mutate, and the one to archive. -/
def prepareMutation (s : State) (actor : Actor) : Entry × Option Entry :=
  match s.byKey (keyOf actor) with
  | none => ({ actor }, none)
  | some existing => if existing.active then (existing, none) else ({ actor }, some existing)

/-- The store with another entry under the key. -/
def State.setEntry (s : State) (actor : Actor) (entry : Entry) : State :=
  { s with byKey := fun key => if key = keyOf actor then some entry else s.byKey key }

/-- The store with a change of the entry to mutate, which is active then. -/
def mutate (s : State) (actor : Actor) (f : Entry → Entry) : State :=
  let (entry, toArchive) := prepareMutation s actor
  { s.setEntry actor { f entry with active := true } with archived := s.archived ++ toArchive.toList }

/-- The entry with an output delta. -/
def Entry.withOutput (entry : Entry) (delta : Str) : Entry :=
  { entry with
    outputText := entry.outputText ++ delta
    parts := appendOutputToParts entry.parts delta }

/-- The entry with a thinking delta. -/
def Entry.withThinking (entry : Entry) (delta : Str) : Entry :=
  { entry with
    thinkingText := entry.thinkingText ++ delta
    parts := appendReasoningPart entry.parts delta }

/-- `appendOutput`. -/
def appendOutput (s : State) (actor : Actor) (delta : Str) : State :=
  if delta = [] then s else mutate s actor (·.withOutput delta)

/-- `appendThinking`. -/
def appendThinking (s : State) (actor : Actor) (delta : Str) : State :=
  if delta = [] then s else mutate s actor (·.withThinking delta)

/-- `appendOutputBatch`: the deltas that are not empty. -/
def appendOutputBatch (s : State) (actor : Actor) (deltas : List Str) : State :=
  let deltas := deltas.filter (· ≠ [])
  if deltas = [] then s else mutate s actor fun entry => deltas.foldl Entry.withOutput entry

/-- `appendThinkingBatch`. -/
def appendThinkingBatch (s : State) (actor : Actor) (deltas : List Str) : State :=
  let deltas := deltas.filter (· ≠ [])
  if deltas = [] then s else mutate s actor fun entry => deltas.foldl Entry.withThinking entry

/-- `pushToolUse`. -/
def pushToolUse (s : State) (actor : Actor) (use : ToolUse) : State :=
  if use.toolId = [] then s
  else
    mutate s actor fun entry =>
      if entry.toolCalls.any (·.id == use.toolId) then
        let toolCalls := entry.toolCalls.map fun tc =>
          if tc.id = use.toolId then mergeToolUse tc use else tc
        { entry with toolCalls, parts := syncToolParts entry.parts toolCalls }
      else
        { entry with
          toolCalls := entry.toolCalls ++ [use.newToolCall]
          parts := entry.parts ++ [toolCallPart use.newToolCall] }

/-- The entry with the result of one of its tools. -/
def Entry.complete (entry : Entry) (result : ToolResult) : Entry :=
  let toolCalls := withCompletedTool entry.toolCalls result
  { entry with toolCalls, parts := syncToolParts entry.parts toolCalls }

/-- The archived entries with the result, on the last one of the actor that has the tool. -/
def completeArchived (archived : List Entry) (actor : Actor) (result : ToolResult) :
    Option (List Entry) :=
  let has := fun entry : Entry => entry.actor == actor && entry.toolCalls.any (·.id == result.toolId)
  let after := archived.reverse.takeWhile (!has ·)
  match archived.reverse.dropWhile (!has ·) with
  | [] => none
  | entry :: before => some (before.reverse ++ entry.complete result :: after.reverse)

/-- `completeToolUse`. -/
def completeToolUse (s : State) (actor : Actor) (result : ToolResult) : State :=
  if result.toolId = [] then s
  else
    match s.byKey (keyOf actor) with
    | some existing =>
      if existing.toolCalls.any (·.id == result.toolId) then
        s.setEntry actor (existing.complete result)
      else
        match completeArchived s.archived actor result with
        | some archived => { s with archived }
        | none =>
          let placeholder := completedToolPlaceholder result
          s.setEntry actor { existing with
            toolCalls := existing.toolCalls ++ [placeholder]
            parts := existing.parts ++ [toolCallPart placeholder] }
    | none =>
      match completeArchived s.archived actor result with
      | some archived => { s with archived }
      | none => s

/-- `setPermissionRequest`. -/
def setPermissionRequest (s : State) (actor : Actor) (requestId req : Str) : State :=
  if Str.jsTrim requestId = [] then s
  else
    mutate s actor fun entry =>
      { entry with pendingPermissions := spread entry.pendingPermissions [(Str.jsTrim requestId, req)] }

/-- `setPlan`. -/
def setPlan (s : State) (actor : Actor) (entries : List Str) : State :=
  mutate s actor fun entry =>
    { entry with planEntries := if entries ≠ [] then entries else entry.planEntries }

/-! ## The buffer -/

/-- `bufferStreamDelta`. -/
def bufferStreamDelta (s : State) (kind : StreamDeltaKind) (actor : Actor) (delta : Str) : State :=
  if delta = [] then s
  else if s.pending.any (·.1 == keyOf actor) then
    { s with pending := Assoc.update (keyOf actor) (· ++ [(kind, delta)]) s.pending }
  else { s with pending := s.pending ++ [(keyOf actor, [(kind, delta)])] }

/-- `emit` of `applyBuffered`: a run of deltas of one kind. -/
def emit (s : State) (actor : Actor) (run : Option (StreamDeltaKind × List Str)) : State :=
  match run with
  | none => s
  | some (.output, deltas) => appendOutputBatch s actor deltas
  | some (.thinking, deltas) => appendThinkingBatch s actor deltas

/-- The loop of `applyBuffered`, with the run that is collected. -/
def applyRuns (s : State) (actor : Actor) (run : Option (StreamDeltaKind × List Str)) :
    List (StreamDeltaKind × Str) → State
  | [] => emit s actor run
  | (kind, delta) :: list =>
    match run with
    | some (runKind, deltas) =>
      if kind = runKind then applyRuns s actor (some (runKind, deltas ++ [delta])) list
      else applyRuns (emit s actor run) actor (some (kind, [delta])) list
    | none => applyRuns s actor (some (kind, [delta])) list

/-- `applyBuffered`. -/
def applyBuffered (s : State) (actor : Actor) (list : List (StreamDeltaKind × Str)) : State :=
  applyRuns s actor none list

/-- `flushStreamDeltasFor`. -/
def flushStreamDeltasFor (s : State) (actor : Actor) : State :=
  match s.pending.lookup (keyOf actor) with
  | none => s
  | some list =>
    applyBuffered { s with pending := s.pending.filter (·.1 != keyOf actor) } actor list

/-- `flushAllStreamDeltas`: the actor is read back from the key. -/
def flushAllStreamDeltas (s : State) : State :=
  s.pending.foldl (fun s (key, list) =>
    match Str.splitOnce "::".toList key with
    | some actor => applyBuffered s actor list
    | none => s) { s with pending := [] }

/-! ## Runs -/

/-- What happens next. -/
inductive StreamInput where
  | buffer (kind : StreamDeltaKind) (actor : Actor) (delta : Str)
  | flushFor (actor : Actor)
  | flushAll
  | appendOutput (actor : Actor) (delta : Str)
  | appendThinking (actor : Actor) (delta : Str)
  | pushToolUse (actor : Actor) (use : ToolUse)
  | completeToolUse (actor : Actor) (result : ToolResult)
  | setPermissionRequest (actor : Actor) (requestId req : Str)
  | setPlan (actor : Actor) (entries : List Str)

/-- Whether the live entry of the actor has the tool. -/
def State.hasTool (s : State) (actor : Actor) (toolId : Str) : Bool :=
  (prepareMutation s actor).1.toolCalls.any (·.id == toolId)

/-- What an input brings to the live entry of its actor. -/
def StreamInput.arrival (s : State) : StreamInput → Option (Actor × Arrival)
  | .buffer kind actor delta => if delta = [] then none else some (actor, .delta kind delta)
  | .appendOutput actor delta => if delta = [] then none else some (actor, .delta .output delta)
  | .appendThinking actor delta => if delta = [] then none else some (actor, .delta .thinking delta)
  | .pushToolUse actor use =>
    if use.toolId = [] || s.hasTool actor use.toolId then none else some (actor, .tool use.toolId)
  | .completeToolUse actor result =>
    match s.byKey (keyOf actor) with
    | some existing =>
      if result.toolId = [] || !existing.active then none
      else if existing.toolCalls.any (·.id == result.toolId) then
        some (actor, .result result.toolId false)
      else if (completeArchived s.archived actor result).isSome then none
      else some (actor, .result result.toolId true)
    | none => none
  | _ => none

/-- What an input does to the store and the buffer. -/
def streamEffect (s : State) : StreamInput → State
  | .buffer kind actor delta => bufferStreamDelta s kind actor delta
  | .flushFor actor => flushStreamDeltasFor s actor
  | .flushAll => flushAllStreamDeltas s
  | .appendOutput actor delta => StreamStore.appendOutput s actor delta
  | .appendThinking actor delta => StreamStore.appendThinking s actor delta
  | .pushToolUse actor use => StreamStore.pushToolUse s actor use
  | .completeToolUse actor result => StreamStore.completeToolUse s actor result
  | .setPermissionRequest actor requestId req => StreamStore.setPermissionRequest s actor requestId req
  | .setPlan actor entries => StreamStore.setPlan s actor entries

/-- One step: the effect, and the record of what arrived. -/
def streamStep (s : State) (input : StreamInput) : State :=
  streamEffect { s with arrived := s.arrived ++ (input.arrival s).toList } input

/-- The store at the start of a turn, over the entries of earlier turns. -/
def streamMachine (byKey : Str → Option Entry) (archived : List Entry) :
    Machine State StreamInput where
  init := { byKey, archived }
  step := streamStep

end TeamClu.StreamStore
