import TeamClu.ForStd.Text

/-!
# The message list of a session

`stores/session-message-store.ts`: `appendMessage` and `replaceTurnAgentRepliesInStore` on the list of one
session, with the merge of `lib/messages/merge-turn-agent-reply.ts`.  How the texts and the metadata of two
replies are merged is a parameter; neither touches another field.

A run is a sequence of deliveries, each through one of the two operations.
-/

namespace TeamClu.MessageStore

/-- `MessageKind`. -/
inductive MessageKind
  | unknown | text | system | workEvent | agentThinking | agentToolCall | agentToolResult | agentReply
  deriving DecidableEq, Repr

/-- A message; `createdAt` is in whole seconds. -/
structure Message where
  messageId : Str
  turnId : Str
  senderActorId : Str
  kind : MessageKind
  createdAt : Int
  content : Str
  metadataJson : Str
  attachmentUrls : List Str
  partsJson : Option Str
  deriving DecidableEq

/-- How the text and the metadata of two replies of a turn are merged. -/
structure Merges where
  reconcileEquivalentAgentReplyText : Str → Str → Str
  mergeMetadataJson : Str → Str → Str

/-- `protoPartsJson`. -/
def protoPartsJson (m : Message) : Str := Str.jsTrim (m.partsJson.getD [])

/-- `mergeTurnAgentReplyProto`. -/
def mergeTurnAgentReplyProto (merges : Merges) (existing incoming : Message) : Message :=
  let partsJson :=
    if protoPartsJson incoming ≠ [] then protoPartsJson incoming else protoPartsJson existing
  { incoming with
    content := merges.reconcileEquivalentAgentReplyText existing.content incoming.content
    metadataJson := merges.mergeMetadataJson existing.metadataJson incoming.metadataJson
    attachmentUrls :=
      if incoming.attachmentUrls ≠ [] then incoming.attachmentUrls else existing.attachmentUrls
    partsJson := if partsJson ≠ [] then some partsJson else none }

/-- The loop of `insertProtoMessageSorted`: where the search among rows that are later or not ends. -/
def searchUpperBound {α : Type} (later : α → Bool) (rows : List α) (lo hi : Nat) : Nat :=
  if lo < hi then
    let mid := (lo + hi) / 2
    match rows[mid]? with
    | none => lo
    | some row =>
      if later row then searchUpperBound later rows lo mid else searchUpperBound later rows (mid + 1) hi
  else lo
termination_by hi - lo
decreasing_by all_goals omega

/-- `insertProtoMessageSorted`. -/
def insertProtoMessageSorted (messages : List Message) (message : Message) : List Message :=
  if messages.any (·.messageId == message.messageId) then messages
  else if messages.length = 0 then [message]
  else
    let lo := searchUpperBound (fun row => message.createdAt < row.createdAt) messages 0 messages.length
    messages.take lo ++ message :: messages.drop lo

/-- `appendMessage`. -/
def appendMessage (cur : List Message) (message : Message) : List Message :=
  if cur.any (·.messageId == message.messageId) then cur else cur ++ [message]

/-- Whether the row is an agent reply of the turn. -/
def Message.inTurn (turnId senderActorId : Str) (row : Message) : Bool :=
  row.turnId == turnId && row.senderActorId == senderActorId && row.kind == .agentReply

/-- Whether the message is an agent reply with a turn and a sender. -/
def Message.isTurnReply (message : Message) : Bool :=
  Str.jsTrim message.turnId != [] && Str.jsTrim message.senderActorId != [] &&
    message.kind == .agentReply

/-- `merged`: the reply with the first of the turn that has parts, or else the last, merged into it. -/
def mergedReply (merges : Merges) (existingInTurn : List Message) (message : Message) : Message :=
  match (existingInTurn.find? (protoPartsJson · != [])).or existingInTurn.getLast? with
  | some prior => mergeTurnAgentReplyProto merges prior message
  | none => message

/-- `replaceTurnAgentRepliesInStore`: one synthesized reply per turn. -/
def replaceTurnAgentRepliesInStore (merges : Merges) (cur : List Message) (message : Message) :
    List Message :=
  let turnId := Str.jsTrim message.turnId
  let senderActorId := Str.jsTrim message.senderActorId
  if message.isTurnReply = false then appendMessage cur message
  else
    let existingInTurn := cur.filter (·.inTurn turnId senderActorId)
    let rest := cur.filter (!·.inTurn turnId senderActorId)
    let merged := mergedReply merges existingInTurn message
    let withoutSameId := rest.filter (·.messageId != merged.messageId)
    insertProtoMessageSorted withoutSameId merged

/-- One delivery. -/
inductive Op
  | append (message : Message)
  | replace (message : Message)

/-- The message delivered. -/
def Op.message : Op → Message
  | .append message => message
  | .replace message => message

/-- One delivery, to the list of the session. -/
def step (merges : Merges) (cur : List Message) : Op → List Message
  | .append message => appendMessage cur message
  | .replace message => replaceTurnAgentRepliesInStore merges cur message

/-- The list after the deliveries, from the empty list. -/
def run (merges : Merges) (ops : List Op) : List Message := ops.foldl (step merges) []

@[simp] theorem run_concat (merges : Merges) (ops : List Op) (op : Op) :
    run merges (ops ++ [op]) = step merges (run merges ops) op := by
  rw [run, List.foldl_append]
  rfl

end TeamClu.MessageStore
