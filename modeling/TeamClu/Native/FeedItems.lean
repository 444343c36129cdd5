import Std.Data.ExtTreeMap
import Mathlib.Data.Char
import Mathlib.Data.Finset.Sort
import Mathlib.Data.List.Lex
import TeamClu.ForStd.FirstMatch
import TeamClu.ForStd.StableSort
import TeamClu.ForStd.Text

/-!
# The chat feed of the iOS app

`buildFeedItems` of `FeedItem.swift` in `AMUXCore`: a walk over the events, the running cards at the end, and two
passes that put the permission requests back.  Ids and keys are compared as they are.  The order in which Swift
lists a set is not specified, so it is a parameter (`SetOrder`).
-/

namespace TeamClu.Feed

/-- What the feed reads of an `AgentEvent`. -/
structure AgentEvent where
  id : Str
  eventType : Str
  isComplete : Bool
  senderActorID : Option Str
  turnID : Option Str
  deriving DecidableEq, Repr

/-- A row of the feed. -/
inductive FeedItem where
  | userMessage (event : AgentEvent)
  | activeStream (id agentID : Str) (runtimeEvents : List AgentEvent)
  | completedTurn (id agentID : Str) (finalEvent : AgentEvent) (runtimeEvents : List AgentEvent)
  | permission (event : AgentEvent)
  | todo (event : AgentEvent)
  | error (event : AgentEvent)
  deriving DecidableEq, Repr

/-- `id` of a row. -/
def FeedItem.id : FeedItem → Str
  | userMessage e => "user-".toList ++ e.id
  | activeStream id _ _ => id
  | completedTurn id _ _ _ => id
  | permission e => "perm-".toList ++ e.id
  | todo e => "todo-".toList ++ e.id
  | error e => "err-".toList ++ e.id

/-- The labels of the `switch` over `eventType`. -/
inductive EventKind where
  | userPrompt
  | permissionRequest
  | planUpdate
  | error
  | runtime
  | output
  | other
  deriving DecidableEq, Repr

/-- The label that `eventType` meets. -/
def AgentEvent.kind (event : AgentEvent) : EventKind :=
  if event.eventType = "user_prompt".toList then .userPrompt
  else if event.eventType = "permission_request".toList then .permissionRequest
  else if event.eventType = "plan_update".toList then .planUpdate
  else if event.eventType = "error".toList then .error
  else if event.eventType = "thinking".toList then .runtime
  else if event.eventType = "tool_use".toList then .runtime
  else if event.eventType = "tool_result".toList then .runtime
  else if event.eventType = "output".toList then .output
  else .other

/-- `ownerFor`. -/
def ownerFor (event : AgentEvent) : Str :=
  let raw := event.senderActorID.getD []
  if raw = [] then "(unattributed)".toList else raw

/-- `event.turnID ?? ""`. -/
def AgentEvent.turn (event : AgentEvent) : Str := event.turnID.getD []

/-- `turnKey`. -/
def turnKey (owner : Str) (turnID : Option Str) : Option Str :=
  match turnID with
  | some t => if t = [] then none else some (owner ++ '|' :: t)
  | none => none

/-! ## The walk over the events -/

/-- The variables of the walk. -/
structure FeedWalk where
  openTurnsByAgent : Std.ExtTreeMap Str (List AgentEvent) := ∅
  openTurnFirstEventID : Std.ExtTreeMap Str Str := ∅
  openTurnTurnIDByAgent : Std.ExtTreeMap Str Str := ∅
  completedTurnIndexByKey : Std.ExtTreeMap Str Nat := ∅
  result : List FeedItem := []

namespace FeedWalk

/-- `recordOpenTurn`. -/
def recordOpenTurn (w : FeedWalk) (event : AgentEvent) (owner : Str) : FeedWalk :=
  { w with
    openTurnsByAgent :=
      w.openTurnsByAgent.insert owner (w.openTurnsByAgent[owner]?.getD [] ++ [event])
    openTurnFirstEventID :=
      if w.openTurnFirstEventID[owner]? = none then w.openTurnFirstEventID.insert owner event.id
      else w.openTurnFirstEventID
    openTurnTurnIDByAgent :=
      if w.openTurnTurnIDByAgent[owner]? = none ∧ event.turn ≠ [] then
        w.openTurnTurnIDByAgent.insert owner event.turn
      else w.openTurnTurnIDByAgent }

/-- `turnID` of the row that a complete output opens. -/
def rowTurnID (event : AgentEvent) : Str :=
  if event.turn ≠ [] then event.turn else "turn-".toList ++ event.id

/-- A complete output without an earlier row of its turn. -/
def openBubble (w : FeedWalk) (event : AgentEvent) (owner : Str) (runtime : List AgentEvent) :
    FeedWalk :=
  { w with
    result := w.result ++ [.completedTurn (rowTurnID event) owner event runtime]
    completedTurnIndexByKey :=
      match turnKey owner event.turnID with
      | some key => w.completedTurnIndexByKey.insert key w.result.length
      | none => w.completedTurnIndexByKey }

/-- The open turn of the agent is over. -/
def forgetOpenTurn (w : FeedWalk) (owner : Str) : FeedWalk :=
  { w with
    openTurnsByAgent := w.openTurnsByAgent.erase owner
    openTurnFirstEventID := w.openTurnFirstEventID.erase owner
    openTurnTurnIDByAgent := w.openTurnTurnIDByAgent.erase owner }

/-- A complete output: it goes into the row of its turn, or opens one. -/
def closeTurn (w : FeedWalk) (event : AgentEvent) (owner : Str) : FeedWalk :=
  let runtime := w.openTurnsByAgent[owner]?.getD []
  let w := w.forgetOpenTurn owner
  match (turnKey owner event.turnID).bind (w.completedTurnIndexByKey[·]?) with
  | some idx =>
    match w.result[idx]? with
    | some (.completedTurn existingID existingAgent oldFinal oldRuntime) =>
      { w with
        result := w.result.set idx
          (.completedTurn existingID existingAgent event (oldRuntime ++ [oldFinal] ++ runtime)) }
    | _ => w.openBubble event owner runtime
  | none => w.openBubble event owner runtime

/-- A row of its own. -/
def push (w : FeedWalk) (row : FeedItem) : FeedWalk := { w with result := w.result ++ [row] }

/-- One event of the walk. -/
def step (w : FeedWalk) (event : AgentEvent) : FeedWalk :=
  let owner := ownerFor event
  match event.kind with
  | .userPrompt => w.push (.userMessage event)
  | .permissionRequest => w.push (.permission event)
  | .planUpdate => w.push (.todo event)
  | .error => w.push (.error event)
  | .runtime => w.recordOpenTurn event owner
  | .output =>
    if event.isComplete then w.closeTurn event owner else w.recordOpenTurn event owner
  | .other => w.push (.userMessage event)

end FeedWalk

/-- The `for` loop over the events. -/
def walk (events : List AgentEvent) : FeedWalk := events.foldl FeedWalk.step {}

/-! ## The running cards -/

/-- The order in which Swift lists the elements of a set. -/
structure SetOrder where
  list : Finset Str → List Str
  nodup : ∀ s, (list s).Nodup
  mem : ∀ s a, a ∈ list s ↔ a ∈ s

/-- Every set in the order of its elements. -/
def sortedSets : SetOrder := ⟨fun s => s.sort (· ≤ ·), fun s => by simp, fun s a => by simp⟩

namespace FeedWalk

/-- `ordered`: the live agents by the id of the first event of their open turns. -/
def ordered (w : FeedWalk) (sets : SetOrder) (streamingAgentIDs : Finset Str) : List Str :=
  (sets.list (w.openTurnsByAgent.keys.toFinset ∪ streamingAgentIDs)).mergeSort
    (StableSort.keyLe fun a => w.openTurnFirstEventID[a]?.getD a)

/-- The row that the open turn of an agent takes up again, with its events. -/
def folded (w : FeedWalk) (agentID : Str) : Option (Nat × List AgentEvent) := do
  let turnID ← w.openTurnTurnIDByAgent[agentID]?
  let key ← turnKey agentID (some turnID)
  let idx ← w.completedTurnIndexByKey[key]?
  match w.result[idx]? with
  | some (.completedTurn _ _ oldFinal oldRuntime) => some (idx, oldRuntime ++ [oldFinal])
  | _ => none

/-- The card of an agent at the end of the feed. -/
def trailing (w : FeedWalk) (agentID : Str) : FeedItem :=
  .activeStream ("stream-".toList ++ agentID) agentID
    (((w.folded agentID).map (·.2)).getD [] ++ w.openTurnsByAgent[agentID]?.getD [])

/-- The rows once the running cards are there. -/
def withTrailing (w : FeedWalk) (sets : SetOrder) (streamingAgentIDs : Finset Str) : List FeedItem :=
  let ordered := w.ordered sets streamingAgentIDs
  let foldedIndices := ordered.filterMap fun agentID => (w.folded agentID).map (·.1)
  FirstMatch.takeOut foldedIndices w.result ++ ordered.map w.trailing

end FeedWalk

/-! ## The permission requests -/

/-- Whether a row is the card that `turnAnchor` looks for. -/
def anchors (event : AgentEvent) (item : FeedItem) : Bool :=
  let turnID := event.turn
  let owner := ownerFor event
  match item with
  | .completedTurn id agentID final _ =>
    if turnID = [] then agentID == owner else final.turnID == some turnID || id == turnID
  | .activeStream _ agentID _ => agentID == owner
  | _ => false

/-- `turnAnchor`. -/
def turnAnchor (event : AgentEvent) (items : List FeedItem) : Option Nat :=
  items.findIdx? (anchors event)

/-- Whether a row is a permission request. -/
def FeedItem.isPermission : FeedItem → Bool
  | permission _ => true
  | _ => false

/-- A card with one more runtime event. -/
def FeedItem.addRuntime (event : AgentEvent) : FeedItem → FeedItem
  | completedTurn id agentID final runtime => completedTurn id agentID final (runtime ++ [event])
  | activeStream id agentID runtime => activeStream id agentID (runtime ++ [event])
  | item => item

/-- Some requests lifted out, each with the number of the rows kept before it, and the rows kept. -/
def liftOut (lifts : AgentEvent → Bool) (items : List FeedItem) :
    List (AgentEvent × Nat) × List FeedItem :=
  items.foldl (fun acc item =>
    match item with
    | .permission event =>
      if lifts event then (acc.1 ++ [(event, acc.2.length)], acc.2) else (acc.1, acc.2 ++ [item])
    | _ => (acc.1, acc.2 ++ [item])) ([], [])

/-- A request goes back to where it was. -/
def putBack (result : List FeedItem) (event : AgentEvent) (fallbackIndex : Nat) : List FeedItem :=
  result.insertIdx (min fallbackIndex result.length) (.permission event)

/-- An answered request goes into the card of its turn. -/
def placeAnswered (result : List FeedItem) (entry : AgentEvent × Nat) : List FeedItem :=
  match turnAnchor entry.1 result with
  | none => putBack result entry.1 entry.2
  | some anchor => result.modify anchor (FeedItem.addRuntime entry.1)

/-- The `while` loop behind an anchor: where the requests under the card end. -/
def runEnd (result : List FeedItem) (target : Nat) : Nat :=
  target + ((result.drop target).takeWhile FeedItem.isPermission).length

/-- A waiting request goes into the card of its turn, and below it. -/
def placePending (result : List FeedItem) (entry : AgentEvent × Nat) : List FeedItem :=
  match turnAnchor entry.1 result with
  | none => putBack result entry.1 entry.2
  | some anchor =>
    let result := result.modify anchor (FeedItem.addRuntime entry.1)
    result.insertIdx (runEnd result (anchor + 1)) (.permission entry.1)

/-- The answered requests leave the feed. -/
def foldAnswered (items : List FeedItem) : List FeedItem :=
  let (answered, unanswered) := liftOut (·.isComplete) items
  answered.foldl placeAnswered unanswered

/-- The other requests go under the cards of their turns. -/
def placeRequests (items : List FeedItem) : List FeedItem :=
  let (pendingRows, placed) := liftOut (fun _ => true) items
  pendingRows.foldl placePending placed

/-- `buildFeedItems`. -/
def buildFeedItems (sets : SetOrder) (events : List AgentEvent) (streamingAgentIDs : Finset Str) :
    List FeedItem :=
  placeRequests (foldAnswered ((walk events).withTrailing sets streamingAgentIDs))

end TeamClu.Feed
