import Mathlib.Algebra.Ring.Int.Defs
import TeamClu.ForStd.Machine
import TeamClu.ForStd.Text

/-!
# The read cursor of SeaTalk threads

`crates/teamclu-gateway/src/seatalk_cursor.rs`: `advance`, `note_reply` and `fold_read_ahead` over the
cursors of all threads, and `is_unread`, `select_unread` and `next_read_mark`.  A change stays in memory
whether or not the file could be saved, so the file and the result of the save are left out.

A run is a sequence of marks and noted replies.  `Threads` keeps, beside the cursors, which messages were
read; that is for the record.
-/

namespace TeamClu.SeaTalk

/-- `HistoryMessage`. -/
structure HistoryMessage where
  messageId : Str
  sentTime : Int
  sender : Str := []
  body : Str := []
  imageUrl : Option Str := none
  imageName : Option Str := none
  deriving DecidableEq

/-- `ReadAhead`. -/
structure ReadAhead where
  messageId : Str
  sentTime : Int
  deriving DecidableEq

/-- `StoredCursor`. -/
structure StoredCursor where
  sentTime : Int
  /-- The read messages that share `sentTime`. -/
  messageIds : List Str
  readAhead : List ReadAhead
  deriving DecidableEq

/-- `ReadMark`. -/
structure ReadMark where
  sentTime : Int
  messageIds : List Str
  deriving DecidableEq

/-- `i64::MIN`. -/
def minTime : Int := -(2 ^ 63)

/-- The entry of a thread without a cursor. -/
def newCursor : StoredCursor := { sentTime := minTime, messageIds := [], readAhead := [] }

/-- The cursors by thread key. -/
abbrev Cursors := Str → Option StoredCursor

/-- The cursors with another one for a thread. -/
def Cursors.set (cursors : Cursors) (key : Str) (cursor : StoredCursor) : Cursors :=
  fun k => if k = key then some cursor else cursors k

/-- The ids with one more, unless it is there. -/
def pushId (ids : List Str) (id : Str) : List Str := if id ∈ ids then ids else ids ++ [id]

/-- `fold_read_ahead`. -/
def foldReadAhead (entry : StoredCursor) : StoredCursor :=
  let folded := (entry.readAhead.filter (·.sentTime == entry.sentTime)).map (·.messageId)
  { entry with
    readAhead := entry.readAhead.filter (·.sentTime > entry.sentTime)
    messageIds := folded.foldl pushId entry.messageIds }

/-- `advance`. -/
def advance (cursors : Cursors) (key : Str) (sentTime : Int) (messageIds : List Str) : Cursors :=
  let entry := (cursors key).getD newCursor
  let moved :=
    if sentTime > entry.sentTime then { entry with sentTime, messageIds }
    else if sentTime = entry.sentTime then
      { entry with messageIds := messageIds.foldl pushId entry.messageIds }
    else entry
  cursors.set key (foldReadAhead moved)

/-- Whether the cursor has the reply already, or has passed it. -/
def StoredCursor.hasReply (entry : StoredCursor) (sentTime : Int) (messageId : Str) : Bool :=
  sentTime < entry.sentTime || entry.readAhead.any (·.messageId == messageId) ||
    (sentTime == entry.sentTime && entry.messageIds.any (· == messageId))

/-- `note_reply`. -/
def noteReply (cursors : Cursors) (key : Str) (sentTime : Int) (messageId : Str) : Cursors :=
  if sentTime ≤ 0 ∨ messageId = [] then cursors
  else if (cursors key).any (·.hasReply sentTime messageId) then cursors
  else
    let entry := (cursors key).getD newCursor
    if sentTime = entry.sentTime then
      cursors.set key { entry with messageIds := entry.messageIds ++ [messageId] }
    else cursors.set key { entry with readAhead := entry.readAhead ++ [{ messageId, sentTime }] }

/-- `is_unread`. -/
def isUnread (message : HistoryMessage) : Option StoredCursor → Bool
  | none => true
  | some cursor =>
    if cursor.readAhead.any (·.messageId == message.messageId) then false
    else if message.sentTime > cursor.sentTime then true
    else if message.sentTime = cursor.sentTime then
      !cursor.messageIds.any (· == message.messageId)
    else false

/-- The order of strings in Rust, which is that of their characters. -/
def textLe : Str → Str → Bool
  | [], _ => true
  | _ :: _, [] => false
  | c :: cs, d :: ds => if c = d then textLe cs ds else c.toNat < d.toNat

/-- The order in which unread messages are listed. -/
def sentBefore (a b : HistoryMessage) : Bool :=
  a.sentTime < b.sentTime || (a.sentTime == b.sentTime && textLe a.messageId b.messageId)

/-- `select_unread`: above the limit the newest messages are kept. -/
def selectUnread (page : List HistoryMessage) (cursor : Option StoredCursor) (exclude : List Str)
    (limit : Nat) : List HistoryMessage :=
  let unread := (page.filter fun message =>
    !exclude.contains message.messageId && isUnread message cursor).mergeSort sentBefore
  unread.drop (unread.length - limit)

/-- `consider` of `next_read_mark`: the newest time so far, and the ids at it. -/
def consider (best : Option ReadMark) (sentTime : Int) (messageId : Str) : Option ReadMark :=
  match best with
  | none => some { sentTime, messageIds := [messageId] }
  | some current =>
    if sentTime > current.sentTime then some { sentTime, messageIds := [messageId] }
    else if sentTime = current.sentTime then
      some { current with messageIds := pushId current.messageIds messageId }
    else some current

/-- `next_read_mark`. -/
def nextReadMark (currentId : Str) (currentSent : Option Int) (included : List HistoryMessage) :
    Option ReadMark :=
  let start := match currentSent with
    | some sentTime => consider none sentTime currentId
    | none => none
  included.foldl (fun best message => consider best message.sentTime message.messageId) start

/-! ## Runs -/

/-- A message id as it is parsed: not empty. -/
abbrev MessageId := { id : Str // id ≠ [] }

/-- The messages of SeaTalk, by their ids. -/
structure Mailbox where
  message : MessageId → HistoryMessage
  message_id : ∀ id, (message id).messageId = id.val
  sent_pos : ∀ id, 0 < (message id).sentTime

/-- What happens to the cursor of a thread. -/
inductive CursorInput where
  /-- A mention is persisted: the mark is that of the mention and of the batch that was chosen from a
      page, by the cursor as it was read then. -/
  | mark (key : Str) (current : MessageId) (seen : Option StoredCursor) (page : List MessageId)
      (exclude : List Str) (limit : Nat)
  /-- A reply of the bot was sent. -/
  | reply (key : Str) (id : MessageId)

/-- The thread of an input. -/
def CursorInput.key : CursorInput → Str
  | .mark key .. => key
  | .reply key _ => key

/-- The cursors, and for the record which messages of a thread were in a mark or noted as a reply. -/
structure Threads where
  cursors : Cursors := fun _ => none
  read : Str → List Str := fun _ => []

/-- The threads with more messages read in one of them. -/
def Threads.record (s : Threads) (key : Str) (ids : List Str) : Threads :=
  { s with read := fun k => if k = key then s.read k ++ ids else s.read k }

/-- One step of a run. -/
def cursorStep (mailbox : Mailbox) (s : Threads) : CursorInput → Threads
  | .mark key current seen page exclude limit =>
    let message := mailbox.message current
    let included := selectUnread (page.map mailbox.message) seen exclude limit
    let s := s.record key (message.messageId :: included.map (·.messageId))
    match nextReadMark message.messageId (some message.sentTime) included with
    | none => s
    | some mark => { s with cursors := advance s.cursors key mark.sentTime mark.messageIds }
  | .reply key id =>
    let message := mailbox.message id
    let s := s.record key [message.messageId]
    { s with cursors := noteReply s.cursors key message.sentTime message.messageId }

/-- The runs from no cursors. -/
def cursorMachine (mailbox : Mailbox) : Machine Threads CursorInput where
  init := {}
  step := cursorStep mailbox

end TeamClu.SeaTalk
