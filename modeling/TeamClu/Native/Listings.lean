import TeamClu.ForStd.Paging
import TeamClu.ForStd.Text

/-!
# The paged listings of the cloud API

`listMessages` and `listWorkspaces` of `services/fc/src/lib/supabase-repo.ts`, with the cursors of
`routing-utils.ts` and `routes/workspaces.ts`.  Of the database it is assumed that filters, orders and limits are
applied as written.  Timestamps and ids are of any linear order, and go through a cursor unchanged.
-/

namespace TeamClu.Listings

open Paging

variable {τ ι : Type} [LinearOrder τ] [LinearOrder ι]

/-- A row of `messages`. -/
structure MessageRow (τ ι : Type) where
  id : ι
  sessionId : Str
  createdAt : τ
  deriving DecidableEq

/-- The cursor of a message page. -/
structure MessageCursor (τ ι : Type) where
  createdAt : τ
  id : ι

/-- The key that messages are ordered by. -/
def MessageRow.key (row : MessageRow τ ι) : τ ×ₗ ι := toLex (row.createdAt, row.id)

/-- The keyset filter: an earlier timestamp, or the same one with a smaller id. -/
def MessageCursor.before (cursor : MessageCursor τ ι) (row : MessageRow τ ι) : Bool :=
  row.createdAt < cursor.createdAt || (row.createdAt = cursor.createdAt && row.id < cursor.id)

/-- The filters of the query. -/
def messageQuery (rows : List (MessageRow τ ι)) (sessionId : Str) :
    Option (MessageCursor τ ι) → List (MessageRow τ ι)
  | none => rows.filter (·.sessionId = sessionId)
  | some cursor => (rows.filter (·.sessionId = sessionId)).filter cursor.before

/-- `listMessages`: the newest rows below the cursor, oldest first. -/
def listMessages (rows : List (MessageRow τ ι)) (sessionId : Str) (limit : Nat)
    (cursor : Option (MessageCursor τ ι)) : List (MessageRow τ ι) :=
  ((newestFirst MessageRow.key (messageQuery rows sessionId cursor)).take limit).reverse

/-- `nextMessageCursor`: the oldest row of a full page. -/
def nextMessageCursor (items : List (MessageRow τ ι)) (limit : Nat) : Option (MessageCursor τ ι) :=
  if items.length < limit then none
  else items.head?.map fun oldest => { createdAt := oldest.createdAt, id := oldest.id }

/-- `GET /v1/sessions/:sessionId/messages`. -/
def getMessages (rows : List (MessageRow τ ι)) (sessionId : Str) (limit : Nat)
    (cursor : Option (MessageCursor τ ι)) : List (MessageRow τ ι) × Option (MessageCursor τ ι) :=
  let items := listMessages rows sessionId limit cursor
  (items, nextMessageCursor items limit)

/-- A row of `workspaces`. -/
structure WorkspaceRow (τ ι : Type) where
  id : ι
  teamId : Str
  agentId : Option Str
  updatedAt : τ
  deriving DecidableEq

/-- The cursor of a workspace page. -/
structure WorkspaceCursor (τ ι : Type) where
  updatedAt : τ
  id : ι

/-- The key that workspaces are ordered by. -/
def WorkspaceRow.key (row : WorkspaceRow τ ι) : τ ×ₗ ι := toLex (row.updatedAt, row.id)

/-- The workspaces of the team, and of the agent where one is asked for. -/
def WorkspaceRow.matches (teamId : Str) (agentId : Option Str) (row : WorkspaceRow τ ι) : Bool :=
  row.teamId = teamId && (agentId.getD [] = [] || row.agentId = agentId)

/-- The filters of the query.  The cursor's id is not read. -/
def workspaceQuery (rows : List (WorkspaceRow τ ι)) (teamId : Str) (agentId : Option Str) :
    Option (WorkspaceCursor τ ι) → List (WorkspaceRow τ ι)
  | none => rows.filter (·.matches teamId agentId)
  | some cursor => (rows.filter (·.matches teamId agentId)).filter (·.updatedAt < cursor.updatedAt)

/-- `listWorkspaces`; one row more than the page is asked for. -/
def listWorkspaces (rows : List (WorkspaceRow τ ι)) (teamId : Str) (limit : Nat)
    (cursor : Option (WorkspaceCursor τ ι)) (agentId : Option Str) : List (WorkspaceRow τ ι) :=
  ((newestFirst WorkspaceRow.key (workspaceQuery rows teamId agentId cursor)).take (limit + 1)).take limit

/-- `nextWorkspaceCursor`: the last row of a full page. -/
def nextWorkspaceCursor (items : List (WorkspaceRow τ ι)) (limit : Nat) : Option (WorkspaceCursor τ ι) :=
  if items.length < limit then none
  else items.getLast?.map fun last => { updatedAt := last.updatedAt, id := last.id }

/-- `GET /v1/workspaces`. -/
def getWorkspaces (rows : List (WorkspaceRow τ ι)) (teamId : Str) (limit : Nat) (agentId : Option Str)
    (cursor : Option (WorkspaceCursor τ ι)) : List (WorkspaceRow τ ι) × Option (WorkspaceCursor τ ι) :=
  let items := listWorkspaces rows teamId limit cursor agentId
  (items, nextWorkspaceCursor items limit)

end TeamClu.Listings
