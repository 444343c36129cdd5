import Mathlib.Algebra.Ring.Int.Defs
import Mathlib.Data.List.Lex
import Mathlib.Order.Nat
import TeamClu.ForStd.AsyncProgram
import TeamClu.ForStd.JsonText
import TeamClu.ForStd.OrderedMap
import TeamClu.ForStd.StableSort

/-!
# The message cache of the browser extension

`lib/extension/message-cache`: `evict.ts`, `types.ts` and `index.ts`.  The messages of each session are one
value of `chrome.storage.local`, and one more value has the sizes and times of access of the sessions and
the session of each message.  The key of a session is never the key of the metadata, so the two kinds of
values are two fields of `Storage`.

Each function awaits its calls to the storage, and other functions run in between: they are programs over
`calls`.  `Date.now` is a call too, whose result the environment chooses.  The storage is there and its
writes succeed; a read may fail, and then nothing is read.  Ids are not property names that every object has, and not array indices, so an object is
an `OrderedMap`.
-/

namespace TeamClu.MessageCache

/-- A property that may be absent, `null` or a text. -/
abbrev Property := Option (Option Str)

/-- `MessageRow`. -/
structure MessageRow where
  id : Str
  teamId : Str
  sessionId : Str
  turnId : Property
  senderActorId : Property
  replyToMessageId : Property
  kind : Str
  content : Str
  metadataJson : Property
  model : Property
  mentionsJson : Property
  origin : Str
  createdAt : Str
  updatedAt : Str
  deletedAt : Property
  syncedAt : Str
  partsJson : Property
  deriving DecidableEq

/-- `SessionMeta`. -/
structure SessionMeta where
  lastAccessAt : Nat
  bytes : Nat
  deriving DecidableEq

/-- `ExtensionMessageCacheMeta`; the version is always 1. -/
structure ExtensionMessageCacheMeta where
  sessions : OrderedMap Str SessionMeta
  idIndex : OrderedMap Str Str
  deriving DecidableEq

/-! ## `types.ts` -/

/-- `MAX_SESSIONS`. -/
def MAX_SESSIONS : Nat := 20

/-- `MAX_BYTES`. -/
def MAX_BYTES : Nat := 6 * 1024 * 1024

/-- `emptyMeta`. -/
def emptyMeta : ExtensionMessageCacheMeta := { sessions := .empty, idIndex := .empty }

/-- A property in `JSON.stringify`, if it is there. -/
def Property.json (name : String) (p : Property) : List Str :=
  match p with
  | none => []
  | some value => [JsonText.strText name.toList ++ ':' :: JsonText.optStrText value]

/-- A text property in `JSON.stringify`. -/
def textJson (name : String) (value : Str) : List Str := Property.json name (some (some value))

/-- `JSON.stringify` of a row. -/
def MessageRow.json (r : MessageRow) : Str :=
  '{' :: [','].intercalate (textJson "id" r.id ++ textJson "teamId" r.teamId ++
    textJson "sessionId" r.sessionId ++ Property.json "turnId" r.turnId ++
    Property.json "senderActorId" r.senderActorId ++
    Property.json "replyToMessageId" r.replyToMessageId ++ textJson "kind" r.kind ++
    textJson "content" r.content ++ Property.json "metadataJson" r.metadataJson ++
    Property.json "model" r.model ++ Property.json "mentionsJson" r.mentionsJson ++
    textJson "origin" r.origin ++ textJson "createdAt" r.createdAt ++
    textJson "updatedAt" r.updatedAt ++ Property.json "deletedAt" r.deletedAt ++
    textJson "syncedAt" r.syncedAt ++ Property.json "partsJson" r.partsJson) ++ ['}']

/-- `estimateBytes`: the UTF-8 bytes of `JSON.stringify` of the rows. -/
def estimateBytes (rows : List MessageRow) : Nat :=
  Str.utf8Len ('[' :: [','].intercalate (rows.map MessageRow.json) ++ [']'])

/-! ## `evict.ts` -/

/-- The loop of `pickSessionsToEvict`. -/
def pickVictims (maxSessions maxBytes : Nat) :
    List (Str × SessionMeta) → Nat → Int → List Str
  | [], _, _ => []
  | (sessionId, info) :: rest, sessionCount, totalBytes =>
    if sessionCount ≤ maxSessions ∧ totalBytes ≤ maxBytes then []
    else sessionId :: pickVictims maxSessions maxBytes rest (sessionCount - 1) (totalBytes - info.bytes)

/-- `pickSessionsToEvict`. -/
def pickSessionsToEvict (info : ExtensionMessageCacheMeta) (maxSessions maxBytes : Nat)
    (protectSessionId : Option Str) : List Str :=
  let protect := (protectSessionId.map Str.jsTrim).filter (· ≠ [])
  let sorted := (info.sessions.entries.filter fun e => some e.1 ≠ protect).mergeSort
    (StableSort.keyLe fun e => e.2.lastAccessAt)
  pickVictims maxSessions maxBytes sorted info.sessions.keys.length
    (info.sessions.values.map fun session => (session.bytes : Int)).sum

/-- `applyEvictionToMeta`: the metadata without the sessions. -/
def applyEvictionToMeta (info : ExtensionMessageCacheMeta) (sessionIds : List Str) :
    ExtensionMessageCacheMeta :=
  { sessions := info.sessions.filter fun e => e.1 ∉ sessionIds
    idIndex := info.idIndex.filter fun e => e.2 ∉ sessionIds }

/-! ## The storage -/

/-- `chrome.storage.local`: the metadata, and the rows of each session. -/
structure Storage where
  info : Option ExtensionMessageCacheMeta
  blobs : OrderedMap Str (List MessageRow)
  deriving DecidableEq

/-- The calls: `get` and `set` of the metadata, `get` of the rows of a session, `set` of both, `remove` of
    the rows of sessions, and `Date.now`. -/
inductive StorageCall
  | getMeta
  | getRows (sessionId : Str)
  | setMeta (info : ExtensionMessageCacheMeta)
  | setRows (sessionId : Str) (rows : List MessageRow) (info : ExtensionMessageCacheMeta)
  | remove (sessionIds : List Str)
  | now

/-- What a call returns. -/
def StorageCall.Res : StorageCall → Type
  | getMeta => ExtensionMessageCacheMeta
  | getRows _ => List MessageRow
  | now => Nat
  | _ => Unit

/-- What the environment chooses at a call: the time of the clock, and whether a read fails. -/
structure Choice where
  time : Nat
  readFails : Bool

/-- What a call does.  A read that fails is caught: there is no metadata, or there are no rows. -/
def StorageCall.step : (op : StorageCall) → Choice → Storage → op.Res × Storage
  | getMeta, c, s => (if c.readFails then emptyMeta else s.info.getD emptyMeta, s)
  | getRows sessionId, c, s => (if c.readFails then [] else (s.blobs.get sessionId).getD [], s)
  | setMeta info, _, s => ((), { s with info := some info })
  | setRows sessionId rows info, _, s =>
    ((), { info := some info, blobs := s.blobs.put sessionId rows })
  | remove sessionIds, _, s => ((), { s with blobs := s.blobs.filter fun e => e.1 ∉ sessionIds })
  | now, c, s => (c.time, s)

/-- The calls to the storage. -/
def calls : Calls Storage where
  Op := StorageCall
  Res := StorageCall.Res
  Choice := Choice
  step := StorageCall.step

/-- An asynchronous function over the storage. -/
abbrev Async := Program calls

/-- `readMeta`. -/
def readMeta : Async ExtensionMessageCacheMeta := Program.perform (C := calls) .getMeta

/-- `writeMeta`. -/
def writeMeta (info : ExtensionMessageCacheMeta) : Async Unit := Program.perform (C := calls) (.setMeta info)

/-- `readSessionRows`. -/
def readSessionRows (sessionId : Str) : Async (List MessageRow) :=
  Program.perform (C := calls) (.getRows sessionId)

/-- `Date.now`. -/
def dateNow : Async Nat := Program.perform (C := calls) .now

/-- `storage.set` of the rows of a session and the metadata. -/
def setRows (sessionId : Str) (rows : List MessageRow) (info : ExtensionMessageCacheMeta) : Async Unit :=
  Program.perform (C := calls) (.setRows sessionId rows info)

/-- `storage.remove` of the rows of sessions. -/
def removeRows (sessionIds : List Str) : Async Unit := Program.perform (C := calls) (.remove sessionIds)

/-! ## `index.ts` -/

/-- `coalescePartsJson`. -/
def coalescePartsJson (incoming existing : Property) : Option Str :=
  let present := fun (p : Property) => (p.getD none).filter fun s => Str.jsTrim s ≠ []
  (present incoming).or (present existing)

/-- `mergeMessageRow`: a property that is absent in the incoming row stays. -/
def mergeMessageRow : Option MessageRow → MessageRow → MessageRow
  | none, incoming => incoming
  | some existing, incoming =>
    { incoming with
      turnId := incoming.turnId.or existing.turnId
      senderActorId := incoming.senderActorId.or existing.senderActorId
      replyToMessageId := incoming.replyToMessageId.or existing.replyToMessageId
      metadataJson := incoming.metadataJson.or existing.metadataJson
      model := incoming.model.or existing.model
      mentionsJson := incoming.mentionsJson.or existing.mentionsJson
      deletedAt := incoming.deletedAt.or existing.deletedAt
      partsJson := some (coalescePartsJson incoming.partsJson existing.partsJson) }

/-- `writeSessionRows`. -/
def writeSessionRows (sessionId : Str) (rows : List MessageRow) (info : ExtensionMessageCacheMeta) :
    Async ExtensionMessageCacheMeta := do
  let now ← dateNow
  let nextMeta : ExtensionMessageCacheMeta :=
    { sessions := info.sessions.put sessionId { lastAccessAt := now, bytes := estimateBytes rows }
      idIndex := rows.foldl (fun index row => index.put row.id sessionId) info.idIndex }
  setRows sessionId rows nextMeta
  return nextMeta

/-- `pruneExtensionMessageCache`. -/
def pruneExtensionMessageCache (protectSessionId : Option Str) : Async (List Str) := do
  let info ← readMeta
  let victims := pickSessionsToEvict info MAX_SESSIONS MAX_BYTES protectSessionId
  if victims = [] then return []
  -- the rows go before the metadata, so a session may be in the metadata that is not stored
  removeRows victims
  writeMeta (applyEvictionToMeta info victims)
  return victims

/-- `bySession` of `upsertExtensionMessagesBatch`: the rows of each session, in the order of the batch. -/
def bySession (rows : List MessageRow) : OrderedMap Str (List MessageRow) :=
  rows.foldl (fun groups row =>
    groups.put row.sessionId ((groups.get row.sessionId).getD [] ++ [row])) .empty

/-- The key by which JavaScript compares two texts: their UTF-16 code units. -/
def createdAtKey (row : MessageRow) : List Nat := (Str.utf16 row.createdAt).map UInt16.toNat

/-- The rows of a session with incoming ones merged in, by the time of their creation. -/
def mergeRows (existing incoming : List MessageRow) : List MessageRow :=
  let byId : OrderedMap Str MessageRow := existing.foldl (fun byId row => byId.put row.id row) .empty
  let byId := incoming.foldl (fun byId row =>
    byId.put row.id (mergeMessageRow (byId.get row.id) row)) byId
  byId.values.mergeSort (StableSort.keyLe createdAtKey)

/-- The loop of `upsertExtensionMessagesBatch` over the sessions. -/
def upsertSessions : List (Str × List MessageRow) → ExtensionMessageCacheMeta → Async Unit
  | [], _ => return ()
  | (sessionId, incoming) :: groups, info => do
    let existing ← readSessionRows sessionId
    -- the metadata is that of the first read, with the sessions written since
    let info ← writeSessionRows sessionId (mergeRows existing incoming) info
    upsertSessions groups info

/-- `upsertExtensionMessagesBatch`. -/
def upsertExtensionMessagesBatch (rows : List MessageRow) : Async Unit := do
  if rows = [] then return ()
  let info ← readMeta
  upsertSessions (bySession rows).entries info
  let _ ← pruneExtensionMessageCache (rows.head?.map (·.sessionId))

/-- A `deletedAt` that says that the message is deleted. -/
def MessageRow.isDeleted (row : MessageRow) : Bool := (row.deletedAt.getD none).any (· ≠ [])

/-- The time of access of a session is now, if the metadata has the session. -/
def touchSession (sessionId : Str) (info : ExtensionMessageCacheMeta) : Async Unit :=
  match info.sessions.get sessionId with
  | some session => do
    let now ← dateNow
    writeMeta { info with sessions := info.sessions.put sessionId { session with lastAccessAt := now } }
  | none => return ()

/-- `loadExtensionMessagesForSession`: the rows, and the prune that it starts and does not await. -/
def loadExtensionMessagesForSession (sessionId : Str) (includeDeleted : Bool) :
    Async (List MessageRow × Async (List Str)) := do
  let rows ← readSessionRows sessionId
  let info ← readMeta
  touchSession sessionId info
  let pruning := pruneExtensionMessageCache (some sessionId)
  return (if includeDeleted then rows else rows.filter fun row => !row.isDeleted, pruning)

/-- The scan of `setExtensionMessageParts` where the index has no session. -/
def scanSessions (messageId : Str) : List Str → Async (Option (Str × List MessageRow))
  | [] => return none
  | sessionId :: rest => do
    let candidate ← readSessionRows sessionId
    if candidate.any (·.id == messageId) then return some (sessionId, candidate)
    scanSessions messageId rest

/-- The session of a message and its rows: by the index, or by a scan. -/
def findRows (info : ExtensionMessageCacheMeta) (messageId : Str) :
    Async (Option (Str × List MessageRow)) :=
  match (info.idIndex.get messageId).filter (· ≠ []) with
  | some sessionId => do
    let rows ← readSessionRows sessionId
    return some (sessionId, rows)
  | none => do
    let found ← scanSessions messageId info.sessions.keys
    return found.filter (·.1 ≠ [])

/-- `setExtensionMessageParts`. -/
def setExtensionMessageParts (messageId partsJson : Str) : Async Str := do
  let info ← readMeta
  match ← findRows info messageId with
  | none => return partsJson
  | some (sessionId, rows) =>
    let nextRows := rows.map fun r => if r.id = messageId then { r with partsJson := some (some partsJson) } else r
    if !rows.any (·.id == messageId) then return partsJson
    let _ ← writeSessionRows sessionId nextRows info
    let _ ← pruneExtensionMessageCache (some sessionId)
    return partsJson

/-- `softDeleteExtensionMessage`. -/
def softDeleteExtensionMessage (id deletedAt : Str) : Async Unit := do
  let info ← readMeta
  match (info.idIndex.get id).filter (· ≠ []) with
  -- unlike the parts, a deletion does not scan
  | none => return ()
  | some sessionId =>
    let rows ← readSessionRows sessionId
    let next := rows.map fun r => if r.id = id then { r with deletedAt := some (some deletedAt) } else r
    let _ ← writeSessionRows sessionId next info

/-! ## Calls of the cache -/

/-- A call to the cache. -/
inductive CacheCall
  | upsert (rows : List MessageRow)
  | load (sessionId : Str) (includeDeleted : Bool)
  | setParts (messageId partsJson : Str)
  | softDelete (id deletedAt : Str)
  | prune (protectSessionId : Option Str)
  deriving DecidableEq

/-- The program of a call, and then the prune that a load leaves running. -/
def CacheCall.program : CacheCall → Async Unit
  | upsert rows => upsertExtensionMessagesBatch rows
  | load sessionId includeDeleted => do
    let (_, pruning) ← loadExtensionMessagesForSession sessionId includeDeleted
    let _ ← pruning
  | setParts messageId partsJson => do
    let _ ← setExtensionMessageParts messageId partsJson
  | softDelete id deletedAt => softDeleteExtensionMessage id deletedAt
  | prune protectSessionId => do
    let _ ← pruneExtensionMessageCache protectSessionId

/-- The storage before the first call. -/
def emptyStorage : Storage := { info := none, blobs := .empty }

/-- The choices of an environment in which no read fails, by the times of the clock. -/
def clock (times : Nat → Nat) (n : Nat) : Choice := { time := times n, readFails := false }

/-- Calls that do not overlap: each is over, with the prune that a load starts, before the next starts.  No read
    fails, and the input has the times of the clock. -/
def cache : Machine Storage (CacheCall × (Nat → Nat)) where
  init := emptyStorage
  step := fun s input => (Program.run (C := calls) input.1.program (clock input.2) s).2

end TeamClu.MessageCache
