import TeamClu.ForStd.Chunks
import TeamClu.Native.Scanner

/-!
# Downloading what a pull wants

`pull_phase` and `download_and_write` of `apps/daemon/src/sync/oss/engine.rs`, with `get_blob` of
`fc_client.rs`.  What the network and the file system answer is an argument: an answer for each chunk
of the batch endpoint, one for each item of it, and one for each transfer.  A batch call is retried
while its error is transient; its answer here is the last one.

The transfers of one chunk run concurrently and write different files; they are taken in the order of
the chunk.
-/

namespace TeamClu.Sync

/-- Chunk size for batch FC calls. -/
def MAX_BATCH : Nat := 200

/-- The sync state in memory and the files below the content root. -/
structure Device where
  state : LocalSyncState := {}
  tree : ContentTree := ∅

/-- A file that needs its blob downloaded. -/
structure PullItem where
  path : Str
  cipherHash : Str
  version : Nat
  deriving DecidableEq

/-- The outcome of one item of a batch call. -/
inductive BatchItemOutcome (T : Type) where
  | ok (value : T)
  | conflict (remoteVersion : Option Nat) (remoteCipherHash : Option Str)
  | err (status : Nat) (message : Str)
  | forbidden (message : Str)

/-- How the file system takes a downloaded file. -/
inductive WriteReply where
  | mkdirFails (message : Str)
  /-- `left` is what the failed write leaves in the file, if it got that far. -/
  | writeFails (message : Str) (left : Option (Bytes × Nat))
  | statFails (message : Str) (mtime : Nat)
  | written (mtime : Nat)

/-- What is answered to one signed download. -/
structure Transfer where
  blob : Except SyncError Bytes
  write : WriteReply

/-- What is answered for one chunk: the batch call, and the per-file calls of a server without it. -/
structure ChunkReply where
  batch : Except SyncError (List (BatchItemOutcome Transfer))
  single : Nat → Except SyncError Transfer

/-- A file written and measured. -/
structure WriteResult where
  plainHash : Str
  mtime : Nat
  size : Nat
  deriving DecidableEq

/-! ## One transfer -/

/-- `get_blob`: the bytes must have the hash they were asked for by. -/
def getBlob (crypto : Crypto) (reply : Except SyncError Bytes) (expected : Str) :
    Except SyncError Bytes :=
  match reply with
  | .error e => .error e
  | .ok bytes =>
    if crypto.sha256Hex bytes ≠ expected then .error (.hashMismatch expected (crypto.sha256Hex bytes))
    else .ok bytes

/-- The plaintext of a blob: `get_blob` and `decode_pulled_blob`. -/
def fetchPlaintext (crypto : Crypto) (item : PullItem) (t : Transfer) : Except SyncError Bytes :=
  match getBlob crypto t.blob item.cipherHash with
  | .error e => .error e
  | .ok blob =>
    match crypto.decodeBlob blob with
    | .error message => .error (.crypto message)
    | .ok plaintext => .ok plaintext

/-- What the transfer leaves in the file, and its time; `none` when it does not touch it. -/
def writtenFile (crypto : Crypto) (item : PullItem) (t : Transfer) : Option (Bytes × Nat) :=
  match fetchPlaintext crypto item t with
  | .error _ => none
  | .ok plaintext =>
    match t.write with
    | .mkdirFails _ => none
    | .writeFails _ left => left
    | .statFails _ mtime => some (plaintext, mtime)
    | .written mtime => some (plaintext, mtime)

/-- The tree after the transfer. -/
def transferTree (crypto : Crypto) (tree : ContentTree) (item : PullItem) (t : Transfer) :
    ContentTree :=
  match writtenFile crypto item t with
  | none => tree
  | some (bytes, mtime) => tree.write item.path bytes mtime

/-- How the transfer ends. -/
def transferResult (crypto : Crypto) (item : PullItem) (t : Transfer) :
    Except SyncError WriteResult :=
  match fetchPlaintext crypto item t with
  | .error e => .error e
  | .ok plaintext =>
    match t.write with
    | .mkdirFails message => .error (.io message)
    | .writeFails message _ => .error (.io message)
    | .statFails message _ => .error (.io message)
    | .written mtime =>
      .ok { plainHash := crypto.sha256Hex plaintext, mtime, size := plaintext.length }

/-- Record how the transfer of an item ended. -/
def recordTransfer (st : LocalSyncState) (item : PullItem) (result : Except SyncError WriteResult) :
    LocalSyncState :=
  match result with
  | .ok w => st.upsert item.path item.version item.cipherHash w.plainHash w.plainHash w.mtime w.size
  | .error e => st.quarantine item.path item.cipherHash item.version e.toText

/-! ## The phase -/

/-- `download_and_write`: sign, transfer, and on success update the state. -/
def downloadAndWrite (crypto : Crypto) (d : Device) (item : PullItem)
    (reply : Except SyncError Transfer) : Device × Except SyncError Unit :=
  match reply with
  | .error e => (d, .error e)
  | .ok t =>
    let tree := transferTree crypto d.tree item t
    match transferResult crypto item t with
    | .error e => ({ d with tree }, .error e)
    | .ok w =>
      ({ state := d.state.upsert item.path item.version item.cipherHash w.plainHash w.plainHash
                    w.mtime w.size
         tree }, .ok ())

/-- One file of a chunk on a server without the batch endpoint. -/
def pullSingle (crypto : Crypto) (d : Device) (item : PullItem) (reply : Except SyncError Transfer) :
    Device :=
  match downloadAndWrite crypto d item reply with
  | (d, .ok ()) => d
  | (d, .error e) =>
    { d with state := d.state.quarantine item.path item.cipherHash item.version e.toText }

/-- The answer of `download_batch`: as many outcomes as items, or an error. -/
def downloadBatch (reply : ChunkReply) (count : Nat) :
    Except SyncError (List (BatchItemOutcome Transfer)) :=
  match reply.batch with
  | .error e => .error e
  | .ok outcomes =>
    if outcomes.length ≠ count then
      .error (.internal ("batch results length ".toList ++ Nat.toDigits 10 outcomes.length ++
        " != items ".toList ++ Nat.toDigits 10 count))
    else .ok outcomes

/-- Record the outcome of an item that gets no transfer. -/
def recordOutcome (now : Nat) (st : LocalSyncState) (item : PullItem)
    (outcome : BatchItemOutcome Transfer) : LocalSyncState :=
  match outcome with
  | .ok _ => st
  | .conflict _ _ => st
  | .forbidden message => st.markForbidden item.path message now
  | .err status message =>
    st.quarantine item.path item.cipherHash item.version
      ("download HTTP ".toList ++ Nat.toDigits 10 status ++ ": ".toList ++ message)

/-- The transfers of a chunk. -/
def targets (pairs : List (PullItem × BatchItemOutcome Transfer)) : List (PullItem × Transfer) :=
  pairs.filterMap fun (item, outcome) =>
    match outcome with
    | .ok t => some (item, t)
    | _ => none

/-- One chunk of `pull_phase`. -/
def pullChunk (crypto : Crypto) (now : Nat) (d : Device) (chunk : List PullItem)
    (reply : ChunkReply) : Device :=
  match downloadBatch reply chunk.length with
  | .ok outcomes =>
    let pairs := chunk.zip outcomes
    let recorded := pairs.foldl (fun st (item, outcome) => recordOutcome now st item outcome) d.state
    { tree := (targets pairs).foldl (fun tree (item, t) => transferTree crypto tree item t) d.tree
      state := (targets pairs).foldl
        (fun st (item, t) => recordTransfer st item (transferResult crypto item t)) recorded }
  | .error .batchUnsupported =>
    chunk.zipIdx.foldl (fun d (item, i) => pullSingle crypto d item (reply.single i)) d
  | .error _ => d

/-- The items in chunks, each with its number. -/
def pullChunks (items : List PullItem) : List (List PullItem × Nat) :=
  (Chunks.chunks (MAX_BATCH - 1) items).zipIdx

/-- `pull_phase`. -/
def pullPhase (crypto : Crypto) (now : Nat) (replies : Nat → ChunkReply) (d : Device)
    (items : List PullItem) : Device :=
  (pullChunks items).foldl (fun d (chunk, k) => pullChunk crypto now d chunk (replies k)) d

end TeamClu.Sync
