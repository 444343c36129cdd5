import TeamClu.ForStd.Machine
import TeamClu.Native.SyncPush

/-!
# Operations on one sync state

`sync_team`, `fetch_documents` and `release_documents` of `apps/daemon/src/sync/dispatch.rs`.  Each loads
the whole state of the team, works on its copy and on the content tree, and saves the whole copy; only
`sync_team` takes the lock of the team.  The halves of a tick, a fetch and the release of one path are
the steps between which others may come.
-/

namespace TeamClu.Sync

/-- What is asked for, with what the server and the file system answer to it. -/
inductive Operation where
  | sync (pull : PullEnv) (push : PushEnv)
  | fetch (now : Nat) (chunks : Nat → ChunkReply) (paths : List Str)
  | release (removes : Str → Bool) (paths : List Str)

/-- A piece of the work of an operation. -/
inductive Work where
  | pull (env : PullEnv)
  | push (env : PushEnv) (rules : IgnoreRules)
  | fetch (now : Nat) (chunks : Nat → ChunkReply) (paths : List Str)
  | release (removes : Str → Bool) (path : Str)

/-- The work of an operation, in order. -/
def Operation.works : Operation → List Work
  | .sync pull push => [.pull pull, .push push pull.rules]
  | .fetch now chunks paths => [.fetch now chunks paths]
  | .release removes paths => paths.map (.release removes)

/-- The operation takes the lock of the team. -/
def Operation.locks : Operation → Bool
  | .sync _ _ => true
  | _ => false

/-- A piece of work on the copy and the tree, and whether the operation goes on: a pull may fail, and a
    fetch without a listed path returns at once. -/
def Work.run (crypto : Crypto) (d : Device) : Work → Device × Bool
  | .pull env =>
    match pullHalf crypto env d with
    | (d, some _) => (d, false)
    | (d, none) => (d, true)
  | .push env rules => ((pushHalf crypto env rules d).1, true)
  | .fetch now chunks paths =>
    if paths.all fun path => !d.state.known.contains path then (d, false)
    else (fetchKnown crypto now chunks d paths, true)
  | .release removes path => (releaseLocal removes d [path], true)

/-- An operation that is under way. -/
structure Process where
  operation : Operation
  /-- The state that it has loaded. -/
  loaded : LocalSyncState
  copy : LocalSyncState
  todo : List Work

/-- The saved state and the files of a team, and what is under way. -/
structure TeamWorld where
  saved : LocalSyncState := {}
  tree : ContentTree := ∅
  processes : Nat → Option Process := fun _ => none
  /-- The operation that holds the lock. -/
  lock : Option Nat := none
  /-- The operations that have saved, in order. -/
  done : List Operation := []

/-- What can happen next. -/
inductive TeamEvent where
  /-- The user writes, deletes or changes a file. -/
  | edit (path : Str) (file : Option DiskFile)
  | start (id : Nat) (operation : Operation)
  | work (id : Nat)
  | save (id : Nat)
  /-- The daemon ends. -/
  | crash

namespace TeamWorld

variable (w : TeamWorld)

/-- An operation goes on as another process, or ends. -/
def set (id : Nat) (process : Option Process) : TeamWorld :=
  { w with processes := fun i => if i = id then process else w.processes i }

/-- The operation is over, and with it its lock. -/
def finish (id : Nat) : TeamWorld :=
  { w.set id none with lock := if w.lock = some id then none else w.lock }

/-- One step. -/
def step (crypto : Crypto) : TeamEvent → TeamWorld
  | .edit path file => { w with tree := editFile w.tree path file }
  | .start id operation =>
    if (w.processes id).isSome || (operation.locks && w.lock.isSome) then w
    else
      { w.set id (some { operation, loaded := w.saved, copy := w.saved, todo := operation.works }) with
        lock := if operation.locks then some id else w.lock }
  | .work id =>
    match w.processes id with
    | none => w
    | some process =>
      match process.todo with
      | [] => w
      | work :: todo =>
        let (d, goesOn) := work.run crypto { state := process.copy, tree := w.tree }
        if goesOn then { w.set id (some { process with copy := d.state, todo }) with tree := d.tree }
        else { w.finish id with tree := d.tree }
  | .save id =>
    match w.processes id with
    | none => w
    | some process =>
      if process.todo.isEmpty then
        { w.finish id with saved := process.copy, done := w.done ++ [process.operation] }
      else w
  | .crash => { w with processes := fun _ => none, lock := none }

end TeamWorld

/-- The runs of a team, from a saved state and its files on. -/
def teamMachine (crypto : Crypto) (saved : LocalSyncState) (tree : ContentTree) :
    Machine TeamWorld TeamEvent where
  init := { saved, tree }
  step w := w.step crypto

end TeamClu.Sync
