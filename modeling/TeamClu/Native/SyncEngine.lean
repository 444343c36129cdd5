import TeamClu.ForStd.Machine
import TeamClu.Native.SyncPush

/-!
# Runs of the sync engine

A run interleaves the two halves of ticks with what the user does to the files and with what a
person asks for.  A tick works on a state in memory, which it loads before its pull and saves after
its push: an error, or the end of the process, leaves the saved state as it was.  Ticks of a team
exclude each other; `fetch_known` and `release_local` take no lock and may come between the halves.
-/

namespace TeamClu.Sync

/-- The state of a tick between its halves, and the rules it was started with. -/
structure Tick where
  state : LocalSyncState
  rules : IgnoreRules

/-- The saved state, the tree, and the tick that is under way. -/
structure SyncWorld where
  saved : LocalSyncState := {}
  tree : ContentTree := ∅
  tick : Option Tick := none

/-- What can happen next. -/
inductive SyncEvent where
  /-- The user writes, deletes or changes a file. -/
  | edit (path : Str) (file : Option DiskFile)
  | pull (env : PullEnv)
  | push (env : PushEnv)
  /-- The process ends in the middle of a tick. -/
  | crash
  /-- The saved state does not parse any more: `load_at` starts over. -/
  | reset
  | fetch (now : Nat) (chunks : Nat → ChunkReply) (paths : List Str)
  | release (removes : Str → Bool) (paths : List Str)

/-- One step of a run. -/
def SyncWorld.step (crypto : Crypto) (w : SyncWorld) (e : SyncEvent) : SyncWorld :=
  match e with
  | .edit path file => { w with tree := editFile w.tree path file }
  | .pull env =>
    if w.tick.isSome then w
    else
      match pullHalf crypto env { state := w.saved, tree := w.tree } with
      | (d, some _) => { w with tree := d.tree }
      | (d, none) => { w with tree := d.tree, tick := some { state := d.state, rules := env.rules } }
  | .push env =>
    match w.tick with
    | none => w
    | some tick =>
      let (d, _) := pushHalf crypto env tick.rules { state := tick.state, tree := w.tree }
      { saved := d.state, tree := d.tree, tick := none }
  | .crash => { w with tick := none }
  | .reset => { w with saved := {}, tick := none }
  | .fetch now chunks paths =>
    let d := fetchKnown crypto now chunks { state := w.saved, tree := w.tree } paths
    { w with saved := d.state, tree := d.tree }
  | .release removes paths =>
    let d := releaseLocal removes { state := w.saved, tree := w.tree } paths
    { w with saved := d.state, tree := d.tree }

end TeamClu.Sync
