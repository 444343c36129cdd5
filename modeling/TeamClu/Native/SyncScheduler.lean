import TeamClu.ForStd.Machine

/-!
# The sync scheduler

`apps/daemon/src/sync/scheduler.rs`: which trigger opens a window, when the next tick may start, and
what a tick consumes.  An instant is a number of nanoseconds; every call reads the clock once, so the
instant is its argument.

A run is a sequence of calls, each at an instant.  `Watched` keeps, beside the scheduler, what a caller
sees of the run: the triggers since the last tick began, whether a tick is under way, and when the last
one ended.
-/

namespace TeamClu.Scheduler

/-- A second, in nanoseconds. -/
def second : Nat := 1000000000

/-- `COALESCE_WINDOW`. -/
def coalesceWindow : Nat := 2 * second

/-- `LOCAL_FLOOR`. -/
def localFloor : Nat := 5 * second

/-- `REMOTE_FLOOR`. -/
def remoteFloor : Nat := 15 * second

/-- Why a sync was requested. -/
inductive Trigger where
  | local
  | remote (seq : Int)
  deriving DecidableEq, Repr

/-- `SyncScheduler`. -/
structure SyncScheduler where
  windowOpenedAt : Option Nat := none
  pendingLocal : Bool := false
  pendingRemote : Bool := false
  pendingRemoteSeq : Option Int := none
  lastTickEnd : Option Nat := none
  inTick : Bool := false
  deriving DecidableEq, Repr

namespace SyncScheduler

/-- `has_pending`. -/
def hasPending (s : SyncScheduler) : Bool := s.pendingLocal || s.pendingRemote

/-- `floor_duration`. -/
def floorDuration (s : SyncScheduler) : Nat :=
  match s.pendingLocal, s.pendingRemote with
  | true, true => min localFloor remoteFloor
  | true, false => localFloor
  | false, true => remoteFloor
  | false, false => 0

/-- `compute_fire_at`. -/
def computeFireAt (s : SyncScheduler) : Option Nat :=
  if s.inTick || !s.hasPending then none
  else
    s.windowOpenedAt.map fun windowOpened =>
      let windowDeadline := windowOpened + coalesceWindow
      let floorDeadline := match s.lastTickEnd with
        | some lastEnd => lastEnd + s.floorDuration
        | none => windowDeadline
      max windowDeadline floorDeadline

/-- `next_fire_at`. -/
def nextFireAt (s : SyncScheduler) : Option Nat := s.computeFireAt

/-- The pending work with one more trigger. -/
def remember (s : SyncScheduler) : Trigger → SyncScheduler
  | .local => { s with pendingLocal := true }
  | .remote seq =>
    { s with
      pendingRemote := true
      pendingRemoteSeq := some (match s.pendingRemoteSeq with
        | some prev => max prev seq
        | none => seq) }

/-- `trigger`: the scheduler and the next fire. -/
def trigger (s : SyncScheduler) (now : Nat) (t : Trigger) : SyncScheduler × Option Nat :=
  let s := s.remember t
  let s := { s with windowOpenedAt := s.windowOpenedAt.or (some now) }
  (s, s.computeFireAt)

/-- `try_begin_tick`: the scheduler, and whether the tick began. -/
def tryBeginTick (s : SyncScheduler) (now : Nat) : SyncScheduler × Bool :=
  if s.inTick then (s, false)
  else
    match s.computeFireAt with
    | none => (s, false)
    | some fireAt =>
      if now < fireAt then (s, false)
      else
        ({ s with
            pendingLocal := false
            pendingRemote := false
            pendingRemoteSeq := none
            windowOpenedAt := none
            inTick := true }, true)

/-- `end_tick`: the scheduler and the next fire. -/
def endTick (s : SyncScheduler) (now : Nat) : SyncScheduler × Option Nat :=
  let s := { s with inTick := false, lastTickEnd := some now }
  let s := if s.hasPending && s.windowOpenedAt.isNone then { s with windowOpenedAt := some now } else s
  (s, s.computeFireAt)

end SyncScheduler

/-! ## Runs -/

/-- What is called. -/
inductive Call where
  | trigger (t : Trigger)
  | tryBeginTick
  | endTick
  deriving DecidableEq, Repr

/-- A scheduler, and what its caller has seen. -/
structure Watched where
  scheduler : SyncScheduler := {}
  /-- The triggers since a tick last began, with their times, the oldest first. -/
  batch : List (Nat × Trigger) := []
  /-- A tick has begun and was not ended. -/
  ticking : Bool := false
  /-- When a tick was last ended. -/
  tickEnd : Option Nat := none
  deriving DecidableEq, Repr

/-- One call at an instant; what is seen of it is what it is and what it returns. -/
def watch (w : Watched) : Nat × Call → Watched
  | (now, .trigger t) =>
    { w with scheduler := (w.scheduler.trigger now t).1, batch := w.batch ++ [(now, t)] }
  | (now, .tryBeginTick) =>
    let (scheduler, began) := w.scheduler.tryBeginTick now
    if began then { w with scheduler, batch := [], ticking := true } else { w with scheduler }
  | (now, .endTick) =>
    { w with scheduler := (w.scheduler.endTick now).1, ticking := false, tickEnd := some now }

/-- The runs of a new scheduler. -/
def schedulerMachine : Machine Watched (Nat × Call) where
  init := {}
  step := watch

end TeamClu.Scheduler
