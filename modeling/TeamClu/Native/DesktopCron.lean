import TeamClu.ForStd.Machine
import TeamClu.ForStd.Text

/-!
# The desktop cron scheduler

`CronScheduler::start`, `stop`, `tick` and the entry of `execute_job` of
`apps/desktop/src/commands/cron/scheduler.rs`, over `CronStorage` of `storage.rs`.  Tick loops, executions
and edits of the jobs interleave at their awaits; an edit holds the I/O lock from its write in memory to
its write of the jobs file.

The times of a job's last run and last update are left out: no decision below reads them.
-/

namespace TeamClu.DesktopCron

/-- What repeats a job. -/
inductive ScheduleKind where
  | at
  | every
  | cron
  deriving DecidableEq, Repr

/-- Schedule configuration for a cron job; `everyMs` is a 64-bit number. -/
structure CronSchedule where
  kind : ScheduleKind
  atTime : Option Str := none
  everyMs : Option Nat := none
  expr : Option Str := none
  tz : Option Str := none
  deriving DecidableEq, Repr

/-- A job, as far as the scheduler decides on it; instants are in milliseconds. -/
structure CronJob where
  id : Str
  enabled : Bool
  schedule : CronSchedule
  nextRunAt : Option Int
  deriving DecidableEq, Repr

/-- The libraries for times: reading a timestamp, and the first occurrence of a cron expression after an
    instant, in a named time zone or the local one. -/
structure Times where
  parseFromRfc3339 : Str → Option Int
  nextAfter : Str → Option Str → Int → Option Int

/-- `ms as i64`. -/
def asI64 (ms : Nat) : Int := (BitVec.ofNat 64 ms).toInt

/-- The instants of `DateTime<Utc>`: from the start of the year -262143 to the end of the year 262142. -/
def inRange (instant : Int) : Bool := decide (-8334601228800000 ≤ instant ∧ instant ≤ 8210266876799999)

/-- A task that panics ends. -/
inductive Panic where
  /-- "DateTime + TimeDelta overflowed", or "TimeDelta::milliseconds out of bounds". -/
  | overflowed
  deriving DecidableEq, Repr

/-- `after + Duration::milliseconds(ms)`. -/
def addMilliseconds (after ms : Int) : Except Panic Int :=
  if inRange (after + ms) then .ok (after + ms) else .error .overflowed

/-- `compute_next_run`, after an instant. -/
def computeNextRun (times : Times) (job : CronJob) (after : Int) : Except Panic (Option Int) :=
  match job.schedule.kind with
  | .at =>
    match job.schedule.atTime.bind times.parseFromRfc3339 with
    | some atUtc => .ok (if after < atUtc then some atUtc else none)
    | none => .ok none
  | .every =>
    match job.schedule.everyMs with
    | some ms => (addMilliseconds after (asI64 ms)).map some
    | none => .ok none
  | .cron =>
    match job.schedule.expr with
    | some expr =>
      let tz := (job.schedule.tz.map Str.jsTrim).filter (· ≠ [])
      .ok (times.nextAfter ("0 ".toList ++ expr ++ " *".toList) tz after)
    | none => .ok none

/-! ## The storage -/

/-- `update_next_run_at`, and what `update_run_timestamps` does to the next run: on the first job with
    the id. -/
def updateNextRunAt (jobs : List CronJob) (jobId : Str) (nextRun : Option Int) : List CronJob :=
  match jobs with
  | [] => []
  | job :: rest =>
    if job.id = jobId then { job with nextRunAt := nextRun } :: rest
    else job :: updateNextRunAt rest jobId nextRun

/-- `toggle_enabled`: on the first job with the id. -/
def toggleEnabled (jobs : List CronJob) (jobId : Str) (enabled : Bool) : List CronJob :=
  match jobs with
  | [] => []
  | job :: rest =>
    if job.id = jobId then { job with enabled } :: rest
    else job :: toggleEnabled rest jobId enabled

/-- An edit of the jobs. -/
inductive Operation where
  | addJob (job : CronJob)
  | removeJob (jobId : Str)
  | toggleEnabled (jobId : Str) (enabled : Bool)
  | updateNextRunAt (jobId : Str) (nextRun : Option Int)

/-- The jobs in memory after an edit, or none for one that is refused: the job is not found. -/
def Operation.write (jobs : List CronJob) : Operation → Option (List CronJob)
  | .addJob job => some (jobs ++ [job])
  | .removeJob jobId =>
    if jobs.any (·.id == jobId) then some (jobs.filter (·.id != jobId)) else none
  | .toggleEnabled jobId enabled =>
    if jobs.any (·.id == jobId) then some (DesktopCron.toggleEnabled jobs jobId enabled) else none
  | .updateNextRunAt jobId nextRun => some (DesktopCron.updateNextRunAt jobs jobId nextRun)

/-! ## The tick loops -/

/-- Where a tick loop is. -/
inductive Phase where
  /-- In its sleep, or at the check of its generation. -/
  | sleeping
  /-- In `list_jobs`, before it reloads the file. -/
  | listing
  /-- The file is reloaded, and the jobs are not yet cloned. -/
  | listed
  /-- It looks at the jobs of its snapshot. -/
  | looking (now : Int) (jobs : List CronJob)
  /-- It has computed a missing next run and waits for the lock. -/
  | computed (now : Int) (jobId : Str) (next : Int) (jobs : List CronJob)
  /-- The missing next run is in memory. -/
  | filling (now : Int) (jobs : List CronJob)
  /-- The next run of a due job is in memory. -/
  | advancing (now : Int) (job : CronJob) (jobs : List CronJob)
  /-- It has returned, or panicked. -/
  | stopped
  deriving DecidableEq

/-- A loop of `start`. -/
structure Loop where
  gen : Nat
  phase : Phase := .sleeping
  deriving DecidableEq

/-- An execution of a job whose run has no record yet. -/
structure Execution where
  job : CronJob
  /-- It has passed the check for a restart. -/
  started : Bool := false
  deriving DecidableEq

/-- Who holds the I/O lock. -/
inductive Holder where
  | operation
  | tick
  deriving DecidableEq

/-- The scheduler and its storage. -/
structure Scheduler where
  clock : Int
  /-- The jobs in memory and the jobs file. -/
  data : List CronJob
  file : List CronJob
  ioLock : Option Holder := none
  generation : Nat := 0
  loops : List Loop := []
  restartImminent : Bool := false
  executions : List Execution := []
  /-- The due occurrences that ticks have found in their snapshots, for the record. -/
  looked : List (Str × Int) := []
  /-- The occurrences whose executions have a run record. -/
  recorded : List (Str × Int) := []

/-- What happens next. -/
inductive CronInput where
  | advanceClock (ms : Nat)
  | start
  | stop
  /-- The next step of a tick loop. -/
  | loop (i : Nat)
  /-- The next step of an execution. -/
  | execute (i : Nat)
  /-- An edit takes the lock and writes in memory. -/
  | operate (operation : Operation)
  /-- The edit writes the jobs file. -/
  | persist
  | setRestartImminent (imminent : Bool)
  /-- The process ends and starts again. -/
  | restart

/-- The occurrence that a job stands at. -/
def CronJob.occurrence (job : CronJob) : Option (Str × Int) := job.nextRunAt.map (job.id, ·)

/-- A tick at this time executes the job. -/
def CronJob.isDue (now : Int) (job : CronJob) : Bool :=
  job.enabled && match job.nextRunAt with
    | some next => decide (next ≤ now)
    | none => false

/-- The scheduler with the loop in another phase. -/
def Scheduler.setPhase (s : Scheduler) (i : Nat) (loop : Loop) (phase : Phase) : Scheduler :=
  { s with loops := s.loops.set i { loop with phase } }

/-- The next step of a tick loop. -/
def loopStep (times : Times) (s : Scheduler) (i : Nat) (loop : Loop) : Scheduler :=
  match loop.phase with
  | .sleeping => s.setPhase i loop (if loop.gen = s.generation then .listing else .stopped)
  | .listing => if s.ioLock = none then { s.setPhase i loop .listed with data := s.file } else s
  | .listed =>
    { s.setPhase i loop (.looking s.clock s.data) with
      looked := s.looked ++ (s.data.filter (·.isDue s.clock)).filterMap CronJob.occurrence }
  | .looking _ [] => s.setPhase i loop .sleeping
  | .looking now (job :: jobs) =>
    if job.enabled = false then s.setPhase i loop (.looking now jobs)
    else
      match job.nextRunAt with
      | some next =>
        if next ≤ now then
          match computeNextRun times job now with
          | .error _ => s.setPhase i loop .stopped
          | .ok nextRun =>
            if s.ioLock = none then
              { s.setPhase i loop (.advancing now job jobs) with
                ioLock := some .tick
                data := updateNextRunAt s.data job.id nextRun }
            else s
        else s.setPhase i loop (.looking now jobs)
      | none =>
        match computeNextRun times job s.clock with
        | .error _ => s.setPhase i loop .stopped
        | .ok (some next) => s.setPhase i loop (.computed now job.id next jobs)
        | .ok none => s.setPhase i loop (.looking now jobs)
  | .computed now jobId next jobs =>
    if s.ioLock = none then
      { s.setPhase i loop (.filling now jobs) with
        ioLock := some .tick
        data := updateNextRunAt s.data jobId (some next) }
    else s
  | .filling now jobs =>
    { s.setPhase i loop (.looking now jobs) with file := s.data, ioLock := none }
  | .advancing now job jobs =>
    { s.setPhase i loop (.looking now jobs) with
      file := s.data
      ioLock := none
      executions := s.executions ++ [{ job }] }
  | .stopped => s

/-- One step of the scheduler. -/
def cronStep (times : Times) (s : Scheduler) : CronInput → Scheduler
  | .advanceClock ms => { s with clock := s.clock + ms }
  | .start =>
    { s with generation := s.generation + 1, loops := s.loops ++ [{ gen := s.generation + 1 }] }
  | .stop => { s with generation := s.generation + 1 }
  | .loop i =>
    match s.loops[i]? with
    | some loop => loopStep times s i loop
    | none => s
  | .execute i =>
    match s.executions[i]? with
    | some execution =>
      if execution.started then
        { s with
          executions := s.executions.eraseIdx i
          recorded := s.recorded ++ execution.job.occurrence.toList }
      else if s.restartImminent then { s with executions := s.executions.eraseIdx i }
      else { s with executions := s.executions.set i { execution with started := true } }
    | none => s
  | .operate operation =>
    if s.ioLock = none then
      match operation.write s.data with
      | some data => { s with ioLock := some .operation, data }
      | none => s
    else s
  | .persist =>
    if s.ioLock = some .operation then { s with file := s.data, ioLock := none } else s
  | .setRestartImminent imminent => { s with restartImminent := imminent }
  | .restart =>
    { s with
      data := s.file
      ioLock := none
      generation := 0
      loops := []
      restartImminent := false
      executions := [] }

/-- The scheduler over a jobs file, before its first start. -/
def cronMachine (times : Times) (clock : Int) (jobs : List CronJob) :
    Machine Scheduler CronInput where
  init := { clock, data := jobs, file := jobs }
  step := cronStep times

end TeamClu.DesktopCron
