import TeamClu.ForStd.Machine
import TeamClu.Native.CronSearch

/-!
# Cron ticks

`runDueAppCronJobs` and `claimJob` of `services/fc/src/lib/app-cron-runner.ts`: any number of ticks on
one table, each with a clock reading of its own, a snapshot of the due rows and several workers over a
shared cursor.  Each database call is one step, and the environment chooses the order.
-/

namespace TeamClu.AppCron

/-- How many due jobs one tick will claim. -/
def MAX_JOBS_PER_TICK : Nat := 50

/-- How many of them it sends at once. -/
def TICK_CONCURRENCY : Nat := 8

/-- A row of `app_cron_jobs`, as far as a tick decides on it. -/
structure CronRow where
  id : Str
  enabled : Bool
  scheduleExpr : Str
  timezone : Str
  nextRunAt : Option Int
  lastRunAt : Option Int := none
  deriving DecidableEq, Repr

/-- The table; `id` is its primary key. -/
structure JobTable where
  rows : List CronRow
  nodup : (rows.map (·.id)).Nodup

/-- A job of the snapshot, whose `next_run_at` is not null. -/
structure JobRow where
  id : Str
  scheduleExpr : Str
  timezone : Str
  nextRunAt : Int
  deriving DecidableEq, Repr

/-- The filters of the query. -/
def CronRow.isDue (row : CronRow) (now : Int) : Bool :=
  row.enabled && match row.nextRunAt with
    | some v => v ≤ now
    | none => false

/-- What is selected of a row. -/
def CronRow.toJob (row : CronRow) : Option JobRow :=
  row.nextRunAt.map fun v =>
    { id := row.id, scheduleExpr := row.scheduleExpr, timezone := row.timezone, nextRunAt := v }

/-- The query of a tick: the due rows, the oldest first, up to the limit. -/
def JobTable.selectDue (table : JobTable) (now : Int) (limit : Nat) : List JobRow :=
  (((table.rows.filter (·.isDue now)).filterMap CronRow.toJob).mergeSort
    (·.nextRunAt ≤ ·.nextRunAt)).take limit

/-- Whether the update of a claim matches the row. -/
def JobRow.matchesRow (job : JobRow) (row : CronRow) : Bool :=
  row.id == job.id && row.nextRunAt == some job.nextRunAt

/-- The update of a claim, on one row. -/
def JobRow.updateRow (job : JobRow) (next : Option Int) (now : Int) (row : CronRow) : CronRow :=
  if job.matchesRow row then { row with nextRunAt := next, lastRunAt := some now } else row

@[simp] theorem JobRow.updateRow_id (job : JobRow) (next : Option Int) (now : Int) (row : CronRow) :
    (job.updateRow next now row).id = row.id := by
  unfold updateRow
  split <;> rfl

/-- The update of a claim: it sets every row that it matches. -/
def JobTable.update (table : JobTable) (job : JobRow) (next : Option Int) (now : Int) : JobTable where
  rows := table.rows.map (job.updateRow next now)
  nodup := by simpa [List.map_map, Function.comp_def] using table.nodup

/-- A worker of a tick. -/
inductive Worker where
  /-- At the top of its loop. -/
  | idle
  /-- Its update is on the way to the database. -/
  | claiming (job : JobRow)
  /-- Its update was applied and matched a row, or no row. -/
  | answered (job : JobRow) (matched : Bool)
  /-- It won the job and is sending its request. -/
  | executing (job : JobRow)
  /-- It has returned, or failed. -/
  | stopped
  deriving DecidableEq

/-- One call of `runDueAppCronJobs`. -/
structure Tick where
  now : Int
  limit : Nat
  selected : Bool := false
  jobs : List JobRow := []
  cursor : Nat := 0
  workers : List Worker := []
  /-- Which worker took which job, for the record. -/
  taken : List (Nat × Str) := []

/-- Who claimed which value of a job, for the record. -/
structure Claim where
  tick : Nat
  worker : Nat
  job : Str
  value : Int
  deriving DecidableEq

/-- The table, the ticks, the claims that were won and the requests that were sent. -/
structure CronSystem where
  table : JobTable
  ticks : List Tick := []
  claims : List Claim := []
  sends : List Claim := []

/-- What happens next. -/
inductive CronInput where
  /-- A tick starts and reads its clock. -/
  | start (now : Int) (limit : Nat)
  /-- The query of a tick. -/
  | select (tick : Nat)
  /-- A worker is at the top of its loop, after the deadline or before it. -/
  | turn (tick worker : Nat) (late : Bool)
  /-- The update of a worker reaches the row; the answer may be lost. -/
  | update (tick worker : Nat) (answered : Bool)
  /-- The update of a worker fails without effect. -/
  | refuse (tick worker : Nat)
  /-- A worker goes on with the answer to its update; the log row of a schedule that is not valid may
      fail. -/
  | resume (tick worker : Nat) (fails : Bool)
  /-- A worker executes its job: the request is sent, unless the app is gone, and the worker fails or
      goes on. -/
  | execute (tick worker : Nat) (sends fails : Bool)

/-- The tick and its worker. -/
def CronSystem.worker (s : CronSystem) (i w : Nat) : Option (Tick × Worker) :=
  s.ticks[i]?.bind fun tick => tick.workers[w]?.map (tick, ·)

/-- The tick with another state of the worker. -/
def Tick.setWorker (tick : Tick) (w : Nat) (worker : Worker) : Tick :=
  { tick with workers := tick.workers.set w worker }

/-- The system with another state of the tick. -/
def CronSystem.setTick (s : CronSystem) (i : Nat) (tick : Tick) : CronSystem :=
  { s with ticks := s.ticks.set i tick }

/-- What `claimJob` computes before its update: the next run, or that the schedule is not valid. -/
def nextOf (zones : Str → Option Zone) (job : JobRow) (now : Int) : Except ScheduleError (Option Int) :=
  computeNextRun zones job.scheduleExpr job.timezone now

/-- What the update writes: `next ? next.toISOString() : null`. -/
def nextOrNull (zones : Str → Option Zone) (job : JobRow) (now : Int) : Option Int :=
  match nextOf zones job now with
  | .ok next => next
  | .error _ => none

/-- One step of the system. -/
def cronStep (zones : Str → Option Zone) (s : CronSystem) : CronInput → CronSystem
  | .start now limit =>
    { s with ticks := s.ticks ++ [{ now, limit := min limit MAX_JOBS_PER_TICK }] }
  | .select i =>
    match s.ticks[i]? with
    | some tick =>
      if tick.selected then s
      else
        let jobs := s.table.selectDue tick.now tick.limit
        s.setTick i { tick with
          selected := true
          jobs := jobs
          workers := List.replicate (min TICK_CONCURRENCY jobs.length) .idle }
    | none => s
  | .turn i w late =>
    match s.worker i w with
    | some (tick, .idle) =>
      if late then s.setTick i (tick.setWorker w .stopped)
      else
        match tick.jobs[tick.cursor]? with
        | some job =>
          s.setTick i ({ tick with
            cursor := tick.cursor + 1
            taken := tick.taken ++ [(w, job.id)] }.setWorker w (.claiming job))
        | none => s.setTick i ({ tick with cursor := tick.cursor + 1 }.setWorker w .stopped)
    | _ => s
  | .update i w answered =>
    match s.worker i w with
    | some (tick, .claiming job) =>
      let matched := s.table.rows.any job.matchesRow
      let worker := if answered then .answered job matched else .stopped
      { s.setTick i (tick.setWorker w worker) with
        table := s.table.update job (nextOrNull zones job tick.now) tick.now
        claims := if matched then
            s.claims ++ [{ tick := i, worker := w, job := job.id, value := job.nextRunAt }]
          else s.claims }
    | _ => s
  | .refuse i w =>
    match s.worker i w with
    | some (tick, .claiming _) => s.setTick i (tick.setWorker w .stopped)
    | _ => s
  | .resume i w fails =>
    match s.worker i w with
    | some (tick, .answered job true) =>
      match nextOf zones job tick.now with
      | .ok _ => s.setTick i (tick.setWorker w (.executing job))
      | .error _ => s.setTick i (tick.setWorker w (if fails then .stopped else .idle))
    | some (tick, .answered _ false) => s.setTick i (tick.setWorker w .idle)
    | _ => s
  | .execute i w sends fails =>
    match s.worker i w with
    | some (tick, .executing job) =>
      { s.setTick i (tick.setWorker w (if fails then .stopped else .idle)) with
        sends := if sends then
            s.sends ++ [{ tick := i, worker := w, job := job.id, value := job.nextRunAt }]
          else s.sends }
    | _ => s

/-- The system on a table, before any tick. -/
def cronMachine (zones : Str → Option Zone) (table : JobTable) : Machine CronSystem CronInput where
  init := { table }
  step := cronStep zones

end TeamClu.AppCron
