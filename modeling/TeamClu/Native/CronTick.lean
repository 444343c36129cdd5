import Mathlib.Logic.Function.Basic
import TeamClu.Native.CronRunner

/-!
# One cron tick and its history rows

One call of `runDueAppCronJobs` with `claimJob`, `executeJob`, `finish` and `recordRun` of
`services/fc/src/lib/app-cron-runner.ts`, and `appCurrentPublicUrl` of `apps-public-host.ts`.  The lanes of the
tick share a cursor over the due jobs; each call of the database and each request is one step, whose outcome the
environment chooses.

What is sent to the app (method, headers, body) is left out: the answer is an input.
-/

namespace TeamClu.AppCron

/-! ## The address of an app -/

/-- What a tick reads from its surroundings: the time zones, the two domains, trimmed, and the functions of the
    platform for host names. -/
structure TickEnv where
  zones : Str → Option Zone
  appsPublicDomain : Str
  loginDomain : Str
  domainToASCII : Str → Str
  /-- `new URL(location).host`, or that it throws. -/
  urlHost : Str → Option Str
  toLowerCase : Str → Str

/-- A row of `apps`, as far as it is selected. -/
structure AppRow where
  id : Str
  slug : Str
  fcStatus : Str
  appCode : Option Str := none
  usesAppCodeDomain : Bool := false
  deriving DecidableEq, Repr

/-- The characters `[0-9a-hjkmnp-tv-z]`. -/
def isCodeChar (c : Char) : Bool :=
  ('0' ≤ c && c ≤ '9') || ('a' ≤ c && c ≤ 'h') || c == 'j' || c == 'k' || c == 'm' || c == 'n' ||
    ('p' ≤ c && c ≤ 't') || ('v' ≤ c && c ≤ 'z')

/-- Accept either stored representation, but expose only the complete code. -/
def normalizeAppCode (value : Str) : Option Str :=
  if value.length = 14 ∧ "a-".toList <+: value ∧ (value.drop 2).all isCodeChar then some value
  else if value.length = 12 ∧ value.all isCodeChar then some ("a-".toList ++ value)
  else none

/-- The label, in the ASCII form DNS actually accepts. -/
def appPublicLabel (env : TickEnv) (slug appId : Str) : Option Str :=
  let ascii := env.domainToASCII (slug ++ '-' :: appId.take 8)
  if ascii = [] then none else if 63 < ascii.utf8Len then none else some ascii

/-- Public URL for an app, or none when this deployment has no apps domain. -/
def appPublicUrl (env : TickEnv) (slug appId : Str) (appCode : Option Str) : Option Str :=
  let domain := env.appsPublicDomain
  let url (label : Str) : Str := "https://".toList ++ label ++ '.' :: domain
  match appCode with
  | some code => if domain = [] then none else (normalizeAppCode code).map url
  | none =>
    if domain = [] ∨ slug = [] ∨ appId = [] then none else (appPublicLabel env slug appId).map url

/-- The current public address; backfilled or absent mode metadata stays legacy. -/
def appCurrentPublicUrl (env : TickEnv) (app : AppRow) : Option Str :=
  appPublicUrl env app.slug app.id (if app.usesAppCodeDomain then app.appCode else none)

/-! ## The history -/

/-- How a run ended. -/
inductive CronRunStatus where
  | success
  | failed
  | timeout
  deriving DecidableEq, Repr

/-- The error of a history row; its message is in the comment. -/
inductive RunError where
  /-- `schedule is not valid: ${scheduleError}` -/
  | scheduleNotValid (error : ScheduleError)
  /-- `应用已下线，未执行定时任务。` -/
  | offline
  /-- `这个部署没有配置应用域名（APPS_PUBLIC_DOMAIN），定时任务没有可以请求的地址。` -/
  | noAppsDomain
  /-- `应用不存在` -/
  | noApp
  /-- `LOGIN_WALL_ERROR` -/
  | loginWall
  /-- `应用返回 ${status}` -/
  | answered (status : Nat)
  /-- `超过 ${budgetMs}ms 没有响应` -/
  | noAnswer (budgetMs : Int)
  /-- The message of the error that was thrown. -/
  | threw (message : Str)
  deriving DecidableEq, Repr

/-- What is recorded of a run. -/
structure RunRecord where
  startedAt : Int
  finishedAt : Int
  status : CronRunStatus
  responseStatus : Option Nat := none
  error : Option RunError := none
  deriving DecidableEq, Repr

/-- A row of `app_cron_runs`. -/
structure RunRow where
  id : Nat
  jobId : Str
  appId : Str
  record : RunRecord
  durationMs : Int
  deriving DecidableEq, Repr

/-- Execution rows kept per job. -/
def RUNS_KEPT_PER_JOB : Nat := 20

/-- The rows that the query of `trimRuns` answers with. -/
def surplusRuns (runs : List RunRow) (jobId : Str) : List Nat :=
  ((((runs.filter (·.jobId == jobId)).mergeSort fun a b => decide (b.record.startedAt ≤ a.record.startedAt)).drop
    RUNS_KEPT_PER_JOB).take 201).map (·.id)

/-- `trimRuns`: keep the newest rows for this job; its query or its deletion may fail. -/
def trimRuns (runs : List RunRow) (jobId : Str) (fails : Bool) : List RunRow :=
  if fails then runs else runs.filter fun row => decide (row.id ∉ surplusRuns runs jobId)

/-! ## The tick -/

/-- A job of the tick. -/
structure DueJob extends JobRow where
  appId : Str
  timeoutMs : Int
  deriving DecidableEq, Repr

/-- How the request of a job ends. -/
inductive FetchAnswer where
  | response (status : Nat) (location : Option Str)
  /-- The controller aborted it. -/
  | aborted
  | threw (message : Str)
  deriving DecidableEq, Repr

/-- Whether this response is the login wall turning the job away. -/
def loginWallRedirect (env : TickEnv) (status : Nat) (location : Option Str) : Bool :=
  if status < 300 ∨ 400 ≤ status then false
  else
    match location with
    | none => false
    | some location =>
      if location = [] ∨ env.loginDomain = [] then false
      else
        match env.urlHost location with
        | some host => env.toLowerCase host == env.toLowerCase env.loginDomain
        | none => false

/-- What `executeJob` records of the answer to its request. -/
def recordOf (env : TickEnv) (startedAt finishedAt budgetMs : Int) : FetchAnswer → RunRecord
  | .response status location =>
    if loginWallRedirect env status location then
      { startedAt, finishedAt, status := .failed, responseStatus := some status, error := some .loginWall }
    else if 200 ≤ status ∧ status < 400 then
      { startedAt, finishedAt, status := .success, responseStatus := some status }
    else
      { startedAt, finishedAt, status := .failed, responseStatus := some status
        error := some (.answered status) }
  | .aborted => { startedAt, finishedAt, status := .timeout, error := some (.noAnswer budgetMs) }
  | .threw message => { startedAt, finishedAt, status := .failed, error := some (.threw message) }

/-- A worker of the tick. -/
inductive Lane where
  /-- At the top of its loop. -/
  | idle
  /-- The update of its claim is on the way. -/
  | claiming (job : DueJob)
  /-- The update matched the row, or no row. -/
  | claimed (job : DueJob) (matched : Bool)
  /-- The query for the app is on the way. -/
  | lookingUp (job : DueJob) (startedAt : Int)
  /-- The request is on the way. -/
  | fetching (job : DueJob) (startedAt budgetMs : Int)
  /-- The insert of the history row is on the way; a claim of a schedule that is not valid is no execution. -/
  | recording (job : DueJob) (record : RunRecord) (executed : Bool)
  /-- The history is being trimmed. -/
  | trimming (job : DueJob) (record : RunRecord) (executed : Bool)
  /-- It has returned, after the deadline or as no job is left. -/
  | returned (late : Bool)
  /-- A call of the database threw. -/
  | threw
  deriving DecidableEq, Repr

/-- What a run of a job came to, for the record. -/
inductive Happening where
  | invalidSchedule (error : ScheduleError)
  | offline
  | noAppsDomain
  | noApp
  | answered (budgetMs : Int) (answer : FetchAnswer)
  deriving DecidableEq, Repr

/-- The tick, the rows of the jobs and the history. -/
structure CronTick where
  now : Int
  deadline : Int
  clock : Int
  jobs : List DueJob
  cursor : Nat := 0
  lanes : List Lane
  /-- `next_run_at` of each job that has a row. -/
  nextRunAt : Str → Option (Option Int)
  runs : List RunRow := []
  /-- The id of the next history row. -/
  nextId : Nat := 0
  /-- The executions whose outcome the tick returns. -/
  outcomes : List (Str × RunRecord) := []
  /-- The jobs that a lane has taken to claim, for the record. -/
  attempted : List Str := []
  /-- The jobs whose row an update of this tick has set, for the record. -/
  moved : List Str := []
  /-- What the runs came to, for the record. -/
  happened : List (Str × Happening) := []
  /-- The history rows that this tick has inserted, for the record. -/
  inserted : List RunRow := []
  /-- The jobs that were deleted, for the record. -/
  deleted : List Str := []

/-- How an update ends: with an answer, or with an error before or after it was applied. -/
inductive UpdateOutcome where
  | answered
  | failed (applied : Bool)
  deriving DecidableEq, Repr

/-- The answer to the query for the app. -/
inductive AppAnswer where
  | failed
  | found (app : Option AppRow)
  deriving DecidableEq, Repr

/-- What happens next. -/
inductive TickInput where
  | advanceClock (ms : Nat)
  /-- Another tick or an edit sets the row of a job, or deletes it, and with it its history. -/
  | edit (jobId : Str) (nextRunAt : Option (Option Int))
  /-- Another tick, or a run by hand, inserts a history row. -/
  | otherRun (job : DueJob) (record : RunRecord)
  /-- Another tick, or a run by hand, trims the history of a job. -/
  | otherTrim (jobId : Str)
  /-- A lane is at the top of its loop. -/
  | turn (lane : Nat)
  | update (lane : Nat) (outcome : UpdateOutcome)
  /-- A lane goes on with the answer to its update. -/
  | resume (lane : Nat)
  | lookUp (lane : Nat) (answer : AppAnswer)
  | answer (lane : Nat) (answer : FetchAnswer)
  | insert (lane : Nat) (fails : Bool)
  | trim (lane : Nat) (fails : Bool)

/-- The tick with a lane in another state. -/
def CronTick.setLane (s : CronTick) (i : Nat) (lane : Lane) : CronTick := { s with lanes := s.lanes.set i lane }

/-- The tick with a note of what a run came to. -/
def CronTick.note (s : CronTick) (jobId : Str) (happening : Happening) : CronTick :=
  { s with happened := s.happened ++ [(jobId, happening)] }

/-- A run that failed before its request. -/
def failedRun (startedAt finishedAt : Int) (error : RunError) : RunRecord :=
  { startedAt, finishedAt, status := .failed, error := some error }

/-- The states in which nothing is executed for an app. -/
def offlineStates : List Str :=
  ["uninstalling".toList, "uninstall_failed".toList, "uninstalled".toList]

/-- `executeJob` from the answer to its query for the app to its request. -/
def CronTick.withApp (env : TickEnv) (s : CronTick) (i : Nat) (job : DueJob) (startedAt : Int)
    (app : Option AppRow) : CronTick :=
  if app.any fun app => offlineStates.contains app.fcStatus then
    (s.note job.id .offline).setLane i (.recording job (failedRun startedAt s.clock .offline) true)
  else
    match app.bind (appCurrentPublicUrl env) with
    | none =>
      let error := if app.isSome then .noAppsDomain else .noApp
      (s.note job.id (if app.isSome then .noAppsDomain else .noApp)).setLane i
      (.recording job (failedRun startedAt s.clock error) true)
    | some _ =>
      s.setLane i (.fetching job startedAt (max 1000 (min job.timeoutMs (s.deadline - s.clock))))

/-- The row that `recordRun` inserts. -/
def CronTick.newRow (s : CronTick) (job : DueJob) (record : RunRecord) : RunRow :=
  { id := s.nextId, jobId := job.id, appId := job.appId, record
    durationMs := record.finishedAt - record.startedAt }

/-- The history with one more row. -/
def CronTick.addRow (s : CronTick) (row : RunRow) : CronTick :=
  { s with runs := s.runs ++ [row], nextId := s.nextId + 1 }

/-- `insert` of `recordRun`. -/
def CronTick.insertRun (s : CronTick) (job : DueJob) (record : RunRecord) : CronTick :=
  { s.addRow (s.newRow job record) with inserted := s.inserted ++ [s.newRow job record] }

/-- The update of a claim: it sets the row when it still has the value that was read. -/
def CronTick.applyClaim (env : TickEnv) (s : CronTick) (job : DueJob) : CronTick :=
  { s with
    nextRunAt := Function.update s.nextRunAt job.id (some (nextOrNull env.zones job.toJobRow s.now))
    moved := s.moved ++ [job.id] }

/-- Whether the update of a claim matches the row. -/
def CronTick.matched (s : CronTick) (job : DueJob) : Bool := s.nextRunAt job.id == some (some job.nextRunAt)

/-- One step of the tick. -/
def tickStep (env : TickEnv) (s : CronTick) : TickInput → CronTick
  | .advanceClock ms => { s with clock := s.clock + ms }
  | .edit jobId (some nextRunAt) => { s with nextRunAt := Function.update s.nextRunAt jobId (some nextRunAt) }
  | .edit jobId none =>
    { s with
      nextRunAt := Function.update s.nextRunAt jobId none
      runs := s.runs.filter (·.jobId ≠ jobId)
      deleted := s.deleted ++ [jobId] }
  | .otherRun job record => s.addRow (s.newRow job record)
  | .otherTrim jobId => { s with runs := trimRuns s.runs jobId false }
  | .turn i =>
    match s.lanes[i]? with
    | some .idle =>
      if s.deadline ≤ s.clock then s.setLane i (.returned true)
      else
        match s.jobs[s.cursor]? with
        | some job =>
          { s.setLane i (.claiming job) with
            cursor := s.cursor + 1
            attempted := s.attempted ++ [job.id] }
        | none => { s.setLane i (.returned false) with cursor := s.cursor + 1 }
    | _ => s
  | .update i outcome =>
    match s.lanes[i]? with
    | some (.claiming job) =>
      match outcome with
      | .answered =>
        if s.matched job then (s.applyClaim env job).setLane i (.claimed job true)
        else s.setLane i (.claimed job false)
      | .failed true =>
        if s.matched job then (s.applyClaim env job).setLane i .threw else s.setLane i .threw
      | .failed false => s.setLane i .threw
    | _ => s
  | .resume i =>
    match s.lanes[i]? with
    | some (.claimed _ false) => s.setLane i .idle
    | some (.claimed job true) =>
      match nextOf env.zones job.toJobRow s.now with
      | .error error =>
        (s.note job.id (.invalidSchedule error)).setLane i
          (.recording job (failedRun s.now s.now (.scheduleNotValid error)) false)
      | .ok _ => s.setLane i (.lookingUp job s.clock)
    | _ => s
  | .lookUp i answer =>
    match s.lanes[i]? with
    | some (.lookingUp job startedAt) =>
      match answer with
      | .failed => s.setLane i .threw
      | .found app => s.withApp env i job startedAt app
    | _ => s
  | .answer i answer =>
    match s.lanes[i]? with
    | some (.fetching job startedAt budgetMs) =>
      (s.note job.id (.answered budgetMs answer)).setLane i
        (.recording job (recordOf env startedAt s.clock budgetMs answer) true)
    | _ => s
  | .insert i fails =>
    match s.lanes[i]? with
    | some (.recording job record executed) =>
      if fails then s.setLane i .threw
      else (s.insertRun job record).setLane i (.trimming job record executed)
    | _ => s
  | .trim i fails =>
    match s.lanes[i]? with
    | some (.trimming job record executed) =>
      { s.setLane i .idle with
        runs := trimRuns s.runs job.id fails
        outcomes := if executed then s.outcomes ++ [(job.id, record)] else s.outcomes }
    | _ => s

/-- A tick over the due jobs that its query has answered with, and over the history so far. -/
def tickMachine (env : TickEnv) (now clock maxTickMs : Int) (jobs : List DueJob)
    (nextRunAt : Str → Option (Option Int)) (runs : List RunRow) (nextId : Nat) : Machine CronTick TickInput where
  init :=
    { now, deadline := clock + maxTickMs, clock, jobs, nextRunAt, runs, nextId
      lanes := List.replicate (min TICK_CONCURRENCY jobs.length) .idle }
  step := tickStep env

end TeamClu.AppCron
