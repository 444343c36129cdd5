import Mathlib.Logic.Function.Basic
import TeamClu.ForStd.Machine
import TeamClu.ForStd.Text

/-!
# The run records of the desktop scheduler

`CronScheduler::execute_job` and `reconcile_interrupted_runs` of `apps/desktop/src/commands/cron/scheduler.rs`, over
`append_run` and `update_last_run` of `storage.rs`.  Executions, starts, stops and switches of the workspace interleave
at every await; `update_last_run` reads its file and writes it, and other executions can write in between.

What an execution does to the jobs (`update_job_after_run`, `delete_after_run`) is left out, and so is one that is
refused before a restart: neither writes a record.
-/

namespace TeamClu.DesktopCron

/-- The status of a run. -/
inductive RunStatus where
  | success
  | failed
  | timeout
  | running
  | stale
  deriving DecidableEq, Repr

/-- A record of a run; instants are in milliseconds. -/
structure CronRunRecord where
  runId : Str
  jobId : Str
  startedAt : Int
  finishedAt : Option Int := none
  status : RunStatus
  lastHeartbeatAt : Option Int := none
  sessionId : Option Str := none
  responseSummary : Option Str := none
  deliveryStatus : Option Str := none
  error : Option Str := none
  deriving DecidableEq, Repr

/-- A line of a run file that is not blank. -/
inductive RunLine where
  | record (record : CronRunRecord)
  /-- A line that does not parse. -/
  | other (text : Str)
  deriving DecidableEq, Repr

/-- The line is a record of the run. -/
def RunLine.isRun (runId : Str) : RunLine → Bool
  | .record entry => entry.runId == runId
  | .other _ => false

/-- The loop of `update_last_run`: the last line with the run id is replaced, if there is one. -/
def replaceLast (record : CronRunRecord) : List RunLine → Option (List RunLine)
  | [] => none
  | line :: rest =>
    match replaceLast record rest with
    | some rest' => some (line :: rest')
    | none => if line.isRun record.runId then some (.record record :: rest) else none

/-- `has_legacy_timeout_cut_short_text`. -/
def CronRunRecord.hasLegacyTimeoutCutShortText (record : CronRunRecord) : Bool :=
  let marker := "AI response was cut short after".toList
  record.responseSummary.any (Str.contains · marker) || record.error.any (Str.contains · marker)

/-- `normalize_legacy_timeout_status`. -/
def normalizeLegacyTimeoutStatus (record : CronRunRecord) : CronRunRecord :=
  if record.hasLegacyTimeoutCutShortText ∧ record.status = .success then { record with status := .timeout } else record

/-- The map of `get_latest_running_runs` after one more line: a record takes the place of an earlier one of its run. -/
def insertLatest (records : List CronRunRecord) : RunLine → List CronRunRecord
  | .record record => records.filter (·.runId ≠ record.runId) ++ [normalizeLegacyTimeoutStatus record]
  | .other _ => records

/-- `reconcile_interrupted_run` without the text of an assistant. -/
def reconcileInterruptedRun (record : CronRunRecord) (finishedAt : Int) : CronRunRecord :=
  if record.hasLegacyTimeoutCutShortText then
    { record with status := .timeout, finishedAt := some finishedAt }
  else
    { record with
      status := .stale
      finishedAt := some finishedAt
      error := some
        "Cron run was interrupted before completion; open the session to inspect the latest state.".toList }

/-! ## Executions -/

/-- How the result of a run is announced. -/
structure Delivery where
  /-- The mode is `Announce`. -/
  announce : Bool
  bestEffort : Bool
  deriving DecidableEq, Repr

/-- A job, as far as an execution decides on it. -/
structure RunJob where
  id : Str
  delivery : Option Delivery := none
  /-- The timeout of its payload with the slack of the client, in seconds. -/
  clientDeadlineSecs : Nat
  deriving DecidableEq, Repr

/-- `PromptAwaitResponse`. -/
structure Turn where
  text : Str
  sessionId : Str
  agentError : Option Str := none
  timedOut : Bool := false
  deriving DecidableEq, Repr

/-- Where `check_generation!` stands. -/
inductive Checkpoint where
  | beforeWork
  | beforeDelivery (turn : Turn)
  | beforeJobUpdate
  deriving DecidableEq, Repr

/-- What follows when a record is persisted. -/
inductive After where
  | prompt
  | judge (turn : Turn)
  | lastCheck
  | finish
  deriving DecidableEq, Repr

/-- Where an execution is. -/
inductive RunPhase where
  /-- It has read the generation. -/
  | readingWorkspace
  /-- It is in the first `append_run`. -/
  | opening
  | checking (checkpoint : Checkpoint)
  /-- It is in the `append_run` of `check_generation!`. -/
  | aborting
  | preparing
  | prompting
  /-- It is in `update_last_run`, before that has the workspace. -/
  | persisting (after : After)
  /-- `update_last_run` has read these lines and will write them with the record. -/
  | rewriting (lines : List RunLine) (after : After)
  /-- `update_last_run` has found no file and is in `append_run`. -/
  | appending (after : After)
  /-- It looks for the delivery manager. -/
  | delivering (turn : Turn)
  | sending (turn : Turn) (bestEffort : Bool)
  | finished
  deriving DecidableEq, Repr

/-- An execution of `execute_job`. -/
structure Run where
  job : RunJob
  generation : Nat
  workspace : Str := []
  record : CronRunRecord
  phase : RunPhase := .readingWorkspace
  /-- The turn that was answered, for the record. -/
  turn : Option Turn := none
  /-- The result was delivered, for the record. -/
  delivered : Bool := false
  deriving DecidableEq, Repr

/-- Where a call of `reconcile_interrupted_runs` is. -/
inductive ReconcilePhase where
  /-- `get_latest_running_runs` still has to read the run files of these jobs. -/
  | reading (jobIds : List Str)
  /-- It takes its next record. -/
  | choosing
  /-- `update_last_run` has read these lines and will write them with the record. -/
  | rewriting (record : CronRunRecord) (lines : List RunLine)
  /-- `update_last_run` has found no file and is in `append_run`. -/
  | appending (record : CronRunRecord)
  deriving DecidableEq, Repr

/-- A call of `reconcile_interrupted_runs`. -/
structure Reconciliation where
  /-- The records that were read and are still to be reconciled. -/
  pending : List CronRunRecord := []
  phase : ReconcilePhase
  deriving DecidableEq, Repr

/-- The scheduler, its storage and its executions. -/
structure RunSystem where
  clock : Int
  workspace : Option Str := none
  generation : Nat := 0
  /-- There is a delivery manager. -/
  delivery : Bool := false
  /-- The run file of a workspace and a job. -/
  files : Str × Str → Option (List RunLine)
  runs : List Run := []
  reconciliations : List Reconciliation := []
  /-- The run ids that were given out. -/
  issued : List Str

/-- What happens next. -/
inductive RunInput where
  | advanceClock (ms : Nat)
  | start
  | stop
  | switch (workspace : Str)
  | setDelivery
  /-- A call of `reconcile_interrupted_runs`; the directory holds the run files of these jobs, in this order. -/
  | reconcile (jobIds : List Str)
  /-- The next step of a call of `reconcile_interrupted_runs`; if it takes a record, the map gives it this one. -/
  | reconcileGo (call record : Nat)
  | begin (runId : Str) (job : RunJob)
  /-- The next step of an execution that waits for no answer. -/
  | go (run : Nat)
  /-- The answer to `prepare_cron_session`, or none for an error. -/
  | prepared (run : Nat) (session : Option Str)
  | heartbeat (run : Nat)
  | prompted (run : Nat) (result : Except Str Turn)
  | deadline (run : Nat)
  | sent (run : Nat) (result : Except Str Unit)

/-! ## The steps of an execution -/

/-- `truncate_response_summary`. -/
def truncateResponseSummary (response : Str) : Str :=
  if 500 < response.length then response.take 497 ++ "...".toList else response

/-- The file of the run. -/
def Run.file (run : Run) (workspace : Str) : Str × Str := (workspace, run.job.id)

/-- The execution ends as failed, and its record is persisted. -/
def Run.fail (run : Run) (now : Int) (error : Str) : Run :=
  { run with
    record := { run.record with status := .failed, finishedAt := some now, error := some error }
    phase := .persisting .finish }

/-- The end of an execution whose turn was answered. -/
def Run.complete (run : Run) (now : Int) (turn : Turn) : Run :=
  { run with
    record := { run.record with
      status := if turn.timedOut then .timeout else .success
      finishedAt := some now }
    phase := .persisting .lastCheck }

/-- The execution from a check that found its generation active. -/
def Run.pass (run : Run) (now : Int) : Checkpoint → Run
  | .beforeWork => { run with phase := .preparing }
  | .beforeDelivery turn =>
    if run.job.delivery.any (·.announce) ∧ turn.text ≠ [] then { run with phase := .delivering turn }
    else run.complete now turn
  | .beforeJobUpdate => { run with phase := .finished }

/-- The execution from the end of `update_last_run`. -/
def Run.resume (run : Run) (now : Int) : After → Run
  | .prompt => { run with phase := .prompting }
  | .judge turn =>
    match turn.agentError with
    | some error => run.fail now error
    | none =>
      { run with
        record := { run.record with
          responseSummary :=
            if turn.text = [] then run.record.responseSummary else some (truncateResponseSummary turn.text) }
        phase := .checking (.beforeDelivery turn) }
  | .lastCheck => { run with phase := .checking .beforeJobUpdate }
  | .finish => { run with phase := .finished }

/-- The system with an execution in another state. -/
def RunSystem.setRun (s : RunSystem) (i : Nat) (run : Run) : RunSystem := { s with runs := s.runs.set i run }

/-- The system with other lines in a run file. -/
def RunSystem.setFile (s : RunSystem) (file : Str × Str) (lines : List RunLine) : RunSystem :=
  { s with files := Function.update s.files file (some lines) }

/-- `append_run`. -/
def RunSystem.appendRun (s : RunSystem) (record : CronRunRecord) : RunSystem :=
  match s.workspace with
  | some workspace =>
    s.setFile (workspace, record.jobId) ((s.files (workspace, record.jobId)).getD [] ++ [.record record])
  | none => s

/-- The next step of an execution that waits for no answer. -/
def goStep (s : RunSystem) (i : Nat) (run : Run) : RunSystem :=
  match run.phase with
  | .readingWorkspace => s.setRun i { run with workspace := s.workspace.getD [], phase := .opening }
  -- `append_run` writes to the workspace of the moment, not to that of the execution
  | .opening => (s.appendRun run.record).setRun i { run with phase := .checking .beforeWork }
  -- `check_generation!`
  | .checking checkpoint =>
    if s.generation = run.generation then s.setRun i (run.pass s.clock checkpoint)
    else
      s.setRun i { run with
        record := { run.record with
          status := .failed
          finishedAt := some s.clock
          error := some "Aborted due to workspace change".toList }
        phase := .aborting }
  | .aborting => (s.appendRun run.record).setRun i { run with phase := .finished }
  | .persisting after =>
    match s.workspace with
    | none => s.setRun i (run.resume s.clock after)
    | some workspace =>
      match s.files (run.file workspace) with
      | none => s.setRun i { run with phase := .appending after }
      -- the file is read here and written in the next step, without the lock on the files
      | some lines => s.setRun i { run with phase := .rewriting lines after }
  | .rewriting lines after =>
    -- The workspace is locked since the lines were read.
    match s.workspace, replaceLast run.record lines with
    | some workspace, some lines' => (s.setFile (run.file workspace) lines').setRun i (run.resume s.clock after)
    | _, _ => s.setRun i (run.resume s.clock after)
  | .appending after => (s.appendRun run.record).setRun i (run.resume s.clock after)
  | .delivering turn =>
    if s.delivery then
      s.setRun i { run with phase := .sending turn (run.job.delivery.any (·.bestEffort)) }
    else
      -- without a manager a required delivery is noted as skipped, and the run is a success
      s.setRun i ({ run with record := { run.record with
        deliveryStatus := some "skipped (delivery manager not available)".toList } }.complete s.clock turn)
  | _ => s

/-- The system with a call of `reconcile_interrupted_runs` in another state. -/
def RunSystem.setReconciliation (s : RunSystem) (k : Nat) (call : Reconciliation) : RunSystem :=
  { s with reconciliations := s.reconciliations.set k call }

/-- The next step of `reconcile_interrupted_runs`: it reads the files one by one, keeps the running records, and then
    writes each of them without another look at its status. -/
def reconcileStep (s : RunSystem) (k n : Nat) (call : Reconciliation) : RunSystem :=
  match call.phase with
  | .reading jobIds =>
    -- The workspace is locked until all files are read.
    match jobIds, s.workspace with
    | jobId :: jobIds, some workspace =>
      let lines := (s.files (workspace, jobId)).getD []
      s.setReconciliation k { pending := lines.foldl insertLatest call.pending, phase := .reading jobIds }
    | _, _ => s.setReconciliation k { pending := call.pending.filter (·.status = .running), phase := .choosing }
  -- the order of the map is not fixed: any record may be the next
  | .choosing =>
    match call.pending[n]? with
    | none => s
    | some record =>
      let reconciled := reconcileInterruptedRun record s.clock
      let pending := call.pending.eraseIdx n
      match s.workspace with
      | none => s.setReconciliation k { pending, phase := .choosing }
      | some workspace =>
        match s.files (workspace, record.jobId) with
        | none => s.setReconciliation k { pending, phase := .appending reconciled }
        | some lines => s.setReconciliation k { pending, phase := .rewriting reconciled lines }
  | .rewriting record lines =>
    let written := match s.workspace, replaceLast record lines with
      | some workspace, some lines' => s.setFile (workspace, record.jobId) lines'
      | _, _ => s
    written.setReconciliation k { call with phase := .choosing }
  | .appending record => (s.appendRun record).setReconciliation k { call with phase := .choosing }

/-- The execution has a lock on the workspace. -/
def Run.locks (run : Run) : Bool :=
  match run.phase with
  | .rewriting _ _ => true
  | _ => false

/-- The call of `reconcile_interrupted_runs` has a lock on the workspace. -/
def Reconciliation.locks (call : Reconciliation) : Bool :=
  match call.phase with
  | .reading _ | .rewriting _ _ => true
  | .choosing | .appending _ => false

/-- Someone has a lock on the workspace. -/
def RunSystem.locked (s : RunSystem) : Bool := s.runs.any Run.locks || s.reconciliations.any Reconciliation.locks

/-- One step of the system. -/
def runStep (s : RunSystem) : RunInput → RunSystem
  | .advanceClock ms => { s with clock := s.clock + ms }
  -- both tell the executions under way that their scheduler is gone
  | .start | .stop => { s with generation := s.generation + 1 }
  | .switch workspace => if s.locked then s else { s with workspace := some workspace }
  | .setDelivery => { s with delivery := true }
  | .reconcile jobIds =>
    { s with reconciliations := s.reconciliations ++ [{ phase := .reading (if s.workspace.isSome then jobIds else []) }] }
  | .reconcileGo k n =>
    match s.reconciliations[k]? with
    | some call => reconcileStep s k n call
    | none => s
  | .begin runId job =>
    if runId ∈ s.issued then s
    else
      { s with
        issued := runId :: s.issued
        runs := s.runs ++ [{
          job
          generation := s.generation
          record := { runId, jobId := job.id, startedAt := s.clock, status := .running
                      lastHeartbeatAt := some s.clock } }] }
  | .go i =>
    match s.runs[i]? with
    | some run => goStep s i run
    | none => s
  | .prepared i session =>
    match s.runs[i]? with
    | some run =>
      if run.phase = .preparing then
        match session with
        | some sessionId =>
          s.setRun i { run with
            record := { run.record with sessionId := some sessionId }
            phase := .persisting .prompt }
        | none => s.setRun i { run with phase := .prompting }
      else s
    | none => s
  | .heartbeat i =>
    match s.runs[i]? with
    | some run =>
      if run.phase = .prompting then
        s.setRun i { run with
          record := { run.record with lastHeartbeatAt := some s.clock }
          phase := .persisting .prompt }
      else s
    | none => s
  | .prompted i result =>
    match s.runs[i]? with
    | some run =>
      if run.phase = .prompting then
        match result with
        | .error error => s.setRun i (run.fail s.clock error)
        | .ok turn =>
          s.setRun i { run with
            record := { run.record with sessionId := some turn.sessionId }
            turn := some turn
            phase := .persisting (.judge turn) }
      else s
    | none => s
  -- the timeout around the prompt
  | .deadline i =>
    match s.runs[i]? with
    | some run =>
      if run.phase = .prompting then
        s.setRun i (run.fail s.clock
          ("amuxd response exceeded ".toList ++ (toString run.job.clientDeadlineSecs).toList ++ ['s']))
      else s
    | none => s
  | .sent i result =>
    match s.runs[i]? with
    | some run =>
      match run.phase, result with
      | .sending turn _, .ok () =>
        s.setRun i ({ run with
          record := { run.record with deliveryStatus := some "delivered".toList }
          delivered := true }.complete s.clock turn)
      | .sending turn bestEffort, .error error =>
        let message := "Delivery failed: ".toList ++ error
        let told : Run := { run with record := { run.record with deliveryStatus := some message } }
        s.setRun i (if bestEffort then told.complete s.clock turn else told.fail s.clock message)
      | _, _ => s
    | none => s

/-- The scheduler over run files, before any execution. -/
def runMachine (clock : Int) (files : Str × Str → Option (List RunLine)) (issued : List Str) :
    Machine RunSystem RunInput where
  init := { clock, files, issued }
  step := runStep

end TeamClu.DesktopCron
