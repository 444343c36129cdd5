import TeamClu.ForStd.Machine
import TeamClu.ForStd.Text

/-!
# The supervision of the MQTT connection

`run_supervisor` of `apps/daemon/src/mqtt/supervisor.rs` and the part of its worker that it sees: the state
of the connection, the readiness controls and the events.  The worker and the supervisor run at the same time; they
share the channel of worker events and the flag `connected`.  While the supervisor stops a worker, the worker goes
on until it sees the request, or is aborted after five seconds.

Left out: the commands and dispositions that pass through (only that one may meet the closed channel of a worker
that has exited), the flag that coalesces the senders of recovery signals, the bootstrap refresh, and the times and
the version of the snapshot.  Instants are milliseconds, one for each pass.  Generations and the number of
connections are natural numbers: the source counts them in 64 bits (`wrapping_add`, `saturating_add`), so the
model is its behaviour for less than 2 ^ 64 workers and connections of one process.
-/

namespace TeamClu.Connection

/-! ## Events, phases and the snapshot -/

/-- `MqttSupervisorEvent`; each but the last has its `generation` and its `worker_generation`. -/
inductive MqttSupervisorEvent
  | transportConnected (generation workerGeneration : Nat)
  | subscriptionsReady (generation workerGeneration : Nat)
  | generationReady (generation workerGeneration : Nat)
  | disconnected (generation workerGeneration : Nat) (reason : Str)
  | rebuilt (generation workerGeneration : Nat) (reason : Str)
  | terminated
  deriving DecidableEq

/-- `WorkerEvent`. -/
inductive WorkerEvent
  | supervisor (event : MqttSupervisorEvent)
  | exited (workerGeneration : Nat) (reason : Str)
  deriving DecidableEq

/-- The phases of a snapshot. -/
inductive Phase
  | connecting | authRecovering | backoff | storageError | recovering | transportConnected | restoring | ready
  | stopped
  deriving DecidableEq, Repr

/-- `MqttSnapshot`. -/
structure MqttSnapshot where
  connected : Bool := false
  phase : Phase
  workerGeneration : Option Nat := none
  connectionAttempt : Option Nat := none
  readyGeneration : Option Nat := none
  lastErrorCode : Option String := none
  lastRecoveryReason : Option String := none
  deriving DecidableEq

/-- `mqtt_error_code`. -/
def mqttErrorCode (reason : Str) : String :=
  let reason := reason.map Char.toLower
  let has (needle : String) := Str.contains reason needle.toList
  if has "dns" || has "resolve" then "dns_failure"
  else if has "tls" || has "certificate" then "tls_failure"
  else if has "not authorized" || has "bad username" || has "authentication" then "broker_auth_rejected"
  else if has "timeout" || has "timed out" then "network_timeout"
  else if has "502" || has "503" then "broker_unavailable"
  else if has "closed" || has "eof" then "connection_closed"
  else "transport_failure"

/-- `is_durable_store_failure`. -/
def isDurableStoreFailure (reason : Str) : Bool := "durable_store:".toList.isPrefixOf reason

/-- `MqttRecoveryReason`. -/
inductive MqttRecoveryReason
  | startup | visibilityResume | longVisibilityResume | networkOnline | userRequested | watchdog
  | credentialRejected
  deriving DecidableEq, Repr

/-- `as_str`. -/
def MqttRecoveryReason.asStr : MqttRecoveryReason → String
  | .startup => "startup"
  | .visibilityResume => "visibility_resume"
  | .longVisibilityResume => "long_visibility_resume"
  | .networkOnline => "network_online"
  | .userRequested => "user_requested"
  | .watchdog => "watchdog"
  | .credentialRejected => "credential_rejected"

/-- `recovery_may_retry_storage`. -/
def recoveryMayRetryStorage (reason : MqttRecoveryReason) : Bool := reason = .userRequested

/-- `MqttRecoveryOutcome`. -/
inductive MqttRecoveryOutcome
  | recovering | alreadyHealthy
  deriving DecidableEq, Repr

/-- `MqttRecoveryAccepted`, the answer to a recovery signal. -/
structure MqttRecoveryAccepted where
  accepted : Bool
  outcome : MqttRecoveryOutcome
  workerGeneration : Option Nat
  deriving DecidableEq

/-! ## Workers -/

/-- What the supervisor sees of a `MqttWorker`, with the controls that it has not read. -/
structure Worker where
  workerGeneration : Nat
  generation : Nat
  connected : Bool := false
  generationReady : Bool := false
  subscriptionsReadyAnnounced : Bool := false
  control : List (Nat × Nat) := []
  exited : Bool := false
  deriving DecidableEq

/-- What a worker does next: the broker accepts the connection, with subscriptions to restore or without; the last
    of them is restored; the connection fails; a control is read; the worker exits. -/
inductive WorkerInput
  | connAck (restores : Bool)
  | restored
  | pollError (reason : Str)
  | readControl
  | exit (reason : Str)
  deriving DecidableEq

/-- The state of `run_supervisor`, with what it shares with the workers, and what it has told the daemon. -/
structure Supervisor where
  worker : Option Worker
  generation : Nat := 0
  workerGeneration : Nat := 0
  transportConnectedGeneration : Option Nat := none
  restartReason : Option Str := none
  nextRestart : Nat
  restartFailures : Nat := 0
  readyConnectionGeneration : Option Nat := none
  lastObservedMs : Nat
  storageBlocked : Bool := false
  recoveryInProgress : Bool := false
  connected : Bool := false
  snapshot : MqttSnapshot
  workerEvents : List WorkerEvent := []
  events : List MqttSupervisorEvent := []
  recoveries : List MqttRecoveryAccepted := []
  terminated : Bool := false
  deriving DecidableEq

/-- `emit_supervisor_event`. -/
def Supervisor.emit (s : Supervisor) (event : MqttSupervisorEvent) : Supervisor :=
  { s with events := s.events ++ [event] }

/-- The end of `MqttWorker::run`. -/
def Worker.exit (w : Worker) (reason : Str) : Worker × Bool × List WorkerEvent :=
  ({ w with connected := false, generationReady := false, exited := true }, false,
    [.exited w.workerGeneration reason])

/-- One step of the loop of `MqttWorker::run`: the worker, the flag `connected` and the events that are sent. -/
def Worker.act (w : Worker) (flag : Bool) : WorkerInput → Worker × Bool × List WorkerEvent
  | .connAck restores =>
    let generation := w.generation + 1
    ({ w with generation, connected := true, generationReady := false, subscriptionsReadyAnnounced := !restores },
      false, [.supervisor (.transportConnected generation w.workerGeneration)])
  | .restored =>
    -- `announce_subscriptions_ready`
    if w.connected ∧ w.subscriptionsReadyAnnounced = false then
      ({ w with subscriptionsReadyAnnounced := true }, flag,
        [.supervisor (.subscriptionsReady w.generation w.workerGeneration)])
    else (w, flag, [])
  | .pollError reason =>
    if w.connected then
      ({ w with connected := false, generationReady := false }, false,
        [.supervisor (.disconnected w.generation w.workerGeneration reason)])
    else (w, flag, [])
  | .readControl =>
    match w.control with
    | [] => (w, flag, [])
    | (generation, workerGeneration) :: control =>
      if w.generation = generation ∧ w.workerGeneration = workerGeneration ∧ w.connected then
        ({ w with control, generationReady := true }, true,
          [.supervisor (.generationReady generation workerGeneration)])
      else ({ w with control }, flag, [])
  | .exit reason => w.exit reason

/-- One step of the worker, if there is one at work. -/
def workerStep (s : Supervisor) (input : WorkerInput) : Supervisor :=
  match s.worker with
  | some w =>
    if w.exited then s
    else
      let (w, connected, sent) := w.act s.connected input
      { s with worker := some w, connected, workerEvents := s.workerEvents ++ sent }
  | none => s

/-- How a worker is stopped: what it does before it sees the request, and whether it sees it in time. -/
structure Stopping where
  window : List WorkerInput := []
  graceful : Bool := true
  deriving DecidableEq

/-- `stop_worker`. -/
def stopWorker (s : Supervisor) (stopping : Stopping) : Supervisor :=
  let s := stopping.window.foldl workerStep s
  let s := if stopping.graceful then workerStep s (.exit "MQTT worker stop requested".toList) else s
  { s with worker := none }

/-! ## Restarts -/

/-- `REBUILD_RETRY`. -/
def REBUILD_RETRY : Nat := 5000

/-- `REBUILD_RETRY_MAX`. -/
def REBUILD_RETRY_MAX : Nat := 30000

/-- `restart_delay`. -/
def restartDelay (failureCount : Nat) : Nat := min (REBUILD_RETRY * 2 ^ min (failureCount - 1) 3) REBUILD_RETRY_MAX

/-- `schedule_restart`, where the count of failures saturates. -/
def Supervisor.scheduleRestart (s : Supervisor) (now : Nat) : Supervisor :=
  let restartFailures := min (s.restartFailures + 1) 4294967295
  { s with restartFailures, nextRestart := max s.nextRestart (now + restartDelay restartFailures) }

/-- `restart_reason.get_or_insert(reason)`. -/
def Supervisor.becauseOf (s : Supervisor) (reason : Str) : Supervisor :=
  { s with restartReason := some (s.restartReason.getD reason) }

/-- The answer to the request for a credential. -/
inductive Credential
  | token | failed | timedOut
  deriving DecidableEq, Repr

/-- A new worker, with the generation that the supervisor knows as its seed. -/
def spawnWorker (s : Supervisor) (reason : Str) : Supervisor :=
  let workerGeneration := s.workerGeneration + 1
  { s with
    workerGeneration
    worker := some { workerGeneration, generation := s.generation }
    connected := false
    snapshot := { s.snapshot with
      phase := .connecting, workerGeneration := some workerGeneration, connected := false,
      readyGeneration := none } }.emit (.rebuilt s.generation workerGeneration reason)

/-- The top of the loop where a worker is due: a credential, and a worker with it. -/
def restart (s : Supervisor) (credential : Credential) (now : Nat) : Supervisor :=
  let reason := s.restartReason.getD "MQTT worker exited".toList
  let s := { s with
    restartReason := none
    snapshot := { s.snapshot with phase := .authRecovering, connected := false, readyGeneration := none } }
  let backoff (code : String) : Supervisor :=
    let s := s.scheduleRestart now
    { s with snapshot := { s.snapshot with phase := .backoff, lastErrorCode := some code } }
  match credential with
  | .token => spawnWorker s reason
  | .failed => backoff "cloud_auth_failure"
  | .timedOut => backoff "cloud_auth_timeout"

/-! ## Controls and recovery signals -/

/-- `is_current_ready_generation`. -/
def Supervisor.isCurrentReadyGeneration (s : Supervisor) (generation workerGeneration : Nat) : Bool :=
  s.worker.isSome && s.workerGeneration = workerGeneration && s.transportConnectedGeneration = some generation &&
    s.generation = generation

/-- `rebuild_fence_matches_generation`. -/
def Supervisor.rebuildFenceMatches (s : Supervisor) (fence : Option (Nat × Nat)) : Bool :=
  fence.all fun f => s.worker.isSome && s.generation = f.1 && s.workerGeneration = f.2

/-- `CONTROL_CAPACITY`. -/
def CONTROL_CAPACITY : Nat := 32

/-- A readiness control, passed on to the worker. -/
def controlReady (s : Supervisor) (generation workerGeneration : Nat) : Supervisor :=
  match s.worker with
  | none => s
  | some w =>
    if s.isCurrentReadyGeneration generation workerGeneration ∧ w.exited = false ∧
        w.control.length < CONTROL_CAPACITY then
      { s with worker := some { w with control := w.control ++ [(generation, workerGeneration)] } }
    else s

/-- A durable store that fails: the worker is stopped, and none is started. -/
def blockStorage (s : Supervisor) (stopping : Stopping) : Supervisor :=
  let s := { s with
    storageBlocked := true, restartReason := none, recoveryInProgress := false,
    transportConnectedGeneration := none, connected := false, readyConnectionGeneration := none }
  let s := stopWorker s stopping
  { s with snapshot := { s.snapshot with
      phase := .storageError, connected := false, readyGeneration := none,
      lastErrorCode := some "durable_store_corrupt" } }

/-- A rebuild request. -/
def controlRebuild (s : Supervisor) (reason : Str) (fence : Option (Nat × Nat)) (stopping : Stopping) (now : Nat) :
    Supervisor :=
  if s.rebuildFenceMatches fence = false then s
  else if isDurableStoreFailure reason then blockStorage s stopping
  else
    let firstRequest := s.restartReason.isNone
    let s := s.becauseOf reason
    if s.worker.isSome then
      let s := { stopWorker s stopping with
        transportConnectedGeneration := none, connected := false, readyConnectionGeneration := none }
      if firstRequest then s.scheduleRestart now else s
    else if firstRequest then { s with nextRestart := now }
    else s

/-- Whether a recovery signal finds a healthy connection. -/
def Supervisor.healthy (s : Supervisor) : Bool :=
  s.worker.isSome && s.readyConnectionGeneration = some s.generation && s.connected

/-- A stop without which the recovery would keep its connection. -/
def stopForRecovery (s : Supervisor) (stopping : Stopping) : Supervisor :=
  if s.worker.isSome then
    { stopWorker s stopping with transportConnectedGeneration := none, connected := false }
  else s

/-- A recovery signal. -/
def recover (s : Supervisor) (reason : MqttRecoveryReason) (stopping : Stopping) (now : Nat) : Supervisor :=
  let current := if s.worker.isSome then some s.workerGeneration else none
  let answer (accepted : Bool) (outcome : MqttRecoveryOutcome) : List MqttRecoveryAccepted :=
    s.recoveries ++ [{ accepted, outcome, workerGeneration := current }]
  if s.healthy then { s with recoveries := answer true .alreadyHealthy }
  else if s.storageBlocked && !recoveryMayRetryStorage reason then { s with recoveries := answer false .recovering }
  else
    let alreadyRecovering := s.recoveryInProgress
    let s := { s with
      snapshot := { s.snapshot with
        phase := if alreadyRecovering then s.snapshot.phase else .recovering
        lastRecoveryReason := some reason.asStr, connected := false, readyGeneration := none }
      recoveryInProgress := true
      storageBlocked := s.storageBlocked && !recoveryMayRetryStorage reason
      readyConnectionGeneration := none
      recoveries := answer true .recovering }
    let s := if alreadyRecovering then s else stopForRecovery s stopping
    let s := s.becauseOf (reason.asStr.toList ++ " recovery".toList)
    if alreadyRecovering then s else { s with nextRestart := now }

/-! ## Worker events -/

/-- `worker_event_matches_generation`. -/
def workerEventMatches (active : Nat) : MqttSupervisorEvent → Bool
  | .transportConnected _ w | .subscriptionsReady _ w | .generationReady _ w | .disconnected _ w _
  | .rebuilt _ w _ => w = active
  | .terminated => true

/-- An event of the active worker, before it is passed on. -/
def observe (s : Supervisor) : MqttSupervisorEvent → Supervisor
  | .transportConnected current _ =>
    { s with
      generation := current
      transportConnectedGeneration := some current
      snapshot := { s.snapshot with
        phase := .transportConnected, workerGeneration := some s.workerGeneration,
        connectionAttempt := some (s.snapshot.connectionAttempt.getD 0 + 1), connected := false,
        readyGeneration := none } }
  | .disconnected _ _ reason =>
    { s with
      transportConnectedGeneration := none, connected := false, readyConnectionGeneration := none
      snapshot := { s.snapshot with
        phase := .recovering, connected := false, readyGeneration := none,
        lastErrorCode := some (mqttErrorCode reason) } }
  | .generationReady generation workerGeneration =>
    if s.isCurrentReadyGeneration generation workerGeneration then
      { s with
        restartFailures := 0, recoveryInProgress := false, readyConnectionGeneration := some generation
        snapshot := { s.snapshot with
          phase := .ready, connected := true, readyGeneration := some workerGeneration } }
    else s
  | .subscriptionsReady _ _ => { s with snapshot := { s.snapshot with phase := .restoring } }
  | .rebuilt _ _ _ | .terminated => s

/-- The exit of a worker. -/
def workerExited (s : Supervisor) (reason : Str) (stopping : Stopping) (now : Nat) : Supervisor :=
  let hadWorker := s.worker.isSome
  let s := { s with
    restartReason := some reason, transportConnectedGeneration := none, connected := false,
    readyConnectionGeneration := none }
  let s := stopWorker s stopping
  let s := if hadWorker then s.scheduleRestart now else s
  { s with snapshot := { s.snapshot with
      phase := .backoff, connected := false, readyGeneration := none,
      lastErrorCode := some (mqttErrorCode reason) } }

/-! ## The loop -/

/-- Which branch of the `select!` runs. -/
inductive Branch
  | shutdown
  | ready (generation workerGeneration : Nat)
  | rebuild (reason : Str) (fence : Option (Nat × Nat))
  | recovery (reason : MqttRecoveryReason)
  | event
  | tick
  deriving DecidableEq

/-- One pass of the loop: whether a command or a disposition waits, the answer to a request for a credential, the
    branch, and how workers are stopped.  `now` is the monotonic clock, `nowMs` the one on the wall. -/
structure Pass where
  command : Bool := false
  disposition : Bool := false
  credential : Credential := .token
  branch : Branch
  stopping : Stopping := {}
  wakeStopping : Stopping := {}
  now : Nat
  nowMs : Nat
  deriving DecidableEq

/-- A branch, and whether it goes on to the end of the pass. -/
def runBranch (s : Supervisor) (pass : Pass) : Supervisor × Bool :=
  match pass.branch with
  | .shutdown => (s, true)
  | .tick => (s, true)
  | .ready generation workerGeneration => (controlReady s generation workerGeneration, true)
  | .rebuild reason fence =>
    (controlRebuild s reason fence pass.stopping pass.now,
      s.rebuildFenceMatches fence && !isDurableStoreFailure reason)
  | .recovery reason =>
    (recover s reason pass.stopping pass.now,
      s.healthy || !s.storageBlocked || recoveryMayRetryStorage reason)
  | .event =>
    match s.workerEvents with
    | [] => (s, true)
    | .supervisor event :: rest =>
      let s := { s with workerEvents := rest }
      if workerEventMatches s.workerGeneration event then ((observe s event).emit event, true) else (s, false)
    | .exited workerGeneration reason :: rest =>
      let s := { s with workerEvents := rest }
      if s.workerGeneration ≠ workerGeneration then (s, false)
      else if isDurableStoreFailure reason then (blockStorage s pass.stopping, false)
      else if s.storageBlocked then (s, false)
      else (workerExited s reason pass.stopping pass.now, true)

/-- `WAKE_GAP_THRESHOLD`. -/
def WAKE_GAP_THRESHOLD : Nat := 120000

/-- The end of a pass: a gap of the clock on the wall starts a recovery. -/
def wakeGap (s : Supervisor) (stopping : Stopping) (now nowMs : Nat) : Supervisor :=
  let gap := WAKE_GAP_THRESHOLD ≤ nowMs - s.lastObservedMs
  let s := { s with lastObservedMs := nowMs }
  if gap ∧ s.recoveryInProgress = false then
    let s := { s with
      recoveryInProgress := true
      snapshot := { s.snapshot with
        phase := .recovering, connected := false, readyGeneration := none,
        lastRecoveryReason := some "daemon_wake_gap" }
      readyConnectionGeneration := none }
    let s := s.becauseOf "daemon wake gap recovery".toList
    { stopForRecovery s stopping with nextRestart := now }
  else s

/-- What waits meets the closed channels of a worker that has exited. -/
def flushWaiting (s : Supervisor) (command disposition : Bool) : Supervisor :=
  match s.worker with
  | some w =>
    if w.exited then
      let s := if command then s.becauseOf "MQTT worker command channel closed".toList else s
      if disposition then s.becauseOf "MQTT worker disposition channel closed".toList else s
    else s
  | none => s

/-- The end of the loop. -/
def shutdown (s : Supervisor) (stopping : Stopping) : Supervisor :=
  let s := { s with
    connected := false
    snapshot := { s.snapshot with phase := .stopped, connected := false, readyGeneration := none } }
  { (stopWorker s stopping).emit .terminated with terminated := true }

/-- Whether a worker is due. -/
def Supervisor.restartDue (s : Supervisor) (now : Nat) : Bool :=
  s.worker.isNone && !s.storageBlocked && s.nextRestart ≤ now

/-- The `select!` and what follows. -/
def select (s : Supervisor) (pass : Pass) : Supervisor :=
  if pass.branch = .shutdown then shutdown s pass.stopping
  else
    let ran := runBranch s pass
    if ran.2 then wakeGap ran.1 pass.wakeStopping pass.now pass.nowMs else ran.1

/-- One pass of the loop of `run_supervisor`. -/
def runPass (s : Supervisor) (pass : Pass) : Supervisor :=
  let s := flushWaiting s pass.command pass.disposition
  if s.restartDue pass.now then
    let s := restart s pass.credential pass.now
    if pass.credential = .token then select s pass else s
  else select s pass

/-- A step of the supervisor or of its worker. -/
inductive Input
  | pass (pass : Pass)
  | worker (input : WorkerInput)
  deriving DecidableEq

/-- One step. -/
def step (s : Supervisor) : Input → Supervisor
  | .pass pass => if s.terminated then s else runPass s pass
  | .worker input => workerStep s input

/-- The supervisor, started at `now` with its first worker. -/
def supervisor (now nowMs : Nat) : Machine Supervisor Input where
  init := {
    worker := some { workerGeneration := 0, generation := 0 }
    nextRestart := now
    lastObservedMs := nowMs
    snapshot := { phase := .connecting, workerGeneration := some 0 } }
  step := step

end TeamClu.Connection
