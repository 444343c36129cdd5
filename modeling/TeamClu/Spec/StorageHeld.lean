import TeamClu.Spec.MqttGenerations

/-!
# A durable store that fails

A worker that cannot open or write its durable store exits with a reason that says so.  The supervisor then starts no
worker: signals of the machine and of the network do not count, the request of a user does.

Key results:
- `storage_held`: no worker after a failure of the durable store, until a user asks.
-/

namespace TeamClu.Connection

/-- What a failed store leaves. -/
private def Held (workerGeneration : Nat) (s : Supervisor) : Prop :=
  s.storageBlocked = true ∧ s.worker = none ∧ s.workerGeneration = workerGeneration

private theorem Held.same {g : Nat} {s s' : Supervisor} (h : Held g s) (hblocked : s'.storageBlocked = s.storageBlocked)
    (hworker : s'.worker = s.worker) (hnumber : s'.workerGeneration = s.workerGeneration) : Held g s' :=
  ⟨hblocked.trans h.1, hworker.trans h.2.1, hnumber.trans h.2.2⟩

private theorem stopWorker_held {g : Nat} {s : Supervisor} (h : Held g s) (stopping : Stopping) :
    Held g (stopWorker s stopping) := by
  have hwindow (inputs : List WorkerInput) : inputs.foldl workerStep s = s := by
    have hstep (input : WorkerInput) : workerStep s input = s := by rw [workerStep, h.2.1]
    induction inputs with
    | nil => rfl
    | cons input inputs ih => rw [List.foldl_cons, hstep, ih]
  have hexit : workerStep s (.exit "MQTT worker stop requested".toList) = s := by rw [workerStep, h.2.1]
  rw [stopWorker, hwindow]
  split
  · rw [hexit]
    exact ⟨h.1, rfl, h.2.2⟩
  · exact ⟨h.1, rfl, h.2.2⟩

private theorem Held.blockStorage {g : Nat} {s : Supervisor} (h : Held g s) (stopping : Stopping) :
    Held g (blockStorage s stopping) := by
  have hblocked : Held g { s with
      storageBlocked := true, restartReason := none, recoveryInProgress := false,
      transportConnectedGeneration := none, connected := false, readyConnectionGeneration := none } :=
    ⟨rfl, h.2.1, h.2.2⟩
  exact (stopWorker_held hblocked stopping).same rfl rfl rfl

private theorem Held.observe {g : Nat} {s : Supervisor} (h : Held g s) (event : MqttSupervisorEvent) :
    Held g (observe s event) := by
  cases event with
  | generationReady generation w =>
    rw [Connection.observe]
    split
    · exact h.same rfl rfl rfl
    · exact h
  | transportConnected _ _ | subscriptionsReady _ _ | disconnected _ _ _ | rebuilt _ _ _ | terminated =>
    exact h.same rfl rfl rfl

/-- Whether a user asks for the connection. -/
def Input.userRequests : Input → Bool
  | .pass p => p.branch = .recovery .userRequested
  | .worker _ => false

private theorem Held.runBranch {g : Nat} {s : Supervisor} (h : Held g s) {pass : Pass}
    (hquiet : pass.branch ≠ .recovery .userRequested) : Held g (runBranch s pass).1 := by
  rw [Connection.runBranch]
  split
  · exact h
  · exact h
  · rw [controlReady, h.2.1]
    exact h
  · rw [controlRebuild]
    split
    · exact h
    · split
      · exact h.blockStorage _
      · have hnone (reason : Str) : (s.becauseOf reason).worker = none := h.2.1
        simp only [hnone, Option.isSome_none, Bool.false_eq_true, if_false]
        split
        · exact ⟨h.1, rfl, h.2.2⟩
        · exact h.same rfl rfl rfl
  · next reason hbranch =>
    have hhealthy : s.healthy = false := by rw [Supervisor.healthy, h.2.1]; rfl
    have hreason : recoveryMayRetryStorage reason = false :=
      decide_eq_false fun huser => hquiet (by rw [hbranch, huser])
    rw [recover]
    simp only [hhealthy, h.1, hreason, Bool.false_eq_true, Bool.not_false, Bool.and_self, if_false, if_true]
    exact ⟨rfl, h.2.1, h.2.2⟩
  · split
    · exact h
    · next event rest _ =>
      have hpop : Held g { s with workerEvents := rest } := h.same rfl rfl rfl
      dsimp only
      split
      · exact (hpop.observe event).same rfl rfl rfl
      · exact hpop
    · next w reason rest _ =>
      have hpop : Held g { s with workerEvents := rest } := h.same rfl rfl rfl
      dsimp only
      split
      · exact hpop
      · split
        · exact hpop.blockStorage _
        · rw [if_pos h.1]
          exact hpop

private theorem Held.wakeGap {g : Nat} {s : Supervisor} (h : Held g s) (stopping : Stopping) (now nowMs : Nat) :
    Held g (wakeGap s stopping now nowMs) := by
  have hstop {s : Supervisor} (h : Held g s) : Held g (stopForRecovery s stopping) := by
    rw [stopForRecovery, h.2.1]
    exact h
  rw [Connection.wakeGap]
  dsimp only
  split
  · have hrecovering : Held g (({ s with
        lastObservedMs := nowMs
        recoveryInProgress := true
        snapshot := { s.snapshot with
          phase := .recovering, connected := false, readyGeneration := none,
          lastRecoveryReason := some "daemon_wake_gap" }
        readyConnectionGeneration := none } : Supervisor).becauseOf "daemon wake gap recovery".toList) :=
      h.same rfl rfl rfl
    exact (hstop hrecovering).same rfl rfl rfl
  · exact h.same rfl rfl rfl

/-- No step but the request of a user starts a worker. -/
private theorem Held.step {g : Nat} {s : Supervisor} (h : Held g s) {i : Input} (hquiet : i.userRequests = false) :
    Held g (step s i) := by
  cases i with
  | worker input =>
    rw [Connection.step, workerStep, h.2.1]
    exact h
  | pass pass =>
    have hflush : flushWaiting s pass.command pass.disposition = s := by rw [flushWaiting, h.2.1]
    have hdue : s.restartDue pass.now = false := by
      rw [Supervisor.restartDue, h.1]
      simp
    rw [Connection.step]
    split
    · exact h
    · rw [runPass, hflush]
      simp only [hdue, Bool.false_eq_true, if_false]
      rw [select]
      split
      · have hstopped : Held g { s with
            connected := false
            snapshot := { s.snapshot with phase := .stopped, connected := false, readyGeneration := none } } :=
          h.same rfl rfl rfl
        exact (stopWorker_held hstopped _).same rfl rfl rfl
      · have hother : pass.branch ≠ .recovery .userRequested := of_decide_eq_false hquiet
        have hbranch := h.runBranch hother
        dsimp only
        split
        · exact hbranch.wakeGap _ _ _
        · exact hbranch

/-- After a failure of the durable store there is no worker and none is started, whatever else happens, until a user
    asks. -/
theorem storage_held (now nowMs : Nat) (before after : List Input)
    (hblocked : ((supervisor now nowMs).run before).storageBlocked = true)
    (hquiet : ∀ i ∈ after, i.userRequests = false) :
    ((supervisor now nowMs).run (before ++ after)).worker = none ∧
    ((supervisor now nowMs).run (before ++ after)).workerGeneration =
      ((supervisor now nowMs).run before).workerGeneration := by
  have hheld : Held ((supervisor now nowMs).run before).workerGeneration ((supervisor now nowMs).run before) :=
    ⟨hblocked, (inv_run now nowMs before).blocked hblocked, rfl⟩
  have hstep (s : Supervisor) (i : Input) (h : Held ((supervisor now nowMs).run before).workerGeneration s)
      (hi : i.userRequests = false) :
      Held ((supervisor now nowMs).run before).workerGeneration ((supervisor now nowMs).step s i) := h.step hi
  have hrun := Machine.invariant_runFrom hstep hheld ((supervisor now nowMs).steps_of_forall hquiet _)
  rw [Machine.run, Machine.runFrom_append]
  exact hrun.2

/-- The store of the first worker fails; the wake of the machine and a network that is back start nothing. -/
theorem storage_held_failedStore : ((supervisor 0 0).run
    ([.worker (.exit "durable_store:open_failed".toList), .pass { branch := .event, now := 1, nowMs := 1 }] ++
      [.pass { branch := .tick, now := 500000, nowMs := 500000 },
        .pass { branch := .recovery .networkOnline, now := 500001, nowMs := 500001 }])).worker = none :=
  (storage_held 0 0 _ _ (by decide) (by decide)).1

end TeamClu.Connection
