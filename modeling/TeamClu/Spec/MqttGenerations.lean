import TeamClu.Native.MqttSupervisor

/-!
# What the MQTT supervisor tells

The supervisor learns of its worker through a channel, and workers come and go while it reads.  `Core` numbers the
connections and fences the workers; `Attached` says that after all that is in the channel the supervisor knows its
worker as it is.

Key results:
- `events_fenced`: what the daemon is told, in every interleaving.
- `snapshot_settles`: the flag, the snapshot and the answers to recovery signals are true of the worker.
-/

namespace TeamClu.Connection

/-! ## Events and their workers -/

/-- The worker that sent an event. -/
def WorkerEvent.from? : WorkerEvent → Option Nat
  | .supervisor (.transportConnected _ w) | .supervisor (.subscriptionsReady _ w)
  | .supervisor (.generationReady _ w) | .supervisor (.disconnected _ w _) | .exited w _ => some w
  | .supervisor (.rebuilt _ _ _) | .supervisor .terminated => none

/-- The connection that an event opens. -/
def MqttSupervisorEvent.attempt? : MqttSupervisorEvent → Option Nat
  | .transportConnected generation _ => some generation
  | _ => none

/-- The connection of worker `active` that an event in the channel opens. -/
def WorkerEvent.attempt? (active : Nat) : WorkerEvent → Option Nat
  | .supervisor (.transportConnected generation w) => if w = active then some generation else none
  | _ => none

/-- The worker that the daemon knows after an event: the next one after a rebuild, and every other event is from the
    one it knows. -/
def follow (active : Nat) : MqttSupervisorEvent → Option Nat
  | .rebuilt _ w _ => if w = active + 1 then some w else none
  | event => if workerEventMatches active event then some active else none

/-- What the supervisor knows of its worker: whether it is ready, its connection, and the last one. -/
structure Told where
  ready : Bool
  transport : Option Nat
  generation : Nat

/-- What it knows after an event, while it has the worker `active`. -/
def Told.hear (active : Nat) (t : Told) : WorkerEvent → Told
  | .supervisor (.transportConnected generation w) => if w = active then ⟨false, some generation, generation⟩ else t
  | .supervisor (.disconnected _ w _) => if w = active then { t with ready := false, transport := none } else t
  | .supervisor (.generationReady generation w) =>
    if w = active ∧ t.transport = some generation ∧ t.generation = generation then { t with ready := true } else t
  | .exited w _ => if w = active then { t with ready := false, transport := none } else t
  | .supervisor _ => t

/-- What the supervisor knows. -/
def Supervisor.told (s : Supervisor) : Told where
  ready := s.snapshot.connected
  transport := s.transportConnectedGeneration
  generation := s.generation

/-! ## The invariant -/

/-- What holds of the generations whatever the supervisor is in the middle of. -/
structure Core (s : Supervisor) : Prop where
  owned : ∀ w ∈ s.worker, w.workerGeneration = s.workerGeneration
  past : ∀ e ∈ s.workerEvents, ∃ w, e.from? = some w ∧ w ≤ s.workerGeneration
  numbered : ∃ n, s.workerEvents.filterMap (·.attempt? s.workerGeneration) = List.range' (s.generation + 1) n ∧
    ∀ w ∈ s.worker, w.generation = s.generation + n
  attempts : s.snapshot.connectionAttempt.getD 0 = s.generation
  connections : s.events.filterMap (·.attempt?) = List.range' 1 s.generation
  fenced : s.events.foldlM follow 0 = some s.workerGeneration

/-- What the supervisor knows of `w` once it has read the channel, and what it shares with it now. -/
structure Attached (s : Supervisor) (w : Worker) : Prop where
  heard : (s.workerEvents.foldl (Told.hear s.workerGeneration) s.told).ready = w.generationReady
  latest : (s.workerEvents.foldl (Told.hear s.workerGeneration) s.told).generation = w.generation
  linked : w.connected = true →
    (s.workerEvents.foldl (Told.hear s.workerGeneration) s.told).transport = some w.generation
  flag : s.connected = w.generationReady
  ready : w.generationReady = true → w.connected = true ∧ w.generation = s.generation
  exited : w.exited = true → w.connected = false
  control : ∀ c ∈ w.control, c.1 ≤ s.generation

/-- The invariant of a run. -/
structure Inv (s : Supervisor) : Prop where
  core : Core s
  attached : ∀ w ∈ s.worker, Attached s w
  recovering : s.recoveryInProgress = true → s.worker.isSome = true → s.snapshot.connected = false
  blocked : s.storageBlocked = true → s.worker = none

/-- Without a worker there is little to know. -/
theorem Inv.of_none {s : Supervisor} (h : Core s) (hnone : s.worker = none) : Inv s := by
  refine ⟨h, fun w hw => ?_, fun _ hsome => ?_, fun _ => hnone⟩
  · rw [hnone] at hw
    cases hw
  · rw [hnone] at hsome
    cases hsome

/-! ## Steps of the worker -/

/-- What one step of a worker sends, by what becomes of it. -/
inductive Acts (w : Worker) (flag : Bool) : Worker → Bool → List WorkerEvent → Prop
  | connAck (announced : Bool) : Acts w flag
      { w with
        generation := w.generation + 1, connected := true, generationReady := false,
        subscriptionsReadyAnnounced := announced }
      false [.supervisor (.transportConnected (w.generation + 1) w.workerGeneration)]
  | restored : Acts w flag { w with subscriptionsReadyAnnounced := true } flag
      [.supervisor (.subscriptionsReady w.generation w.workerGeneration)]
  | failed (reason : Str) : Acts w flag { w with connected := false, generationReady := false } false
      [.supervisor (.disconnected w.generation w.workerGeneration reason)]
  | ready (control : List (Nat × Nat)) (hcontrol : w.control = (w.generation, w.workerGeneration) :: control)
      (hconnected : w.connected = true) : Acts w flag { w with control, generationReady := true } true
      [.supervisor (.generationReady w.generation w.workerGeneration)]
  | stale (c : Nat × Nat) (control : List (Nat × Nat)) (hcontrol : w.control = c :: control) :
      Acts w flag { w with control } flag []
  | exit (reason : Str) : Acts w flag { w with connected := false, generationReady := false, exited := true } false
      [.exited w.workerGeneration reason]
  | idle : Acts w flag w flag []

theorem Worker.acts (w : Worker) (flag : Bool) (input : WorkerInput) :
    Acts w flag (w.act flag input).1 (w.act flag input).2.1 (w.act flag input).2.2 := by
  cases input with
  | connAck restores => exact .connAck (!restores)
  | restored =>
    rw [Worker.act]
    split
    · exact .restored
    · exact .idle
  | pollError reason =>
    rw [Worker.act]
    split
    · exact .failed reason
    · exact .idle
  | readControl =>
    rw [Worker.act]
    split
    · exact .idle
    · next generation workerGeneration control hcontrol =>
      split
      · next haccepted =>
        obtain ⟨rfl, rfl, hconnected⟩ := haccepted
        exact .ready control hcontrol hconnected
      · exact .stale _ control hcontrol
  | exit reason => exact .exit reason

/-- The state after a step of the worker. -/
theorem workerStep_cases (s : Supervisor) (input : WorkerInput) : workerStep s input = s ∨
    ∃ w w' flag sent, s.worker = some w ∧ w.exited = false ∧ Acts w s.connected w' flag sent ∧
      workerStep s input =
        { s with worker := some w', connected := flag, workerEvents := s.workerEvents ++ sent } := by
  rw [workerStep]
  split
  · next w hw =>
    split
    · exact .inl rfl
    · next hexited =>
      exact .inr ⟨w, _, _, _, hw, Bool.eq_false_iff.mpr hexited, w.acts s.connected input, rfl⟩
  · exact .inl rfl

/-- A worker keeps its number, and goes through the connections one by one. -/
private theorem Acts.numbered {w w' : Worker} {flag flag' : Bool} {sent : List WorkerEvent}
    (h : Acts w flag w' flag' sent) : w'.workerGeneration = w.workerGeneration ∧
    (∀ e ∈ sent, e.from? = some w.workerGeneration) ∧
    ∃ n, sent.filterMap (·.attempt? w.workerGeneration) = List.range' (w.generation + 1) n ∧
      w'.generation = w.generation + n := by
  cases h with
  | connAck announced =>
    exact ⟨rfl, by simp [WorkerEvent.from?], 1, by simp [WorkerEvent.attempt?], rfl⟩
  | restored => exact ⟨rfl, by simp [WorkerEvent.from?], 0, rfl, rfl⟩
  | failed reason => exact ⟨rfl, by simp [WorkerEvent.from?], 0, rfl, rfl⟩
  | ready control hcontrol hconnected =>
    exact ⟨rfl, by simp [WorkerEvent.from?], 0, rfl, rfl⟩
  | stale c control hcontrol => exact ⟨rfl, by simp, 0, rfl, rfl⟩
  | exit reason => exact ⟨rfl, by simp [WorkerEvent.from?], 0, rfl, rfl⟩
  | idle => exact ⟨rfl, by simp, 0, rfl, rfl⟩

theorem Core.workerStep {s : Supervisor} (h : Core s) (input : WorkerInput) : Core (workerStep s input) := by
  rcases workerStep_cases s input with heq | ⟨w, w', flag, sent, hw, -, hacts, heq⟩
  · rwa [heq]
  · rw [heq]
    obtain ⟨hnumber, hfrom, m, hsent, hgeneration⟩ := hacts.numbered
    have howned := h.owned w hw
    obtain ⟨n, hnumbered, hlast⟩ := h.numbered
    refine ⟨fun v hv => ?_, fun e he => ?_, ⟨n + m, ?_, fun v hv => ?_⟩, h.attempts, h.connections, h.fenced⟩
    · rw [← Option.some.inj hv, hnumber, howned]
    · rcases List.mem_append.mp he with he | he
      · exact h.past e he
      · exact ⟨_, hfrom e he, Nat.le_of_eq howned⟩
    · rw [howned] at hsent
      have hstart : s.generation + 1 + n = w.generation + 1 := by rw [hlast w hw]; omega
      rw [List.filterMap_append, hnumbered, hsent, ← hstart, List.range'_append_1]
    · rw [← Option.some.inj hv, hgeneration, hlast w hw, Nat.add_assoc]

private theorem Core.detached {s : Supervisor} (h : Core s) : Core { s with worker := none } := by
  obtain ⟨n, hnumbered, -⟩ := h.numbered
  have hnone (P : Worker → Prop) (w : Worker) (hw : w ∈ (none : Option Worker)) : P w := by cases hw
  exact ⟨hnone _, h.past, ⟨n, hnumbered, hnone _⟩, h.attempts, h.connections, h.fenced⟩

theorem Core.stopWorker {s : Supervisor} (h : Core s) (stopping : Stopping) : Core (stopWorker s stopping) := by
  have hwindow (inputs : List WorkerInput) : ∀ {s : Supervisor}, Core s → Core (inputs.foldl Connection.workerStep s) := by
    induction inputs with
    | nil => exact id
    | cons input inputs ih => exact fun h => ih (h.workerStep input)
  have hstopped : Core (if stopping.graceful
      then Connection.workerStep (stopping.window.foldl Connection.workerStep s)
        (.exit "MQTT worker stop requested".toList)
      else stopping.window.foldl Connection.workerStep s) := by
    split
    · exact (hwindow _ h).workerStep _
    · exact hwindow _ h
  exact hstopped.detached

/-- What a worker does is heard in the end. -/
theorem Acts.heard {w w' : Worker} {flag flag' : Bool} {sent : List WorkerEvent} (h : Acts w flag w' flag' sent)
    {t : Told} (hready : t.ready = w.generationReady) (hlatest : t.generation = w.generation)
    (hlinked : w.connected = true → t.transport = some w.generation) :
    (sent.foldl (Told.hear w.workerGeneration) t).ready = w'.generationReady ∧
    (sent.foldl (Told.hear w.workerGeneration) t).generation = w'.generation ∧
    (w'.connected = true → (sent.foldl (Told.hear w.workerGeneration) t).transport = some w'.generation) := by
  cases h with
  | connAck announced => simp [Told.hear]
  | restored => exact ⟨hready, hlatest, hlinked⟩
  | failed reason => simp [Told.hear, hlatest]
  | ready control hcontrol hconnected => simp [Told.hear, hlatest, hlinked hconnected]
  | stale c control hcontrol => exact ⟨hready, hlatest, hlinked⟩
  | exit reason => simp [Told.hear, hlatest]
  | idle => exact ⟨hready, hlatest, hlinked⟩

/-- A step of a worker keeps what is known of it. -/
theorem Inv.workerStep {s : Supervisor} (h : Inv s) (input : WorkerInput) : Inv (workerStep s input) := by
  have hcore := h.core.workerStep input
  rcases workerStep_cases s input with heq | ⟨w, w', flag, sent, hw, hexited, hacts, heq⟩
  · rwa [heq]
  · rw [heq] at hcore ⊢
    have hblocked : s.storageBlocked = true → some w' = none := fun hb => by
      rw [h.blocked hb] at hw
      cases hw
    refine ⟨hcore, fun v hv => ?_, fun hr _ => h.recovering hr (by rw [hw]; rfl), hblocked⟩
    obtain rfl := Option.some.inj hv
    have hatt := h.attached w hw
    have howned := h.core.owned w hw
    obtain ⟨hready, hlatest, hlinked⟩ := hacts.heard hatt.heard hatt.latest hatt.linked
    rw [howned, ← List.foldl_append] at hready hlatest hlinked
    obtain ⟨n, -, hlast⟩ := h.core.numbered
    have hgeneration := hlast w hw
    refine ⟨hready, hlatest, hlinked, ?_, fun hr => ?_, fun he => ?_, fun c hc => ?_⟩
    · cases hacts with
      | restored | idle | stale => exact hatt.flag
      | connAck | failed | ready | exit => rfl
    · cases hacts with
      | restored | idle | stale => exact hatt.ready hr
      | ready control hcontrol hconnected =>
        -- A control that is read was passed on when its connection was the latest the supervisor knew.
        have hle : w.generation ≤ s.generation := hatt.control (w.generation, w.workerGeneration) (by simp [hcontrol])
        exact ⟨hconnected, by change w.generation = s.generation; omega⟩
      | connAck | failed | exit => cases hr
    · cases hacts with
      | restored | idle | stale | ready => exact hatt.exited he
      | connAck => exact absurd he (by simp [hexited])
      | failed | exit => rfl
    · cases hacts with
      | restored | idle | connAck | failed | exit => exact hatt.control c hc
      | ready control hcontrol hconnected => exact hatt.control c (by rw [hcontrol]; exact List.mem_cons_of_mem _ hc)
      | stale d control hcontrol => exact hatt.control c (by rw [hcontrol]; exact List.mem_cons_of_mem _ hc)

/-! ## Steps of the supervisor -/

/-- The invariant of the generations is about some fields only. -/
private theorem Core.same {s s' : Supervisor} (h : Core s) (hworker : s'.worker = s.worker)
    (hgeneration : s'.generation = s.generation) (hnumber : s'.workerGeneration = s.workerGeneration)
    (hsent : s'.workerEvents = s.workerEvents) (htold : s'.events = s.events)
    (hattempt : s'.snapshot.connectionAttempt = s.snapshot.connectionAttempt) : Core s' := by
  refine ⟨?_, ?_, ?_, ?_, ?_, ?_⟩
  · rw [hworker, hnumber]
    exact h.owned
  · rw [hsent, hnumber]
    exact h.past
  · rw [hsent, hnumber, hgeneration, hworker]
    exact h.numbered
  · rw [hattempt, hgeneration]
    exact h.attempts
  · rw [htold, hgeneration]
    exact h.connections
  · rw [htold, hnumber]
    exact h.fenced

private theorem Inv.same {s s' : Supervisor} (h : Inv s) (hworker : s'.worker = s.worker)
    (hgeneration : s'.generation = s.generation) (hnumber : s'.workerGeneration = s.workerGeneration)
    (hsent : s'.workerEvents = s.workerEvents) (htold : s'.events = s.events)
    (hsnapshot : s'.snapshot = s.snapshot) (htransport : s'.transportConnectedGeneration = s.transportConnectedGeneration)
    (hflag : s'.connected = s.connected) (hrecovering : s'.recoveryInProgress = s.recoveryInProgress)
    (hblocked : s'.storageBlocked = s.storageBlocked) : Inv s' := by
  have hknown : s'.told = s.told := by rw [Supervisor.told, Supervisor.told, hsnapshot, htransport, hgeneration]
  refine ⟨h.core.same hworker hgeneration hnumber hsent htold (by rw [hsnapshot]), fun w hw => ?_, ?_, ?_⟩
  · have hatt := h.attached w (hworker ▸ hw)
    refine ⟨?_, ?_, ?_, ?_, ?_, hatt.exited, ?_⟩
    · rw [hsent, hnumber, hknown]
      exact hatt.heard
    · rw [hsent, hnumber, hknown]
      exact hatt.latest
    · rw [hsent, hnumber, hknown]
      exact hatt.linked
    · rw [hflag]
      exact hatt.flag
    · rw [hgeneration]
      exact hatt.ready
    · rw [hgeneration]
      exact hatt.control
  · rw [hrecovering, hworker, hsnapshot]
    exact h.recovering
  · rw [hblocked, hworker]
    exact h.blocked

private theorem Inv.becauseOf {s : Supervisor} (h : Inv s) (reason : Str) : Inv (s.becauseOf reason) :=
  h.same rfl rfl rfl rfl rfl rfl rfl rfl rfl rfl

private theorem Core.becauseOf {s : Supervisor} (h : Core s) (reason : Str) : Core (s.becauseOf reason) :=
  h.same rfl rfl rfl rfl rfl rfl

private theorem Core.scheduleRestart {s : Supervisor} (h : Core s) (now : Nat) : Core (s.scheduleRestart now) :=
  h.same rfl rfl rfl rfl rfl rfl

theorem Inv.flushWaiting {s : Supervisor} (h : Inv s) (command disposition : Bool) :
    Inv (flushWaiting s command disposition) := by
  rw [Connection.flushWaiting]
  split
  · split
    · dsimp only
      split
      · split
        · exact (h.becauseOf _).becauseOf _
        · exact h.becauseOf _
      · split
        · exact h.becauseOf _
        · exact h
    · exact h
  · exact h

/-- Events of other workers say nothing of this one. -/
private theorem WorkerEvent.ignored {e : WorkerEvent} {active w : Nat} (hfrom : e.from? = some w) (hne : w ≠ active) :
    e.attempt? active = none ∧ ∀ t : Told, t.hear active e = t := by
  cases e with
  | exited v reason =>
    obtain rfl := Option.some.inj hfrom
    exact ⟨rfl, fun t => if_neg hne⟩
  | supervisor event =>
    cases event with
    | transportConnected generation v =>
      obtain rfl := Option.some.inj hfrom
      exact ⟨if_neg hne, fun t => if_neg hne⟩
    | subscriptionsReady generation v => exact ⟨rfl, fun t => rfl⟩
    | generationReady generation v =>
      obtain rfl := Option.some.inj hfrom
      exact ⟨rfl, fun t => if_neg fun h => hne h.1⟩
    | disconnected generation v reason =>
      obtain rfl := Option.some.inj hfrom
      exact ⟨rfl, fun t => if_neg hne⟩
    | rebuilt _ _ _ | terminated => cases hfrom

private theorem ignored_all {es : List WorkerEvent} {active : Nat} (h : ∀ e ∈ es, ∃ w, e.from? = some w ∧ w < active) :
    es.filterMap (·.attempt? active) = [] ∧ ∀ t : Told, es.foldl (Told.hear active) t = t := by
  induction es with
  | nil => exact ⟨rfl, fun t => rfl⟩
  | cons e es ih =>
    obtain ⟨w, hfrom, hlt⟩ := h e List.mem_cons_self
    obtain ⟨hattempt, hhear⟩ := WorkerEvent.ignored hfrom (Nat.ne_of_lt hlt)
    obtain ⟨hattempts, hhears⟩ := ih fun e he => h e (List.mem_cons_of_mem _ he)
    refine ⟨by rw [List.filterMap_cons_none hattempt, hattempts], fun t => ?_⟩
    rw [List.foldl_cons, hhear, hhears]

private theorem follow_append {events : List MqttSupervisorEvent} {active next : Nat} {event : MqttSupervisorEvent}
    (h : events.foldlM follow 0 = some active) (hevent : follow active event = some next) :
    (events ++ [event]).foldlM follow 0 = some next := by
  rw [List.foldlM_append, h]
  simp [hevent]

/-- A new worker is the next one, and nothing in the channel is from it. -/
theorem Inv.spawnWorker {s : Supervisor} (h : Core s) (hblocked : s.storageBlocked = false) (reason : Str) :
    Inv (spawnWorker s reason) := by
  -- what is still in the channel is from earlier workers
  have hpast : ∀ e ∈ s.workerEvents, ∃ w, e.from? = some w ∧ w < s.workerGeneration + 1 := fun e he => by
    obtain ⟨w, hfrom, hle⟩ := h.past e he
    exact ⟨w, hfrom, Nat.lt_succ_of_le hle⟩
  obtain ⟨hattempts, hhears⟩ := ignored_all hpast
  have hfresh (w : Worker) (hw : w ∈ (Connection.spawnWorker s reason).worker) :
      w = { workerGeneration := s.workerGeneration + 1, generation := s.generation } := (Option.some.inj hw).symm
  have hcore : Core (Connection.spawnWorker s reason) := by
    refine ⟨fun w hw => by rw [hfresh w hw]; rfl, fun e he => ?_, ⟨0, hattempts, fun w hw => by rw [hfresh w hw]; rfl⟩,
      h.attempts, ?_, ?_⟩
    · obtain ⟨w, hfrom, hlt⟩ := hpast e he
      exact ⟨w, hfrom, Nat.le_of_lt hlt⟩
    · exact (List.filterMap_append ..).trans (by rw [h.connections]; exact List.append_nil _)
    · exact follow_append h.fenced (if_pos rfl)
  have hheld : (Connection.spawnWorker s reason).storageBlocked = false := hblocked
  refine ⟨hcore, fun w hw => ?_, fun _ _ => rfl, fun hb => by rw [hheld] at hb; cases hb⟩
  rw [hfresh w hw]
  constructor
  · exact congrArg Told.ready (hhears _)
  · exact congrArg Told.generation (hhears _)
  · intro hc
    cases hc
  · rfl
  · intro hr
    cases hr
  · intro he
    cases he
  · intro c hc
    cases hc

theorem Inv.restart {s : Supervisor} (h : Inv s) (hnone : s.worker = none) (hblocked : s.storageBlocked = false)
    (credential : Credential) (now : Nat) : Inv (restart s credential now) := by
  have hcore : Core { s with
      restartReason := none
      snapshot := { s.snapshot with phase := .authRecovering, connected := false, readyGeneration := none } } :=
    h.core.same rfl rfl rfl rfl rfl rfl
  cases credential with
  | token => exact Inv.spawnWorker hcore hblocked _
  | failed => exact .of_none ((hcore.scheduleRestart now).same rfl rfl rfl rfl rfl rfl) hnone
  | timedOut => exact .of_none ((hcore.scheduleRestart now).same rfl rfl rfl rfl rfl rfl) hnone

theorem Inv.controlReady {s : Supervisor} (h : Inv s) (generation workerGeneration : Nat) :
    Inv (controlReady s generation workerGeneration) := by
  rw [Connection.controlReady]
  split
  · exact h
  · next w hw =>
    split
    · next hcurrent =>
      -- the readiness is that of the connection which the supervisor knows
      have hgeneration : s.generation = generation := by
        have hready := hcurrent.1
        rw [Supervisor.isCurrentReadyGeneration, Bool.and_eq_true] at hready
        exact of_decide_eq_true hready.2
      have hatt := h.attached w hw
      obtain ⟨n, hnumbered, hlast⟩ := h.core.numbered
      have hread (v : Worker) (hv : some { w with control := w.control ++ [(generation, workerGeneration)] } = some v) :
          v = { w with control := w.control ++ [(generation, workerGeneration)] } := (Option.some.inj hv).symm
      refine ⟨⟨fun v hv => ?_, h.core.past, ⟨n, hnumbered, fun v hv => ?_⟩, h.core.attempts, h.core.connections,
        h.core.fenced⟩, fun v hv => ?_, fun hr _ => h.recovering hr (by rw [hw]; rfl), fun hb => ?_⟩
      · rw [hread v hv]
        exact h.core.owned w hw
      · rw [hread v hv]
        exact hlast w hw
      · rw [hread v hv]
        refine ⟨hatt.heard, hatt.latest, hatt.linked, hatt.flag, hatt.ready, hatt.exited, fun c hc => ?_⟩
        rcases List.mem_append.mp hc with hc | hc
        · exact hatt.control c hc
        · rw [List.mem_singleton.mp hc]
          exact Nat.le_of_eq hgeneration.symm
      · have := h.blocked hb
        rw [hw] at this
        cases this
    · exact h

theorem Core.blockStorage {s : Supervisor} (h : Core s) (stopping : Stopping) : Inv (blockStorage s stopping) := by
  have hcore : Core { s with
      storageBlocked := true, restartReason := none, recoveryInProgress := false,
      transportConnectedGeneration := none, connected := false, readyConnectionGeneration := none } :=
    h.same rfl rfl rfl rfl rfl rfl
  exact .of_none ((hcore.stopWorker stopping).same rfl rfl rfl rfl rfl rfl) rfl

theorem Inv.controlRebuild {s : Supervisor} (h : Inv s) (reason : Str) (fence : Option (Nat × Nat))
    (stopping : Stopping) (now : Nat) : Inv (controlRebuild s reason fence stopping now) := by
  rw [Connection.controlRebuild]
  split
  · exact h
  · split
    · exact h.core.blockStorage stopping
    · have hbecause := h.becauseOf reason
      have hstopped : Core { Connection.stopWorker (s.becauseOf reason) stopping with
          transportConnectedGeneration := none, connected := false, readyConnectionGeneration := none } :=
        (hbecause.core.stopWorker stopping).same rfl rfl rfl rfl rfl rfl
      dsimp only
      split
      · split
        · exact .of_none (hstopped.scheduleRestart now) rfl
        · exact .of_none hstopped rfl
      · split
        · exact hbecause.same rfl rfl rfl rfl rfl rfl rfl rfl rfl rfl
        · exact hbecause

/-- A recovery is left without a worker. -/
private theorem Core.stopForRecovery {s : Supervisor} (h : Core s) (stopping : Stopping) :
    Core (stopForRecovery s stopping) ∧ (Connection.stopForRecovery s stopping).worker = none := by
  rw [Connection.stopForRecovery]
  split
  · exact ⟨(h.stopWorker stopping).same rfl rfl rfl rfl rfl rfl, rfl⟩
  · next hnone => exact ⟨h, Option.not_isSome_iff_eq_none.mp hnone⟩

theorem Inv.wakeGap {s : Supervisor} (h : Inv s) (stopping : Stopping) (now nowMs : Nat) :
    Inv (wakeGap s stopping now nowMs) := by
  rw [Connection.wakeGap]
  dsimp only
  split
  · have hrecovering : Core ({ s with
        lastObservedMs := nowMs
        recoveryInProgress := true
        snapshot := { s.snapshot with
          phase := .recovering, connected := false, readyGeneration := none,
          lastRecoveryReason := some "daemon_wake_gap" }
        readyConnectionGeneration := none } : Supervisor) := h.core.same rfl rfl rfl rfl rfl rfl
    obtain ⟨hcore, hnone⟩ := (hrecovering.becauseOf "daemon wake gap recovery".toList).stopForRecovery stopping
    exact .of_none (hcore.same rfl rfl rfl rfl rfl rfl) hnone
  · exact h.same rfl rfl rfl rfl rfl rfl rfl rfl rfl rfl

theorem Inv.recover {s : Supervisor} (h : Inv s) (reason : MqttRecoveryReason) (stopping : Stopping) (now : Nat) :
    Inv (recover s reason stopping now) := by
  rw [Connection.recover]
  dsimp only
  split
  · exact h.same rfl rfl rfl rfl rfl rfl rfl rfl rfl rfl
  · split
    · exact h.same rfl rfl rfl rfl rfl rfl rfl rfl rfl rfl
    · generalize hsignalled : ({ s with
          snapshot := { s.snapshot with
            phase := if s.recoveryInProgress then s.snapshot.phase else .recovering
            lastRecoveryReason := some reason.asStr, connected := false, readyGeneration := none }
          recoveryInProgress := true
          storageBlocked := s.storageBlocked && !recoveryMayRetryStorage reason
          readyConnectionGeneration := none
          recoveries := s.recoveries ++ [{
            accepted := true, outcome := .recovering,
            workerGeneration := if s.worker.isSome then some s.workerGeneration else none }] } : Supervisor) = signalled
      have hcore : Core signalled := by
        rw [← hsignalled]
        exact h.core.same rfl rfl rfl rfl rfl rfl
      split
      · next halready =>
        -- The worker goes on, and the snapshot was not connected before.
        have hinv : Inv signalled := by
          have hknown : s.worker.isSome = true → signalled.told = s.told := fun hsome => by
            rw [Supervisor.told, Supervisor.told, h.recovering halready hsome, ← hsignalled]
          refine ⟨hcore, fun w hw => ?_, fun _ _ => by rw [← hsignalled], fun hb => ?_⟩
          · have hworker : w ∈ s.worker := by rwa [← hsignalled] at hw
            have hsame := hknown (by rw [hworker]; rfl)
            have hatt := h.attached w hworker
            subst hsignalled
            exact ⟨hsame ▸ hatt.heard, hsame ▸ hatt.latest, hsame ▸ hatt.linked, hatt.flag, hatt.ready, hatt.exited,
              hatt.control⟩
          · rw [← hsignalled] at hb ⊢
            exact h.blocked (Bool.and_eq_true_iff.mp hb).1
        exact hinv.becauseOf _
      · obtain ⟨hstopped, hnone⟩ := hcore.stopForRecovery stopping
        have hbecause := hstopped.becauseOf (reason.asStr.toList ++ " recovery".toList)
        exact .of_none (hbecause.same rfl rfl rfl rfl rfl rfl) hnone

/-- The channel without its first event. -/
private theorem Core.pop {s : Supervisor} (h : Core s) {e : WorkerEvent} {rest : List WorkerEvent}
    (hevents : s.workerEvents = e :: rest) (hattempt : e.attempt? s.workerGeneration = none) :
    Core { s with workerEvents := rest } := by
  obtain ⟨n, hnumbered, hlast⟩ := h.numbered
  rw [hevents, List.filterMap_cons_none hattempt] at hnumbered
  refine ⟨h.owned, fun e he => h.past e ?_, ⟨n, hnumbered, hlast⟩, h.attempts, h.connections, h.fenced⟩
  rw [hevents]
  exact List.mem_cons_of_mem _ he

/-- An event of a worker that is gone. -/
private theorem Inv.pop {s : Supervisor} (h : Inv s) {e : WorkerEvent} {rest : List WorkerEvent}
    (hevents : s.workerEvents = e :: rest) (hattempt : e.attempt? s.workerGeneration = none)
    (hhear : s.worker.isSome = true → s.told.hear s.workerGeneration e = s.told) :
    Inv { s with workerEvents := rest } := by
  refine ⟨h.core.pop hevents hattempt, fun w hw => ?_, h.recovering, h.blocked⟩
  have hatt := h.attached w hw
  have hworker : s.worker = some w := hw
  have hfold : s.workerEvents.foldl (Told.hear s.workerGeneration) s.told =
      rest.foldl (Told.hear s.workerGeneration) s.told := by
    rw [hevents, List.foldl_cons, hhear (by rw [hworker]; rfl)]
  exact ⟨hfold ▸ hatt.heard, hfold ▸ hatt.latest, hfold ▸ hatt.linked, hatt.flag, hatt.ready, hatt.exited,
    hatt.control⟩

/-- Without a new connection, what is lost stays lost. -/
private theorem transport_of_none {es : List WorkerEvent} {active : Nat}
    (hattempts : es.filterMap (·.attempt? active) = []) {t : Told} (ht : t.transport = none) :
    (es.foldl (Told.hear active) t).transport = none := by
  induction es generalizing t with
  | nil => exact ht
  | cons e es ih =>
    rw [List.filterMap_eq_nil_iff] at hattempts
    have hattempt := hattempts e List.mem_cons_self
    refine ih (List.filterMap_eq_nil_iff.mpr fun d hd => hattempts d (List.mem_cons_of_mem _ hd)) ?_
    rw [Told.hear.eq_def]
    split
    · next generation w =>
      split
      · -- the only event that would bring it back is a connection of the active worker
        next hw => exact absurd hattempt (by simp [WorkerEvent.attempt?, hw])
      · exact ht
    · split
      · rfl
      · exact ht
    · split
      · exact ht
      · exact ht
    · split
      · rfl
      · exact ht
    · exact ht

/-- A worker that is ready has not lost its connection since. -/
private theorem not_ready_of_disconnected {s : Supervisor} (h : Inv s) {w : Worker} (hw : w ∈ s.worker)
    {generation : Nat} {reason : Str} {rest : List WorkerEvent}
    (hevents : s.workerEvents = .supervisor (.disconnected generation s.workerGeneration reason) :: rest) :
    w.generationReady = false := by
  rw [← Bool.not_eq_true]
  intro hready
  have hatt := h.attached w hw
  obtain ⟨hconnected, hlatest⟩ := hatt.ready hready
  obtain ⟨n, hnumbered, hlast⟩ := h.core.numbered
  obtain rfl : n = 0 := by have := hlast w hw; omega
  have hlinked := hatt.linked hconnected
  have hlost : (s.told.hear s.workerGeneration
      (.supervisor (.disconnected generation s.workerGeneration reason))).transport = none := by
    rw [Told.hear, if_pos rfl]
  rw [hevents] at hnumbered hlinked
  have hattempts : rest.filterMap (·.attempt? s.workerGeneration) = [] := hnumbered
  rw [List.foldl_cons, transport_of_none hattempts hlost] at hlinked
  cases hlinked

/-- Any other event that the supervisor tells the daemon. -/
private theorem Core.emit {s : Supervisor} (h : Core s) {event : MqttSupervisorEvent} (hattempt : event.attempt? = none)
    (hfollow : follow s.workerGeneration event = some s.workerGeneration) : Core (s.emit event) := by
  refine ⟨h.owned, h.past, h.numbered, h.attempts, ?_, follow_append h.fenced hfollow⟩
  refine (List.filterMap_append ..).trans ?_
  rw [h.connections, List.filterMap_cons_none hattempt]
  exact List.append_nil _

/-- An event of the active worker leaves the supervisor with what it has heard. -/
theorem Inv.observe {s : Supervisor} (h : Inv s) {event : MqttSupervisorEvent} {rest : List WorkerEvent}
    (hevents : s.workerEvents = .supervisor event :: rest)
    (hmatches : workerEventMatches s.workerGeneration event = true) :
    Inv ((observe { s with workerEvents := rest } event).emit event) := by
  obtain ⟨v, hfrom, -⟩ := h.core.past (.supervisor event) (by rw [hevents]; exact List.mem_cons_self)
  obtain ⟨n, hnumbered, hlast⟩ := h.core.numbered
  have hfold (t : Told) (ht : s.told.hear s.workerGeneration (.supervisor event) = t) :
      s.workerEvents.foldl (Told.hear s.workerGeneration) s.told =
        rest.foldl (Told.hear s.workerGeneration) t := by
    rw [hevents, List.foldl_cons, ht]
  cases event with
  | rebuilt _ _ _ | terminated => cases hfrom
  -- the next connection: the worker has made at least as many, so it is not ready for this one
  | transportConnected generation w =>
    obtain rfl : w = s.workerGeneration := of_decide_eq_true hmatches
    have hattempt : (WorkerEvent.supervisor (.transportConnected generation s.workerGeneration)).attempt?
        s.workerGeneration = some generation := if_pos rfl
    rw [hevents, List.filterMap_cons_some hattempt] at hnumbered
    cases n with
    | zero => cases hnumbered
    | succ n =>
      rw [List.range'_succ, List.cons.injEq] at hnumbered
      obtain ⟨rfl, hrest⟩ := hnumbered
      have hnext (w : Worker) (hw : w ∈ s.worker) : w.generation = s.generation + 1 + n := by
        rw [hlast w hw]
        omega
      have hheard := hfold ⟨false, some (s.generation + 1), s.generation + 1⟩ (if_pos rfl)
      refine ⟨⟨h.core.owned, fun e he => h.core.past e ?_, ⟨n, hrest, hnext⟩, ?_, ?_, ?_⟩, fun w hw => ?_,
        fun _ _ => rfl, h.blocked⟩
      · rw [hevents]
        exact List.mem_cons_of_mem _ he
      · exact congrArg (· + 1) h.core.attempts
      · have hnumbers : List.range' 1 (s.generation + 1) = List.range' 1 s.generation ++ [s.generation + 1] := by
          rw [List.range'_1_concat, Nat.add_comm 1]
        have htold : (s.events ++ [MqttSupervisorEvent.transportConnected (s.generation + 1) s.workerGeneration]).filterMap
            MqttSupervisorEvent.attempt? = List.range' 1 s.generation ++ [s.generation + 1] := by
          rw [List.filterMap_append, h.core.connections]
          rfl
        exact htold.trans hnumbers.symm
      · exact follow_append h.core.fenced (if_pos hmatches)
      · have hatt := h.attached w hw
        have hnot : ¬ w.generationReady = true := fun hready => by
          have := (hatt.ready hready).2
          have := hlast w hw
          omega
        exact ⟨hheard ▸ hatt.heard, hheard ▸ hatt.latest, hheard ▸ hatt.linked, hatt.flag, fun hr => absurd hr hnot,
          hatt.exited, fun c hc => Nat.le_succ_of_le (hatt.control c hc)⟩
  | subscriptionsReady generation w =>
    have hpop := h.pop hevents rfl fun _ => rfl
    have hcore : Core (Connection.observe { s with workerEvents := rest } (.subscriptionsReady generation w)) :=
      hpop.core.same rfl rfl rfl rfl rfl rfl
    refine ⟨hcore.emit rfl (if_pos hmatches), fun w hw => ?_, h.recovering, h.blocked⟩
    have hatt := hpop.attached w hw
    exact ⟨hatt.heard, hatt.latest, hatt.linked, hatt.flag, hatt.ready, hatt.exited, hatt.control⟩
  -- whatever follows in the channel, the worker is not ready at the end of it
  | disconnected generation w reason =>
    obtain rfl : w = s.workerGeneration := of_decide_eq_true hmatches
    have hheard := hfold { s.told with ready := false, transport := none } (if_pos rfl)
    have hcore : Core (Connection.observe { s with workerEvents := rest }
        (.disconnected generation s.workerGeneration reason)) :=
      (h.core.pop hevents rfl).same rfl rfl rfl rfl rfl rfl
    refine ⟨hcore.emit rfl (if_pos hmatches), fun w hw => ?_, fun _ _ => rfl, h.blocked⟩
    have hatt := h.attached w hw
    exact ⟨hheard ▸ hatt.heard, hheard ▸ hatt.latest, hheard ▸ hatt.linked, (not_ready_of_disconnected h hw hevents).symm,
      hatt.ready, hatt.exited, hatt.control⟩
  | generationReady generation w =>
    obtain rfl : w = s.workerGeneration := of_decide_eq_true hmatches
    rw [Connection.observe]
    split
    · next hcurrent =>
      rw [Supervisor.isCurrentReadyGeneration, Bool.and_eq_true, Bool.and_eq_true, decide_eq_true_eq,
        decide_eq_true_eq] at hcurrent
      have hheard := hfold { s.told with ready := true } (if_pos ⟨rfl, hcurrent.1.2, hcurrent.2⟩)
      have hcore : Core { s with
          workerEvents := rest
          restartFailures := 0, recoveryInProgress := false, readyConnectionGeneration := some generation
          snapshot := { s.snapshot with
            phase := .ready, connected := true, readyGeneration := some s.workerGeneration } } :=
        (h.core.pop hevents rfl).same rfl rfl rfl rfl rfl rfl
      have hrecovered : ¬ (false = true) := by decide
      refine ⟨hcore.emit rfl (if_pos hmatches), fun w hw => ?_, fun hr => absurd hr hrecovered, h.blocked⟩
      have hatt := h.attached w hw
      exact ⟨hheard ▸ hatt.heard, hheard ▸ hatt.latest, hheard ▸ hatt.linked, hatt.flag, hatt.ready, hatt.exited,
        hatt.control⟩
    · next hcurrent =>
      have hpop : Inv { s with workerEvents := rest } := by
        refine h.pop hevents rfl fun hsome => if_neg fun heard => hcurrent ?_
        rw [Supervisor.isCurrentReadyGeneration, Bool.and_eq_true, Bool.and_eq_true, Bool.and_eq_true,
          decide_eq_true_eq, decide_eq_true_eq, decide_eq_true_eq]
        exact ⟨⟨⟨hsome, rfl⟩, heard.2.1⟩, heard.2.2⟩
      refine ⟨hpop.core.emit rfl (if_pos hmatches), fun w hw => ?_, h.recovering, h.blocked⟩
      have hatt := hpop.attached w hw
      exact ⟨hatt.heard, hatt.latest, hatt.linked, hatt.flag, hatt.ready, hatt.exited, hatt.control⟩

private theorem Core.workerExited {s : Supervisor} (h : Core s) (reason : Str) (stopping : Stopping) (now : Nat) :
    Inv (workerExited s reason stopping now) := by
  have hcore : Core { s with
      restartReason := some reason, transportConnectedGeneration := none, connected := false,
      readyConnectionGeneration := none } := h.same rfl rfl rfl rfl rfl rfl
  have hstopped := hcore.stopWorker stopping
  rw [Connection.workerExited]
  dsimp only
  split
  · exact .of_none ((hstopped.scheduleRestart now).same rfl rfl rfl rfl rfl rfl) rfl
  · exact .of_none (hstopped.same rfl rfl rfl rfl rfl rfl) rfl

theorem Inv.runBranch {s : Supervisor} (h : Inv s) (pass : Pass) : Inv (runBranch s pass).1 := by
  rw [Connection.runBranch]
  split
  · exact h
  · exact h
  · exact h.controlReady _ _
  · exact h.controlRebuild _ _ _ _
  · exact h.recover _ _ _
  · split
    · exact h
    · next event rest hevents =>
      dsimp only
      split
      · next hmatches => exact h.observe hevents hmatches
      · next hother =>
        obtain ⟨w, hfrom, -⟩ := h.core.past (.supervisor event) (by rw [hevents]; exact List.mem_cons_self)
        -- an event that does not match is from a worker that was replaced
        have hne : w ≠ s.workerGeneration := by
          rintro rfl
          cases event with
          | rebuilt _ _ _ | terminated => cases hfrom
          | transportConnected _ v | subscriptionsReady _ v | generationReady _ v | disconnected _ v _ =>
            exact hother (decide_eq_true (Option.some.inj hfrom))
        obtain ⟨hattempt, hhear⟩ := WorkerEvent.ignored hfrom hne
        exact h.pop hevents hattempt fun _ => hhear _
    · next w reason rest hevents =>
      dsimp only
      split
      · next hne =>
        obtain ⟨hattempt, hhear⟩ := WorkerEvent.ignored (rfl : (WorkerEvent.exited w reason).from? = some w) (Ne.symm hne)
        exact h.pop hevents hattempt fun _ => hhear _
      · have hpop := h.core.pop hevents rfl
        split
        · exact hpop.blockStorage _
        · split
          · next hblocked => exact .of_none hpop (h.blocked hblocked)
          · exact hpop.workerExited _ _ _

private theorem Core.shutdown {s : Supervisor} (h : Core s) (stopping : Stopping) : Inv (shutdown s stopping) := by
  have hcore : Core { s with
      connected := false
      snapshot := { s.snapshot with phase := .stopped, connected := false, readyGeneration := none } } :=
    h.same rfl rfl rfl rfl rfl rfl
  have htold := (hcore.stopWorker stopping).emit (rfl : MqttSupervisorEvent.attempt? .terminated = none) rfl
  exact .of_none (htold.same rfl rfl rfl rfl rfl rfl) rfl

private theorem Inv.select {s : Supervisor} (h : Inv s) (pass : Pass) : Inv (select s pass) := by
  rw [Connection.select]
  split
  · exact h.core.shutdown _
  · have hbranch := h.runBranch pass
    dsimp only
    split
    · exact hbranch.wakeGap _ _ _
    · exact hbranch

theorem Inv.runPass {s : Supervisor} (h : Inv s) (pass : Pass) : Inv (runPass s pass) := by
  have hflushed := h.flushWaiting pass.command pass.disposition
  rw [Connection.runPass]
  dsimp only
  split
  · next hdue =>
    rw [Supervisor.restartDue, Bool.and_eq_true, Bool.and_eq_true, Bool.not_eq_true'] at hdue
    have hrestarted := hflushed.restart (Option.isNone_iff_eq_none.mp hdue.1.1) hdue.1.2 pass.credential pass.now
    split
    · exact hrestarted.select pass
    · exact hrestarted
  · exact hflushed.select pass

/-- One step keeps the invariant. -/
theorem Inv.step {s : Supervisor} (h : Inv s) (i : Input) : Inv (step s i) := by
  cases i with
  | worker input => exact h.workerStep input
  | pass pass =>
    rw [Connection.step]
    split
    · exact h
    · exact h.runPass pass

theorem inv_run (now nowMs : Nat) (inputs : List Input) : Inv ((supervisor now nowMs).run inputs) := by
  have hinit : Inv (supervisor now nowMs).init := by
    have hfirst (w : Worker) (hw : w ∈ (supervisor now nowMs).init.worker) :
        w = { workerGeneration := 0, generation := 0 } := (Option.some.inj hw).symm
    have hcore : Core (supervisor now nowMs).init := by
      refine ⟨fun w hw => ?_, List.forall_mem_nil _, ⟨0, rfl, fun w hw => ?_⟩, rfl, rfl, rfl⟩
      · rw [hfirst w hw]
        rfl
      · rw [hfirst w hw]
        rfl
    refine ⟨hcore, fun w hw => ?_, fun _ _ => rfl, fun hb => by cases hb⟩
    rw [hfirst w hw]
    constructor
    · rfl
    · rfl
    · intro hc
      cases hc
    · rfl
    · intro hr
      cases hr
    · intro he
      cases he
    · intro c hc
      cases hc
  have hstep (s : Supervisor) (i : Input) (h : Inv s) (_ : True) : Inv ((supervisor now nowMs).step s i) := h.step i
  exact Machine.invariant_runFrom hstep hinit ((supervisor now nowMs).steps_true _ inputs)

/-! ## Answers to recovery signals -/

section Recoveries

variable (s : Supervisor) (stopping : Stopping) (now : Nat)

private theorem workerStep_recoveries (input : WorkerInput) : (workerStep s input).recoveries = s.recoveries := by
  rcases workerStep_cases s input with heq | ⟨w, w', flag, sent, -, -, -, heq⟩ <;> rw [heq]

private theorem stopWorker_recoveries : (stopWorker s stopping).recoveries = s.recoveries := by
  have hwindow (inputs : List WorkerInput) (s : Supervisor) :
      (inputs.foldl workerStep s).recoveries = s.recoveries := by
    induction inputs generalizing s with
    | nil => rfl
    | cons input inputs ih => rw [List.foldl_cons, ih, workerStep_recoveries]
  rw [stopWorker]
  dsimp only
  split
  · rw [workerStep_recoveries, hwindow]
  · exact hwindow _ s

private theorem flushWaiting_recoveries (command disposition : Bool) :
    (flushWaiting s command disposition).recoveries = s.recoveries ∧
      (flushWaiting s command disposition).worker = s.worker := by
  rw [flushWaiting]
  split
  · split
    · cases command <;> cases disposition <;> exact ⟨rfl, rfl⟩
    · exact ⟨rfl, rfl⟩
  · exact ⟨rfl, rfl⟩

private theorem stopForRecovery_recoveries : (stopForRecovery s stopping).recoveries = s.recoveries := by
  rw [stopForRecovery]
  split
  · exact stopWorker_recoveries s stopping
  · rfl

private theorem wakeGap_recoveries (nowMs : Nat) : (wakeGap s stopping now nowMs).recoveries = s.recoveries := by
  rw [wakeGap]
  dsimp only
  split
  · exact stopForRecovery_recoveries _ _
  · rfl

private theorem blockStorage_recoveries : (blockStorage s stopping).recoveries = s.recoveries :=
  stopWorker_recoveries _ _

private theorem controlReady_recoveries (generation workerGeneration : Nat) :
    (controlReady s generation workerGeneration).recoveries = s.recoveries := by
  rw [controlReady]
  split
  · rfl
  · split <;> rfl

private theorem controlRebuild_recoveries (reason : Str) (fence : Option (Nat × Nat)) :
    (controlRebuild s reason fence stopping now).recoveries = s.recoveries := by
  rw [controlRebuild]
  split
  · rfl
  · split
    · exact blockStorage_recoveries s stopping
    · dsimp only
      split
      · split
        · exact stopWorker_recoveries _ _
        · exact stopWorker_recoveries _ _
      · split <;> rfl

private theorem observe_recoveries (event : MqttSupervisorEvent) : (observe s event).recoveries = s.recoveries := by
  cases event with
  | generationReady generation workerGeneration =>
    rw [observe]
    split <;> rfl
  | _ => rfl

private theorem workerExited_recoveries (reason : Str) :
    (workerExited s reason stopping now).recoveries = s.recoveries := by
  rw [workerExited]
  dsimp only
  split
  · exact stopWorker_recoveries _ _
  · exact stopWorker_recoveries _ _

private theorem restart_recoveries (credential : Credential) : (restart s credential now).recoveries = s.recoveries := by
  cases credential <;> rfl

end Recoveries

/-- Recovery signals are answered, as healthy only where the worker is ready. -/
private def Answers (s s' : Supervisor) : Prop := ∃ answers, s'.recoveries = s.recoveries ++ answers ∧
  ∀ answer ∈ answers, answer.outcome = .alreadyHealthy → ∃ w, s.worker = some w ∧ w.generationReady = true

private theorem Answers.none {s s' : Supervisor} (h : s'.recoveries = s.recoveries) : Answers s s' :=
  ⟨[], by rw [h, List.append_nil], fun _ h => absurd h List.not_mem_nil⟩

/-- The flag of a healthy connection is that of its worker. -/
private theorem Inv.ready_of_healthy {s : Supervisor} (h : Inv s) (hhealthy : s.healthy = true) :
    ∃ w, s.worker = some w ∧ w.generationReady = true := by
  rw [Supervisor.healthy, Bool.and_eq_true_iff, Bool.and_eq_true_iff] at hhealthy
  obtain ⟨w, hw⟩ := Option.isSome_iff_exists.mp hhealthy.1.1
  exact ⟨w, hw, (h.attached w hw).flag.symm.trans hhealthy.2⟩

private theorem answers_recover {s : Supervisor} (h : Inv s) (reason : MqttRecoveryReason) (stopping : Stopping)
    (now : Nat) : Answers s (recover s reason stopping now) := by
  rw [recover]
  dsimp only
  split
  · next hhealthy => exact ⟨_, rfl, fun _ _ _ => h.ready_of_healthy hhealthy⟩
  · split
    · refine ⟨_, rfl, fun answer hanswer houtcome => ?_⟩
      rw [List.mem_singleton.mp hanswer] at houtcome
      cases houtcome
    · refine ⟨[MqttRecoveryAccepted.mk true .recovering (if s.worker.isSome then some s.workerGeneration else none)],
        ?_, fun answer hanswer houtcome => ?_⟩
      · split
        · rfl
        · exact stopForRecovery_recoveries _ _
      · rw [List.mem_singleton.mp hanswer] at houtcome
        cases houtcome

private theorem answers_select {s : Supervisor} (h : Inv s) (pass : Pass) : Answers s (select s pass) := by
  have hbranch : Answers s (runBranch s pass).1 := by
    rw [runBranch]
    split
    · exact .none rfl
    · exact .none rfl
    · exact .none (controlReady_recoveries _ _ _)
    · exact .none (controlRebuild_recoveries _ _ _ _ _)
    · exact answers_recover h _ _ _
    · split
      · exact .none rfl
      · dsimp only
        split
        · exact .none (observe_recoveries _ _)
        · exact .none rfl
      · dsimp only
        split
        · exact .none rfl
        · split
          · exact .none (blockStorage_recoveries _ _)
          · split
            · exact .none rfl
            · exact .none (workerExited_recoveries _ _ _ _)
  rw [select]
  split
  · exact .none (stopWorker_recoveries _ _)
  · dsimp only
    split
    · obtain ⟨answers, heq, hall⟩ := hbranch
      exact ⟨answers, (wakeGap_recoveries _ _ _ _).trans heq, hall⟩
    · exact hbranch

/-- What one step answers. -/
private theorem answers_step {s : Supervisor} (h : Inv s) (input : Input) : Answers s (step s input) := by
  cases input with
  | worker input => exact .none (workerStep_recoveries s input)
  | pass pass =>
    rw [step]
    split
    · exact .none rfl
    · rw [runPass]
      have hflushed := h.flushWaiting pass.command pass.disposition
      obtain ⟨hrecoveries, hworker⟩ := flushWaiting_recoveries s pass.command pass.disposition
      generalize flushWaiting s pass.command pass.disposition = flushed at hflushed hrecoveries hworker
      rw [Answers, ← hrecoveries, ← hworker]
      dsimp only
      split
      · next hdue =>
        simp only [Supervisor.restartDue, Bool.and_eq_true, Option.isNone_iff_eq_none, Bool.not_eq_true'] at hdue
        split
        · next htoken =>
          -- A worker that has just been started is not ready.
          have hrestarted := hflushed.restart hdue.1.1 hdue.1.2 pass.credential pass.now
          obtain ⟨answers, heq, hall⟩ := answers_select hrestarted pass
          refine ⟨answers, heq.trans (by rw [restart_recoveries]), fun answer hanswer houtcome => ?_⟩
          obtain ⟨w, hw, hready⟩ := hall answer hanswer houtcome
          rw [htoken] at hw
          cases hw
          cases hready
        · exact Answers.none (restart_recoveries _ _ _)
      · exact answers_select hflushed pass

/-! ## Results -/

/-- In every interleaving, what the daemon is told fits together: workers come one by one, each event is from the
    worker of the last rebuild before it, and the connections are numbered one by one across all workers, as the
    attempts of the snapshot count them. -/
theorem events_fenced (now nowMs : Nat) (inputs : List Input) :
    ((supervisor now nowMs).run inputs).events.foldlM follow 0 =
      some ((supervisor now nowMs).run inputs).workerGeneration ∧
    ((supervisor now nowMs).run inputs).events.filterMap (·.attempt?) =
      List.range' 1 ((supervisor now nowMs).run inputs).generation ∧
    ((supervisor now nowMs).run inputs).snapshot.connectionAttempt.getD 0 =
      ((supervisor now nowMs).run inputs).generation := by
  have hcore := (inv_run now nowMs inputs).core
  exact ⟨hcore.fenced, hcore.connections, hcore.attempts⟩

/-- A worker that is ready is connected, at the latest connection that the supervisor knows, and the flag says so at
    once; so does the snapshot when the channel is read.  A recovery signal is answered as healthy only where the
    worker is ready. -/
theorem snapshot_settles (now nowMs : Nat) (inputs : List Input) :
    (∀ w, ((supervisor now nowMs).run inputs).worker = some w →
      ((supervisor now nowMs).run inputs).connected = w.generationReady ∧
      (w.generationReady = true → w.connected = true ∧ w.exited = false ∧
        w.generation = ((supervisor now nowMs).run inputs).generation ∧
        w.workerGeneration = ((supervisor now nowMs).run inputs).workerGeneration) ∧
      (((supervisor now nowMs).run inputs).workerEvents = [] →
        ((supervisor now nowMs).run inputs).snapshot.connected = w.generationReady)) ∧
    ∀ input, ∃ answers, ((supervisor now nowMs).run (inputs ++ [input])).recoveries =
        ((supervisor now nowMs).run inputs).recoveries ++ answers ∧
      ∀ answer ∈ answers, answer.outcome = .alreadyHealthy →
        ∃ w, ((supervisor now nowMs).run inputs).worker = some w ∧ w.generationReady = true := by
  have hinv := inv_run now nowMs inputs
  refine ⟨fun w hw => ?_, fun input => ?_⟩
  · generalize (supervisor now nowMs).run inputs = s at hw hinv
    have hatt := hinv.attached w hw
    refine ⟨hatt.flag, fun hready => ?_, fun hread => ?_⟩
    · obtain ⟨hconnected, hlatest⟩ := hatt.ready hready
      have hexited : w.exited = false := by
        rw [← Bool.not_eq_true]
        intro he
        rw [hatt.exited he] at hconnected
        cases hconnected
      exact ⟨hconnected, hexited, hlatest, hinv.core.owned w hw⟩
    · have hheard := hatt.heard
      rwa [hread] at hheard
  · have hrun : (supervisor now nowMs).run (inputs ++ [input]) = step ((supervisor now nowMs).run inputs) input := by
      rw [Machine.run, Machine.runFrom_append]
      rfl
    rw [hrun]
    exact answers_step hinv input

/-- A run to a ready worker, with a signal that comes too late to matter. -/
private def readyRun : List Input :=
  [.worker (.connAck true), .worker .restored, .pass { branch := .event, now := 1, nowMs := 1 },
    .pass { branch := .ready 1 0, now := 2, nowMs := 2 }, .worker .readControl,
    .pass { branch := .event, now := 3, nowMs := 3 }, .pass { branch := .event, now := 4, nowMs := 4 },
    .pass { branch := .recovery .networkOnline, now := 5, nowMs := 5 }]

/-- The worker at the end of it. -/
private def readyWorker : Worker where
  workerGeneration := 0
  generation := 1
  connected := true
  generationReady := true
  subscriptionsReadyAnnounced := true

theorem snapshot_settles_ready : ((supervisor 0 0).run readyRun).healthy = true ∧
    ((supervisor 0 0).run readyRun).snapshot.connected = true :=
  ⟨by decide, ((snapshot_settles 0 0 readyRun).1 readyWorker (by decide)).2.2 (by decide)⟩

end TeamClu.Connection
