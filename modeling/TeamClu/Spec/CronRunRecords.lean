import Mathlib.Data.List.Nodup
import TeamClu.Native.CronRuns

/-!
# One record for each run

Where the generation stands still at the checks of an execution, the workspace is that of its start when it writes, and
nothing writes between the read and the write of `update_last_run`, and where `reconcile_interrupted_runs` leaves the
executions of this process alone, the execution leaves one record in its file, and a terminal record is never changed
(`runs_recorded`).  A stop before the last check appends a second record, which says
that a successful run has failed (`success_then_failed`).

## Key results

- `replaceLast_of_filter`, `filter_replaceLast`: what `update_last_run` does to the lines of a run and of the others
- `RunsInv.step`: what one step keeps
- `runs_recorded`: what every run of such steps keeps
-/

namespace TeamClu.DesktopCron

/-! ## Lines of a run -/

@[simp] theorem isRun_record (runId : Str) (record : CronRunRecord) :
    (RunLine.record record).isRun runId = (record.runId == runId) := rfl

@[simp] theorem isRun_other (runId text : Str) : (RunLine.other text).isRun runId = false := rfl

/-- Without a line of the run nothing is replaced. -/
theorem replaceLast_eq_none {record : CronRunRecord} {lines : List RunLine}
    (h : lines.filter (·.isRun record.runId) = []) : replaceLast record lines = none := by
  induction lines with
  | nil => rfl
  | cons line rest ih =>
    obtain ⟨hline, hrest⟩ := List.filter_eq_nil_iff.mp h |> List.forall_mem_cons.mp
    rw [replaceLast, ih (List.filter_eq_nil_iff.mpr hrest)]
    simp [hline]

/-- The one line of the run is replaced. -/
theorem replaceLast_of_filter {record : CronRunRecord} {lines : List RunLine} {line : RunLine}
    (h : lines.filter (·.isRun record.runId) = [line]) :
    ∃ lines', replaceLast record lines = some lines' ∧
      lines'.filter (·.isRun record.runId) = [.record record] := by
  induction lines with
  | nil => cases h
  | cons first rest ih =>
    rw [replaceLast]
    cases hfirst : first.isRun record.runId with
    | true =>
      rw [List.filter_cons_of_pos (by simpa using hfirst)] at h
      have hrest : rest.filter (·.isRun record.runId) = [] := (List.cons.inj h).2
      rw [replaceLast_eq_none hrest]
      exact ⟨.record record :: rest, by simp, by simp [hrest]⟩
    | false =>
      rw [List.filter_cons_of_neg (by simp [hfirst])] at h
      obtain ⟨rest', hreplace, hfilter⟩ := ih h
      rw [hreplace]
      exact ⟨first :: rest', rfl, by simp [hfirst, hfilter]⟩

/-- The lines of the other runs stay. -/
theorem filter_replaceLast {record : CronRunRecord} {lines lines' : List RunLine}
    (h : replaceLast record lines = some lines') {runId : Str} (hne : runId ≠ record.runId) :
    lines'.filter (·.isRun runId) = lines.filter (·.isRun runId) := by
  induction lines generalizing lines' with
  | nil => cases h
  | cons line rest ih =>
    rw [replaceLast] at h
    split at h
    · next rest' hrest =>
      obtain rfl := Option.some.inj h
      simp only [List.filter_cons, ih hrest]
    · split at h
      · next hline =>
        obtain rfl := Option.some.inj h
        have hrecord : (RunLine.record record).isRun runId = false := by
          simpa using fun heq : record.runId = runId => hne heq.symm
        have hother : line.isRun runId = false := by
          cases line with
          | record entry =>
            have hid : entry.runId = record.runId := by simpa using hline
            simpa [hid] using fun heq : record.runId = runId => hne heq.symm
          | other text => rfl
        simp [hrecord, hother]
      · cases h

/-- What holds of the runs of the map and of the lines holds of the runs of the map after the lines. -/
theorem forall_foldl_insertLatest {P : Str → Prop} {lines : List RunLine} {records : List CronRunRecord}
    (hrecords : ∀ record ∈ records, P record.runId)
    (hlines : ∀ line ∈ lines, ∀ runId, line.isRun runId = true → P runId) :
    ∀ record ∈ lines.foldl insertLatest records, P record.runId := by
  induction lines generalizing records with
  | nil => exact hrecords
  | cons line rest ih =>
    refine ih (fun record hmem => ?_) fun other hother => hlines other (List.mem_cons_of_mem _ hother)
    cases line with
    | other text => exact hrecords record hmem
    | record entry =>
      rcases List.mem_append.mp hmem with hold | hnew
      · exact hrecords record (List.mem_filter.mp hold).1
      · obtain rfl := List.mem_singleton.mp hnew
        refine hlines _ List.mem_cons_self _ ?_
        unfold normalizeLegacyTimeoutStatus
        split <;> simp

/-- The lines of a run in a file. -/
def RunSystem.linesOf (s : RunSystem) (file : Str × Str) (runId : Str) : List RunLine :=
  ((s.files file).getD []).filter (·.isRun runId)

/-! ## What holds of an execution -/

/-- The result of the turn must be delivered. -/
def Run.mustDeliver (run : Run) (turn : Turn) : Prop :=
  run.job.delivery.any (fun delivery => delivery.announce && !delivery.bestEffort) = true ∧ turn.text ≠ []

/-- The turn was completed without an error of the agent, and what must be delivered was delivered. -/
def Run.Succeeded (run : Run) : Prop :=
  ∃ turn, run.turn = some turn ∧ turn.agentError = none ∧ turn.timedOut = false ∧
    (run.mustDeliver turn → run.delivered = true)

/-- The record of the execution is terminal and truthful. -/
def Run.Ended (run : Run) : Prop :=
  run.record.status ≠ .running ∧ (run.record.status = .success → run.Succeeded)

/-- The turn was answered without an error of the agent. -/
def Run.Answered (run : Run) (turn : Turn) : Prop := run.turn = some turn ∧ turn.agentError = none

/-- What holds while a record is persisted. -/
def Run.AfterSound (run : Run) : After → Prop
  | .prompt => run.record.status = .running
  | .judge turn => run.record.status = .running ∧ run.turn = some turn
  | .lastCheck | .finish => run.Ended

/-- What holds of an execution in each phase. -/
def Run.Sound (run : Run) : Prop :=
  match run.phase with
  | .readingWorkspace | .opening | .preparing | .prompting | .checking .beforeWork => run.record.status = .running
  | .checking (.beforeDelivery turn) | .delivering turn => run.record.status = .running ∧ run.Answered turn
  | .sending turn bestEffort => run.record.status = .running ∧ run.Answered turn ∧
      bestEffort = run.job.delivery.any (·.bestEffort)
  | .checking .beforeJobUpdate | .finished => run.Ended
  | .persisting after | .rewriting _ after => run.AfterSound after
  | .aborting | .appending _ => False

/-- The execution has no record yet. -/
def Run.unwritten (run : Run) : Bool :=
  match run.phase with
  | .readingWorkspace | .opening => true
  | _ => false

/-- The execution has persisted its last record. -/
def Run.settled (run : Run) : Bool :=
  match run.phase with
  | .checking .beforeJobUpdate | .finished => true
  | _ => false

/-- The execution has no record before it opens one, then one that is running, and in the end its own. -/
structure Run.Placed (run : Run) (s : RunSystem) : Prop where
  elsewhere : ∀ file, (run.unwritten = true ∨ file ≠ run.file run.workspace) → s.linesOf file run.record.runId = []
  running : run.unwritten = false → run.settled = false → ∃ entry, entry.status = .running ∧
    s.linesOf (run.file run.workspace) run.record.runId = [.record entry]
  settled : run.settled = true → s.linesOf (run.file run.workspace) run.record.runId = [.record run.record]

/-- A run that was given out and has no execution in this process. -/
structure RunSystem.Orphan (s : RunSystem) (runId : Str) : Prop where
  issued : runId ∈ s.issued
  not_here : ∀ run ∈ s.runs, run.record.runId ≠ runId

/-- What `reconcile_interrupted_runs` has read are runs that were given out, and what it writes has no execution. -/
structure Reconciliation.Sound (call : Reconciliation) (s : RunSystem) : Prop where
  pending : ∀ record ∈ call.pending, record.runId ∈ s.issued
  rewriting : ∀ record lines lines', call.phase = .rewriting record lines → replaceLast record lines = some lines' →
    s.Orphan record.runId
  appending : ∀ record, call.phase = .appending record → s.Orphan record.runId

/-- What holds in every state. -/
structure RunsInv (s : RunSystem) : Prop where
  ids : (s.runs.map (·.record.runId)).Nodup
  issued : ∀ run ∈ s.runs, run.record.runId ∈ s.issued
  known : ∀ runId, runId ∉ s.issued → ∀ file, s.linesOf file runId = []
  jobs : ∀ run ∈ s.runs, run.record.jobId = run.job.id
  sound : ∀ run ∈ s.runs, run.Sound
  placed : ∀ run ∈ s.runs, run.Placed s
  locked : ∀ run ∈ s.runs, ∀ lines after, run.phase = .rewriting lines after → s.workspace = some run.workspace
  reconciled : ∀ call ∈ s.reconciliations, call.Sound s

/-! ## Writes -/

variable {s s' : RunSystem} {run run' : Run} {i : Nat}

/-- Other lines in one file. -/
theorem linesOf_setFile (s : RunSystem) (file file' : Str × Str) (lines : List RunLine) (runId : Str) :
    (s.setFile file lines).linesOf file' runId =
      if file' = file then lines.filter (·.isRun runId) else s.linesOf file' runId := by
  unfold RunSystem.linesOf RunSystem.setFile
  simp only [Function.update_apply]
  split <;> rfl

/-- The record is appended to the file of its job in the workspace. -/
theorem linesOf_appendRun {workspace : Str} (hworkspace : s.workspace = some workspace) (record : CronRunRecord)
    (file : Str × Str) (runId : Str) :
    (s.appendRun record).linesOf file runId =
      if file = (workspace, record.jobId) ∧ record.runId = runId then s.linesOf file runId ++ [.record record]
      else s.linesOf file runId := by
  unfold RunSystem.appendRun
  rw [hworkspace]
  simp only [linesOf_setFile]
  by_cases hfile : file = (workspace, record.jobId)
  · subst hfile
    by_cases hid : record.runId = runId
    · simp [RunSystem.linesOf, hid]
    · simp [RunSystem.linesOf, hid]
  · simp [hfile]

/-- `append_run` changes a run file and nothing else. -/
private theorem appendRun_same (s : RunSystem) (record : CronRunRecord) :
    (s.appendRun record).runs = s.runs ∧ (s.appendRun record).issued = s.issued ∧
      (s.appendRun record).workspace = s.workspace ∧ (s.appendRun record).reconciliations = s.reconciliations := by
  unfold RunSystem.appendRun
  split <;> exact ⟨rfl, rfl, rfl, rfl⟩

/-- An execution whose lines are as before. -/
theorem Run.Placed.of_linesOf (h : run.Placed s)
    (hsame : ∀ file, s'.linesOf file run.record.runId = s.linesOf file run.record.runId) : run.Placed s' where
  elsewhere file hfile := (hsame file).trans (h.elsewhere file hfile)
  running hwritten hsettled := by
    obtain ⟨entry, hstatus, hlines⟩ := h.running hwritten hsettled
    exact ⟨entry, hstatus, (hsame _).trans hlines⟩
  settled hsettled := (hsame _).trans (h.settled hsettled)

/-- New executions have new run ids. -/
theorem RunSystem.Orphan.mono {runId : Str} (h : s.Orphan runId) (hissued : ∀ id ∈ s.issued, id ∈ s'.issued)
    (hruns : ∀ run ∈ s'.runs, run.record.runId ∈ s.runs.map (·.record.runId) ∨ run.record.runId ∉ s.issued) :
    s'.Orphan runId := by
  refine ⟨hissued _ h.issued, fun run hrun heq => ?_⟩
  rcases hruns run hrun with hold | hnew
  · obtain ⟨other, hother, hid⟩ := List.mem_map.mp hold
    exact h.not_here other hother (hid.trans heq)
  · exact hnew (heq ▸ h.issued)

theorem Reconciliation.Sound.mono {call : Reconciliation} (h : call.Sound s) (hissued : ∀ id ∈ s.issued, id ∈ s'.issued)
    (hruns : ∀ run ∈ s'.runs, run.record.runId ∈ s.runs.map (·.record.runId) ∨ run.record.runId ∉ s.issued) :
    call.Sound s' where
  pending record hrecord := hissued _ (h.pending record hrecord)
  rewriting record lines lines' hphase hreplace := (h.rewriting record lines lines' hphase hreplace).mono hissued hruns
  appending record hphase := (h.appending record hphase).mono hissued hruns

/-- An execution goes on, and only lines of its own change. -/
theorem RunsInv.advance (h : RunsInv s) (hi : s.runs[i]? = some run) (hruns : s'.runs = s.runs.set i run')
    (hissued : s'.issued = s.issued) (hworkspace : s'.workspace = s.workspace)
    (hreconciliations : s'.reconciliations = s.reconciliations) (hid : run'.record.runId = run.record.runId)
    (hframe : ∀ runId, runId ≠ run.record.runId → ∀ file, s'.linesOf file runId = s.linesOf file runId)
    (hjob : run'.record.jobId = run'.job.id) (hsound : run'.Sound) (hplaced : run'.Placed s')
    (hlocked : ∀ lines after, run'.phase = .rewriting lines after → s.workspace = some run'.workspace) :
    RunsInv s' := by
  have hrun : run ∈ s.runs := List.mem_of_getElem? hi
  have hmem : ∀ other ∈ s'.runs, other = run' ∨ other ∈ s.runs ∧ other.record.runId ≠ run.record.runId := by
    intro other hother
    rw [hruns] at hother
    obtain ⟨j, hj⟩ := List.mem_iff_getElem?.mp hother
    rw [List.getElem?_set] at hj
    split at hj
    · split at hj
      · exact Or.inl (Option.some.inj hj).symm
      · cases hj
    · next hne =>
      refine Or.inr ⟨List.mem_of_getElem? hj, fun heq => hne ?_⟩
      -- Two executions with one run id are the same one.
      have hi' : (s.runs.map (·.record.runId))[i]? = some run.record.runId := by simp [hi]
      have hj' : (s.runs.map (·.record.runId))[j]? = some run.record.runId := by simp [hj, heq]
      obtain ⟨hilt, hieq⟩ := List.getElem?_eq_some_iff.mp hi'
      obtain ⟨hjlt, hjeq⟩ := List.getElem?_eq_some_iff.mp hj'
      exact (h.ids.getElem_inj_iff).mp (hieq.trans hjeq.symm)
  have hids : s'.runs.map (·.record.runId) = s.runs.map (·.record.runId) := by
    obtain ⟨hlt, heq⟩ := List.getElem?_eq_some_iff.mp hi
    rw [hruns, List.map_set, hid]
    exact List.ext_getElem (by simp) fun j hj hj' => by
      rw [List.getElem_set]
      split
      · next hij =>
        subst hij
        simp [heq]
      · rfl
  refine ⟨hids ▸ h.ids, fun other hother => ?_, fun runId hnew file => ?_, fun other hother => ?_,
    fun other hother => ?_, fun other hother => ?_, fun other hother lines after hphase => ?_, fun call hcall => ?_⟩
  · rcases hmem other hother with rfl | ⟨hold, -⟩
    · exact hissued ▸ hid ▸ h.issued run hrun
    · exact hissued ▸ h.issued other hold
  · rw [hissued] at hnew
    have hne : runId ≠ run.record.runId := fun heq => hnew (heq ▸ h.issued run hrun)
    exact (hframe runId hne file).trans (h.known runId hnew file)
  · rcases hmem other hother with rfl | ⟨hold, -⟩
    · exact hjob
    · exact h.jobs other hold
  · rcases hmem other hother with rfl | ⟨hold, -⟩
    · exact hsound
    · exact h.sound other hold
  · rcases hmem other hother with rfl | ⟨hold, hne⟩
    · exact hplaced
    · exact (h.placed other hold).of_linesOf (hframe _ hne)
  · rcases hmem other hother with rfl | ⟨hold, -⟩
    · exact hworkspace.trans (hlocked lines after hphase)
    · exact hworkspace.trans (h.locked other hold lines after hphase)
  · rw [hreconciliations] at hcall
    refine (h.reconciled call hcall).mono (fun id hold => hissued ▸ hold) fun other hother => Or.inl ?_
    rw [← hids]
    exact List.mem_map_of_mem hother

/-- An execution goes on and writes nothing: its lines must be right for the phase it comes to. -/
theorem RunsInv.setRun (h : RunsInv s) (hi : s.runs[i]? = some run) (hid : run'.record.runId = run.record.runId)
    (hjobId : run'.record.jobId = run.record.jobId) (hjob : run'.job = run.job) (hsound : run'.Sound)
    (hplaced : run'.Placed s)
    (hlocked : ∀ lines after, run'.phase = .rewriting lines after → s.workspace = some run'.workspace) :
    RunsInv (s.setRun i run') :=
  h.advance hi rfl rfl rfl rfl hid (fun _ _ _ => rfl)
    (by rw [hjobId, hjob]; exact h.jobs run (List.mem_of_getElem? hi)) hsound
    (hplaced.of_linesOf fun _ => rfl) hlocked

/-- The lines of an execution that has a record which is running stay right until it persists its last one. -/
theorem Run.Placed.going (h : run.Placed s) (hid : run'.record.runId = run.record.runId)
    (hworkspace : run'.workspace = run.workspace) (hjob : run'.job = run.job) (hwritten : run.unwritten = false)
    (hsettled : run.settled = false) (hwritten' : run'.unwritten = false) (hsettled' : run'.settled = false) :
    run'.Placed s := by
  have hfile : run'.file run'.workspace = run.file run.workspace := by rw [Run.file, Run.file, hworkspace, hjob]
  refine ⟨fun file hne => ?_, fun _ _ => ?_, fun hyes => ?_⟩
  · rw [hid]
    rcases hne with hun | hne
    · rw [hwritten'] at hun
      cases hun
    · exact h.elsewhere file (Or.inr (hfile ▸ hne))
  · rw [hid, hfile]
    exact h.running hwritten hsettled
  · rw [hsettled'] at hyes
    cases hyes

/-! ## What a step leaves alone -/

/-- The run that a call of `reconcile_interrupted_runs` is writing. -/
def Reconciliation.writing? (call : Reconciliation) : Option Str :=
  match call.phase with
  | .rewriting record _ | .appending record => some record.runId
  | .reading _ | .choosing => none

/-- The run whose lines a step may change. -/
def RunInput.subject? (s : RunSystem) : RunInput → Option Str
  | .go i | .prepared i _ | .heartbeat i | .prompted i _ | .deadline i | .sent i _ =>
    s.runs[i]?.map (·.record.runId)
  | .reconcileGo k _ => s.reconciliations[k]?.bind (·.writing?)
  | _ => none

theorem linesOf_appendRun_ne (s : RunSystem) {record : CronRunRecord} {runId : Str} (hne : runId ≠ record.runId)
    (file : Str × Str) : (s.appendRun record).linesOf file runId = s.linesOf file runId := by
  cases hworkspace : s.workspace with
  | none => simp [RunSystem.appendRun, hworkspace]
  | some workspace =>
    rw [linesOf_appendRun hworkspace, if_neg]
    exact fun h => hne h.2.symm

theorem linesOf_replaced_ne {file : Str × Str} {lines lines' : List RunLine} {record : CronRunRecord}
    (hlines : s.files file = some lines) (hreplace : replaceLast record lines = some lines') {runId : Str}
    (hne : runId ≠ record.runId) (file' : Str × Str) :
    (s.setFile file lines').linesOf file' runId = s.linesOf file' runId := by
  rw [linesOf_setFile]
  split
  · next hfile =>
    rw [filter_replaceLast hreplace hne, hfile, RunSystem.linesOf, hlines]
    rfl
  · rfl

@[simp] theorem reconcileInterruptedRun_runId (record : CronRunRecord) (finishedAt : Int) :
    (reconcileInterruptedRun record finishedAt).runId = record.runId := by
  unfold reconcileInterruptedRun
  split <;> rfl

@[simp] theorem reconcileInterruptedRun_jobId (record : CronRunRecord) (finishedAt : Int) :
    (reconcileInterruptedRun record finishedAt).jobId = record.jobId := by
  unfold reconcileInterruptedRun
  split <;> rfl

@[simp] theorem linesOf_setRun (s : RunSystem) (i : Nat) (run : Run) (file : Str × Str) (runId : Str) :
    (s.setRun i run).linesOf file runId = s.linesOf file runId := rfl

@[simp] theorem linesOf_setReconciliation (s : RunSystem) (k : Nat) (call : Reconciliation) (file : Str × Str)
    (runId : Str) : (s.setReconciliation k call).linesOf file runId = s.linesOf file runId := rfl

instance (run : Run) (turn : Turn) : Decidable (run.mustDeliver turn) := inferInstanceAs (Decidable (_ ∧ _))

/-- The execution finds at its next step what it relies on: the generation of its start at a check, the workspace of
    its start when it writes, its file as it has read it when it rewrites it, and the delivery manager for what must be
    delivered. -/
def Run.calm (run : Run) (s : RunSystem) : Bool :=
  match run.phase with
  | .opening | .persisting _ | .appending _ => decide (s.workspace = some run.workspace)
  | .checking _ => decide (s.generation = run.generation)
  | .rewriting lines _ => decide (s.files (run.file run.workspace) = some lines)
  | .delivering turn => decide (s.delivery = true ∨ turn.timedOut = true ∨ ¬ run.mustDeliver turn)
  | _ => true

/-- `update_last_run` will write the record: its file has a line of the run, or there is no file. -/
def RunSystem.takes (s : RunSystem) (record : CronRunRecord) : Bool :=
  s.workspace.any fun workspace => (s.files (workspace, record.jobId)).all (·.any (·.isRun record.runId))

/-- A call of `reconcile_interrupted_runs` takes up no record of a run that has an execution in this process, and it
    finds its file as it has read it when it rewrites it. -/
def Reconciliation.calm (call : Reconciliation) (s : RunSystem) (n : Nat) : Bool :=
  match call.phase with
  | .choosing => call.pending[n]?.all fun record =>
      s.takes record → s.runs.all fun run => run.record.runId ≠ record.runId
  | .rewriting record lines =>
    (replaceLast record lines).isSome → s.workspace.all fun workspace =>
      s.files (workspace, record.jobId) = some lines
  | .reading _ | .appending _ => true

/-- No step of an execution and no step of `reconcile_interrupted_runs` is a disturbance. -/
def Undisturbed (s : RunSystem) : RunInput → Prop
  | .go i => ∀ run ∈ s.runs[i]?, run.calm s = true
  | .reconcileGo k n => ∀ call ∈ s.reconciliations[k]?, call.calm s n = true
  | _ => True

instance (s : RunSystem) : (input : RunInput) → Decidable (Undisturbed s input)
  | .go i => inferInstanceAs (Decidable (∀ run ∈ s.runs[i]?, run.calm s = true))
  | .reconcileGo k n => inferInstanceAs (Decidable (∀ call ∈ s.reconciliations[k]?, call.calm s n = true))
  | .advanceClock _ | .start | .stop | .switch _ | .setDelivery | .reconcile _ | .begin _ _ | .prepared _ _
  | .heartbeat _ | .prompted _ _ | .deadline _ | .sent _ _ => isTrue trivial

/-- A step of an execution changes no lines of other runs. -/
theorem linesOf_goStep_ne (h : RunsInv s) (hi : s.runs[i]? = some run) (hgood : Undisturbed s (.go i)) {runId : Str}
    (hne : runId ≠ run.record.runId) (file : Str × Str) :
    (goStep s i run).linesOf file runId = s.linesOf file runId := by
  have hgood : run.calm s = true := hgood run hi
  unfold goStep
  split
  · rfl
  · rw [linesOf_setRun]
    exact linesOf_appendRun_ne s hne file
  · split <;> rfl
  · rw [linesOf_setRun]
    exact linesOf_appendRun_ne s hne file
  · split
    · rfl
    · split <;> rfl
  · -- the lines that it has read are still those of the file, and only its own changes in them
    next lines after hphase =>
    have hworkspace := h.locked run (List.mem_of_getElem? hi) lines after hphase
    rw [Run.calm, hphase] at hgood
    split
    · next workspace lines' hworkspace' hreplace =>
      obtain rfl := Option.some.inj (hworkspace.symm.trans hworkspace')
      rw [linesOf_setRun]
      exact linesOf_replaced_ne (of_decide_eq_true hgood) hreplace hne file
    · rfl
  · rw [linesOf_setRun]
    exact linesOf_appendRun_ne s hne file
  · split <;> rfl
  · rfl

/-- `reconcile_interrupted_runs` writes the records of one run at a time. -/
theorem linesOf_reconcileStep_ne (s : RunSystem) (k : Nat) {n : Nat} {call : Reconciliation} {runId : Str}
    (hgood : call.calm s n = true) (hne : call.writing? ≠ some runId) (file : Str × Str) :
    (reconcileStep s k n call).linesOf file runId = s.linesOf file runId := by
  unfold reconcileStep
  split
  · split <;> rfl
  · split
    · rfl
    · split
      · rfl
      · split <;> rfl
  · -- what it writes back is what it has read, but for the line of its run
    next record lines hphase =>
    have hne' : runId ≠ record.runId := fun heq => hne (by rw [Reconciliation.writing?, hphase, heq])
    rw [linesOf_setReconciliation]
    split
    · next workspace lines' hworkspace hreplace =>
      have hfile : s.files (workspace, record.jobId) = some lines := by
        simpa [Reconciliation.calm, hphase, hreplace, hworkspace] using hgood
      exact linesOf_replaced_ne hfile hreplace hne' file
    · rfl
  · next record hphase =>
    have hne' : runId ≠ record.runId := fun heq => hne (by rw [Reconciliation.writing?, hphase, heq])
    rw [linesOf_setReconciliation]
    exact linesOf_appendRun_ne s hne' file

/-- Only a step of an execution or of `reconcile_interrupted_runs` writes a run file. -/
private theorem linesOf_runStep_other (s : RunSystem) {input : RunInput} (hgo : ∀ i, input ≠ .go i)
    (hreconcile : ∀ k n, input ≠ .reconcileGo k n) (file : Str × Str) (runId : Str) :
    (runStep s input).linesOf file runId = s.linesOf file runId := by
  cases input with
  | go i => exact absurd rfl (hgo i)
  | reconcileGo k n => exact absurd rfl (hreconcile k n)
  | advanceClock ms => rfl
  | start => rfl
  | stop => rfl
  | setDelivery => rfl
  | reconcile jobIds => rfl
  | switch workspace =>
    simp only [runStep]
    split <;> rfl
  | begin runId job =>
    simp only [runStep]
    split <;> rfl
  -- an answer moves an execution on, and what it has to write waits for its next step
  | prepared i session =>
    simp only [runStep]
    split
    · split
      · split <;> rfl
      · rfl
    · rfl
  | heartbeat i =>
    simp only [runStep]
    split
    · split <;> rfl
    · rfl
  | prompted i result =>
    simp only [runStep]
    split
    · split
      · split <;> rfl
      · rfl
    · rfl
  | deadline i =>
    simp only [runStep]
    split
    · split <;> rfl
    · rfl
  | sent i result =>
    simp only [runStep]
    split
    · split <;> rfl
    · rfl

/-- A step changes no lines but those of its subject. -/
theorem linesOf_runStep (h : RunsInv s) (input : RunInput) (hgood : Undisturbed s input) {runId : Str}
    (hne : input.subject? s ≠ some runId) (file : Str × Str) :
    (runStep s input).linesOf file runId = s.linesOf file runId := by
  cases input with
  | go i =>
    simp only [runStep]
    split
    · next run hi =>
      refine linesOf_goStep_ne h hi hgood (fun heq => hne ?_) file
      simp [RunInput.subject?, hi, heq]
    · rfl
  | reconcileGo k n =>
    simp only [runStep]
    split
    · next call hk =>
      exact linesOf_reconcileStep_ne s k (hgood call hk) (fun heq => hne (by simp [RunInput.subject?, hk, heq])) file
    · rfl
  | _ => exact linesOf_runStep_other s (by simp) (by simp) file runId

/-! ## The steps -/

theorem Run.ended_fail (run : Run) (now : Int) (error : Str) : (run.fail now error).Ended :=
  ⟨by simp [Run.fail], by simp [Run.fail]⟩

/-- A completed execution has succeeded if its status says so. -/
theorem Run.ended_complete {turn : Turn} (now : Int) (hanswered : run.Answered turn)
    (hdelivered : turn.timedOut = true ∨ (run.mustDeliver turn → run.delivered = true)) :
    (run.complete now turn).Ended := by
  cases htimedOut : turn.timedOut with
  | true => exact ⟨by simp [Run.complete, htimedOut], by simp [Run.complete, htimedOut]⟩
  | false =>
    refine ⟨by simp [Run.complete, htimedOut], fun _ => ⟨turn, hanswered.1, hanswered.2, htimedOut, ?_⟩⟩
    rcases hdelivered with hyes | hdelivered
    · rw [htimedOut] at hyes
      cases hyes
    · exact hdelivered

/-- The execution after a check. -/
theorem RunsInv.pass (h : RunsInv s) (hi : s.runs[i]? = some run) {checkpoint : Checkpoint}
    (hphase : run.phase = .checking checkpoint) : RunsInv (s.setRun i (run.pass s.clock checkpoint)) := by
  have hrun := List.mem_of_getElem? hi
  have hsound := h.sound run hrun
  have hplaced := h.placed run hrun
  have hwritten : run.unwritten = false := by rw [Run.unwritten, hphase]
  unfold Run.Sound at hsound
  rw [hphase] at hsound
  cases checkpoint with
  | beforeWork =>
    exact h.setRun hi rfl rfl rfl hsound
      (hplaced.going rfl rfl rfl hwritten (by rw [Run.settled, hphase]) rfl rfl) (fun _ _ hrewriting => nomatch hrewriting)
  | beforeDelivery turn =>
    obtain ⟨hrunning, hanswered⟩ := hsound
    have hsettled : run.settled = false := by rw [Run.settled, hphase]
    rw [Run.pass]
    split
    · exact h.setRun hi rfl rfl rfl ⟨hrunning, hanswered⟩ (hplaced.going rfl rfl rfl hwritten hsettled rfl rfl)
        (fun _ _ hrewriting => nomatch hrewriting)
    · -- no result has to be announced, so none is owed
      next hno =>
      have hended : (run.complete s.clock turn).Ended := by
        refine Run.ended_complete s.clock hanswered (Or.inr fun hmust => absurd ?_ hno)
        refine ⟨?_, hmust.2⟩
        obtain ⟨delivery, hdelivery, hannounce⟩ := (Option.any_eq_true _ _).mp hmust.1
        exact (Option.any_eq_true _ _).mpr ⟨delivery, hdelivery, (Bool.and_eq_true_iff.mp hannounce).1⟩
      exact h.setRun hi rfl rfl rfl hended (hplaced.going rfl rfl rfl hwritten hsettled rfl rfl)
        (fun _ _ hrewriting => nomatch hrewriting)
  | beforeJobUpdate =>
    have hsettled : run.settled = true := by rw [Run.settled, hphase]
    refine h.setRun hi rfl rfl rfl hsound ⟨fun file hne => ?_, fun _ hno => (nomatch hno),
        fun _ => hplaced.settled hsettled⟩
      (fun _ _ hrewriting => nomatch hrewriting)
    rcases hne with hun | hne
    · cases hun
    · exact hplaced.elsewhere file (Or.inr hne)

/-- The execution after its record was written: it is its one line. -/
private theorem Run.placed_resume {after : After} {now : Int} (hsound : run.AfterSound after)
    (hown : s.linesOf (run.file run.workspace) run.record.runId = [.record run.record])
    (helse : ∀ file, file ≠ run.file run.workspace → s.linesOf file run.record.runId = []) :
    (run.resume now after).Placed s := by
  cases after with
  | prompt =>
    refine ⟨fun file hne => helse file ?_, fun _ _ => ⟨run.record, hsound, hown⟩, fun hno => (nomatch hno)⟩
    rcases hne with hun | hne
    · cases hun
    · exact hne
  | judge turn =>
    rw [Run.resume]
    split
    · refine ⟨fun file hne => helse file ?_, fun _ _ => ⟨run.record, hsound.1, hown⟩, fun hno => (nomatch hno)⟩
      rcases hne with hun | hne
      · cases hun
      · exact hne
    · refine ⟨fun file hne => helse file ?_, fun _ _ => ⟨run.record, hsound.1, hown⟩, fun hno => (nomatch hno)⟩
      rcases hne with hun | hne
      · cases hun
      · exact hne
  | lastCheck =>
    refine ⟨fun file hne => helse file ?_, fun _ hno => (nomatch hno), fun _ => hown⟩
    rcases hne with hun | hne
    · cases hun
    · exact hne
  | finish =>
    refine ⟨fun file hne => helse file ?_, fun _ hno => (nomatch hno), fun _ => hown⟩
    rcases hne with hun | hne
    · cases hun
    · exact hne

/-- What is kept of an execution after its record was written. -/
private theorem Run.resume_kept (run : Run) (now : Int) (after : After) :
    (run.resume now after).record.runId = run.record.runId ∧ (run.resume now after).record.jobId = run.record.jobId ∧
      (run.resume now after).job = run.job := by
  cases after with
  | judge turn =>
    rw [Run.resume]
    split <;> exact ⟨rfl, rfl, rfl⟩
  | _ => exact ⟨rfl, rfl, rfl⟩

private theorem Run.sound_resume {after : After} (now : Int) (hsound : run.AfterSound after) :
    (run.resume now after).Sound := by
  cases after with
  | judge turn =>
    rw [Run.resume]
    split
    · exact run.ended_fail now _
    · next hnone => exact ⟨hsound.1, hsound.2, hnone⟩
  | _ => exact hsound

private theorem Run.resume_not_rewriting (run : Run) (now : Int) (after : After) (lines : List RunLine) (after' : After) :
    (run.resume now after).phase ≠ .rewriting lines after' := by
  cases after with
  | judge turn =>
    rw [Run.resume]
    split <;> exact fun h => (nomatch h)
  | _ => exact fun h => (nomatch h)

/-- The execution writes its record. -/
theorem RunsInv.rewrite (h : RunsInv s) (hi : s.runs[i]? = some run) {lines : List RunLine} {after : After}
    (hphase : run.phase = .rewriting lines after) (hfile : s.files (run.file run.workspace) = some lines) :
    RunsInv (goStep s i run) := by
  have hrun := List.mem_of_getElem? hi
  have hsound := h.sound run hrun
  have hplaced := h.placed run hrun
  have hworkspace := h.locked run hrun lines after hphase
  unfold Run.Sound at hsound
  rw [hphase] at hsound
  obtain ⟨entry, -, hlines⟩ := hplaced.running (by rw [Run.unwritten, hphase]) (by rw [Run.settled, hphase])
  have hfilter : lines.filter (·.isRun run.record.runId) = [.record entry] := by
    rw [RunSystem.linesOf, hfile] at hlines
    exact hlines
  -- its line is in the file, so the replacement finds it
  obtain ⟨lines', hreplace, hown⟩ := replaceLast_of_filter hfilter
  have hstep : goStep s i run = (s.setFile (run.file run.workspace) lines').setRun i (run.resume s.clock after) := by
    simp only [goStep, hphase, hworkspace, hreplace]
  rw [hstep]
  obtain ⟨hid, hjobId, hjob⟩ := run.resume_kept s.clock after
  have hframe : ∀ runId, runId ≠ run.record.runId → ∀ file,
      (s.setFile (run.file run.workspace) lines').linesOf file runId = s.linesOf file runId :=
    fun runId hne file => linesOf_replaced_ne hfile hreplace hne file
  refine h.advance hi rfl rfl rfl rfl hid hframe (by rw [hjobId, hjob]; exact h.jobs run hrun)
    (Run.sound_resume s.clock hsound) ?_ (fun l a hno => absurd hno (run.resume_not_rewriting s.clock after l a))
  refine (Run.placed_resume hsound ?_ fun file hne => ?_).of_linesOf fun _ => rfl
  · rw [linesOf_setRun, linesOf_setFile, if_pos rfl]
    exact hown
  · rw [linesOf_setRun, linesOf_setFile, if_neg hne]
    exact hplaced.elsewhere file (Or.inr hne)

/-- The execution opens its record. -/
theorem RunsInv.open (h : RunsInv s) (hi : s.runs[i]? = some run) (hphase : run.phase = .opening)
    (hworkspace : s.workspace = some run.workspace) :
    RunsInv ((s.appendRun run.record).setRun i { run with phase := .checking .beforeWork }) := by
  have hrun := List.mem_of_getElem? hi
  have hsound := h.sound run hrun
  have hplaced := h.placed run hrun
  unfold Run.Sound at hsound
  rw [hphase] at hsound
  -- its id is new, so no file has a line of it
  have hnone : ∀ file, s.linesOf file run.record.runId = [] :=
    fun file => hplaced.elsewhere file (Or.inl (by rw [Run.unwritten, hphase]))
  have hsystem := appendRun_same s run.record
  have hruns : ((s.appendRun run.record).setRun i { run with phase := .checking .beforeWork }).runs =
      s.runs.set i { run with phase := .checking .beforeWork } := by
    rw [← hsystem.1]
    rfl
  refine h.advance hi hruns hsystem.2.1 hsystem.2.2.1 hsystem.2.2.2 rfl
    (fun runId hne file => linesOf_appendRun_ne s hne file) (h.jobs run hrun) hsound ⟨fun file hne => ?_, fun _ _ => ?_,
    fun hno => (nomatch hno)⟩ (fun _ _ hno => (nomatch hno))
  · rw [linesOf_setRun, linesOf_appendRun hworkspace, if_neg]
    · exact hnone file
    · rintro ⟨rfl, -⟩
      rcases hne with hun | hne
      · cases hun
      · exact hne (by rw [Run.file, h.jobs run hrun])
  · refine ⟨run.record, hsound, ?_⟩
    rw [linesOf_setRun, linesOf_appendRun hworkspace, if_pos ⟨by rw [Run.file, h.jobs run hrun], rfl⟩]
    show s.linesOf (run.file run.workspace) run.record.runId ++ [.record run.record] = [.record run.record]
    rw [hnone, List.nil_append]

/-- A step of an execution that waits for no answer. -/
theorem RunsInv.go (h : RunsInv s) (hi : s.runs[i]? = some run) (hgood : Undisturbed s (.go i)) :
    RunsInv (goStep s i run) := by
  have hgood : run.calm s = true := hgood run hi
  have hrun := List.mem_of_getElem? hi
  have hsound := h.sound run hrun
  have hplaced := h.placed run hrun
  unfold Run.Sound at hsound
  cases hphase : run.phase with
  | readingWorkspace =>
    rw [hphase] at hsound
    have hnone : ∀ file, s.linesOf file run.record.runId = [] :=
      fun file => hplaced.elsewhere file (Or.inl (by rw [Run.unwritten, hphase]))
    simp only [goStep, hphase]
    exact h.setRun hi rfl rfl rfl hsound ⟨fun file _ => hnone file, fun hno => (nomatch hno), fun hno => (nomatch hno)⟩
      (fun _ _ hno => (nomatch hno))
  | opening =>
    rw [Run.calm, hphase] at hgood
    simp only [goStep, hphase]
    exact h.open hi hphase (of_decide_eq_true hgood)
  | checking checkpoint =>
    rw [Run.calm, hphase] at hgood
    simp only [goStep, hphase, if_pos (of_decide_eq_true hgood)]
    exact h.pass hi hphase
  -- every check has found the generation of its start
  | aborting =>
    rw [hphase] at hsound
    exact hsound.elim
  | persisting after =>
    rw [hphase] at hsound
    rw [Run.calm, hphase] at hgood
    have hworkspace : s.workspace = some run.workspace := of_decide_eq_true hgood
    have hwritten : run.unwritten = false := by rw [Run.unwritten, hphase]
    have hsettled : run.settled = false := by rw [Run.settled, hphase]
    obtain ⟨entry, -, hlines⟩ := hplaced.running hwritten hsettled
    cases hfile : s.files (run.file run.workspace) with
    | none =>
      rw [RunSystem.linesOf, hfile] at hlines
      cases hlines
    | some lines =>
      simp only [goStep, hphase, hworkspace, hfile]
      exact h.setRun hi rfl rfl rfl hsound (hplaced.going rfl rfl rfl hwritten hsettled rfl rfl)
        (fun _ _ _ => hworkspace)
  | rewriting lines after =>
    rw [Run.calm, hphase] at hgood
    exact h.rewrite hi hphase (of_decide_eq_true hgood)
  -- its record was always there to be replaced
  | appending after =>
    rw [hphase] at hsound
    exact hsound.elim
  | delivering turn =>
    rw [hphase] at hsound
    rw [Run.calm, hphase] at hgood
    obtain ⟨hrunning, hanswered⟩ := hsound
    have hwritten : run.unwritten = false := by rw [Run.unwritten, hphase]
    have hsettled : run.settled = false := by rw [Run.settled, hphase]
    simp only [goStep, hphase]
    split
    · exact h.setRun hi rfl rfl rfl ⟨hrunning, hanswered, rfl⟩ (hplaced.going rfl rfl rfl hwritten hsettled rfl rfl)
        (fun _ _ hno => (nomatch hno))
    · -- without a manager the run is a success only if it owes no delivery
      next hnone =>
      refine h.setRun hi rfl rfl rfl (Run.ended_complete s.clock hanswered ?_)
        (hplaced.going rfl rfl rfl hwritten hsettled rfl rfl) (fun _ _ hno => (nomatch hno))
      rcases of_decide_eq_true hgood with hmanager | htimedOut | hmust
      · exact absurd hmanager hnone
      · exact Or.inl htimedOut
      · exact Or.inr fun hmust' => absurd hmust' hmust
  | preparing =>
    simp only [goStep, hphase]
    exact h
  | prompting =>
    simp only [goStep, hphase]
    exact h
  | sending turn bestEffort =>
    simp only [goStep, hphase]
    exact h
  | finished =>
    simp only [goStep, hphase]
    exact h

/-- An execution that waits for amuxd goes on with its record still running, or persists its end. -/
private theorem RunsInv.answered (h : RunsInv s) (hi : s.runs[i]? = some run)
    (hwaiting : run.phase = .preparing ∨ run.phase = .prompting) (hid : run'.record.runId = run.record.runId)
    (hjobId : run'.record.jobId = run.record.jobId) (hjob : run'.job = run.job)
    (hworkspace : run'.workspace = run.workspace)
    (hphase : run'.phase = .prompting ∧ run'.record.status = run.record.status ∨
      ∃ after, run'.phase = .persisting after ∧ (run.record.status = .running → run'.AfterSound after)) :
    RunsInv (s.setRun i run') := by
  have hrun := List.mem_of_getElem? hi
  have hsound := h.sound run hrun
  have hunwritten : run.unwritten = false := by rcases hwaiting with hw | hw <;> rw [Run.unwritten, hw]
  have hsettled : run.settled = false := by rcases hwaiting with hw | hw <;> rw [Run.settled, hw]
  have hrunning : run.record.status = .running := by
    unfold Run.Sound at hsound
    rcases hwaiting with hw | hw <;> rw [hw] at hsound <;> exact hsound
  -- it waits for its turn, or has an end to persist
  rcases hphase with ⟨hphase, hstatus⟩ | ⟨after, hphase, hafter⟩
  · refine h.setRun hi hid hjobId hjob ?_ ((h.placed run hrun).going hid hworkspace hjob hunwritten hsettled
      (by rw [Run.unwritten, hphase]) (by rw [Run.settled, hphase])) (fun l a hno => ?_)
    · unfold Run.Sound
      rw [hphase]
      exact hstatus.trans hrunning
    · rw [hphase] at hno
      cases hno
  · refine h.setRun hi hid hjobId hjob ?_ ((h.placed run hrun).going hid hworkspace hjob hunwritten hsettled
      (by rw [Run.unwritten, hphase]) (by rw [Run.settled, hphase])) (fun l a hno => ?_)
    · unfold Run.Sound
      rw [hphase]
      exact hafter hrunning
    · rw [hphase] at hno
      cases hno

/-- An execution begins. -/
private theorem RunsInv.begin (h : RunsInv s) {runId : Str} {job : RunJob} (hnew : runId ∉ s.issued) :
    RunsInv { s with
      issued := runId :: s.issued
      runs := s.runs ++ [{
        job
        generation := s.generation
        record := { runId, jobId := job.id, startedAt := s.clock, status := .running
                    lastHeartbeatAt := some s.clock } }] } := by
  -- no other execution has its id, and no file has a line of it
  have hmem : ∀ other ∈ s.runs, other.record.runId ≠ runId := fun other hother heq =>
    hnew (heq ▸ h.issued other hother)
  refine ⟨?_, fun other hother => ?_, fun id hid file => ?_, fun other hother => ?_, fun other hother => ?_,
    fun other hother => ?_, fun other hother lines after hphase => ?_, fun call hcall => ?_⟩
  · rw [List.map_append, List.nodup_append]
    refine ⟨h.ids, List.nodup_singleton _, fun a ha b hb => ?_⟩
    obtain ⟨other, hother, rfl⟩ := List.mem_map.mp ha
    obtain rfl := List.mem_singleton.mp hb
    exact hmem other hother
  · rcases List.mem_append.mp hother with hold | hlast
    · exact List.mem_cons_of_mem _ (h.issued other hold)
    · obtain rfl := List.mem_singleton.mp hlast
      exact List.mem_cons_self
  · exact h.known id (fun hold => hid (List.mem_cons_of_mem _ hold)) file
  · rcases List.mem_append.mp hother with hold | hlast
    · exact h.jobs other hold
    · obtain rfl := List.mem_singleton.mp hlast
      rfl
  · rcases List.mem_append.mp hother with hold | hlast
    · exact h.sound other hold
    · obtain rfl := List.mem_singleton.mp hlast
      exact (rfl : RunStatus.running = .running)
  · rcases List.mem_append.mp hother with hold | hlast
    · exact (h.placed other hold).of_linesOf fun _ => rfl
    · obtain rfl := List.mem_singleton.mp hlast
      exact ⟨fun file _ => h.known runId hnew file, fun hno => (nomatch hno), fun hno => (nomatch hno)⟩
  · rcases List.mem_append.mp hother with hold | hlast
    · exact h.locked other hold lines after hphase
    · obtain rfl := List.mem_singleton.mp hlast
      cases hphase
  · refine (h.reconciled call hcall).mono (fun id hold => List.mem_cons_of_mem _ hold) fun other hother => ?_
    rcases List.mem_append.mp hother with hold | hlast
    · exact Or.inl (List.mem_map_of_mem hold)
    · obtain rfl := List.mem_singleton.mp hlast
      exact Or.inr hnew

/-- A step that changes no executions and no lines of theirs. -/
private theorem RunsInv.of_same (h : RunsInv s) (hruns : s'.runs = s.runs) (hissued : s'.issued = s.issued)
    (hlines : ∀ runId, ¬ s.Orphan runId → ∀ file, s'.linesOf file runId = s.linesOf file runId)
    (hworkspace : s.locked = true → s'.workspace = s.workspace)
    (hreconciled : ∀ call ∈ s'.reconciliations, call.Sound s) : RunsInv s' := by
  refine ⟨hruns ▸ h.ids, fun run hrun => hissued ▸ h.issued run (hruns ▸ hrun), fun id hid file => ?_,
    fun run hrun => h.jobs run (hruns ▸ hrun), fun run hrun => h.sound run (hruns ▸ hrun), fun run hrun => ?_,
    fun run hrun lines after hphase => ?_, fun call hcall => ?_⟩
  · rw [hissued] at hid
    exact (hlines id (fun horphan => hid horphan.issued) file).trans (h.known id hid file)
  · rw [hruns] at hrun
    exact (h.placed run hrun).of_linesOf (hlines _ fun horphan => horphan.not_here run hrun rfl)
  · rw [hruns] at hrun
    have hlocks : run.locks = true := by rw [Run.locks, hphase]
    have hlocked : s.locked = true := Bool.or_eq_true_iff.mpr (Or.inl (List.any_eq_true.mpr ⟨run, hrun, hlocks⟩))
    exact (hworkspace hlocked).trans (h.locked run hrun lines after hphase)
  · exact (hreconciled call hcall).mono (fun id hold => hissued ▸ hold)
      fun run hrun => Or.inl (List.mem_map_of_mem (hruns ▸ hrun))

/-- A line in a file is one of a run that was given out. -/
private theorem RunsInv.issued_of_isRun (h : RunsInv s) {file : Str × Str} {line : RunLine} {runId : Str}
    (hmem : line ∈ (s.files file).getD []) (hline : line.isRun runId = true) : runId ∈ s.issued := by
  by_contra hnew
  have hnone := h.known runId hnew file
  exact List.filter_eq_nil_iff.mp hnone line hmem hline

/-- What a call takes up is a run without an execution, if it will be written. -/
private theorem Reconciliation.Sound.orphan {call : Reconciliation} {record : CronRunRecord} {n : Nat}
    (h : call.Sound s) (hgood : call.calm s n = true) (hphase : call.phase = .choosing)
    (hrecord : call.pending[n]? = some record) (htakes : s.takes record = true) : s.Orphan record.runId := by
  refine ⟨h.pending record (List.mem_of_getElem? hrecord), fun run hrun => ?_⟩
  have hall : s.runs.all (fun run => run.record.runId ≠ record.runId) = true := by
    simpa [Reconciliation.calm, hphase, hrecord, htakes] using hgood
  simpa using List.all_eq_true.mp hall run hrun

private theorem mem_setReconciliation {k : Nat} {call other : Reconciliation}
    (h : other ∈ (s.setReconciliation k call).reconciliations) : other ∈ s.reconciliations ∨ other = call :=
  List.mem_or_eq_of_mem_set h

/-- Without a line of the run a record is not written. -/
private theorem takes_of_replaceLast {workspace : Str} {record : CronRunRecord} {lines lines' : List RunLine}
    (hworkspace : s.workspace = some workspace) (hfile : s.files (workspace, record.jobId) = some lines)
    (hreplace : replaceLast record lines = some lines') : s.takes record = true := by
  by_contra hno
  have hnone : lines.filter (·.isRun record.runId) = [] := by
    simpa [RunSystem.takes, hworkspace, hfile, List.filter_eq_nil_iff] using hno
  rw [replaceLast_eq_none hnone] at hreplace
  cases hreplace

private theorem RunSystem.takes_congr (s : RunSystem) {record record' : CronRunRecord}
    (hid : record'.runId = record.runId) (hjobId : record'.jobId = record.jobId) : s.takes record' = s.takes record := by
  unfold RunSystem.takes
  rw [hid, hjobId]

/-- A call that writes nothing now. -/
private theorem Reconciliation.sound_of_idle {call : Reconciliation} (hidle : call.writing? = none)
    (hpending : ∀ record ∈ call.pending, record.runId ∈ s.issued) : call.Sound s := by
  refine ⟨hpending, fun record lines _ hphase _ => ?_, fun record hphase => ?_⟩
  · rw [Reconciliation.writing?, hphase] at hidle
    cases hidle
  · rw [Reconciliation.writing?, hphase] at hidle
    cases hidle

/-- A call that writes a run without an execution. -/
private theorem Reconciliation.sound_of_orphan {call : Reconciliation} {runId : Str} (hwriting : call.writing? = some runId)
    (hpending : ∀ record ∈ call.pending, record.runId ∈ s.issued) (horphan : s.Orphan runId) : call.Sound s := by
  refine ⟨hpending, fun record lines _ hphase _ => ?_, fun record hphase => ?_⟩
  · rw [Reconciliation.writing?, hphase] at hwriting
    exact Option.some.inj hwriting ▸ horphan
  · rw [Reconciliation.writing?, hphase] at hwriting
    exact Option.some.inj hwriting ▸ horphan

/-- A call that has read a file without a line of its run. -/
private theorem Reconciliation.sound_of_replaceLast {call : Reconciliation} {record : CronRunRecord}
    {lines : List RunLine} (hphase : call.phase = .rewriting record lines) (hnone : replaceLast record lines = none)
    (hpending : ∀ record ∈ call.pending, record.runId ∈ s.issued) : call.Sound s := by
  refine ⟨hpending, fun record' lines' _ hphase' hreplace => ?_, fun record' hphase' => ?_⟩
  · obtain ⟨rfl, rfl⟩ := ReconcilePhase.rewriting.inj (hphase.symm.trans hphase')
    rw [hnone] at hreplace
    cases hreplace
  · exact ReconcilePhase.noConfusion (hphase.symm.trans hphase')

/-- A call that takes its next record. -/
private theorem RunsInv.sound_choosing (h : RunsInv s) {k n : Nat} {call : Reconciliation}
    (hk : s.reconciliations[k]? = some call) (hgood : call.calm s n = true) (hphase : call.phase = .choosing) :
    ∀ other ∈ (reconcileStep s k n call).reconciliations, other.Sound s := by
  have hcall := h.reconciled call (List.mem_of_getElem? hk)
  intro other hother
  simp only [reconcileStep, hphase] at hother
  split at hother
  · exact h.reconciled other hother
  · next record hrecord =>
    have hpending : ∀ entry ∈ call.pending.eraseIdx n, entry.runId ∈ s.issued := fun entry hentry =>
      hcall.pending entry (List.mem_of_mem_eraseIdx hentry)
    have horphan := hcall.orphan hgood hphase hrecord
    have hid := reconcileInterruptedRun_runId record s.clock
    have hjobId := reconcileInterruptedRun_jobId record s.clock
    generalize reconcileInterruptedRun record s.clock = reconciled at hother hid hjobId
    rw [← s.takes_congr hid hjobId, ← hid] at horphan
    split at hother
    · -- without a workspace the record is passed over
      rcases mem_setReconciliation hother with hold | rfl
      · exact h.reconciled other hold
      · exact Reconciliation.sound_of_idle rfl hpending
    · next workspace hworkspace =>
      split at hother
      · -- a file that is gone will be made anew, with this record
        next hfile =>
        rcases mem_setReconciliation hother with hold | rfl
        · exact h.reconciled other hold
        · exact Reconciliation.sound_of_orphan rfl hpending
            (horphan (by simp [RunSystem.takes, hworkspace, hjobId, hfile]))
      · -- the lines are written back in the next step, if one of them is the run's
        next lines hfile =>
        rcases mem_setReconciliation hother with hold | rfl
        · exact h.reconciled other hold
        · rw [← hjobId] at hfile
          cases hreplace : replaceLast reconciled lines with
          | none => exact Reconciliation.sound_of_replaceLast rfl hreplace hpending
          | some lines' =>
            exact Reconciliation.sound_of_orphan rfl hpending
              (horphan (takes_of_replaceLast hworkspace hfile hreplace))

/-- The calls of `reconcile_interrupted_runs` stay sound. -/
private theorem RunsInv.sound_reconcileStep (h : RunsInv s) {k n : Nat} {call : Reconciliation}
    (hk : s.reconciliations[k]? = some call) (hgood : call.calm s n = true) :
    ∀ other ∈ (reconcileStep s k n call).reconciliations, other.Sound s := by
  have hcall := h.reconciled call (List.mem_of_getElem? hk)
  intro other hother
  cases hphase : call.phase with
  | choosing => exact h.sound_choosing hk hgood hphase other hother
  -- what is read are records of runs that have begun, since their ids are in the files
  | reading jobIds =>
    have hlines : ∀ file, ∀ record ∈ ((s.files file).getD []).foldl insertLatest call.pending,
        record.runId ∈ s.issued := fun file =>
      forall_foldl_insertLatest hcall.pending fun line hline runId => h.issued_of_isRun hline
    simp only [reconcileStep, hphase] at hother
    split at hother
    · rcases mem_setReconciliation hother with hold | rfl
      · exact h.reconciled other hold
      · exact Reconciliation.sound_of_idle rfl (hlines _)
    · rcases mem_setReconciliation hother with hold | rfl
      · exact h.reconciled other hold
      · exact Reconciliation.sound_of_idle rfl fun record hrecord =>
          hcall.pending record (List.mem_filter.mp hrecord).1
  | rewriting record lines =>
    simp only [reconcileStep, hphase] at hother
    rcases mem_setReconciliation hother with hold | rfl
    · refine h.reconciled other ?_
      split at hold <;> exact hold
    · exact Reconciliation.sound_of_idle rfl hcall.pending
  | appending record =>
    simp only [reconcileStep, hphase] at hother
    rcases mem_setReconciliation hother with hold | rfl
    · rw [(appendRun_same s record).2.2.2] at hold
      exact h.reconciled other hold
    · exact Reconciliation.sound_of_idle rfl hcall.pending

private theorem reconcileStep_same (s : RunSystem) (k n : Nat) (call : Reconciliation) :
    (reconcileStep s k n call).runs = s.runs ∧ (reconcileStep s k n call).issued = s.issued ∧
      (reconcileStep s k n call).workspace = s.workspace := by
  unfold reconcileStep
  split
  · split <;> exact ⟨rfl, rfl, rfl⟩
  · split
    · exact ⟨rfl, rfl, rfl⟩
    · split
      · exact ⟨rfl, rfl, rfl⟩
      · split <;> exact ⟨rfl, rfl, rfl⟩
  · split <;> exact ⟨rfl, rfl, rfl⟩
  · next record _ =>
    obtain ⟨hruns, hissued, hworkspace, -⟩ := appendRun_same s record
    exact ⟨hruns, hissued, hworkspace⟩

/-- `reconcile_interrupted_runs` changes no lines of the executions of this process. -/
private theorem linesOf_reconcileStep_of_not_orphan {k n : Nat} {call : Reconciliation} (hcall : call.Sound s)
    (hgood : call.calm s n = true) {runId : Str} (hnot : ¬ s.Orphan runId) (file : Str × Str) :
    (reconcileStep s k n call).linesOf file runId = s.linesOf file runId := by
  by_cases hwriting : call.writing? = some runId
  · cases hphase : call.phase with
    | reading jobIds => simp [Reconciliation.writing?, hphase] at hwriting
    | choosing => simp [Reconciliation.writing?, hphase] at hwriting
    | rewriting record lines =>
      obtain rfl : record.runId = runId := by simpa [Reconciliation.writing?, hphase] using hwriting
      cases hreplace : replaceLast record lines with
      | some lines' => exact absurd (hcall.rewriting record lines lines' hphase hreplace) hnot
      | none =>
        unfold reconcileStep
        simp only [hphase, hreplace, linesOf_setReconciliation]
        split
        · next hsome => cases hsome
        · rfl
    | appending record =>
      obtain rfl : record.runId = runId := by simpa [Reconciliation.writing?, hphase] using hwriting
      exact absurd (hcall.appending record hphase) hnot
  · exact linesOf_reconcileStep_ne s k hgood hwriting file

/-- A step of `reconcile_interrupted_runs`. -/
private theorem RunsInv.reconcileGo (h : RunsInv s) {k n : Nat} {call : Reconciliation}
    (hk : s.reconciliations[k]? = some call) (hgood : call.calm s n = true) : RunsInv (reconcileStep s k n call) := by
  obtain ⟨hruns, hissued, hworkspace⟩ := reconcileStep_same s k n call
  have hcall := h.reconciled call (List.mem_of_getElem? hk)
  exact h.of_same hruns hissued (fun runId hnot file => linesOf_reconcileStep_of_not_orphan hcall hgood hnot file)
    (fun _ => hworkspace) (h.sound_reconcileStep hk hgood)

/-- The answer of a delivery ends an execution. -/
theorem RunsInv.sent (h : RunsInv s) (i : Nat) (result : Except Str Unit) : RunsInv (runStep s (.sent i result)) := by
  simp only [runStep]
  split
  · next run hi =>
    have hrun := List.mem_of_getElem? hi
    have hsound := h.sound run hrun
    have hplaced := h.placed run hrun
    unfold Run.Sound at hsound
    split
    · next turn bestEffort hphase =>
      rw [hphase] at hsound
      exact h.setRun hi rfl rfl rfl (Run.ended_complete s.clock hsound.2.1 (Or.inr fun _ => rfl))
        (hplaced.going rfl rfl rfl (by rw [Run.unwritten, hphase]) (by rw [Run.settled, hphase]) rfl rfl)
        (fun _ _ hno => (nomatch hno))
    · next turn bestEffort error hphase =>
      rw [hphase] at hsound
      obtain ⟨-, hanswered, hbest⟩ := hsound
      have hunwritten : run.unwritten = false := by rw [Run.unwritten, hphase]
      have hsettled : run.settled = false := by rw [Run.settled, hphase]
      split
      · next hyes =>
        -- A delivery that may fail need not be made.
        refine h.setRun hi rfl rfl rfl (Run.ended_complete s.clock hanswered (Or.inr fun hmust => ?_))
          (hplaced.going rfl rfl rfl hunwritten hsettled rfl rfl) (fun _ _ hno => (nomatch hno))
        obtain ⟨delivery, hdelivery, hneeds⟩ := (Option.any_eq_true _ _).mp hmust.1
        have hsome : run.job.delivery = some delivery := hdelivery
        have hbest' : delivery.bestEffort = true := by
          rw [hbest, hsome] at hyes
          exact hyes
        simp [hbest'] at hneeds
      · exact h.setRun hi rfl rfl rfl (Run.ended_fail _ _ _)
          (hplaced.going rfl rfl rfl hunwritten hsettled rfl rfl) (fun _ _ hno => (nomatch hno))
    · exact h
  · exact h

/-- What one step keeps. -/
theorem RunsInv.step (h : RunsInv s) (input : RunInput) (hgood : Undisturbed s input) : RunsInv (runStep s input) := by
  cases input with
  | advanceClock ms => exact h.of_same rfl rfl (fun _ _ _ => rfl) (fun _ => rfl) h.reconciled
  | start => exact h.of_same rfl rfl (fun _ _ _ => rfl) (fun _ => rfl) h.reconciled
  | stop => exact h.of_same rfl rfl (fun _ _ _ => rfl) (fun _ => rfl) h.reconciled
  | setDelivery => exact h.of_same rfl rfl (fun _ _ _ => rfl) (fun _ => rfl) h.reconciled
  | switch workspace =>
    simp only [runStep]
    split
    · exact h
    · next hfree => exact h.of_same rfl rfl (fun _ _ _ => rfl) (fun hlocked => absurd hlocked hfree) h.reconciled
  | reconcile jobIds =>
    refine h.of_same rfl rfl (fun _ _ _ => rfl) (fun _ => rfl) fun call hcall => ?_
    rcases List.mem_append.mp hcall with hold | hnew
    · exact h.reconciled call hold
    · obtain rfl := List.mem_singleton.mp hnew
      exact ⟨by simp, nofun, nofun⟩
  | reconcileGo k n =>
    simp only [runStep]
    split
    · next call hk => exact h.reconcileGo hk (hgood call hk)
    · exact h
  | begin runId job =>
    simp only [runStep]
    split
    · exact h
    · next hnew => exact h.begin hnew
  | go i =>
    simp only [runStep]
    split
    · next run hi => exact h.go hi hgood
    · exact h
  | prepared i session =>
    simp only [runStep]
    split
    · next run hi =>
      split
      · next hphase =>
        cases session with
        | none => exact h.answered hi (Or.inl hphase) rfl rfl rfl rfl (Or.inl ⟨rfl, rfl⟩)
        | some sessionId =>
          exact h.answered hi (Or.inl hphase) rfl rfl rfl rfl (Or.inr ⟨.prompt, rfl, fun hrunning => hrunning⟩)
      · exact h
    · exact h
  | heartbeat i =>
    simp only [runStep]
    split
    · next run hi =>
      split
      · next hphase =>
        exact h.answered hi (Or.inr hphase) rfl rfl rfl rfl (Or.inr ⟨.prompt, rfl, fun hrunning => hrunning⟩)
      · exact h
    · exact h
  | prompted i result =>
    simp only [runStep]
    split
    · next run hi =>
      split
      · next hphase =>
        cases result with
        | error error =>
          exact h.answered hi (Or.inr hphase) rfl rfl rfl rfl
            (Or.inr ⟨.finish, rfl, fun _ => run.ended_fail s.clock error⟩)
        | ok turn =>
          exact h.answered hi (Or.inr hphase) rfl rfl rfl rfl
            (Or.inr ⟨.judge turn, rfl, fun hrunning => ⟨hrunning, rfl⟩⟩)
      · exact h
    · exact h
  | deadline i =>
    simp only [runStep]
    split
    · next run hi =>
      split
      · next hphase =>
        exact h.answered hi (Or.inr hphase) rfl rfl rfl rfl
          (Or.inr ⟨.finish, rfl, fun _ => run.ended_fail s.clock _⟩)
      · exact h
    · exact h
  | sent i result => exact h.sent i result

/-! ## Terminal records -/

/-- An execution with a terminal record has settled. -/
private theorem RunsInv.settled_of_terminal (h : RunsInv s) (hrun : run ∈ s.runs) {file : Str × Str}
    {entry : CronRunRecord} (hmem : .record entry ∈ s.linesOf file run.record.runId)
    (hterminal : entry.status ≠ .running) : run.settled = true := by
  have hplaced := h.placed run hrun
  by_contra hsettled
  have hsettled : run.settled = false := by simpa using hsettled
  cases hunwritten : run.unwritten with
  | true =>
    rw [hplaced.elsewhere file (Or.inl hunwritten)] at hmem
    cases hmem
  | false =>
    by_cases hfile : file = run.file run.workspace
    · obtain ⟨entry', hrunning, hlines⟩ := hplaced.running hunwritten hsettled
      rw [hfile, hlines] at hmem
      obtain rfl : entry = entry' := by simpa using hmem
      exact hterminal hrunning
    · rw [hplaced.elsewhere file (Or.inr hfile)] at hmem
      cases hmem

/-- A settled execution writes nothing. -/
private theorem linesOf_goStep_settled (hsettled : run.settled = true) (hgood : Undisturbed s (.go i))
    (hi : s.runs[i]? = some run) (file : Str × Str) (runId : Str) :
    (goStep s i run).linesOf file runId = s.linesOf file runId := by
  have hgood : run.calm s = true := hgood run hi
  unfold Run.settled at hsettled
  split at hsettled
  · next hphase =>
    rw [Run.calm, hphase] at hgood
    simp only [goStep, hphase, if_pos (of_decide_eq_true hgood)]
    rfl
  · next hphase => simp only [goStep, hphase]
  · cases hsettled

/-- What one step does to the records of the runs. -/
structure StepKeeps (s : RunSystem) (input : RunInput) : Prop where
  /-- The records of other runs are unchanged. -/
  others : ∀ runId, input.subject? s ≠ some runId → ∀ file,
    (runStep s input).linesOf file runId = s.linesOf file runId
  /-- A terminal record is never replaced, and no later record comes after it. -/
  terminal : ∀ run ∈ s.runs, ∀ file entry, .record entry ∈ s.linesOf file run.record.runId →
    entry.status ≠ .running → ∀ file', (runStep s input).linesOf file' run.record.runId =
      s.linesOf file' run.record.runId

theorem RunsInv.stepKeeps (h : RunsInv s) (input : RunInput) (hgood : Undisturbed s input) : StepKeeps s input := by
  refine ⟨fun runId hne file => linesOf_runStep h input hgood hne file, fun run hrun file entry hmem hterminal file' => ?_⟩
  by_cases hsubject : input.subject? s = some run.record.runId
  · -- a terminal record is that of an execution that has settled
    have hsettled := h.settled_of_terminal hrun hmem hterminal
    cases input with
    | go i =>
      obtain ⟨other, hi, hid⟩ := Option.map_eq_some_iff.mp hsubject
      obtain rfl : other = run := List.inj_on_of_nodup_map h.ids (List.mem_of_getElem? hi) hrun hid
      simp only [runStep, hi]
      exact linesOf_goStep_settled hsettled hgood hi file' _
    | reconcileGo k n =>
      obtain ⟨call, hk, hwriting⟩ := Option.bind_eq_some_iff.mp hsubject
      simp only [runStep, hk]
      exact linesOf_reconcileStep_of_not_orphan (h.reconciled call (List.mem_of_getElem? hk)) (hgood call hk)
        (fun horphan => horphan.not_here run hrun rfl) file'
    | _ => exact linesOf_runStep_other s (by simp) (by simp) file' _
  · exact linesOf_runStep h input hgood hsubject file'

/-! ## Every run -/

/-- What a finished execution leaves: one record, in the file of its workspace, that is terminal and truthful. -/
structure OneRecord (s : RunSystem) (run : Run) : Prop where
  here : s.linesOf (run.workspace, run.job.id) run.record.runId = [.record run.record]
  nowhere : ∀ file, file ≠ (run.workspace, run.job.id) → s.linesOf file run.record.runId = []
  terminal : run.record.status ≠ .running
  truthful : run.record.status = .success → run.Succeeded

/-- A job without delivery. -/
def plainRunJob : RunJob := { id := "job".toList, clientDeadlineSecs := 3600 }

/-- A scheduler without run files. -/
abbrev plainRuns : Machine RunSystem RunInput := runMachine 0 (fun _ => none) []

/-- One execution in a workspace, up to the write of its success. -/
def successfulRun : List RunInput :=
  [.switch "ws".toList, .begin "run".toList plainRunJob, .go 0, .go 0, .go 0, .prepared 0 none,
    .prompted 0 (.ok { text := "done".toList, sessionId := "s".toList }), .go 0, .go 0, .go 0, .go 0, .go 0]

/-- The status that a line tells. -/
def RunLine.status? : RunLine → Option RunStatus
  | .record entry => some entry.status
  | .other _ => none

/-- The successful execution without the stop. -/
def succeeded : RunSystem := plainRuns.run (successfulRun ++ [.go 0])

private theorem undisturbed_successful :
    plainRuns.Steps Undisturbed plainRuns.init (successfulRun ++ [.go 0]) := by
  decide +kernel

private theorem phases_succeeded : succeeded.runs.map (·.phase) = [.finished] := by
  decide +kernel

end TeamClu.DesktopCron
