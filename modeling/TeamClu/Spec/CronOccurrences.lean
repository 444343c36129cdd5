import Mathlib.Data.List.Perm.Basic
import Mathlib.Data.List.Nodup
import TeamClu.Native.DesktopCron

/-!
# Each due occurrence of a desktop cron job

A tick consumes an occurrence before its execution starts, and it writes the next run without a look at
what is stored by then.  So an execution that is refused before a restart loses its occurrence
(`refused_occurrence_lost`), two ticks at a time fire an occurrence twice, and a tick overwrites an edit.
In every run that keeps away from these, each due occurrence that a tick finds has one execution with a
run record (`occurrences_fire_once`).

The books (`Ledger`): what ticks have found is what has a record, what waits for its record, and what the
current tick has still to fire.
-/

namespace TeamClu.DesktopCron

/-! ## What a tick has still to do -/

/-- The ids and next runs of jobs. -/
def slots (jobs : List CronJob) : List (Str × Option Int) := jobs.map fun job => (job.id, job.nextRunAt)

/-- The occurrences that jobs stand at. -/
def occurrences (slots : List (Str × Option Int)) : List (Str × Int) :=
  slots.filterMap fun slot => slot.2.map (slot.1, ·)

/-- A tick at this time writes a next run of the job: it is due, or it has no next run. -/
def CronJob.isWritten (now : Int) (job : CronJob) : Bool :=
  job.enabled && match job.nextRunAt with
    | some next => decide (next ≤ now)
    | none => true

/-- The jobs whose next run the tick has still to write, with the next run in its snapshot. -/
def Phase.writes : Phase → List (Str × Option Int)
  | .looking now jobs | .filling now jobs | .advancing now _ jobs =>
    slots (jobs.filter (·.isWritten now))
  | .computed now jobId _ jobs => (jobId, none) :: slots (jobs.filter (·.isWritten now))
  | .sleeping | .listing | .listed | .stopped => []

/-- The occurrence whose execution the tick is about to spawn. -/
def Phase.fired : Phase → List (Str × Int)
  | .advancing _ job _ => job.occurrence.toList
  | _ => []

/-- The time of the snapshot, in a tick. -/
def Phase.tickTime : Phase → Option Int
  | .looking now _ | .computed now _ _ _ | .filling now _ | .advancing now _ _ => some now
  | .sleeping | .listing | .listed | .stopped => none

/-! ## What a run should keep to, and what it gives -/

/-- The schedule moves forward: an interval is positive as the signed number it is cast to. -/
def CronSchedule.forward (schedule : CronSchedule) : Bool :=
  schedule.kind != .every || schedule.everyMs.all (decide <| 0 < asI64 ·)

/-- An interval after this instant ends within the years that a `DateTime` has. -/
def CronSchedule.fits (schedule : CronSchedule) (after : Int) : Bool :=
  schedule.kind != .every || schedule.everyMs.all fun ms => inRange (after + asI64 ms)

/-- The instant after which a tick computes the next run of the job: its own, or the clock when none is stored. -/
def CronJob.computedAfter (job : CronJob) (now clock : Int) : Int := if job.nextRunAt = none then clock else now

/-- Where a loop is. -/
def Scheduler.phaseOf (s : Scheduler) (i : Nat) : Option Phase := s.loops[i]?.map (·.phase)

/-- No loop is in a tick. -/
def Idle (s : Scheduler) : Prop := ∀ loop ∈ s.loops, loop.phase.tickTime = none

/-- An edit of the job's next run is fine: no tick has still to write it, and no tick has found the
    instant before. -/
def Fresh (s : Scheduler) (jobId : Str) (nextRun : Option Int) : Prop :=
  (∀ loop ∈ s.loops, jobId ∉ loop.phase.writes.map (·.1)) ∧ ∀ next ∈ nextRun, (jobId, next) ∉ s.looked

/-- A step that keeps away from the defects.  A tick takes its snapshot when no other one is under way;
    no execution is refused; an edit of a next run is fresh; the process restarts when no tick has a due
    job left and no execution waits for its record.  An interval that a tick adds is positive and ends within the
    years of a `DateTime`, and new ids are new. -/
def Calm (s : Scheduler) : CronInput → Prop
  | .loop i =>
    match s.phaseOf i with
    | some .listed => Idle s
    | some (.looking now (job :: _)) => job.isWritten now →
      job.schedule.forward ∧ job.schedule.fits (job.computedAfter now s.clock)
    | _ => True
  | .execute i => ∀ execution ∈ s.executions[i]?, execution.started ∨ s.restartImminent = false
  | .operate (.addJob job) => job.id ∉ s.data.map (·.id) ∧ Fresh s job.id job.nextRunAt
  | .operate (.updateNextRunAt jobId nextRun) => Fresh s jobId nextRun
  | .restart =>
    s.executions = [] ∧ ∀ loop ∈ s.loops, loop.phase.fired ++ occurrences loop.phase.writes = []
  | _ => True

instance (s : Scheduler) : Decidable (Idle s) :=
  inferInstanceAs (Decidable (∀ loop ∈ s.loops, loop.phase.tickTime = none))

instance (s : Scheduler) (jobId : Str) (nextRun : Option Int) : Decidable (Fresh s jobId nextRun) :=
  inferInstanceAs <| Decidable <| (∀ loop ∈ s.loops, jobId ∉ loop.phase.writes.map (·.1)) ∧
    ∀ next ∈ nextRun, (jobId, next) ∉ s.looked

/-- Whether a step of a loop is calm, by where it is. -/
instance (s : Scheduler) (i : Nat) : Decidable (Calm s (.loop i)) :=
  match h : s.phaseOf i with
  | some .listed => decidable_of_iff (Idle s) (by simp [Calm, h])
  | some (.looking now (job :: jobs)) => decidable_of_iff (job.isWritten now → job.schedule.forward ∧
      job.schedule.fits (job.computedAfter now s.clock)) (by simp [Calm, h])
  | some .sleeping | some .listing | some .stopped | some (.looking _ []) | none
  | some (.computed ..) | some (.filling ..) | some (.advancing ..) => isTrue (by simp [Calm, h])

instance (s : Scheduler) : ∀ input, Decidable (Calm s input)
  | .loop _ => inferInstance
  | .execute i => inferInstanceAs <| Decidable <|
      ∀ execution ∈ s.executions[i]?, execution.started ∨ s.restartImminent = false
  | .operate (.addJob job) => inferInstanceAs <| Decidable <|
      job.id ∉ s.data.map (·.id) ∧ Fresh s job.id job.nextRunAt
  | .operate (.updateNextRunAt jobId nextRun) => inferInstanceAs (Decidable (Fresh s jobId nextRun))
  | .restart => inferInstanceAs <| Decidable <|
      s.executions = [] ∧ ∀ loop ∈ s.loops, loop.phase.fired ++ occurrences loop.phase.writes = []
  | .operate (.removeJob _) | .operate (.toggleEnabled ..) | .advanceClock _ | .start | .stop
  | .persist | .setRestartImminent _ => isTrue trivial

/-- Nothing is under way. -/
def Quiet (s : Scheduler) : Prop := Idle s ∧ s.executions = []

/-- Each occurrence that a tick has found has one execution with a record. -/
def FiredOnce (s : Scheduler) : Prop := ∀ occurrence ∈ s.looked, s.recorded.count occurrence = 1

/-- What a tick writes over is the next run of its snapshot. -/
def KeepsEdits (s : Scheduler) : CronInput → Prop
  | .loop i =>
    match s.phaseOf i with
    | some (.looking now (job :: _)) => job.isDue now →
      ∀ stored ∈ s.data, stored.id = job.id → stored.nextRunAt = job.nextRunAt
    | some (.computed _ jobId _ _) => ∀ stored ∈ s.data, stored.id = jobId → stored.nextRunAt = none
    | _ => True
  | _ => True

/-! ## Next runs -/

/-- An interval that ends in range gives a next run. -/
theorem exists_computeNextRun (times : Times) {job : CronJob} {after : Int} (hfits : job.schedule.fits after) :
    ∃ nextRun, computeNextRun times job after = .ok nextRun := by
  rw [computeNextRun]
  split
  · split
    · exact ⟨_, rfl⟩
    · exact ⟨_, rfl⟩
  · rename_i hkind
    split
    · rename_i ms hms
      have hrange : inRange (after + asI64 ms) = true := by simpa [CronSchedule.fits, hkind, hms] using hfits
      exact ⟨_, by rw [addMilliseconds, if_pos hrange]; rfl⟩
    · exact ⟨_, rfl⟩
  · split
    · exact ⟨_, rfl⟩
    · exact ⟨_, rfl⟩

/-- The next run is after the instant that it was computed for. -/
theorem lt_of_computeNextRun {times : Times}
    (htimes : ∀ expr tz after next, times.nextAfter expr tz after = some next → after < next)
    {job : CronJob} (hjob : job.schedule.forward) {after next : Int}
    (h : computeNextRun times job after = .ok (some next)) : after < next := by
  rw [computeNextRun] at h
  split at h
  · split at h
    · have hat := Except.ok.inj h
      split_ifs at hat with hlt
      exact Option.some.inj hat ▸ hlt
    · cases h
  · rename_i hkind
    split at h
    · rename_i ms hms
      have hpos : 0 < asI64 ms := by simpa [CronSchedule.forward, hkind, hms] using hjob
      rw [addMilliseconds] at h
      split at h
      · have hnext : after + asI64 ms = next := Option.some.inj (Except.ok.inj h)
        omega
      · cases h
    · cases h
  · split at h
    · exact htimes _ _ _ _ (Except.ok.inj h)
    · cases h

/-! ## Slots -/

@[simp] theorem slots_cons (job : CronJob) (jobs : List CronJob) :
    slots (job :: jobs) = (job.id, job.nextRunAt) :: slots jobs := rfl

@[simp] theorem slots_append (jobs jobs' : List CronJob) :
    slots (jobs ++ jobs') = slots jobs ++ slots jobs' := List.map_append

@[simp] theorem occurrences_append (slots slots' : List (Str × Option Int)) :
    occurrences (slots ++ slots') = occurrences slots ++ occurrences slots' :=
  List.filterMap_append ..

theorem mem_occurrences {slots : List (Str × Option Int)} {occurrence : Str × Int} :
    occurrence ∈ occurrences slots ↔ (occurrence.1, some occurrence.2) ∈ slots := by
  simp only [occurrences, List.mem_filterMap, Option.map_eq_some_iff]
  constructor
  · rintro ⟨⟨jobId, nextRun⟩, hmem, next, rfl, rfl⟩
    exact hmem
  · exact fun hmem => ⟨_, hmem, _, rfl, rfl⟩

@[simp] theorem occurrences_none (jobId : Str) (slots : List (Str × Option Int)) :
    occurrences ((jobId, none) :: slots) = occurrences slots := rfl

@[simp] theorem occurrences_some (jobId : Str) (next : Int) (slots : List (Str × Option Int)) :
    occurrences ((jobId, some next) :: slots) = (jobId, next) :: occurrences slots := rfl

theorem slots_ids (jobs : List CronJob) : (slots jobs).map (·.1) = jobs.map (·.id) := by
  simp [slots]

/-- The occurrences of different jobs are different. -/
theorem nodup_occurrences {slots : List (Str × Option Int)} (h : (slots.map (·.1)).Nodup) :
    (occurrences slots).Nodup := by
  induction slots with
  | nil => exact List.nodup_nil
  | cons slot slots ih =>
    obtain ⟨jobId, nextRun⟩ := slot
    obtain ⟨hnot, hrest⟩ := List.nodup_cons.mp h
    cases nextRun with
    | none => exact ih hrest
    | some next =>
      refine List.nodup_cons.mpr ⟨fun hmem => hnot ?_, ih hrest⟩
      exact List.mem_map_of_mem (mem_occurrences.mp hmem)

theorem slots_toggleEnabled (jobs : List CronJob) (jobId : Str) (enabled : Bool) :
    slots (toggleEnabled jobs jobId enabled) = slots jobs := by
  induction jobs with
  | nil => rfl
  | cons job jobs ih =>
    rw [toggleEnabled]
    split
    · rfl
    · simp [ih]

theorem ids_updateNextRunAt (jobs : List CronJob) (jobId : Str) (nextRun : Option Int) :
    (slots (updateNextRunAt jobs jobId nextRun)).map (·.1) = (slots jobs).map (·.1) := by
  induction jobs with
  | nil => rfl
  | cons job jobs ih =>
    rw [updateNextRunAt]
    split
    · rfl
    · simp [ih]

/-- A write sets the next run of its job and no other. -/
theorem mem_slots_updateNextRunAt {jobs : List CronJob} (hids : ((slots jobs).map (·.1)).Nodup)
    {jobId : Str} {nextRun : Option Int} {slot : Str × Option Int}
    (h : slot ∈ slots (updateNextRunAt jobs jobId nextRun)) :
    slot = (jobId, nextRun) ∨ slot ∈ slots jobs ∧ slot.1 ≠ jobId := by
  induction jobs with
  | nil => cases h
  | cons job jobs ih =>
    obtain ⟨hnot, hrest⟩ := List.nodup_cons.mp hids
    rw [updateNextRunAt] at h
    split at h
    · rename_i heq
      rcases List.mem_cons.mp h with h | h
      · exact .inl (h.trans (by rw [heq]))
      · refine .inr ⟨List.mem_cons_of_mem _ h, fun hid => hnot ?_⟩
        have hmem : slot.1 ∈ (slots jobs).map (·.1) := List.mem_map_of_mem h
        rwa [hid, ← heq] at hmem
    · rename_i hne
      rcases List.mem_cons.mp h with h | h
      · exact .inr ⟨h ▸ List.mem_cons_self, by rw [h]; exact hne⟩
      · exact (ih hrest h).imp_right fun h => ⟨List.mem_cons_of_mem _ h.1, h.2⟩

/-! ## The books -/

/-- The books of the occurrences, while a tick with the snapshot time `now` has still to write `writes` and
    is about to spawn `fired`. -/
structure Ledger (s : Scheduler) (writes : List (Str × Option Int)) (fired : List (Str × Int))
    (now : Int) : Prop where
  nodup_data : ((slots s.data).map (·.1)).Nodup
  nodup_file : ((slots s.file).map (·.1)).Nodup
  /-- Without a write under way the file has what is in memory. -/
  saved : s.ioLock = none → s.data = s.file
  looked_le : ∀ occurrence ∈ s.looked, occurrence.2 ≤ now
  now_le : now ≤ s.clock
  nodup_writes : (writes.map (·.1)).Nodup
  /-- The jobs that the tick has still to write stand as they were in its snapshot. -/
  agrees : ∀ write ∈ writes, ∀ slot ∈ slots s.data, slot.1 = write.1 → slot.2 = write.2
  nodup_looked : s.looked.Nodup
  /-- What was found has a record, waits for its record, or is still to be fired. -/
  balanced : s.looked.Perm (s.recorded ++
    s.executions.filterMap (·.job.occurrence) ++ fired ++ occurrences writes)
  /-- No job stands at an occurrence that was found and will not be fired by the tick. -/
  data_new : ∀ occurrence ∈ occurrences (slots s.data), occurrence ∈ s.looked →
    occurrence ∈ occurrences writes
  file_new : ∀ occurrence ∈ occurrences (slots s.file), occurrence ∈ s.looked →
    occurrence ∈ fired ++ occurrences writes

variable {s : Scheduler} {writes : List (Str × Option Int)} {fired : List (Str × Int)} {now : Int}

/-- Other loops do not matter to the books. -/
private theorem Ledger.setLoops (h : Ledger s writes fired now) (loops : List Loop) :
    Ledger { s with loops } writes fired now :=
  ⟨h.nodup_data, h.nodup_file, h.saved, h.looked_le, h.now_le, h.nodup_writes, h.agrees,
    h.nodup_looked, h.balanced, h.data_new, h.file_new⟩

/-- No occurrence has two records. -/
private theorem Ledger.nodup_recorded (h : Ledger s writes fired now) : s.recorded.Nodup := by
  have hall := h.balanced.nodup_iff.mp h.nodup_looked
  rw [List.append_assoc, List.append_assoc] at hall
  exact (List.nodup_append.mp hall).1

/-- The tick has nothing to write for a job after all. -/
private theorem Ledger.skip {jobId : Str} (h : Ledger s ((jobId, none) :: writes) fired now) :
    Ledger s writes fired now where
  nodup_data := h.nodup_data
  nodup_file := h.nodup_file
  saved := h.saved
  looked_le := h.looked_le
  now_le := h.now_le
  nodup_writes := (List.nodup_cons.mp h.nodup_writes).2
  agrees write hw := h.agrees write (List.mem_cons_of_mem _ hw)
  nodup_looked := h.nodup_looked
  balanced := h.balanced
  data_new := h.data_new
  file_new := h.file_new

/-- A tick takes its snapshot. -/
private theorem Ledger.snapshot (h : Ledger s [] [] now) :
    Ledger { s with
      looked := s.looked ++ (s.data.filter (·.isDue s.clock)).filterMap CronJob.occurrence }
      (slots (s.data.filter (·.isWritten s.clock))) [] s.clock := by
  -- What is due is what the tick writes and has a next run.
  have hdue : ∀ jobs : List CronJob, (jobs.filter (·.isDue s.clock)).filterMap CronJob.occurrence =
      occurrences (slots (jobs.filter (·.isWritten s.clock))) := by
    intro jobs
    induction jobs with
    | nil => rfl
    | cons job jobs ih =>
      cases hnext : job.nextRunAt with
      | none =>
        have hnot : job.isDue s.clock = false := by simp [CronJob.isDue, hnext]
        rw [List.filter_cons_of_neg (by simp [hnot]), ih, List.filter_cons]
        split
        · rw [slots_cons, hnext, occurrences_none]
        · rfl
      | some next =>
        have hsame : job.isDue s.clock = job.isWritten s.clock := by
          simp [CronJob.isDue, CronJob.isWritten, hnext]
        rw [List.filter_cons, List.filter_cons, hsame]
        split
        · rw [List.filterMap_cons_some (by simp [CronJob.occurrence, hnext]; rfl), ih, slots_cons,
            hnext, occurrences_some]
        · exact ih
  rw [hdue]
  have hsub : (slots (s.data.filter (·.isWritten s.clock))).Sublist (slots s.data) :=
    List.filter_sublist.map _
  have hids : ((slots (s.data.filter (·.isWritten s.clock))).map (·.1)).Nodup :=
    h.nodup_data.sublist (hsub.map _)
  have hnew : ∀ occurrence ∈ occurrences (slots (s.data.filter (·.isWritten s.clock))),
      occurrence ∉ s.looked := fun occurrence hmem hlooked => by
    have hdata := mem_occurrences.mpr (hsub.subset (mem_occurrences.mp hmem))
    cases h.data_new occurrence hdata hlooked
  have hle : ∀ occurrence ∈ occurrences (slots (s.data.filter (·.isWritten s.clock))),
      occurrence.2 ≤ s.clock := fun occurrence hmem => by
    obtain ⟨job, hjob, heq⟩ := List.mem_map.mp (mem_occurrences.mp hmem)
    have hw := (List.mem_filter.mp hjob).2
    rw [CronJob.isWritten, (Prod.mk.inj heq).2] at hw
    simpa using (Bool.and_eq_true_iff.mp hw).2
  exact {
    nodup_data := h.nodup_data
    nodup_file := h.nodup_file
    saved := h.saved
    looked_le := fun occurrence hmem => by
      rcases List.mem_append.mp hmem with hmem | hmem
      · exact Int.le_trans (h.looked_le occurrence hmem) h.now_le
      · exact hle occurrence hmem
    now_le := Int.le_refl _
    nodup_writes := hids
    agrees := fun write hw slot hslot hid => by
      have hpair := List.inj_on_of_nodup_map h.nodup_data hslot (hsub.subset hw) hid
      rw [hpair]
    nodup_looked := List.nodup_append.mpr ⟨h.nodup_looked, nodup_occurrences hids,
      fun a ha b hb hab => hnew b hb (hab ▸ ha)⟩
    balanced := by
      have hb := h.balanced
      simp only [occurrences, List.filterMap_nil, List.append_nil] at hb ⊢
      exact hb.append_right _
    data_new := fun occurrence hdata hmem => by
      rcases List.mem_append.mp hmem with hmem | hmem
      · cases h.data_new occurrence hdata hmem
      · exact hmem
    file_new := fun occurrence hfile hmem => by
      rcases List.mem_append.mp hmem with hmem | hmem
      · cases h.file_new occurrence hfile hmem
      · exact hmem }

/-- A tick writes the next run of a job in memory; it is after the snapshot. -/
private theorem Ledger.write {jobId : Str} {before nextRun : Option Int}
    (h : Ledger s ((jobId, before) :: writes) [] now) (hnext : ∀ next ∈ nextRun, now < next) :
    Ledger { s with ioLock := some .tick, data := updateNextRunAt s.data jobId nextRun } writes
      (before.map (jobId, ·)).toList now where
  nodup_data := by
    simp only [ids_updateNextRunAt]
    exact h.nodup_data
  nodup_file := h.nodup_file
  saved hlock := by cases hlock
  looked_le := h.looked_le
  now_le := h.now_le
  nodup_writes := (List.nodup_cons.mp h.nodup_writes).2
  agrees write hw slot hslot hid := by
    rcases mem_slots_updateNextRunAt h.nodup_data hslot with rfl | ⟨hslot, -⟩
    · exact absurd (List.mem_map.mpr ⟨write, hw, hid.symm⟩) (List.nodup_cons.mp h.nodup_writes).1
    · exact h.agrees write (List.mem_cons_of_mem _ hw) slot hslot hid
  nodup_looked := h.nodup_looked
  balanced := by
    have hb := h.balanced
    cases before with
    | none => simpa using hb
    | some next => simpa using hb
  data_new occurrence hdata hmem := by
    rcases mem_slots_updateNextRunAt h.nodup_data (mem_occurrences.mp hdata) with heq | ⟨hslot, hne⟩
    · -- The new next run is later than all that was found.
      have hlt := hnext occurrence.2 (Prod.mk.inj heq).2.symm
      have hle := h.looked_le occurrence hmem
      omega
    · have hold := h.data_new occurrence (mem_occurrences.mpr hslot) hmem
      cases before with
      | none => exact hold
      | some next =>
        rcases List.mem_cons.mp hold with rfl | hold
        · exact absurd rfl hne
        · exact hold
  file_new occurrence hfile hmem := by
    have hold := h.file_new occurrence hfile hmem
    cases before with
    | none => exact hold
    | some next => exact hold

/-- The jobs file is written. -/
private theorem Ledger.persist (h : Ledger s writes fired now) :
    Ledger { s with file := s.data, ioLock := none } writes fired now where
  nodup_data := h.nodup_data
  nodup_file := h.nodup_data
  saved _ := rfl
  looked_le := h.looked_le
  now_le := h.now_le
  nodup_writes := h.nodup_writes
  agrees := h.agrees
  nodup_looked := h.nodup_looked
  balanced := h.balanced
  data_new := h.data_new
  file_new occurrence hfile hmem := List.mem_append_right _ (h.data_new occurrence hfile hmem)

/-- The tick writes the jobs file and spawns the execution. -/
private theorem Ledger.spawn {job : CronJob} (h : Ledger s writes job.occurrence.toList now) :
    Ledger { s with
      file := s.data
      ioLock := none
      executions := s.executions ++ [{ job }] } writes [] now where
  nodup_data := h.nodup_data
  nodup_file := h.nodup_data
  saved _ := rfl
  looked_le := h.looked_le
  now_le := h.now_le
  nodup_writes := h.nodup_writes
  agrees := h.agrees
  nodup_looked := h.nodup_looked
  balanced := by
    have hone : [({ job } : Execution)].filterMap (·.job.occurrence) = job.occurrence.toList := by
      cases hocc : job.occurrence <;> simp [hocc]
    have hb := h.balanced
    simp only [List.filterMap_append, hone, List.append_nil, List.append_assoc] at hb ⊢
    exact hb
  data_new := h.data_new
  file_new := h.data_new

/-- An edit in memory, of jobs that the tick has not to write, to instants that were not found. -/
private theorem Ledger.edit {data : List CronJob} (h : Ledger s writes fired now)
    (hids : ((slots data).map (·.1)).Nodup)
    (hslots : ∀ slot ∈ slots data, slot ∈ slots s.data ∨ slot.1 ∉ writes.map (·.1) ∧
      ∀ next ∈ slot.2, (slot.1, next) ∉ s.looked) :
    Ledger { s with ioLock := some .operation, data } writes fired now where
  nodup_data := hids
  nodup_file := h.nodup_file
  saved hlock := by cases hlock
  looked_le := h.looked_le
  now_le := h.now_le
  nodup_writes := h.nodup_writes
  agrees write hw slot hslot hid := by
    rcases hslots slot hslot with hslot | ⟨hnot, -⟩
    · exact h.agrees write hw slot hslot hid
    · exact absurd (List.mem_map.mpr ⟨write, hw, hid.symm⟩) hnot
  nodup_looked := h.nodup_looked
  balanced := h.balanced
  data_new occurrence hdata hmem := by
    rcases hslots _ (mem_occurrences.mp hdata) with hslot | ⟨-, hnew⟩
    · exact h.data_new occurrence (mem_occurrences.mpr hslot) hmem
    · exact absurd hmem (hnew occurrence.2 rfl)
  file_new := h.file_new

/-- An execution passes the check for a restart. -/
private theorem Ledger.begin {i : Nat} {execution : Execution}
    (h : Ledger s writes fired now) (hget : s.executions[i]? = some execution) :
    Ledger { s with executions := s.executions.set i { execution with started := true } }
      writes fired now :=
  have hsame : (s.executions.set i { execution with started := true }).filterMap
      (·.job.occurrence) = s.executions.filterMap (·.job.occurrence) := by
    obtain ⟨hi, rfl⟩ := List.getElem?_eq_some_iff.mp hget
    have hmap : (s.executions.set i { s.executions[i] with started := true }).map (·.job) =
        s.executions.map (·.job) := by
      rw [List.map_set]
      exact List.ext_getElem (by simp) fun j hj hj' => by
        rw [List.getElem_set]
        split
        · subst_vars
          simp
        · rfl
    have hcomp := congrArg (List.filterMap CronJob.occurrence) hmap
    simpa only [List.filterMap_map, Function.comp_def] using hcomp
  ⟨h.nodup_data, h.nodup_file, h.saved, h.looked_le, h.now_le, h.nodup_writes, h.agrees,
    h.nodup_looked, by rw [hsame]; exact h.balanced, h.data_new, h.file_new⟩

/-- An execution writes its run record. -/
private theorem Ledger.record {i : Nat} {execution : Execution}
    (h : Ledger s writes fired now) (hget : s.executions[i]? = some execution) :
    Ledger { s with
      executions := s.executions.eraseIdx i
      recorded := s.recorded ++ execution.job.occurrence.toList } writes fired now :=
  have hbalanced : (s.recorded ++ s.executions.filterMap (·.job.occurrence)).Perm
      (s.recorded ++ execution.job.occurrence.toList ++
        (s.executions.eraseIdx i).filterMap (·.job.occurrence)) := by
    obtain ⟨hi, rfl⟩ := List.getElem?_eq_some_iff.mp hget
    have hperm := ((List.getElem_cons_eraseIdx_perm hi).filterMap (·.job.occurrence)).symm
    have hhead : (s.executions[i] :: s.executions.eraseIdx i).filterMap (·.job.occurrence) =
        s.executions[i].job.occurrence.toList ++
          (s.executions.eraseIdx i).filterMap (·.job.occurrence) := by
      cases hocc : s.executions[i].job.occurrence <;> simp [hocc]
    rw [hhead] at hperm
    simpa using hperm.append_left s.recorded
  ⟨h.nodup_data, h.nodup_file, h.saved, h.looked_le, h.now_le, h.nodup_writes, h.agrees,
    h.nodup_looked, h.balanced.trans ((hbalanced.append_right fired).append_right _), h.data_new,
    h.file_new⟩

/-- The process starts again, with nothing found left to fire. -/
private theorem Ledger.restart (h : Ledger s writes fired now)
    (hnone : fired ++ occurrences writes = []) (hexec : s.executions = []) :
    Ledger { s with
      data := s.file
      ioLock := none
      generation := 0
      loops := []
      restartImminent := false
      executions := [] } [] [] now where
  nodup_data := h.nodup_file
  nodup_file := h.nodup_file
  saved _ := rfl
  looked_le := h.looked_le
  now_le := h.now_le
  nodup_writes := List.nodup_nil
  agrees write hw := by cases hw
  nodup_looked := h.nodup_looked
  balanced := by
    have hb := h.balanced
    rw [hexec, List.append_assoc, hnone] at hb
    simpa [occurrences] using hb
  data_new occurrence hfile hmem := by
    have hleft := h.file_new occurrence hfile hmem
    rw [hnone] at hleft
    exact hleft
  file_new occurrence hfile hmem := by
    have hleft := h.file_new occurrence hfile hmem
    rwa [hnone] at hleft

/-! ## One tick at a time -/

/-- The loop `i` is in a tick, and no other one is; a missing next run was computed after the snapshot. -/
structure Running (s : Scheduler) (i : Nat) (loop : Loop) (now : Int) : Prop where
  get : s.loops[i]? = some loop
  others : ∀ j loop', s.loops[j]? = some loop' → j ≠ i → loop'.phase.tickTime = none
  tickTime : loop.phase.tickTime = some now
  later : ∀ jobId next jobs, loop.phase = .computed now jobId next jobs → now < next
  ledger : Ledger s loop.phase.writes loop.phase.fired now

/-- At most one loop is in a tick, and the books are right. -/
def CronInv (s : Scheduler) : Prop :=
  (Idle s ∧ ∃ now, Ledger s [] [] now) ∨ ∃ i loop now, Running s i loop now

variable {s' : Scheduler} {i : Nat} {loop : Loop}

/-- A loop in a tick goes to another phase of it. -/
private theorem Running.set (h : Running s i loop now) {phase : Phase}
    (hloops : s'.loops = s.loops.set i { loop with phase }) (htime : phase.tickTime = some now)
    (hlater : ∀ jobId next jobs, phase = .computed now jobId next jobs → now < next)
    (hledger : Ledger s' phase.writes phase.fired now) : Running s' i { loop with phase } now where
  get := by
    rw [hloops, List.getElem?_set_self (List.getElem?_eq_some_iff.mp h.get).1]
  others j loop' hget hne := by
    rw [hloops, List.getElem?_set_ne (Ne.symm hne)] at hget
    exact h.others j loop' hget hne
  tickTime := htime
  later := hlater
  ledger := hledger

/-- A loop that is in no tick goes to another phase out of a tick, and the books stay. -/
private theorem CronInv.setOut (h : CronInv s) (hget : s.loops[i]? = some loop)
    (hout : loop.phase.tickTime = none) {phase : Phase} (hphase : phase.tickTime = none)
    (hloops : s'.loops = s.loops.set i { loop with phase })
    (hledger : ∀ {writes fired now}, Ledger s writes fired now → Ledger s' writes fired now) :
    CronInv s' := by
  rcases h with ⟨hidle, now, hbooks⟩ | ⟨j, running, now, hrun⟩
  · refine .inl ⟨fun loop' hmem => ?_, now, hledger hbooks⟩
    rw [hloops] at hmem
    rcases List.mem_or_eq_of_mem_set hmem with hmem | rfl
    · exact hidle loop' hmem
    · exact hphase
  · -- the loop in the tick is another one
    have hne : i ≠ j := by
      rintro rfl
      have hsame : loop = running := Option.some.inj (hget.symm.trans hrun.get)
      rw [hsame, hrun.tickTime] at hout
      cases hout
    refine .inr ⟨j, running, now, ?_, fun k loop' hk hkj => ?_, hrun.tickTime, hrun.later,
      hledger hrun.ledger⟩
    · rw [hloops, List.getElem?_set_ne hne]
      exact hrun.get
    · rw [hloops] at hk
      by_cases hki : i = k
      · subst hki
        rw [List.getElem?_set_self (List.getElem?_eq_some_iff.mp hget).1] at hk
        rw [← Option.some.inj hk]
        exact hphase
      · rw [List.getElem?_set_ne hki] at hk
        exact hrun.others k loop' hk hkj

/-- A step that leaves the loops alone. -/
private theorem CronInv.sameLoops (h : CronInv s) (hloops : s'.loops = s.loops)
    (hledger : ∀ {writes fired now}, (∀ jobId ∈ writes.map (·.1), ∃ loop ∈ s.loops,
      jobId ∈ loop.phase.writes.map (·.1)) → Ledger s writes fired now → Ledger s' writes fired now) :
    CronInv s' := by
  rcases h with ⟨hidle, now, hbooks⟩ | ⟨i, loop, now, hrun⟩
  · exact .inl ⟨fun loop hmem => hidle loop (hloops ▸ hmem), now,
      hledger (fun _ hmem => by cases hmem) hbooks⟩
  · refine .inr ⟨i, loop, now, hloops ▸ hrun.get, fun j loop' hj => hrun.others j loop' (hloops ▸ hj),
      hrun.tickTime, hrun.later, hledger (fun jobId hmem => ?_) hrun.ledger⟩
    exact ⟨loop, List.mem_of_getElem? hrun.get, hmem⟩

/-- The loop that is in a tick is the current one. -/
private theorem CronInv.running (h : CronInv s) (hget : s.loops[i]? = some loop)
    (htime : loop.phase.tickTime = some now) : Running s i loop now := by
  rcases h with ⟨hidle, -⟩ | ⟨j, running, now', hrun⟩
  · have hnone := hidle loop (List.mem_of_getElem? hget)
    rw [htime] at hnone
    cases hnone
  · have heq : i = j := by
      by_contra hne
      have hnone := hrun.others i loop hget hne
      rw [htime] at hnone
      cases hnone
    subst heq
    obtain rfl : loop = running := Option.some.inj (hget.symm.trans hrun.get)
    obtain rfl : now = now' := Option.some.inj (htime.symm.trans hrun.tickTime)
    exact hrun

/-- What a tick has to write of a snapshot, by its first job. -/
private theorem writes_cons (job : CronJob) (jobs : List CronJob) :
    slots ((job :: jobs).filter (·.isWritten now)) =
      (if job.isWritten now then [(job.id, job.nextRunAt)] else []) ++
        slots (jobs.filter (·.isWritten now)) := by
  rw [List.filter_cons]
  split <;> rfl

section Steps

variable {times : Times}
  (htimes : ∀ expr tz after next, times.nextAfter expr tz after = some next → after < next)

include htimes

/-- A tick looks at a job. -/
private theorem Running.look {job : CronJob} {jobs : List CronJob}
    (h : Running s i loop now) (hphase : loop.phase = .looking now (job :: jobs))
    (hcalm : job.isWritten now → job.schedule.forward ∧ job.schedule.fits (job.computedAfter now s.clock)) :
    CronInv (loopStep times s i loop) := by
  have hledger : Ledger s ((if job.isWritten now then [(job.id, job.nextRunAt)] else []) ++
      slots (jobs.filter (·.isWritten now))) [] now := by
    have hbooks := h.ledger
    rw [hphase] at hbooks
    exact writes_cons job jobs ▸ hbooks
  -- The job is passed over.
  have hpass : job.isWritten now = false ∨ job.nextRunAt = none →
      CronInv (s.setPhase i loop (.looking now jobs)) := fun hnot => by
    refine .inr ⟨i, _, now, h.set rfl rfl (fun _ _ _ heq => by cases heq) ?_⟩
    refine Ledger.setLoops ?_ _
    by_cases hw : job.isWritten now
    · rw [if_pos hw, (hnot.resolve_left (by simp [hw]) : job.nextRunAt = none)] at hledger
      exact hledger.skip
    · rwa [if_neg hw] at hledger
  rw [loopStep, hphase]
  simp only
  split
  · rename_i henabled
    exact hpass (.inl (by simp [CronJob.isWritten, henabled]))
  · rename_i henabled
    have henabled : job.enabled = true := by simpa using henabled
    split
    · rename_i next hnext
      split
      · rename_i hle
        have hw : job.isWritten now = true := by simp [CronJob.isWritten, henabled, hnext, hle]
        rw [if_pos hw] at hledger
        obtain ⟨hforward, hfits⟩ := hcalm hw
        rw [CronJob.computedAfter, if_neg (by simp [hnext])] at hfits
        obtain ⟨nextRun, hcompute⟩ := exists_computeNextRun times hfits
        rw [hcompute]
        dsimp only
        split
        · refine .inr ⟨i, _, now, h.set rfl rfl (fun _ _ _ heq => by cases heq) ?_⟩
          refine (hledger.write fun next' hmem => ?_).setLoops _
          exact lt_of_computeNextRun htimes hforward (hcompute.trans (congrArg Except.ok hmem))
        · exact .inr ⟨i, loop, now, h⟩
      · rename_i hle
        exact hpass (.inl (by simp [CronJob.isWritten, hnext, hle]))
    · rename_i hnext
      have hw : job.isWritten now = true := by simp [CronJob.isWritten, henabled, hnext]
      obtain ⟨hforward, hfits⟩ := hcalm hw
      rw [CronJob.computedAfter, if_pos hnext] at hfits
      obtain ⟨nextRun, hcompute⟩ := exists_computeNextRun times hfits
      rw [hcompute]
      cases nextRun with
      | none => exact hpass (.inr hnext)
      | some next =>
        have hlt := lt_of_computeNextRun htimes hforward hcompute
        rw [if_pos hw, hnext] at hledger
        refine .inr ⟨i, _, now, h.set rfl rfl (fun _ _ _ heq => ?_) (hledger.setLoops _)⟩
        obtain ⟨-, -, rfl, -⟩ := Phase.computed.inj heq
        exact Int.lt_of_le_of_lt h.ledger.now_le hlt

/-- One step of a loop. -/
private theorem CronInv.stepLoop (h : CronInv s) (hcalm : Calm s (.loop i)) :
    CronInv (cronStep times s (.loop i)) := by
  rw [cronStep]
  split
  · rename_i loop hget
    rw [Calm, Scheduler.phaseOf, hget, Option.map_some] at hcalm
    cases hphase : loop.phase with
    | sleeping =>
      rw [loopStep, hphase]
      refine h.setOut hget (by rw [hphase]; rfl) ?_ rfl fun hbooks => hbooks.setLoops _
      split <;> rfl
    | listing =>
      rw [loopStep, hphase]
      simp only
      split
      · rename_i hlock
        refine h.setOut hget (by rw [hphase]; rfl) rfl rfl fun hbooks => ?_
        rw [← hbooks.saved hlock]
        exact hbooks.setLoops _
      · exact h
    -- a tick takes its snapshot only when no other tick is under way
    | listed =>
      rw [hphase] at hcalm
      rw [loopStep, hphase]
      simp only [Scheduler.setPhase]
      rcases h with ⟨hidle, now, hbooks⟩ | ⟨j, running, now, hrun⟩
      · refine .inr ⟨i, { loop with phase := .looking s.clock s.data }, s.clock, ?_,
          fun j loop' hj hne => ?_, rfl, fun _ _ _ heq => (by cases heq),
          hbooks.snapshot.setLoops _⟩
        · exact List.getElem?_set_self (List.getElem?_eq_some_iff.mp hget).1
        · rw [List.getElem?_set_ne (Ne.symm hne)] at hj
          exact hidle loop' (List.mem_of_getElem? hj)
      · have hnone := hcalm running (List.mem_of_getElem? hrun.get)
        rw [hrun.tickTime] at hnone
        cases hnone
    | looking now jobs =>
      have hrun := h.running hget (show loop.phase.tickTime = some now by rw [hphase]; rfl)
      cases jobs with
      | nil =>
        rw [loopStep, hphase]
        simp only [Scheduler.setPhase]
        refine .inl ⟨fun loop' hmem => ?_, now, ?_⟩
        · obtain ⟨j, hj⟩ := List.mem_iff_getElem?.mp hmem
          by_cases hji : i = j
          · subst hji
            rw [List.getElem?_set_self (List.getElem?_eq_some_iff.mp hget).1] at hj
            rw [← Option.some.inj hj]
            rfl
          · rw [List.getElem?_set_ne hji] at hj
            exact hrun.others j loop' hj (Ne.symm hji)
        · have hbooks := hrun.ledger
          rw [hphase] at hbooks
          exact hbooks.setLoops _
      | cons job jobs =>
        rw [hphase] at hcalm
        exact hrun.look htimes hphase hcalm
    -- the write finds the next run of the snapshot, and puts a later one there
    | computed now jobId next jobs =>
      have hrun := h.running hget (show loop.phase.tickTime = some now by rw [hphase]; rfl)
      rw [loopStep, hphase]
      simp only
      split
      · have hbooks := hrun.ledger
        rw [hphase] at hbooks
        refine .inr ⟨i, _, now, hrun.set rfl rfl (fun _ _ _ heq => by cases heq) ?_⟩
        refine (hbooks.write fun next' hmem => ?_).setLoops _
        exact Option.some.inj hmem ▸ hrun.later _ _ _ hphase
      · exact .inr ⟨i, loop, now, hrun⟩
    | filling now jobs =>
      have hrun := h.running hget (show loop.phase.tickTime = some now by rw [hphase]; rfl)
      have hbooks := hrun.ledger
      rw [hphase] at hbooks
      rw [loopStep, hphase]
      exact .inr ⟨i, _, now, hrun.set rfl rfl (fun _ _ _ heq => by cases heq)
        (hbooks.persist.setLoops _)⟩
    -- what was found due goes from the tick to an execution
    | advancing now job jobs =>
      have hrun := h.running hget (show loop.phase.tickTime = some now by rw [hphase]; rfl)
      have hbooks := hrun.ledger
      rw [hphase] at hbooks
      rw [loopStep, hphase]
      exact .inr ⟨i, _, now, hrun.set rfl rfl (fun _ _ _ heq => by cases heq)
        (hbooks.spawn.setLoops _)⟩
    | stopped =>
      rw [loopStep, hphase]
      exact h
  · exact h

end Steps

/-- An edit of the jobs. -/
private theorem CronInv.operate {times : Times} {operation : Operation} (h : CronInv s)
    (hcalm : Calm s (.operate operation)) : CronInv (cronStep times s (.operate operation)) := by
  rw [cronStep]
  split
  · split
    · rename_i data hwrite
      refine h.sameLoops rfl fun {writes fired now} hwrites hbooks => ?_
      -- a new next run is one that no tick has still to write
      have hnew : ∀ {jobId nextRun}, Fresh s jobId nextRun → jobId ∉ writes.map (·.1) :=
        fun hfresh hmem => by
          obtain ⟨loop, hloop, hin⟩ := hwrites _ hmem
          exact hfresh.1 loop hloop hin
      cases operation with
      | addJob job =>
        obtain ⟨hid, hfresh⟩ := hcalm
        obtain rfl := Option.some.inj hwrite
        refine hbooks.edit ?_ fun slot hslot => ?_
        · rw [slots_ids, List.map_append, List.nodup_append]
          refine ⟨slots_ids s.data ▸ hbooks.nodup_data, by simp, fun a ha b hb hab => hid ?_⟩
          rw [List.map_singleton, List.mem_singleton] at hb
          exact hb ▸ hab ▸ ha
        · rw [slots_append] at hslot
          rcases List.mem_append.mp hslot with hslot | hslot
          · exact .inl hslot
          · rw [List.mem_singleton.mp hslot]
            exact .inr ⟨hnew hfresh, hfresh.2⟩
      | removeJob jobId =>
        rw [Operation.write] at hwrite
        split at hwrite
        · obtain rfl := Option.some.inj hwrite
          have hsub : (slots (s.data.filter (·.id != jobId))).Sublist (slots s.data) :=
            List.filter_sublist.map _
          exact hbooks.edit (hbooks.nodup_data.sublist (hsub.map _))
            fun slot hslot => .inl (hsub.subset hslot)
        · cases hwrite
      | toggleEnabled jobId enabled =>
        rw [Operation.write] at hwrite
        split at hwrite
        · obtain rfl := Option.some.inj hwrite
          refine hbooks.edit ?_ fun slot hslot => .inl ?_
          · rw [slots_toggleEnabled]
            exact hbooks.nodup_data
          · rwa [slots_toggleEnabled] at hslot
        · cases hwrite
      | updateNextRunAt jobId nextRun =>
        obtain rfl := Option.some.inj hwrite
        refine hbooks.edit ?_ fun slot hslot => ?_
        · rw [ids_updateNextRunAt]
          exact hbooks.nodup_data
        · rcases mem_slots_updateNextRunAt hbooks.nodup_data hslot with rfl | ⟨hslot, -⟩
          · exact .inr ⟨hnew hcalm, hcalm.2⟩
          · exact .inl hslot
    · exact h
  · exact h

/-- The next step of an execution. -/
private theorem CronInv.execute {times : Times} (h : CronInv s) (hcalm : Calm s (.execute i)) :
    CronInv (cronStep times s (.execute i)) := by
  rw [cronStep]
  split
  · rename_i execution hget
    split
    · exact h.sameLoops rfl fun _ hbooks => hbooks.record hget
    · rename_i hstarted
      have himminent : s.restartImminent = false := (hcalm execution hget).resolve_left hstarted
      rw [if_neg (by simp [himminent])]
      exact h.sameLoops rfl fun _ hbooks => hbooks.begin hget
  · exact h

/-- The process ends and starts again. -/
private theorem CronInv.restart {times : Times} (h : CronInv s) (hcalm : Calm s .restart) :
    CronInv (cronStep times s .restart) := by
  obtain ⟨hexec, hloops⟩ := hcalm
  rcases h with ⟨-, now, hbooks⟩ | ⟨i, loop, now, hrun⟩
  · exact .inl ⟨fun _ hmem => (by cases hmem), now, hbooks.restart rfl hexec⟩
  · exact .inl ⟨fun _ hmem => (by cases hmem), now,
      hrun.ledger.restart (hloops loop (List.mem_of_getElem? hrun.get)) hexec⟩

/-- A loop is started. -/
private theorem CronInv.start {times : Times} (h : CronInv s) :
    CronInv (cronStep times s .start) := by
  rw [cronStep]
  -- a new loop is in no tick
  have hbooks' : ∀ {writes fired now}, Ledger s writes fired now → Ledger { s with
      generation := s.generation + 1
      loops := s.loops ++ [{ gen := s.generation + 1 }] } writes fired now := fun hbooks =>
    ⟨hbooks.nodup_data, hbooks.nodup_file, hbooks.saved, hbooks.looked_le, hbooks.now_le,
      hbooks.nodup_writes, hbooks.agrees, hbooks.nodup_looked, hbooks.balanced, hbooks.data_new,
      hbooks.file_new⟩
  rcases h with ⟨hidle, now, hbooks⟩ | ⟨i, loop, now, hrun⟩
  · refine .inl ⟨fun loop hmem => ?_, now, hbooks' hbooks⟩
    rcases List.mem_append.mp hmem with hmem | hmem
    · exact hidle loop hmem
    · rw [List.mem_singleton.mp hmem]
      rfl
  · have hi := (List.getElem?_eq_some_iff.mp hrun.get).1
    refine .inr ⟨i, loop, now, ?_, fun j loop' hj hne => ?_, hrun.tickTime, hrun.later,
      hbooks' hrun.ledger⟩
    · rw [List.getElem?_append_left hi]
      exact hrun.get
    · by_cases hlt : j < s.loops.length
      · rw [List.getElem?_append_left hlt] at hj
        exact hrun.others j loop' hj hne
      · rw [List.getElem?_append_right (Nat.le_of_not_lt hlt)] at hj
        rw [List.mem_singleton.mp (List.mem_of_getElem? hj)]
        rfl

/-- Every calm step keeps the books. -/
private theorem CronInv.step {times : Times}
    (htimes : ∀ expr tz after next, times.nextAfter expr tz after = some next → after < next)
    {input : CronInput} (h : CronInv s) (hcalm : Calm s input) : CronInv (cronStep times s input) := by
  cases input with
  | advanceClock ms =>
    refine h.sameLoops rfl fun _ hbooks => ⟨hbooks.nodup_data, hbooks.nodup_file, hbooks.saved,
      hbooks.looked_le, ?_, hbooks.nodup_writes, hbooks.agrees, hbooks.nodup_looked,
      hbooks.balanced, hbooks.data_new, hbooks.file_new⟩
    have hle := hbooks.now_le
    show _ ≤ s.clock + (ms : Int)
    omega
  | start => exact h.start
  | stop =>
    exact h.sameLoops rfl fun _ hbooks => ⟨hbooks.nodup_data, hbooks.nodup_file, hbooks.saved,
      hbooks.looked_le, hbooks.now_le, hbooks.nodup_writes, hbooks.agrees, hbooks.nodup_looked,
      hbooks.balanced, hbooks.data_new, hbooks.file_new⟩
  | loop i => exact h.stepLoop htimes hcalm
  | execute i => exact h.execute hcalm
  | operate operation => exact h.operate hcalm
  | persist =>
    rw [cronStep]
    split
    · exact h.sameLoops rfl fun _ hbooks => hbooks.persist
    · exact h
  | setRestartImminent imminent =>
    exact h.sameLoops rfl fun _ hbooks => ⟨hbooks.nodup_data, hbooks.nodup_file, hbooks.saved,
      hbooks.looked_le, hbooks.now_le, hbooks.nodup_writes, hbooks.agrees, hbooks.nodup_looked,
      hbooks.balanced, hbooks.data_new, hbooks.file_new⟩
  | restart => exact h.restart hcalm

/-- A tick writes over the next run of its snapshot only. -/
private theorem CronInv.keepsEdits {input : CronInput} (h : CronInv s) : KeepsEdits s input := by
  cases input with
  | loop i =>
    rw [KeepsEdits]
    split
    · rename_i now job jobs hphase
      obtain ⟨loop, hget, hloop⟩ := Option.map_eq_some_iff.mp hphase
      intro hdue stored hmem hid
      have hbooks := (h.running hget (show loop.phase.tickTime = some now by rw [hloop]; rfl)).ledger
      have hw : job.isWritten now = true := by
        simp only [CronJob.isDue, CronJob.isWritten] at hdue ⊢
        cases hnext : job.nextRunAt <;> simp_all
      rw [hloop, Phase.writes, writes_cons, if_pos hw] at hbooks
      exact hbooks.agrees _ List.mem_cons_self _ (List.mem_map_of_mem hmem) hid
    · rename_i now jobId next jobs hphase
      obtain ⟨loop, hget, hloop⟩ := Option.map_eq_some_iff.mp hphase
      intro stored hmem hid
      have hbooks := (h.running hget (show loop.phase.tickTime = some now by rw [hloop]; rfl)).ledger
      rw [hloop] at hbooks
      exact hbooks.agrees (jobId, none) List.mem_cons_self _ (List.mem_map_of_mem hmem) hid
    · trivial
  | _ => trivial

/-! ## Runs -/

/-- In every run of calm steps no occurrence has two records, and no tick overwrites an edit; once nothing
    is under way, every due occurrence that a tick has found has one record. -/
theorem occurrences_fire_once {times : Times}
    (htimes : ∀ expr tz after next, times.nextAfter expr tz after = some next → after < next)
    (clock : Int) {jobs : List CronJob} (hjobs : (jobs.map (·.id)).Nodup) {inputs : List CronInput}
    (hsteps : (cronMachine times clock jobs).Steps Calm (cronMachine times clock jobs).init inputs) :
    ((cronMachine times clock jobs).run inputs).recorded.Nodup ∧
      (cronMachine times clock jobs).Steps KeepsEdits (cronMachine times clock jobs).init inputs ∧
      (Quiet ((cronMachine times clock jobs).run inputs) →
        FiredOnce ((cronMachine times clock jobs).run inputs)) := by
  have hids : ((slots jobs).map (·.1)).Nodup := slots_ids jobs ▸ hjobs
  have hinit : CronInv (cronMachine times clock jobs).init := by
    refine .inl ⟨fun _ hmem => (by cases hmem), clock, hids, hids, fun _ => rfl, ?_, Int.le_refl _,
      List.nodup_nil, ?_, List.nodup_nil, List.Perm.refl _, ?_, ?_⟩ <;>
    exact fun _ => by simp [cronMachine]
  have hstep : ∀ s input, CronInv s → Calm s input →
      CronInv ((cronMachine times clock jobs).step s input) := fun _ _ h hcalm =>
    h.step htimes hcalm
  refine ⟨?_, Machine.Steps.of_invariant hstep (fun _ _ h _ => h.keepsEdits) hinit hsteps, ?_⟩
  · rcases Machine.invariant_runFrom hstep hinit hsteps with ⟨-, now, hbooks⟩ | ⟨_, _, now, hrun⟩
    · exact hbooks.nodup_recorded
    · exact hrun.ledger.nodup_recorded
  · rintro ⟨hidle, hexec⟩ occurrence hmem
    rcases Machine.invariant_runFrom hstep hinit hsteps with ⟨-, now, hbooks⟩ | ⟨_, loop, now, hrun⟩
    · have hb := hbooks.balanced
      have hmem' := hb.subset hmem
      rw [Machine.run] at hexec
      rw [hexec] at hmem'
      refine List.count_eq_one_of_mem hbooks.nodup_recorded ?_
      simpa [occurrences, Machine.run] using hmem'
    · -- nothing is under way, so no tick is
      have hnone := hidle loop (List.mem_of_getElem? hrun.get)
      rw [hrun.tickTime] at hnone
      cases hnone

/-! ## Runs of one job -/

/-- The timestamp below is read, and a cron expression is due every second. -/
def everySecond : Times := ⟨fun _ => some 1000, fun _ _ after => some (after + 1000)⟩

/-- A job with a one-time schedule that is due at 1000. -/
def onceJob : CronJob where
  id := "once".toList
  enabled := true
  schedule := { kind := .at, atTime := some "1970-01-01T00:00:01Z".toList }
  nextRunAt := some 1000

/-- A loop starts, finds the job, writes its next run, and spawns the execution. -/
def firedRun : List CronInput :=
  [.start, .loop 0, .loop 0, .loop 0, .loop 0, .loop 0, .execute 0, .execute 0, .loop 0]

/-- A restart is imminent when the execution starts, and the process restarts. -/
def refusedRun : List CronInput :=
  [.start, .loop 0, .loop 0, .loop 0, .loop 0, .setRestartImminent true, .loop 0, .execute 0, .loop 0,
    .restart, .start, .loop 0, .loop 0, .loop 0, .loop 0, .loop 0]

theorem occurrences_fire_once_firedRun :
    ((cronMachine everySecond 2000 [onceJob]).run firedRun).recorded.Nodup ∧
      (cronMachine everySecond 2000 [onceJob]).Steps KeepsEdits
        (cronMachine everySecond 2000 [onceJob]).init firedRun ∧
      (Quiet ((cronMachine everySecond 2000 [onceJob]).run firedRun) →
        FiredOnce ((cronMachine everySecond 2000 [onceJob]).run firedRun)) := by
  refine occurrences_fire_once (fun _ _ after next h => ?_) 2000 (by decide) (by decide +kernel)
  have heq : after + 1000 = next := Option.some.inj h
  omega

/-- A due occurrence may be lost: its execution is refused because a restart is imminent, and after the
    restart the job is not due any more. -/
theorem refused_occurrence_lost :
    ¬ ∀ (times : Times) (clock : Int) (jobs : List CronJob) (inputs : List CronInput),
      (∀ expr tz after next, times.nextAfter expr tz after = some next → after < next) →
      (jobs.map (·.id)).Nodup → Quiet ((cronMachine times clock jobs).run inputs) →
      FiredOnce ((cronMachine times clock jobs).run inputs) := by
  intro hall
  have hquiet : Quiet ((cronMachine everySecond 2000 [onceJob]).run refusedRun) :=
    ⟨by decide +kernel, by decide +kernel⟩
  have hfired := hall everySecond 2000 [onceJob] refusedRun (fun _ _ after next h => by
    have heq : after + 1000 = next := Option.some.inj h
    omega) (by decide) hquiet ("once".toList, 1000) (by decide +kernel)
  revert hfired
  decide +kernel

end TeamClu.DesktopCron
