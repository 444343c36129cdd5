import Mathlib.Data.List.Nodup
import Mathlib.Data.List.Perm.Basic
import TeamClu.ForStd.StableSort
import TeamClu.Native.CronTick

/-!
# A claimed occurrence gets its history row

Where no update of a claim and no query for an app comes back as an error, every job whose row the tick has set is
carried by a lane until its one history row is inserted, and a lane only stops at the deadline or when no job is left
(`tick_rows`).  An error in `executeJob`'s query is thrown past `finish`: the job was moved, and nothing says so
(`lost_occurrence`).

## Key results

- `TickRows.step`: what one step keeps
- `History.step`: a row of the history is kept until there are enough later ones
- `tick_rows`: what every run of such steps keeps
-/

namespace TeamClu.AppCron

/-! ## What is true of a run -/

/-- The status that tells what a run came to. -/
def Happening.status (env : TickEnv) : Happening → CronRunStatus
  | .answered _ (.response status location) =>
    if 200 ≤ status ∧ status < 400 ∧ loginWallRedirect env status location = false then .success else .failed
  | .answered _ .aborted => .timeout
  | _ => .failed

/-- The status of the response, if there was one. -/
def Happening.responseStatus : Happening → Option Nat
  | .answered _ (.response status _) => some status
  | _ => none

/-- The error that tells why a run did not succeed. -/
def Happening.error (env : TickEnv) : Happening → Option RunError
  | .invalidSchedule error => some (.scheduleNotValid error)
  | .offline => some .offline
  | .noAppsDomain => some .noAppsDomain
  | .noApp => some .noApp
  | .answered _ (.response status location) =>
    if loginWallRedirect env status location then some .loginWall
    else if 200 ≤ status ∧ status < 400 then none else some (.answered status)
  | .answered budgetMs .aborted => some (.noAnswer budgetMs)
  | .answered _ (.threw message) => some (.threw message)

/-- The record has what tells of the happening. -/
structure RunRecord.TellsOf (record : RunRecord) (env : TickEnv) (happening : Happening) : Prop where
  status : record.status = happening.status env
  responseStatus : record.responseStatus = happening.responseStatus
  error : record.error = happening.error env

/-- The record tells what a run of the job came to. -/
def CronTick.Tells (env : TickEnv) (s : CronTick) (jobId : Str) (record : RunRecord) : Prop :=
  ∃ happening, (jobId, happening) ∈ s.happened ∧ record.TellsOf env happening

/-- The job of a lane whose row is set and whose history row is not inserted. -/
def Lane.carried? : Lane → Option Str
  | .claimed job true | .lookingUp job _ | .fetching job _ _ | .recording job _ _ => some job.id
  | _ => none

/-- The job of a lane whose update is on the way. -/
def Lane.claiming? : Lane → Option Str
  | .claiming job => some job.id
  | _ => none

/-- What holds of a lane. -/
def LaneInv (env : TickEnv) (s : CronTick) : Lane → Prop
  | .recording job record _ => s.Tells env job.id record
  | .returned true => s.deadline ≤ s.clock
  | .returned false => s.jobs.length ≤ s.cursor
  | .threw => False
  | _ => True

/-- What holds in every state. -/
structure TickRows (env : TickEnv) (s : CronTick) : Prop where
  ids : (s.jobs.map (·.id)).Nodup
  staffed : s.lanes = [] → s.jobs = []
  attempted : s.attempted = (s.jobs.take s.cursor).map (·.id)
  /-- A job that was moved is carried by a lane or has its history row. -/
  rows : s.moved.Perm (s.inserted.map (·.jobId) ++ s.lanes.filterMap Lane.carried?)
  fresh : (s.lanes.filterMap Lane.claiming? ++ s.moved).Nodup
  taken : s.lanes.filterMap Lane.claiming? ++ s.moved ⊆ s.attempted
  truthful : ∀ row ∈ s.inserted, s.Tells env row.jobId row.record
  lanes : ∀ lane ∈ s.lanes, LaneInv env s lane

/-! ## One lane -/

/-- A list with one entry in another state, next to the others. -/
private theorem exists_rest {lanes : List Lane} {i : Nat} {lane : Lane} (h : lanes[i]? = some lane) :
    ∃ rest, lanes.Perm (lane :: rest) ∧ ∀ lane', (lanes.set i lane').Perm (lane' :: rest) := by
  obtain ⟨hi, rfl⟩ := List.getElem?_eq_some_iff.mp h
  exact ⟨lanes.eraseIdx i, (List.getElem_cons_eraseIdx_perm hi).symm, fun lane' => List.set_perm_cons_eraseIdx hi lane'⟩

private theorem filterMap_cons_toList (f : Lane → Option Str) (lane : Lane) (rest : List Lane) :
    (lane :: rest).filterMap f = (f lane).toList ++ rest.filterMap f := by
  cases h : f lane <;> simp [h]

variable {env : TickEnv} {s : CronTick}

/-- What holds of the lanes still holds when the notes grow and the clock and the cursor go on. -/
private theorem LaneInv.mono {s' : CronTick} {lane : Lane} (h : LaneInv env s lane)
    (hhappened : s.happened ⊆ s'.happened) (hclock : s'.deadline ≤ s.deadline ∧ s.clock ≤ s'.clock)
    (hcursor : s'.jobs = s.jobs ∧ s.cursor ≤ s'.cursor) : LaneInv env s' lane := by
  cases lane with
  | recording job record executed =>
    obtain ⟨happening, hmem, hstatus⟩ := h
    exact ⟨happening, hhappened hmem, hstatus⟩
  | returned late =>
    cases late with
    | true => exact Int.le_trans hclock.1 (Int.le_trans h hclock.2)
    | false =>
      have hlen : s'.jobs.length = s.jobs.length := congrArg List.length hcursor.1
      exact Nat.le_trans (Nat.le_of_eq hlen) (Nat.le_trans h hcursor.2)
  | threw => exact h
  | _ => trivial

/-- One lane goes on, the others stay. -/
private theorem TickRows.advance {s' : CronTick} {i : Nat} {lane lane' : Lane} (h : TickRows env s)
    (hi : s.lanes[i]? = some lane) (hlanes : s'.lanes = s.lanes.set i lane') (hlane : LaneInv env s' lane')
    (hhappened : s.happened ⊆ s'.happened) (hclock : s'.deadline ≤ s.deadline ∧ s.clock ≤ s'.clock)
    (hcursor : s'.jobs = s.jobs ∧ s.cursor ≤ s'.cursor)
    (hattempted : s'.attempted = (s'.jobs.take s'.cursor).map (·.id))
    (hrows : ∀ rest, s.moved.Perm (s.inserted.map (·.jobId) ++ (lane.carried?.toList ++ rest)) →
      s'.moved.Perm (s'.inserted.map (·.jobId) ++ (lane'.carried?.toList ++ rest)))
    (hfresh : ∀ rest, (lane.claiming?.toList ++ rest ++ s.moved).Nodup →
      lane.claiming?.toList ++ rest ++ s.moved ⊆ s.attempted →
      (lane'.claiming?.toList ++ rest ++ s'.moved).Nodup ∧
        lane'.claiming?.toList ++ rest ++ s'.moved ⊆ s'.attempted)
    (htruthful : ∀ row ∈ s'.inserted, row ∈ s.inserted ∨ s'.Tells env row.jobId row.record) : TickRows env s' := by
  -- what the lanes carry and claim is counted over the one that moves and the others
  obtain ⟨rest, hbefore, hset⟩ := exists_rest hi
  have hafter : s'.lanes.Perm (lane' :: rest) := hlanes ▸ hset lane'
  have hperm (f : Lane → Option Str) : (s.lanes.filterMap f).Perm ((f lane).toList ++ rest.filterMap f) := by
    rw [← filterMap_cons_toList]
    exact hbefore.filterMap f
  have hperm' (f : Lane → Option Str) : (s'.lanes.filterMap f).Perm ((f lane').toList ++ rest.filterMap f) := by
    rw [← filterMap_cons_toList]
    exact hafter.filterMap f
  have hclaims := (hperm Lane.claiming?).append_right s.moved
  have hclaims' := (hperm' Lane.claiming?).append_right s'.moved
  obtain ⟨hnodup, htaken⟩ := hfresh _ (hclaims.nodup_iff.mp h.fresh)
    (fun id hid => h.taken (hclaims.mem_iff.mpr hid))
  have hstaffed : s'.lanes = [] → s'.jobs = [] := fun hnil =>
    absurd (List.perm_nil.mp (hnil ▸ hafter).symm) (List.cons_ne_nil _ _)
  refine ⟨hcursor.1 ▸ h.ids, hstaffed, hattempted, ?_, hclaims'.nodup_iff.mpr hnodup,
    fun id hid => htaken (hclaims'.mem_iff.mp hid), fun row hrow => ?_, fun other hother => ?_⟩
  · exact (hrows _ (h.rows.trans ((hperm Lane.carried?).append_left _))).trans
      ((hperm' Lane.carried?).append_left _).symm
  · rcases htruthful row hrow with hold | htells
    · obtain ⟨happening, hmem, hstatus⟩ := h.truthful row hold
      exact ⟨happening, hhappened hmem, hstatus⟩
    · exact htells
  · rcases List.mem_cons.mp (hafter.mem_iff.mp hother) with rfl | hrest
    · exact hlane
    · exact (h.lanes other (hbefore.mem_iff.mpr (List.mem_cons_of_mem _ hrest))).mono hhappened hclock hcursor

/-- A lane goes on, and only the notes grow. -/
private theorem TickRows.setLane {i : Nat} {lane lane' : Lane} {happened : List (Str × Happening)}
    {outcomes : List (Str × RunRecord)} {runs : List RunRow} (h : TickRows env s) (hi : s.lanes[i]? = some lane)
    (hhappened : s.happened ⊆ happened)
    (hlane : LaneInv env { s.setLane i lane' with happened, outcomes, runs } lane')
    (hcarried : lane'.carried? = lane.carried?) (hclaiming : lane'.claiming? = none) :
    TickRows env { s.setLane i lane' with happened, outcomes, runs } := by
  refine h.advance hi rfl hlane hhappened ⟨Int.le_refl _, Int.le_refl _⟩ ⟨rfl, Nat.le_refl _⟩ h.attempted
    (fun rest hrows => hcarried ▸ hrows) (fun rest hnodup htaken => ?_) (fun row hrow => Or.inl hrow)
  rw [hclaiming]
  have hsub : (Option.toList none ++ rest ++ s.moved).Sublist (lane.claiming?.toList ++ rest ++ s.moved) :=
    ((List.nil_sublist _).append_right rest).append_right s.moved
  exact ⟨hnodup.sublist hsub, fun id hid => htaken (hsub.subset hid)⟩

/-! ## The steps -/

/-- No update of a claim and no query for an app comes back as an error, and no insert fails. -/
def Answered : TickInput → Prop
  | .update _ outcome => outcome = .answered
  | .lookUp _ answer => answer ≠ .failed
  | .insert _ fails => fails = false
  | _ => True

/-- A note of what a run came to backs the record. -/
private theorem tells_note {jobId : Str} {happening : Happening} {record : RunRecord}
    (htells : record.TellsOf env happening) (i : Nat) (lane : Lane) :
    ((s.note jobId happening).setLane i lane).Tells env jobId record :=
  ⟨happening, List.mem_append_right _ List.mem_cons_self, htells⟩

/-- What is recorded of an answer tells of it. -/
theorem recordOf_tells (env : TickEnv) (startedAt finishedAt budgetMs : Int) (answer : FetchAnswer) :
    (recordOf env startedAt finishedAt budgetMs answer).TellsOf env (.answered budgetMs answer) := by
  cases answer with
  | response status location =>
    unfold recordOf
    by_cases hwall : loginWallRedirect env status location = true
    · exact ⟨by simp [hwall, Happening.status], by simp [hwall, Happening.responseStatus],
        by simp [hwall, Happening.error]⟩
    · by_cases hok : 200 ≤ status ∧ status < 400
      · exact ⟨by simp [hwall, hok, Happening.status], by simp [hwall, hok, Happening.responseStatus],
          by simp [hwall, hok, Happening.error]⟩
      · exact ⟨by simp [hwall, hok, Happening.status], by simp [hwall, hok, Happening.responseStatus],
          by simp [hwall, hok, Happening.error]⟩
  | aborted => exact ⟨rfl, rfl, rfl⟩
  | threw message => exact ⟨rfl, rfl, rfl⟩

/-- A lane takes the next job. -/
private theorem TickRows.take {i : Nat} {job : DueJob} (h : TickRows env s) (hi : s.lanes[i]? = some .idle)
    (hjob : s.jobs[s.cursor]? = some job) : TickRows env { s.setLane i (.claiming job) with
      cursor := s.cursor + 1
      attempted := s.attempted ++ [job.id] } := by
  have htake : s.attempted ++ [job.id] = (s.jobs.take (s.cursor + 1)).map (·.id) := by
    rw [List.take_add_one, hjob, List.map_append, h.attempted]
    rfl
  -- the due jobs have different ids, so no lane has taken this one before
  have hnew : job.id ∉ s.attempted := by
    have hnodup : ((s.jobs.take (s.cursor + 1)).map (·.id)).Nodup :=
      h.ids.sublist ((List.take_sublist _ _).map _)
    rw [← htake, List.nodup_append] at hnodup
    exact fun hmem => hnodup.2.2 job.id hmem job.id List.mem_cons_self rfl
  refine h.advance hi rfl trivial (List.Subset.refl _) ⟨Int.le_refl _, Int.le_refl _⟩ ⟨rfl, Nat.le_succ _⟩ htake
    (fun rest hrows => hrows) (fun rest hnodup htaken => ?_) (fun row hrow => Or.inl hrow)
  constructor
  · exact List.nodup_cons.mpr ⟨fun hmem => hnew (htaken hmem), hnodup⟩
  · intro id hid
    rcases List.mem_cons.mp hid with rfl | hmem
    · exact List.mem_append_right _ List.mem_cons_self
    · exact List.mem_append_left _ (htaken hmem)

/-- An update sets the row of its job. -/
private theorem TickRows.claim {i : Nat} {job : DueJob} (h : TickRows env s)
    (hi : s.lanes[i]? = some (.claiming job)) :
    TickRows env ((s.applyClaim env job).setLane i (.claimed job true)) := by
  refine h.advance hi rfl trivial (List.Subset.refl _) ⟨Int.le_refl _, Int.le_refl _⟩ ⟨rfl, Nat.le_refl _⟩
    h.attempted (fun rest hrows => ?_) (fun rest hnodup htaken => ?_) (fun row hrow => Or.inl hrow)
  · have happend : (s.moved ++ [job.id]).Perm (s.inserted.map (·.jobId) ++ rest ++ [job.id]) :=
      List.Perm.append_right [job.id] hrows
    refine happend.trans ?_
    rw [List.append_assoc]
    exact (List.perm_append_comm).append_left _
  · have hperm : (rest ++ (s.moved ++ [job.id])).Perm (job.id :: (rest ++ s.moved)) := by
      rw [← List.append_assoc]
      exact List.perm_append_singleton _ _
    exact ⟨hperm.nodup_iff.mpr hnodup, fun id hid => htaken (hperm.mem_iff.mp hid)⟩

/-- A history row is inserted. -/
private theorem TickRows.insertRun {i : Nat} {job : DueJob} {record : RunRecord} {executed : Bool}
    (h : TickRows env s) (hi : s.lanes[i]? = some (.recording job record executed)) :
    TickRows env ((s.insertRun job record).setLane i (.trimming job record executed)) := by
  have htells : s.Tells env job.id record := h.lanes _ (List.mem_of_getElem? hi)
  refine h.advance hi rfl trivial (List.Subset.refl _) ⟨Int.le_refl _, Int.le_refl _⟩ ⟨rfl, Nat.le_refl _⟩
    h.attempted (fun rest hrows => ?_) (fun rest hnodup htaken => ⟨hnodup, htaken⟩) (fun row hrow => ?_)
  · simpa [CronTick.insertRun, CronTick.addRow, CronTick.newRow, CronTick.setLane, Lane.carried?] using hrows
  · rcases List.mem_append.mp hrow with hold | hnew
    · exact Or.inl hold
    · obtain rfl := List.mem_singleton.mp hnew
      exact Or.inr htells

/-- What one step keeps. -/
theorem TickRows.step (input : TickInput) (h : TickRows env s) (hanswered : Answered input) :
    TickRows env (tickStep env s input) := by
  have hlane {i : Nat} {lane : Lane} (hi : s.lanes[i]? = some lane) : LaneInv env s lane :=
    h.lanes lane (List.mem_of_getElem? hi)
  cases input with
  | advanceClock ms =>
    exact ⟨h.ids, h.staffed, h.attempted, h.rows, h.fresh, h.taken, h.truthful, fun lane hmem =>
      (h.lanes lane hmem).mono (List.Subset.refl _) ⟨Int.le_refl _, by show s.clock ≤ s.clock + ms; omega⟩
        ⟨rfl, Nat.le_refl _⟩⟩
  | edit jobId nextRunAt =>
    cases nextRunAt <;> exact ⟨h.ids, h.staffed, h.attempted, h.rows, h.fresh, h.taken, h.truthful, h.lanes⟩
  | otherRun job record => exact ⟨h.ids, h.staffed, h.attempted, h.rows, h.fresh, h.taken, h.truthful, h.lanes⟩
  | otherTrim jobId => exact ⟨h.ids, h.staffed, h.attempted, h.rows, h.fresh, h.taken, h.truthful, h.lanes⟩
  | turn i =>
    rw [tickStep]
    split
    · next hi =>
      split
      · next hlate => exact h.setLane hi (List.Subset.refl _) hlate rfl rfl
      · split
        · next job hjob => exact h.take hi hjob
        · -- past the last job a lane ends, and the cursor goes on
          next hnone =>
          have hlen : s.jobs.length ≤ s.cursor := List.getElem?_eq_none_iff.mp hnone
          refine h.advance hi rfl (Nat.le_succ_of_le hlen) (List.Subset.refl _) ⟨Int.le_refl _, Int.le_refl _⟩
            ⟨rfl, Nat.le_succ _⟩ ?_ (fun rest hrows => hrows) (fun rest hnodup htaken => ⟨hnodup, htaken⟩)
            (fun row hrow => Or.inl hrow)
          show s.attempted = (s.jobs.take (s.cursor + 1)).map (·.id)
          rw [h.attempted, List.take_of_length_le hlen, List.take_of_length_le (Nat.le_succ_of_le hlen)]
    · exact h
  | update i outcome =>
    obtain rfl : outcome = .answered := hanswered
    rw [tickStep]
    split
    · next job hi =>
      simp only
      split
      · exact h.claim hi
      · exact h.setLane hi (List.Subset.refl _) trivial rfl rfl
    · exact h
  | resume i =>
    rw [tickStep]
    split
    · next job hi => exact h.setLane hi (List.Subset.refl _) trivial rfl rfl
    · next job hi =>
      split
      · next error herror => exact h.setLane hi (List.subset_append_left _ _) (tells_note ⟨rfl, rfl, rfl⟩ ..) rfl rfl
      · exact h.setLane hi (List.Subset.refl _) trivial rfl rfl
    · exact h
  | lookUp i answer =>
    rw [tickStep]
    split
    · next job startedAt hi =>
      cases answer with
      | failed => exact absurd rfl hanswered
      | found app =>
        simp only [CronTick.withApp]
        split
        · exact h.setLane hi (List.subset_append_left _ _) (tells_note ⟨rfl, rfl, rfl⟩ ..) rfl rfl
        · split
          · refine h.setLane hi (List.subset_append_left _ _) (tells_note ?_ ..) rfl rfl
            cases app <;> exact ⟨rfl, rfl, rfl⟩
          · exact h.setLane hi (List.Subset.refl _) trivial rfl rfl
    · exact h
  | answer i answer =>
    rw [tickStep]
    split
    · next job startedAt budgetMs hi =>
      exact h.setLane hi (List.subset_append_left _ _) (tells_note (recordOf_tells ..) ..) rfl rfl
    · exact h
  -- the row of the carried job, which no lane carries then
  | insert i fails =>
    obtain rfl : fails = false := hanswered
    rw [tickStep]
    split
    · next job record executed hi => exact h.insertRun hi
    · exact h
  | trim i fails =>
    rw [tickStep]
    split
    · next job record executed hi =>
      exact h.setLane hi (List.Subset.refl _) trivial rfl rfl
    · exact h

/-! ## The history -/

/-- A run of the same job that began no earlier. -/
def RunRow.noEarlier (row other : RunRow) : Bool :=
  other.jobId == row.jobId && decide (row.record.startedAt ≤ other.record.startedAt)

/-- The history has the row, or as many of its job as are kept that began no earlier, or the job was deleted. -/
def CronTick.Keeps (s : CronTick) (row : RunRow) : Prop :=
  row ∈ s.runs ∨ row.jobId ∈ s.deleted ∨ RUNS_KEPT_PER_JOB ≤ (s.runs.filter row.noEarlier).length

/-- What holds of the history in every state. -/
structure History (s : CronTick) : Prop where
  ids : (s.runs.map (·.id)).Nodup
  below : ∀ row ∈ s.runs, row.id < s.nextId
  kept : ∀ row ∈ s.inserted, s.Keeps row

/-- The runs of a job, the latest first. -/
private def latestFirst (runs : List RunRow) (jobId : Str) : List RunRow :=
  (runs.filter (·.jobId == jobId)).mergeSort fun a b => decide (b.record.startedAt ≤ a.record.startedAt)

private theorem pairwise_latestFirst (runs : List RunRow) (jobId : Str) :
    (latestFirst runs jobId).Pairwise fun a b => b.record.startedAt ≤ a.record.startedAt := by
  have hsorted := @List.pairwise_mergeSort _
    (fun a b : RunRow => decide (b.record.startedAt ≤ a.record.startedAt))
    (fun a b c hab hbc => by simp only [decide_eq_true_eq] at hab hbc ⊢; omega)
    (fun a b => by simp only [Bool.or_eq_true, decide_eq_true_eq]; omega) (runs.filter (·.jobId == jobId))
  exact hsorted.imp fun h => of_decide_eq_true h

private theorem mem_latestFirst {runs : List RunRow} {jobId : Str} {row : RunRow} :
    row ∈ latestFirst runs jobId ↔ row ∈ runs ∧ row.jobId = jobId := by
  simp [latestFirst, List.mem_filter]

/-- The rows that are kept of a job are its latest ones. -/
private theorem mem_trimRuns {runs : List RunRow} (hids : (runs.map (·.id)).Nodup) {jobId : Str} {row : RunRow}
    (hrow : row ∈ (latestFirst runs jobId).take RUNS_KEPT_PER_JOB) : row ∈ trimRuns runs jobId false := by
  have hmem : ∀ other ∈ latestFirst runs jobId, other ∈ runs := fun other h => (mem_latestFirst.mp h).1
  have hnodup : ((latestFirst runs jobId).map (·.id)).Nodup := by
    have hperm : ((latestFirst runs jobId).map (·.id)).Perm ((runs.filter (·.jobId == jobId)).map (·.id)) :=
      (List.mergeSort_perm _ _).map _
    exact hperm.nodup_iff.mpr (hids.sublist (List.filter_sublist.map _))
  refine List.mem_filter.mpr ⟨hmem row (List.mem_of_mem_take hrow), decide_eq_true fun hsurplus => ?_⟩
  obtain ⟨other, hother, hid⟩ := List.mem_map.mp hsurplus
  have hdrop : other ∈ (latestFirst runs jobId).drop RUNS_KEPT_PER_JOB := List.mem_of_mem_take hother
  rw [← List.take_append_drop RUNS_KEPT_PER_JOB (latestFirst runs jobId), List.map_append, List.nodup_append] at hnodup
  exact hnodup.2.2 row.id (List.mem_map_of_mem hrow) other.id (List.mem_map_of_mem hdrop) hid.symm

/-- Where as many rows of a job as are kept began no earlier than a row, they are left when it is trimmed. -/
private theorem enough_of_take {runs : List RunRow} (hids : (runs.map (·.id)).Nodup) {row : RunRow}
    (hfirst : ∀ other ∈ (latestFirst runs row.jobId).take RUNS_KEPT_PER_JOB, row.noEarlier other = true)
    (hlength : RUNS_KEPT_PER_JOB ≤ (latestFirst runs row.jobId).length) :
    RUNS_KEPT_PER_JOB ≤ ((trimRuns runs row.jobId false).filter row.noEarlier).length := by
  have hnodup : ((latestFirst runs row.jobId).take RUNS_KEPT_PER_JOB).Nodup := by
    refine List.Nodup.sublist (List.take_sublist _ _) ?_
    exact (List.mergeSort_perm _ _).nodup_iff.mpr ((List.Nodup.of_map _ hids).filter _)
  calc RUNS_KEPT_PER_JOB = ((latestFirst runs row.jobId).take RUNS_KEPT_PER_JOB).length := by
        rw [List.length_take, Nat.min_eq_left hlength]
    _ ≤ ((trimRuns runs row.jobId false).filter row.noEarlier).length :=
      (List.subperm_of_subset hnodup fun other hother =>
        List.mem_filter.mpr ⟨mem_trimRuns hids hother, hfirst other hother⟩).length_le

/-- Trimming the job of a row leaves enough rows that began no earlier, where there were. -/
private theorem enough_of_enough {runs : List RunRow} (hids : (runs.map (·.id)).Nodup) {row : RunRow}
    (henough : RUNS_KEPT_PER_JOB ≤ (runs.filter row.noEarlier).length) :
    RUNS_KEPT_PER_JOB ≤ ((trimRuns runs row.jobId false).filter row.noEarlier).length := by
  have hcount : ((latestFirst runs row.jobId).filter row.noEarlier).length = (runs.filter row.noEarlier).length := by
    have hperm := (List.mergeSort_perm (runs.filter (·.jobId == row.jobId)) fun a b =>
      decide (b.record.startedAt ≤ a.record.startedAt)).filter row.noEarlier
    rw [latestFirst, hperm.length_eq, List.filter_filter]
    congr 2
    funext other
    simp only [RunRow.noEarlier]
    cases other.jobId == row.jobId <;> simp
  refine enough_of_take hids (StableSort.forall_mem_take_of_le ?_ (hcount ▸ henough)) ?_
  · refine (List.Pairwise.and_mem.mp (pairwise_latestFirst runs row.jobId)).imp fun ⟨ha, _, hab⟩ hno => ?_
    simp only [RunRow.noEarlier, Bool.and_eq_true, beq_iff_eq, decide_eq_true_eq] at hno ⊢
    exact ⟨(mem_latestFirst.mp ha).2, hno.2.trans hab⟩
  · rw [← hcount] at henough
    exact henough.trans (List.length_filter_le _ _)

/-- A row that is trimmed leaves enough rows that began no earlier. -/
private theorem enough_of_trimmed {runs : List RunRow} (hids : (runs.map (·.id)).Nodup) {row : RunRow}
    (hrow : row ∈ runs) (hgone : row ∉ trimRuns runs row.jobId false) :
    RUNS_KEPT_PER_JOB ≤ ((trimRuns runs row.jobId false).filter row.noEarlier).length := by
  have hin : row ∈ latestFirst runs row.jobId := mem_latestFirst.mpr ⟨hrow, rfl⟩
  have hsorted := pairwise_latestFirst runs row.jobId
  have hdrop : row ∈ (latestFirst runs row.jobId).drop RUNS_KEPT_PER_JOB := by
    rw [← List.take_append_drop RUNS_KEPT_PER_JOB (latestFirst runs row.jobId), List.mem_append] at hin
    exact hin.resolve_left fun htake => hgone (mem_trimRuns hids htake)
  refine enough_of_take hids (fun other hother => ?_) ?_
  · rw [← List.take_append_drop RUNS_KEPT_PER_JOB (latestFirst runs row.jobId), List.pairwise_append] at hsorted
    have hjob := (mem_latestFirst.mp (List.mem_of_mem_take hother)).2
    simp [RunRow.noEarlier, hjob, hsorted.2.2 other hother row hdrop]
  · have hpos := List.length_pos_of_mem hdrop
    rw [List.length_drop] at hpos
    omega

/-- Trimming a job leaves the rows of the others alone. -/
private theorem mem_trimRuns_of_ne {runs : List RunRow} (hids : (runs.map (·.id)).Nodup) {jobId : Str} {row : RunRow}
    (hrow : row ∈ runs) (hne : row.jobId ≠ jobId) : row ∈ trimRuns runs jobId false := by
  refine List.mem_filter.mpr ⟨hrow, decide_eq_true fun hsurplus => hne ?_⟩
  obtain ⟨other, hother, hid⟩ := List.mem_map.mp hsurplus
  have hmem := mem_latestFirst.mp (List.mem_of_mem_drop (List.mem_of_mem_take hother))
  obtain rfl : other = row := List.inj_on_of_nodup_map hids hmem.1 hrow hid
  exact hmem.2

/-- A trim keeps the history of every row. -/
private theorem CronTick.Keeps.trim {row : RunRow} (hids : (s.runs.map (·.id)).Nodup) (h : s.Keeps row) (jobId : Str) :
    CronTick.Keeps { s with runs := trimRuns s.runs jobId false } row := by
  by_cases hjob : row.jobId = jobId
  · subst hjob
    rcases h with hmem | hdeleted | henough
    · by_cases hkept : row ∈ trimRuns s.runs row.jobId false
      · exact Or.inl hkept
      · exact Or.inr (Or.inr (enough_of_trimmed hids hmem hkept))
    · exact Or.inr (Or.inl hdeleted)
    · exact Or.inr (Or.inr (enough_of_enough hids henough))
  · rcases h with hmem | hdeleted | henough
    · exact Or.inl (mem_trimRuns_of_ne hids hmem hjob)
    · exact Or.inr (Or.inl hdeleted)
    · -- a trim of another job leaves the rows that are counted here
      refine Or.inr (Or.inr (henough.trans (Nat.le_of_eq ?_)))
      show _ = ((trimRuns s.runs jobId false).filter row.noEarlier).length
      unfold trimRuns
      rw [if_neg Bool.false_ne_true, List.filter_filter]
      congr 1
      refine List.filter_congr fun other hother => ?_
      cases hno : row.noEarlier other with
      | false => simp
      | true =>
        have hne : other.jobId ≠ jobId := by
          simp only [RunRow.noEarlier, Bool.and_eq_true, beq_iff_eq] at hno
          exact fun heq => hjob (hno.1.symm.trans heq)
        have hmem := (List.mem_filter.mp (mem_trimRuns_of_ne hids hother hne)).2
        simp only [Bool.true_and, hmem]

/-- A trim, or one that fails. -/
private theorem History.trim (h : History s) (jobId : Str) (fails : Bool) :
    History { s with runs := trimRuns s.runs jobId fails } := by
  cases fails with
  | true => exact h
  | false =>
    exact ⟨h.ids.sublist (List.filter_sublist.map _), fun row hrow => h.below row (List.mem_filter.mp hrow).1,
      fun row hrow => (h.kept row hrow).trim h.ids jobId⟩

/-- One more row. -/
private theorem History.addRow (h : History s) (job : DueJob) (record : RunRecord) :
    History (s.addRow (s.newRow job record)) := by
  refine ⟨?_, fun row hrow => ?_, fun row hrow => ?_⟩
  · simp only [CronTick.addRow, List.map_append, List.map_cons, List.map_nil]
    refine List.nodup_append.mpr ⟨h.ids, List.nodup_singleton _, fun a ha b hb => ?_⟩
    obtain ⟨row, hrow, rfl⟩ := List.mem_map.mp ha
    obtain rfl := List.mem_singleton.mp hb
    exact Nat.ne_of_lt (h.below row hrow)
  · rcases List.mem_append.mp hrow with hold | hnew
    · exact Nat.lt_succ_of_lt (h.below row hold)
    · obtain rfl := List.mem_singleton.mp hnew
      exact Nat.lt_succ_self _
  · rcases h.kept row hrow with hmem | hdeleted | henough
    · exact Or.inl (List.mem_append_left _ hmem)
    · exact Or.inr (Or.inl hdeleted)
    · refine Or.inr (Or.inr (henough.trans ?_))
      simp only [CronTick.addRow, List.filter_append, List.length_append]
      omega

/-- A job is deleted with its history. -/
private theorem History.delete (h : History s) (jobId : Str) (nextRunAt : Str → Option (Option Int)) :
    History { s with nextRunAt, runs := s.runs.filter (·.jobId ≠ jobId), deleted := s.deleted ++ [jobId] } := by
  refine ⟨h.ids.sublist (List.filter_sublist.map _), fun row hrow => h.below row (List.mem_filter.mp hrow).1,
    fun row hrow => ?_⟩
  by_cases hjob : row.jobId = jobId
  · exact Or.inr (Or.inl (List.mem_append_right _ (by simp [hjob])))
  · rcases h.kept row hrow with hmem | hdeleted | henough
    · exact Or.inl (List.mem_filter.mpr ⟨hmem, by simpa using hjob⟩)
    · exact Or.inr (Or.inl (List.mem_append_left _ hdeleted))
    · refine Or.inr (Or.inr (henough.trans (Nat.le_of_eq ?_)))
      rw [List.filter_filter]
      congr 1
      refine List.filter_congr fun other _ => ?_
      cases hno : row.noEarlier other with
      | false => simp
      | true =>
        simp only [RunRow.noEarlier, Bool.and_eq_true, beq_iff_eq] at hno
        simp [hno.1, hjob]

/-- A step that leaves the history alone. -/
private theorem History.congr {s' : CronTick} (h : History s) (hruns : s'.runs = s.runs) (hnext : s'.nextId = s.nextId)
    (hinserted : s'.inserted = s.inserted) (hdeleted : s'.deleted = s.deleted) : History s' := by
  refine ⟨hruns ▸ h.ids, fun row hrow => hnext ▸ h.below row (hruns ▸ hrow), fun row hrow => ?_⟩
  have hkept := h.kept row (hinserted ▸ hrow)
  unfold CronTick.Keeps at hkept ⊢
  rwa [hruns, hdeleted]

/-- What one step keeps of the history. -/
theorem History.step (h : History s) (input : TickInput) : History (tickStep env s input) := by
  cases input with
  | advanceClock ms => exact h.congr rfl rfl rfl rfl
  -- a job that is deleted takes its rows with it
  | edit jobId nextRunAt =>
    cases nextRunAt with
    | some next => exact h.congr rfl rfl rfl rfl
    | none => exact h.delete jobId _
  | otherRun job record => exact h.addRow job record
  | otherTrim jobId => exact h.trim jobId false
  -- a new row is the newest of its job, and stays
  | insert i fails =>
    rw [tickStep]
    split
    · next job record executed hi =>
      split
      · exact h.congr rfl rfl rfl rfl
      · have hadded := h.addRow job record
        refine ⟨hadded.ids, hadded.below, fun row hrow => ?_⟩
        rcases List.mem_append.mp hrow with hold | hnew
        · exact hadded.kept row hold
        · obtain rfl := List.mem_singleton.mp hnew
          exact Or.inl (List.mem_append_right _ List.mem_cons_self)
    · exact h
  | trim i fails =>
    rw [tickStep]
    split
    · next job record executed hi => exact (h.trim job.id fails).congr rfl rfl rfl rfl
    · exact h
  | turn i =>
    rw [tickStep]
    split
    · split
      · exact h.congr rfl rfl rfl rfl
      · split <;> exact h.congr rfl rfl rfl rfl
    · exact h
  | update i outcome =>
    rw [tickStep]
    split
    · split
      · split <;> exact h.congr rfl rfl rfl rfl
      · split <;> exact h.congr rfl rfl rfl rfl
      · exact h.congr rfl rfl rfl rfl
    · exact h
  | resume i =>
    rw [tickStep]
    split
    · exact h.congr rfl rfl rfl rfl
    · split <;> exact h.congr rfl rfl rfl rfl
    · exact h
  | lookUp i answer =>
    rw [tickStep]
    split
    · cases answer with
      | failed => exact h.congr rfl rfl rfl rfl
      | found app =>
        simp only [CronTick.withApp]
        split
        · exact h.congr rfl rfl rfl rfl
        · split <;> exact h.congr rfl rfl rfl rfl
    · exact h
  | answer i answer =>
    rw [tickStep]
    split
    · exact h.congr rfl rfl rfl rfl
    · exact h

/-! ## Every run -/

/-- The lane has returned, or threw. -/
def Lane.isOver : Lane → Bool
  | .returned _ | .threw => true
  | _ => false

/-- The tick is over: every lane is. -/
def CronTick.Over (s : CronTick) : Prop := ∀ lane ∈ s.lanes, lane.isOver = true

/-- What a tick owes: a job that it moved is carried by a lane or has one history row, which tells what its run came
    to and is kept until there are enough later ones; and when it is over it has taken every due job, or each lane came
    back after the deadline. -/
structure RowsKept (env : TickEnv) (s : CronTick) : Prop where
  once : s.moved.Nodup
  carriedOrInserted : ∀ jobId ∈ s.moved,
    (s.inserted.map (·.jobId)).count jobId + (s.lanes.filterMap Lane.carried?).count jobId = 1
  inserted : s.Over → ∀ jobId ∈ s.moved, ∃ row, s.inserted.filter (·.jobId == jobId) = [row] ∧
    s.Tells env jobId row.record ∧ s.Keeps row
  attempted : s.Over → (∀ job ∈ s.jobs, job.id ∈ s.attempted) ∨
    s.deadline ≤ s.clock ∧ ∀ lane ∈ s.lanes, lane = .returned true

theorem TickRows.kept (h : TickRows env s) (hhistory : History s) : RowsKept env s := by
  have honce : s.moved.Nodup := (List.nodup_append.mp h.fresh).2.1
  have hcount : ∀ jobId ∈ s.moved,
      (s.inserted.map (·.jobId)).count jobId + (s.lanes.filterMap Lane.carried?).count jobId = 1 := by
    intro jobId hmem
    rw [← List.count_append, ← h.rows.count_eq]
    exact List.count_eq_one_of_mem honce hmem
  refine ⟨honce, hcount, fun hover jobId hmem => ?_, fun hover => ?_⟩
  · have hnone : s.lanes.filterMap Lane.carried? = [] := by
      refine List.filterMap_eq_nil_iff.mpr fun lane hlane => ?_
      have hisOver := hover lane hlane
      cases lane with
      | returned late => rfl
      | threw => rfl
      | _ => cases hisOver
    have hone := hcount jobId hmem
    rw [hnone, List.count_nil, Nat.add_zero, List.count_eq_countP, List.countP_map,
      List.countP_eq_length_filter] at hone
    obtain ⟨row, hrow⟩ := List.length_eq_one_iff.mp hone
    have hin : row ∈ s.inserted.filter (·.jobId == jobId) := hrow ▸ List.mem_cons_self
    obtain ⟨hinserted, hid⟩ := List.mem_filter.mp hin
    have heq : row.jobId = jobId := eq_of_beq hid
    exact ⟨row, hrow, heq ▸ h.truthful row hinserted, hhistory.kept row hinserted⟩
  · by_cases hlate : ∀ lane ∈ s.lanes, lane = .returned true
    · by_cases hnil : s.lanes = []
      · exact Or.inl (by simp [h.staffed hnil])
      · obtain ⟨lane, hlane⟩ := List.exists_mem_of_ne_nil _ hnil
        have hinv := h.lanes lane hlane
        rw [hlate lane hlane] at hinv
        exact Or.inr ⟨hinv, hlate⟩
    · -- A lane that returned before the deadline found no job left.
      push Not at hlate
      obtain ⟨lane, hlane, hne⟩ := hlate
      have hinv := h.lanes lane hlane
      have hisOver := hover lane hlane
      cases lane with
      | returned late =>
        cases late with
        | true => exact absurd rfl hne
        | false =>
          refine Or.inl fun job hjob => ?_
          rw [h.attempted, List.take_of_length_le hinv]
          exact List.mem_map_of_mem hjob
      | threw => exact hinv.elim
      | _ => cases hisOver

theorem tickRows_init (env : TickEnv) (now clock maxTickMs : Int) {jobs : List DueJob}
    (nextRunAt : Str → Option (Option Int)) (runs : List RunRow) (nextId : Nat) (hids : (jobs.map (·.id)).Nodup) :
    TickRows env (tickMachine env now clock maxTickMs jobs nextRunAt runs nextId).init := by
  have hidle : ∀ lane ∈ List.replicate (min TICK_CONCURRENCY jobs.length) Lane.idle, lane = .idle :=
    fun lane hlane => (List.mem_replicate.mp hlane).2
  have hcarried : (List.replicate (min TICK_CONCURRENCY jobs.length) Lane.idle).filterMap Lane.carried? = [] :=
    List.filterMap_eq_nil_iff.mpr fun lane hlane => hidle lane hlane ▸ rfl
  have hclaiming : (List.replicate (min TICK_CONCURRENCY jobs.length) Lane.idle).filterMap Lane.claiming? = [] :=
    List.filterMap_eq_nil_iff.mpr fun lane hlane => hidle lane hlane ▸ rfl
  refine ⟨hids, fun hnil => ?_, rfl, ?_, ?_, ?_, fun row hrow => absurd hrow List.not_mem_nil,
    fun lane hlane => hidle lane hlane ▸ trivial⟩
  · have hlen : min TICK_CONCURRENCY jobs.length = 0 := (List.replicate_eq_nil_iff _).mp hnil
    have hzero : jobs.length = 0 := by
      simp only [TICK_CONCURRENCY] at hlen
      omega
    exact List.eq_nil_of_length_eq_zero hzero
  · simp [tickMachine, hcarried]
  · simp [tickMachine, hclaiming]
  · simp [tickMachine, hclaiming]

/-- In every run in which no update of a claim and no query for an app comes back as an error, no occurrence that the
    tick has claimed goes without its history row, and no job stops the others. -/
theorem tick_rows (env : TickEnv) (now clock maxTickMs : Int) (jobs : List DueJob)
    (nextRunAt : Str → Option (Option Int)) (runs : List RunRow) (nextId : Nat) (hids : (jobs.map (·.id)).Nodup)
    (hrunIds : (runs.map (·.id)).Nodup) (hbelow : ∀ row ∈ runs, row.id < nextId) (inputs : List TickInput)
    (hanswered : ∀ input ∈ inputs, Answered input) :
    RowsKept env ((tickMachine env now clock maxTickMs jobs nextRunAt runs nextId).run inputs) := by
  have hsteps : (tickMachine env now clock maxTickMs jobs nextRunAt runs nextId).Steps (fun _ => Answered)
      (tickMachine env now clock maxTickMs jobs nextRunAt runs nextId).init inputs :=
    Machine.steps_of_forall _ hanswered _
  have hrows : TickRows env ((tickMachine env now clock maxTickMs jobs nextRunAt runs nextId).run inputs) :=
    Machine.invariant_runFrom (M := tickMachine env now clock maxTickMs jobs nextRunAt runs nextId)
      (fun s input h hgood => h.step input hgood) (tickRows_init env now clock maxTickMs nextRunAt runs nextId hids)
      hsteps
  have hhistory : History ((tickMachine env now clock maxTickMs jobs nextRunAt runs nextId).run inputs) :=
    Machine.invariant_runFrom (M := tickMachine env now clock maxTickMs jobs nextRunAt runs nextId)
      (fun s input h _ => h.step input) ⟨hrunIds, hbelow, fun row hrow => absurd hrow List.not_mem_nil⟩ hsteps
  exact hrows.kept hhistory

/-- One zone, an apps domain and no login wall. -/
def plainEnv : TickEnv where
  zones _ := some fun _ => 0
  appsPublicDomain := "apps".toList
  loginDomain := []
  domainToASCII label := label
  urlHost _ := none
  toLowerCase s := s

/-- A job that is due every minute. -/
def minuteJob : DueJob :=
  { id := "job".toList, scheduleExpr := "* * * * *".toList, timezone := "UTC".toList, nextRunAt := 0
    appId := "app".toList, timeoutMs := 1000 }

/-- A tick over that job. -/
def minuteTick : Machine CronTick TickInput :=
  tickMachine plainEnv 0 0 45000 [minuteJob] (Function.update (fun _ => none) minuteJob.id (some (some 0))) [] 0

/-- The one lane of the tick claims the job and asks for its app. -/
def claimMinuteJob : List TickInput := [.turn 0, .update 0 .answered, .resume 0]

/-- The query for the app of a claimed job fails: the tick is over, the job has moved, and it has no history row. -/
theorem lost_occurrence :
    let s := minuteTick.run (claimMinuteJob ++ [.lookUp 0 .failed])
    s.Over ∧ s.moved = [minuteJob.id] ∧ s.inserted = [] := by
  refine ⟨?_, ?_⟩
  · unfold CronTick.Over
    decide +kernel
  · decide +kernel

/-- The app of the job is not found, and the history says so. -/
theorem tick_rows_minute : RowsKept plainEnv (minuteTick.run
    (claimMinuteJob ++ [.lookUp 0 (.found none), .insert 0 false, .trim 0 false, .turn 0])) :=
  tick_rows plainEnv 0 0 45000 [minuteJob] _ [] 0 (by decide) (by decide) (by simp) _ (by simp [claimMinuteJob, Answered])

end TeamClu.AppCron
